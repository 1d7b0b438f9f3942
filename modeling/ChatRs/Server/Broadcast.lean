import ChatRs.Lib.Watch
import ChatRs.Server.Cleanup
import ChatRs.Server.Clear

/-!
# What becomes of a broadcast

`broadcast` takes a snapshot of the senders, offers the frame to each of them, and at its end
removes those that refused it. Registrations, removals and other broadcasts come in between. A
monitor notes for every connection the frames whose broadcast took its snapshot since the
connection was registered. Against that list the stream of one sender to one connection is in
one of two states (`Progress`):

* *whole*: all of the list has been enqueued, but for the frame that is being offered;
* *short*: the stream has ended early. Then the connection has been removed, or is among those
  that the sender's broadcast is about to remove, and nothing more is offered to it.

So a connection that is registered while no broadcast is under way has been sent all of it
(`broadcast_complete`), and no connection is ever sent a frame of a sender past one that it
missed (`broadcast_no_hole`).
-/

namespace ChatRs

open Machine (Config Guard free)

/-- For every connection, the frames whose broadcast took its snapshot since the connection was
registered. -/
def offers : Monitor World Label (Uuid → List ServerFrame) where
  init _ := []
  next w l _ since :=
    match l with
    | .act id .register => Function.update since id []
    | .act id (.collect _) => fun peer => since peer ++ (w.flight id).frames
    | _ => since

/-! ## What a step does to the offers -/

/-- Where a registration starts and ends. -/
theorem step_register {w w' : World} {id : Uuid} {evs : List Event}
    (h : step w (.act id .register) = some (w', evs)) :
    ∃ username, w.tasks id = some (.registering username)
      ∧ w'.tasks id = some (.live username .snapshotting) := by
  rw [step] at h
  split at h
  · rename_i phase hat
    cases phase with
    | registering username =>
      cases h
      exact ⟨username, hat, Function.update_self ..⟩
    | live username pc =>
      cases pc with
      | sending _ rest _ => cases rest <;> cases h
      | _ => cases h
    | _ => cases h
  · cases h

/-- Where a broadcast looks up its peers. -/
theorem step_collect {w w' : World} {id : Uuid} {order : List Uuid} {evs : List Event}
    (h : step w (.act id (.collect order)) = some (w', evs)) :
    ∃ username f, w.tasks id = some (.live username (.collecting f)) := by
  rw [step] at h
  split at h
  · rename_i phase hat
    cases phase with
    | live username pc =>
      cases pc with
      | collecting f => exact ⟨username, f, hat⟩
      | sending _ rest _ => cases rest <;> cases h
      | _ => cases h
    | _ => cases h
  · cases h

/-- Nothing is noted of any other step. -/
theorem offers_next_other {w w' : World} {l : Label} (hregister : ∀ id, l ≠ .act id .register)
    (hcollect : ∀ id order, l ≠ .act id (.collect order)) (since : Uuid → List ServerFrame) :
    offers.next w l w' since = since := by
  cases l with
  | act id a =>
    cases a with
    | register => exact absurd rfl (hregister id)
    | collect order => exact absurd rfl (hcollect id order)
    | _ => rfl
  | _ => rfl

/-- A step as the broadcasts see it. -/
inductive Offering (w w' : World) (l : Label) (evs : List Event) : Prop
  | quiet (hoffering : ∀ k peer, (w'.flight k).offering peer = (w.flight k).offering peer)
      (henqueued : ∀ peer, enqueuedTo peer evs = [])
      (hnoted : ∀ since peer, ¬ Unregistered (w.tasks peer) →
        offers.next w l w' since peer = since peer)
  | collects (id : Uuid) (f : ServerFrame) (order : List Uuid)
      (hat : w.flight id = .collecting f)
      (hflight : w'.flight = Function.update w.flight id (.sending f order))
      (hpeers : ∀ peer, peer ∈ order ↔ w.connections.Connected peer)
      (hconnections : w'.connections = w.connections)
      (henqueued : ∀ peer, enqueuedTo peer evs = [])
      (hnoted : ∀ since peer, offers.next w l w' since peer = since peer ++ [f])
  | enqueues (id : Uuid) (f : ServerFrame) (peer : Uuid) (rest : List Uuid)
      (hat : w.flight id = .sending f (peer :: rest))
      (hflight : w'.flight = Function.update w.flight id (.sending f rest))
      (hevs : evs = [.enqueued peer f])
      (hnoted : ∀ since, offers.next w l w' since = since)
  | refused (id : Uuid) (f : ServerFrame) (peer : Uuid) (rest : List Uuid)
      (hat : w.flight id = .sending f (peer :: rest))
      (hflight : w'.flight = Function.update w.flight id (.sending f rest))
      (hdead : peer ∈ w'.dead id) (henqueued : ∀ peer, enqueuedTo peer evs = [])
      (hnoted : ∀ since, offers.next w l w' since = since)

/-- A step of one task that leaves its offers as they are leaves them all. -/
theorem offering_goto {w u : World} {id : Uuid} {next : Phase} (hu : u.tasks = w.tasks)
    (hsame : ∀ peer, next.flight.offering peer = (w.flight id).offering peer) (k peer : Uuid) :
    ((u.goto id next).flight k).offering peer = (w.flight k).offering peer := by
  rw [World.flight_move hu]
  rcases eq_or_ne k id with rfl | hne
  · rw [Function.update_self, hsame]
  · rw [Function.update_of_ne hne]

/-- A task that has nothing in flight before and after its step leaves all offers as they are. -/
theorem offering_goto_idle {w u : World} {id : Uuid} {phase next : Phase} (hu : u.tasks = w.tasks)
    (hat : w.tasks id = some phase) (hphase : phase.flight = .idle)
    (hnext : next.flight = .idle) (k peer : Uuid) :
    ((u.goto id next).flight k).offering peer = (w.flight k).offering peer := by
  refine offering_goto hu (fun peer => ?_) k peer
  rw [World.flight_of_at hat, hphase, hnext]

/-- Nothing is noted of a task that has not just registered and does not look up its peers. -/
theorem offers_next_rests {w w' : World} {l : Label} {evs : List Event}
    (hstep : step w l = some (w', evs)) {id : Uuid} (hactor : l.actor = some id)
    (hafter : ∀ name, w'.tasks id ≠ some (.live name .snapshotting))
    (hbefore : ∀ name f, w.tasks id ≠ some (.live name (.collecting f)))
    (since : Uuid → List ServerFrame) : offers.next w l w' since = since := by
  apply offers_next_other
  · rintro i rfl
    cases hactor
    obtain ⟨name, _, hat⟩ := step_register hstep
    exact hafter name hat
  · rintro i order rfl
    cases hactor
    obtain ⟨name, f, hat⟩ := step_collect hstep
    exact hbefore name f hat

/-- What a step does to the frames that are offered to a peer and not sent yet: one case for each
place of a broadcast, and nothing anywhere else. A frame is added for every sender at `collect`, and
taken away when `try_send` has come to the peer. -/
theorem step_offering {w w' : World} {l : Label} {evs : List Event}
    (hstep : step w l = some (w', evs)) : Offering w w' l evs := by
  cases step_inv hstep with
  | early l id next hbefore hafter hname hactor =>
    refine .quiet (offering_goto rfl fun peer => ?_) (fun _ => rfl) fun since peer _ => ?_
    · rw [flight_of_unregistered hbefore, flight_of_after hafter]
    -- a task that registers, or looks up its peers, is not one of these
    · rw [offers_next_rests hstep hactor]
      · intro name hat
        rw [World.goto_tasks, Function.update_self] at hat
        cases hat
        rcases hafter with hafter | ⟨_, hafter⟩
        · exact hafter
        · cases hafter
      · intro name f hat
        rw [hat] at hbefore
        exact hbefore
  | register id username hat =>
    -- the monitor starts afresh for `id` alone, which no `peer` of the account is yet
    refine .quiet (offering_goto_idle rfl hat rfl rfl) (fun _ => rfl) fun since peer hpeer => ?_
    have hne : peer ≠ id := by
      rintro rfl
      rw [hat] at hpeer
      exact hpeer trivial
    exact Function.update_of_ne hne ..
  | accepts id username f out sessions hat hcheck =>
    -- a frame that has passed its checks is offered to nobody before `collect`
    refine .quiet (offering_goto rfl fun peer => ?_) (fun _ => rfl) fun _ _ _ => rfl
    rw [World.flight_of_at hat]
    show (afterCheck out).flight.offering peer = []
    rw [flight_afterCheck, Flight.offering_start]
  | store id username f hat =>
    refine .quiet (offering_goto rfl fun peer => ?_) (fun _ => rfl) fun _ _ _ => rfl
    rw [World.flight_of_at hat]
    rfl
  | evict id username f dead hat =>
    -- the list is worked off, so that the evicted peers have nothing on offer
    refine .quiet (offering_goto rfl fun peer => ?_) (fun _ => rfl) fun _ _ _ => rfl
    rw [World.flight_of_at hat]
    show [] = if peer ∈ [] then [f] else []
    rw [if_neg List.not_mem_nil]
  | collect id username f order hat horder =>
    -- the snapshot is any order of the senders; who is in it is offered the frame
    refine .collects id f order (World.flight_of_at hat) (World.flight_goto ..) (fun peer => ?_)
      rfl (fun _ => rfl) fun since peer => ?_
    · exact horder.mem_iff.trans (ConnectionManager.mem_snapshot ..)
    · show since peer ++ (w.flight id).frames = _
      rw [World.flight_of_at hat]
      rfl
  | enqueues id username f peer rest dead o hat hsend =>
    exact .enqueues id f peer rest (World.flight_of_at hat) (World.flight_goto ..) rfl
      fun _ => rfl
  | refused id username f peer rest dead hat hsend =>
    -- `try_send` failed: the peer joins the dead ones of this broadcast
    refine .refused id f peer rest (World.flight_of_at hat) (World.flight_goto ..) ?_
      (fun _ => rfl) fun _ => rfl
    rw [World.dead_goto_self]
    exact List.mem_append_right _ (List.mem_singleton_self peer)
  | snapshot _ _ hat | welcomed _ _ _ hat | unwelcomed _ _ _ _ hat
  | undelivered _ _ _ _ _ hat | incoming _ _ _ hat | touch _ _ _ hat | rejects _ _ _ _ _ hat
  | cleanup _ _ _ hat | leave _ _ _ hat =>
    exact .quiet (offering_goto_idle rfl hat rfl rfl) (fun _ => rfl) fun _ _ _ => rfl
  | stops id username a result hat =>
    -- a task that leaves `pump` neither registers nor looks up its peers
    refine .quiet (offering_goto_idle rfl hat rfl rfl) (fun _ => rfl) fun since peer _ => ?_
    rw [offers_next_rests hstep rfl]
    · intro name hat'
      rw [World.goto_tasks, Function.update_self] at hat'
      cases hat'
    · intro name f hat'
      rw [hat] at hat'
      cases hat'
  | delivers | elapse | scan | sweep =>
    exact .quiet (fun _ _ => rfl) (fun _ => rfl) fun _ _ _ => rfl

/-! ## The two states of a stream -/

/-- A stream of items that are offered one after the other: what has been sent of it, what is
left to be offered, and whether it has been cut off. -/
inductive Progress (offered sent left : List ServerFrame) (cut : Prop) : Prop
  | whole (hall : offered = sent ++ left)
  | short (hbegins : sent <+: offered) (hleft : left = []) (hcut : cut)

namespace Progress

variable {offered sent left : List ServerFrame} {cut cut' : Prop}

/-- What was sent is the beginning of what was offered. -/
theorem sent_begins (h : Progress offered sent left cut) : sent <+: offered := by
  cases h with
  | whole hall => exact ⟨left, hall.symm⟩
  | short hbegins _ _ => exact hbegins

/-- A session that was cut off stays cut off. -/
theorem mono (h : Progress offered sent left cut) (hcut : cut → cut') :
    Progress offered sent left cut' := by
  cases h with
  | whole hall => exact .whole hall
  | short hbegins hleft hc => exact .short hbegins hleft (hcut hc)

/-- One more item is on offer. -/
theorem offer (h : Progress offered sent [] cut) (hcut : ¬ cut) (f : ServerFrame) :
    Progress (offered ++ [f]) sent [f] cut' := by
  cases h with
  | whole hall => exact .whole (by rw [hall, List.append_nil])
  | short _ _ hc => exact absurd hc hcut

/-- One more item, which is not offered any more. -/
theorem miss (h : Progress offered sent [] cut) (hcut : cut') (f : ServerFrame) :
    Progress (offered ++ [f]) sent [] cut' :=
  .short (h.sent_begins.trans (List.prefix_append _ _)) rfl hcut

/-- A frame that is sent comes behind those that were sent before. -/
theorem send {f : ServerFrame} (h : Progress offered sent [f] cut) :
    Progress offered (sent ++ [f]) [] cut' := by
  cases h with
  | whole hall => exact .whole (by rw [hall, List.append_nil])
  | short _ hleft _ => cases hleft

theorem refuse {f : ServerFrame} (h : Progress offered sent [f] cut) (hcut : cut') :
    Progress offered sent [] cut' :=
  .short h.sent_begins rfl hcut

end Progress

/-- No broadcast of `k` will offer anything to `peer` any more: its sender has been removed, or
the broadcast under way is about to remove it. -/
def World.Cut (w : World) (k peer : Uuid) : Prop :=
  peer ∈ w.dead k ∨ ¬ w.connections.Connected peer

/-- A peer that one broadcast has found dead gets nothing more from that task. -/
theorem Step.cut {w w' : World} {l : Label} {evs : List Event} (h : Step w l w' evs)
    {k peer : Uuid} (hregistered : ¬ Unregistered (w.tasks peer)) (hcut : w.Cut k peer) :
    w'.Cut k peer := by
  rcases hcut with hdead | hgone
  · exact h.dead hdead
  · right
    intro hk
    rcases h.connected hk with hbefore | ⟨hnew, _⟩
    · exact hgone hbefore
    · exact hregistered hnew

/-- The stream of `k` to `peer`. -/
def Served (c : Config World Event) (since : Uuid → List ServerFrame) (k peer : Uuid) : Prop :=
  Progress (byOrigin k (since peer)) (byOrigin k (enqueuedTo peer c.past))
    ((c.state.flight k).offering peer) (c.state.Cut k peer)

section

variable {G : Guard World Label Event} {c : Config World Event}

/-- Only registered connections are offered anything. -/
theorem offering_registered (h : room.Reach G c) :
    ∀ k peer f rest, c.state.flight k = .sending f rest → peer ∈ rest →
      ¬ Unregistered (c.state.tasks peer) := by
  refine Reach.room_invariant ?_ ?_ h
  · intro k peer f rest hat
    cases hat
  intro c l w evs hreach ih _ hs k peer f rest hat hmem hnew
  have hbefore := hs.unregistered hnew
  have moved {id : Uuid} {b : Flight} (hflight : w.flight = Function.update c.state.flight id b)
      (hb : ∀ f rest, b = .sending f rest → peer ∈ rest → ¬ Unregistered (c.state.tasks peer)) :
      False := by
    simp only [hflight] at hat
    rcases eq_or_ne k id with rfl | hne
    · rw [Function.update_self] at hat
      exact hb f rest hat hmem hbefore
    · rw [Function.update_of_ne hne] at hat
      exact ih k peer f rest hat hmem hbefore
  cases hs.flow with
  | quiet _ hflight =>
    simp only [hflight] at hat
    exact ih k peer f rest hat hmem hbefore
  | accepts id g _ _ hflight =>
    refine moved hflight fun f rest heq => ?_
    unfold Flight.start at heq
    split at heq <;> cases heq
  | stores _ _ _ hflight | lands _ _ _ hflight => exact moved hflight nofun
  | collects id g order _ _ hflight hpeers =>
    refine moved hflight fun f rest heq hin => ?_
    cases heq
    exact connected_registered hreach peer ((hpeers peer).mp hin)
  | enqueues id g first others hat' hflight | refused id g first others hat' hflight =>
    refine moved hflight fun f rest heq hin => ?_
    cases heq
    exact ih id peer g _ hat' (List.mem_cons_of_mem _ hin)

/-- A sender appears only with the registration of its session. -/
theorem step_connects {w w' : World} {l : Label} {evs : List Event}
    (hstep : step w l = some (w', evs)) {peer : Uuid} (hbefore : ¬ w.connections.Connected peer)
    (hafter : w'.connections.Connected peer) : l = .act peer .register := by
  cases step_inv hstep with
  | register id username hat =>
    rcases (ConnectionManager.connected_insert ..).mp hafter with rfl | hk
    · rfl
    · exact absurd hk hbefore
  | evict | sweep => exact absurd ((ConnectionManager.connected_removeAll ..).mp hafter).2 hbefore
  | cleanup => exact absurd ((ConnectionManager.connected_remove ..).mp hafter).2 hbefore
  | _ => exact absurd hafter hbefore

/-- A connection that registers has been sent and offered nothing. -/
theorem nothing_sent {w : World} {l : Label} {evs : List Event} (h : room.Reach free c)
    (hstep : step c.state l = some (w, evs)) {peer : Uuid}
    (hnew : Unregistered (c.state.tasks peer)) :
    enqueuedTo peer (c.past ++ evs) = [] ∧ ∀ k, (w.flight k).offering peer = [] := by
  have hnone (k : Uuid) (f : ServerFrame) (rest : List Uuid)
      (hat : c.state.flight k = .sending f rest) : peer ∉ rest :=
    fun hmem => offering_registered h k peer f rest hat hmem hnew
  have hbefore (k : Uuid) : (c.state.flight k).offering peer = [] := by
    cases hat : c.state.flight k with
    | sending f rest => exact if_neg (hnone k f rest hat)
    | _ => rfl
  constructor
  · obtain ⟨-, hempty, -⟩ := (channel_iff_of_unregistered hnew).mp (channel h peer)
    rw [enqueuedTo_append, hempty, List.nil_append]
    refine enqueuedTo_eq_nil fun f hf => ?_
    obtain ⟨_, k, username, rest, dead, _, hat⟩ := (step_inv hstep).of_enqueued hf
    exact hnone k f _ (World.flight_of_at hat) List.mem_cons_self
  · -- what is on offer after the step was so before, or goes to who is connected
    intro k
    have moved {id : Uuid} {f : ServerFrame} {rest : List Uuid}
        (hflight : w.flight = Function.update c.state.flight id (.sending f rest))
        (hpeer : peer ∉ rest) : (w.flight k).offering peer = [] := by
      rw [hflight]
      rcases eq_or_ne k id with rfl | hne
      · rw [Function.update_self]
        exact if_neg hpeer
      · rw [Function.update_of_ne hne]
        exact hbefore k
    cases step_offering hstep with
    | quiet hoffering => rw [hoffering, hbefore]
    | collects id f order hat hflight hpeers =>
      exact moved hflight fun hmem =>
        connected_registered h peer ((hpeers peer).mp hmem) hnew
    | enqueues id f first rest hat hflight | refused id f first rest hat hflight =>
      exact moved hflight fun hmem => hnone id f _ hat (List.mem_cons_of_mem _ hmem)

/-- An offer of one sender to one peer leaves all others as they are. -/
theorem offering_update {φ : Uuid → Flight} {id peer : Uuid} {f : ServerFrame} {rest : List Uuid}
    (hat : φ id = .sending f (peer :: rest)) {k q : Uuid} (hother : k ≠ id ∨ q ≠ peer) :
    (Function.update φ id (.sending f rest) k).offering q = (φ k).offering q := by
  rcases eq_or_ne k id with rfl | hne
  · rw [Function.update_self, hat]
    exact Flight.offering_tail f rest (hother.resolve_left fun h => h rfl)
  · rw [Function.update_of_ne hne]

/-- Every step keeps the account between a task and a peer: what was offered to the peer since it
registered is what was sent to it and what is left, unless the peer was cut off on the way. -/
theorem served_step {w : World} {l : Label} {evs : List Event} {since : Uuid → List ServerFrame}
    (h : room.Reach free c) (hstep : step c.state l = some (w, evs))
    (ih : ∀ peer, ¬ Unregistered (c.state.tasks peer) → ∀ k, Served c since k peer) :
    ∀ peer, ¬ Unregistered (w.tasks peer) → ∀ k,
      Served ⟨c.past ++ evs, w⟩ (offers.next c.state l w since) k peer := by
  intro peer hpeer k
  have hs := step_inv hstep
  by_cases hnew : Unregistered (c.state.tasks peer)
  · -- `peer` has just registered, or is not there yet: nothing of the past was meant for it
    obtain ⟨hsent, hleft⟩ := nothing_sent h hstep hnew
    unfold Served
    rw [hsent, hleft]
    by_cases hconnected : w.connections.Connected peer
    · -- the monitor starts afresh
      have hl := step_connects hstep (fun hk => connected_registered h peer hk hnew) hconnected
      rw [hl, show offers.next c.state (.act peer .register) w since peer = [] from
        Function.update_self ..]
      exact .whole rfl
    · exact .short List.nil_prefix rfl (.inr hconnected)
  have hcut {k : Uuid} : c.state.Cut k peer → w.Cut k peer := hs.cut hnew
  have hserved := ih peer hnew k
  unfold Served at hserved ⊢
  rw [enqueuedTo_append, byOrigin_append]
  cases step_offering hstep with
  | quiet hoffering henqueued hnoted =>
    rw [hoffering, henqueued, hnoted since peer hnew, byOrigin_nil, List.append_nil]
    exact hserved.mono hcut
  | collects id f order hat hflight hpeers hconnections henqueued hnoted =>
    have horigin := (of_flight h hat rfl).2
    rw [hflight, henqueued, hnoted, byOrigin_append, byOrigin_nil, List.append_nil]
    rcases eq_or_ne k id with rfl | hne
    · rw [Function.update_self, byOrigin_self _ f horigin]
      rw [hat] at hserved
      show Progress _ _ (if peer ∈ order then [f] else []) _
      by_cases hmem : peer ∈ order
      · -- who is in the snapshot has not been cut off
        have hfree : ¬ c.state.Cut k peer := by
          rintro (hdead | hgone)
          · rw [World.dead_of_not_sending (by rw [hat]; exact nofun)] at hdead
            cases hdead
          · exact hgone ((hpeers peer).mp hmem)
        rw [if_pos hmem]
        exact hserved.offer hfree f
      · rw [if_neg hmem]
        -- it has no sender in the snapshot, so it has left or is cut off
        refine hserved.miss (.inr fun hk => hmem ((hpeers peer).mpr ?_)) f
        rw [← hconnections]
        exact hk
    · -- the frame is of another origin
      rw [Function.update_of_ne hne, byOrigin_other f horigin hne, List.append_nil]
      exact hserved.mono hcut
  | enqueues id f first rest hat hflight hevs hnoted =>
    have horigin := (of_flight h hat rfl).2
    have hnodup := (List.nodup_cons.mp (rest_nodup h _ _ _ hat)).1
    rw [hevs, hflight, hnoted]
    rcases eq_or_ne peer first with rfl | hfirst
    · -- it is this peer's turn
      rw [enqueuedTo_self]
      rcases eq_or_ne k id with rfl | hne
      · -- what was on offer has been sent
        rw [hat, show (Flight.sending f (peer :: rest)).offering peer = [f] from
          if_pos List.mem_cons_self] at hserved
        rw [byOrigin_self _ f horigin, Function.update_self,
          show (Flight.sending f rest).offering peer = [] from if_neg hnodup]
        exact hserved.send
      · rw [byOrigin_other f horigin hne, List.append_nil, Function.update_of_ne hne]
        exact hserved.mono hcut
    · -- it is the turn of another peer
      rw [enqueuedTo_other f hfirst, byOrigin_nil, List.append_nil,
        offering_update hat (.inr hfirst)]
      exact hserved.mono hcut
  | refused id f first rest hat hflight hdead henqueued hnoted =>
    have hnodup := (List.nodup_cons.mp (rest_nodup h _ _ _ hat)).1
    rw [henqueued, byOrigin_nil, List.append_nil, hflight, hnoted]
    by_cases hoffer : k = id ∧ peer = first
    · -- the stream ends here
      obtain ⟨rfl, rfl⟩ := hoffer
      rw [hat, show (Flight.sending f (peer :: rest)).offering peer = [f] from
        if_pos List.mem_cons_self] at hserved
      rw [Function.update_self, show (Flight.sending f rest).offering peer = [] from if_neg hnodup]
      exact hserved.refuse (.inl hdead)
    · -- the refusal was another peer's, or of another task
      rw [offering_update hat (not_and_or.mp hoffer)]
      exact hserved.mono hcut

end

/-! ## Nothing is lost silently -/

section

variable {G : Guard (World × (Uuid → List ServerFrame)) Label Event}
  {c : Config (World × (Uuid → List ServerFrame)) Event}

/-- **The account is right along every run**, as every step keeps it (`served_step`). -/
theorem served (h : (room.watch offers).Reach G c) :
    ∀ peer, ¬ Unregistered (c.state.1.tasks peer) → ∀ k, Served c.forget c.state.2 k peer := by
  refine Machine.Reach.watch_invariant (P := fun c since => ∀ peer,
    ¬ Unregistered (c.state.tasks peer) → ∀ k, Served c since k peer) ?_ ?_ h
  · exact fun peer hpeer => absurd trivial hpeer
  · exact fun c since l w evs hreach ih _ hstep => served_step hreach hstep ih

/-- What is offered comes from a session. -/
theorem offered_origin (h : (room.watch offers).Reach G c) :
    ∀ peer, ∀ f ∈ c.state.2 peer, ∃ id, f.origin = some id := by
  refine Machine.Reach.watch_invariant (P := fun _ since => ∀ peer, ∀ f ∈ since peer,
    ∃ id, f.origin = some id) ?_ ?_ h
  · intro peer f hf
    cases hf
  intro c since l w evs hreach ih _ hstep peer f hf
  by_cases hregister : ∃ id, l = .act id .register
  · obtain ⟨id, rfl⟩ := hregister
    replace hf : f ∈ Function.update since id [] peer := hf
    rcases eq_or_ne peer id with rfl | hne
    · rw [Function.update_self] at hf
      cases hf
    · rw [Function.update_of_ne hne] at hf
      exact ih peer f hf
  by_cases hcollect : ∃ id order, l = .act id (.collect order)
  · obtain ⟨id, order, rfl⟩ := hcollect
    obtain ⟨username, g, hat⟩ := step_collect hstep
    have hflight := World.flight_of_at hat
    replace hf : f ∈ since peer ++ (c.state.flight id).frames := hf
    rw [hflight] at hf
    rcases List.mem_append.mp hf with hf | hf
    · exact ih peer f hf
    · rw [List.mem_singleton.mp hf]
      exact ⟨id, (of_flight hreach hflight rfl).2⟩
  rw [offers_next_other (fun id hl => hregister ⟨id, hl⟩)
    fun id order hl => hcollect ⟨id, order, hl⟩] at hf
  exact ih peer f hf

/-- Frames that are the same sender by sender are the same up to their order. -/
theorem perm_of_byOrigin {fs gs : List ServerFrame} (hf : ∀ f ∈ fs, ∃ id, f.origin = some id)
    (hg : ∀ f ∈ gs, ∃ id, f.origin = some id) (h : ∀ k, byOrigin k fs = byOrigin k gs) :
    fs.Perm gs := by
  rw [List.perm_iff_count]
  intro f
  cases horigin : f.origin with
  | none =>
    have hnone {hs : List ServerFrame} (hh : ∀ f ∈ hs, ∃ id, f.origin = some id) : f ∉ hs := by
      intro hmem
      obtain ⟨id, hid⟩ := hh f hmem
      rw [horigin] at hid
      cases hid
    rw [List.count_eq_zero.mpr (hnone hf), List.count_eq_zero.mpr (hnone hg)]
  | some k =>
    have hcount (hs : List ServerFrame) : hs.count f = (byOrigin k hs).count f :=
      (List.count_filter (by simp [horigin])).symm
    rw [hcount fs, hcount gs, h k]

/-- **No silent loss.** In every run: when no broadcast is between its snapshot and its end, a
connection that is registered has been sent every frame whose broadcast took its snapshot since
the registration, each exactly once, and those of one sender in their order. -/
theorem broadcast_complete (h : (room.watch offers).Reach free c)
    (hquiet : ∀ k f rest, c.state.1.flight k ≠ .sending f rest) :
    ∀ peer, c.state.1.connections.Connected peer →
      (enqueuedTo peer c.past).Perm (c.state.2 peer)
        ∧ ∀ k, byOrigin k (enqueuedTo peer c.past) = byOrigin k (c.state.2 peer) := by
  intro peer hconnected
  have hreach := h.forget
  have hsame : ∀ k, byOrigin k (enqueuedTo peer c.past) = byOrigin k (c.state.2 peer) := by
    intro k
    have hserved := served h peer (connected_registered hreach peer hconnected) k
    unfold Served at hserved
    cases hserved with
    | whole hall =>
      have hleft : (c.state.1.flight k).offering peer = [] := by
        cases hat : c.state.1.flight k with
        | sending f rest => exact absurd hat (hquiet k f rest)
        | _ => rfl
      rw [Machine.Config.forget_state, hleft, List.append_nil] at hall
      exact hall.symm
    | short _ _ hcut =>
      -- it would be cut off only after the end of a broadcast
      rcases hcut with hdead | hgone
      · rw [Machine.Config.forget_state, World.dead_of_not_sending (hquiet k)] at hdead
        cases hdead
      · exact absurd hconnected hgone
  refine ⟨perm_of_byOrigin (fun f hf => ?_) (offered_origin h peer) hsame, hsame⟩
  exact accepted_origin hreach f (accepted_of_enqueued hreach peer f hf)

end

open Cast in
/-- Alice's message has reached Bob, and the list of what he was to be sent holds it. -/
theorem broadcast_complete_bob :
    ∃ c, (room.watch offers).Reach free c
      ∧ c.state.2 bob = [.message (relayed alice "alice" 1 false)]
      ∧ (enqueuedTo bob c.past).Perm (c.state.2 bob) := by
  let labels := bothArrive ++ sends alice (note alice "alice" 1 false) ++ [.act alice .store]
    ++ broadcasts alice [bob, alice] ++ [receives bob, receives alice]
  obtain ⟨c, hc, hat⟩ := Option.map_eq_some_iff.mp
    (show ((room.watch offers).exec (fun _ _ => true) (room.watch offers).start labels).map
      (fun c => ((c.state.1.isDrained alice && c.state.1.isDrained bob,
        c.state.1.connections.snapshot), c.state.2 bob))
        = some ((true, [bob, alice]), [.message (relayed alice "alice" 1 false)]) by decide)
  obtain ⟨htests, hoffered⟩ := Prod.mk.inj hat
  obtain ⟨hdrained, hsnapshot⟩ := Prod.mk.inj htests
  have hreach : (room.watch offers).Reach free c := Machine.exec_run (fun _ _ _ => trivial) hc
  have hroom : room.exec (fun _ _ => true) room.start labels = some c.forget :=
    Machine.exec_forget hc
  have hnothing : room.exec (fun _ _ => true) c.forget [] = some c.forget := rfl
  have hidle : ∀ k, c.state.1.flight k = .idle :=
    all_idle hroom hnothing (by decide) hdrained
  have hquiet : ∀ k f rest, c.state.1.flight k ≠ .sending f rest := by
    intro k f rest
    rw [hidle k]
    exact nofun
  refine ⟨c, hreach, hoffered, (broadcast_complete hreach hquiet bob ?_).1⟩
  exact (connected_both hsnapshot bob).mpr (.inl rfl)

/-! ## No hole in the stream of a sender -/

/-- The peers that a broadcast has still to reach and those that have refused are different. -/
def Phase.Untangled : Phase → Prop
  | .live _ (.sending _ rest dead) => (rest ++ dead).Nodup
  | _ => True

section

variable {G : Guard World Label Event} {c c' : Config World Event}

/-- The list of a broadcast and the list of the dead have no peer in common: each peer goes from the
one to the other at most once. -/
theorem untangled (h : room.Reach G c) :
    ∀ id phase, c.state.tasks id = some phase → phase.Untangled := by
  refine Reach.room_invariant ?_ ?_ h
  · intro id phase hat
    cases hat
  intro c l w evs _ ih _ hs k phase hk
  have moves {u : World} {id : Uuid} {next : Phase} (hu : u.tasks = c.state.tasks)
      (hk : (u.goto id next).tasks k = some phase) (hnext : next.Untangled) :
      phase.Untangled := by
    rcases World.goto_at hk with ⟨_, rfl⟩ | ⟨_, hbefore⟩
    · exact hnext
    · rw [hu] at hbefore
      exact ih k phase hbefore
  cases hs with
  | early l id next hbefore hafter hname =>
    refine moves rfl hk ?_
    cases next with
    | live _ _ =>
      rcases hafter with hafter | ⟨_, hafter⟩
      · exact hafter.elim
      · cases hafter
    | _ => trivial
  | accepts id username f out sessions hat hcheck =>
    refine moves rfl hk ?_
    unfold afterCheck
    split
    · split <;> trivial
    · trivial
  | collect id username f order hat horder =>
    refine moves rfl hk ?_
    -- the senders are a map, whose keys are distinct
    show (order ++ []).Nodup
    rw [List.append_nil, horder.nodup_iff]
    exact ConnectionManager.snapshot_nodup _
  | enqueues id username f peer rest dead o hat hsend =>
    have hnodup : (peer :: (rest ++ dead)).Nodup := ih id _ hat
    exact moves rfl hk (List.nodup_cons.mp hnodup).2
  | refused id username f peer rest dead hat hsend =>
    have hnodup : (peer :: (rest ++ dead)).Nodup := ih id _ hat
    refine moves rfl hk ?_
    -- the peer goes from the one list to the other
    show (rest ++ (dead ++ [peer])).Nodup
    rw [← List.append_assoc]
    exact (List.perm_append_singleton peer (rest ++ dead)).nodup_iff.mpr hnodup
  | delivers | elapse | scan | sweep => exact ih k phase hk
  | _ => exact moves rfl hk trivial

/-- A peer that has refused the frame of a broadcast is not offered it again. -/
theorem dead_not_offered (h : room.Reach G c) {k peer : Uuid} (hdead : peer ∈ c.state.dead k) :
    (c.state.flight k).offering peer = [] := by
  unfold World.dead at hdead
  split at hdead
  · rename_i phase hat
    rw [World.flight_of_at hat]
    cases phase with
    | live username pc =>
      cases pc with
      | sending f rest dead =>
        have hnodup : (rest ++ dead).Nodup := untangled h k _ hat
        refine if_neg fun hmem => ?_
        exact List.disjoint_of_nodup_append hnodup hmem hdead
      | _ => rfl
    | _ => rfl
  · cases hdead

theorem prefix_of_eq {fs gs : List ServerFrame} (h : fs = gs) : fs <+: gs :=
  h ▸ List.prefix_refl fs

/-- A stream that has been cut off gets no more than what is on offer. -/
theorem cut_step {w : World} {l : Label} {evs : List Event} (h : room.Reach free c)
    (hstep : step c.state l = some (w, evs)) {k peer : Uuid} (hcut : c.state.Cut k peer) :
    byOrigin k (enqueuedTo peer (c.past ++ evs)) ++ (w.flight k).offering peer
      <+: byOrigin k (enqueuedTo peer c.past) ++ (c.state.flight k).offering peer := by
  rw [enqueuedTo_append, byOrigin_append]
  cases step_offering hstep with
  | quiet hoffering henqueued =>
    apply prefix_of_eq
    rw [hoffering, henqueued, byOrigin_nil, List.append_nil]
  | collects id f order hat hflight hpeers _ henqueued =>
    rw [henqueued, byOrigin_nil, List.append_nil, hflight]
    rcases eq_or_ne k id with rfl | hne
    · -- the peer is not in the snapshot
      have hgone : ¬ c.state.connections.Connected peer := by
        refine hcut.resolve_left fun hdead => ?_
        rw [World.dead_of_not_sending (by rw [hat]; exact nofun)] at hdead
        cases hdead
      rw [Function.update_self, hat]
      show _ ++ (if peer ∈ order then [f] else []) <+: _
      rw [if_neg fun hmem => hgone ((hpeers peer).mp hmem), List.append_nil]
      exact List.prefix_append _ _
    · apply prefix_of_eq
      rw [Function.update_of_ne hne]
  | enqueues id f first rest hat hflight hevs =>
    have horigin := (of_flight h hat rfl).2
    apply prefix_of_eq
    rw [hevs, hflight]
    by_cases hoffer : k = id ∧ peer = first
    · -- what was on offer has been sent
      obtain ⟨rfl, rfl⟩ := hoffer
      have hnodup := (List.nodup_cons.mp (rest_nodup h _ _ _ hat)).1
      rw [enqueuedTo_self, byOrigin_self _ f horigin, Function.update_self, hat,
        show (Flight.sending f rest).offering peer = [] from if_neg hnodup,
        show (Flight.sending f (peer :: rest)).offering peer = [f] from
          if_pos List.mem_cons_self, List.append_nil]
    · have hother := not_and_or.mp hoffer
      have hnone : byOrigin k (enqueuedTo peer [.enqueued first f]) = [] := by
        rcases eq_or_ne peer first with rfl | hfirst
        · rw [enqueuedTo_self]
          exact byOrigin_other f horigin (hother.resolve_right fun h => h rfl)
        · rw [enqueuedTo_other f hfirst, byOrigin_nil]
      rw [hnone, List.append_nil, offering_update hat hother]
  | refused id f first rest hat hflight _ henqueued =>
    rw [henqueued, byOrigin_nil, List.append_nil, hflight]
    by_cases hoffer : k = id ∧ peer = first
    · -- what was on offer is dropped
      obtain ⟨rfl, rfl⟩ := hoffer
      have hnodup := (List.nodup_cons.mp (rest_nodup h _ _ _ hat)).1
      rw [Function.update_self, show (Flight.sending f rest).offering peer = [] from
        if_neg hnodup, List.append_nil]
      exact List.prefix_append _ _
    · apply prefix_of_eq
      rw [offering_update hat (not_and_or.mp hoffer)]

/-- A stream that has been cut off gets no more in any later run than what was on offer. -/
theorem cut_later (h : room.Reach free c) (hrun : room.Run free c c') {k peer : Uuid}
    (hregistered : ¬ Unregistered (c.state.tasks peer)) (hcut : c.state.Cut k peer) :
    byOrigin k (enqueuedTo peer c'.past) ++ (c'.state.flight k).offering peer
      <+: byOrigin k (enqueuedTo peer c.past) ++ (c.state.flight k).offering peer := by
  have hall : ¬ Unregistered (c'.state.tasks peer) ∧ c'.state.Cut k peer
      ∧ byOrigin k (enqueuedTo peer c'.past) ++ (c'.state.flight k).offering peer
        <+: byOrigin k (enqueuedTo peer c.past) ++ (c.state.flight k).offering peer := by
    refine Machine.Run.invariant (P := fun d => ¬ Unregistered (d.state.tasks peer)
      ∧ d.state.Cut k peer
      ∧ byOrigin k (enqueuedTo peer d.past) ++ (d.state.flight k).offering peer
        <+: byOrigin k (enqueuedTo peer c.past) ++ (c.state.flight k).offering peer) hrun
      ⟨hregistered, hcut, List.prefix_refl _⟩ ?_
    rintro d l w evs hd ⟨hlive, hcutd, hbegins⟩ _ hstep
    have hs := step_inv hstep
    refine ⟨fun hnew => hlive (hs.unregistered hnew), hs.cut hlive hcutd, ?_⟩
    exact (cut_step (h.trans hd) hstep hcutd).trans hbegins
  exact hall.2.2

end

/-- **No hole in the stream of a sender.** What a connection has been sent of one sender is a
beginning of what that sender has broadcast since the connection was registered. Once a
broadcast has failed to reach a connection, nothing more of its sender is enqueued to it; and
once the connection has been removed, nothing is but what was already on offer. -/
theorem broadcast_no_hole {c : Config (World × (Uuid → List ServerFrame)) Event}
    (h : (room.watch offers).Reach free c) (peer : Uuid)
    (hregistered : ¬ Unregistered (c.state.1.tasks peer)) (k : Uuid) :
    byOrigin k (enqueuedTo peer c.past) <+: byOrigin k (c.state.2 peer)
      ∧ ∀ c', (room.watch offers).Run free c c' →
        (peer ∈ c.state.1.dead k →
          byOrigin k (enqueuedTo peer c'.past) = byOrigin k (enqueuedTo peer c.past))
        ∧ (¬ c.state.1.connections.Connected peer →
          byOrigin k (enqueuedTo peer c'.past)
            <+: byOrigin k (enqueuedTo peer c.past) ++ (c.state.1.flight k).offering peer) := by
  refine ⟨(served h peer hregistered k).sent_begins, fun c' hrun => ?_⟩
  have hreach := h.forget
  have hrun' : room.Run free c.forget c'.forget := Machine.Run.forget (fun _ _ _ => trivial) hrun
  constructor
  · intro hdead
    have hlater := cut_later hreach hrun' hregistered (.inl hdead)
    rw [dead_not_offered hreach hdead, List.append_nil] at hlater
    obtain ⟨evs, hevs⟩ := hrun'.past_prefix
    have hgrown : byOrigin k (enqueuedTo peer c.past) <+: byOrigin k (enqueuedTo peer c'.past) := by
      rw [← Machine.Config.forget_past c', ← hevs, enqueuedTo_append, byOrigin_append]
      exact List.prefix_append _ _
    have hshrunk := (List.prefix_append _ _).trans hlater
    exact hshrunk.eq_of_length_le hgrown.length_le
  · intro hgone
    exact (List.prefix_append _ _).trans (cut_later hreach hrun' hregistered (.inr hgone))

namespace Cast

def carol : Uuid := List.Vector.replicate 16 3

/-- Bob's connection dies before his Welcome, and his sender stays in the map. -/
def bobDies : List Label :=
  arrives alice "alice" ++ isWelcomed alice ++ arrives bob "bob"
    ++ [.act bob .snapshot, .act bob (.sendWelcome (.error .io)), .act bob .leave]

/-- Alice has the floor for `n` secret messages, one every eleven seconds. Bob takes in nothing
of them. -/
def monologue : Nat → List Label
  | 0 => []
  | n + 1 =>
    monologue n ++ .elapse (.fromSecs 11)
      :: sends alice (note alice "alice" (UInt64.ofNat (n + 1)) true)
      ++ broadcasts alice [bob, alice] ++ [receives alice]

/-- Bob's outbox is full. A message of Carol's and one of Alice's are on their way to him, and
Alice's is refused. -/
def bobIsFull : List Label :=
  bothArrive ++ monologue 64 ++ arrives carol "carol" ++ isWelcomed carol
    ++ sends carol (note carol "carol" 1 true) ++ [.act carol (.collect [bob, alice, carol])]
    ++ .elapse (.fromSecs 11) :: sends alice (note alice "alice" 65 true)
    ++ [.act alice (.collect [bob, alice, carol]), .act alice .trySend]

end Cast

open Cast in
/-- Bob's connection is dead: Alice's second message is not enqueued either. -/
theorem broadcast_no_hole_dead :
    ∃ c c', (room.watch offers).Reach free c ∧ (room.watch offers).Run free c c'
      ∧ bob ∈ c.state.1.dead alice
      ∧ byOrigin alice (enqueuedTo bob c'.past) = byOrigin alice (enqueuedTo bob c.past) := by
  obtain ⟨c, c', hc, hc', hat, _⟩ := Machine.exec_then (M := room.watch offers)
    (fun _ _ => true) (fun _ _ => true)
    (bobDies ++ sends alice (note alice "alice" 1 true)
      ++ [.act alice (.collect [bob, alice]), .act alice .trySend])
    ([.act alice .trySend, .act alice .evict] ++ sends alice (note alice "alice" 2 true)
      ++ broadcasts alice [alice])
    (fun c => (c.state.1.hasReturned bob, c.state.1.dead alice)) (true, [bob])
    (fun c => (acceptedIn c.past).length) 2 (by decide)
  obtain ⟨hreturned, hdead⟩ := Prod.mk.inj hat
  have hreach : (room.watch offers).Reach free c := Machine.exec_run (fun _ _ _ => trivial) hc
  have hrun : (room.watch offers).Run free c c' := Machine.exec_run (fun _ _ _ => trivial) hc'
  have hmem : bob ∈ c.state.1.dead alice := by
    rw [hdead]
    exact List.mem_singleton_self bob
  obtain ⟨result, hbob⟩ := returned_of_hasReturned hreturned
  have hregistered : ¬ Unregistered (c.state.1.tasks bob) := by
    rw [hbob]
    exact not_false
  exact ⟨c, c', hreach, hrun, hmem,
    ((broadcast_no_hole hreach bob hregistered alice).2 c' hrun).1 hmem⟩

open Cast in
/-- Bob makes room for one frame before he is removed, and Carol's message gets through after
Alice's has not. -/
theorem sent_after_refusal :
    ¬ ∀ c k peer, room.Reach free c → peer ∈ c.state.dead k → ∀ c', room.Run free c c' →
        enqueuedTo peer c'.past = enqueuedTo peer c.past := by
  intro hall
  obtain ⟨c, hc, hat⟩ := Machine.exec_reach_free (M := room)
    (fun c => (c.state.dead alice, (step c.state (receives bob)).bind fun r =>
      (step r.1 (.act carol .trySend)).map fun r => enqueuedTo bob r.2))
    ([bob], some [.message (relayed carol "carol" 1 true)]) bobIsFull (by decide +kernel)
  obtain ⟨hdead, hsteps⟩ := Prod.mk.inj hat
  obtain ⟨⟨w₁, evs₁⟩, hreceives, hsends⟩ := Option.bind_eq_some_iff.mp hsteps
  obtain ⟨⟨w₂, evs₂⟩, hsends, hsent⟩ := Option.map_eq_some_iff.mp hsends
  have hmem : bob ∈ c.state.dead alice := by
    rw [hdead]
    exact List.mem_singleton_self bob
  have hfirst : room.Run free c ⟨c.past ++ evs₁, w₁⟩ :=
    .single (.mk (receives bob) w₁ evs₁ trivial hreceives)
  replace hsends : room.step w₁ (.act carol .trySend) = some (w₂, evs₂) := hsends
  have hrun : room.Run free c ⟨c.past ++ evs₁ ++ evs₂, w₂⟩ :=
    hfirst.tail (.mk (.act carol .trySend) w₂ evs₂ trivial hsends)
  have hsame := hall c alice bob hc hmem _ hrun
  replace hsame : enqueuedTo bob (c.past ++ evs₁ ++ evs₂) = enqueuedTo bob c.past := hsame
  rw [enqueuedTo_append, enqueuedTo_append, hsent] at hsame
  have hlen := congrArg List.length hsame
  simp only [List.length_append, List.length_singleton] at hlen
  omega

end ChatRs

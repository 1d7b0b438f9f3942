import ChatRs.Server.Channel
import ChatRs.Server.Join

/-!
# A clear, on the server and on the clients

The history and the screen of a client are the same window on two streams: the frames in the
order in which they were stored, and in the order in which they were enqueued to the client.
Storing and broadcasting a frame are separate critical sections, so the handlers of two
sessions can cross between them, and then the two orders differ. The plan:

* of each sender, a client that stays connected misses nothing (`caught_up`);
* when every frame is offered to the client only after all the frames that were stored before
  it, the second stream is a prefix of the first (`enqueued_prefix`);
* **`clear_consistent`**: so the streams are equal once everything has landed, and with them
  the windows.
-/

namespace ChatRs

open Machine (Config Guard free)

/-- The last `HISTORY_LEN` non-ephemeral messages a client received since the last `Cleared`
it processed. -/
def lastReceived (frames : List ServerFrame) : List RoomMessage :=
  (Ring.sinceWipe ((lastingOf frames).filterMap ServerFrame.historyOp)).rtake HISTORY_LEN

/-- The client has its sender in the map, and no broadcast has failed to reach it. -/
def World.Kept (w : World) (id : Uuid) : Prop :=
  w.connections.Connected id ∧ ∀ k, id ∉ w.dead k

/-- The frames that change the history are offered to `id` in the order in which they were
stored: one that is about to be enqueued follows on what was enqueued before. -/
def InOrder (id : Uuid) : Guard World Label Event := fun c l =>
  ∀ k username f rest dead, l = .act k .trySend →
    c.state.tasks k = some (.live username (.sending f (id :: rest) dead)) →
    f.lasting = true → lastingOf (enqueuedTo id c.past) ++ [f] <+: storedIn c.past

/-! ## Who stays -/

/-- A peer that is to be evicted stays so, until it is. -/
theorem Step.dead {w w' : World} {l : Label} {evs : List Event} (h : Step w l w' evs)
    {k id : Uuid} (hdead : id ∈ w.dead k) :
    id ∈ w'.dead k ∨ ¬ w'.connections.Connected id := by
  -- a step of a task that is not at the end of a broadcast
  have moves {u : World} {i : Uuid} {phase next : Phase} (hu : u.tasks = w.tasks)
      (hat : w.tasks i = some phase) (hkept : id ∈ phase.dead → id ∈ next.dead) :
      id ∈ (u.goto i next).dead k := by
    rcases eq_or_ne k i with rfl | hne
    · rw [World.dead_goto_self]
      rw [World.dead_of_at hat] at hdead
      exact hkept hdead
    · rw [World.dead_goto_of_ne u next hne, World.dead, hu]
      exact hdead
  have idles {u : World} {i : Uuid} {phase next : Phase} (hu : u.tasks = w.tasks)
      (hat : w.tasks i = some phase) (hphase : phase.dead = []) : id ∈ (u.goto i next).dead k := by
    refine moves hu hat fun hmem => ?_
    rw [hphase] at hmem
    cases hmem
  cases h with
  | early l i next hbefore hafter hname =>
    rcases eq_or_ne k i with rfl | hne
    · rw [World.dead] at hdead
      split at hdead
      · rename_i phase hat
        rw [hat] at hbefore
        cases phase with
        | live _ _ => exact hbefore.elim
        | _ => cases hdead
      · cases hdead
    · rw [World.dead_goto_of_ne w next hne]
      exact .inl hdead
  | evict i username f dead hat =>
    rcases eq_or_ne k i with rfl | hne
    · rw [World.dead_of_at hat] at hdead
      exact .inr fun hk => ((ConnectionManager.connected_removeAll ..).mp hk).1 hdead
    · rw [World.dead_goto_of_ne _ _ hne]
      exact .inl hdead
  | enqueues i username f peer rest dead o hat hsend => exact .inl (moves rfl hat fun h => h)
  | refused i username f peer rest dead hat hsend =>
    exact .inl (moves rfl hat fun h => List.mem_append_left _ h)
  | delivers | elapse | scan | sweep => exact .inl hdead
  | register _ _ hat | snapshot _ _ hat | welcomed _ _ _ hat | unwelcomed _ _ _ _ hat
  | stops _ _ _ _ hat | undelivered _ _ _ _ _ hat | incoming _ _ _ hat | touch _ _ _ hat
  | rejects _ _ _ _ _ hat | accepts _ _ _ _ _ hat | store _ _ _ hat | collect _ _ _ _ hat
  | cleanup _ _ _ hat | leave _ _ _ hat => exact .inl (idles rfl hat rfl)

/-- Only at the end of a broadcast is anyone to be evicted. -/
theorem World.dead_of_not_sending {w : World} {k : Uuid}
    (h : ∀ f rest, w.flight k ≠ .sending f rest) : w.dead k = [] := by
  simp only [flight] at h
  rw [dead]
  split
  · rename_i phase hat
    rw [hat] at h
    cases phase with
    | live username pc =>
      cases pc with
      | sending f rest _ => exact absurd rfl (h f rest)
      | _ => rfl
    | _ => rfl
  · rfl

theorem World.dead_of_idle {w : World} {k : Uuid} (h : w.flight k = .idle) : w.dead k = [] := by
  apply dead_of_not_sending
  intro f rest hat
  rw [h] at hat
  cases hat

/-- Who is kept at the end of a step was kept at its start. -/
theorem Step.kept {w w' : World} {l : Label} {evs : List Event} (h : Step w l w' evs)
    {id : Uuid} (hregistered : ¬ Unregistered (w.tasks id)) (hk : w'.Kept id) : w.Kept id := by
  obtain ⟨hconnected, hdead⟩ := hk
  refine ⟨?_, fun k hmem => ?_⟩
  · rcases h.connected hconnected with hbefore | ⟨hnew, _⟩
    · exact hbefore
    · exact absurd hnew hregistered
  · rcases h.dead hmem with hafter | hgone
    · exact hdead k hafter
    · exact hgone hconnected

section

variable {G : Guard World Label Event} {c : Config World Event}

/-- A sender in the map is that of a task that has registered. -/
theorem connected_registered (h : room.Reach G c) :
    ∀ id, c.state.connections.Connected id → ¬ Unregistered (c.state.tasks id) := by
  refine Reach.room_invariant ?_ ?_ h
  · exact fun id hk => (ConnectionManager.not_connected_new id hk).elim
  intro c l w evs _ ih _ hs id hk hnew
  rcases hs.connected hk with hbefore | ⟨_, username, hat⟩
  · exact ih id hbefore (hs.unregistered hnew)
  · rw [hat] at hnew
    exact hnew

/-! ## Stored before it is broadcast -/

/-- A frame in flight changes the history exactly if it is stored or about to be. -/
theorem lasting_of_flight (h : room.Reach G c) {k : Uuid} {f : ServerFrame} {flight : Flight}
    (hat : c.state.flight k = flight) (hf : flight.frames = [f]) :
    f.lasting = true ↔ f ∈ storedIn c.past ∨ f ∈ flight.toStore := by
  obtain ⟨haccepted, horigin⟩ := of_flight h hat hf
  have hstream := stream_to_history h k
  rw [hat] at hstream
  have hmem : f ∈ (byOrigin k (acceptedIn c.past)).filter ServerFrame.lasting
      ↔ f.lasting = true := by
    rw [List.mem_filter, mem_byOrigin]
    exact and_iff_right ⟨haccepted, horigin⟩
  rw [← hmem, ← hstream, List.mem_append, mem_byOrigin, and_iff_left horigin]

/-- **What a client is sent has been stored**, unless it is an ephemeral message. -/
theorem stored_of_enqueued (h : room.Reach G c) :
    ∀ peer, ∀ f ∈ enqueuedTo peer c.past, f.lasting = true → f ∈ storedIn c.past := by
  refine Reach.flow_invariant ?_ ?_ h
  · intro peer f hf
    cases hf
  intro c w evs hreach ih hflow q g hg hlasting
  show g ∈ storedIn (c.past ++ evs)
  rw [storedIn_append]
  apply List.mem_append_left
  replace hg : g ∈ enqueuedTo q c.past ++ enqueuedTo q evs := enqueuedTo_append .. ▸ hg
  rcases List.mem_append.mp hg with hpast | hnew
  · exact ih q g hpast hlasting
  cases hflow with
  | quiet _ _ _ _ henqueued =>
    rw [henqueued] at hnew
    cases hnew
  | enqueues k f peer rest hat hflight =>
    rcases eq_or_ne q peer with rfl | hne
    · rw [enqueuedTo_self, List.mem_singleton] at hnew
      rw [hnew] at hlasting ⊢
      rcases (lasting_of_flight hreach hat rfl).mp hlasting with hstored | hnone
      · exact hstored
      · cases hnone
    · rw [enqueuedTo_other f hne] at hnew
      cases hnew
  | accepts | stores | collects | refused | lands => cases hnew

/-! ## Nothing is missed -/

/-- Of each sender, `id` has been sent all that was stored, but for the frame in flight. -/
def CaughtUp (c : Config World Event) (id : Uuid) : Prop :=
  ∀ k, byOrigin k (storedIn c.past)
    = byOrigin k (lastingOf (enqueuedTo id c.past)) ++ (c.state.flight k).due id

/-- **A kept peer catches up**: what was stored of each sender is what the peer was sent of it and
what is still due to it. The one case that adds to the left is `stores`, and the frame is due from
then on; the one that adds to the right is `enqueues`, which takes the frame from what is due. -/
theorem caught_up_step {id : Uuid} {w : World} {evs : List Event} (h : room.Reach G c)
    (hflow : Flow c.state w evs) (hkept : c.state.Kept id) (hkept' : w.Kept id)
    (ih : CaughtUp c id) : CaughtUp ⟨c.past ++ evs, w⟩ id := by
  intro k
  show byOrigin k (storedIn (c.past ++ evs))
    = byOrigin k (lastingOf (enqueuedTo id (c.past ++ evs))) ++ (w.flight k).due id
  rw [storedIn_append, enqueuedTo_append, lastingOf_append, byOrigin_append, byOrigin_append]
  -- nothing is stored or enqueued to `id`, and the same is due
  have stays {i : Uuid} {a b : Flight} (hat : c.state.flight i = a)
      (hflight : w.flight = Function.update c.state.flight i b) (hsame : b.due id = a.due id)
      (hstored : storedIn evs = []) (henqueued : enqueuedTo id evs = []) :
      byOrigin k (storedIn c.past) ++ byOrigin k (storedIn evs)
        = byOrigin k (lastingOf (enqueuedTo id c.past))
            ++ byOrigin k (lastingOf (enqueuedTo id evs)) ++ (w.flight k).due id := by
    rw [hstored, henqueued, lastingOf_nil, byOrigin_nil, List.append_nil, List.append_nil,
      hflight, ih k]
    rcases eq_or_ne k i with rfl | hne
    · rw [Function.update_self, hat, hsame]
    · rw [Function.update_of_ne hne]
  cases hflow with
  | quiet _ hflight haccepted hstored henqueued =>
    rw [hstored, henqueued, lastingOf_nil, byOrigin_nil, List.append_nil, List.append_nil, hflight]
    exact ih k
  -- an accepted frame is due to nobody before it is stored
  | accepts i f hat horigin hflight =>
    exact stays hat hflight (Flight.due_start id f) rfl rfl
  | stores i f hat hflight =>
    have horigin := (of_flight h hat rfl).2
    have hlasting : f.lasting = true :=
      (lasting_of_flight h hat rfl).mpr (.inr (List.mem_singleton_self f))
    rw [storedIn_stored, enqueuedTo_stored, lastingOf_nil, byOrigin_nil, List.append_nil,
      hflight, ih k]
    rcases eq_or_ne k i with rfl | hne
    · -- the frame is due from now on
      rw [Function.update_self, byOrigin_self _ f horigin, hat]
      rw [show (Flight.storing f).due id = [] from rfl, List.append_nil]
      show _ = _ ++ lastingOf [f]
      rw [lastingOf_self hlasting]
    · rw [Function.update_of_ne hne, byOrigin_other f horigin hne, List.append_nil]
  | collects i f order hat hnodup hflight hpeers =>
    -- the peers of the snapshot include `id`
    exact stays hat hflight (if_pos ((hpeers id).mpr hkept.1)) rfl rfl
  | enqueues i f peer rest hat hflight =>
    rcases eq_or_ne id peer with rfl | hpeer
    · have horigin := (of_flight h hat rfl).2
      have hnodup := (List.nodup_cons.mp (rest_nodup h _ _ _ hat)).1
      rw [enqueuedTo_self, storedIn_enqueued, byOrigin_nil, List.append_nil, hflight, ih k]
      rcases eq_or_ne k i with rfl | hne
      · -- what was due has been enqueued
        rw [Function.update_self, hat,
          show (Flight.sending f (id :: rest)).due id = lastingOf [f] from
            if_pos List.mem_cons_self,
          show (Flight.sending f rest).due id = [] from if_neg hnodup, List.append_nil,
          byOrigin_lastingOf k [f], byOrigin_self _ f horigin]
      · rw [Function.update_of_ne hne, byOrigin_lastingOf k [f], byOrigin_other f horigin hne,
          lastingOf_nil, List.append_nil]
    · exact stays hat hflight (Flight.due_tail f rest hpeer) rfl (enqueuedTo_other f hpeer)
  | refused i f peer rest hat hflight hdead =>
    -- `id` is kept, so it is not the one that is refused
    have hpeer : id ≠ peer := by
      rintro rfl
      exact hkept'.2 i hdead
    exact stays hat hflight (Flight.due_tail f rest hpeer) rfl rfl
  | lands i f hat hflight => exact stays hat hflight rfl rfl rfl

end

section

variable {c₀ c : Config World Event} {id : Uuid} {G : Guard World Label Event}

theorem enqueued_start (h₀ : room.Reach G c₀) (hempty : storedIn c₀.past = []) :
    lastingOf (enqueuedTo id c₀.past) = [] := by
  refine List.filter_eq_nil_iff.mpr fun f hf hl => ?_
  have hmem := stored_of_enqueued h₀ id f hf hl
  rw [hempty] at hmem
  cases hmem

/-- At the start of a run in which nothing has been stored yet, nothing is missing. -/
theorem caught_up_start (h₀ : room.Reach G c₀) (hempty : storedIn c₀.past = []) :
    CaughtUp c₀ id := by
  have hnone {f : ServerFrame} (hstored : f.lasting = true → f ∈ storedIn c₀.past) :
      lastingOf [f] = [] := by
    rw [hempty] at hstored
    exact lastingOf_other fun hl => List.not_mem_nil (hstored hl)
  intro k
  rw [hempty, enqueued_start h₀ hempty]
  show [] = (c₀.state.flight k).due id
  cases hat : c₀.state.flight k with
  | idle | storing => rfl
  | collecting f =>
    refine (hnone fun hl => ?_).symm
    exact ((lasting_of_flight h₀ hat rfl).mp hl).resolve_right List.not_mem_nil
  | sending f rest =>
    have hdue := hnone fun hl =>
      ((lasting_of_flight h₀ hat rfl).mp hl).resolve_right List.not_mem_nil
    show [] = if id ∈ rest then lastingOf [f] else []
    rw [hdue, ite_self]

/-- **A client that stays connected misses nothing** of any sender. -/
theorem caught_up (h₀ : room.Reach G c₀) (hregistered : ¬ Unregistered (c₀.state.tasks id))
    (hempty : storedIn c₀.past = []) (hrun : room.Run G c₀ c) :
    ¬ Unregistered (c.state.tasks id) ∧ (c.state.Kept id → CaughtUp c id) := by
  refine Run.room_invariant hrun ?_ ?_
  · exact ⟨hregistered, fun _ => caught_up_start h₀ hempty⟩
  intro d l w evs hd ih _ hs
  obtain ⟨hbefore, hcaught⟩ := ih
  refine ⟨fun hnew => hbefore (hs.unregistered hnew), fun hkept => ?_⟩
  have hkept' := hs.kept hbefore hkept
  exact caught_up_step (h₀.trans hd) hs.flow hkept' hkept (hcaught hkept')

/-! ## Nothing is overtaken -/

/-- A log without an event of the peer sends it nothing. -/
theorem enqueuedTo_eq_nil {id : Uuid} {evs : List Event}
    (h : ∀ f, .enqueued id f ∉ evs) : enqueuedTo id evs = [] := by
  rw [enqueuedTo, List.filterMap_eq_nil_iff]
  intro e he
  cases e with
  | enqueued peer f =>
    have hne : peer ≠ id := by
      rintro rfl
      exact h f he
    exact if_neg hne
  | _ => rfl

/-- **What a client is sent of the stored frames is a beginning of them**, when all offers to
it are made in order. -/
theorem enqueued_prefix (h₀ : room.Reach free c₀) (hempty : storedIn c₀.past = [])
    (hrun : room.Run (InOrder id) c₀ c) :
    lastingOf (enqueuedTo id c.past) <+: storedIn c.past := by
  refine Run.room_invariant hrun ?_ ?_
  · rw [enqueued_start h₀ hempty]
    exact List.nil_prefix
  intro d l w evs _ ih hguard hs
  show lastingOf (enqueuedTo id (d.past ++ evs)) <+: storedIn (d.past ++ evs)
  rw [enqueuedTo_append, lastingOf_append, storedIn_append]
  refine List.IsPrefix.trans ?_ (List.prefix_append _ _)
  by_cases hsent : ∃ f, .enqueued id f ∈ evs
  · obtain ⟨f, hf⟩ := hsent
    obtain ⟨rfl, k, username, rest, dead, hl, hat⟩ := hs.of_enqueued hf
    rw [enqueuedTo_self]
    by_cases hlasting : f.lasting = true
    · rw [lastingOf_self hlasting]
      exact hguard k username f rest dead hl hat hlasting
    · rw [lastingOf_other hlasting, List.append_nil]
      exact ih
  · rw [enqueuedTo_eq_nil fun f hf => hsent ⟨f, hf⟩, lastingOf_nil, List.append_nil]
    exact ih

/-- **A clear is consistent.** A client is connected before anything is stored, stays connected,
and is offered every frame that changes the history only after those that were stored before
it. When all handlers have finished and its outbox is drained, the history is what it received
since the last clear it processed. -/
theorem clear_consistent (h₀ : room.Reach free c₀) (hjoined : c₀.state.connections.Connected id)
    (hempty : storedIn c₀.past = []) (hrun : room.Run (InOrder id) c₀ c)
    (hconnected : c.state.connections.Connected id) (hidle : ∀ k, c.state.flight k = .idle)
    (hdrained : Drained c.state id) :
    c.state.messages.history = lastReceived (deliveredTo id c.past) := by
  have h : room.Reach free c := h₀.trans hrun.toFree
  have hkept : c.state.Kept id := ⟨hconnected, fun k hk => by
    rw [World.dead_of_idle (hidle k)] at hk
    cases hk⟩
  have hcaught := (caught_up h₀ (connected_registered h₀ id hjoined) hempty hrun.toFree).2 hkept
  obtain ⟨later, hlater⟩ := enqueued_prefix h₀ hempty hrun
  -- a stored frame that was not sent would be missing from the stream of its sender
  have hnone : later = [] := by
    refine List.eq_nil_iff_forall_not_mem.mpr fun f hf => ?_
    have hmem : f ∈ storedIn c.past := by
      rw [← hlater]
      exact List.mem_append_right _ hf
    obtain ⟨k, horigin⟩ := accepted_origin h f (accepted_of_stored h f hmem)
    have hk := hcaught k
    rw [hidle k, ← hlater, byOrigin_append] at hk
    have hgone : byOrigin k later = [] := List.append_cancel_left hk
    have hleft : f ∈ byOrigin k later := mem_byOrigin.mpr ⟨hf, horigin⟩
    rw [hgone] at hleft
    cases hleft
  rw [hnone, List.append_nil] at hlater
  rw [history_window h, historyOps, ← hlater, hdrained.delivered h, lastReceived]

end

/-! ## Handlers that cross -/

/-- A test for `InOrder`. -/
def inOrder (id : Uuid) (c : Config World Event) : Label → Bool
  | .act k .trySend =>
    match c.state.tasks k with
    | some (.live _ (.sending f (peer :: _) _)) =>
      peer != id || ! f.lasting
        || (lastingOf (enqueuedTo id c.past) ++ [f]).isPrefixOf (storedIn c.past)
    | _ => true
  | _ => true

theorem inOrder_of_test (id : Uuid) (c : Config World Event) (l : Label)
    (h : inOrder id c l = true) : InOrder id c l := by
  rintro k username f rest dead rfl hat hlasting
  simp only [inOrder, hat, hlasting] at h
  rw [bne_self_eq_false, Bool.false_or, Bool.not_true, Bool.false_or] at h
  exact List.isPrefixOf_iff_prefix.mp h

theorem idle_of_test {w : World} {id : Uuid} (h : w.isDrained id = true) : w.flight id = .idle := by
  rw [World.isDrained] at h
  split at h
  · rename_i hat
    exact World.flight_of_at hat
  · cases h

namespace Cast

def alone (l : Label) : Bool := l.actor == some alice || l.actor == some bob

/-- In a run of Alice's and Bob's tasks no other task has come to life. -/
theorem tasks_none {ok : Config World Event → Label → Bool} {c c' : Config World Event}
    {ls : List Label} (h : room.exec ok c ls = some c') (hls : ∀ l ∈ ls, alone l = true)
    {k : Uuid} (halice : k ≠ alice) (hbob : k ≠ bob) (hnone : c.state.tasks k = none) :
    c'.state.tasks k = none := by
  refine Machine.exec_invariant (P := fun c => c.state.tasks k = none) h hnone ?_
  intro d l w evs hl hd hs
  have hactor : l.actor ≠ some k := by
    intro hk
    have halone := hls l hl
    rw [alone, hk, Bool.or_eq_true, beq_iff_eq, beq_iff_eq] at halone
    rcases halone with heq | heq
    · exact halice (Option.some.inj heq)
    · exact hbob (Option.some.inj heq)
  rw [← hd]
  exact (step_inv hs).tasks_other hactor

/-- In such a run it is enough to look at the two. -/
theorem idle_of_both {w : World} (hnone : ∀ k, k ≠ alice → k ≠ bob → w.tasks k = none)
    (halice : w.flight alice = .idle) (hbob : w.flight bob = .idle) :
    ∀ k, w.flight k = .idle := by
  intro k
  rcases eq_or_ne k alice with rfl | hna
  · exact halice
  rcases eq_or_ne k bob with rfl | hnb
  · exact hbob
  rw [World.flight, hnone k hna hnb]

/-- In a run of these two alone nobody else has a frame in flight, and they have none when their
queues are drained. -/
theorem all_idle {ok₁ ok₂ : Config World Event → Label → Bool} {d c : Config World Event}
    {ls₁ ls₂ : List Label} (h₁ : room.exec ok₁ room.start ls₁ = some d)
    (h₂ : room.exec ok₂ d ls₂ = some c) (hls : ∀ l ∈ ls₁ ++ ls₂, alone l = true)
    (hdrained : (c.state.isDrained alice && c.state.isDrained bob) = true) :
    ∀ k, c.state.flight k = .idle := by
  rw [Bool.and_eq_true] at hdrained
  refine idle_of_both (fun k hna hnb => ?_) (idle_of_test hdrained.1) (idle_of_test hdrained.2)
  have hd := tasks_none h₁ (fun l hl => hls l (List.mem_append_left _ hl)) hna hnb rfl
  exact tasks_none h₂ (fun l hl => hls l (List.mem_append_right _ hl)) hna hnb hd

theorem connected_both {w : World} (h : w.connections.snapshot = [bob, alice]) (k : Uuid) :
    w.connections.Connected k ↔ k = bob ∨ k = alice := by
  rw [← ConnectionManager.mem_snapshot, h, List.mem_cons, List.mem_singleton]

/-- Alice and Bob are in the room. -/
def bothArrive : List Label :=
  arrives alice "alice" ++ isWelcomed alice ++ arrives bob "bob" ++ isWelcomed bob

def receives (id : Uuid) : Label := .act id (.outgoing (.ok ()))

/-- Alice speaks, Bob clears the room, and Alice speaks again. -/
def inTurn : List Label :=
  sends alice (note alice "alice" 1 false) ++ [.act alice .store] ++ broadcasts alice [bob, alice]
    ++ sends bob .clear ++ [.act bob .store] ++ broadcasts bob [bob, alice]
    ++ sends alice (note alice "alice" 2 false) ++ [.act alice .store]
    ++ broadcasts alice [bob, alice]
    ++ [receives bob, receives bob, receives bob, receives alice, receives alice, receives alice]

/-- Bob clears the room between the storing and the broadcast of a message of Alice's. -/
def crossing : List Label :=
  sends alice (note alice "alice" 1 false) ++ [.act alice .store]
    ++ sends bob .clear ++ [.act bob .store] ++ broadcasts bob [bob, alice]
    ++ broadcasts alice [bob, alice]
    ++ [receives bob, receives bob, receives alice, receives alice]

end Cast

open Cast in
/-- In turn, Bob's screen and the history agree on Alice's second message. -/
theorem clear_consistent_bob :
    ∃ c, room.Reach free c ∧ c.state.messages.history = [relayed alice "alice" 2 false]
      ∧ c.state.messages.history = lastReceived (deliveredTo bob c.past) := by
  obtain ⟨c₀, c, h₀, hc, hjoined, hat⟩ := Machine.exec_then (M := room)
    (fun _ _ => true) (inOrder bob) bothArrive inTurn
    (fun d => (d.state.connections.snapshot, storedIn d.past)) ([bob, alice], [])
    (fun c => ((c.state.connections.snapshot, c.state.isDrained alice && c.state.isDrained bob),
      c.state.messages.history))
    (([bob, alice], true), [relayed alice "alice" 2 false]) (by decide)
  obtain ⟨hjoined, hempty⟩ := Prod.mk.inj hjoined
  obtain ⟨htests, hhistory⟩ := Prod.mk.inj hat
  obtain ⟨hsnapshot, hdrained⟩ := Prod.mk.inj htests
  have hreach : room.Reach free c₀ := Machine.exec_run (fun _ _ _ => trivial) h₀
  have hrun : room.Run (InOrder bob) c₀ c := Machine.exec_run (inOrder_of_test bob) hc
  have hidle := all_idle h₀ hc (by decide) hdrained
  rw [Bool.and_eq_true] at hdrained
  refine ⟨c, hreach.trans hrun.toFree, hhistory, ?_⟩
  exact clear_consistent hreach ((connected_both hjoined bob).mpr (.inl rfl)) hempty hrun
    ((connected_both hsnapshot bob).mpr (.inl rfl)) hidle (drained_of_test hdrained.2)

open Cast in
/-- When the handlers cross, Bob's client wipes first and then shows a message that the history
has dropped. -/
theorem clear_crossed :
    ¬ ∀ (c₀ c : Config World Event) (id : Uuid), room.Reach free c₀ →
        c₀.state.connections.Connected id → storedIn c₀.past = [] → room.Run free c₀ c →
        c.state.connections.Connected id → (∀ k, c.state.flight k = .idle) →
        (∀ k, c.state.connections.Connected k → Drained c.state k) →
        ∀ m, m ∈ c.state.messages.history ↔ m ∈ lastReceived (deliveredTo id c.past) := by
  intro hall
  -- Bob clears the room between the storing and the broadcast of Alice's message
  obtain ⟨c₀, c, h₀, hc, hjoined, hat⟩ := Machine.exec_then (M := room)
    (fun _ _ => true) (fun _ _ => true) bothArrive crossing
    (fun d => (d.state.connections.snapshot, storedIn d.past)) ([bob, alice], [])
    (fun c => ((c.state.connections.snapshot, c.state.isDrained alice && c.state.isDrained bob),
      (c.state.messages.history, lastReceived (deliveredTo bob c.past))))
    (([bob, alice], true), ([], [relayed alice "alice" 1 false])) (by decide)
  obtain ⟨hjoined, hempty⟩ := Prod.mk.inj hjoined
  obtain ⟨htests, hscreens⟩ := Prod.mk.inj hat
  obtain ⟨hsnapshot, hdrained⟩ := Prod.mk.inj htests
  obtain ⟨hhistory, hscreen⟩ := Prod.mk.inj hscreens
  have hreach : room.Reach free c₀ := Machine.exec_run (fun _ _ _ => trivial) h₀
  have hrun : room.Run free c₀ c := Machine.exec_run (fun _ _ _ => trivial) hc
  have hidle := all_idle h₀ hc (by decide) hdrained
  rw [Bool.and_eq_true] at hdrained
  -- everything has been delivered
  have hall_drained : ∀ k, c.state.connections.Connected k → Drained c.state k := by
    intro k hk
    rcases (connected_both hsnapshot k).mp hk with rfl | rfl
    · exact drained_of_test hdrained.2
    · exact drained_of_test hdrained.1
  have hsame := hall c₀ c bob hreach ((connected_both hjoined bob).mpr (.inl rfl)) hempty hrun
    ((connected_both hsnapshot bob).mpr (.inl rfl)) hidle hall_drained
    (relayed alice "alice" 1 false)
  rw [hhistory, hscreen] at hsame
  exact List.not_mem_nil (hsame.mpr (List.mem_singleton_self _))

end ChatRs

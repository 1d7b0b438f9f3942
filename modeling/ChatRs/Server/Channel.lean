import ChatRs.Server.Relay

/-!
# The channel of a session

Between a broadcast and the peer lies the peer's outbox. It is a queue: as long as its task
receives, what was enqueued is what was delivered followed by what is still queued, and nothing
is delivered before the Welcome. The plan:

* **`Channel`**: what is known of one channel, by where its task stands; **`Channels`**: of all;
* `Channels.goto`, `Channels.moves`, `Channels.reset`, `Channels.delivers`, `Channels.enqueues`:
  what a step can do to them;
* **`channel`**: so it holds in every state of a room, and **`delivered_begins`**: what was
  delivered is always the beginning of what was enqueued.
-/

namespace ChatRs

open Machine (Config Guard)

/-- The task still drains its outbox: neither the connection nor `pump` has ended. -/
def Pc.Receiving : Pc → Prop
  | .cleaning _ => False
  | .leaving _ => False
  | _ => True

/-- The task has not come to `pump` yet. -/
def Pc.Joining : Pc → Prop
  | .snapshotting => True
  | .welcoming _ => True
  | _ => False

/-- What is known of the channel of `id`, by where its task stands. -/
def Channel (past : List Event) (o : Outbox) (id : Uuid) : Option Phase → Prop
  | some (.live _ pc) =>
    pc.Receiving → enqueuedTo id past = deliveredTo id past ++ o.queue
      ∧ (pc.Joining → deliveredTo id past = [])
  | some (.returned _) => True
  | _ => o.closed = true ∧ enqueuedTo id past = [] ∧ deliveredTo id past = []

/-- Of a channel whose task has not registered nothing has been enqueued yet. -/
theorem channel_iff_of_unregistered {past : List Event} {o : Outbox} {id : Uuid}
    {t : Option Phase} (ht : Unregistered t) :
    Channel past o id t
      ↔ o.closed = true ∧ enqueuedTo id past = [] ∧ deliveredTo id past = [] := by
  cases t with
  | none => exact Iff.rfl
  | some phase =>
    cases phase with
    | live | returned => exact ht.elim
    | _ => exact Iff.rfl

/-- Events about other channels do not matter. -/
theorem Channel.mono {past evs : List Event} {o : Outbox} {id : Uuid} {t : Option Phase}
    (h : Channel past o id t) (henqueued : enqueuedTo id evs = [])
    (hdelivered : deliveredTo id evs = []) : Channel (past ++ evs) o id t := by
  have hsame : enqueuedTo id (past ++ evs) = enqueuedTo id past
      ∧ deliveredTo id (past ++ evs) = deliveredTo id past := by
    rw [enqueuedTo_append, deliveredTo_append, henqueued, hdelivered, List.append_nil,
      List.append_nil]
    exact ⟨rfl, rfl⟩
  unfold Channel at h ⊢
  rw [hsame.1, hsame.2]
  exact h

/-- A registered task moves on. -/
theorem Channel.move {past : List Event} {o : Outbox} {id : Uuid} {username : String}
    {pc pc' : Pc} (h : Channel past o id (some (.live username pc)))
    (hreceiving : pc'.Receiving → pc.Receiving) (hjoining : pc'.Joining → pc.Joining) :
    Channel past o id (some (.live username pc')) := by
  intro hr
  obtain ⟨henqueued, hdelivered⟩ := h (hreceiving hr)
  exact ⟨henqueued, fun hj => hdelivered (hjoining hj)⟩

/-- A frame that was sent into the channel: it was open, so its task has registered. -/
theorem Channel.enqueue {past : List Event} {o o' : Outbox} {id : Uuid} {t : Option Phase}
    {f : ServerFrame} (h : Channel past o id t) (hsend : o.trySend f = some o') :
    Channel (past ++ [.enqueued id f]) o' id t := by
  obtain ⟨hopen, rfl⟩ := Outbox.trySend_eq_some hsend
  by_cases ht : Unregistered t
  · have hclosed := ((channel_iff_of_unregistered ht).mp h).1
    rw [hopen] at hclosed
    cases hclosed
  cases t with
  | none => exact (ht trivial).elim
  | some phase =>
    cases phase with
    | live username pc =>
      intro hr
      obtain ⟨henqueued, hdelivered⟩ := h hr
      have hsame : deliveredTo id (past ++ [.enqueued id f]) = deliveredTo id past := by
        rw [deliveredTo_append]
        exact List.append_nil _
      refine ⟨?_, fun hj => hsame.trans (hdelivered hj)⟩
      rw [hsame, enqueuedTo_append, enqueuedTo_self, henqueued, List.append_assoc]
    | returned => trivial
    | _ => exact (ht trivial).elim

/-- The channel of a new session is open and empty. -/
theorem Channel.opens {past : List Event} {o : Outbox} {id : Uuid} {t : Option Phase}
    {username : String} (h : Channel past o id t) (ht : Unregistered t) :
    Channel past .new id (some (.live username .snapshotting)) := by
  obtain ⟨-, henqueued, hdelivered⟩ := (channel_iff_of_unregistered ht).mp h
  intro _
  rw [henqueued, hdelivered]
  exact ⟨rfl, fun _ => rfl⟩

theorem not_joining_afterCheck (f : ServerFrame) :
    ¬ (afterCheck f).Joining := by
  unfold afterCheck
  split
  · split <;> exact not_false
  · exact not_false

/-! ## What a step can do to the channels of a room -/

def Channels (past : List Event) (w : World) : Prop :=
  ∀ k, Channel past (w.outbox k) k (w.tasks k)

section

variable {past : List Event} {w : World} {id : Uuid} {username : String} {pc : Pc}

/-- Events of other kinds change nothing. -/
theorem Channels.mono (h : Channels past w) {evs : List Event}
    (hquiet : ∀ k, enqueuedTo k evs = [] ∧ deliveredTo k evs = []) : Channels (past ++ evs) w :=
  fun k => (h k).mono (hquiet k).1 (hquiet k).2

/-- A task goes on, and its channel is as it should be there. -/
theorem Channels.goto (h : Channels past w) {next : Phase}
    (hnext : Channel past (w.outbox id) id (some next)) : Channels past (w.goto id next) := by
  intro k
  rw [World.goto_outbox, World.goto_tasks]
  rcases eq_or_ne k id with rfl | hne
  · rw [Function.update_self]
    exact hnext
  · rw [Function.update_of_ne hne]
    exact h k

/-- From one place of a registered task to the next, where it does not receive again after it has
stopped, and does not wait for its Welcome again after that. -/
theorem Channels.moves (h : Channels past w) (hat : w.tasks id = some (.live username pc))
    {pc' : Pc} (hreceiving : pc'.Receiving → pc.Receiving) (hjoining : pc'.Joining → pc.Joining) :
    Channels past (w.goto id (.live username pc')) := by
  have hid := h id
  rw [hat] at hid
  exact h.goto (hid.move hreceiving hjoining)

/-- A task goes on with another outbox: it has just made it, or drops it. -/
theorem Channels.reset (h : Channels past w) {o : Outbox} {next : Phase}
    (hnext : Channel past o id (some next)) :
    Channels past ((w.setOutbox id o).goto id next) := by
  intro k
  rw [World.goto_outbox, World.goto_tasks, World.setOutbox_outbox, World.setOutbox_tasks]
  rcases eq_or_ne k id with rfl | hne
  · rw [Function.update_self, Function.update_self]
    exact hnext
  · rw [Function.update_of_ne hne, Function.update_of_ne hne]
    exact h k

/-- `pump` takes a frame out of the outbox and sends it: the head of the queue moves to the end of
what was delivered. -/
theorem Channels.delivers (h : Channels past w) {f : ServerFrame} {o : Outbox}
    (hat : w.tasks id = some (.live username .pumping))
    (hrecv : (w.outbox id).recv = some (f, o)) :
    Channels (past ++ [.delivered id f]) (w.setOutbox id o) := by
  intro k
  rw [World.setOutbox_outbox, World.setOutbox_tasks]
  rcases eq_or_ne k id with rfl | hne
  · have hk := h k
    rw [hat] at hk ⊢
    obtain ⟨henqueued, -⟩ := hk trivial
    rw [Function.update_self]
    refine fun _ => ⟨?_, fun hj => hj.elim⟩
    calc enqueuedTo k (past ++ [.delivered k f])
        = enqueuedTo k past := by rw [enqueuedTo_append, enqueuedTo_delivered, List.append_nil]
      _ = deliveredTo k past ++ (f :: o.queue) := by
        rw [henqueued, (Outbox.recv_eq_some hrecv).1]
      _ = deliveredTo k (past ++ [.delivered k f]) ++ o.queue := by
        rw [deliveredTo_append, deliveredTo_self, List.append_assoc]
        rfl
  · rw [Function.update_of_ne hne]
    exact (h k).mono rfl (deliveredTo_other f hne)

/-- A broadcast puts a frame at the end of the outbox of a peer. -/
theorem Channels.enqueues (h : Channels past w) {peer : Uuid} {f : ServerFrame} {o : Outbox}
    (hsend : (w.outbox peer).trySend f = some o) :
    Channels (past ++ [.enqueued peer f]) (w.setOutbox peer o) := by
  intro k
  rw [World.setOutbox_outbox, World.setOutbox_tasks]
  rcases eq_or_ne k peer with rfl | hne
  · rw [Function.update_self]
    exact (h k).enqueue hsend
  · rw [Function.update_of_ne hne]
    exact (h k).mono (enqueuedTo_other f hne) rfl

end

section

variable {G : Guard World Label Event} {c : Config World Event}

/-- **Every channel is a queue**, in every state of a room: the induction is over the run, and a
step of one task leaves the channels of the others as they are, but for the one it enqueues to. -/
theorem channel (h : room.Reach G c) :
    ∀ k, Channel c.past (c.state.outbox k) k (c.state.tasks k) := by
  refine Reach.room_invariant (P := fun c => Channels c.past c.state) ?_ ?_ h
  · exact fun k => ⟨rfl, rfl, rfl⟩
  intro c l w evs _ ih _ hs
  have hquiet (k : Uuid) : enqueuedTo k [] = [] ∧ deliveredTo k [] = [] := ⟨rfl, rfl⟩
  cases hs with
  | early l id next hbefore hafter hname =>
    refine Channels.mono (ih.goto ?_) hquiet
    rcases hafter with hafter | ⟨result, rfl⟩
    · rw [channel_iff_of_unregistered hafter]
      exact (channel_iff_of_unregistered hbefore).mp (ih id)
    · trivial
  | register id username hat =>
    have hbefore : Unregistered (c.state.tasks id) := by
      rw [hat]
      exact trivial
    exact Channels.mono (ih.reset ((ih id).opens hbefore)) fun _ => ⟨rfl, rfl⟩
  | delivers id username f o hat hrecv => exact ih.delivers hat hrecv
  -- the receiver is dropped, and nothing is known of the channel any more
  | undelivered id username f o e hat hrecv =>
    refine Channels.mono (ih.reset ?_) hquiet
    exact fun hr => hr.elim
  | leave id username result hat =>
    refine Channels.mono (ih.reset ?_) hquiet
    trivial
  | enqueues id username f peer rest dead o hat hsend =>
    refine (ih.enqueues hsend).moves hat ?_ ?_
    · exact fun _ => trivial
    · exact fun hj => hj.elim
  | snapshot id username hat =>
    refine Channels.mono (ih.moves hat ?_ ?_) fun _ => ⟨rfl, rfl⟩
    · exact fun _ => trivial
    · exact fun _ => trivial
  -- `pump` is reached, or was before
  | welcomed _ _ _ hat | touch _ _ _ hat | collect _ _ _ _ hat | refused _ _ _ _ _ _ hat
  | evict _ _ _ _ hat | incoming _ _ _ hat | store _ _ _ hat =>
    refine Channels.mono (ih.moves hat ?_ ?_) fun _ => ⟨rfl, rfl⟩
    · exact fun _ => trivial
    · exact fun hj => hj.elim
  | accepts id username f out sessions hat hcheck =>
    refine Channels.mono (ih.moves hat ?_ ?_) fun _ => ⟨rfl, rfl⟩
    · exact fun _ => trivial
    · exact fun hj => absurd hj (not_joining_afterCheck out)
  -- `pump` is left, and nothing is received after that
  | unwelcomed _ _ _ _ hat | stops _ _ _ _ hat | rejects _ _ _ _ _ hat | cleanup _ _ _ hat =>
    refine Channels.mono (ih.moves hat ?_ ?_) hquiet
    · exact fun hr => hr.elim
    · exact fun hj => hj.elim
  | elapse | scan | sweep => exact Channels.mono ih hquiet

/-- **What was delivered is the beginning of what was enqueued**, for as long as the channel
lives and after. -/
theorem delivered_begins (h : room.Reach G c) :
    ∀ k, deliveredTo k c.past <+: enqueuedTo k c.past := by
  refine Reach.room_invariant ?_ ?_ h
  · exact fun k => List.prefix_refl _
  intro c l w evs hreach ih _ hs k
  show deliveredTo k (c.past ++ evs) <+: enqueuedTo k (c.past ++ evs)
  rw [deliveredTo_append, enqueuedTo_append]
  have rests (hnone : deliveredTo k evs = []) :
      deliveredTo k c.past ++ deliveredTo k evs <+: enqueuedTo k c.past ++ enqueuedTo k evs := by
    rw [hnone, List.append_nil]
    exact (ih k).trans (List.prefix_append _ _)
  cases hs with
  | delivers id username f o hat hrecv =>
    rcases eq_or_ne k id with rfl | hne
    · have hchannel := channel hreach k
      rw [hat] at hchannel
      rw [deliveredTo_self, enqueuedTo_delivered, List.append_nil, (hchannel trivial).1,
        (Outbox.recv_eq_some hrecv).1]
      exact ⟨o.queue, by rw [List.append_assoc]; rfl⟩
    · exact rests (deliveredTo_other f hne)
  | _ => exact rests rfl

end

end ChatRs

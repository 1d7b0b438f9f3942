import ChatRs.Client.Session
import ChatRs.Server.Authenticity
import ChatRs.Server.Channel

/-!
# The hand-off to a joiner

A joiner registers, takes a snapshot of the history, sends it as the Welcome and drains its
outbox; its client displays the history, seeds the replay filter from it and filters what the
outbox delivers. The plan:

* what was enqueued before the snapshot is the queue at the snapshot (`queue_of_joining`);
* what is enqueued after it was not superseded before it (`enqueued_later`), so the filter
  drops it only if the history holds it;
* **`join_shows_all_iff`**: so everything enqueued is shown exactly if no message waits in the
  queue at the snapshot that the history does not hold but has overtaken.

The history overtakes a message that it does not hold when that message is ephemeral, or when
it has left the ring, or was cleared.
-/

namespace ChatRs

open Machine (Config Guard free)

/-! ## What is enqueued when -/

section

variable {c c' : Config World Event}

/-- Only a task that has just registered takes a snapshot. -/
theorem step_snapshot {w w' : World} {id : Uuid} {evs : List Event}
    (h : step w (.act id .snapshot) = some (w', evs)) :
    ∃ username, w.tasks id = some (.live username .snapshotting) := by
  rw [step] at h
  split at h
  · rename_i phase hat
    cases phase with
    | live username pc =>
      cases pc with
      | snapshotting => exact ⟨username, hat⟩
      | sending _ rest _ => cases rest <;> cases h
      | _ => cases h
    | _ => cases h
  · cases h

/-- What was enqueued to a task that has not sent the Welcome is still queued. -/
theorem queue_of_joining (h : room.Reach free c) {id : Uuid} {username : String} {pc : Pc}
    (hat : c.state.tasks id = some (.live username pc)) (hreceiving : pc.Receiving)
    (hjoining : pc.Joining) : enqueuedTo id c.past = (c.state.outbox id).queue := by
  have hchannel := channel h id
  rw [hat] at hchannel
  obtain ⟨henqueued, hdelivered⟩ := hchannel hreceiving
  rw [henqueued, hdelivered hjoining, List.nil_append]

/-- What was accepted stays so. -/
theorem messagesOf_accepted_mono (h : room.Run free c c') {m : RoomMessage}
    (hm : m ∈ messagesOf (acceptedIn c.past)) : m ∈ messagesOf (acceptedIn c'.past) := by
  obtain ⟨evs, hevs⟩ := h.past_prefix
  rw [← hevs, acceptedIn_append, messagesOf_append]
  exact List.mem_append_left _ hm

/-- A message in flight is the newest of its sender. -/
theorem flight_newest (h : room.Reach free c) {id : Uuid} {x : RoomMessage} {flight : Flight}
    (hat : c.state.flight id = flight) (hf : flight.frames = [.message x]) :
    ∀ y ∈ messagesOf (acceptedIn c.past), y.fromId = x.fromId → y.count ≤ x.count := by
  intro y hy hfrom
  have horigin := (of_flight h hat hf).2
  have hsuffix := flight_last h id
  rw [hat, hf] at hsuffix
  obtain ⟨before, hbefore⟩ := hsuffix
  -- the sender's stream is increasing and ends with `x`
  have hstream : (messagesOf (acceptedIn c.past)).filter (fun m => m.fromId = id)
      = messagesOf before ++ [x] := by
    rw [← messagesOf_byOrigin, ← hbefore, messagesOf_append]
    rfl
  have hincreasing := (HighWater.increasing_iff_filter _).mp (counted h).increasing id
  rw [hstream] at hincreasing
  have hid : y.fromId = id := hfrom.trans (Option.some.inj horigin)
  have hmem : y ∈ messagesOf before ++ [x] := by
    rw [← hstream, List.mem_filter]
    exact ⟨hy, decide_eq_true hid⟩
  rcases List.mem_append.mp hmem with hy | hy
  · exact ((List.pairwise_append.mp hincreasing).2.2 y hy x (List.mem_singleton_self x)).le
  · rw [List.mem_singleton.mp hy]

/-- **What is enqueued later is newer**: it was enqueued before already, or nothing accepted
from its sender before lies above it. -/
theorem enqueued_later (h : room.Reach free c) (hrun : room.Run free c c') :
    ∀ peer x, .message x ∈ enqueuedTo peer c'.past → .message x ∈ enqueuedTo peer c.past
      ∨ ∀ y ∈ messagesOf (acceptedIn c.past), y.fromId = x.fromId → y.count ≤ x.count := by
  refine Run.room_invariant hrun ?_ ?_
  · exact fun _ _ hx => .inl hx
  intro d l w evs hd ih _ hs q x hx
  replace hx : .message x ∈ enqueuedTo q d.past ++ enqueuedTo q evs :=
    enqueuedTo_append .. ▸ hx
  rcases List.mem_append.mp hx with hpast | hnew
  · exact ih q x hpast
  have hreach : room.Reach free d := h.trans hd
  cases hs.flow with
  | quiet _ _ _ _ henqueued =>
    rw [henqueued] at hnew
    cases hnew
  | enqueues id f peer rest hat hflight =>
    rcases eq_or_ne q peer with rfl | hne
    · rw [enqueuedTo_self, List.mem_singleton] at hnew
      refine .inr fun y hy hfrom => ?_
      exact flight_newest hreach hat (by rw [hnew]; rfl) y (messagesOf_accepted_mono hd hy) hfrom
    · rw [enqueuedTo_other f hne] at hnew
      cases hnew
  | accepts | stores | collects | refused | lands => cases hnew

/-- The history of a room holds accepted messages. -/
theorem history_accepted (h : room.Reach free c) {m : RoomMessage}
    (hm : m ∈ c.state.messages.history) : m ∈ messagesOf (acceptedIn c.past) :=
  mem_messagesOf.mpr (accepted_of_stored h _ (mem_messagesOf.mp ((history_sublist h).subset hm)))

end

/-! ## What the client makes of it -/

/-- The frames of an outbox never end the event loop, so every message among them gets to the
filter. -/
theorem liveMessages_of_origin {frames : List (Clock × ServerFrame)}
    (h : ∀ f ∈ frames.map Prod.snd, ∃ id, f.origin = some id) :
    (liveMessages frames).map Prod.snd = messagesOf (frames.map Prod.snd) := by
  induction frames with
  | nil => rfl
  | cons x frames ih =>
    obtain ⟨clock, f⟩ := x
    have hrest := ih fun f hf => h f (List.mem_cons_of_mem _ hf)
    obtain ⟨id, horigin⟩ := h f List.mem_cons_self
    cases f with
    | message m => exact congrArg (m :: ·) hrest
    | cleared _ _ => exact hrest
    | hello _ _ => cases horigin
    | welcome _ _ => cases horigin
    | error _ => cases horigin

section

variable {past : List Event} {frames : List (Clock × ServerFrame)}
  (horigin : ∀ f ∈ frames.map Prod.snd, ∃ id, f.origin = some id)
  (hlive : Authentic past (messagesOf (frames.map Prod.snd)))

include horigin

/-- What is read live is among the frames. -/
theorem mem_of_live {x : Received} (hx : x ∈ liveMessages frames) :
    x.2 ∈ messagesOf (frames.map Prod.snd) := by
  rw [← liveMessages_of_origin horigin]
  exact List.mem_map_of_mem hx

include hlive

/-- The filter reads the sender off the additional data, which agrees with the message's. -/
theorem sender_of_live {x : Received} (hx : x ∈ liveMessages frames) : x.sender = x.2.fromId :=
  (hlive.relayed x.2 (mem_of_live horigin hx)).fromId

/-- What is taken live has counters that go up, for each sender. -/
theorem increasing_of_live :
    HighWater.Increasing Received.sender Received.counter (liveMessages frames) := by
  have hmessages := hlive.ordered.2
  rw [← liveMessages_of_origin horigin] at hmessages
  refine (List.pairwise_map.mp hmessages).imp_of_mem fun {a b} ha hb hlt hk => hlt ?_
  rw [← sender_of_live horigin hlive ha, ← sender_of_live horigin hlive hb, hk]

end

/-- What a session shows of authentic live messages: those above the level of the history. -/
theorem mem_received_iff {aead : Aead} {roomKey : Key} {username roomName : String} {userId : Uuid}
    {past : List Event} {history : List Received} {frames : List (Clock × ServerFrame)}
    (horigin : ∀ f ∈ frames.map Prod.snd, ∃ id, f.origin = some id)
    (hlive : Authentic past (messagesOf (frames.map Prod.snd))) (x : RoomMessage) :
    (∃ clock, (clock, x) ∈ received
        (sessionLog aead roomKey username userId roomName history frames))
      ↔ x ∈ history.map Prod.snd ∨ (x ∈ messagesOf (frames.map Prod.snd)
          ∧ seeded history x.fromId < x.count) := by
  have hsender {y : Received} (hy : y ∈ liveMessages frames) : y.sender = y.2.fromId :=
    sender_of_live horigin hlive hy
  rw [received_sessionLog, accepted,
    HighWater.admitted_eq_filter _ (increasing_of_live horigin hlive),
    ← liveMessages_of_origin horigin]
  simp only [List.mem_append, List.mem_filter, decide_eq_true_eq, List.mem_map]
  constructor
  · rintro ⟨clock, hx | ⟨hx, hlt⟩⟩
    · exact .inl ⟨_, hx, rfl⟩
    · rw [hsender hx] at hlt
      exact .inr ⟨⟨_, hx, rfl⟩, hlt⟩
  · rintro (⟨⟨clock, _⟩, hx, rfl⟩ | ⟨⟨⟨clock, _⟩, hx, rfl⟩, hlt⟩)
    · exact ⟨clock, .inl hx⟩
    · refine ⟨clock, .inr ⟨hx, ?_⟩⟩
      rw [hsender hx]
      exact hlt

/-! ## The joiner sees everything -/

/-- The task has sent the Welcome and delivered all that was enqueued. -/
structure Drained (w : World) (id : Uuid) : Prop where
  serving : ∃ username pc, w.tasks id = some (.live username pc) ∧ pc.Receiving ∧ ¬ pc.Joining
  empty : (w.outbox id).queue = []

/-- The history does not hold the message, but one of its sender that is not older. -/
def Overtaken (history : List RoomMessage) (x : RoomMessage) : Prop :=
  x ∉ history ∧ ∃ y ∈ history, y.fromId = x.fromId ∧ x.count ≤ y.count

/-- A message is not overtaken when it is in the history, or newer than all in it of its sender. -/
theorem not_overtaken_iff (history : List RoomMessage) (x : RoomMessage) :
    ¬ Overtaken history x
      ↔ x ∈ history ∨ ∀ y ∈ history, y.fromId = x.fromId → y.count < x.count := by
  rw [Overtaken, not_and_or, not_not]
  push Not
  rfl

/-- Where the outbox is empty, everything that was enqueued was delivered. -/
theorem Drained.delivered {c : Config World Event} (h : room.Reach free c) {id : Uuid}
    (hdrained : Drained c.state id) : deliveredTo id c.past = enqueuedTo id c.past := by
  obtain ⟨username, pc, hat, hreceiving, _⟩ := hdrained.serving
  have hchannel := channel h id
  rw [hat] at hchannel
  rw [(hchannel hreceiving).1, hdrained.empty, List.append_nil]

/-- The levels of a history of authentic messages. -/
theorem seeded_lt_iff {past : List Event} {history : List Received}
    (h : Authentic past (history.map Prod.snd)) (id : Uuid) {n : Nat} (hn : 0 < n) :
    seeded history id < n ↔ ∀ y ∈ history.map Prod.snd, y.fromId = id → y.count < n := by
  rw [seeded, HighWater.levels_lt_iff]
  constructor
  · rintro ⟨_, hlt⟩ y hy hfrom
    obtain ⟨z, hz, rfl⟩ := List.mem_map.mp hy
    exact hlt z hz ((h.relayed _ hy).fromId.trans hfrom)
  · intro hlt
    refine ⟨hn, fun z hz hsender => ?_⟩
    have hmem := List.mem_map_of_mem (f := Prod.snd) hz
    exact hlt z.2 hmem ((h.relayed _ hmem).fromId.symm.trans hsender)

/-- **The hand-off loses nothing exactly if nothing is overtaken.** A joiner takes its snapshot
and goes on to the point where its outbox is drained. Everything that was enqueued in the outbox
has been shown, from the history or live, exactly if the history of the snapshot has overtaken
none of the messages that waited in the queue. -/
theorem join_shows_all_iff {c₀ c : Config World Event} {w : World} {evs : List Event} {id : Uuid}
    (h₀ : room.Reach free c₀) (hsnapshot : room.step c₀.state (.act id .snapshot) = some (w, evs))
    (hrun : room.Run free ⟨c₀.past ++ evs, w⟩ c) (hdrained : Drained c.state id)
    (aead : Aead) (roomKey : Key) (username roomName : String) (userId : Uuid)
    (history : List Received) (frames : List (Clock × ServerFrame))
    (hhistory : history.map Prod.snd = c₀.state.messages.history)
    (hframes : frames.map Prod.snd = deliveredTo id c.past) :
    (∀ x, .message x ∈ enqueuedTo id c.past → ∃ clock, (clock, x) ∈ received
        (sessionLog aead roomKey username userId roomName history frames))
      ↔ ∀ x, .message x ∈ (c₀.state.outbox id).queue →
          ¬ Overtaken c₀.state.messages.history x := by
  have hnext : room.Run free c₀ ⟨c₀.past ++ evs, w⟩ :=
    Relation.ReflTransGen.single (.mk _ w evs trivial hsnapshot)
  have hrest : room.Run free c₀ c := hnext.trans hrun
  have h : room.Reach free c := h₀.trans hrest
  -- between registration and snapshot nobody reads from the outbox
  have hqueue : enqueuedTo id c₀.past = (c₀.state.outbox id).queue := by
    obtain ⟨name, hat⟩ := step_snapshot hsnapshot
    exact queue_of_joining h₀ hat trivial trivial
  rw [hdrained.delivered h] at hframes
  have hlive : Authentic c.past (messagesOf (frames.map Prod.snd)) :=
    hframes ▸ outbox_authentic h id
  have hwelcome : Authentic c₀.past (history.map Prod.snd) := hhistory ▸ history_authentic h₀
  have horigin : ∀ f ∈ frames.map Prod.snd, ∃ id, f.origin = some id := by
    rw [hframes]
    exact fun f hf => accepted_origin h f (accepted_of_enqueued h id f hf)
  have hcounted := counted h
  have haccepted {x : RoomMessage} (hx : .message x ∈ enqueuedTo id c.past) :
      x ∈ messagesOf (acceptedIn c.past) :=
    mem_messagesOf.mpr (accepted_of_enqueued h id _ hx)
  -- the client shows what is above the counter that the history has seeded
  have hshown {x : RoomMessage} (hx : .message x ∈ enqueuedTo id c.past) :
      (∃ clock, (clock, x) ∈ received
          (sessionLog aead roomKey username userId roomName history frames))
        ↔ ¬ Overtaken c₀.state.messages.history x := by
    rw [mem_received_iff horigin hlive,
      seeded_lt_iff hwelcome x.fromId (hcounted.positive x (haccepted hx)), hhistory, hframes,
      not_overtaken_iff, and_iff_right (mem_messagesOf.mpr hx)]
  constructor
  · intro hall x hx
    obtain ⟨later, hlater⟩ := hrest.past_prefix
    have henqueued : .message x ∈ enqueuedTo id c.past := by
      rw [← hlater, enqueuedTo_append, hqueue]
      exact List.mem_append_left _ hx
    exact (hshown henqueued).mp (hall x henqueued)
  · intro hnone x hx
    rw [hshown hx]
    -- enqueued before the snapshot, or newer than all of its sender at the time
    rcases enqueued_later h₀ hrest id x hx with hbefore | hnewest
    · exact hnone x (hqueue ▸ hbefore)
    · -- what the history holds of a sender whose newest message this is can only be this one
      rintro ⟨habsent, y, hy, hfrom, hle⟩
      have hy' := history_accepted h₀ hy
      have hcount := Nat.le_antisymm (hnewest y hy' hfrom) hle
      have heq := hcounted.increasing.eq_of_key_val (messagesOf_accepted_mono hrest hy')
        (haccepted hx) hfrom hcount
      exact habsent (heq ▸ hy)

/-! ## Two joiners -/

/-- A test for `Drained`. -/
def World.isDrained (w : World) (id : Uuid) : Bool :=
  match w.tasks id with
  | some (.live _ .pumping) => (w.outbox id).queue.isEmpty
  | _ => false

theorem drained_of_test {w : World} {id : Uuid} (h : w.isDrained id = true) : Drained w id := by
  rw [World.isDrained] at h
  split at h
  · rename_i username hat
    exact ⟨⟨username, .pumping, hat, trivial, not_false⟩, List.isEmpty_iff.mp h⟩
  · cases h

/-- A computed run, cut at a snapshot: what is read off at the snapshot and at the end. -/
theorem exec_snapshot {α β : Type} (id : Uuid) (before after : List Label)
    (g₀ : Config World Event → α) (x₀ : α) (g : Config World Event → β) (x : β)
    (h : ((room.exec (fun _ _ => true) room.start before).bind fun d =>
      (room.exec (fun _ _ => true) d (.act id .snapshot :: after)).map fun c => (g₀ d, g c))
        = some (x₀, x)) :
    ∃ c₀ w evs c, room.Reach free c₀ ∧ room.step c₀.state (.act id .snapshot) = some (w, evs)
      ∧ room.Run free ⟨c₀.past ++ evs, w⟩ c ∧ g₀ c₀ = x₀ ∧ g c = x := by
  obtain ⟨c₀, c, h₀, hc, hx₀, hx⟩ := Machine.exec_then _ _ _ _ _ _ _ _ h
  obtain ⟨w, evs, hstep, hrest⟩ := Machine.exec_cons hc
  exact ⟨c₀, w, evs, c, Machine.exec_run (fun _ _ _ => trivial) h₀, hstep,
    Machine.exec_run (fun _ _ _ => trivial) hrest, hx₀, hx⟩

namespace Cast

/-- Bob registers between the storing and the broadcast of a message of Alice's. -/
def bobComesLate : List Label :=
  arrives alice "alice" ++ isWelcomed alice ++ sends alice (note alice "alice" 1 false)
    ++ [.act alice .store] ++ arrives bob "bob" ++ broadcasts alice [bob, alice]

/-- Bob registers, and before he takes his snapshot Alice sends an ephemeral message and stores
an ordinary one. -/
def bobIsSlow : List Label :=
  arrives alice "alice" ++ isWelcomed alice ++ arrives bob "bob"
    ++ sends alice (note alice "alice" 1 true) ++ broadcasts alice [bob, alice]
    ++ sends alice (note alice "alice" 2 false) ++ [.act alice .store]

def clock : Clock := ⟨0, 0⟩

def roomKey : Key := List.Vector.replicate 32 7

end Cast

open Cast in
/-- The message is both in Bob's history and in his outbox, and he is shown all there is. -/
theorem join_shows_all_late :
    ∃ c, room.Reach free c ∧ messagesOf (enqueuedTo bob c.past) = [relayed alice "alice" 1 false]
      ∧ ∀ x, .message x ∈ enqueuedTo bob c.past → ∃ clk, (clk, x) ∈ received
          (sessionLog Aead.tagging roomKey "bob" bob "main"
            [(clock, relayed alice "alice" 1 false)]
            [(clock, .message (relayed alice "alice" 1 false))]) := by
  obtain ⟨c₀, w, evs, c, h₀, hsnapshot, hrun, hat₀, hat⟩ := exec_snapshot bob bobComesLate
    [.act bob (.sendWelcome (.ok ())), .act bob (.outgoing (.ok ()))]
    (fun c => (c.state.messages.history, (c.state.outbox bob).queue))
    ([relayed alice "alice" 1 false], [.message (relayed alice "alice" 1 false)])
    (fun c => (c.state.isDrained bob, deliveredTo bob c.past))
    (true, [.message (relayed alice "alice" 1 false)])
    (by decide)
  obtain ⟨hhistory, hqueue⟩ := Prod.mk.inj hat₀
  obtain ⟨hdrained, hdelivered⟩ := Prod.mk.inj hat
  have hreach : room.Reach free c :=
    (h₀.tail (.mk _ w evs trivial hsnapshot)).trans hrun
  have henqueued := (drained_of_test hdrained).delivered hreach
  rw [hdelivered] at henqueued
  refine ⟨c, hreach, by rw [← henqueued]; rfl, ?_⟩
  refine (join_shows_all_iff h₀ hsnapshot hrun (drained_of_test hdrained) _ _ _ _ _
    [(clock, relayed alice "alice" 1 false)] [(clock, .message (relayed alice "alice" 1 false))]
    hhistory.symm hdelivered.symm).mpr ?_
  rw [hhistory, hqueue]
  rintro x hx ⟨habsent, -⟩
  cases List.mem_singleton.mp hx
  exact habsent (List.mem_singleton_self _)

open Cast in
/-- The history holds Alice's second message, which makes Bob's client drop the first. -/
theorem join_drops_ephemeral :
    ¬ ∀ (c₀ c : Config World Event) (w : World) (evs : List Event) (id : Uuid),
        room.Reach free c₀ → room.step c₀.state (.act id .snapshot) = some (w, evs) →
        room.Run free ⟨c₀.past ++ evs, w⟩ c → Drained c.state id →
        c.state.connections.Connected id →
        (∀ f ∈ acceptedIn c.past, ∃ m, f = .message m) →
        ∀ (aead : Aead) (roomKey : Key) (username roomName : String) (userId : Uuid)
          (history : List Received) (frames : List (Clock × ServerFrame)), aead.Correct →
          history.map Prod.snd = c₀.state.messages.history →
          frames.map Prod.snd = deliveredTo id c.past →
          ∀ x, .message x ∈ enqueuedTo id c.past → ∃ clk, (clk, x) ∈ received
            (sessionLog aead roomKey username userId roomName history frames) := by
  intro hall
  -- the ephemeral message is not stored, the lasting one after it is
  let first : RoomMessage := relayed alice "alice" 1 true
  let second : RoomMessage := relayed alice "alice" 2 false
  -- the first waits in Bob's queue, and the second is stored but not broadcast yet
  obtain ⟨c₀, w, evs, c, h₀, hsnapshot, hrun, hhistory, hat⟩ := exec_snapshot bob bobIsSlow
    ([.act bob (.sendWelcome (.ok ())), .act bob (.outgoing (.ok ()))]
      ++ broadcasts alice [bob, alice] ++ [.act bob (.outgoing (.ok ()))])
    (fun c => c.state.messages.history) [second]
    (fun c => ((c.state.isDrained bob, c.state.connections.snapshot),
      (acceptedIn c.past, deliveredTo bob c.past)))
    ((true, [bob, alice]), ([.message first, .message second], [.message first, .message second]))
    (by decide)
  obtain ⟨hstate, hstreams⟩ := Prod.mk.inj hat
  obtain ⟨hdrained, hsnap⟩ := Prod.mk.inj hstate
  obtain ⟨haccepted, hdelivered⟩ := Prod.mk.inj hstreams
  have hconnected : c.state.connections.Connected bob := by
    rw [← ConnectionManager.mem_snapshot, hsnap]
    exact List.mem_cons_self
  have hmessages : ∀ f ∈ acceptedIn c.past, ∃ m, f = .message m := by
    rw [haccepted]
    intro f hf
    rcases List.mem_cons.mp hf with rfl | hf
    · exact ⟨first, rfl⟩
    · exact ⟨second, List.mem_singleton.mp hf⟩
  have hreach : room.Reach free c :=
    (h₀.tail (.mk _ w evs trivial hsnapshot)).trans hrun
  have hfirst : .message first ∈ enqueuedTo bob c.past := by
    rw [← (drained_of_test hdrained).delivered hreach, hdelivered]
    exact List.mem_cons_self
  obtain ⟨clk, hshown⟩ := hall c₀ c w evs bob h₀ hsnapshot hrun (drained_of_test hdrained)
    hconnected hmessages Aead.tagging roomKey "bob" "main" bob [(clock, second)]
    [(clock, .message first), (clock, .message second)] Aead.tagging_correct hhistory.symm
    hdelivered.symm first hfirst
  -- the history has raised Alice's counter to 2 before the first one is read
  have hlog : received (sessionLog Aead.tagging roomKey "bob" bob "main" [(clock, second)]
      [(clock, .message first), (clock, .message second)]) = [(clock, second)] := by
    rw [received_sessionLog]
    rfl
  rw [hlog] at hshown
  have hsame : first = second := (Prod.mk.inj (List.mem_singleton.mp hshown)).2
  exact absurd hsame (by decide)

end ChatRs

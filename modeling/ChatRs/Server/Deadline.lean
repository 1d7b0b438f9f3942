import ChatRs.Lib.Timeouts
import ChatRs.Server.Gate

/-!
# The time a handshake takes (`server/mod.rs`)

`handle_connection` up to the registration, against a peer whose frames come at any instants. It
waits three times, for the `RoomSelect`, for the first message of Noise and for the first
encrypted frame, each time under a `tokio::time::timeout` of its own; what it sends it sends at
once. The plan:

* **`phase`**: one wait, and the send that follows it, as steps of the server;
* **`greetTimed`**: when and how the connection ends (`greetTimed_server`: as a run of the
  server);
* **`handshake_budget`**: when that is within `HANDSHAKE_TIMEOUT` of the accept.
-/

namespace ChatRs

open Machine (Config free)
open Timeouts (Party)

def HANDSHAKE_TIMEOUT : Duration := .fromSecs 5

/-- What the peer does: its frames and when they come, and what becomes of the two sends to it.
The responder's own key is a number, as before. -/
structure Exchange where
  frames : List (Instant × Result (List UInt8))
  ephemeral : Nat
  hello : Result Unit
  m1 : Result Unit

section

variable {τ : Type}

/-- The wait under a timer that a connection stands at. -/
def Stage.await (x : Exchange) : Stage τ → Option (Timed (List UInt8) → ConnAct)
  | .selecting => some .recvSelect
  | .handshaking _ _ => some (.recvM0 x.ephemeral)
  | .awaitingHello _ _ _ => some .recvFirst
  | _ => none

/-- The send that it makes without waiting. -/
def Stage.send (x : Exchange) : Stage τ → Option ConnAct
  | .greeting _ _ => some (.sendHello x.hello)
  | .answering _ _ _ _ => some (.sendM1 (some x.m1))
  | _ => none

section Code

variable (N : Noise τ) (decode : List UInt8 → Option ClientFrame) (fill : Nat → Option Key)
  (hub : ServerHub) (id : Uuid) (x : Exchange)

def greeted (s : Stage τ × Nat) (a : ConnAct) : Stage τ × Nat :=
  match greetStep N decode fill hub id s.2 s.1 a with
  | some (stage, drawn, _) => (stage, drawn)
  | none => s

/-- One wait, with the send that follows it. -/
def phase (s : Stage τ × Nat) (r : Timed (List UInt8)) : Stage τ × Nat :=
  match s.1.await x with
  | none => s
  | some recv =>
    let s' := greeted N decode fill hub id s (recv r)
    match s'.1.send x with
    | none => s'
    | some a => greeted N decode fill hub id s' a

/-- The connection as a party with a timer for every wait. -/
def greeter : Party (Stage τ × Nat) (Result (List UInt8)) (Stage τ × Nat) where
  feed s frame :=
    let s' := phase N decode fill hub id x s (some frame)
    if (s'.1.await x).isSome then .inl s' else .inr s'
  timeout s := phase N decode fill hub id x s none

/-- When the handshake of a connection ends, and how. -/
def greetTimed (accepted : Instant) (drawn : Nat) : Instant × (Stage τ × Nat) :=
  (greeter N decode fill hub id x).run HANDSHAKE_TIMEOUT accepted (.selecting, drawn) x.frames

end Code

/-- The documented budget: whether the connection is about to register or closed, it is so by
then. -/
def InBudget (accepted : Instant) (e : Instant × (Stage τ × Nat)) : Prop :=
  (∀ ref username, e.2.1 = .registering ref username → e.1 ≤ accepted + HANDSHAKE_TIMEOUT)
    ∧ ((∀ ref username, e.2.1 ≠ .registering ref username) →
      (∃ err, e.2.1 = .returning (.error err)) ∧ e.1 ≤ accepted + HANDSHAKE_TIMEOUT)

end

/-! ## The three waits -/

section

variable {τ : Type} {N : Noise τ} {decode : List UInt8 → Option ClientFrame}
  {fill : Nat → Option Key} {hub : ServerHub} {id : Uuid} {x : Exchange}

/-- The connection ends here. -/
def Stage.Fails (stage : Stage τ) : Prop := ∃ e, stage = .returning (.error e)

/-- The first wait ends the connection or brings it to the handshake. -/
theorem phase_selecting (drawn : Nat) (r : Timed (List UInt8)) :
    (phase N decode fill hub id x (.selecting, drawn) r).1.Fails
      ∨ ∃ ref room, (phase N decode fill hub id x (.selecting, drawn) r).1
          = .handshaking ref room := by
  simp only [phase, Stage.await, greeted, greetStep]
  cases recvPostcard decode (.protocol "room select timeout") r with
  | error e => exact .inl ⟨e, rfl⟩
  | ok f =>
    cases f with
    | roomSelect roomName =>
      dsimp only
      by_cases hname : roomName.isEmpty ∨ strLen roomName > MAX_ROOM_ID_LEN
      · rw [if_pos hname]
        exact .inl ⟨_, rfl⟩
      · rw [if_neg hname]
        rcases hub.select fill roomName drawn with ⟨result, drawn'⟩
        cases result with
        | error e => exact .inl ⟨e, rfl⟩
        | ok room =>
          cases hhello : x.hello with
          | error e =>
            left
            simp only [Stage.send, hhello]
            exact ⟨e, rfl⟩
          | ok _ =>
            right
            simp only [Stage.send, hhello]
            exact ⟨_, room, rfl⟩
    | hello | message | clear => exact .inl ⟨_, rfl⟩

/-- The second ends it or brings it to the Hello. -/
theorem phase_handshaking (ref : RoomRef) (room : RoomState) (drawn : Nat)
    (r : Timed (List UInt8)) :
    (phase N decode fill hub id x (.handshaking ref room, drawn) r).1.Fails
      ∨ ∃ transport, (phase N decode fill hub id x (.handshaking ref room, drawn) r).1
          = .awaitingHello ref room transport := by
  rcases r with _ | e | m0
  · exact .inl ⟨_, rfl⟩
  · exact .inl ⟨e, rfl⟩
  · simp only [phase, Stage.await, greeted, greetStep]
    rcases N.respond x.ephemeral room.psk room.prologue m0 with _ | ⟨m1, transport⟩
    · exact .inl ⟨_, rfl⟩
    · cases hm1 : x.m1 with
      | error e =>
        left
        simp only [Stage.send, hm1]
        exact ⟨e, rfl⟩
      | ok _ =>
        right
        simp only [Stage.send, hm1]
        exact ⟨transport, rfl⟩

/-- The third ends it or brings it to its registration. -/
theorem phase_awaitingHello (ref : RoomRef) (room : RoomState) (transport : τ) (drawn : Nat)
    (r : Timed (List UInt8)) :
    (phase N decode fill hub id x (.awaitingHello ref room transport, drawn) r).1.Fails
      ∨ ∃ username, (phase N decode fill hub id x (.awaitingHello ref room transport, drawn) r).1
          = .registering ref username := by
  simp only [phase, Stage.await, greeted, greetStep]
  cases recvEncrypted N decode transport (.protocol "hello timeout") r with
  | error e => exact .inl ⟨e, rfl⟩
  | ok f =>
    cases f with
    | hello username =>
      dsimp only
      by_cases hname : username.isEmpty ∨ strLen username > MAX_USERNAME_LEN
          ∨ ¬ isValidUsername username
      · rw [if_pos hname]
        exact .inl ⟨_, rfl⟩
      · rw [if_neg hname]
        exact .inr ⟨username, rfl⟩
    | roomSelect | message | clear => exact .inl ⟨_, rfl⟩

/-- A timer that has run out ends the connection. -/
theorem phase_timeout {s : Stage τ × Nat} (h : (s.1.await x).isSome) :
    (phase N decode fill hub id x s none).1.Fails := by
  obtain ⟨stage, drawn⟩ := s
  cases stage with
  | selecting | handshaking | awaitingHello => exact ⟨_, rfl⟩
  | _ => cases h

/-- How many waits there are still, at most. -/
def Stage.waits : Stage τ → Nat
  | .selecting => 3
  | .handshaking _ _ => 2
  | .awaitingHello _ _ _ => 1
  | _ => 0

/-- After a wait there are fewer to come, or the connection is about to register, or it ends. -/
theorem phase_cases {s : Stage τ × Nat} (h : (s.1.await x).isSome) (r : Timed (List UInt8)) :
    (((phase N decode fill hub id x s r).1.await x).isSome
        ∧ (phase N decode fill hub id x s r).1.waits < s.1.waits)
      ∨ (∃ ref username, (phase N decode fill hub id x s r).1 = .registering ref username)
      ∨ (phase N decode fill hub id x s r).1.Fails := by
  obtain ⟨stage, drawn⟩ := s
  cases stage with
  | selecting =>
    rcases phase_selecting drawn r with hfails | ⟨ref, room, hnext⟩
    · exact .inr (.inr hfails)
    · rw [hnext]
      exact .inl ⟨rfl, Nat.lt_succ_self _⟩
  | handshaking ref room =>
    rcases phase_handshaking ref room drawn r with hfails | ⟨transport, hnext⟩
    · exact .inr (.inr hfails)
    · rw [hnext]
      exact .inl ⟨rfl, Nat.lt_succ_self _⟩
  | awaitingHello ref room transport =>
    rcases phase_awaitingHello ref room transport drawn r with hfails | ⟨username, hnext⟩
    · exact .inr (.inr hfails)
    · exact .inr (.inl ⟨ref, username, hnext⟩)
  | _ => cases h

/-- A frame in time, after which there is another wait. -/
theorem feed_waits {s s' : Stage τ × Nat} {frame : Result (List UInt8)}
    (hfeed : (greeter N decode fill hub id x).feed s frame = .inl s') :
    s' = phase N decode fill hub id x s (some frame) ∧ (s'.1.await x).isSome := by
  simp only [greeter] at hfeed
  split at hfeed <;> cases hfeed
  exact ⟨rfl, ‹_›⟩

/-- A frame in time, after which there is none. -/
theorem feed_ends {s b : Stage τ × Nat} {frame : Result (List UInt8)}
    (hfeed : (greeter N decode fill hub id x).feed s frame = .inr b) :
    b = phase N decode fill hub id x s (some frame) ∧ ¬ (b.1.await x).isSome := by
  simp only [greeter] at hfeed
  split at hfeed <;> cases hfeed
  exact ⟨rfl, ‹_›⟩

/-- Every connection ends, one way or the other. -/
theorem greetTimed_ends (accepted : Instant) (drawn : Nat) :
    (∃ ref username,
        (greetTimed N decode fill hub id x accepted drawn).2.1 = .registering ref username)
      ∨ (greetTimed N decode fill hub id x accepted drawn).2.1.Fails := by
  refine Party.run_invariant (P := greeter N decode fill hub id x)
    (I := fun _ s => (s.1.await x).isSome)
    (F := fun _ b => (∃ ref username, b.1 = .registering ref username) ∨ b.1.Fails)
    (fun _ s h => .inr (phase_timeout h)) (fun _ s f s' _ h hfeed => (feed_waits hfeed).2)
    (fun _ s f b _ h hfeed => ?_) rfl x.frames
  obtain ⟨rfl, hdone⟩ := feed_ends hfeed
  exact (phase_cases h (some f)).resolve_left fun hwaits => hdone hwaits.1

/-- A connection waits three times at most. -/
theorem waits_lt {s : Stage τ × Nat} (h : (s.1.await x).isSome)
    {frames : List (Result (List UInt8))}
    (hwaits : (greeter N decode fill hub id x).Waits s frames) : frames.length < s.1.waits := by
  induction frames generalizing s with
  | nil =>
    obtain ⟨stage, drawn⟩ := s
    cases stage with
    | selecting | handshaking | awaitingHello => exact Nat.succ_pos _
    | _ => cases h
  | cons frame frames ih =>
    obtain ⟨s', hfeed, hwaits⟩ := hwaits
    obtain ⟨rfl, hawait⟩ := feed_waits hfeed
    have hrest := ih hawait hwaits
    rcases phase_cases h (some frame) with ⟨_, hless⟩ | ⟨ref, username, hstage⟩ | ⟨e, hstage⟩
    · exact Nat.lt_of_le_of_lt (Nat.succ_le_of_lt hrest) hless
    · rw [hstage] at hawait
      cases hawait
    · rw [hstage] at hawait
      cases hawait

/-- The server can take the connection there, in no time. -/
def GetsTo (N : Noise τ) (decode : List UInt8 → Option ClientFrame) (fill : Nat → Option Key)
    (hub : ServerHub) (c : Config (Service τ) ServerEvent) (id : Uuid) (s : Stage τ × Nat) : Prop :=
  ∃ c', (server N decode fill hub 0).Run free c c' ∧ c'.state.conns id = some s.1
    ∧ c'.state.drawn = s.2 ∧ c'.state.stores = c.state.stores

/-- A step of the greeting is a step of the server. -/
theorem getsTo_greeted {c : Config (Service τ) ServerEvent} {s : Stage τ × Nat} {a : ConnAct}
    (hat : GetsTo N decode fill hub c id s)
    (ha : (∃ recv r, s.1.await x = some recv ∧ a = recv r) ∨ s.1.send x = some a) :
    GetsTo N decode fill hub c id (greeted N decode fill hub id s a) := by
  obtain ⟨d, hrun, hconn, hdrawn, hstores⟩ := hat
  obtain ⟨stage, drawn⟩ := s
  cases hdrawn
  unfold greeted
  cases hgreet : greetStep N decode fill hub id d.state.drawn stage a with
  | none => exact ⟨d, hrun, hconn, rfl, hstores⟩
  | some next =>
    obtain ⟨stage', drawn', evs⟩ := next
    -- a stage that awaits or sends is one of the greeting
    have hlocal : connStep N decode fill hub d.state id stage a
        = (greetStep N decode fill hub id d.state.drawn stage a).map fun next =>
            ({ d.state with drawn := next.2.1 }.goto id next.1, next.2.2) := by
      rcases ha with ⟨recv, r, hawait, rfl⟩ | hsend
      · cases stage with
        | selecting | handshaking | awaitingHello =>
          cases hawait
          rfl
        | _ => cases hawait
      · cases stage with
        | greeting | answering =>
          cases hsend
          rfl
        | _ => cases hsend
    have hstep : (server N decode fill hub 0).step d.state (.conn id a)
        = some ({ d.state with drawn := drawn' }.goto id stage', evs) := by
      show serverStep N decode fill hub d.state (.conn id a) = _
      simp only [serverStep, hconn, hlocal, hgreet, Option.map_some]
    exact ⟨_, hrun.tail (.mk _ _ _ trivial hstep), Function.update_self .., rfl, hstores⟩

/-- A whole wait, with the sends behind it, is a run of the server. -/
theorem getsTo_phase {c : Config (Service τ) ServerEvent} {s : Stage τ × Nat}
    (hat : GetsTo N decode fill hub c id s) (r : Timed (List UInt8)) :
    GetsTo N decode fill hub c id (phase N decode fill hub id x s r) := by
  unfold phase
  split
  · exact hat
  · rename_i recv hawait
    have hreceived := getsTo_greeted hat (.inl ⟨recv, r, hawait, rfl⟩)
    dsimp only
    split
    · exact hreceived
    · rename_i a hsend
      exact getsTo_greeted hreceived (.inr hsend)

/-- **The timed connection is one of the server's**: there is a run of the server in which it ends
like this, by the server's own clock. -/
theorem greetTimed_server (accepted : Instant) {c : Config (Service τ) ServerEvent}
    (hat : c.state.conns id = some .selecting) :
    ∃ c', (server N decode fill hub 0).Run free c c'
      ∧ c'.state.conns id = some (greetTimed N decode fill hub id x accepted c.state.drawn).2.1
      ∧ ∀ ref, (c'.state.stores ref).now + accepted
          = (c.state.stores ref).now
            + (greetTimed N decode fill hub id x accepted c.state.drawn).1 := by
  let At (now : Instant) (s : Stage τ × Nat) : Prop :=
    ∃ c', (server N decode fill hub 0).Run free c c' ∧ c'.state.conns id = some s.1
      ∧ c'.state.drawn = s.2
      ∧ ∀ ref, (c'.state.stores ref).now + accepted = (c.state.stores ref).now + now
  -- the server lets the time pass and then takes the steps of the phase
  have goes {now : Instant} {s : Stage τ × Nat} (d : Duration) (r : Timed (List UInt8))
      (h : At now s) : At (now + d) (phase N decode fill hub id x s r) := by
    obtain ⟨c₁, hrun, hconn, hdrawn, hnow⟩ := h
    obtain ⟨c₂, helapse, hconn₂, hdrawn₂, hnow₂⟩ :
        ∃ c₂, (server N decode fill hub 0).Next free c₁ c₂ ∧ c₂.state.conns id = some s.1
          ∧ c₂.state.drawn = s.2
          ∧ ∀ ref, (c₂.state.stores ref).now = (c₁.state.stores ref).now + d := by
      have helapse : (server N decode fill hub 0).step c₁.state (.elapse d) = some (_, []) := rfl
      exact ⟨_, .mk _ _ _ trivial helapse, hconn, hdrawn, fun _ => rfl⟩
    obtain ⟨c₃, hrun₃, hconn₃, hdrawn₃, hstores⟩ :=
      getsTo_phase (x := x) ⟨c₂, .refl, hconn₂, hdrawn₂, rfl⟩ r
    refine ⟨c₃, (hrun.tail helapse).trans hrun₃, hconn₃, hdrawn₃, fun ref => ?_⟩
    rw [hstores, hnow₂, Nat.add_right_comm, hnow ref, Nat.add_assoc]
  have hstart : At accepted (.selecting, c.state.drawn) := ⟨c, .refl, hat, rfl, fun _ => rfl⟩
  obtain ⟨c', hrun, hconn, _, hnow⟩ := Party.run_invariant (P := greeter N decode fill hub id x)
    (T := HANDSHAKE_TIMEOUT) (I := At) (F := At) (fun now s h => goes _ none h)
    (fun now s f s' d h hfeed => (feed_waits hfeed).1 ▸ goes d (some f) h)
    (fun now s f b d h hfeed => (feed_ends hfeed).1 ▸ goes d (some f) h) hstart x.frames
  exact ⟨c', hrun, hconn, hnow⟩

/-- What the timers do guarantee: three times the documented budget. -/
theorem greetTimed_le (accepted : Instant) (drawn : Nat) :
    (greetTimed N decode fill hub id x accepted drawn).1 ≤ accepted + 3 * HANDSHAKE_TIMEOUT :=
  Party.run_le (fun _ hwaits => waits_lt rfl hwaits) accepted x.frames

/-- **The handshake budget.** A connection has registered or is closed within `HANDSHAKE_TIMEOUT`
of its accept exactly if each frame that it comes to wait for is there within that time, or none
of the time has passed yet when it starts to wait. -/
theorem handshake_budget (accepted : Instant) (drawn : Nat) :
    InBudget accepted (greetTimed N decode fill hub id x accepted drawn)
      ↔ (greeter N decode fill hub id x).Prompt HANDSHAKE_TIMEOUT accepted (.selecting, drawn)
          x.frames := by
  rw [← Party.run_le_iff]
  constructor
  · rintro ⟨hregisters, hcloses⟩
    rcases greetTimed_ends accepted drawn with ⟨ref, username, hend⟩ | ⟨e, hend⟩
    · exact hregisters ref username hend
    · refine (hcloses fun ref username hregistering => ?_).2
      cases hend.symm.trans hregistering
  · intro hle
    refine ⟨fun _ _ _ => hle, fun hnot => ⟨?_, hle⟩⟩
    exact (greetTimed_ends accepted drawn).resolve_left fun ⟨ref, username, hend⟩ =>
      hnot ref username hend

end

/-! ## A peer that takes its time -/

open Knock Cast in
/-- Four seconds for every frame. -/
def unhurried : Exchange where
  frames := [(4000000000, .ok (encodeClientFrame (.roomSelect "main"))),
    (8000000000, .ok firstMessage), (12000000000, .ok (mainRoom.psk.toList ++ helloBytes))]
  ephemeral := 0
  hello := .ok ()
  m1 := .ok ()

open Knock Cast in
/-- No timer runs out, and the session is registered 12 seconds after the accept. -/
theorem handshake_budget_unhurried :
    greetTimed clearNoise decodeKnown stream (hubWith "main") alice unhurried 0 1
        = (12000000000, .registering (.hub "main") "alice", 1)
      ∧ ¬ InBudget 0
        (greetTimed clearNoise decodeKnown stream (hubWith "main") alice unhurried 0 1) := by
  have hend : greetTimed clearNoise decodeKnown stream (hubWith "main") alice unhurried 0 1
      = (12000000000, .registering (.hub "main") "alice", 1) := by
    rfl
  refine ⟨hend, fun hbudget => ?_⟩
  rw [hend] at hbudget
  exact absurd (hbudget.1 _ _ rfl) (by decide)

end ChatRs

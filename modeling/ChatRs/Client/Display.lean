import ChatRs.Client.Loop
import ChatRs.Client.Line
import ChatRs.Lib.Machine
import ChatRs.Lib.Provenance

/-!
# The room pane in time (`client/mod.rs`, `client/ui.rs`)

A client from its Welcome on, as a machine: the history is replayed, the terminal is entered, and
then `event_loop` draws and waits for an input in turn. Time passes between any two of these
steps. Every step reports what it does to the deque of messages, along the branches of the code:
a message arrives, the deque is wiped, Ctrl-R reveals, a tick expires.

* **`screen`**: the machine, with `turn` as its step on an input;
* **`entries`**: the messages in the deque, each with the place of its arrival in the run;
* **`entries_messages`**: they are the deque of the state.
-/

namespace ChatRs

open Client

/-! ## What happens to the deque -/

inductive DisplayEvent where
  | arrived (m : DisplayMsg)
  | wiped
  | revealed (t : Instant)
  | ticked (t : Instant)

/-- A reveal that is over is cleared. -/
def EphemeralState.remask (now : Instant) (e : EphemeralState) : EphemeralState :=
  match e.revealedUntil with
  | some until_ => if now ≥ until_ then { e with revealedUntil := none } else e
  | none => e

namespace DisplayMsg

/-- An ephemeral message is shown until the given instant. -/
def revealUntil (until_ : Instant) (m : DisplayMsg) : DisplayMsg :=
  { m with ephemeral := m.ephemeral.map fun e => { e with revealedUntil := some until_ } }

/-- What `retain` keeps in `tick_expire_ephemerals`. -/
def isLive (now : Instant) (m : DisplayMsg) : Bool :=
  match m.ephemeral with
  | some e => now.durationSince e.receivedAt < Duration.fromMillis EPHEMERAL_TTL_MS
  | none => true

def remask (now : Instant) (m : DisplayMsg) : DisplayMsg :=
  { m with ephemeral := m.ephemeral.map (EphemeralState.remask now) }

end DisplayMsg

namespace DisplayEvent

def edit : DisplayEvent → Ring.Edit DisplayMsg
  | arrived m => .push m
  | wiped => .wipe
  | revealed t =>
    .retain (fun _ => true) (DisplayMsg.revealUntil (t + Duration.fromMillis EPHEMERAL_REVEAL_MS))
  | ticked t => .retain (DisplayMsg.isLive t) (DisplayMsg.remask t)

end DisplayEvent

/-- The deque after some events. -/
def showing (messages : List DisplayMsg) (evs : List DisplayEvent) : List DisplayMsg :=
  (evs.map DisplayEvent.edit).foldl (Ring.Edit.apply HISTORY_CAP) messages

/-- The messages in the deque, each with the place of its arrival. -/
def entries (past : List DisplayEvent) : List (Nat × DisplayMsg) :=
  Ring.entries HISTORY_CAP DisplayEvent.edit past

theorem showing_append (messages : List DisplayMsg) (evs evs' : List DisplayEvent) :
    showing messages (evs ++ evs') = showing (showing messages evs) evs' := by
  simp only [showing, List.map_append, List.foldl_append]

theorem entries_map_snd (past : List DisplayEvent) :
    (entries past).map Prod.snd = showing [] past := Ring.entries_map_snd ..

theorem showing_arrived (messages : List DisplayMsg) (m : DisplayMsg) :
    showing messages [.arrived m] = Ring.push HISTORY_CAP messages m := rfl

theorem UiState.revealEphemerals_messages (s : UiState) (clock : Clock) :
    (s.revealEphemerals clock).messages = showing s.messages [.revealed clock.now] := by
  show s.messages.map _ = (s.messages.filter fun _ => true).map _
  rw [List.filter_true]
  rfl

theorem UiState.tickExpireEphemerals_messages (s : UiState) (clock : Clock) :
    (s.tickExpireEphemerals clock).messages = showing s.messages [.ticked clock.now] := by
  simp only [UiState.tickExpireEphemerals]
  split
  · rw [UiState.clampScroll_messages]
    rfl
  · rfl

/-! ## What a turn does to it -/

/-- The notice in place of a message that could not be sealed. -/
def Typed.notice? (clock : Clock) : Typed → Option DisplayEvent
  | .message _ _ (.error _) => some (.arrived (systemMsg clock "encryption failed"))
  | _ => none

def Shown.event (aead : Aead) (roomKey : Key) (x : Shown) : DisplayEvent :=
  match x.entry aead roomKey with
  | some m => .arrived m
  | none => .wiped

section

variable (aead : Aead) (roomKey : Key)

def keyEvents (s : UiState) (clock : Clock) (random : Option Nonce) (key : KeyEvent) :
    List DisplayEvent :=
  if key.kind = .press ∧ key.control ∧ key.code = .char 'r' then [.revealed clock.now]
  else (keyLog aead roomKey s clock random key).filterMap (Typed.notice? clock)

def turnEvents (s : UiState) (clock : Clock) : Input → List DisplayEvent
  | .key k random _ => keyEvents aead roomKey s clock random k
  | .incoming (some (.ok f)) => (frameLog s clock f).map (Shown.event aead roomKey)
  | .tick => [.ticked clock.now]
  | _ => []

/-- What Enter puts on the screen are the notices of what it did. -/
theorem enter_messages (s : UiState) (clock : Clock) (random : Option Nonce) :
    (enter aead roomKey s clock random).2.messages
      = showing s.messages
          ((enterLog aead roomKey s clock random).filterMap (Typed.notice? clock)) := by
  simp only [enter, enterLog]
  cases parseLine s.input with
  | nothing | clear | quit => rfl
  | message body ephemeral =>
    have hsame : ({ s with input := "" } : UiState).nextAd clock ephemeral
        = s.nextAd clock ephemeral := rfl
    simp only [submit, hsame]
    cases roomSeal aead random roomKey (strBytes body) (s.nextAd clock ephemeral) with
    | ok ct => rfl
    | error e =>
      rw [UiState.pushSystem, UiState.push_messages]
      rfl

/-- So is everything that the keys do to the list, with the reveals of Ctrl-R. -/
theorem handleKey_messages (s : UiState) (clock : Clock) (random : Option Nonce)
    (key : KeyEvent) :
    (handleKey aead roomKey s clock random key).2.messages
      = showing s.messages (keyEvents aead roomKey s clock random key) := by
  -- a key that is not Ctrl-R and not Enter is in no log
  have hnothing (hreveal : ¬ (key.kind = .press ∧ key.control ∧ key.code = .char 'r'))
      (henter : ¬ (key.kind = .press ∧ key.code = .enter)) :
      keyEvents aead roomKey s clock random key = [] := by
    rw [keyEvents, if_neg hreveal, keyLog, if_neg henter]
    rfl
  unfold handleKey
  split
  · rename_i hkind
    rw [hnothing (fun h => hkind h.1) (fun h => hkind h.1)]
    rfl
  rename_i hkind
  split
  · rename_i hquit
    rw [hnothing (by rw [hquit.2]; simp) (by rw [hquit.2]; simp)]
    rfl
  split
  · rename_i hreveal
    rw [keyEvents, if_pos ⟨not_not.mp hkind, hreveal⟩, UiState.revealEphemerals_messages]
  rename_i hreveal
  cases hcode : key.code with
  | enter =>
    rw [keyEvents, if_neg (fun h => hreveal h.2), keyLog, if_pos ⟨not_not.mp hkind, hcode⟩]
    exact enter_messages aead roomKey s clock random
  | up | pageUp =>
    rw [hnothing (fun h => hreveal h.2) (by rw [hcode]; simp)]
    exact UiState.clampScroll_messages _
  | backspace | down | pageDown | home | end_ | char | other =>
    rw [hnothing (fun h => hreveal h.2) (by rw [hcode]; simp)]
    rfl

/-- The events of a frame are its display log. -/
theorem handleServerFrame_showing (s : UiState) (clock : Clock) (f : ServerFrame) :
    (handleServerFrame aead roomKey s clock f).2.messages
      = showing s.messages ((frameLog s clock f).map (Shown.event aead roomKey)) := by
  have hact (messages : List DisplayMsg) (x : Shown) :
      Ring.act HISTORY_CAP messages (x.entry aead roomKey)
        = (x.event aead roomKey).edit.apply HISTORY_CAP messages := by
    rw [Shown.event]
    cases x.entry aead roomKey with
    | some m => rfl
    | none => rfl
  rw [handleServerFrame_messages, showing, List.map_map, List.foldl_map, List.foldl_map]
  simp only [hact, Function.comp_apply]

/-- A turn of the loop edits the deque as its display events say. -/
theorem turn_messages (s : UiState) (clock : Clock) (i : Input) :
    (turn aead roomKey s clock i).2.messages
      = showing s.messages (turnEvents aead roomKey s clock i) := by
  cases i with
  | key k random written => rw [turn_key, handleKey_messages, turnEvents]
  | incoming r =>
    match r with
    | none => rfl
    | some (.error e) => rfl
    | some (.ok f) => rw [turn_incoming, handleServerFrame_showing, turnEvents]
  | tick => exact s.tickExpireEphemerals_messages clock
  | drawFailed | otherEvent | eventError | eventsEnded => rfl

end

/-! ## The machine -/

/-- The part of `render` that changes the state; the pane shows what fits into `innerH` lines. -/
def UiState.render (s : UiState) (innerH : Nat) : UiState :=
  { s with lastInnerH := innerH }.clampScroll

/-- Where the client is: in the loop over the history, before the next draw, at the `select!`, or
out of the loop. -/
inductive ScreenStage where
  | replaying
  | drawing
  | selecting
  | returned
deriving DecidableEq

structure Screen where
  ui : UiState
  now : Instant
  stage : ScreenStage

inductive ScreenLabel where
  | elapse (d : Duration)
  | replay (nowMs : UInt64) (m : RoomMessage)
  /-- `TerminalGuard::enter`. -/
  | enterTerminal
  | draw (innerH : Nat)
  | input (nowMs : UInt64) (i : Input)

section

variable (aead : Aead) (roomKey : Key)

def screenStep (s : Screen) : ScreenLabel → Option (Screen × List DisplayEvent)
  | .elapse d => some ({ s with now := s.now + d }, [])
  | .replay nowMs m =>
    if s.stage = .replaying then
      let clock : Clock := ⟨s.now, nowMs⟩
      some ({ s with ui := replayHistory aead roomKey s.ui [(clock, m)] },
        [.arrived (decryptToDisplay aead roomKey clock m)])
    else none
  | .enterTerminal =>
    if s.stage = .replaying then some ({ s with stage := .drawing }, []) else none
  | .draw innerH =>
    if s.stage = .drawing then
      some ({ s with ui := s.ui.render innerH, stage := .selecting }, [])
    else none
  | .input nowMs i =>
    if s.stage = .selecting then
      let clock : Clock := ⟨s.now, nowMs⟩
      let (result, ui) := turn aead roomKey s.ui clock i
      some ({ s with ui := ui, stage := if result.isSome then .returned else .drawing },
        turnEvents aead roomKey s.ui clock i)
    else none

def screen (username : String) (userId : Uuid) (room : String) :
    Machine Screen ScreenLabel DisplayEvent where
  init := ⟨UiState.new username userId room, 0, .replaying⟩
  step := screenStep aead roomKey

/-- What a step can do to the state, with its events. -/
inductive ScreenStep (s : Screen) : Screen → List DisplayEvent → Prop
  | passes (d : Duration) : ScreenStep s { s with now := s.now + d } []
  | replays (nowMs : UInt64) (m : RoomMessage) :
      ScreenStep s { s with ui := replayHistory aead roomKey s.ui [(⟨s.now, nowMs⟩, m)] }
        [.arrived (decryptToDisplay aead roomKey ⟨s.now, nowMs⟩ m)]
  | enters : ScreenStep s { s with stage := .drawing } []
  | draws (innerH : Nat) :
      ScreenStep s { s with ui := s.ui.render innerH, stage := .selecting } []
  | turns (nowMs : UInt64) (i : Input) (stage : ScreenStage) :
      ScreenStep s { s with ui := (turn aead roomKey s.ui ⟨s.now, nowMs⟩ i).2, stage := stage }
        (turnEvents aead roomKey s.ui ⟨s.now, nowMs⟩ i)

variable {aead roomKey} {s s' : Screen} {evs : List DisplayEvent}

/-- The inversion of a step of the screen: a turn, a draw, a tick, or time that passes. -/
theorem screenStep_inv {l : ScreenLabel} (h : screenStep aead roomKey s l = some (s', evs)) :
    ScreenStep aead roomKey s s' evs := by
  cases l with
  | elapse d =>
    cases h
    exact .passes d
  | replay nowMs m =>
    simp only [screenStep, Option.ite_none_right_eq_some] at h
    cases h.2
    exact .replays nowMs m
  | enterTerminal =>
    simp only [screenStep, Option.ite_none_right_eq_some] at h
    cases h.2
    exact .enters
  | draw innerH =>
    simp only [screenStep, Option.ite_none_right_eq_some] at h
    cases h.2
    exact .draws innerH
  | input nowMs i =>
    simp only [screenStep, Option.ite_none_right_eq_some] at h
    cases h.2
    exact .turns nowMs i _

namespace ScreenStep

/-- The events say what becomes of the deque. -/
theorem messages (h : ScreenStep aead roomKey s s' evs) :
    s'.ui.messages = showing s.ui.messages evs := by
  cases h with
  | passes | enters => rfl
  | replays nowMs m =>
    simp only [replayHistory]
    rw [UiState.push_messages, UiState.tryAcceptCounter_messages, showing_arrived]
  | draws innerH => exact UiState.clampScroll_messages _
  | turns nowMs i stage => exact turn_messages aead roomKey s.ui _ i

/-- Time does not go back. -/
theorem now_le (h : ScreenStep aead roomKey s s' evs) : s.now ≤ s'.now := by
  cases h with
  | passes d => exact Nat.le_add_right _ _
  | replays | enters | draws | turns => exact Nat.le_refl _

end ScreenStep

end

section

variable {aead : Aead} {roomKey : Key} {username : String} {userId : Uuid} {room : String}
variable {G : Machine.Guard Screen ScreenLabel DisplayEvent}
variable {c : Machine.Config Screen DisplayEvent}

/-- **The deque is what the run has left in it.** -/
theorem showing_past (h : (screen aead roomKey username userId room).Reach G c) :
    c.state.ui.messages = showing [] c.past := by
  refine Machine.Reach.invariant (P := fun c => c.state.ui.messages = showing [] c.past) rfl ?_ h
  intro d l s' evs _ ih _ hs
  show s'.ui.messages = showing [] (d.past ++ evs)
  rw [showing_append, ← ih]
  exact (screenStep_inv hs).messages

/-- **The entries are the deque**, in its order. -/
theorem entries_messages (h : (screen aead roomKey username userId room).Reach G c) :
    (entries c.past).map Prod.snd = c.state.ui.messages := by
  rw [entries_map_snd, showing_past h]

end

end ChatRs

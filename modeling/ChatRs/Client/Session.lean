import ChatRs.Client.Ui

/-!
# A client session (`client/mod.rs`)

What a client does with the frames of a server after the handshake: `run` replays the history
of the Welcome, then the network arm of `event_loop` hands every further frame to
`handleServerFrame` until one of them is an error. The server is arbitrary, so the history and
the frames are any lists; every item comes with the clock it is processed at.

* **`session`**: the code, history loop and event loop;
* **`sessionLog`**: the same run, recording what it does to the display;
* **`session_messages`**: the display is the window of the last `HISTORY_CAP` log entries since
  the last wipe;
* **`received_sessionLog`**: what reaches `decryptToDisplay` is the whole history and, of the
  live messages, those that `HighWater.admitted` lets through.
-/

namespace ChatRs

/-- A received room message with the clock it is processed at. -/
abbrev Received := Clock × RoomMessage

namespace Received

def sender (x : Received) : Uuid := x.2.ad.fromId

def counter (x : Received) : Nat := x.2.ad.counter.toNat

end Received

section Code

variable (aead : Aead) (roomKey : Key)

-- `for m in &history`: the verdict of the filter is dropped, every message is pushed
def replayHistory : UiState → List Received → UiState
  | s, [] => s
  | s, (clock, m) :: rest =>
    let s := (s.tryAcceptCounter m.ad.fromId m.ad.counter).2
    replayHistory (s.push (decryptToDisplay aead roomKey clock m)) rest

def handleServerFrame (s : UiState) (clock : Clock) : ServerFrame → Option Error × UiState
  | .message m =>
    match s.tryAcceptCounter m.ad.fromId m.ad.counter with
    | (false, s) => (none, s.pushSystem clock ("dropped replay from " ++ m.username))
    | (true, s) => (none, s.push (decryptToDisplay aead roomKey clock m))
  | .cleared _ username =>
    (none, s.clearMessages.pushSystem clock ("cleared by " ++ username))
  | .error reason => (some (.server reason), s)
  | .hello _ _ => (some (.protocol "unexpected handshake frame after auth"), s)
  | .welcome _ _ => (some (.protocol "unexpected handshake frame after auth"), s)

-- the `incoming` arm of `event_loop`, which returns with the first error
def eventLoop : UiState → List (Clock × ServerFrame) → Option Error × UiState
  | s, [] => (none, s)
  | s, (clock, f) :: rest =>
    match handleServerFrame aead roomKey s clock f with
    | (some err, s) => (some err, s)
    | (none, s) => eventLoop s rest

def session (username : String) (userId : Uuid) (room : String) (history : List Received)
    (frames : List (Clock × ServerFrame)) : Option Error × UiState :=
  eventLoop aead roomKey
    (replayHistory aead roomKey (UiState.new username userId room) history) frames

end Code

/-! ## The display log

The display forgets: it is bounded, and a `Cleared` frame wipes it. The log records what each
step did to it, following the branches of the code.
-/

/-- What a step does to the display. -/
inductive Shown where
  | received (x : Received)
  | notice (clock : Clock) (text : String)
  | wiped

def systemMsg (clock : Clock) (text : String) : DisplayMsg where
  tsMs := clock.nowMs
  kind := .system text
  ephemeral := none

namespace Shown

/-- The entry that is pushed, `none` for a wipe. -/
def entry (aead : Aead) (roomKey : Key) : Shown → Option DisplayMsg
  | received x => some (decryptToDisplay aead roomKey x.1 x.2)
  | notice clock text => some (systemMsg clock text)
  | wiped => none

def received? : Shown → Option Received
  | received x => some x
  | _ => none

end Shown

def frameLog (s : UiState) (clock : Clock) : ServerFrame → List Shown
  | .message m =>
    if (s.tryAcceptCounter m.ad.fromId m.ad.counter).1 then [.received (clock, m)]
    else [.notice clock ("dropped replay from " ++ m.username)]
  | .cleared _ username => [.wiped, .notice clock ("cleared by " ++ username)]
  | .error _ => []
  | .hello _ _ => []
  | .welcome _ _ => []

def loopLog (aead : Aead) (roomKey : Key) : UiState → List (Clock × ServerFrame) → List Shown
  | _, [] => []
  | s, (clock, f) :: rest =>
    frameLog s clock f ++
      match handleServerFrame aead roomKey s clock f with
      | (some _, _) => []
      | (none, s) => loopLog aead roomKey s rest

def sessionLog (aead : Aead) (roomKey : Key) (username : String) (userId : Uuid) (room : String)
    (history : List Received) (frames : List (Clock × ServerFrame)) : List Shown :=
  history.map .received ++
    loopLog aead roomKey
      (replayHistory aead roomKey (UiState.new username userId room) history) frames

/-- The messages of a log that went through `decryptToDisplay`, in order. -/
def received (log : List Shown) : List Received := log.filterMap Shown.received?

section

variable (aead : Aead) (roomKey : Key)

/-- The history is put on the screen entry by entry, whatever its counters. -/
theorem replayHistory_messages (s : UiState) (history : List Received) :
    (replayHistory aead roomKey s history).messages
      = ((history.map Shown.received).map (Shown.entry aead roomKey)).foldl
          (Ring.act HISTORY_CAP) s.messages := by
  induction history generalizing s with
  | nil => rfl
  | cons x history ih =>
    rw [replayHistory, ih, UiState.push_messages, UiState.tryAcceptCounter_messages]
    rfl

/-- A frame puts an entry on the screen, a notice, or wipes it. -/
theorem handleServerFrame_messages (s : UiState) (clock : Clock) (f : ServerFrame) :
    (handleServerFrame aead roomKey s clock f).2.messages
      = ((frameLog s clock f).map (Shown.entry aead roomKey)).foldl
          (Ring.act HISTORY_CAP) s.messages := by
  cases f with
  | message m =>
    have hmsgs := UiState.tryAcceptCounter_messages s m.ad.fromId m.ad.counter
    simp only [handleServerFrame, frameLog]
    split
    · rename_i s' heq
      rw [heq] at hmsgs ⊢
      rw [UiState.pushSystem, UiState.push_messages, hmsgs]
      rfl
    · rename_i s' heq
      rw [heq] at hmsgs ⊢
      rw [UiState.push_messages, hmsgs]
      rfl
  | cleared _ username =>
    simp only [handleServerFrame, UiState.pushSystem, UiState.push_messages]
    rfl
  | error _ => rfl
  | hello _ _ => rfl
  | welcome _ _ => rfl

/-- So the screen shows what the loop has noted, through the ring of its list. -/
theorem eventLoop_messages (s : UiState) (frames : List (Clock × ServerFrame)) :
    (eventLoop aead roomKey s frames).2.messages
      = ((loopLog aead roomKey s frames).map (Shown.entry aead roomKey)).foldl
          (Ring.act HISTORY_CAP) s.messages := by
  induction frames generalizing s with
  | nil => rfl
  | cons x frames ih =>
    have hstep := handleServerFrame_messages aead roomKey s x.1 x.2
    simp only [eventLoop, loopLog, List.map_append, List.foldl_append, ← hstep]
    split
    · rename_i heq
      rw [heq]
      rfl
    · rename_i heq
      rw [heq, ih]

/-- **The display is a window on the log**: the last `HISTORY_CAP` entries since the last
wipe. -/
theorem session_messages (username : String) (userId : Uuid) (room : String)
    (history : List Received) (frames : List (Clock × ServerFrame)) :
    (session aead roomKey username userId room history frames).2.messages
      = (Ring.sinceWipe ((sessionLog aead roomKey username userId room history frames).map
          (Shown.entry aead roomKey))).rtake HISTORY_CAP := by
  have hcap : 0 < HISTORY_CAP := by decide
  rw [session, eventLoop_messages, replayHistory_messages, ← Ring.foldl_act hcap, sessionLog,
    List.map_append, List.foldl_append]
  rfl

end

/-! ## What reaches `decryptToDisplay`

On the levels of the seen counters the history raises and the live frames are filtered. Only
messages touch the levels, so the filter can be read off the list of live messages alone.
-/

/-- The live messages that arrive before the frame that ends the session. -/
def liveMessages : List (Clock × ServerFrame) → List Received
  | [] => []
  | (clock, .message m) :: rest => (clock, m) :: liveMessages rest
  | (_, .cleared _ _) :: rest => liveMessages rest
  | (_, .error _) :: _ => []
  | (_, .hello _ _) :: _ => []
  | (_, .welcome _ _) :: _ => []

/-- The levels that a history leaves behind. -/
def seeded (history : List Received) : Uuid → Nat :=
  HighWater.levels Received.sender Received.counter (fun _ => 0) history

/-- The live messages that pass the filter. -/
def accepted (level : Uuid → Nat) (frames : List (Clock × ServerFrame)) : List Received :=
  HighWater.admitted Received.sender Received.counter level (liveMessages frames)

section

variable (aead : Aead) (roomKey : Key)

/-- The levels after the history are the highest counters in it. -/
theorem replayHistory_level (s : UiState) (history : List Received) :
    (replayHistory aead roomKey s history).level
      = HighWater.levels Received.sender Received.counter s.level history := by
  induction history generalizing s with
  | nil => rfl
  | cons x history ih =>
    rw [replayHistory, ih, UiState.push_level, UiState.tryAcceptCounter_level]
    rfl

/-- A message raises the level of its sender, whether it is new or not. -/
theorem handleServerFrame_message_level (s : UiState) (clock : Clock) (m : RoomMessage) :
    (handleServerFrame aead roomKey s clock (.message m)).2.level
      = HighWater.raise s.level m.ad.fromId m.ad.counter.toNat := by
  rw [← UiState.tryAcceptCounter_level, handleServerFrame]
  split
  · rename_i s' heq
    rw [UiState.pushSystem_level, heq]
  · rename_i s' heq
    rw [UiState.push_level, heq]

/-- A clear raises none. -/
theorem handleServerFrame_cleared_level (s : UiState) (clock : Clock) (by_ : Uuid)
    (username : String) :
    (handleServerFrame aead roomKey s clock (.cleared by_ username)).2.level = s.level := by
  rw [handleServerFrame, UiState.pushSystem_level, UiState.clearMessages_level]

/-- A message never ends the session. -/
theorem handleServerFrame_message_fst (s : UiState) (clock : Clock) (m : RoomMessage) :
    (handleServerFrame aead roomKey s clock (.message m)).1 = none := by
  rw [handleServerFrame]
  split <;> rfl

/-- What the loop notes with one message more in front. -/
theorem loopLog_message (s : UiState) (clock : Clock) (m : RoomMessage)
    (rest : List (Clock × ServerFrame)) :
    loopLog aead roomKey s ((clock, .message m) :: rest)
      = frameLog s clock (.message m) ++
          loopLog aead roomKey (handleServerFrame aead roomKey s clock (.message m)).2 rest := by
  have hfst := handleServerFrame_message_fst aead roomKey s clock m
  rw [loopLog]
  split
  · rename_i heq
    rw [heq] at hfst
    cases hfst
  · rename_i heq
    rw [heq]

theorem received_append (xs ys : List Shown) :
    received (xs ++ ys) = received xs ++ received ys := List.filterMap_append

/-- A message is received when its counter is above the level of its sender. -/
theorem received_frameLog (s : UiState) (clock : Clock) (m : RoomMessage) :
    received (frameLog s clock (.message m))
      = if s.level m.ad.fromId < m.ad.counter.toNat then [(clock, m)] else [] := by
  rw [frameLog, UiState.tryAcceptCounter_fst]
  by_cases h : s.level m.ad.fromId < m.ad.counter.toNat
  · rw [if_pos h, if_pos (decide_eq_true h)]
    rfl
  · rw [if_neg h, if_neg (by rw [decide_eq_false h]; decide)]
    rfl

/-- **The event loop is the high-water filter** on the live messages. -/
theorem received_loopLog (s : UiState) (frames : List (Clock × ServerFrame)) :
    received (loopLog aead roomKey s frames) = accepted s.level frames := by
  rw [accepted]
  induction frames generalizing s with
  | nil => rfl
  | cons x frames ih =>
    obtain ⟨clock, f⟩ := x
    cases f with
    | message m =>
      rw [loopLog_message, received_append, received_frameLog, ih,
        handleServerFrame_message_level, liveMessages, HighWater.admitted]
      show (if s.level m.ad.fromId < m.ad.counter.toNat then [(clock, m)] else []) ++ _
        = if s.level m.ad.fromId < m.ad.counter.toNat then _ else _
      split <;> rfl
    | cleared by_ username =>
      rw [liveMessages, ← handleServerFrame_cleared_level aead roomKey s clock by_ username, ← ih]
      rfl
    | error _ => rfl
    | hello _ _ => rfl
    | welcome _ _ => rfl

/-- **All of the history, and of the live messages what the filter admits.** -/
theorem received_sessionLog (username : String) (userId : Uuid) (room : String)
    (history : List Received) (frames : List (Clock × ServerFrame)) :
    received (sessionLog aead roomKey username userId room history frames)
      = history ++ accepted (seeded history) frames := by
  have hhistory : received (history.map .received) = history := by
    rw [received, List.filterMap_map]
    exact List.filterMap_some
  rw [sessionLog, received_append, received_loopLog, replayHistory_level, UiState.new_level,
    hhistory, seeded]

end

end ChatRs

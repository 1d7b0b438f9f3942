import ChatRs.Crypto.Room
import ChatRs.Lib.HighWater
import ChatRs.Lib.Ring

/-!
# The client's state (`client/ui.rs`)

`UiState` with the operations that received frames go through: the per-sender replay filter
(`tryAcceptCounter`), the bounded message deque (`push`, `clearMessages`) and the step from a
`RoomMessage` to a display entry (`decryptToDisplay`). `Instant::now()` and `now_ms()` are
read from a `Clock` that the caller passes in.

The map of seen counters is used through one function, the level it assigns to a sender
(`UiState.level`); on levels the filter is `HighWater.raise`.
-/

namespace ChatRs

/-- The two clocks a step can read. -/
structure Clock where
  now : Instant
  nowMs : UInt64

structure EphemeralState where
  receivedAt : Instant
  revealedUntil : Option Instant

inductive DisplayKind where
  | message (username text : String)
  | system (text : String)

structure DisplayMsg where
  tsMs : UInt64
  kind : DisplayKind
  ephemeral : Option EphemeralState

def HISTORY_CAP : Nat := 500

structure UiState where
  username : String
  userId : Uuid
  room : String
  input : String
  messages : List DisplayMsg
  scroll : Nat
  lastInnerH : Nat
  nextCounter : UInt64
  seenCounters : AList fun _ : Uuid => UInt64

namespace UiState

def new (username : String) (userId : Uuid) (room : String) : UiState where
  username := username
  userId := userId
  room := room
  input := ""
  messages := []
  scroll := 0
  lastInnerH := 0
  nextCounter := 1
  seenCounters := ∅

-- `entry(sender).or_insert(0)`: a sender without an entry gets one, accepted or not
def tryAcceptCounter (s : UiState) (sender : Uuid) (counter : UInt64) : Bool × UiState :=
  let entry := (s.seenCounters.lookup sender).getD 0
  if counter > entry then
    (true, { s with seenCounters := s.seenCounters.insert sender counter })
  else
    (false, { s with seenCounters := s.seenCounters.insert sender entry })

def clampScroll (s : UiState) : UiState :=
  let maxScroll := s.messages.length - max s.lastInnerH 1
  if s.scroll > maxScroll then { s with scroll := maxScroll } else s

def push (s : UiState) (msg : DisplayMsg) : UiState :=
  let wasCapped := s.messages.length = HISTORY_CAP
  let s := { s with messages := Ring.push HISTORY_CAP s.messages msg }
  let s := if s.scroll > 0 ∧ ¬ wasCapped then { s with scroll := s.scroll + 1 } else s
  s.clampScroll

def pushSystem (s : UiState) (clock : Clock) (text : String) : UiState :=
  s.push { tsMs := clock.nowMs, kind := .system text, ephemeral := none }

def clearMessages (s : UiState) : UiState := { s with messages := [], scroll := 0 }

end UiState

def decryptToDisplay (aead : Aead) (roomKey : Key) (clock : Clock) (m : RoomMessage) :
    DisplayMsg :=
  let ephemeral : Option EphemeralState :=
    if m.ad.ephemeral then some { receivedAt := clock.now, revealedUntil := none } else none
  match roomOpen aead roomKey m.ciphertext m.ad with
  | .ok pt =>
    { tsMs := m.ad.timestampMs
      kind := .message m.username (fromUtf8Lossy pt)
      ephemeral := ephemeral }
  | .error _ =>
    { tsMs := m.ad.timestampMs
      kind := .system ("[decryption failed] " ++ m.username)
      ephemeral := none }

/-- `room::open` succeeds on a message, so that it is displayed as a decrypted one. -/
def opens (aead : Aead) (roomKey : Key) (m : RoomMessage) : Bool :=
  (roomOpen aead roomKey m.ciphertext m.ad).isOk

/-! ## What the operations leave alone

`push` and `clearMessages` touch the display only, `tryAcceptCounter` the seen counters only.
-/

namespace UiState

/-- The highest counter accepted from a sender, `0` for a sender never seen. -/
def level (s : UiState) (sender : Uuid) : Nat := ((s.seenCounters.lookup sender).getD 0).toNat

@[simp] theorem clampScroll_messages (s : UiState) : s.clampScroll.messages = s.messages := by
  simp only [clampScroll]
  split <;> rfl

@[simp] theorem clampScroll_seenCounters (s : UiState) :
    s.clampScroll.seenCounters = s.seenCounters := by
  simp only [clampScroll]
  split <;> rfl

/-- A push is one into a ring. -/
@[simp] theorem push_messages (s : UiState) (msg : DisplayMsg) :
    (s.push msg).messages = Ring.push HISTORY_CAP s.messages msg := by
  simp only [push, clampScroll_messages]
  split <;> rfl

@[simp] theorem push_seenCounters (s : UiState) (msg : DisplayMsg) :
    (s.push msg).seenCounters = s.seenCounters := by
  simp only [push, clampScroll_seenCounters]
  split <;> rfl

@[simp] theorem push_level (s : UiState) (msg : DisplayMsg) : (s.push msg).level = s.level := by
  funext sender
  simp only [level, push_seenCounters]

@[simp] theorem pushSystem_level (s : UiState) (clock : Clock) (text : String) :
    (s.pushSystem clock text).level = s.level := push_level s _

@[simp] theorem clearMessages_level (s : UiState) : s.clearMessages.level = s.level := rfl

@[simp] theorem tryAcceptCounter_messages (s : UiState) (sender : Uuid) (counter : UInt64) :
    (s.tryAcceptCounter sender counter).2.messages = s.messages := by
  simp only [tryAcceptCounter]
  split <;> rfl

/-! ## The replay filter as a high-water mark -/

/-- A client has seen no counter at first. -/
theorem new_level (username : String) (userId : Uuid) (room : String) :
    (new username userId room).level = fun _ => 0 := by
  funext sender
  rw [level, show (new username userId room).seenCounters = ∅ from rfl, AList.lookup_empty]
  rfl

/-- A counter is accepted if it is above the level of its sender. -/
theorem tryAcceptCounter_fst (s : UiState) (sender : Uuid) (counter : UInt64) :
    (s.tryAcceptCounter sender counter).1 = decide (s.level sender < counter.toNat) := by
  have hlt : counter > (s.seenCounters.lookup sender).getD 0 ↔ s.level sender < counter.toNat :=
    UInt64.lt_iff_toNat_lt
  simp only [tryAcceptCounter]
  split
  · rename_i h
    exact (decide_eq_true (hlt.mp h)).symm
  · rename_i h
    exact (decide_eq_false (fun h' => h (hlt.mpr h'))).symm

/-- A stored entry is the level of its sender, every other level is as before. -/
theorem level_insert (s : UiState) (sender : Uuid) (counter : UInt64) :
    ({ s with seenCounters := s.seenCounters.insert sender counter } : UiState).level
      = Function.update s.level sender counter.toNat := by
  funext k
  rw [level, lookup_insert_eq_update]
  exact Function.apply_update (fun _ (entry : Option UInt64) => (entry.getD 0).toNat) ..

/-- Accepted or not, the level of the sender rises to at least the counter. -/
theorem tryAcceptCounter_level (s : UiState) (sender : Uuid) (counter : UInt64) :
    (s.tryAcceptCounter sender counter).2.level
      = HighWater.raise s.level sender counter.toNat := by
  have hentry : ((s.seenCounters.lookup sender).getD 0).toNat = s.level sender := rfl
  simp only [tryAcceptCounter]
  split
  · rename_i h
    have hlt : s.level sender < counter.toNat := UInt64.lt_iff_toNat_lt.mp h
    rw [level_insert, HighWater.raise, max_eq_right (by omega)]
  · rename_i h
    have hle : counter.toNat ≤ s.level sender := by
      rw [← hentry]
      exact Nat.le_of_not_lt fun hlt => h (UInt64.lt_iff_toNat_lt.mpr hlt)
    rw [level_insert, HighWater.raise, hentry, max_eq_left hle]

end UiState

end ChatRs

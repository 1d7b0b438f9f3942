import ChatRs.Client.Session

/-!
# What the replay filter is worth

Two questions about the messages a session displays as decrypted. Whether any of them is shown
twice, or out of order for its sender: live messages cannot be, since they are high-water
filtered against the history as well, but the history itself is displayed unfiltered, so the
answer is the answer for the history. And whether a message that does not decrypt can silence
its claimed sender: it can whenever its counter is above the highest one accepted, because the
filter runs before the decryption and records the counter for good.
-/

namespace ChatRs

/-- The messages of a log that are displayed as decrypted, in display order. -/
def decrypted (aead : Aead) (roomKey : Key) (log : List Shown) : List Received :=
  (received log).filter fun x => opens aead roomKey x.2

section

variable (aead : Aead) (roomKey : Key)

/-- What the loop decrypts is what opens among the frames with new counters. -/
theorem decrypted_loopLog (s : UiState) (frames : List (Clock × ServerFrame)) :
    decrypted aead roomKey (loopLog aead roomKey s frames)
      = (accepted s.level frames).filter fun x => opens aead roomKey x.2 := by
  rw [decrypted, received_loopLog]

/-- What a session decrypts: all of the history that opens, and then the new frames above it. -/
theorem decrypted_sessionLog (username : String) (userId : Uuid) (room : String)
    (history : List Received) (frames : List (Clock × ServerFrame)) :
    decrypted aead roomKey (sessionLog aead roomKey username userId room history frames)
      = (history.filter fun x => opens aead roomKey x.2)
        ++ (accepted (seeded history) frames).filter fun x => opens aead roomKey x.2 := by
  rw [decrypted, received_sessionLog, List.filter_append]

/-- **Replay rejection.** A session shows no message twice and none out of order exactly if
the history it was welcomed with holds none twice and none out of order. -/
theorem session_replayFree_iff (username : String) (userId : Uuid) (room : String)
    (history : List Received) (frames : List (Clock × ServerFrame)) :
    HighWater.ReplayFree Received.sender Received.counter (decrypted aead roomKey
        (sessionLog aead roomKey username userId room history frames))
      ↔ HighWater.Increasing Received.sender Received.counter
          (history.filter fun x => opens aead roomKey x.2) := by
  rw [HighWater.replayFree_iff, decrypted_sessionLog]
  constructor
  · intro h
    exact (List.pairwise_append.mp h).1
  · intro hhistory
    have hlive : HighWater.Increasing Received.sender Received.counter
        (accepted (seeded history) frames) := HighWater.admitted_increasing _ _
    refine List.pairwise_append.mpr ⟨hhistory, hlive.filter _, fun x hx y hy hk => ?_⟩
    exact HighWater.admitted_above _ (List.mem_of_mem_filter hx) (List.mem_of_mem_filter hy) hk

/-! ## Forged messages

All that a message leaves behind which does not open is the level it raised.
-/

/-- A frame that does not open raises the level of its sender all the same, and the later frames are
measured against that. -/
theorem decrypted_forged (s : UiState) (clock : Clock) {f : RoomMessage}
    (hf : opens aead roomKey f = false) (frames : List (Clock × ServerFrame)) :
    decrypted aead roomKey (loopLog aead roomKey s ((clock, .message f) :: frames))
      = (accepted (HighWater.raise s.level f.ad.fromId f.ad.counter.toNat) frames).filter
          fun x => opens aead roomKey x.2 := by
  have hskip (xs : List Received) : ((clock, f) :: xs).filter (fun x => opens aead roomKey x.2)
      = xs.filter fun x => opens aead roomKey x.2 := by
    rw [List.filter_cons_of_neg (by simp [hf])]
  rw [decrypted_loopLog, accepted, liveMessages, HighWater.admitted]
  show (if s.level f.ad.fromId < f.ad.counter.toNat then _ else _ : List Received).filter _ = _
  split
  · rw [hskip]
    rfl
  · rfl

/-- A genuine message with the counter of a forged one is displayed before it, not after. -/
theorem forged_silences {s : UiState} {f m : RoomMessage} (hf : opens aead roomKey f = false)
    (hlt : s.level f.ad.fromId < f.ad.counter.toNat) (hfrom : m.ad.fromId = f.ad.fromId)
    (hcounter : m.ad.counter = f.ad.counter) (hm : opens aead roomKey m = true)
    (clock : Clock) :
    decrypted aead roomKey (loopLog aead roomKey s [(clock, .message f), (clock, .message m)]) = []
      ∧ decrypted aead roomKey (loopLog aead roomKey s [(clock, .message m)]) = [(clock, m)] := by
  have hsingle (level : Uuid → Nat) : accepted level [(clock, .message m)]
      = if level m.ad.fromId < m.ad.counter.toNat then [(clock, m)] else [] := rfl
  constructor
  · rw [decrypted_forged aead roomKey s clock hf, hsingle, hfrom, hcounter,
      HighWater.raise_self, if_neg (by omega)]
    rfl
  · rw [decrypted_loopLog, hsingle, hfrom, hcounter, if_pos hlt]
    exact List.filter_eq_self.mpr (by simpa using hm)

end

/-- **When a forged message is harmless.** With a message that does not open the session goes
on to display the same messages as without it, whatever frames follow, exactly if its counter
is not above the highest one accepted from its claimed sender. -/
theorem forged_harmless_iff {aead : Aead} (hcorrect : aead.Correct) (roomKey : Key)
    (s : UiState) (clock : Clock) {f : RoomMessage} (hf : opens aead roomKey f = false) :
    (∀ frames,
        decrypted aead roomKey (loopLog aead roomKey s ((clock, .message f) :: frames))
          = decrypted aead roomKey (loopLog aead roomKey s frames))
      ↔ f.ad.counter.toNat ≤ s.level f.ad.fromId := by
  constructor
  · intro hsame
    by_contra hlt
    -- the sender's own next message could carry just this counter
    let ad : MessageAd := { f.ad with username := "" }
    have hname : strLen ad.username ≤ MAX_USERNAME_LEN := by
      show strLen "" ≤ MAX_USERNAME_LEN
      decide
    obtain ⟨ct, pt, hopen⟩ := hcorrect.exists_open roomKey hname
    let m : RoomMessage := ⟨f.ad.fromId, "", ad, ct⟩
    have hm : opens aead roomKey m = true := by
      rw [opens, hopen]
      rfl
    obtain ⟨hwith, hwithout⟩ :=
      forged_silences aead roomKey (m := m) hf (Nat.lt_of_not_le hlt) rfl rfl hm clock
    have heq := hsame [(clock, .message m)]
    rw [hwith, hwithout] at heq
    cases heq
  · intro hle frames
    rw [decrypted_forged aead roomKey s clock hf, decrypted_loopLog, HighWater.raise,
      max_eq_left hle, Function.update_eq_self]

/-! ## A repeated and a forged message -/

namespace Replayed

def alice : Uuid := List.Vector.replicate 16 1

def bob : Uuid := List.Vector.replicate 16 2

def roomKey : Key := List.Vector.replicate 32 7

def clock : Clock := ⟨0, 0⟩

/-- A message of Alice's: a nonce of zeros, no text, and `tail`. -/
def fromAlice (counter : UInt64) (tail : List UInt8) : RoomMessage where
  fromId := alice
  username := "alice"
  ad := { fromId := alice, username := "alice", counter := counter, timestampMs := 0,
          ephemeral := false }
  ciphertext := List.replicate 24 0 ++ tail

theorem opens_untagged (counter : UInt64) :
    opens Aead.tagging roomKey (fromAlice counter []) = false := rfl

/-- Bob's client after a message of Alice's with counter 5. -/
def client : UiState := ((UiState.new "bob" bob "main").tryAcceptCounter alice 5).2

end Replayed

open Replayed in
/-- A history that holds one message twice displays it twice. -/
theorem repeated_history_displayed :
    ¬ ∀ (aead : Aead) (roomKey : Key) (username : String) (userId : Uuid) (room : String)
        (history : List Received) (frames : List (Clock × ServerFrame)), aead.Correct →
        HighWater.ReplayFree Received.sender Received.counter (decrypted aead roomKey
          (sessionLog aead roomKey username userId room history frames)) := by
  intro h
  let x : Received := (clock, fromAlice 1 Aead.tag)
  have hfree := (h Aead.tagging roomKey "bob" bob "main" [x, x] [] Aead.tagging_correct).2
  have hlog : decrypted Aead.tagging roomKey
      (sessionLog Aead.tagging roomKey "bob" bob "main" [x, x] []) = [x, x] := rfl
  rw [hlog] at hfree
  exact lt_irrefl _ ((List.pairwise_cons.mp hfree).1 x (List.mem_singleton_self x) rfl)

open Replayed in
/-- Below the level of its claimed sender a forged message changes nothing. -/
theorem forged_harmless_below :
    opens Aead.tagging roomKey (fromAlice 5 []) = false
      ∧ ∀ frames,
          decrypted Aead.tagging roomKey (loopLog Aead.tagging roomKey client
              ((clock, .message (fromAlice 5 [])) :: frames))
            = decrypted Aead.tagging roomKey (loopLog Aead.tagging roomKey client frames) := by
  have hforged := opens_untagged 5
  refine ⟨hforged, ?_⟩
  rw [forged_harmless_iff Aead.tagging_correct roomKey client clock hforged]
  decide

open Replayed in
/-- With the largest counter it silences Alice: her next message is dropped as a replay. -/
theorem forged_silences_alice :
    ¬ ∀ (aead : Aead) (roomKey : Key) (s : UiState) (clock : Clock) (f : RoomMessage),
        aead.Correct → opens aead roomKey f = false →
        ∀ frames,
          decrypted aead roomKey (loopLog aead roomKey s ((clock, .message f) :: frames))
            = decrypted aead roomKey (loopLog aead roomKey s frames) := by
  intro h
  have hsame := h Aead.tagging roomKey client clock (fromAlice 0xFFFFFFFFFFFFFFFF [])
    Aead.tagging_correct (opens_untagged _) [(clock, .message (fromAlice 6 Aead.tag))]
  have hwithout : decrypted Aead.tagging roomKey (loopLog Aead.tagging roomKey client
      [(clock, .message (fromAlice 6 Aead.tag))]) = [(clock, fromAlice 6 Aead.tag)] := rfl
  have hwith : decrypted Aead.tagging roomKey (loopLog Aead.tagging roomKey client
      [(clock, .message (fromAlice 0xFFFFFFFFFFFFFFFF [])),
       (clock, .message (fromAlice 6 Aead.tag))]) = [] := rfl
  rw [hwith, hwithout] at hsame
  cases hsame

end ChatRs

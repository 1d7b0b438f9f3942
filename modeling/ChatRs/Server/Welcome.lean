import ChatRs.Crypto.Noise
import ChatRs.Server.Authenticity
import ChatRs.Wire

/-!
# The Welcome always fits

A joiner gets the whole history in one frame, so the bounds on what enters the history have to
add up: at most `HISTORY_LEN` messages, each with two copies of a name of at most
`MAX_USERNAME_LEN` bytes and a ciphertext of at most `MAX_CIPHERTEXT_LEN`. In the worst case
the frame takes `1 + 17 + 1 + 15 * 4219 + 16 = 63320` bytes.
-/

namespace ChatRs

open Machine (Config Guard)

/-- The sealed frame is within the limits of the Noise transport and of the codec. -/
def FitsTransport (f : ServerFrame) : Prop :=
  transportSealLen (encodeServerFrame f) ≤ NOISE_BUF
    ∧ transportSealLen (encodeServerFrame f) ≤ MAX_FRAME_LEN

/-- A message that was relayed is within the limits of its parts. -/
theorem Relayed.size_le {past : List Event} {m : RoomMessage} (h : Relayed past m) :
    (encodeRoomMessage m).length ≤ 4219 := by
  have houter : strLen m.username ≤ MAX_USERNAME_LEN := h.valid.short
  have hinner : strLen m.ad.username ≤ MAX_USERNAME_LEN := h.username ▸ houter
  exact length_encodeRoomMessage_le houter hinner h.size

/-- The Welcome of a history that is no longer than the ring and holds relayed messages
only. -/
theorem welcome_fits_of {past : List Event} {history : List RoomMessage}
    (hlen : history.length ≤ HISTORY_LEN) (hrelayed : ∀ m ∈ history, Relayed past m)
    (userId : Uuid) : FitsTransport (.welcome userId history) := by
  have hmax : 63320 ≤ NOISE_BUF ∧ 63320 ≤ MAX_FRAME_LEN := by decide
  have hseq : (Postcard.seq encodeRoomMessage history).length ≤ 1 + 15 * 4219 :=
    Postcard.length_seq_le (by omega) (by decide) hlen fun m hm => (hrelayed m hm).size_le
  have huuid := length_encodeUuid userId
  have hle : transportSealLen (encodeServerFrame (.welcome userId history)) ≤ 63320 := by
    rw [transportSealLen, AEAD_TAG_LEN, encodeServerFrame, Postcard.length_variant (by omega),
      List.length_append]
    omega
  exact ⟨hle.trans hmax.1, hle.trans hmax.2⟩

section

variable {G : Guard World Label Event} {c : Config World Event}

/-- The history has at most `HISTORY_LEN` entries. -/
theorem window_length_le (ops : List (Option RoomMessage)) :
    ((Ring.sinceWipe ops).rtake HISTORY_LEN).length ≤ HISTORY_LEN := by
  rw [List.rtake, List.length_drop]
  omega

/-- The Welcome with a snapshot that was taken. -/
theorem snapshotted_fits (h : room.Reach G c) {id : Uuid} {history : List RoomMessage}
    (hmem : .snapshotted id history ∈ c.past) : FitsTransport (.welcome id history) := by
  obtain ⟨before, _, hwindow⟩ := snapshot_window h id history hmem
  have hlen : history.length ≤ HISTORY_LEN := hwindow ▸ window_length_le _
  exact welcome_fits_of hlen (welcome_authentic h id history hmem).relayed id

/-- **The Welcome always fits.** Whatever the room has been through, a Welcome with its history,
and every Welcome that is about to be sent, is within the limits of the transport. -/
theorem welcome_fits (h : room.Reach Machine.free c) :
    (∀ userId, FitsTransport (.welcome userId c.state.messages.snapshot))
      ∧ ∀ id username history, c.state.tasks id = some (.live username (.welcoming history)) →
          FitsTransport (.welcome id history) := by
  constructor
  · intro userId
    have hlen : c.state.messages.history.length ≤ HISTORY_LEN :=
      history_window h ▸ window_length_le _
    exact welcome_fits_of hlen (history_authentic h).relayed userId
  · intro id username history hat
    have hsnapshot : .snapshotted id history ∈ c.past := (standing h id _ hat).2
    obtain ⟨before, _, hwindow⟩ := snapshot_window h id history hsnapshot
    have hlen : history.length ≤ HISTORY_LEN := hwindow ▸ window_length_le _
    exact welcome_fits_of hlen (welcome_authentic h id history hsnapshot).relayed id

end

open Cast in
/-- A room with one message. -/
theorem welcome_fits_one :
    ∃ c, room.Reach Machine.free c
      ∧ c.state.messages.history = [relayed alice "alice" 1 false]
      ∧ FitsTransport (.welcome bob c.state.messages.snapshot) := by
  obtain ⟨c, hc, hhistory⟩ := Machine.exec_reach_free (M := room)
    (fun c => c.state.messages.history) [relayed alice "alice" 1 false]
    (arrives alice "alice" ++ isWelcomed alice ++ sends alice (note alice "alice" 1 false)
      ++ [.act alice .store]) (by decide)
  exact ⟨c, hc, hhistory, (welcome_fits hc).1 bob⟩

end ChatRs

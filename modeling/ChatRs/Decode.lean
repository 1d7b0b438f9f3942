import ChatRs.Lib.Decoder
import ChatRs.Server.Service
import ChatRs.Wire

/-!
# Frames off the wire (`recv_postcard`, the serde derives of `proto.rs`)

`postcard::from_bytes` for the frame types: what `Wire` writes is read back, whatever is appended
to it (**`wire_roundtrip`**). Every type has its decoder and one lemma that it reads what is
written; the lengths of a frame are lengths of Rust values (`Fits`).
-/

namespace ChatRs

open Postcard

/-! ## The decoders -/

/-- `core::str::from_utf8`. -/
def fromUtf8 (bs : List UInt8) : Option String := String.fromUTF8? ⟨bs.toArray⟩

/-- `Uuid::from_slice`. -/
def uuidFromSlice (bs : List UInt8) : Option Uuid :=
  if h : bs.length = 16 then some ⟨bs, h⟩ else none

/-- A value that the decoder may refuse. -/
def orFail {α : Type} : Option α → Decoder α
  | some a => return a
  | none => failure

def decodeString : Decoder String := do
  let bs ← decodeBytes
  orFail (fromUtf8 bs)

def decodeUuid : Decoder Uuid := do
  let bs ← decodeBytes
  orFail (uuidFromSlice bs)

def decodeU64 : Decoder UInt64 := do
  let n ← decodeVarint 64
  return UInt64.ofNat n

def decodeU16 : Decoder UInt16 := do
  let n ← decodeVarint 16
  return UInt16.ofNat n

-- `[u8; n]` is a tuple: its bytes, without a length
def decodeByteArr : (n : Nat) → Decoder (ByteArr n)
  | 0 => return .nil
  | n + 1 => do
    let b ← pop
    let bs ← decodeByteArr n
    return .cons b bs

def decodeMessageAd : Decoder MessageAd := do
  let fromId ← decodeUuid
  let username ← decodeString
  let counter ← decodeU64
  let timestampMs ← decodeU64
  let ephemeral ← decodeBool
  return { fromId, username, counter, timestampMs, ephemeral }

def decodeRoomMessage : Decoder RoomMessage := do
  let fromId ← decodeUuid
  let username ← decodeString
  let ad ← decodeMessageAd
  let ciphertext ← decodeBytes
  return { fromId, username, ad, ciphertext }

def ErrorKind.ofIndex : Nat → Option ErrorKind
  | 0 => some .authFailed
  | 1 => some .badFrame
  | 2 => some .rateLimited
  | 3 => some .unsupportedVersion
  | 4 => some .internal
  | _ => none

def decodeErrorKind : Decoder ErrorKind := do
  let index ← decodeVarint 32
  orFail (ErrorKind.ofIndex index)

def decodeClientFields : Nat → Decoder ClientFrame
  | 0 => do
    let room ← decodeString
    return .roomSelect room
  | 1 => do
    let username ← decodeString
    return .hello username
  | 2 => do
    let ad ← decodeMessageAd
    let ciphertext ← decodeBytes
    return .message ad ciphertext
  | 3 => return .clear
  | _ => failure

def decodeServerFields : Nat → Decoder ServerFrame
  | 0 => do
    let roomSalt ← decodeByteArr 32
    let serverVersion ← decodeU16
    return .hello roomSalt serverVersion
  | 1 => do
    let userId ← decodeUuid
    let history ← decodeSeq decodeRoomMessage
    return .welcome userId history
  | 2 => do
    let m ← decodeRoomMessage
    return .message m
  | 3 => do
    let by_ ← decodeUuid
    let username ← decodeString
    return .cleared by_ username
  | 4 => do
    let reason ← decodeErrorKind
    return .error reason
  | _ => failure

/-- The index of an enum is a varint of 32 bits. -/
def decodeClientFrame : Decoder ClientFrame := do
  let index ← decodeVarint 32
  decodeClientFields index

def decodeServerFrame : Decoder ServerFrame := do
  let index ← decodeVarint 32
  decodeServerFields index

/-! ## The lengths of Rust values -/

/-- A number that a `usize` can hold. -/
def IsUsize (n : Nat) : Prop := n < 2 ^ 64

def MessageAd.Fits (ad : MessageAd) : Prop := IsUsize (strLen ad.username)

structure RoomMessage.Fits (m : RoomMessage) : Prop where
  username : IsUsize (strLen m.username)
  ad : m.ad.Fits
  ciphertext : IsUsize m.ciphertext.length

def ClientFrame.Fits : ClientFrame → Prop
  | .roomSelect room => IsUsize (strLen room)
  | .hello username => IsUsize (strLen username)
  | .message ad ciphertext => ad.Fits ∧ IsUsize ciphertext.length
  | .clear => True

def ServerFrame.Fits : ServerFrame → Prop
  | .hello _ _ => True
  | .welcome _ history => IsUsize history.length ∧ ∀ m ∈ history, m.Fits
  | .message m => m.Fits
  | .cleared _ username => IsUsize (strLen username)
  | .error _ => True

/-! Inside a frame no length is above that of the whole. -/

section

theorem IsUsize.of_le {m n : Nat} (h : IsUsize n) (hle : m ≤ n) : IsUsize m :=
  lt_of_le_of_lt hle h

theorem strLen_le_encodeString (s : String) : strLen s ≤ (encodeString s).length :=
  length_le_bytes (strBytes s)

/-- A header whose encoding is in memory has no part that is longer than memory. -/
theorem MessageAd.fits_of_length {ad : MessageAd} (h : IsUsize (encodeMessageAd ad).length) :
    ad.Fits := by
  apply h.of_le
  have hname := strLen_le_encodeString ad.username
  simp only [encodeMessageAd, List.length_append]
  omega

/-- If the length of an encoded message fits into a `usize`, so do those of its fields. -/
theorem RoomMessage.fits_of_length {m : RoomMessage} (h : IsUsize (encodeRoomMessage m).length) :
    m.Fits := by
  have hname := strLen_le_encodeString m.username
  have hct := length_le_bytes m.ciphertext
  simp only [encodeRoomMessage, List.length_append] at h
  constructor
  · exact h.of_le (by omega)
  · exact MessageAd.fits_of_length (h.of_le (by omega))
  · exact h.of_le (by omega)

/-- Every message takes at least a byte, so a sequence of them is not longer than its encoding. -/
theorem one_le_length_encodeRoomMessage (m : RoomMessage) : 1 ≤ (encodeRoomMessage m).length := by
  have huuid := length_encodeUuid m.fromId
  simp only [encodeRoomMessage, List.length_append]
  omega

/-- Whatever frame of a client was encoded in memory can be decoded. -/
theorem ClientFrame.fits_of_length {f : ClientFrame}
    (h : IsUsize (encodeClientFrame f).length) : f.Fits := by
  cases f with
  | roomSelect room =>
    exact h.of_le ((strLen_le_encodeString room).trans (length_le_variant ..))
  | hello username =>
    exact h.of_le ((strLen_le_encodeString username).trans (length_le_variant ..))
  | message ad ciphertext =>
    have hfields := h.of_le (length_le_variant ..)
    have hct := length_le_bytes ciphertext
    rw [List.length_append] at hfields
    constructor
    · exact MessageAd.fits_of_length (hfields.of_le (by omega))
    · exact hfields.of_le (by omega)
  | clear => trivial

/-- Whatever frame of the server was encoded in memory can be decoded, a Welcome with its whole
history among them. -/
theorem ServerFrame.fits_of_length {f : ServerFrame}
    (h : IsUsize (encodeServerFrame f).length) : f.Fits := by
  cases f with
  | hello | error => trivial
  | welcome userId history =>
    have hfields := h.of_le (length_le_variant ..)
    rw [List.length_append] at hfields
    constructor
    · have hlen := length_le_seq fun m (_ : m ∈ history) => one_le_length_encodeRoomMessage m
      exact hfields.of_le (by omega)
    · intro m hm
      have hle : (encodeRoomMessage m).length ≤ (seq encodeRoomMessage history).length :=
        length_mem_le_seq hm
      exact RoomMessage.fits_of_length (hfields.of_le (by omega))
  | message m => exact RoomMessage.fits_of_length (h.of_le (length_le_variant ..))
  | cleared by_ username =>
    have hfields := h.of_le (length_le_variant ..)
    have hname := strLen_le_encodeString username
    rw [List.length_append] at hfields
    exact hfields.of_le (by omega)

/-- What `snow` seals fits into the memory. -/
theorem isUsize_of_sealed {plaintext : List UInt8} (h : transportSealLen plaintext ≤ NOISE_BUF) :
    IsUsize plaintext.length := by
  unfold transportSealLen at h
  have hmax : NOISE_BUF < 2 ^ 64 := by decide
  show plaintext.length < 2 ^ 64
  omega

end

/-! ## What is written is read -/

section

/-- The bytes of a text are read as that text. -/
theorem fromUtf8_strBytes (s : String) : fromUtf8 (strBytes s) = some s := by
  have hbytes : (⟨(strBytes s).toArray⟩ : ByteArray) = s.toByteArray := by
    rw [strBytes, Array.toArray_toList, String.toUTF8_eq_toByteArray]
  rw [fromUtf8, hbytes, String.fromUTF8?, dif_pos s.isValidUTF8]
  rfl

/-- A text comes back from its length and its bytes. -/
theorem decodes_string {s : String} (h : IsUsize (strLen s)) :
    Decodes decodeString (encodeString s) s := by
  apply (decodes_bytes h).last
  rw [fromUtf8_strBytes]
  exact .pure s

/-- An id comes back from its sixteen bytes and the length before them. -/
theorem decodes_uuid (u : Uuid) : Decodes decodeUuid (encodeUuid u) u := by
  have hlen : u.toList.length = 16 := u.2
  have hslice : uuidFromSlice u.toList = some u := dif_pos hlen
  have husize : u.toList.length < 2 ^ 64 := by omega
  apply (decodes_bytes husize).last
  rw [hslice]
  exact .pure u

/-- The counters and the times come back from their varints. -/
theorem decodes_u64 (v : UInt64) : Decodes decodeU64 (encodeU64 v) v := by
  have hnat : Decodes (decodeVarint 64) (varint v.toNat) v.toNat :=
    decodes_varint (by decide) v.toNat_lt
  have hread := hnat.map (f := UInt64.ofNat)
  rwa [UInt64.ofNat_toNat] at hread

theorem decodes_u16 (v : UInt16) : Decodes decodeU16 (encodeU16 v) v := by
  have hnat : Decodes (decodeVarint 16) (varint v.toNat) v.toNat :=
    decodes_varint (by decide) v.toNat_lt
  have hread := hnat.map (f := UInt16.ofNat)
  rwa [UInt16.ofNat_toNat] at hread

/-- A salt comes back from its bytes, which have no length before them. -/
theorem decodes_byteArr {n : Nat} (v : ByteArr n) : Decodes (decodeByteArr n) v.toList v := by
  induction n with
  | zero =>
    rw [v.eq_nil]
    exact .pure _
  | succ n ih =>
    rw [← v.cons_head_tail, List.Vector.toList_cons]
    exact (decodes_pop v.head).bind (ih v.tail).map

/-- A header comes back field by field, in the order of the source's struct. -/
theorem decodes_messageAd {ad : MessageAd} (h : ad.Fits) :
    Decodes decodeMessageAd (encodeMessageAd ad) ad := by
  simp only [encodeMessageAd, List.append_assoc]
  refine (decodes_uuid ad.fromId).bind ?_
  refine (decodes_string h).bind ?_
  refine (decodes_u64 ad.counter).bind ?_
  refine (decodes_u64 ad.timestampMs).bind ?_
  exact (decodes_bool ad.ephemeral).map

/-- A message comes back with its header. -/
theorem decodes_roomMessage {m : RoomMessage} (h : m.Fits) :
    Decodes decodeRoomMessage (encodeRoomMessage m) m := by
  simp only [encodeRoomMessage, List.append_assoc]
  refine (decodes_uuid m.fromId).bind ?_
  refine (decodes_string h.username).bind ?_
  refine (decodes_messageAd h.ad).bind ?_
  exact (decodes_bytes h.ciphertext).map

/-- The reason of an Error comes back from its index. -/
theorem decodes_errorKind (reason : ErrorKind) :
    Decodes decodeErrorKind (varint reason.index) reason := by
  have hindex : reason.index < 2 ^ 32 := by cases reason <;> decide
  have hof : ErrorKind.ofIndex reason.index = some reason := by cases reason <;> rfl
  apply (decodes_varint (by decide) hindex).last
  rw [hof]
  exact .pure reason

/-- **A client's frame comes back**, one case for each variant. -/
theorem decodes_clientFrame {f : ClientFrame} (h : f.Fits) :
    Decodes decodeClientFrame (encodeClientFrame f) f := by
  cases f with
  | roomSelect room => exact decodes_variant (by decide) (decodes_string h).map
  | hello username => exact decodes_variant (by decide) (decodes_string h).map
  | message ad ciphertext =>
    exact decodes_variant (by decide) ((decodes_messageAd h.1).bind (decodes_bytes h.2).map)
  | clear => exact decodes_variant (by decide) (.pure _)

/-- **A server's frame comes back**, one case for each variant. -/
theorem decodes_serverFrame {f : ServerFrame} (h : f.Fits) :
    Decodes decodeServerFrame (encodeServerFrame f) f := by
  cases f with
  | hello roomSalt serverVersion =>
    have hversion := (decodes_u16 serverVersion).map (f := ServerFrame.hello roomSalt)
    exact decodes_variant (by decide) ((decodes_byteArr roomSalt).bind hversion)
  | welcome userId history =>
    have hhistory := decodes_seq h.1 fun m hm => decodes_roomMessage (h.2 m hm)
    exact decodes_variant (by decide) ((decodes_uuid userId).bind hhistory.map)
  | message m => exact decodes_variant (by decide) (decodes_roomMessage h).map
  | cleared by_ username =>
    exact decodes_variant (by decide) ((decodes_uuid by_).bind (decodes_string h).map)
  | error reason => exact decodes_variant (by decide) (decodes_errorKind reason).map

end

/-! ## Round trips -/

/-- The server reads the frame that a client sends. -/
theorem recvPostcard_sent {f : ClientFrame} (h : f.Fits) (timeout : Error) :
    recvPostcard (Postcard.fromBytes decodeClientFrame) timeout (some (.ok (encodeClientFrame f)))
      = .ok f := by
  have hread := (decodes_clientFrame h).fromBytes []
  rw [List.append_nil] at hread
  simp only [recvPostcard, ChatRs.fromBytes, hread]

/-- **The wire round trip.** Every frame of either side is read back from its bytes, whatever is
appended to them, and no frame's bytes are those of another frame or start them. -/
theorem wire_roundtrip :
    (∀ (f : ClientFrame) (rest : List UInt8), f.Fits →
      Postcard.fromBytes decodeClientFrame (encodeClientFrame f ++ rest) = some f)
    ∧ (∀ (f : ServerFrame) (rest : List UInt8), f.Fits →
      Postcard.fromBytes decodeServerFrame (encodeServerFrame f ++ rest) = some f)
    ∧ (∀ f g : ClientFrame, encodeClientFrame f <+: encodeClientFrame g → f = g)
    ∧ ∀ f g : ServerFrame, encodeServerFrame f <+: encodeServerFrame g → f = g := by
  refine ⟨?_, ?_, ?_, ?_⟩
  · intro f rest h
    exact (decodes_clientFrame h).fromBytes rest
  · intro f rest h
    exact (decodes_serverFrame h).fromBytes rest
  · intro f g hstart
    exact encodeClientFrame_prefixFree.eq_of_isPrefix hstart
  · intro f g hstart
    exact encodeServerFrame_prefixFree.eq_of_isPrefix hstart

/-- A Hello with a byte after it, and a Welcome with a history of one message. -/
theorem wire_roundtrip_welcome :
    let id : Uuid := List.Vector.replicate 16 7
    let m : RoomMessage := {
      fromId := id
      username := "alice"
      ad := { fromId := id, username := "alice", counter := 300, timestampMs := 0,
              ephemeral := true }
      ciphertext := [1, 2, 3] }
    Postcard.fromBytes decodeClientFrame (encodeClientFrame (.hello "alice") ++ [0xff])
        = some (.hello "alice")
      ∧ Postcard.fromBytes decodeServerFrame (encodeServerFrame (.welcome id [m]) ++ [])
        = some (.welcome id [m]) := by
  intro id m
  have hname : IsUsize (strLen "alice") := by
    show strLen "alice" < 2 ^ 64
    decide
  have hct : IsUsize m.ciphertext.length := by
    show 3 < 2 ^ 64
    decide
  have hlen : IsUsize [m].length := by
    show 1 < 2 ^ 64
    decide
  have hm : m.Fits := { username := hname, ad := hname, ciphertext := hct }
  constructor
  · exact wire_roundtrip.1 (.hello "alice") [0xff] hname
  · exact wire_roundtrip.2.1 (.welcome id [m]) [] ⟨hlen, List.forall_mem_singleton.mpr hm⟩

end ChatRs

import ChatRs.Proto
import ChatRs.Lib.Postcard

/-!
# Frames on the wire (`wire.rs`, the serde derives of `proto.rs`)

`postcard::to_stdvec` for the frame types: fields in declaration order, enum variants by
index, a `Uuid` as a length-prefixed 16-byte string, `[u8; 32]` without a length. Used in two
ways: the encoding of a `MessageAd` is the additional data of the room AEAD, so it must
determine the record (`encodeMessageAd_injective`), and the sizes of frames decide what fits
the transport (`length_encodeRoomMessage_le`). The frames too are determined by their bytes
(`encodeClientFrame_prefixFree`, `encodeServerFrame_prefixFree`).
-/

namespace ChatRs

open Postcard

def encodeUuid (u : Uuid) : List UInt8 := bytes u.toList

def encodeString (s : String) : List UInt8 := bytes (strBytes s)

def encodeU64 (v : UInt64) : List UInt8 := varint v.toNat

def encodeU16 (v : UInt16) : List UInt8 := varint v.toNat

def encodeMessageAd (ad : MessageAd) : List UInt8 :=
  encodeUuid ad.fromId ++ encodeString ad.username ++ encodeU64 ad.counter
    ++ encodeU64 ad.timestampMs ++ bool ad.ephemeral

def encodeRoomMessage (m : RoomMessage) : List UInt8 :=
  encodeUuid m.fromId ++ encodeString m.username ++ encodeMessageAd m.ad ++ bytes m.ciphertext

def ErrorKind.index : ErrorKind → Nat
  | .authFailed => 0
  | .badFrame => 1
  | .rateLimited => 2
  | .unsupportedVersion => 3
  | .internal => 4

def encodeClientFrame : ClientFrame → List UInt8
  | .roomSelect room => variant 0 (encodeString room)
  | .hello username => variant 1 (encodeString username)
  | .message ad ciphertext => variant 2 (encodeMessageAd ad ++ bytes ciphertext)
  | .clear => variant 3 []

def encodeServerFrame : ServerFrame → List UInt8
  | .hello roomSalt serverVersion => variant 0 (roomSalt.toList ++ encodeU16 serverVersion)
  | .welcome userId history => variant 1 (encodeUuid userId ++ seq encodeRoomMessage history)
  | .message m => variant 2 (encodeRoomMessage m)
  | .cleared by_ username => variant 3 (encodeUuid by_ ++ encodeString username)
  | .error reason => variant 4 (varint reason.index)

/-! ## The encoding determines the value

Every field is prefix-free, so the concatenation can be cut field by field. -/

theorem encodeUuid_prefixFree : PrefixFree encodeUuid :=
  bytes_prefixFree.comp Subtype.val_injective

theorem encodeString_prefixFree : PrefixFree encodeString :=
  bytes_prefixFree.comp strBytes_injective

theorem encodeU64_prefixFree : PrefixFree encodeU64 := by
  apply varint_prefixFree.comp
  intro v w h
  exact UInt64.toNat_inj.mp h

/-- A header is encoded field by field, each of them prefix-free. -/
theorem encodeMessageAd_prefixFree : PrefixFree encodeMessageAd := by
  intro a b rest rest' h
  simp only [encodeMessageAd, List.append_assoc] at h
  obtain ⟨hfrom, h⟩ := encodeUuid_prefixFree h
  obtain ⟨hname, h⟩ := encodeString_prefixFree h
  obtain ⟨hcounter, h⟩ := encodeU64_prefixFree h
  obtain ⟨hts, h⟩ := encodeU64_prefixFree h
  obtain ⟨heph, hrest⟩ := bool_prefixFree h
  refine ⟨?_, hrest⟩
  cases a
  cases b
  simp_all

theorem encodeMessageAd_injective : Function.Injective encodeMessageAd :=
  encodeMessageAd_prefixFree.injective

/-- The encoding of a message is prefix-free. -/
theorem encodeRoomMessage_prefixFree : PrefixFree encodeRoomMessage := by
  intro a b rest rest' h
  simp only [encodeRoomMessage, List.append_assoc] at h
  obtain ⟨hfrom, h⟩ := encodeUuid_prefixFree h
  obtain ⟨hname, h⟩ := encodeString_prefixFree h
  obtain ⟨had, h⟩ := encodeMessageAd_prefixFree h
  obtain ⟨hct, hrest⟩ := bytes_prefixFree h
  refine ⟨?_, hrest⟩
  cases a
  cases b
  simp_all

theorem ErrorKind.index_injective : Function.Injective ErrorKind.index := by
  intro a b h
  cases a <;> cases b <;> first | rfl | exact absurd h (by decide)

/-- No two client frames share their bytes, whatever follows them. -/
theorem encodeClientFrame_prefixFree : PrefixFree encodeClientFrame := by
  intro a b rest rest' h
  cases a with
  | roomSelect room =>
    cases b with
    | roomSelect room' =>
      obtain ⟨rfl, hrest⟩ := encodeString_prefixFree (variant_cut h).2
      exact ⟨rfl, hrest⟩
    | hello | message | clear => exact absurd (variant_cut h).1 (by decide)
  | hello username =>
    cases b with
    | hello username' =>
      obtain ⟨rfl, hrest⟩ := encodeString_prefixFree (variant_cut h).2
      exact ⟨rfl, hrest⟩
    | roomSelect | message | clear => exact absurd (variant_cut h).1 (by decide)
  | message ad ciphertext =>
    cases b with
    | message ad' ciphertext' =>
      have hfields := (variant_cut h).2
      simp only [List.append_assoc] at hfields
      obtain ⟨rfl, hct⟩ := encodeMessageAd_prefixFree hfields
      obtain ⟨rfl, hrest⟩ := bytes_prefixFree hct
      exact ⟨rfl, hrest⟩
    | roomSelect | hello | clear => exact absurd (variant_cut h).1 (by decide)
  | clear =>
    cases b with
    | clear => exact ⟨rfl, (variant_cut h).2⟩
    | roomSelect | hello | message => exact absurd (variant_cut h).1 (by decide)

/-- No two server frames share their bytes, whatever follows them. -/
theorem encodeServerFrame_prefixFree : PrefixFree encodeServerFrame := by
  intro a b rest rest' h
  cases a with
  | hello salt version =>
    cases b with
    | hello salt' version' =>
      have hfields := (variant_cut h).2
      simp only [List.append_assoc] at hfields
      -- the salt has no length prefix: both are 32 bytes
      have hlen : salt.toList.length = salt'.toList.length := by
        rw [List.Vector.toList_length, List.Vector.toList_length]
      obtain ⟨hsalt, hversion⟩ := List.append_inj hfields hlen
      obtain ⟨hsame, hrest⟩ := varint_prefixFree hversion
      obtain rfl := List.Vector.toList_injective hsalt
      obtain rfl := UInt16.toNat_inj.mp hsame
      exact ⟨rfl, hrest⟩
    | welcome | message | cleared | error => exact absurd (variant_cut h).1 (by decide)
  | welcome userId history =>
    cases b with
    | welcome userId' history' =>
      have hfields := (variant_cut h).2
      simp only [List.append_assoc] at hfields
      obtain ⟨rfl, hhistory⟩ := encodeUuid_prefixFree hfields
      obtain ⟨rfl, hrest⟩ := seq_prefixFree encodeRoomMessage_prefixFree hhistory
      exact ⟨rfl, hrest⟩
    | hello | message | cleared | error => exact absurd (variant_cut h).1 (by decide)
  | message m =>
    cases b with
    | message m' =>
      obtain ⟨rfl, hrest⟩ := encodeRoomMessage_prefixFree (variant_cut h).2
      exact ⟨rfl, hrest⟩
    | hello | welcome | cleared | error => exact absurd (variant_cut h).1 (by decide)
  | cleared by_ username =>
    cases b with
    | cleared by_' username' =>
      have hfields := (variant_cut h).2
      simp only [List.append_assoc] at hfields
      obtain ⟨rfl, hname⟩ := encodeUuid_prefixFree hfields
      obtain ⟨rfl, hrest⟩ := encodeString_prefixFree hname
      exact ⟨rfl, hrest⟩
    | hello | welcome | message | error => exact absurd (variant_cut h).1 (by decide)
  | error reason =>
    cases b with
    | error reason' =>
      obtain ⟨hindex, hrest⟩ := varint_prefixFree (variant_cut h).2
      obtain rfl := ErrorKind.index_injective hindex
      exact ⟨rfl, hrest⟩
    | hello | welcome | message | cleared => exact absurd (variant_cut h).1 (by decide)

/-! ## Sizes

Worst cases, the bounds every relayed message meets. `17` is a `Uuid`, `33` a username of 32
bytes, `10` a `u64`, `4098` a ciphertext of `MAX_CIPHERTEXT_LEN` bytes with its length. -/

/-- An id is sixteen bytes behind their length. -/
theorem length_encodeUuid (u : Uuid) : (encodeUuid u).length = 17 := by
  have hlen : u.toList.length = 16 := u.2
  rw [encodeUuid, bytes, List.length_append, hlen, varint_of_lt (by omega)]
  rfl

theorem length_encodeU64_le (v : UInt64) : (encodeU64 v).length ≤ 10 := by
  have hv : v.toNat < 2 ^ 64 := v.toNat_lt
  have hpow : (2 : Nat) ^ 64 ≤ 128 ^ 10 := by decide
  exact length_varint_le (by omega) (by omega)

/-- A username takes a byte more than its text. -/
theorem length_encodeString_le {s : String} (h : strLen s ≤ MAX_USERNAME_LEN) :
    (encodeString s).length ≤ 33 := by
  have hle : (bytes (strBytes s)).length ≤ 1 + 32 :=
    length_bytes_le (by omega) (by decide) (by simpa [strLen, MAX_USERNAME_LEN] using h)
  exact hle

/-- The fields of a header at their longest. -/
theorem length_encodeMessageAd_le {ad : MessageAd} (h : strLen ad.username ≤ MAX_USERNAME_LEN) :
    (encodeMessageAd ad).length ≤ 71 := by
  have huuid := length_encodeUuid ad.fromId
  have hname := length_encodeString_le h
  have hcounter := length_encodeU64_le ad.counter
  have hts := length_encodeU64_le ad.timestampMs
  have hbool := length_bool ad.ephemeral
  simp only [encodeMessageAd, List.length_append]
  omega

/-- A message at its longest, with both usernames and the largest ciphertext. -/
theorem length_encodeRoomMessage_le {m : RoomMessage}
    (houter : strLen m.username ≤ MAX_USERNAME_LEN)
    (hinner : strLen m.ad.username ≤ MAX_USERNAME_LEN)
    (hct : m.ciphertext.length ≤ MAX_CIPHERTEXT_LEN) :
    (encodeRoomMessage m).length ≤ 4219 := by
  have huuid := length_encodeUuid m.fromId
  have hname := length_encodeString_le houter
  have had := length_encodeMessageAd_le hinner
  have hbytes : (bytes m.ciphertext).length ≤ 2 + 4096 :=
    length_bytes_le (by omega) (by decide) hct
  simp only [encodeRoomMessage, List.length_append]
  omega

/-- The same message as the client sends it, without the outer id and username. -/
theorem length_encodeClientMessage_le {ad : MessageAd} {ciphertext : List UInt8}
    (hname : strLen ad.username ≤ MAX_USERNAME_LEN)
    (hct : ciphertext.length ≤ MAX_CIPHERTEXT_LEN) :
    (encodeClientFrame (.message ad ciphertext)).length ≤ 4170 := by
  have had := length_encodeMessageAd_le hname
  have hbytes : (bytes ciphertext).length ≤ 2 + 4096 :=
    length_bytes_le (by omega) (by decide) hct
  rw [encodeClientFrame, length_variant (by omega), List.length_append]
  omega

end ChatRs

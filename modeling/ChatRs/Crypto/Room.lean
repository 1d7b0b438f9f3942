import ChatRs.Wire
import Mathlib.Data.List.DropRight

/-!
# Room sealing (`crypto/room.rs`)

`XChaCha20Poly1305` is another crate's code, so it is a parameter: an `Aead` is a pair of
functions, and what a result needs of them is a named hypothesis. `Correct` is the crate's
documented behaviour (it encrypts messages of any practical size, and what was encrypted
decrypts). `Ideal` is the idealisation under which authenticity is stated: decryption succeeds
only on what some holder of the key produced with `seal`, and then returns what was sealed.

`room::seal` and `room::open` are `roomSeal` and `roomOpen` here (both words are keywords).
-/

namespace ChatRs

def NONCE_LEN : Nat := 24

/-- The bytes of the tag that XChaCha20-Poly1305 appends. -/
def TAG_LEN : Nat := 16

abbrev Nonce := ByteArr NONCE_LEN

/-- The interface of `chacha20poly1305::XChaCha20Poly1305`. -/
structure Aead where
  encrypt (key : Key) (nonce : Nonce) (msg aad : List UInt8) : Option (List UInt8)
  decrypt (key : Key) (nonce : Nonce) (ct aad : List UInt8) : Option (List UInt8)

-- `random` is what `getrandom::fill` delivers, `none` when it fails
def roomSeal (aead : Aead) (random : Option Nonce) (roomKey : Key) (plaintext : List UInt8)
    (ad : MessageAd) : Result (List UInt8) :=
  match random with
  | none => .error .random
  | some nonce =>
    match aead.encrypt roomKey nonce plaintext (encodeMessageAd ad) with
    | none => .error .aead
    | some ct => .ok (nonce.toList ++ ct)

/-- `ciphertext.split_at(NONCE_LEN)`, its first half. -/
def nonceOf (ciphertext : List UInt8) (h : ¬ ciphertext.length < NONCE_LEN) : Nonce :=
  ⟨ciphertext.take NONCE_LEN, by rw [List.length_take]; omega⟩

def roomOpen (aead : Aead) (roomKey : Key) (ciphertext : List UInt8) (ad : MessageAd) :
    Result (List UInt8) :=
  if h : ciphertext.length < NONCE_LEN then .error .aead
  else
    match aead.decrypt roomKey (nonceOf ciphertext h) (ciphertext.drop NONCE_LEN)
        (encodeMessageAd ad) with
    | none => .error .aead
    | some pt => .ok pt

/-- On a nonce followed by a ciphertext `roomOpen` is one decryption. -/
theorem roomOpen_append (aead : Aead) (key : Key) (nonce : Nonce) (ct : List UInt8)
    (ad : MessageAd) :
    roomOpen aead key (nonce.toList ++ ct) ad
      = match aead.decrypt key nonce ct (encodeMessageAd ad) with
        | none => .error .aead
        | some pt => .ok pt := by
  have hlen : nonce.toList.length = NONCE_LEN := nonce.2
  have hlong : ¬ (nonce.toList ++ ct).length < NONCE_LEN := by
    rw [List.length_append, hlen]
    omega
  have hnonce : nonceOf (nonce.toList ++ ct) hlong = nonce := by
    apply Subtype.ext
    show (nonce.toList ++ ct).take NONCE_LEN = nonce.toList
    exact List.take_left' hlen
  have hdrop : (nonce.toList ++ ct).drop NONCE_LEN = ct := List.drop_left' hlen
  rw [roomOpen, dif_neg hlong, hnonce, hdrop]

/-- A call `seal(room_key, plaintext, ad)` of a holder of the room key, with the nonce it
drew. -/
structure SealCall where
  nonce : Nonce
  plaintext : List UInt8
  ad : MessageAd

namespace Aead

variable (aead : Aead)

structure Correct : Prop where
  encrypts : ∀ key nonce msg aad, msg.length < 2 ^ 32 → aad.length < 2 ^ 32 →
    ∃ ct, aead.encrypt key nonce msg aad = some ct
  decrypts : ∀ key nonce msg aad ct, aead.encrypt key nonce msg aad = some ct →
    aead.decrypt key nonce ct aad = some msg

/-- A ciphertext is as long as the message and the tag. -/
def Tags : Prop := ∀ key nonce msg aad ct, aead.encrypt key nonce msg aad = some ct →
  ct.length = msg.length + TAG_LEN

/-- Under `key`, decryption succeeds only on the nonce, ciphertext and additional data of one
of the seal calls, and returns the plaintext of that call. -/
def Ideal (key : Key) (calls : List SealCall) : Prop :=
  ∀ nonce ct aad pt, aead.decrypt key nonce ct aad = some pt →
    ∃ call ∈ calls,
      roomSeal aead (some call.nonce) key call.plaintext call.ad = .ok (nonce.toList ++ ct)
        ∧ encodeMessageAd call.ad = aad ∧ call.plaintext = pt

variable {aead}

/-- What opens was sealed with exactly this additional data: the encoding loses nothing. -/
theorem Ideal.of_open {key : Key} {calls : List SealCall} (hideal : aead.Ideal key calls)
    {ct : List UInt8} {ad : MessageAd} {pt : List UInt8}
    (h : roomOpen aead key ct ad = .ok pt) :
    ∃ call ∈ calls, call.ad = ad ∧ call.plaintext = pt := by
  unfold roomOpen at h
  split at h
  · cases h
  · split at h
    · cases h
    · rename_i p hdec
      cases h
      obtain ⟨call, hmem, _, had, hpt⟩ := hideal _ _ _ _ hdec
      exact ⟨call, hmem, encodeMessageAd_injective had, hpt⟩

/-- What was sealed opens again, with its header. -/
theorem Correct.open_seal (hcorrect : aead.Correct) {key : Key} {nonce : Nonce}
    {pt ct : List UInt8} {ad : MessageAd}
    (h : roomSeal aead (some nonce) key pt ad = .ok ct) :
    roomOpen aead key ct ad = .ok pt := by
  simp only [roomSeal] at h
  split at h
  · cases h
  · rename_i c henc
    cases h
    rw [roomOpen_append, hcorrect.decrypts key nonce pt _ c henc]

/-- The length of `seal(plaintext)`. -/
theorem Tags.length_seal (htags : aead.Tags) {random : Option Nonce} {key : Key}
    {pt ct : List UInt8} {ad : MessageAd} (h : roomSeal aead random key pt ad = .ok ct) :
    ct.length = NONCE_LEN + pt.length + TAG_LEN := by
  unfold roomSeal at h
  split at h
  · cases h
  · rename_i nonce
    split at h
    · cases h
    · rename_i c henc
      cases h
      have hnonce : nonce.toList.length = NONCE_LEN := nonce.2
      rw [List.length_append, hnonce, htags _ _ _ _ _ henc, Nat.add_assoc]

/-- With a correct AEAD every additional data of a usual size has a ciphertext that opens. -/
theorem Correct.exists_open (hcorrect : aead.Correct) (key : Key) {ad : MessageAd}
    (hname : strLen ad.username ≤ MAX_USERNAME_LEN) :
    ∃ ct pt, roomOpen aead key ct ad = .ok pt := by
  let nonce : Nonce := List.Vector.replicate NONCE_LEN 0
  have haad := length_encodeMessageAd_le hname
  obtain ⟨ct, henc⟩ := hcorrect.encrypts key nonce [] (encodeMessageAd ad) (by simp) (by omega)
  have hseal : roomSeal aead (some nonce) key [] ad = .ok (nonce.toList ++ ct) := by
    simp only [roomSeal, henc]
  exact ⟨_, _, hcorrect.open_seal hseal⟩

end Aead

/-- A stand-in for a Poly1305 tag. -/
def Aead.tag : List UInt8 := List.replicate 16 0

/-! ## An AEAD with one seal call

Decryption knows the nonce, ciphertext and additional data of a single call. It satisfies
`Aead.Ideal`, so the idealisation is consistent, and a run against it can be computed.
-/

namespace SealCall

def body (call : SealCall) : List UInt8 := call.plaintext ++ Aead.tag

def sealed (call : SealCall) : List UInt8 := call.nonce.toList ++ call.body

def aead (call : SealCall) : Aead where
  encrypt _ _ msg _ := some (msg ++ Aead.tag)
  decrypt _ nonce ct aad :=
    if nonce = call.nonce ∧ ct = call.body ∧ aad = encodeMessageAd call.ad then
      some call.plaintext
    else none

/-- A cipher that knows one call only is ideal. -/
theorem aead_ideal (call : SealCall) (key : Key) : call.aead.Ideal key [call] := by
  intro nonce ct aad pt h
  simp only [aead] at h
  split at h
  · rename_i heq
    obtain ⟨rfl, rfl, rfl⟩ := heq
    exact ⟨call, List.mem_singleton_self call, rfl, rfl, Option.some.inj h⟩
  · cases h

/-- And opens what that call sealed. -/
theorem open_sealed (call : SealCall) (key : Key) :
    roomOpen call.aead key call.sealed call.ad = .ok call.plaintext := by
  have hdec : call.aead.decrypt key call.nonce call.body (encodeMessageAd call.ad)
      = some call.plaintext := if_pos ⟨rfl, rfl, rfl⟩
  rw [sealed, roomOpen_append, hdec]

end SealCall

/-! ## An AEAD that only tags

The ciphertext is the plaintext with a constant tag. It satisfies `Aead.Correct` and rejects
what is too short to hold a tag.
-/

namespace Aead

def tagging : Aead where
  encrypt _ _ msg _ := some (msg ++ tag)
  decrypt _ _ ct _ :=
    if ct.rtake 16 = tag then some (ct.rdrop 16) else none

theorem tagging_tags : tagging.Tags := by
  intro key nonce msg aad ct h
  cases Option.some.inj h
  exact List.length_append

/-- The cipher that only adds a tag opens what it sealed. -/
theorem tagging_correct : tagging.Correct where
  encrypts _ _ msg _ _ _ := ⟨msg ++ tag, rfl⟩
  decrypts key nonce msg aad ct h := by
    have htag : tag.length = 16 := rfl
    cases Option.some.inj h
    show (if (msg ++ tag).rtake 16 = tag then some ((msg ++ tag).rdrop 16) else none) = some msg
    rw [← htag, List.rdrop_append_length, List.rtake, List.length_append, Nat.add_sub_cancel,
      List.drop_left, if_pos rfl]

end Aead

end ChatRs

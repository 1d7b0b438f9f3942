import ChatRs.Crypto.Room
import Mathlib.Data.Set.Insert

/-!
# What a sealing binds (`crypto/room.rs`)

`XChaCha20Poly1305` at its best: of the calls of `encrypt` that were ever made, decryption knows
the key, the nonce, the additional data and the ciphertext, and it succeeds on nothing else
(`Aead.IdealOn`). `room::seal` encodes a `MessageAd` into the additional data and puts the nonce
in front, `room::open` splits it off again.

* **`IdealOn.open_eq_ok_iff`**: what opens, opens to what was sealed under this key and this
  `MessageAd`;
* **`sealing_binds_ad`**: hence a sealing opens under no other `MessageAd`, and what is no sealing
  does not open;
* **`Aead.recording`**: the ideal is met.
-/

namespace ChatRs

/-- What goes into a call of `encrypt`. -/
structure EncryptCall where
  key : Key
  nonce : Nonce
  msg : List UInt8
  aad : List UInt8
deriving DecidableEq

/-- The call that `room::seal` makes, with the nonce it drew. -/
def sealCall (key : Key) (nonce : Nonce) (plaintext : List UInt8) (ad : MessageAd) :
    EncryptCall where
  key := key
  nonce := nonce
  msg := plaintext
  aad := encodeMessageAd ad

/-- No nonce is drawn twice for one key. -/
def FreshNonces (calls : Set EncryptCall) : Prop :=
  ∀ c ∈ calls, ∀ c' ∈ calls, c.key = c'.key → c.nonce = c'.nonce → c = c'

namespace Aead

variable {aead : Aead} {calls : Set EncryptCall}

/-- Decryption succeeds on what one of the calls produced, with the message that went in, and on
nothing else. -/
def IdealOn (aead : Aead) (calls : Set EncryptCall) : Prop :=
  ∀ key nonce ct aad msg, aead.decrypt key nonce ct aad = some msg ↔
    ⟨key, nonce, msg, aad⟩ ∈ calls ∧ aead.encrypt key nonce msg aad = some ct

/-- `bytes` is what one of the calls returned as a sealing of `plaintext`. -/
def Sealed (aead : Aead) (calls : Set EncryptCall) (key : Key) (plaintext : List UInt8)
    (ad : MessageAd) (bytes : List UInt8) : Prop :=
  ∃ nonce, sealCall key nonce plaintext ad ∈ calls
    ∧ roomSeal aead (some nonce) key plaintext ad = .ok bytes

/-- A sealed message is its nonce and the ciphertext behind it. -/
theorem roomSeal_eq_ok_iff {nonce : Nonce} {key : Key} {plaintext bytes : List UInt8}
    {ad : MessageAd} :
    roomSeal aead (some nonce) key plaintext ad = .ok bytes ↔
      ∃ ct, aead.encrypt key nonce plaintext (encodeMessageAd ad) = some ct
        ∧ bytes = nonce.toList ++ ct := by
  simp only [roomSeal]
  cases aead.encrypt key nonce plaintext (encodeMessageAd ad) with
  | none => simp
  | some ct => simp [eq_comm]

/-- `open` has one error. -/
theorem roomOpen_eq_error {key : Key} {bytes : List UInt8} {ad : MessageAd}
    (h : ∀ pt, roomOpen aead key bytes ad ≠ .ok pt) :
    roomOpen aead key bytes ad = .error .aead := by
  unfold roomOpen at h ⊢
  split
  · rfl
  · rename_i hlong
    rw [dif_neg hlong] at h
    split
    · rfl
    · rename_i pt hdec
      rw [hdec] at h
      exact absurd rfl (h pt)

/-- What is as long as a nonce is one, followed by the rest. -/
theorem nonceOf_append_drop {bytes : List UInt8} (h : ¬ bytes.length < NONCE_LEN) :
    (nonceOf bytes h).toList ++ bytes.drop NONCE_LEN = bytes := List.take_append_drop _ bytes

/-- **What opens was sealed so**, and the other way round. -/
theorem IdealOn.open_eq_ok_iff (hideal : aead.IdealOn calls) {key : Key}
    {bytes pt : List UInt8} {ad : MessageAd} :
    roomOpen aead key bytes ad = .ok pt ↔ aead.Sealed calls key pt ad bytes := by
  constructor
  · intro h
    by_cases hlong : bytes.length < NONCE_LEN
    · rw [roomOpen, dif_pos hlong] at h
      cases h
    rw [← nonceOf_append_drop hlong] at h ⊢
    rw [roomOpen_append] at h
    split at h
    · cases h
    · rename_i msg hdec
      cases h
      obtain ⟨hmem, henc⟩ := (hideal _ _ _ _ _).mp hdec
      exact ⟨_, hmem, roomSeal_eq_ok_iff.mpr ⟨_, henc, rfl⟩⟩
  · rintro ⟨nonce, hmem, hseal⟩
    obtain ⟨ct, henc, rfl⟩ := roomSeal_eq_ok_iff.mp hseal
    have hdec : aead.decrypt key nonce ct (encodeMessageAd ad) = some pt :=
      (hideal _ _ _ _ _).mpr ⟨hmem, henc⟩
    rw [roomOpen_append, hdec]

/-- Two sealings that look alike are one: the nonce in front tells which call it was, and the
encoding which `MessageAd`. -/
theorem Sealed.unique (hfresh : FreshNonces calls) {key : Key} {pt pt' bytes : List UInt8}
    {ad ad' : MessageAd} (h : aead.Sealed calls key pt ad bytes)
    (h' : aead.Sealed calls key pt' ad' bytes) : ad' = ad ∧ pt' = pt := by
  obtain ⟨nonce, hmem, hseal⟩ := h
  obtain ⟨nonce', hmem', hseal'⟩ := h'
  obtain ⟨ct, _, heq⟩ := roomSeal_eq_ok_iff.mp hseal
  obtain ⟨ct', _, heq'⟩ := roomSeal_eq_ok_iff.mp hseal'
  have hsplit : nonce'.toList ++ ct' = nonce.toList ++ ct := heq'.symm.trans heq
  have hlen : nonce'.toList.length = nonce.toList.length := nonce'.2.trans nonce.2.symm
  have hnonce : nonce' = nonce := Subtype.ext (List.append_inj_left hsplit hlen)
  have hcall := hfresh _ hmem' _ hmem rfl hnonce
  refine ⟨encodeMessageAd_injective ?_, ?_⟩
  · exact congrArg EncryptCall.aad hcall
  · exact congrArg EncryptCall.msg hcall

/-- The idealisation for one key and a list of seal calls follows: what decrypts under the key is
one of them. -/
theorem IdealOn.ideal (hideal : aead.IdealOn calls) {key : Key} {sealings : List SealCall}
    (hroom : ∀ c ∈ calls, c.key = key →
      ∃ call ∈ sealings, c = sealCall key call.nonce call.plaintext call.ad) :
    aead.Ideal key sealings := by
  intro nonce ct aad pt hdec
  obtain ⟨hmem, henc⟩ := (hideal _ _ _ _ _).mp hdec
  obtain ⟨call, hcall, heq⟩ := hroom _ hmem rfl
  cases heq
  exact ⟨call, hcall, roomSeal_eq_ok_iff.mpr ⟨ct, henc, rfl⟩, rfl, rfl⟩

end Aead

/-- **A sealing binds the whole `MessageAd`.** It opens under the one it was made with and under
no other, and what was not sealed under the key and a `MessageAd` does not open under them,
however long or short it is. The encoding of a `MessageAd` determines it. -/
theorem sealing_binds_ad {aead : Aead} {calls : Set EncryptCall} (hideal : aead.IdealOn calls)
    (hfresh : FreshNonces calls) :
    (∀ key nonce pt ad bytes, sealCall key nonce pt ad ∈ calls →
        roomSeal aead (some nonce) key pt ad = .ok bytes →
        ∀ ad', roomOpen aead key bytes ad' = if ad' = ad then .ok pt else .error .aead)
      ∧ (∀ key bytes ad, (∀ pt, ¬ aead.Sealed calls key pt ad bytes) →
        roomOpen aead key bytes ad = .error .aead)
      ∧ Function.Injective encodeMessageAd := by
  refine ⟨?_, ?_, encodeMessageAd_injective⟩
  · intro key nonce pt ad bytes hmem hseal ad'
    have hsealed : aead.Sealed calls key pt ad bytes := ⟨nonce, hmem, hseal⟩
    split
    · rename_i heq
      rw [heq]
      exact hideal.open_eq_ok_iff.mpr hsealed
    · rename_i hne
      refine Aead.roomOpen_eq_error fun pt' hopen => hne ?_
      exact (hsealed.unique hfresh (hideal.open_eq_ok_iff.mp hopen)).1
  · intro key bytes ad hnone
    exact Aead.roomOpen_eq_error fun pt hopen => hnone pt (hideal.open_eq_ok_iff.mp hopen)

/-! ## An AEAD that remembers its calls

The ciphertext is the message with a constant tag, and decryption looks it up.
-/

namespace Aead

def recording (calls : List EncryptCall) : Aead where
  encrypt _ _ msg _ := some (msg ++ tag)
  decrypt key nonce ct aad :=
    (calls.find? fun c => c.key = key ∧ c.nonce = nonce ∧ c.aad = aad ∧ c.msg ++ tag = ct).map
      EncryptCall.msg

/-- A cipher that records its calls opens what it was called for, and nothing else. -/
theorem recording_idealOn (calls : List EncryptCall) :
    (recording calls).IdealOn {c | c ∈ calls} := by
  intro key nonce ct aad msg
  simp only [recording, Option.map_eq_some_iff, Option.some.injEq, Set.mem_ofPred_eq]
  constructor
  · rintro ⟨⟨k, n, m, a⟩, hfind, rfl⟩
    have hmade := List.find?_some hfind
    rw [decide_eq_true_eq] at hmade
    obtain ⟨rfl, rfl, rfl, rfl⟩ := hmade
    exact ⟨List.mem_of_find?_eq_some hfind, rfl⟩
  · rintro ⟨hmem, rfl⟩
    cases hfind : calls.find? fun c =>
        c.key = key ∧ c.nonce = nonce ∧ c.aad = aad ∧ c.msg ++ tag = msg ++ tag with
    | none =>
      have hno := List.find?_eq_none.mp hfind _ hmem
      exact absurd (decide_eq_true ⟨rfl, rfl, rfl, rfl⟩) hno
    | some c =>
      have hmade := List.find?_some hfind
      rw [decide_eq_true_eq] at hmade
      exact ⟨c, rfl, List.append_cancel_right hmade.2.2.2⟩

theorem recording_tags (calls : List EncryptCall) : (recording calls).Tags := by
  intro key nonce msg aad ct h
  cases Option.some.inj h
  exact List.length_append

end Aead

namespace Sealing

def roomKey : Key := List.Vector.replicate 32 9

def alice : Uuid := List.Vector.replicate 16 0

def helloAd : MessageAd := ⟨alice, "alice", 1, 1000, false⟩

/-- The same with another timestamp. -/
def tampered : MessageAd := { helloAd with timestampMs := 1001 }

def nonceFrom (b : UInt8) : Nonce := List.Vector.replicate NONCE_LEN b

/-- Alice says one thing twice, a millisecond apart. -/
def twice : List EncryptCall :=
  [sealCall roomKey (nonceFrom 1) (strBytes "hello") helloAd,
    sealCall roomKey (nonceFrom 2) (strBytes "hello") tampered]

theorem twice_fresh : FreshNonces {c | c ∈ twice} := by
  have hpairs : ∀ c ∈ twice, ∀ c' ∈ twice, c.nonce = c'.nonce → c = c' := by decide
  exact fun c hmem c' hmem' _ => hpairs c hmem c' hmem'

end Sealing

open Sealing in
/-- Her first sealing opens under its own `MessageAd`, not under that of the second, and cut down
to its nonce not at all. -/
theorem sealing_binds_ad_twice :
    let aead := Aead.recording twice
    let bytes := (nonceFrom 1).toList ++ (strBytes "hello" ++ Aead.tag)
    roomOpen aead roomKey bytes helloAd = .ok (strBytes "hello")
      ∧ roomOpen aead roomKey bytes tampered = .error .aead
      ∧ roomOpen aead roomKey (bytes.take NONCE_LEN) helloAd = .error .aead := by
  intro aead bytes
  have hideal : aead.IdealOn {c | c ∈ twice} := Aead.recording_idealOn twice
  obtain ⟨hbinds, hrejects, _⟩ := sealing_binds_ad hideal twice_fresh
  have hopen := hbinds roomKey (nonceFrom 1) (strBytes "hello") helloAd bytes List.mem_cons_self rfl
  refine ⟨hopen helloAd, (hopen tampered).trans (if_neg (by decide)), ?_⟩
  refine hrejects _ _ _ fun pt hsealed => ?_
  obtain ⟨nonce, _, hseal⟩ := hsealed
  -- a sealing is longer than its nonce, by the tag at least
  have hlong : (bytes.take NONCE_LEN).length = NONCE_LEN + pt.length + TAG_LEN :=
    (Aead.recording_tags twice).length_seal hseal
  have hshort : (bytes.take NONCE_LEN).length ≤ NONCE_LEN := List.length_take_le ..
  have htag : TAG_LEN = 16 := rfl
  omega

end ChatRs

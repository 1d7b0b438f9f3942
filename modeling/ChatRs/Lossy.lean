import ChatRs.RustStd

/-!
# A string read back (`String::from_utf8_lossy`)

A message goes through the AEAD as the bytes of its text, and the receiver's client reads them
with the decoder that replaces what it cannot decode. Nothing of a string is replaced.

* **`lossyStep_encode`**: the decoder reads one character off its encoding, whatever follows;
* **`fromUtf8Lossy_strBytes`**: so it reads back the string.
-/

namespace ChatRs

/-! ## Bytes as numbers -/

theorem toNat_ofNat_of_lt {n : Nat} (h : n < 256) : (UInt8.ofNat n).toNat = n := by
  rw [UInt8.toNat_ofNat']
  omega

section

variable {n : Nat} (h : n < 256) (b : UInt8)

include h

theorem ofNat_lt_iff : UInt8.ofNat n < b ↔ n < b.toNat := by
  rw [UInt8.lt_iff_toNat_lt, toNat_ofNat_of_lt h]

theorem ofNat_le_iff : UInt8.ofNat n ≤ b ↔ n ≤ b.toNat := by
  rw [UInt8.le_iff_toNat_le, toNat_ofNat_of_lt h]

theorem le_ofNat_iff : b ≤ UInt8.ofNat n ↔ b.toNat ≤ n := by
  rw [UInt8.le_iff_toNat_le, toNat_ofNat_of_lt h]

theorem ofNat_eq_iff : UInt8.ofNat n = b ↔ n = b.toNat := by
  rw [← UInt8.toNat_inj, toNat_ofNat_of_lt h]

end

/-! ## The bytes of an encoding -/

theorem isCont_ofNat (n : Nat) : isCont (UInt8.ofNat (n % 64 + 128)) = true := by
  have hlt : n % 64 + 128 < 256 := by omega
  simp only [isCont, Bool.and_eq_true, decide_eq_true_eq, le_ofNat_iff hlt, ofNat_le_iff hlt]
  show 128 ≤ n % 64 + 128 ∧ n % 64 + 128 ≤ 191
  omega

theorem contBits_ofNat (n : Nat) : contBits (UInt8.ofNat (n % 64 + 128)) = n % 64 := by
  rw [contBits, toNat_ofNat_of_lt (by omega)]
  omega

/-- The second of three bytes: nothing that two would do for, and no surrogate. -/
theorem secondOfThree_ofNat {v : Nat} (hlow : 0x800 ≤ v) (hhigh : v ≤ 0xffff)
    (hvalid : v < 0xD800 ∨ 0xDFFF < v) :
    secondOfThree (UInt8.ofNat (v / 4096 % 16 + 224)) (UInt8.ofNat (v / 64 % 64 + 128))
      = true := by
  have hb : v / 4096 % 16 + 224 < 256 := by omega
  have hc : v / 64 % 64 + 128 < 256 := by omega
  unfold secondOfThree
  split
  · rename_i heq
    replace heq : v / 4096 % 16 + 224 = 224 := (ofNat_eq_iff hb 0xE0).mp heq
    simp only [Bool.and_eq_true, decide_eq_true_eq, le_ofNat_iff hc, ofNat_le_iff hc]
    show 160 ≤ v / 64 % 64 + 128 ∧ v / 64 % 64 + 128 ≤ 191
    omega
  split
  · rename_i heq
    replace heq : v / 4096 % 16 + 224 = 237 := (ofNat_eq_iff hb 0xED).mp heq
    simp only [Bool.and_eq_true, decide_eq_true_eq, le_ofNat_iff hc, ofNat_le_iff hc]
    show 128 ≤ v / 64 % 64 + 128 ∧ v / 64 % 64 + 128 ≤ 159
    omega
  · exact isCont_ofNat _

/-- The second of four: nothing that three would do for, and nothing beyond Unicode. -/
theorem secondOfFour_ofNat {v : Nat} (hlow : 0x10000 ≤ v) (hhigh : v < 0x110000) :
    secondOfFour (UInt8.ofNat (v / 262144 % 8 + 240)) (UInt8.ofNat (v / 4096 % 64 + 128))
      = true := by
  have hb : v / 262144 % 8 + 240 < 256 := by omega
  have hc : v / 4096 % 64 + 128 < 256 := by omega
  unfold secondOfFour
  split
  · rename_i heq
    replace heq : v / 262144 % 8 + 240 = 240 := (ofNat_eq_iff hb 0xF0).mp heq
    simp only [Bool.and_eq_true, decide_eq_true_eq, le_ofNat_iff hc, ofNat_le_iff hc]
    show 144 ≤ v / 4096 % 64 + 128 ∧ v / 4096 % 64 + 128 ≤ 191
    omega
  split
  · rename_i heq
    replace heq : v / 262144 % 8 + 240 = 244 := (ofNat_eq_iff hb 0xF4).mp heq
    simp only [Bool.and_eq_true, decide_eq_true_eq, le_ofNat_iff hc, ofNat_le_iff hc]
    show 128 ≤ v / 4096 % 64 + 128 ∧ v / 4096 % 64 + 128 ≤ 143
    omega
  · exact isCont_ofNat _

theorem not_ascii_ofNat {n : Nat} (h : n < 256) (hlow : 128 ≤ n) : ¬ UInt8.ofNat n < 0x80 := by
  rw [ofNat_lt_iff h]
  exact Nat.not_lt.mpr hlow

theorem between_ofNat {n : Nat} (h : n < 256) (a b : UInt8) :
    (a ≤ UInt8.ofNat n && UInt8.ofNat n ≤ b) = true ↔ a.toNat ≤ n ∧ n ≤ b.toNat := by
  simp only [Bool.and_eq_true, decide_eq_true_eq, le_ofNat_iff h, ofNat_le_iff h]

/-! ## One character -/

section

variable {v : Nat} (rest : List UInt8)

/-- The encoding of a character in two bytes is read as that character. -/
theorem lossyStep_two (hlow : 0x80 ≤ v) (hhigh : v ≤ 0x7ff) :
    lossyStep (UInt8.ofNat (v / 64 % 0x20 + 0xc0)) (UInt8.ofNat (v % 0x40 + 0x80) :: rest)
      = (Char.ofNat v, rest) := by
  have hlt : v / 64 % 32 + 192 < 256 := by omega
  unfold lossyStep
  rw [if_neg (not_ascii_ofNat hlt (by omega)),
    if_pos ((between_ofNat hlt 0xC2 0xDF).mpr (show 194 ≤ _ ∧ _ ≤ 223 by omega))]
  simp only [isCont_ofNat, if_true, contBits_ofNat, toNat_ofNat_of_lt hlt]
  have hv : (v / 64 % 32 + 192) % 32 * 64 + v % 64 = v := by omega
  rw [hv]

/-- A character in three bytes is decoded as itself; the surrogates are left out. -/
theorem lossyStep_three (hlow : 0x800 ≤ v) (hhigh : v ≤ 0xffff) (hvalid : v < 0xD800 ∨ 0xDFFF < v) :
    lossyStep (UInt8.ofNat (v / 4096 % 0x10 + 0xe0))
        (UInt8.ofNat (v / 64 % 0x40 + 0x80) :: UInt8.ofNat (v % 0x40 + 0x80) :: rest)
      = (Char.ofNat v, rest) := by
  have hlt : v / 4096 % 16 + 224 < 256 := by omega
  unfold lossyStep
  rw [if_neg (not_ascii_ofNat hlt (by omega)),
    if_neg ((between_ofNat hlt 0xC2 0xDF).not.mpr (show ¬ (194 ≤ _ ∧ _ ≤ 223) by omega)),
    if_pos ((between_ofNat hlt 0xE0 0xEF).mpr (show 224 ≤ _ ∧ _ ≤ 239 by omega))]
  simp only [secondOfThree_ofNat hlow hhigh hvalid, isCont_ofNat, if_true, contBits_ofNat,
    toNat_ofNat_of_lt hlt]
  have hv : (v / 4096 % 16 + 224) % 16 * 4096 + v / 64 % 64 * 64 + v % 64 = v := by omega
  rw [hv]

/-- A character in four bytes is decoded as itself. -/
theorem lossyStep_four (hlow : 0x10000 ≤ v) (hhigh : v < 0x110000) :
    lossyStep (UInt8.ofNat (v / 262144 % 0x08 + 0xf0))
        (UInt8.ofNat (v / 4096 % 0x40 + 0x80) :: UInt8.ofNat (v / 64 % 0x40 + 0x80)
          :: UInt8.ofNat (v % 0x40 + 0x80) :: rest)
      = (Char.ofNat v, rest) := by
  have hlt : v / 262144 % 8 + 240 < 256 := by omega
  unfold lossyStep
  rw [if_neg (not_ascii_ofNat hlt (by omega)),
    if_neg ((between_ofNat hlt 0xC2 0xDF).not.mpr (show ¬ (194 ≤ _ ∧ _ ≤ 223) by omega)),
    if_neg ((between_ofNat hlt 0xE0 0xEF).not.mpr (show ¬ (224 ≤ _ ∧ _ ≤ 239) by omega)),
    if_pos ((between_ofNat hlt 0xF0 0xF4).mpr (show 240 ≤ _ ∧ _ ≤ 244 by omega))]
  simp only [secondOfFour_ofNat hlow hhigh, isCont_ofNat, if_true, contBits_ofNat,
    toNat_ofNat_of_lt hlt]
  have hv : (v / 262144 % 8 + 240) % 8 * 262144 + v / 4096 % 64 * 4096 + v / 64 % 64 * 64 + v % 64
      = v := by omega
  rw [hv]

end

/-- **The decoder reads a character off its encoding.** -/
theorem lossyStep_encode (c : Char) : ∃ b bs, String.utf8EncodeChar c = b :: bs
    ∧ ∀ rest, lossyStep b (bs ++ rest) = (c, rest) := by
  have hc : Char.ofNat c.val.toNat = c := Char.ofNat_toNat c
  have hvalid : c.val.toNat < 0xD800 ∨ (0xDFFF < c.val.toNat ∧ c.val.toNat < 0x110000) := c.valid
  rw [String.utf8EncodeChar]
  generalize c.val.toNat = v at hc hvalid
  split_ifs with h₁ h₂ h₃
  · refine ⟨_, _, rfl, fun rest => ?_⟩
    have hlt : v < 256 := by omega
    unfold lossyStep
    rw [if_pos ((ofNat_lt_iff hlt 0x80).mpr (show v < 128 by omega)), toNat_ofNat_of_lt hlt, hc]
    rfl
  · refine ⟨_, _, rfl, fun rest => ?_⟩
    rw [← hc]
    exact lossyStep_two rest (by omega) h₂
  · refine ⟨_, _, rfl, fun rest => ?_⟩
    rw [← hc]
    exact lossyStep_three rest (by omega) h₃ (by omega)
  · refine ⟨_, _, rfl, fun rest => ?_⟩
    rw [← hc]
    exact lossyStep_four rest (by omega) (by omega)

/-! ## All of them -/

/-- So a text comes back character by character: the induction is on the text, and every character
takes at least one unit of the fuel. -/
theorem lossyGo_encode (cs : List Char) {fuel : Nat}
    (hfuel : (cs.flatMap String.utf8EncodeChar).length ≤ fuel) :
    lossyGo fuel (cs.flatMap String.utf8EncodeChar) = cs := by
  induction cs generalizing fuel with
  | nil => cases fuel <;> rfl
  | cons c cs ih =>
    obtain ⟨b, bs, hencode, hstep⟩ := lossyStep_encode c
    rw [List.flatMap_cons, hencode, List.cons_append] at hfuel ⊢
    rw [List.length_cons, List.length_append] at hfuel
    cases fuel with
    | zero => omega
    | succ fuel =>
      rw [lossyGo, hstep]
      show c :: lossyGo fuel (cs.flatMap String.utf8EncodeChar) = c :: cs
      rw [ih (by omega)]

/-- **What was a string stays one.** -/
theorem fromUtf8Lossy_strBytes (s : String) : fromUtf8Lossy (strBytes s) = s := by
  rw [fromUtf8Lossy, strBytes_eq_flatMap, lossyGo_encode _ (Nat.le_refl _), String.ofList_toList]

end ChatRs

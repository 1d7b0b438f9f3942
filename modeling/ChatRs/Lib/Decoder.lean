import ChatRs.Lib.Postcard

/-!
# Decoding the postcard format

A decoder takes bytes off the front of its input. Varints are read within the width of their type:
no more bytes than it needs, and no bits in the last of them that it does not have.

* **`Decodes`**: whatever follows, a decoder gets this value from these bytes and stops there.
  Decoders one after the other decode what is written one after the other (`Decodes.bind`);
* **`decodes_varint`**, **`decodes_bytes`**, **`decodes_bool`**, **`decodes_seq`**,
  **`decodes_variant`**: the building blocks read back what `Postcard` writes;
* **`fromBytes`** does not look at what is left.
-/

namespace Postcard

abbrev Decoder (α : Type) := StateT (List UInt8) Option α

/-- `dec` takes `b` off the front of any input, and returns `a`. -/
def Decodes {α : Type} (dec : Decoder α) (b : List UInt8) (a : α) : Prop :=
  ∀ rest, dec.run (b ++ rest) = some (a, rest)

/-- `postcard::from_bytes`. -/
def fromBytes {α : Type} (dec : Decoder α) (input : List UInt8) : Option α :=
  (dec.run input).map Prod.fst

section

variable {α β : Type} {dec : Decoder α} {b b' : List UInt8} {a : α}

theorem Decodes.pure (a : α) : Decodes (Pure.pure a) [] a := fun _ => rfl

/-- Two encodings in a row are read by two decoders in a row, the second of which may depend on what
the first has read. -/
theorem Decodes.bind {f : α → Decoder β} {c : β} (h : Decodes dec b a)
    (hf : Decodes (f a) b' c) : Decodes (dec >>= f) (b ++ b') c := by
  intro rest
  rw [List.append_assoc, StateT.run_bind, h (b' ++ rest)]
  exact hf rest

/-- A last step that reads nothing more. -/
theorem Decodes.last {f : α → Decoder β} {c : β} (h : Decodes dec b a)
    (hf : Decodes (f a) [] c) : Decodes (dec >>= f) b c := by
  have hbind := h.bind hf
  rwa [List.append_nil] at hbind

theorem Decodes.map {f : α → β} (h : Decodes dec b a) :
    Decodes (dec >>= fun a => Pure.pure (f a)) b (f a) :=
  h.last (.pure (f a))

/-- What comes behind an encoding does not matter: the rest is not looked at. -/
theorem Decodes.fromBytes (h : Decodes dec b a) (rest : List UInt8) :
    fromBytes dec (b ++ rest) = some a := by
  rw [Postcard.fromBytes, h rest]
  rfl

end

/-! ## Bytes -/

def pop : Decoder UInt8
  | [] => none
  | b :: rest => some (b, rest)

def take (n : Nat) : Decoder (List UInt8) := fun input =>
  if input.length < n then none else some (input.take n, input.drop n)

theorem decodes_pop (b : UInt8) : Decodes pop [b] b := fun _ => rfl

/-- As many bytes as were announced. -/
theorem decodes_take (data : List UInt8) : Decodes (take data.length) data data := by
  intro rest
  have hlen : ¬ (data ++ rest).length < data.length := by simp
  show (if (data ++ rest).length < data.length then _ else _) = _
  rw [if_neg hlen, List.take_left, List.drop_left]

/-! ## Varints -/

/-- A varint of at most this many bytes, if the last of them is at most `top`. -/
def varintWithin (top : Nat) : Nat → Decoder Nat
  | 0 => failure
  | k + 1 => do
    let b ← pop
    if b.toNat < 128 then
      if k = 0 ∧ top < b.toNat then failure else return b.toNat
    else
      let high ← varintWithin top k
      return b.toNat % 128 + 128 * high

/-- A varint of a type of `width` bits. -/
def decodeVarint (width : Nat) : Decoder Nat := varintWithin (2 ^ (width % 7) - 1) ((width + 6) / 7)

/-- A byte below 128 ends a varint, if the value still fits there. -/
theorem decodes_last {top k : Nat} {b : UInt8} (hb : b.toNat < 128) (htop : k = 0 → b.toNat ≤ top) :
    Decodes (varintWithin top (k + 1)) [b] b.toNat := by
  have hfits : ¬ (k = 0 ∧ top < b.toNat) := by omega
  apply (decodes_pop b).bind
  rw [if_pos hb, if_neg hfits]
  exact .pure _

/-- A byte from 128 on goes before a varint and adds its seven bits. -/
theorem decodes_continued {top k m : Nat} {b : UInt8} {bs : List UInt8} (hb : 128 ≤ b.toNat)
    (h : Decodes (varintWithin top k) bs m) :
    Decodes (varintWithin top (k + 1)) (b :: bs) (b.toNat % 128 + 128 * m) := by
  have hmore : ¬ b.toNat < 128 := by omega
  apply (decodes_pop b).bind
  rw [if_neg hmore]
  exact h.map

/-- **A varint comes back**, if the value is within the bound of its type: the induction is on the
number of bytes the type allows for. -/
theorem decodes_varintWithin {top k n : Nat} (htop : top < 128) (hn : n < (top + 1) * 128 ^ k) :
    Decodes (varintWithin top (k + 1)) (varint n) n := by
  have hlast {k n : Nat} (hlt : n < 128) (hfits : k = 0 → n ≤ top) :
      Decodes (varintWithin top (k + 1)) (varint n) n := by
    have hbyte : (UInt8.ofNat n).toNat = n := by
      rw [UInt8.toNat_ofNat']
      omega
    rw [varint_of_lt hlt]
    simpa only [hbyte] using decodes_last (b := UInt8.ofNat n) (by omega) (by omega)
  induction k generalizing n with
  | zero =>
    rw [Nat.pow_zero, Nat.mul_one] at hn
    exact hlast (by omega) (by omega)
  | succ k ih =>
    rcases Nat.lt_or_ge n 128 with hlt | hge
    · exact hlast hlt (by omega)
    · have hbyte : (UInt8.ofNat (n % 128 + 128)).toNat = n % 128 + 128 := by
        rw [UInt8.toNat_ofNat']
        omega
      have hhigh : n / 128 < (top + 1) * 128 ^ k := by
        rw [Nat.div_lt_iff_lt_mul (by decide), Nat.mul_assoc, ← Nat.pow_succ]
        exact hn
      have hcont := decodes_continued (b := UInt8.ofNat (n % 128 + 128)) (by omega) (ih hhigh)
      have hvalue : (n % 128 + 128) % 128 + 128 * (n / 128) = n := by omega
      rw [hbyte, hvalue] at hcont
      rw [varint_of_le hge]
      exact hcont

/-- **A varint within its width is read back.** -/
theorem decodes_varint {width n : Nat} (hwidth : width % 7 ≠ 0) (hn : n < 2 ^ width) :
    Decodes (decodeVarint width) (varint n) n := by
  have hbytes : (width + 6) / 7 = width / 7 + 1 := by omega
  have htop : 2 ^ (width % 7) ≤ 2 ^ 6 := Nat.pow_le_pow_right (by decide) (by omega)
  have hpos : 0 < 2 ^ (width % 7) := Nat.two_pow_pos _
  have hsplit : 2 ^ width = 2 ^ (width % 7) * 128 ^ (width / 7) := by
    have h128 : (128 : Nat) = 2 ^ 7 := rfl
    rw [h128, ← Nat.pow_mul, ← Nat.pow_add, Nat.mod_add_div]
  rw [decodeVarint, hbytes]
  apply decodes_varintWithin
  · omega
  · rw [Nat.sub_add_cancel hpos, ← hsplit]
    exact hn

/-! ## Byte strings, booleans, sequences, enum variants -/

/-- A length is a `usize` of 64 bits. -/
def decodeBytes : Decoder (List UInt8) := do
  let len ← decodeVarint 64
  take len

theorem decodes_bytes {data : List UInt8} (h : data.length < 2 ^ 64) :
    Decodes decodeBytes (bytes data) data :=
  (decodes_varint (by decide) h).bind (decodes_take data)

def decodeBool : Decoder Bool := do
  let b ← pop
  if b = 0 then return false
  else if b = 1 then return true
  else failure

theorem decodes_bool (b : Bool) : Decodes decodeBool (bool b) b := by
  cases b with
  | false => exact (decodes_pop 0).bind (.pure false)
  | true => exact (decodes_pop 1).bind (.pure true)

/-- As many elements as the length says. -/
def times {α : Type} (dec : Decoder α) : Nat → Decoder (List α)
  | 0 => return []
  | n + 1 => do
    let x ← dec
    let xs ← times dec n
    return x :: xs

def decodeSeq {α : Type} (dec : Decoder α) : Decoder (List α) := do
  let len ← decodeVarint 64
  times dec len

/-- A sequence of known length comes back element by element. -/
theorem decodes_times {α : Type} {enc : α → List UInt8} {dec : Decoder α} {xs : List α}
    (h : ∀ x ∈ xs, Decodes dec (enc x) x) : Decodes (times dec xs.length) (xs.flatMap enc) xs := by
  induction xs with
  | nil => exact .pure []
  | cons x xs ih =>
    obtain ⟨hx, hxs⟩ := List.forall_mem_cons.mp h
    rw [List.flatMap_cons]
    exact hx.bind (ih hxs).map

/-- A sequence comes back behind its length. -/
theorem decodes_seq {α : Type} {enc : α → List UInt8} {dec : Decoder α} {xs : List α}
    (hlen : xs.length < 2 ^ 64) (h : ∀ x ∈ xs, Decodes dec (enc x) x) :
    Decodes (decodeSeq dec) (seq enc xs) xs :=
  (decodes_varint (by decide) hlen).bind (decodes_times h)

/-- The index of an enum is a varint of 32 bits; the fields depend on it. -/
theorem decodes_variant {α : Type} {fieldsOf : Nat → Decoder α} {index : Nat} {fields : List UInt8}
    {a : α} (hindex : index < 2 ^ 32) (h : Decodes (fieldsOf index) fields a) :
    Decodes (decodeVarint 32 >>= fieldsOf) (variant index fields) a :=
  (decodes_varint (by decide) hindex).bind h

end Postcard

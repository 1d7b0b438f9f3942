import Mathlib.Algebra.Group.Nat.Defs
import Mathlib.Data.List.Basic
import Mathlib.Logic.Function.Basic

/-!
# Encoding in the postcard format

The parts of the postcard binary format a record needs: LEB128 varints for integers, lengths
and enum indices, length-prefixed byte strings and sequences, one byte for a `bool`.

* **`PrefixFree`**: whatever follows, an encoding determines the value and where it ends.
  This is stronger than injectivity, and it is what concatenation preserves;
* **`varint_prefixFree`**, **`bytes_prefixFree`**, **`seq_prefixFree`**: the building blocks
  have it, so a record of them has it field by field;
* **`length_varint_le`**, **`length_bytes_le`**, **`length_seq_le`**: worst-case sizes.
-/

namespace Postcard

/-- An encoding that can be cut off the front of any stream in one way only. -/
def PrefixFree {α : Type} (enc : α → List UInt8) : Prop :=
  ∀ {a b : α} {rest rest' : List UInt8}, enc a ++ rest = enc b ++ rest' → a = b ∧ rest = rest'

/-- No two values have the same encoding. -/
theorem PrefixFree.injective {α : Type} {enc : α → List UInt8} (h : PrefixFree enc) :
    Function.Injective enc := by
  intro a b hab
  have hcut : enc a ++ [] = enc b ++ [] := by rw [hab]
  exact (h hcut).1

/-- No encoding is the start of another one. -/
theorem PrefixFree.eq_of_isPrefix {α : Type} {enc : α → List UInt8} (h : PrefixFree enc) {a b : α}
    (hstart : enc a <+: enc b) : a = b := by
  obtain ⟨rest, hrest⟩ := hstart
  have hcut : enc a ++ rest = enc b ++ [] := by rw [hrest, List.append_nil]
  exact (h hcut).1

/-- Reading the value off through an injective function keeps the cut unique. -/
theorem PrefixFree.comp {α β : Type} {enc : β → List UInt8} (h : PrefixFree enc) {f : α → β}
    (hf : Function.Injective f) : PrefixFree fun a => enc (f a) := by
  intro a b rest rest' hab
  obtain ⟨hval, hrest⟩ := h hab
  exact ⟨hf hval, hrest⟩

/-! ## Varints

Seven payload bits a byte, least significant group first, the top bit set on every byte but
the last. The first argument of `varintGo` only makes the recursion structural. -/

def varintGo : Nat → Nat → List UInt8
  | 0, n => [UInt8.ofNat n]
  | fuel + 1, n =>
    if n < 128 then [UInt8.ofNat n]
    else UInt8.ofNat (n % 128 + 128) :: varintGo fuel (n / 128)

/-- The LEB128 encoding of a natural number. -/
def varint (n : Nat) : List UInt8 := varintGo n n

/-- The fuel does not matter, as long as there is enough of it. -/
theorem varintGo_eq_of_le (f g : Nat) {n : Nat} (hf : n ≤ f) (hg : n ≤ g) :
    varintGo f n = varintGo g n := by
  induction f generalizing g n with
  | zero =>
    obtain rfl : n = 0 := by omega
    cases g <;> simp [varintGo]
  | succ f ih =>
    cases g with
    | zero =>
      obtain rfl : n = 0 := by omega
      simp [varintGo]
    | succ g =>
      simp only [varintGo]
      split
      · rfl
      · rw [ih g (by omega) (by omega)]

theorem varint_of_lt {n : Nat} (h : n < 128) : varint n = [UInt8.ofNat n] := by
  unfold varint
  cases n <;> simp [varintGo, h]

/-- From 128 on the lowest seven bits go first, with the bit that says that more follows. -/
theorem varint_of_le {n : Nat} (h : 128 ≤ n) :
    varint n = UInt8.ofNat (n % 128 + 128) :: varint (n / 128) := by
  obtain ⟨m, rfl⟩ : ∃ m, n = m + 1 := ⟨n - 1, by omega⟩
  rw [varint, varintGo, if_neg (by omega)]
  rw [varintGo_eq_of_le m ((m + 1) / 128) (by omega) (Nat.le_refl _)]
  rfl

/-- No varint is the beginning of another: the last byte is the only one below 128. -/
theorem varint_prefixFree : PrefixFree varint := by
  intro a
  induction a using Nat.strongRecOn with
  | ind a ih =>
    intro b rest rest' h
    by_cases ha : a < 128 <;> by_cases hb : b < 128
    · rw [varint_of_lt ha, varint_of_lt hb] at h
      simp only [List.cons_append, List.nil_append, List.cons.injEq] at h
      have := congrArg UInt8.toNat h.1
      simp only [UInt8.toNat_ofNat'] at this
      exact ⟨by omega, h.2⟩
    · -- one stops where the other goes on: the first bytes differ in the top bit
      rw [varint_of_lt ha, varint_of_le (by omega)] at h
      have := congrArg UInt8.toNat (List.cons.inj h).1
      simp only [UInt8.toNat_ofNat'] at this
      omega
    · rw [varint_of_le (by omega), varint_of_lt hb] at h
      have := congrArg UInt8.toNat (List.cons.inj h).1
      simp only [UInt8.toNat_ofNat'] at this
      omega
    · rw [varint_of_le (by omega), varint_of_le (n := b) (by omega)] at h
      simp only [List.cons_append, List.cons.injEq] at h
      have hlow := congrArg UInt8.toNat h.1
      simp only [UInt8.toNat_ofNat'] at hlow
      obtain ⟨hhigh, hrest⟩ := ih (a / 128) (by omega) h.2
      exact ⟨by omega, hrest⟩

/-- A varint takes a byte for every seven bits. -/
theorem length_varint_le {k n : Nat} (hk : 0 < k) (h : n < 128 ^ k) : (varint n).length ≤ k := by
  induction k generalizing n with
  | zero => omega
  | succ k ih =>
    by_cases hn : n < 128
    · rw [varint_of_lt hn]
      simp
    · rw [varint_of_le (by omega), List.length_cons]
      have hk' : 0 < k := by
        rcases Nat.eq_zero_or_pos k with rfl | hpos
        · simp at h
          omega
        · exact hpos
      have := ih hk' (n := n / 128) (by
        rw [Nat.div_lt_iff_lt_mul (by decide)]
        rwa [Nat.pow_succ] at h)
      omega

/-! ## Byte strings, booleans, sequences, enum variants -/

/-- A length-prefixed byte string. -/
def bytes (data : List UInt8) : List UInt8 := varint data.length ++ data

/-- Bytes behind their length: the length says where they end. -/
theorem bytes_prefixFree : PrefixFree bytes := by
  intro a b rest rest' h
  simp only [bytes, List.append_assoc] at h
  obtain ⟨hlen, hdata⟩ := varint_prefixFree h
  obtain ⟨hab, hrest⟩ := List.append_inj hdata hlen
  exact ⟨hab, hrest⟩

/-- They take at most the bytes of their length more. -/
theorem length_bytes_le {k n : Nat} {data : List UInt8} (hk : 0 < k) (hn : n < 128 ^ k)
    (h : data.length ≤ n) : (bytes data).length ≤ k + n := by
  have := length_varint_le hk (n := data.length) (by omega)
  simp only [bytes, List.length_append]
  omega

/-- A byte string is not longer than its encoding. -/
theorem length_le_bytes (data : List UInt8) : data.length ≤ (bytes data).length := by
  rw [bytes, List.length_append]
  omega

/-- One byte, `0` or `1`. -/
def bool (b : Bool) : List UInt8 := [if b then 1 else 0]

theorem bool_prefixFree : PrefixFree bool := by
  intro a b rest rest' h
  cases a <;> cases b <;> simp_all [bool]

@[simp] theorem length_bool (b : Bool) : (bool b).length = 1 := rfl

/-- A length-prefixed sequence. -/
def seq {α : Type} (enc : α → List UInt8) (xs : List α) : List UInt8 :=
  varint xs.length ++ xs.flatMap enc

/-- Equally many prefix-free encodings in a row can be cut apart in one way only. -/
theorem flatMap_prefixFree {α : Type} {enc : α → List UInt8} (henc : PrefixFree enc)
    {xs ys : List α} {rest rest' : List UInt8} (hlen : xs.length = ys.length)
    (h : xs.flatMap enc ++ rest = ys.flatMap enc ++ rest') : xs = ys ∧ rest = rest' := by
  induction xs generalizing ys with
  | nil =>
    obtain rfl : ys = [] := List.eq_nil_of_length_eq_zero hlen.symm
    exact ⟨rfl, by simpa using h⟩
  | cons x xs ih =>
    cases ys with
    | nil => simp at hlen
    | cons y ys =>
      simp only [List.flatMap_cons, List.append_assoc] at h
      obtain ⟨rfl, htail⟩ := henc h
      obtain ⟨rfl, hrest⟩ := ih (by simpa using hlen) htail
      exact ⟨rfl, hrest⟩

/-- A sequence behind its length, if the encoding of the elements is prefix-free. -/
theorem seq_prefixFree {α : Type} {enc : α → List UInt8} (henc : PrefixFree enc) :
    PrefixFree (seq enc) := by
  intro xs ys rest rest' h
  simp only [seq, List.append_assoc] at h
  obtain ⟨hlen, hbody⟩ := varint_prefixFree h
  exact flatMap_prefixFree henc hlen hbody

/-- A sequence is as long as its elements together. -/
theorem length_flatMap_le {α : Type} {enc : α → List UInt8} {xs : List α} {n : Nat}
    (h : ∀ x ∈ xs, (enc x).length ≤ n) : (xs.flatMap enc).length ≤ xs.length * n := by
  induction xs with
  | nil => simp
  | cons x xs ih =>
    have hx := h x List.mem_cons_self
    have hxs := ih fun y hy => h y (List.mem_cons_of_mem x hy)
    simp only [List.flatMap_cons, List.length_append, List.length_cons]
    rw [Nat.succ_mul]
    omega

/-- A sequence of at most `m` elements of at most `n` bytes, its count fitting `k` bytes. -/
theorem length_seq_le {α : Type} {enc : α → List UInt8} {xs : List α} {k m n : Nat}
    (hk : 0 < k) (hm : m < 128 ^ k) (hlen : xs.length ≤ m)
    (h : ∀ x ∈ xs, (enc x).length ≤ n) : (seq enc xs).length ≤ k + m * n := by
  have hcount := length_varint_le hk (n := xs.length) (by omega)
  have hbody := length_flatMap_le h
  have hmul : xs.length * n ≤ m * n := Nat.mul_le_mul_right n hlen
  simp only [seq, List.length_append]
  omega

/-- An element takes no more than the sequence. -/
theorem length_mem_le_seq {α : Type} {enc : α → List UInt8} {xs : List α} {x : α} (hx : x ∈ xs) :
    (enc x).length ≤ (seq enc xs).length := by
  have hsub : (enc x).Sublist (xs.flatMap enc) :=
    List.sublist_flatten_of_mem (List.mem_map_of_mem hx)
  have hle := hsub.length_le
  rw [seq, List.length_append]
  omega

/-- A sequence of elements that take a byte at least is not longer than its encoding. -/
theorem length_le_seq {α : Type} {enc : α → List UInt8} {xs : List α}
    (h : ∀ x ∈ xs, 1 ≤ (enc x).length) : xs.length ≤ (seq enc xs).length := by
  have hbody : xs.length ≤ (xs.flatMap enc).length := by
    induction xs with
    | nil => exact Nat.le_refl 0
    | cons x xs ih =>
      have hx := h x List.mem_cons_self
      have hxs := ih fun y hy => h y (List.mem_cons_of_mem x hy)
      rw [List.flatMap_cons, List.length_append, List.length_cons]
      omega
  rw [seq, List.length_append]
  omega

/-- An enum variant: its index, then the encoding of its fields. -/
def variant (index : Nat) (fields : List UInt8) : List UInt8 := varint index ++ fields

/-- Variants of different indices never meet. -/
theorem variant_cut {index index' : Nat} {fields fields' rest rest' : List UInt8}
    (h : variant index fields ++ rest = variant index' fields' ++ rest') :
    index = index' ∧ fields ++ rest = fields' ++ rest' := by
  simp only [variant, List.append_assoc] at h
  exact varint_prefixFree h

/-- The fields take no more than the variant. -/
theorem length_le_variant (index : Nat) (fields : List UInt8) :
    fields.length ≤ (variant index fields).length := by
  rw [variant, List.length_append]
  omega

/-- With fewer than 128 variants the index takes one byte. -/
theorem length_variant {index : Nat} (h : index < 128) (fields : List UInt8) :
    (variant index fields).length = 1 + fields.length := by
  simp [variant, varint_of_lt h]
  omega

end Postcard

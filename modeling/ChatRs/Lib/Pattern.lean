import Mathlib.Data.List.Nodup

/-!
# Equality patterns

What an observer of fresh values can tell of them is which are equal. Two lists have the same
pattern when they are equal and different in the same places; a constant list and a list
without repetitions have it only if there is nothing to compare (`constant_nodup_iff`).
-/

/-- The two lists are equal and different in the same places. -/
def SamePattern {α β : Type} (xs : List α) (ys : List β) : Prop :=
  ∀ i j : Nat, xs[i]? = xs[j]? ↔ ys[i]? = ys[j]?

namespace SamePattern

variable {α β : Type} {xs : List α} {ys : List β}

theorem symm (h : SamePattern xs ys) : SamePattern ys xs := fun i j => (h i j).symm

theorem length_le (h : SamePattern xs ys) : ys.length ≤ xs.length := by
  by_contra hlt
  have hlt : xs.length < ys.length := Nat.lt_of_not_le hlt
  -- both places are past the end of the first list, but not of the second
  have hnone : ys[xs.length]? = ys[ys.length]? := by
    rw [← h, List.getElem?_eq_none (Nat.le_refl _), List.getElem?_eq_none (Nat.le_of_lt hlt)]
  rw [List.getElem?_eq_none (Nat.le_refl _), List.getElem?_eq_none_iff] at hnone
  omega

theorem length_eq (h : SamePattern xs ys) : xs.length = ys.length :=
  Nat.le_antisymm h.symm.length_le h.length_le

theorem nodup (h : SamePattern xs ys) (hys : ys.Nodup) : xs.Nodup := by
  rw [List.nodup_iff_getElem?_ne_getElem?] at hys ⊢
  intro i j hij hj heq
  exact hys i j hij (h.length_eq ▸ hj) ((h i j).mp heq)

/-- Two lists of the same length, with one element at most, have the same pattern. -/
theorem of_length_le_one (hlen : xs.length = ys.length) (h : xs.length ≤ 1) :
    SamePattern xs ys := by
  match xs, ys, hlen with
  | [], [], _ =>
    intro i j
    simp
  | [x], [y], _ =>
    intro i j
    cases i <;> cases j <;> simp
  | _ :: _ :: _, _, _ => simp at h

/-- **A constant list and a list without repetitions** look alike only up to length one. -/
theorem constant_nodup_iff {a : α} (hxs : ∀ x ∈ xs, x = a) (hys : ys.Nodup)
    (hlen : xs.length = ys.length) : SamePattern xs ys ↔ xs.length ≤ 1 := by
  constructor
  · intro h
    have hnodup := h.nodup hys
    rw [List.eq_replicate_of_mem hxs] at hnodup
    exact List.nodup_replicate.mp hnodup
  · exact of_length_le_one hlen

end SamePattern

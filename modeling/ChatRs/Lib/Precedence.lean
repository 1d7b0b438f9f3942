import Mathlib.Data.List.Pairwise
import Mathlib.Data.List.Basic

/-!
# Who comes first in a list

`x` precedes `y` in a list when it stands before `y` if both are there at all, and nowhere
after it. Several lists agree on the order of two items when the one precedes the other in each
of them.
-/

/-- Where both are in the list, `x` stands before `y` and not the other way round. -/
def Precedes {α : Type} (x y : α) (xs : List α) : Prop :=
  x ∈ xs → y ∈ xs → [x, y].Sublist xs ∧ ¬ [y, x].Sublist xs

namespace Precedes

variable {α : Type} {x y : α} {xs ys : List α}

/-- Two different members stand in one order or in the other. -/
theorem sublist_or (hne : x ≠ y) (hx : x ∈ xs) (hy : y ∈ xs) :
    [x, y].Sublist xs ∨ [y, x].Sublist xs := by
  induction xs with
  | nil => cases hx
  | cons z xs ih =>
    rcases List.mem_cons.mp hx with rfl | hxs
    · left
      have hys : y ∈ xs := (List.mem_cons.mp hy).resolve_left (Ne.symm hne)
      exact (List.singleton_sublist.mpr hys).cons_cons x
    · rcases List.mem_cons.mp hy with rfl | hys
      · right
        exact (List.singleton_sublist.mpr hxs).cons_cons y
      · exact (ih hxs hys).imp (fun h => h.cons z) fun h => h.cons z

/-- Two elements of a list without repetitions stand in one order if they do not stand in the
other. -/
theorem of_not_sublist (hne : x ≠ y) (h : ¬ [y, x].Sublist xs) : Precedes x y xs :=
  fun hx hy => ⟨(sublist_or hne hx hy).resolve_right h, h⟩

theorem not_sublist (h : Precedes x y xs) : ¬ [y, x].Sublist xs := by
  intro hsub
  have hy : y ∈ xs := hsub.subset List.mem_cons_self
  have hx : x ∈ xs := hsub.subset (List.mem_cons_of_mem y (List.mem_singleton_self x))
  exact (h hx hy).2 hsub

theorem of_sublist (hne : x ≠ y) (h : Precedes x y ys) (hsub : xs.Sublist ys) :
    Precedes x y xs :=
  of_not_sublist hne fun hback => h.not_sublist (hback.trans hsub)

/-- The first is not in the second part of the list, the second not in the first. -/
theorem append (hne : x ≠ y) (hx : x ∉ ys) (hy : y ∉ xs) : Precedes x y (xs ++ ys) := by
  refine of_not_sublist hne fun hsub => ?_
  obtain ⟨as, bs, heq, has, hbs⟩ := List.sublist_append_iff.mp hsub
  cases as with
  | nil =>
    rw [List.nil_append] at heq
    rw [← heq] at hbs
    exact hx (hbs.subset (List.mem_cons_of_mem y (List.mem_singleton_self x)))
  | cons a as =>
    have hhead : y = a := (List.cons.inj heq).1
    rw [hhead] at hy
    exact hy (has.subset List.mem_cons_self)

/-- In a list that is ordered by a relation that does not hold the other way round. -/
theorem of_pairwise {r : α → α → Prop} (h : xs.Pairwise r) (hne : x ≠ y) (hback : ¬ r y x) :
    Precedes x y xs := by
  refine of_not_sublist hne fun hsub => ?_
  exact hback (List.pairwise_iff_forall_sublist.mp h hsub)

end Precedes

import Mathlib.Data.List.DropRight
import Mathlib.Data.List.ReduceOption

/-!
# Bounded ring buffers

A ring of capacity `cap` is a list that drops its oldest element when a push finds it full.
Against the unbounded list of everything pushed it is exactly the last `cap` elements
(`push_rtake`). With wipes among the pushes it is the last `cap` elements of what was pushed
since the last wipe (`foldl_act`).
-/

namespace Ring

variable {α : Type}

/-- Pushes at the back; a full ring drops its front first. -/
def push (cap : Nat) (ring : List α) (x : α) : List α :=
  (if ring.length = cap then ring.tail else ring) ++ [x]

/-- **The ring is a window on the list of all pushes.** Pushing onto the last `cap` elements
of `xs` gives the last `cap` elements of `xs ++ [x]`. -/
theorem push_rtake {cap : Nat} (hcap : 0 < cap) (xs : List α) (x : α) :
    push cap (xs.rtake cap) x = (xs ++ [x]).rtake cap := by
  unfold push List.rtake
  simp only [List.length_drop, List.length_append, List.length_singleton, List.tail_drop]
  by_cases h : cap ≤ xs.length
  · -- full: the window moves on by one
    rw [if_pos (by omega), List.drop_append_of_le_length (by omega)]
    congr 2
    omega
  · -- not full yet: nothing is dropped before or after
    rw [if_neg (by omega), Nat.sub_eq_zero_of_le (by omega), Nat.sub_eq_zero_of_le (by omega)]
    simp

/-! ## Pushes and wipes

A list of operations, `some x` for a push of `x` and `none` for a wipe.
-/

def act (cap : Nat) (ring : List α) : Option α → List α
  | some x => push cap ring x
  | none => []

/-- What was pushed after the last wipe. -/
def sinceWipe (ops : List (Option α)) : List α := (ops.rtakeWhile Option.isSome).reduceOption

@[simp] theorem sinceWipe_push (ops : List (Option α)) (x : α) :
    sinceWipe (ops ++ [some x]) = sinceWipe ops ++ [x] := by
  rw [sinceWipe, List.rtakeWhile_concat_pos _ _ _ rfl, List.reduceOption_append]
  rfl

@[simp] theorem sinceWipe_wipe (ops : List (Option α)) : sinceWipe (ops ++ [none]) = [] := by
  rw [sinceWipe, List.rtakeWhile_concat_neg _ _ _ (by simp)]
  rfl

/-- **A wiped ring is a window on the pushes since the last wipe.** -/
theorem foldl_act {cap : Nat} (hcap : 0 < cap) (ops : List (Option α)) :
    ops.foldl (act cap) [] = (sinceWipe ops).rtake cap := by
  induction ops using List.reverseRecOn with
  | nil => exact List.drop_nil.symm
  | append_singleton ops op ih =>
    rw [List.foldl_append, ih]
    cases op with
    | some x =>
      rw [sinceWipe_push, ← push_rtake hcap]
      rfl
    | none =>
      rw [sinceWipe_wipe, show ([] : List α).rtake cap = [] from List.drop_nil]
      rfl

theorem sinceWipe_sublist (ops : List (Option α)) : (sinceWipe ops).Sublist ops.reduceOption :=
  (List.rtakeWhile_suffix _ ops).sublist.filterMap _

theorem mem_of_mem_sinceWipe {ops : List (Option α)} {x : α} (h : x ∈ sinceWipe ops) :
    some x ∈ ops :=
  (List.rtakeWhile_suffix _ ops).subset (List.reduceOption_mem_iff.mp h)

end Ring

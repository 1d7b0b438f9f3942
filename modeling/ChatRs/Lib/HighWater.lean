import Mathlib.Data.List.Pairwise
import Mathlib.Data.List.Nodup
import Mathlib.Data.List.Sort
import Mathlib.Order.MinMax
import Mathlib.Logic.Function.Basic

/-!
# High-water marks: a replay filter over per-key counters

Items carry a key and a value. For every key the filter remembers a *level*; an item is
admitted when its value lies strictly above the level of its key, and offering it raises the
level to at least that value. Everything is over an arbitrary key type and an arbitrary
linear order of values.

* **`levels`**: the levels after a list of offers (`levels_iff` reads them off the list);
* **`admitted`**: the items that pass, in order;
* **`admitted_increasing`**: per key, what passes is strictly increasing;
* **`replayFree_iff`**: strictly increasing per key implies no pair of key and value twice;
* **`admitted_eq_filter`**: on a list that is already increasing per key the filter only
  drops what is not above the initial level;
* **`sublist_of_ordered`**, **`split_at_level`**: lists of one key, in the order of their values.
-/

namespace HighWater

variable {ι κ υ : Type} [DecidableEq κ] [LinearOrder υ]

/-- Offering an item of key `k` and value `v` raises the level of `k` to at least `v`. -/
def raise (level : κ → υ) (k : κ) (v : υ) : κ → υ :=
  Function.update level k (max (level k) v)

variable (key : ι → κ) (val : ι → υ)

/-- The levels after offering the items of a list, first to last. -/
def levels (level : κ → υ) : List ι → κ → υ
  | [] => level
  | x :: xs => levels (raise level (key x) (val x)) xs

/-- The items of a list that are strictly above their key's level when they are offered. -/
def admitted (level : κ → υ) : List ι → List ι
  | [] => []
  | x :: xs =>
    let rest := admitted (raise level (key x) (val x)) xs
    if level (key x) < val x then x :: rest else rest

/-- Values of equal keys stand in strictly increasing order. -/
def Increasing (xs : List ι) : Prop :=
  xs.Pairwise fun a b => key a = key b → val a < val b

/-- No pair of key and value stands twice in the list, and per key the values increase. -/
def ReplayFree (xs : List ι) : Prop :=
  (xs.map fun x => (key x, val x)).Nodup ∧ Increasing key val xs

variable {key val}

omit [DecidableEq κ] in
theorem replayFree_iff (xs : List ι) : ReplayFree key val xs ↔ Increasing key val xs := by
  refine ⟨And.right, fun hinc => ⟨List.pairwise_map.mpr ?_, hinc⟩⟩
  refine hinc.imp fun {x y} hlt heq => ?_
  rw [Prod.mk.injEq] at heq
  exact absurd heq.2 (hlt heq.1).ne

omit [DecidableEq κ] in
/-- In an increasing list an item is known by its key and value. -/
theorem Increasing.eq_of_key_val {xs : List ι} (h : Increasing key val xs) {x y : ι}
    (hx : x ∈ xs) (hy : y ∈ xs) (hk : key x = key y) (hv : val x = val y) : x = y :=
  List.inj_on_of_nodup_map ((replayFree_iff xs).mpr h).1 hx hy (Prod.ext hk hv)

/-- Increasing is a matter of each key's own sublist. -/
theorem increasing_iff_filter (xs : List ι) :
    Increasing key val xs
      ↔ ∀ k, (xs.filter fun x => key x = k).Pairwise fun a b => val a < val b := by
  simp only [Increasing, List.pairwise_filter, decide_eq_true_eq]
  constructor
  · exact fun h k => h.imp fun hlt hx hy => hlt (hx.trans hy.symm)
  · intro h
    rw [List.pairwise_iff_forall_sublist]
    intro a b hsub hk
    exact (List.pairwise_iff_forall_sublist.mp (h (key b))) hsub hk rfl

/-- A list whose sublist for each key is part of another's is increasing with it. -/
theorem Increasing.of_filter_sublist {xs ys : List ι} (hys : Increasing key val ys)
    (h : ∀ k, (xs.filter fun x => key x = k).Sublist (ys.filter fun y => key y = k)) :
    Increasing key val xs :=
  (increasing_iff_filter xs).mpr fun k => ((increasing_iff_filter ys).mp hys k).sublist (h k)

theorem le_raise (level : κ → υ) (k k' : κ) (v : υ) : level k' ≤ raise level k v k' := by
  by_cases h : k' = k
  · subst h
    simp [raise]
  · simp [raise, h]

@[simp] theorem raise_self (level : κ → υ) (k : κ) (v : υ) :
    raise level k v k = max (level k) v := by
  simp [raise]

theorem raise_of_ne (level : κ → υ) {k k' : κ} (v : υ) (h : k' ≠ k) :
    raise level k v k' = level k' := by
  simp [raise, h]

/-- What holds of a maximum exactly if it holds of both sides is read off the start level and
the list. -/
theorem levels_iff {P : υ → Prop} (hmax : ∀ a b, P (max a b) ↔ P a ∧ P b) (level : κ → υ)
    (xs : List ι) (k : κ) :
    P (levels key val level xs k) ↔ P (level k) ∧ ∀ x ∈ xs, key x = k → P (val x) := by
  induction xs generalizing level with
  | nil => simp [levels]
  | cons x xs ih =>
    rw [levels, ih]
    by_cases h : key x = k
    · subst h
      simp [hmax, and_assoc]
    · simp [raise_of_ne _ _ (Ne.symm h), h]

/-- An upper bound on a level after a list of offers. -/
theorem levels_le_iff (level : κ → υ) (xs : List ι) (k : κ) (b : υ) :
    levels key val level xs k ≤ b ↔ level k ≤ b ∧ ∀ x ∈ xs, key x = k → val x ≤ b :=
  levels_iff (P := (· ≤ b)) (fun _ _ => max_le_iff) level xs k

/-- A strict upper bound. -/
theorem levels_lt_iff (level : κ → υ) (xs : List ι) (k : κ) (b : υ) :
    levels key val level xs k < b ↔ level k < b ∧ ∀ x ∈ xs, key x = k → val x < b :=
  levels_iff (P := (· < b)) (fun _ _ => max_lt_iff) level xs k

theorem val_le_levels (level : κ → υ) {xs : List ι} {x : ι} (hx : x ∈ xs) :
    val x ≤ levels key val level xs (key x) := by
  have h : levels key val level xs (key x) ≤ levels key val level xs (key x) := le_rfl
  rw [levels_le_iff] at h
  exact h.2 x hx rfl

theorem admitted_append (level : κ → υ) (xs ys : List ι) :
    admitted key val level (xs ++ ys)
      = admitted key val level xs ++ admitted key val (levels key val level xs) ys := by
  induction xs generalizing level with
  | nil => rfl
  | cons x xs ih =>
    simp only [List.cons_append, admitted, levels, ih]
    split <;> rfl

/-- What passes comes from the list, and lies above the initial level of its key. -/
theorem of_mem_admitted {level : κ → υ} {xs : List ι} {x : ι}
    (h : x ∈ admitted key val level xs) : x ∈ xs ∧ level (key x) < val x := by
  induction xs generalizing level with
  | nil => simp [admitted] at h
  | cons y ys ih =>
    simp only [admitted] at h
    have hrest (hmem : x ∈ admitted key val (raise level (key y) (val y)) ys) :
        x ∈ y :: ys ∧ level (key x) < val x := by
      obtain ⟨hin, hlt⟩ := ih hmem
      exact ⟨List.mem_cons_of_mem y hin, lt_of_le_of_lt (le_raise level _ _ _) hlt⟩
    split at h
    · rename_i hy
      rcases List.mem_cons.mp h with rfl | hmem
      · exact ⟨List.mem_cons_self, hy⟩
      · exact hrest hmem
    · exact hrest h

/-- **What passes is strictly increasing per key**, whatever is offered. -/
theorem admitted_increasing (level : κ → υ) (xs : List ι) :
    Increasing key val (admitted key val level xs) := by
  induction xs generalizing level with
  | nil => exact List.Pairwise.nil
  | cons x xs ih =>
    simp only [admitted]
    split
    · refine List.pairwise_cons.mpr ⟨fun y hy hk => ?_, ih _⟩
      -- the rest is filtered against a level that is already at least `val x`
      have hlt := (of_mem_admitted hy).2
      rw [← hk, raise_self] at hlt
      exact lt_of_le_of_lt (le_max_right _ _) hlt
    · exact ih _

/-- What passes after a list was offered lies above everything in that list. -/
theorem admitted_above (level : κ → υ) {xs ys : List ι} {x y : ι} (hx : x ∈ xs)
    (hy : y ∈ admitted key val (levels key val level xs) ys) (hk : key x = key y) :
    val x < val y := by
  have hlt := (of_mem_admitted hy).2
  rw [← hk] at hlt
  exact lt_of_le_of_lt (val_le_levels level hx) hlt

/-- On a list that is increasing per key, only the initial level matters. -/
theorem admitted_eq_filter (level : κ → υ) {xs : List ι} (hinc : Increasing key val xs) :
    admitted key val level xs = xs.filter fun x => level (key x) < val x := by
  induction xs generalizing level with
  | nil => rfl
  | cons x xs ih =>
    obtain ⟨hhead, htail⟩ := List.pairwise_cons.mp hinc
    have hrest : admitted key val (raise level (key x) (val x)) xs
        = xs.filter fun y => level (key y) < val y := by
      rw [ih _ htail]
      refine List.filter_congr fun y hy => ?_
      by_cases hk : key x = key y
      · have hlt : val x < val y := hhead y hy hk
        simp [← hk, hlt]
      · simp [raise_of_ne _ _ (Ne.symm hk)]
    simp only [admitted, hrest, List.filter_cons, decide_eq_true_eq]

/-! ## One key -/

variable (val)

/-- A list in order that holds elements of a list in order is a part of it. -/
theorem sublist_of_ordered {xs ys : List ι} (hxs : xs.Pairwise fun x y => val x < val y)
    (hys : ys.Pairwise fun x y => val x < val y) (hsubset : xs ⊆ ys) : xs.Sublist ys := by
  have hnodup : xs.Nodup := hxs.imp fun hlt heq => hlt.ne (congrArg val heq)
  have hasymm : Std.Antisymm fun x y : ι => val x < val y :=
    ⟨fun x y hlt hgt => absurd hgt hlt.asymm⟩
  exact List.sublist_of_subperm_of_pairwise (List.subperm_of_subset hnodup hsubset) hxs hys

/-- A list in order falls into what a level covers and what lies above it. -/
theorem split_at_level {xs : List ι} (h : xs.Pairwise fun x y => val x < val y) (level : υ) :
    ∃ before after, xs = before ++ after ∧ (∀ x ∈ before, val x ≤ level)
      ∧ ∀ x ∈ after, level < val x := by
  induction h with
  | nil => exact ⟨[], [], rfl, by simp, by simp⟩
  | @cons x xs hlt _ ih =>
    by_cases hx : val x ≤ level
    · obtain ⟨before, after, rfl, hbefore, hafter⟩ := ih
      exact ⟨x :: before, after, rfl, List.forall_mem_cons.mpr ⟨hx, hbefore⟩, hafter⟩
    · refine ⟨[], x :: xs, rfl, by simp, List.forall_mem_cons.mpr ⟨not_le.mp hx, ?_⟩⟩
      intro y hy
      exact (not_le.mp hx).trans (hlt y hy)

end HighWater

import ChatRs.Lib.Ring
import Mathlib.Data.List.Nodup

/-!
# Where the elements of a ring come from

A ring under edits: pushes, wipes, and passes that drop some elements and change the others in
place. A list of events says which edits were made; every element that is still there goes back to
one push, and is named by the place of that push in the list, however it has been changed since.

* **`entries`**: the ring with the place of arrival beside every element;
* **`entries_map_snd`**: without the places it is the ring;
* **`entries_pairwise`**: the ring is in the order of arrival, so a place names one element;
* **`mem_entries_induction`**: what holds of an element as it arrives, and is kept by what happens
  while it stays, holds of it.
-/

namespace Ring

variable {α ε : Type}

inductive Edit (α : Type) where
  | push (x : α)
  | wipe
  | retain (keep : α → Bool) (change : α → α)

namespace Edit

def apply (cap : Nat) (ring : List α) : Edit α → List α
  | push x => Ring.push cap ring x
  | wipe => []
  | retain keep change => (ring.filter keep).map change

/-- The same edit on elements that carry a place; what is pushed gets the place `n`. -/
def tagged (n : Nat) : Edit α → Edit (Nat × α)
  | push x => push (n, x)
  | wipe => wipe
  | retain keep change => retain (fun e => keep e.2) (Prod.map id change)

end Edit

theorem push_map {β : Type} (f : α → β) (cap : Nat) (ring : List α) (x : α) :
    (push cap ring x).map f = push cap (ring.map f) (f x) := by
  simp only [push, List.map_append, List.length_map, List.map_singleton]
  split
  · rw [List.map_tail]
  · rfl

theorem length_push {cap : Nat} (hcap : 0 < cap) {ring : List α} (h : ring.length ≤ cap)
    (x : α) : (push cap ring x).length = min (ring.length + 1) cap := by
  simp only [push, List.length_append, List.length_singleton]
  split
  · rw [List.length_tail]
    omega
  · omega

/-- What is in a ring after a push was there before, or is what was pushed. -/
theorem mem_push {cap : Nat} {ring : List α} {x y : α} (h : y ∈ push cap ring x) :
    y ∈ ring ∨ y = x := by
  rcases List.mem_append.mp h with h | h
  · left
    split at h
    · exact List.mem_of_mem_tail h
    · exact h
  · exact .inr (List.mem_singleton.mp h)

theorem Edit.map_apply_tagged (cap n : Nat) (entries : List (Nat × α)) (e : Edit α) :
    ((e.tagged n).apply cap entries).map Prod.snd = e.apply cap (entries.map Prod.snd) := by
  cases e with
  | push x => exact push_map Prod.snd cap entries (n, x)
  | wipe => rfl
  | retain keep change =>
    simp only [tagged, apply, List.map_map, List.filter_map]
    rfl

variable (cap : Nat) (edit : ε → Edit α)

/-- The ring after a list of events, with the place of arrival beside every element. -/
def entries (past : List ε) : List (Nat × α) :=
  past.zipIdx.foldl (fun es p => ((edit p.1).tagged p.2).apply cap es) []

theorem entries_concat (past : List ε) (ev : ε) :
    entries cap edit (past ++ [ev])
      = ((edit ev).tagged past.length).apply cap (entries cap edit past) := by
  simp only [entries, List.zipIdx_append, List.foldl_append, Nat.zero_add]
  rfl

/-- **Without the places it is the ring.** -/
theorem entries_map_snd (past : List ε) :
    (entries cap edit past).map Prod.snd = (past.map edit).foldl (Edit.apply cap) [] := by
  induction past using List.reverseRecOn with
  | nil => rfl
  | append_singleton past ev ih =>
    rw [entries_concat, Edit.map_apply_tagged, ih, List.map_append, List.foldl_append]
    rfl

/-- **No edit overfills a ring.** -/
theorem Edit.length_apply_le (hcap : 0 < cap) {ring : List α} (h : ring.length ≤ cap)
    (e : Edit α) : (e.apply cap ring).length ≤ cap := by
  cases e with
  | push x => exact (length_push hcap h x).trans_le (Nat.min_le_right _ _)
  | wipe => exact Nat.zero_le cap
  | retain keep change =>
    rw [apply, List.length_map]
    exact (List.length_filter_le _ _).trans h

theorem length_entries_le (hcap : 0 < cap) (past : List ε) :
    (entries cap edit past).length ≤ cap := by
  induction past using List.reverseRecOn with
  | nil => exact Nat.zero_le cap
  | append_singleton past ev ih =>
    rw [entries_concat]
    exact Edit.length_apply_le cap hcap ih _

variable {cap edit}

/-- **The rule for elements.** What holds of an element as it is pushed, and is kept by the pushes
after it and by the passes it survives, holds of it. -/
theorem mem_entries_induction {P : List ε → Nat → α → Prop}
    (arrive : ∀ past ev x, edit ev = .push x → P (past ++ [ev]) past.length x)
    (stay : ∀ past ev x y n, edit ev = .push y → (n, x) ∈ entries cap edit past → P past n x →
      P (past ++ [ev]) n x)
    (survive : ∀ past ev keep change x n, edit ev = .retain keep change → keep x = true →
      (n, x) ∈ entries cap edit past → P past n x → P (past ++ [ev]) n (change x))
    {past : List ε} {n : Nat} {x : α} (h : (n, x) ∈ entries cap edit past) : P past n x := by
  induction past using List.reverseRecOn generalizing n x with
  | nil => cases h
  | append_singleton past ev ih =>
    rw [entries_concat] at h
    cases hev : edit ev with
    | push y =>
      rw [hev] at h
      rcases mem_push h with h | h
      · exact stay past ev x y n hev h (ih h)
      · obtain ⟨rfl, rfl⟩ := Prod.mk.inj h
        exact arrive past ev x hev
    | wipe =>
      rw [hev] at h
      cases h
    | retain keep change =>
      rw [hev] at h
      obtain ⟨⟨m, y⟩, hmem, heq⟩ := List.mem_map.mp h
      obtain ⟨rfl, rfl⟩ := Prod.mk.inj heq
      obtain ⟨hmem, hkeep⟩ := List.mem_filter.mp hmem
      exact survive past ev keep change y m hev hkeep hmem (ih hmem)

/-- An entry comes from an event of the past. -/
theorem lt_length_of_mem_entries {past : List ε} {n : Nat} {x : α}
    (h : (n, x) ∈ entries cap edit past) : n < past.length := by
  refine mem_entries_induction (P := fun past n _ => n < past.length) ?_ ?_ ?_ h
  · intro past ev x _
    rw [List.length_append]
    exact Nat.lt_succ_self _
  · intro past ev x y n _ _ hlt
    rw [List.length_append]
    exact Nat.lt_succ_of_lt hlt
  · intro past ev keep change x n _ _ _ hlt
    rw [List.length_append]
    exact Nat.lt_succ_of_lt hlt

/-- **The ring is in the order of arrival.** -/
theorem entries_pairwise (past : List ε) :
    (entries cap edit past).Pairwise fun e e' => e.1 < e'.1 := by
  induction past using List.reverseRecOn with
  | nil => exact .nil
  | append_singleton past ev ih =>
    rw [entries_concat]
    cases edit ev with
    | push x =>
      refine List.pairwise_append.mpr ⟨?_, List.pairwise_singleton _ _, ?_⟩
      · split
        · exact ih.sublist (List.tail_sublist _)
        · exact ih
      · intro e hmem e' he'
        rw [List.mem_singleton.mp he']
        have hthere : (e.1, e.2) ∈ entries cap edit past := by
          split at hmem
          · exact List.mem_of_mem_tail hmem
          · exact hmem
        exact lt_length_of_mem_entries hthere
    | wipe => exact .nil
    | retain keep change =>
      exact List.pairwise_map.mpr (ih.sublist List.filter_sublist)

/-- A place names one element. -/
theorem eq_of_mem_entries {past : List ε} {n : Nat} {x y : α}
    (hx : (n, x) ∈ entries cap edit past) (hy : (n, y) ∈ entries cap edit past) : x = y := by
  have hnodup : ((entries cap edit past).map Prod.fst).Nodup :=
    List.pairwise_map.mpr ((entries_pairwise past).imp fun hlt => Nat.ne_of_lt hlt)
  exact congrArg Prod.snd (List.inj_on_of_nodup_map hnodup hx hy rfl)

end Ring

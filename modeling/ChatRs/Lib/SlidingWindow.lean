import Mathlib.Data.List.TakeWhile
import Mathlib.Order.Basic

/-!
# Sliding windows

A limiter that admits at most `max` events in any span of `window`. It keeps the instants of
the events it has admitted in a queue, and forgets from its front those that lie more than
`window` back whenever it looks at it. So the queue is a late, trimmed copy of the list of all
admitted instants:

* **`Tracks`**: what the queue lacks of that list is out of the window already;
* **`Tracks.expire`**, **`Tracks.take`**: forgetting and asking keep this, at any later instant;
* **`Tracks.take_fst`**: so the answer is the one a count over the whole list gives;
* **`Sparse`**: and no span of `window` holds more than `max` admitted instants;
* **`Spaced`**: the same with a minimum gap, for which the last admitted instant is enough;
* **`length_spans_le`**: from one span to any number of them.
-/

namespace SlidingWindow

variable {max window now now' : Nat} {log q : List Nat}

/-! ## The limiter -/

/-- Forgets the instants that lie more than `window` back. -/
def expire (window now : Nat) (q : List Nat) : List Nat := q.dropWhile fun t => now - t > window

/-- Asks for one more event: the answer, and the queue. -/
def take (max window now : Nat) (q : List Nat) : Bool × List Nat :=
  if (expire window now q).length ≥ max then (false, expire window now q)
  else (true, expire window now q ++ [now])

/-- The instants that the window at `now` reaches back to. -/
def recent (window now : Nat) (log : List Nat) : List Nat :=
  log.filter fun t => t ≤ now ∧ now ≤ t + window

/-- The list of the admitted instants after an answer. -/
def record (log : List Nat) (now : Nat) (answer : Bool) : List Nat :=
  if answer then log ++ [now] else log

/-- Calls at instants that do not decrease. -/
def Chronological {α : Type} (calls : List (Nat × α)) : Prop :=
  calls.Pairwise fun a b => a.1 ≤ b.1

theorem chronological_concat {α : Type} {calls : List (Nat × α)} {call : Nat × α} :
    Chronological (calls ++ [call]) ↔ Chronological calls ∧ ∀ c ∈ calls, c.1 ≤ call.1 := by
  unfold Chronological
  rw [List.pairwise_append]
  simp only [List.pairwise_singleton, List.mem_singleton, forall_eq, true_and]

/-- A list of calls has an instant that is not before any of them. -/
theorem exists_end {α : Type} (calls : List (Nat × α)) : ∃ now, ∀ c ∈ calls, c.1 ≤ now := by
  induction calls with
  | nil => exact ⟨0, nofun⟩
  | cons call calls ih =>
    obtain ⟨now, hnow⟩ := ih
    refine ⟨call.1 + now, fun c hc => ?_⟩
    rcases List.mem_cons.mp hc with rfl | hc
    · exact Nat.le_add_right _ _
    · exact (hnow c hc).trans (Nat.le_add_left _ _)

/-! ## What the queue stands for -/

/-- The queue stands for the list `log` of all that was admitted up to `now`. -/
structure Tracks (window now : Nat) (log q : List Nat) : Prop where
  sorted : log.Pairwise (· ≤ ·)
  past : ∀ t ∈ log, t ≤ now
  split : ∃ old, log = old ++ q ∧ ∀ t ∈ old, t + window < now

/-- Nothing admitted, nothing remembered. -/
theorem Tracks.nil : Tracks window now [] [] := ⟨.nil, nofun, [], rfl, nofun⟩

/-- On a sorted queue it is all the same to go by the front and to filter. -/
theorem expire_eq_filter (h : q.Pairwise (· ≤ ·)) :
    expire window now q = q.filter fun t => now ≤ t + window := by
  unfold expire
  induction q with
  | nil => rfl
  | cons t q ih =>
    obtain ⟨hfirst, hrest⟩ := List.pairwise_cons.mp h
    rw [List.dropWhile_cons]
    split
    · rename_i hold
      have hout : ¬ now ≤ t + window := by
        have := of_decide_eq_true hold
        omega
      rw [List.filter_cons_of_neg (by rwa [decide_eq_true_eq])]
      exact ih hrest
    · rename_i hin
      have hnear : now ≤ t + window := by
        have := of_decide_eq_false (Bool.eq_false_iff.mpr hin)
        omega
      refine (List.filter_eq_self.mpr fun u hu => ?_).symm
      have hle : t ≤ u := by
        rcases List.mem_cons.mp hu with rfl | hu
        · exact le_refl _
        · exact hfirst u hu
      exact decide_eq_true (by omega)

namespace Tracks

theorem later (h : Tracks window now log q) (hle : now ≤ now') : Tracks window now' log q := by
  obtain ⟨old, hsplit, hold⟩ := h.split
  refine ⟨h.sorted, fun t ht => (h.past t ht).trans hle, old, hsplit, fun t ht => ?_⟩
  have := hold t ht
  omega

theorem sorted_queue (h : Tracks window now log q) : q.Pairwise (· ≤ ·) := by
  obtain ⟨old, hsplit, _⟩ := h.split
  exact h.sorted.sublist (hsplit ▸ List.sublist_append_right old q)

/-- **Forgetting leaves what is recent**, of all that was ever admitted. -/
theorem expire_eq (h : Tracks window now log q) : expire window now q = recent window now log := by
  rw [expire_eq_filter h.sorted_queue]
  obtain ⟨old, hsplit, hold⟩ := h.split
  have hnone : recent window now old = [] := by
    refine List.filter_eq_nil_iff.mpr fun t ht => ?_
    have := hold t ht
    rw [decide_eq_true_eq]
    omega
  have hrecent : recent window now log = recent window now old ++ recent window now q := by
    rw [hsplit]
    exact List.filter_append ..
  rw [hrecent, hnone, List.nil_append]
  refine List.filter_congr fun t ht => ?_
  have hpast : t ≤ now := h.past t (hsplit ▸ List.mem_append_right old ht)
  simp only [hpast, true_and]

/-- What the front loses is out of the window. -/
theorem expire (h : Tracks window now log q) : Tracks window now log (expire window now q) := by
  obtain ⟨old, hsplit, hold⟩ := h.split
  refine ⟨h.sorted, h.past, old ++ q.takeWhile fun t => now - t > window, ?_, fun t ht => ?_⟩
  · rw [List.append_assoc, SlidingWindow.expire, List.takeWhile_append_dropWhile]
    exact hsplit
  · rcases List.mem_append.mp ht with ht | ht
    · exact hold t ht
    · have hgone := List.mem_takeWhile_imp ht
      rw [decide_eq_true_eq] at hgone
      omega

/-- **The answer is the count over everything admitted.** -/
theorem take_fst (h : Tracks window now log q) :
    (take max window now q).1 = true ↔ (recent window now log).length < max := by
  rw [← h.expire_eq]
  unfold SlidingWindow.take
  split
  · rename_i hfull
    exact ⟨nofun, fun hlt => absurd hlt (Nat.not_lt.mpr hfull)⟩
  · rename_i hfree
    exact ⟨fun _ => Nat.lt_of_not_le hfree, fun _ => rfl⟩

/-- **Asking keeps the queue in step** with what was admitted. -/
theorem take (h : Tracks window now log q) :
    Tracks window now (record log now (take max window now q).1) (take max window now q).2 := by
  unfold SlidingWindow.take record
  split
  · exact h.expire
  · obtain ⟨old, hsplit, hold⟩ := h.expire.split
    refine ⟨?_, ?_, old, ?_, hold⟩
    · refine List.pairwise_append.mpr ⟨h.sorted, List.pairwise_singleton .., ?_⟩
      intro t ht u hu
      rw [List.mem_singleton.mp hu]
      exact h.past t ht
    · intro t ht
      rcases List.mem_append.mp ht with ht | ht
      · exact h.past t ht
      · exact (List.mem_singleton.mp ht).le
    · rw [if_pos rfl, ← List.append_assoc, ← hsplit]

end Tracks

/-- The queue is within its bounds after an answer. -/
theorem length_take_le (hle : q.length ≤ max) :
    (take max window now q).2.length ≤ max := by
  have hexpire : (expire window now q).length ≤ q.length :=
    (List.dropWhile_suffix _).length_le
  unfold take
  split
  · exact hexpire.trans hle
  · rw [List.length_append, List.length_singleton]
    omega

/-! ## Any span of the window -/

/-- The instants between `a` and `a + window`. -/
def within (window a : Nat) (log : List Nat) : List Nat :=
  log.filter fun t => a ≤ t ∧ t ≤ a + window

/-- No closed span of `window` holds more than `max` of the instants. -/
def Sparse (max window : Nat) (log : List Nat) : Prop :=
  ∀ a, (within window a log).length ≤ max

theorem within_concat (a : Nat) :
    within window a (log ++ [now])
      = within window a log ++ if a ≤ now ∧ now ≤ a + window then [now] else [] := by
  simp only [within, List.filter_append, List.filter_cons, List.filter_nil, decide_eq_true_eq]

theorem Sparse.nil : Sparse max window [] := fun _ => Nat.zero_le _

/-- An answer keeps every span within its bounds. -/
theorem Sparse.take (hsparse : Sparse max window log) (h : Tracks window now log q) :
    Sparse max window (record log now (take max window now q).1) := by
  unfold record
  split
  · rename_i hadmitted
    have hfew := h.take_fst.mp hadmitted
    intro a
    rw [within_concat, List.length_append]
    by_cases hspan : a ≤ now ∧ now ≤ a + window
    · -- what shares a span with `now` is recent
      have hlen : (within window a log).length ≤ (recent window now log).length := by
        rw [within, ← List.countP_eq_length_filter, recent, ← List.countP_eq_length_filter]
        refine List.countP_mono_left fun t ht hin => ?_
        have hpast := h.past t ht
        rw [decide_eq_true_eq] at hin ⊢
        omega
      rw [if_pos hspan, List.length_singleton]
      omega
    · rw [if_neg hspan, List.length_nil, Nat.add_zero]
      exact hsparse a
  · exact hsparse

/-! ## A minimum gap -/

/-- Two of the instants are at least `gap` apart. -/
def Spaced (gap : Nat) (log : List Nat) : Prop := log.Pairwise fun t t' => t + gap ≤ t'

/-- **To be clear of the last instant is to be clear of all.** -/
theorem Spaced.clear_iff {gap : Nat} (h : Spaced gap log) (hpast : ∀ t ∈ log, t ≤ now) :
    (log.getLast?.any fun last => now - last < gap) = false ↔ ∀ t ∈ log, t + gap ≤ now := by
  rcases List.eq_nil_or_concat log with rfl | ⟨before, last, rfl⟩
  · exact ⟨fun _ => nofun, fun _ => rfl⟩
  · rw [List.concat_eq_append] at h hpast ⊢
    have hbefore := (List.pairwise_append.mp h).2.2
    have hlast : last ≤ now := hpast last (by simp)
    rw [List.getLast?_concat, Option.any_some, decide_eq_false_iff_not]
    constructor
    · intro hclear t ht
      rcases List.mem_append.mp ht with ht | ht
      · have := hbefore t ht last (List.mem_singleton_self last)
        omega
      · rw [List.mem_singleton.mp ht]
        omega
    · intro hall
      have := hall last (by simp)
      omega

theorem Spaced.concat {gap : Nat} (h : Spaced gap log) (hclear : ∀ t ∈ log, t + gap ≤ now) :
    Spaced gap (log ++ [now]) := by
  refine List.pairwise_append.mpr ⟨h, List.pairwise_singleton .., fun t ht t' ht' => ?_⟩
  rw [List.mem_singleton.mp ht']
  exact hclear t ht

/-! ## Many spans -/

/-- The instants from `a` on, before `b`. -/
def between (a b : Nat) (log : List Nat) : List Nat := log.filter fun t => a ≤ t ∧ t < b

theorem length_between_le (a b b' : Nat) (log : List Nat) :
    (between a b' log).length ≤ (between a b log).length + (between b b' log).length := by
  simp only [between, ← List.countP_eq_length_filter]
  induction log with
  | nil => exact Nat.zero_le _
  | cons t log ih =>
    simp only [List.countP_cons, decide_eq_true_eq]
    split_ifs <;> omega

/-- **From one span to many**: what bounds every span bounds any number of them in a row. -/
theorem length_spans_le {span : Nat} (h : ∀ a, (between a (a + span) log).length ≤ max)
    (a n : Nat) : (between a (a + n * span) log).length ≤ n * max := by
  induction n with
  | zero =>
    have hnone : between a (a + 0 * span) log = [] :=
      List.filter_eq_nil_iff.mpr fun t _ => by rw [decide_eq_true_eq]; omega
    rw [hnone]
    exact Nat.zero_le _
  | succ n ih =>
    have hsplit := length_between_le a (a + n * span) (a + n * span + span) log
    have hlast := h (a + n * span)
    rw [Nat.succ_mul, Nat.succ_mul, ← Nat.add_assoc]
    omega

theorem Sparse.length_between_le (h : Sparse max window log) (a : Nat) :
    (between a (a + window) log).length ≤ max := by
  refine Nat.le_trans ?_ (h a)
  rw [between, within, ← List.countP_eq_length_filter, ← List.countP_eq_length_filter]
  refine List.countP_mono_left fun t _ ht => ?_
  rw [decide_eq_true_eq] at ht ⊢
  exact ⟨ht.1, ht.2.le⟩

/-- What is spaced by a gap comes at most once within it. -/
theorem Spaced.length_between_le {gap : Nat} (h : Spaced gap log) (a : Nat) :
    (between a (a + gap) log).length ≤ 1 := by
  have hspaced : Spaced gap (between a (a + gap) log) := h.sublist List.filter_sublist
  have hin (t : Nat) (ht : t ∈ between a (a + gap) log) : a ≤ t ∧ t < a + gap :=
    of_decide_eq_true (List.mem_filter.mp ht).2
  match hbetween : between a (a + gap) log with
  | [] | [_] => simp
  | t :: t' :: rest =>
    rw [hbetween] at hspaced hin
    have hgap := (List.pairwise_cons.mp hspaced).1 t' List.mem_cons_self
    have hfirst := hin t List.mem_cons_self
    have hsecond := hin t' (List.mem_cons_of_mem _ List.mem_cons_self)
    omega

end SlidingWindow

import Mathlib.Logic.Relation
import Mathlib.Order.RelClasses
import Mathlib.Order.WellFounded

/-!
# Locks that are taken in order

Tasks that hold locks and want others. When every lock has a rank, and a task only wants locks
above all those it holds, then

* no chain of waits comes back to where it started (`not_waitsFor_self`);
* a chain of waits ends with a task that holds a lock and waits for none (`exists_running`).
-/

namespace LockOrder

variable {ι κ α : Type}

/-- Who holds which lock, and who wants which. -/
structure Table (ι κ : Type) where
  Holds : ι → κ → Prop
  Wants : ι → κ → Prop

namespace Table

variable (T : Table ι κ)

/-- A task wants a lock that another one holds, or that it holds itself. -/
def WaitsFor (t u : ι) : Prop := ∃ l, T.Wants t l ∧ T.Holds u l

/-- The lock order. -/
def Ordered [LT α] (rank : κ → α) : Prop :=
  ∀ t h l, T.Holds t h → T.Wants t l → rank h < rank l

variable {T} [Preorder α] {rank : κ → α}

/-- Along a chain of waits the ranks go up. -/
theorem Ordered.rank_le (h : T.Ordered rank) {t u : ι}
    (hchain : Relation.TransGen T.WaitsFor t u) :
    ∃ l l', T.Wants t l ∧ T.Holds u l' ∧ rank l ≤ rank l' := by
  induction hchain with
  | single hwaits =>
    obtain ⟨l, hwants, hholds⟩ := hwaits
    exact ⟨l, l, hwants, hholds, le_refl _⟩
  | tail _ hwaits ih =>
    obtain ⟨l, l', hwants, hholds, hle⟩ := ih
    obtain ⟨m, hwants', hholds'⟩ := hwaits
    exact ⟨l, m, hwants, hholds', hle.trans (h _ l' m hholds hwants').le⟩

/-- **No deadlock.** -/
theorem Ordered.not_waitsFor_self (h : T.Ordered rank) (t : ι) :
    ¬ Relation.TransGen T.WaitsFor t t := by
  intro hcycle
  obtain ⟨l, l', hwants, hholds, hle⟩ := h.rank_le hcycle
  exact (h t l' l hholds hwants).not_ge hle

/-- **Progress.** -/
theorem Ordered.exists_running [WellFoundedGT α] (h : T.Ordered rank) {t u : ι}
    (hwaits : T.WaitsFor t u) : ∃ v l, T.Holds v l ∧ ∀ w, ¬ T.WaitsFor v w := by
  obtain ⟨l, hwants, hholds⟩ := hwaits
  induction hrank : rank l using WellFoundedGT.induction generalizing t u l with
  | ind r ih =>
    by_cases hnext : ∃ w, T.WaitsFor u w
    · obtain ⟨w, m, hwants', hholds'⟩ := hnext
      have hup : rank l < rank m := h u l m hholds hwants'
      exact ih (rank m) (hrank ▸ hup) m hwants' hholds' rfl
    · exact ⟨u, l, hholds, not_exists.mp hnext⟩

end Table

end LockOrder

import ChatRs.Lib.Machine
import Mathlib.Data.Fintype.Order

/-!
# Machines that come to rest

Actors share a machine, and each of them has a rank that its own steps lower and that nobody
else's touch. Then none of them acts forever, whatever order they step in and whatever becomes of
the others. One that goes on as long as it can has nothing left to do at some point; and if there
are finitely many of them and all go on, this holds of all at once.

* **`Path`**: an infinite run, with a label for every step;
* **`Drains`**: what one step does to the ranks;
* **`Drains.stops`**: in every path an actor stops; **`Drains.finishes`**: where it goes on as long
  as it can, it is done then; **`Drains.settles`**: so it is with all of them together.
-/

namespace Machine

variable {σ ℓ ε ι : Type}

/-- An infinite run of allowed steps. -/
structure Path (M : Machine σ ℓ ε) (G : Guard σ ℓ ε) where
  config : Nat → Config σ ε
  label : Nat → ℓ
  next : ∀ n, ∃ s evs, G (config n) (label n)
    ∧ M.step (config n).state (label n) = some (s, evs)
    ∧ config (n + 1) = ⟨(config n).past ++ evs, s⟩

namespace Path

variable {M : Machine σ ℓ ε} {G : Guard σ ℓ ε}

/-- A path from any of its points on is a run. -/
theorem run (p : M.Path G) {m n : Nat} (h : m ≤ n) : M.Run G (p.config m) (p.config n) := by
  induction n, h using Nat.le_induction with
  | base => exact .refl
  | succ n _ ih =>
    obtain ⟨s, evs, hG, hs, hnext⟩ := p.next n
    rw [hnext]
    exact ih.tail (.mk _ s evs hG hs)

/-- The path that stays where it is. -/
def still (c : Config σ ε) (l : ℓ) (hG : G c l) (hs : M.step c.state l = some (c.state, [])) :
    M.Path G where
  config _ := c
  label _ := l
  next _ := ⟨c.state, [], hG, hs, by rw [List.append_nil]⟩

/-- A step in front of a path. -/
def cons {c : Config σ ε} (l : ℓ) {s : σ} {evs : List ε} (hG : G c l)
    (hs : M.step c.state l = some (s, evs)) (p : M.Path G)
    (hp : p.config 0 = ⟨c.past ++ evs, s⟩) : M.Path G where
  config n := match n with
    | 0 => c
    | n + 1 => p.config n
  label n := match n with
    | 0 => l
    | n + 1 => p.label n
  next n := match n with
    | 0 => ⟨s, evs, hG, hs, hp⟩
    | n + 1 => p.next n

/-- A computed run, and then nothing but one idle step. -/
theorem of_exec {ok : Config σ ε → ℓ → Bool} (hok : ∀ c l, ok c l = true → G c l) (idle : ℓ)
    {c c' : Config σ ε} {ls : List ℓ} (h : M.exec ok c ls = some c') (hG : G c' idle)
    (hidle : M.step c'.state idle = some (c'.state, [])) :
    ∃ p : M.Path G, p.config 0 = c ∧ (∀ n, ls.length ≤ n → p.config n = c')
      ∧ ∀ n (hn : n < ls.length), p.label n = ls.get ⟨n, hn⟩ := by
  induction ls generalizing c with
  | nil =>
    cases h
    exact ⟨still c' idle hG hidle, rfl, fun _ _ => rfl, fun n hn => absurd hn (Nat.not_lt_zero n)⟩
  | cons l ls ih =>
    rw [exec] at h
    split at h
    · rename_i hl
      split at h
      · cases h
      · rename_i s evs hs
        obtain ⟨p, hstart, hend, hlabels⟩ := ih h
        refine ⟨cons l (hok c l hl) hs p hstart, rfl, fun n hn => ?_, fun n hn => ?_⟩
        · cases n with
          | zero => cases hn
          | succ n => exact hend n (Nat.le_of_succ_le_succ hn)
        · cases n with
          | zero => rfl
          | succ n => exact hlabels n (Nat.lt_of_succ_lt_succ hn)
    · cases h

end Path

/-- Every step of an actor lowers its rank and leaves the others' alone. -/
structure Drains {α : Type} [LT α] (M : Machine σ ℓ ε) (G : Guard σ ℓ ε) (actor : ℓ → Option ι)
    (rank : σ → ι → α) : Prop where
  lowers : ∀ c l s evs i, G c l → M.step c.state l = some (s, evs) → actor l = some i →
    rank s i < rank c.state i
  keeps : ∀ c l s evs i, G c l → M.step c.state l = some (s, evs) → actor l ≠ some i →
    rank s i = rank c.state i

namespace Drains

variable {M : Machine σ ℓ ε} {G : Guard σ ℓ ε} {actor : ℓ → Option ι} {α : Type}
  [PartialOrder α] {rank : σ → ι → α}

/-- No rank rises in a step. -/
theorem le_of_step (h : M.Drains G actor rank) (p : M.Path G) (i : ι) (n : Nat) :
    rank (p.config (n + 1)).state i ≤ rank (p.config n).state i := by
  obtain ⟨s, evs, hG, hs, hnext⟩ := p.next n
  rw [hnext]
  by_cases hactor : actor (p.label n) = some i
  · exact le_of_lt (h.lowers _ _ s evs i hG hs hactor)
  · exact le_of_eq (h.keeps _ _ s evs i hG hs hactor)

theorem antitone (h : M.Drains G actor rank) (p : M.Path G) (i : ι) :
    Antitone fun n => rank (p.config n).state i :=
  antitone_nat_of_succ_le (h.le_of_step p i)

/-- The rank of an actor falls when it takes a step. -/
theorem lt_of_acts (h : M.Drains G actor rank) (p : M.Path G) {n : Nat} {i : ι}
    (hactor : actor (p.label n) = some i) :
    rank (p.config (n + 1)).state i < rank (p.config n).state i := by
  obtain ⟨s, evs, hG, hs, hnext⟩ := p.next n
  rw [hnext]
  exact h.lowers _ _ s evs i hG hs hactor

variable [WellFoundedLT α]

/-- **An actor stops.** In every path there is a point after which it takes no step any more,
whatever the others do. -/
theorem stops (h : M.Drains G actor rank) (p : M.Path G) (i : ι) :
    ∃ n, ∀ m, n ≤ m → actor (p.label m) ≠ some i := by
  -- on the rank at the point from which on the actor is watched
  suffices hfrom : ∀ (r : α) (n : Nat), rank (p.config n).state i = r →
      ∃ n, ∀ m, n ≤ m → actor (p.label m) ≠ some i from hfrom _ 0 rfl
  intro r
  induction r using WellFoundedLT.induction with
  | ind r ih =>
    intro n hr
    by_cases hquiet : ∀ m, n ≤ m → actor (p.label m) ≠ some i
    · exact ⟨n, hquiet⟩
    simp only [not_forall, not_not] at hquiet
    obtain ⟨m, hm, hacts⟩ := hquiet
    refine ih _ ?_ (m + 1) rfl
    calc rank (p.config (m + 1)).state i < rank (p.config m).state i := h.lt_of_acts p hacts
      _ ≤ rank (p.config n).state i := h.antitone p i hm
      _ = r := hr

/-- **An actor comes to its end**: one that sooner or later goes on whenever it can has at some
point nothing left to do, and never has again. The others may stop wherever they like. -/
theorem finishes (h : M.Drains G actor rank) (p : M.Path G) (Moves : σ → Prop) {i : ι}
    (hfair : ∀ n, Moves (p.config n).state → ∃ m, n ≤ m ∧ actor (p.label m) = some i) :
    ∃ n, ∀ m, n ≤ m → ¬ Moves (p.config m).state := by
  obtain ⟨n, hn⟩ := h.stops p i
  refine ⟨n, fun m hm hmoves => ?_⟩
  obtain ⟨k, hk, hacts⟩ := hfair m hmoves
  exact hn k (hm.trans hk) hacts

/-- **Nobody is left behind**: when everybody goes on who can, there is a point from which on
nobody can. -/
theorem settles [Finite ι] (h : M.Drains G actor rank) (p : M.Path G) (Moves : σ → ι → Prop)
    (hfair : ∀ n i, Moves (p.config n).state i → ∃ m, n ≤ m ∧ actor (p.label m) = some i) :
    ∃ n, ∀ m, n ≤ m → ∀ i, ¬ Moves (p.config m).state i := by
  choose f hf using fun i =>
    h.finishes p (fun s => Moves s i) (i := i) fun n => hfair n i
  obtain ⟨n, hn⟩ := Finite.exists_le f
  exact ⟨n, fun m hm i => hf i m ((hn i).trans hm)⟩

end Drains

end Machine

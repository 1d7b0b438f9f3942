import ChatRs.Lib.Machine

/-!
# Watching a machine

Some facts about a run are neither in the state nor among the events that the steps report. A
`Monitor` notes them down: it sees every step and keeps a value of its own, which no step
reads. The machine that is watched makes the same runs:

* **`Machine.watch`**: the machine with the monitor's value beside its state;
* **`Run.forget`**: a watched run is a run of the machine;
* **`Reach.watch_invariant`**: the invariant rule, with the steps of the machine itself.
-/

/-- A history variable: its value at the start, and after each step. -/
structure Monitor (σ ℓ γ : Type) where
  init : γ
  next : σ → ℓ → σ → γ → γ

namespace Machine

variable {σ ℓ ε γ : Type}

/-- The machine together with what a monitor notes down. -/
def watch (M : Machine σ ℓ ε) (O : Monitor σ ℓ γ) : Machine (σ × γ) ℓ ε where
  init := (M.init, O.init)
  step s l := (M.step s.1 l).map fun r => ((r.1, O.next s.1 l r.1 s.2), r.2)

/-- The machine's own part of a configuration. -/
def Config.forget (c : Config (σ × γ) ε) : Config σ ε := ⟨c.past, c.state.1⟩

@[simp] theorem Config.forget_past (c : Config (σ × γ) ε) : c.forget.past = c.past := rfl

@[simp] theorem Config.forget_state (c : Config (σ × γ) ε) : c.forget.state = c.state.1 := rfl

variable {M : Machine σ ℓ ε} {O : Monitor σ ℓ γ}

/-- A step of the watched machine is a step of the machine, duly noted. -/
theorem watch_step_iff {s s' : σ × γ} {l : ℓ} {evs : List ε} :
    (M.watch O).step s l = some (s', evs)
      ↔ M.step s.1 l = some (s'.1, evs) ∧ s'.2 = O.next s.1 l s'.1 s.2 := by
  show (M.step s.1 l).map _ = some (s', evs) ↔ _
  rw [Option.map_eq_some_iff]
  constructor
  · rintro ⟨⟨t, evs'⟩, hstep, heq⟩
    cases heq
    exact ⟨hstep, rfl⟩
  · rintro ⟨hstep, hnoted⟩
    exact ⟨_, hstep, by rw [← hnoted]⟩

/-- Forgetting what the monitor noted gives a run of the machine. -/
theorem Run.forget {G : Guard (σ × γ) ℓ ε} {G' : Guard σ ℓ ε}
    (hG : ∀ c l, G c l → G' c.forget l) {c c' : Config (σ × γ) ε}
    (h : (M.watch O).Run G c c') : M.Run G' c.forget c'.forget := by
  induction h with
  | refl => exact .refl
  | tail _ hnext ih =>
    obtain ⟨l, s, evs, allowed, hs⟩ := hnext
    exact ih.tail (.mk l s.1 evs (hG _ l allowed) (watch_step_iff.mp hs).1)

theorem Reach.forget {G : Guard (σ × γ) ℓ ε} {c : Config (σ × γ) ε}
    (h : (M.watch O).Reach G c) : M.Reach free c.forget :=
  Run.forget (fun _ _ _ => trivial) h

/-- A computed run without what the monitor noted. -/
theorem exec_forget {c c' : Config (σ × γ) ε} {ls : List ℓ}
    (h : (M.watch O).exec (fun _ _ => true) c ls = some c') :
    M.exec (fun _ _ => true) c.forget ls = some c'.forget := by
  induction ls generalizing c with
  | nil =>
    cases h
    rfl
  | cons l ls ih =>
    obtain ⟨s, evs, hs, hrest⟩ := exec_cons h
    have hstep := (watch_step_iff.mp hs).1
    rw [exec, if_pos rfl, Config.forget_state, hstep]
    exact ih hrest

/-- **The invariant rule of a watched machine**: the step case is about a step of the machine
and what the monitor notes of it. -/
theorem Reach.watch_invariant {G : Guard (σ × γ) ℓ ε} {P : Config σ ε → γ → Prop}
    (hinit : P M.start O.init)
    (hstep : ∀ c g l s evs, M.Reach free c → P c g → G ⟨c.past, (c.state, g)⟩ l →
      M.step c.state l = some (s, evs) → P ⟨c.past ++ evs, s⟩ (O.next c.state l s g))
    {c : Config (σ × γ) ε} (h : (M.watch O).Reach G c) : P c.forget c.state.2 := by
  refine Reach.invariant (M := M.watch O) (P := fun c => P c.forget c.state.2) hinit ?_ h
  intro c l s evs hreach hP hG hs
  obtain ⟨hs, hnoted⟩ := watch_step_iff.mp hs
  have hnext := hstep c.forget c.state.2 l s.1 evs hreach.forget hP hG hs
  show P ⟨c.past ++ evs, s.1⟩ s.2
  rw [hnoted]
  exact hnext

end Machine

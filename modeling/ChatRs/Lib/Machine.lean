import Mathlib.Logic.Relation
import Mathlib.Data.List.Basic

/-!
# Machines that report events

A `Machine` is a partial step function on states: a label picks the step, and the step
also says which events it performs. A run is followed through its *configurations*: the
state together with all events performed so far, so that a history fact ("these frames were
sent, in this order") is a fact about a plain list and no state carries a ghost field.

* **`Next`**: one step between configurations, restricted to the steps a guard allows;
* **`Reach`**: the configurations a guarded run can get to from the initial state;
* **`Reach.invariant`**: the induction over runs, packaged once;
* **`Reach.simulates`**: from the steps of one machine to the runs of another;
* **`exec`**: the executable runner, which turns a list of labels into a reachable
  configuration (`exec_run`).
-/

/-- A partial step function whose steps report the events they perform. -/
structure Machine (σ ℓ ε : Type) where
  init : σ
  step : σ → ℓ → Option (σ × List ε)

namespace Machine

variable {σ ℓ ε : Type}

/-- A point of a run: the events so far, oldest first, and the current state. -/
structure Config (σ ε : Type) where
  past : List ε
  state : σ

/-- A restriction on the steps of a run: it sees the configuration before the step. -/
abbrev Guard (σ ℓ ε : Type) := Config σ ε → ℓ → Prop

/-- The guard that allows every step. -/
def free : Guard σ ℓ ε := fun _ _ => True

section Runs

variable (M : Machine σ ℓ ε)

/-- The configuration in which every run starts. -/
def start : Config σ ε := ⟨[], M.init⟩

/-- One step that the guard allows. -/
inductive Next (G : Guard σ ℓ ε) (c : Config σ ε) : Config σ ε → Prop
  | mk (l : ℓ) (s : σ) (evs : List ε) (allowed : G c l)
      (hstep : M.step c.state l = some (s, evs)) : Next G c ⟨c.past ++ evs, s⟩

/-- Any number of allowed steps. -/
abbrev Run (G : Guard σ ℓ ε) : Config σ ε → Config σ ε → Prop :=
  Relation.ReflTransGen (M.Next G)

/-- The configurations of the runs whose steps the guard allows. -/
abbrev Reach (G : Guard σ ℓ ε) (c : Config σ ε) : Prop := M.Run G M.start c

/-- Runs the machine along a list of labels, as long as the test allows. -/
def exec (ok : Config σ ε → ℓ → Bool) : Config σ ε → List ℓ → Option (Config σ ε)
  | c, [] => some c
  | c, l :: ls =>
    if ok c l then
      match M.step c.state l with
      | none => none
      | some (s, evs) => exec ok ⟨c.past ++ evs, s⟩ ls
    else none

end Runs

variable {M : Machine σ ℓ ε} {G : Guard σ ℓ ε}

/-- **The invariant rule.** What holds at the start and is kept by every allowed step holds
in every reachable configuration. The step case may use that its source is reachable. -/
theorem Reach.invariant {P : Config σ ε → Prop} (hinit : P M.start)
    (hstep : ∀ c l s evs, M.Reach G c → P c → G c l → M.step c.state l = some (s, evs) →
      P ⟨c.past ++ evs, s⟩)
    {c : Config σ ε} (h : M.Reach G c) : P c := by
  induction h with
  | refl => exact hinit
  | tail hreach hnext ih =>
    obtain ⟨l, s, evs, allowed, hs⟩ := hnext
    exact hstep _ l s evs hreach ih allowed hs

/-- The invariant rule for the rest of a run, from any configuration on. -/
theorem Run.invariant {P : Config σ ε → Prop} {c c' : Config σ ε} (h : M.Run G c c')
    (h0 : P c)
    (hstep : ∀ d l s evs, M.Run G c d → P d → G d l → M.step d.state l = some (s, evs) →
      P ⟨d.past ++ evs, s⟩) : P c' := by
  induction h with
  | refl => exact h0
  | tail hrun hnext ih =>
    obtain ⟨l, s, evs, allowed, hs⟩ := hnext
    exact hstep _ l s evs hrun ih allowed hs

/-- **The simulation rule.** When every step is a run of another machine between the images of
its ends, every run is. -/
theorem Reach.simulates {σ' ℓ' ε' : Type} {M' : Machine σ' ℓ' ε'} {G' : Guard σ' ℓ' ε'}
    (f : Config σ ε → Config σ' ε') (hinit : M'.Reach G' (f M.start))
    (hstep : ∀ c l s evs, M.Reach G c → M'.Reach G' (f c) → G c l →
      M.step c.state l = some (s, evs) → M'.Run G' (f c) (f ⟨c.past ++ evs, s⟩))
    {c : Config σ ε} (h : M.Reach G c) : M'.Reach G' (f c) :=
  Reach.invariant (P := fun c => M'.Reach G' (f c)) hinit
    (fun c l s evs hreach ih hG hs => ih.trans (hstep c l s evs hreach ih hG hs)) h

/-- A run under a stricter guard is a run under a laxer one. -/
theorem Run.mono {G' : Guard σ ℓ ε} (hG : ∀ c l, G c l → G' c l) {c c' : Config σ ε}
    (h : M.Run G c c') : M.Run G' c c' := by
  induction h with
  | refl => exact .refl
  | tail _ hnext ih =>
    obtain ⟨l, s, evs, allowed, hs⟩ := hnext
    exact ih.tail (.mk l s evs (hG _ l allowed) hs)

/-- Every guarded run is a run. -/
theorem Run.toFree {c c' : Config σ ε} (h : M.Run G c c') : M.Run free c c' :=
  h.mono fun _ _ _ => trivial

/-- Events are only ever appended. -/
theorem Run.past_prefix {c c' : Config σ ε} (h : M.Run G c c') : c.past <+: c'.past := by
  induction h with
  | refl => exact List.prefix_refl _
  | tail _ hnext ih =>
    obtain ⟨l, s, evs, _, _⟩ := hnext
    exact ih.trans (List.prefix_append _ _)

/-- What `exec` computes is a run, under every guard that its test implies. -/
theorem exec_run {ok : Config σ ε → ℓ → Bool} (hok : ∀ c l, ok c l = true → G c l)
    {c c' : Config σ ε} {ls : List ℓ} (h : M.exec ok c ls = some c') : M.Run G c c' := by
  induction ls generalizing c with
  | nil =>
    cases h
    exact .refl
  | cons l ls ih =>
    rw [exec] at h
    split at h
    · rename_i hl
      split at h
      · cases h
      · rename_i s evs hs
        exact .head (.mk l s evs (hok c l hl) hs) (ih h)
    · cases h

/-- A computed run takes a first step and goes on. -/
theorem exec_cons {ok : Config σ ε → ℓ → Bool} {c c' : Config σ ε} {l : ℓ} {ls : List ℓ}
    (h : M.exec ok c (l :: ls) = some c') :
    ∃ s evs, M.step c.state l = some (s, evs) ∧ M.exec ok ⟨c.past ++ evs, s⟩ ls = some c' := by
  rw [exec] at h
  split at h
  · split at h
    · cases h
    · rename_i s evs hs
      exact ⟨s, evs, hs, h⟩
  · cases h

/-- The invariant rule for a computed run: only its own labels need to be looked at. -/
theorem exec_invariant {P : Config σ ε → Prop} {ok : Config σ ε → ℓ → Bool} {c c' : Config σ ε}
    {ls : List ℓ} (h : M.exec ok c ls = some c') (h0 : P c)
    (hstep : ∀ d l s evs, l ∈ ls → P d → M.step d.state l = some (s, evs) →
      P ⟨d.past ++ evs, s⟩) : P c' := by
  induction ls generalizing c with
  | nil =>
    cases h
    exact h0
  | cons l ls ih =>
    obtain ⟨s, evs, hs, hrest⟩ := exec_cons h
    refine ih hrest (hstep c l s evs List.mem_cons_self h0 hs) ?_
    exact fun d l' s evs hl => hstep d l' s evs (List.mem_cons_of_mem l hl)

/-- What `exec` computes is a run under every guard that allows its labels everywhere. -/
theorem exec_run_of_labels {ok : Config σ ε → ℓ → Bool} {c c' : Config σ ε} {ls : List ℓ}
    (h : M.exec ok c ls = some c') (hls : ∀ l ∈ ls, ∀ d, G d l) : M.Run G c c' := by
  induction ls generalizing c with
  | nil =>
    cases h
    exact .refl
  | cons l ls ih =>
    obtain ⟨s, evs, hs, hrest⟩ := exec_cons h
    refine .head (.mk l s evs (hls l List.mem_cons_self c) hs) (ih hrest ?_)
    exact fun l' hl => hls l' (List.mem_cons_of_mem l hl)

/-- A run computed in two parts, with what is computed of the point between them and of the
end. -/
theorem exec_then {α β : Type} (ok₁ ok₂ : Config σ ε → ℓ → Bool) (ls₁ ls₂ : List ℓ)
    (g₁ : Config σ ε → α) (x₁ : α) (g₂ : Config σ ε → β) (x₂ : β)
    (h : ((M.exec ok₁ M.start ls₁).bind fun d => (M.exec ok₂ d ls₂).map fun c => (g₁ d, g₂ c))
      = some (x₁, x₂)) :
    ∃ d c, M.exec ok₁ M.start ls₁ = some d ∧ M.exec ok₂ d ls₂ = some c ∧ g₁ d = x₁
      ∧ g₂ c = x₂ := by
  obtain ⟨d, hd, h⟩ := Option.bind_eq_some_iff.mp h
  obtain ⟨c, hc, h⟩ := Option.map_eq_some_iff.mp h
  obtain ⟨h₁, h₂⟩ := Prod.mk.inj h
  exact ⟨d, c, hd, hc, h₁, h₂⟩

/-- A computed run gives a reachable configuration with the computed value. -/
theorem exec_reach {α : Type} (ok : Config σ ε → ℓ → Bool) (hok : ∀ c l, ok c l = true → G c l)
    (g : Config σ ε → α) (x : α) (ls : List ℓ) (h : (M.exec ok M.start ls).map g = some x) :
    ∃ c, M.Reach G c ∧ g c = x := by
  obtain ⟨c, hc, hx⟩ := Option.map_eq_some_iff.mp h
  exact ⟨c, exec_run hok hc, hx⟩

/-- What an execution without a guard comes to is reachable. -/
theorem exec_reach_free {α : Type} (g : Config σ ε → α) (x : α) (ls : List ℓ)
    (h : (M.exec (fun _ _ => true) M.start ls).map g = some x) : ∃ c, M.Reach free c ∧ g c = x :=
  exec_reach _ (fun _ _ _ => trivial) g x ls h

end Machine

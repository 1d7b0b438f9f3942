import Mathlib.Data.List.Basic

/-!
# A timer for every wait

A party takes its inputs one after another and starts a fresh timer for each. How late it ends
depends on when the inputs come, and on which of them make it wait for another. The plan:

* **`Party`**, **`Party.run`**: the party, and when and how it ends against given inputs;
* **`run_le`**: it ends within as many periods as it has waits;
* **`run_le_iff`**: exactly when it ends within one (`Prompt`).
-/

namespace Timeouts

variable {σ α β : Type}

/-- What a party makes of an input (it waits for another, or ends), and of a timer that has run
out. -/
structure Party (σ α β : Type) where
  feed : σ → α → σ ⊕ β
  timeout : σ → β

namespace Party

variable (P : Party σ α β) (T : Nat)

/-- When a party that waits from `now` on ends, and how. An input that has come already is taken
at once; one that comes with the end of the timer is still taken. -/
def run (now : Nat) (s : σ) : List (Nat × α) → Nat × β
  | [] => (now + T, P.timeout s)
  | (t, x) :: inputs =>
    if t ≤ now + T then
      match P.feed s x with
      | .inl s' => run (max now t) s' inputs
      | .inr b => (max now t, b)
    else (now + T, P.timeout s)

/-- Having got these inputs, the party waits for another. -/
def Waits (s : σ) : List α → Prop
  | [] => True
  | x :: xs => ∃ s', P.feed s x = .inl s' ∧ Waits s' xs

/-- Whenever the inputs so far have come within the first period and the party waits for another,
this one comes within the period too. (If all of them were there at the start, so that no time
has passed, the timer sees to it.) -/
def Prompt (start : Nat) (s : σ) (inputs : List (Nat × α)) : Prop :=
  ∀ before after, inputs = before ++ after → P.Waits s (before.map Prod.snd) →
    (∀ x ∈ before, x.1 ≤ start + T) →
    (∀ x ∈ before, x.1 ≤ start) ∨ ∃ x ∈ after.head?, x.1 ≤ start + T

variable {P T}

/-- What holds at the start and is kept by every input, in whatever time it takes, holds where
the party ends. -/
theorem run_invariant {I : Nat → σ → Prop} {F : Nat → β → Prop}
    (htimeout : ∀ now s, I now s → F (now + T) (P.timeout s))
    (hwaits : ∀ now s x s' d, I now s → P.feed s x = .inl s' → I (now + d) s')
    (hends : ∀ now s x b d, I now s → P.feed s x = .inr b → F (now + d) b)
    {now : Nat} {s : σ} (h : I now s) (inputs : List (Nat × α)) :
    F (P.run T now s inputs).1 (P.run T now s inputs).2 := by
  induction inputs generalizing now s with
  | nil => exact htimeout now s h
  | cons input inputs ih =>
    obtain ⟨t, x⟩ := input
    have hlater : now + (max now t - now) = max now t :=
      Nat.add_sub_cancel' (Nat.le_max_left now t)
    rw [run]
    split
    · split
      · rename_i s' hfeed
        have hnext := hwaits now s x s' (max now t - now) h hfeed
        rw [hlater] at hnext
        exact ih hnext
      · rename_i b hfeed
        have hend := hends now s x b (max now t - now) h hfeed
        rw [hlater] at hend
        exact hend
    · exact htimeout now s h

/-- A conversation does not end before it begins. -/
theorem le_run (now : Nat) (s : σ) (inputs : List (Nat × α)) :
    now ≤ (P.run T now s inputs).1 := by
  induction inputs generalizing now s with
  | nil => exact Nat.le_add_right now T
  | cons input inputs ih =>
    obtain ⟨t, x⟩ := input
    rw [run]
    split
    · split
      · exact Nat.le_trans (Nat.le_max_left now t) (ih _ _)
      · exact Nat.le_max_left now t
    · exact Nat.le_add_right now T

/-- **The bound of the timers**: a period for every wait. -/
theorem run_le {n : Nat} {s : σ} (h : ∀ xs, P.Waits s xs → xs.length < n) (now : Nat)
    (inputs : List (Nat × α)) : (P.run T now s inputs).1 ≤ now + n * T := by
  induction inputs generalizing now s n with
  | nil =>
    have hpos : 0 < n := h [] trivial
    have := Nat.le_mul_of_pos_left T hpos
    show now + T ≤ _
    omega
  | cons input inputs ih =>
    obtain ⟨t, x⟩ := input
    obtain ⟨n, rfl⟩ := Nat.exists_eq_succ_of_ne_zero (Nat.ne_of_gt (h [] trivial))
    rw [run, Nat.succ_mul]
    split
    · split
      · rename_i hcame s' hfeed
        have hless : ∀ xs, P.Waits s' xs → xs.length < n := by
          intro xs hxs
          have := h (x :: xs) ⟨s', hfeed, hxs⟩
          rw [List.length_cons] at this
          omega
        have := ih hless (max now t)
        omega
      · show max now t ≤ _
        omega
    · show now + T ≤ _
      omega

/-- As `Prompt`, of a party that has been waiting from `now` on. -/
def PromptFrom (P : Party σ α β) (T start now : Nat) (s : σ) (inputs : List (Nat × α)) : Prop :=
  ∀ before after, inputs = before ++ after → P.Waits s (before.map Prod.snd) →
    (∀ x ∈ before, x.1 ≤ start + T) →
    (now = start ∧ ∀ x ∈ before, x.1 ≤ start) ∨ ∃ x ∈ after.head?, x.1 ≤ start + T

variable {start now t : Nat} {s : σ} {x : α} {inputs : List (Nat × α)}

/-- With no input left the wait is in time only if it has just begun. -/
theorem promptFrom_nil : P.PromptFrom T start now s [] ↔ now = start := by
  constructor
  · intro hprompt
    rcases hprompt [] [] rfl trivial nofun with ⟨hsame, _⟩ | ⟨_, hnone, _⟩
    · exact hsame
    · cases hnone
  · intro hsame before after hsplit _ _
    obtain ⟨rfl, rfl⟩ := List.append_eq_nil_iff.mp hsplit.symm
    exact .inl ⟨hsame, nofun⟩

/-- The wait that is going on, and those that follow it. -/
theorem promptFrom_cons (hstart : start ≤ now) :
    P.PromptFrom T start now s ((t, x) :: inputs) ↔
      (now = start ∨ t ≤ start + T) ∧ (t ≤ start + T → ∀ s', P.feed s x = .inl s' →
        P.PromptFrom T start (max now t) s' inputs) := by
  constructor
  · intro hprompt
    constructor
    · -- the first wait
      rcases hprompt [] _ rfl trivial nofun with ⟨hsame, _⟩ | ⟨_, hhead, hle⟩
      · exact .inl hsame
      · cases hhead
        exact .inr hle
    · -- a later wait: the input at hand belongs to those before it
      intro hle s' hfeed before after hsplit hwaits hbefore
      have hsplit' : (t, x) :: inputs = ((t, x) :: before) ++ after := congrArg _ hsplit
      have hbefore' : ∀ y ∈ (t, x) :: before, y.1 ≤ start + T :=
        List.forall_mem_cons.mpr ⟨hle, hbefore⟩
      refine (hprompt _ after hsplit' ⟨s', hfeed, hwaits⟩ hbefore').imp_left ?_
      rintro ⟨rfl, hthere⟩
      obtain ⟨hthere, hrest⟩ := List.forall_mem_cons.mp hthere
      exact ⟨Nat.max_eq_left hthere, hrest⟩
  · rintro ⟨hnow, hlater⟩ before after hsplit hwaits hbefore
    cases before with
    | nil =>
      rw [List.nil_append] at hsplit
      subst hsplit
      exact hnow.imp (fun hsame => ⟨hsame, nofun⟩) fun hle => ⟨_, rfl, hle⟩
    | cons y before =>
      obtain ⟨rfl, hsplit'⟩ := List.cons.inj hsplit
      obtain ⟨hle, hbefore⟩ := List.forall_mem_cons.mp hbefore
      obtain ⟨s', hfeed, hwaits⟩ := hwaits
      refine (hlater hle s' hfeed before after hsplit' hwaits hbefore).imp_left ?_
      rintro ⟨hsame, hthere⟩
      have hmax := Nat.max_le.mp (Nat.le_of_eq hsame)
      exact ⟨Nat.le_antisymm hmax.1 hstart, List.forall_mem_cons.mpr ⟨hmax.2, hthere⟩⟩

/-- The conversation is over within one period of its start exactly if every wait of it was in time,
by induction on the inputs: an input that is taken ends one wait and begins the next. -/
theorem run_le_iff_from (hstart : start ≤ now) (hnow : now ≤ start + T) (s : σ)
    (inputs : List (Nat × α)) :
    (P.run T now s inputs).1 ≤ start + T ↔ P.PromptFrom T start now s inputs := by
  induction inputs generalizing now s with
  | nil =>
    rw [promptFrom_nil]
    show now + T ≤ start + T ↔ _
    omega
  | cons input inputs ih =>
    obtain ⟨t, x⟩ := input
    rw [promptFrom_cons hstart, run]
    split
    · rename_i hcame
      split
      · rename_i s' hfeed
        by_cases hle : t ≤ start + T
        · -- taken within the period, which goes on with the next wait
          have hmax : start ≤ max now t := Nat.le_trans hstart (Nat.le_max_left now t)
          rw [ih hmax (Nat.max_le.mpr ⟨hnow, hle⟩)]
          constructor
          · intro hprompt
            refine ⟨.inr hle, fun _ s'' hfeed' => ?_⟩
            cases hfeed.symm.trans hfeed'
            exact hprompt
          · exact fun hprompt => hprompt.2 hle s' hfeed
        · have hlate := P.le_run (T := T) (max now t) s' inputs
          constructor
          · intro hend
            omega
          · rintro ⟨hnow, _⟩
            omega
      · -- the input ends the conversation, so only its own time counts
        rename_i b hfeed
        constructor
        · intro hend
          have hle : t ≤ start + T := Nat.le_trans (Nat.le_max_right now t) hend
          exact ⟨.inr hle, fun _ s' hfeed' => nomatch hfeed.symm.trans hfeed'⟩
        · rintro ⟨hnow, _⟩
          show max now t ≤ _
          omega
    · constructor
      · intro hend
        have hsame : now = start := by
          have : now + T ≤ start + T := hend
          omega
        exact ⟨.inl hsame, fun hle => absurd hle (by omega)⟩
      · rintro ⟨hnow, _⟩
        show now + T ≤ _
        omega

/-- **When one period is enough**: exactly for prompt inputs. -/
theorem run_le_iff (start : Nat) (s : σ) (inputs : List (Nat × α)) :
    (P.run T start s inputs).1 ≤ start + T ↔ P.Prompt T start s inputs := by
  rw [run_le_iff_from (Nat.le_refl _) (Nat.le_add_right _ _)]
  simp only [PromptFrom, Prompt, true_and]

end Party

end Timeouts

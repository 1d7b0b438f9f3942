import ChatRs.Lib.Machine

/-!
# A run without some of its labels

The same machine makes two runs, the second one along only those labels of the first that pass a
filter. **`exec_filter`** is the rule for it: when a relation between the two is kept by every
label that both runs take, and by every label that only the first one takes, then the second run
goes through, and stays related at every point. The relation may look ahead to the labels that
are still to come.
-/

namespace Machine

variable {σ ℓ ε : Type} {M : Machine σ ℓ ε}

/-- The runner without a test. -/
abbrev execAll (M : Machine σ ℓ ε) : Config σ ε → List ℓ → Option (Config σ ε) :=
  M.exec fun _ _ => true

theorem execAll_cons {c c' : Config σ ε} {l : ℓ} {ls : List ℓ} {s : σ} {evs : List ε}
    (hs : M.step c.state l = some (s, evs)) (h : M.execAll ⟨c.past ++ evs, s⟩ ls = some c') :
    M.execAll c (l :: ls) = some c' := by
  rw [execAll, exec, if_pos rfl, hs]
  exact h

/-- **The projection rule.** -/
theorem exec_filter (keep : ℓ → Bool) (R : List ℓ → Config σ ε → Config σ ε → Prop)
    (hkept : ∀ l ls c c' s evs, R (l :: ls) c c' → keep l = true →
      M.step c.state l = some (s, evs) → (∃ d, M.execAll ⟨c.past ++ evs, s⟩ ls = some d) →
      ∃ s' evs', M.step c'.state l = some (s', evs')
        ∧ R ls ⟨c.past ++ evs, s⟩ ⟨c'.past ++ evs', s'⟩)
    (hdropped : ∀ l ls c c' s evs, R (l :: ls) c c' → keep l = false →
      M.step c.state l = some (s, evs) → R ls ⟨c.past ++ evs, s⟩ c')
    {ls : List ℓ} {c c' d : Config σ ε} (h : M.execAll c ls = some d) (hR : R ls c c') (k : Nat) :
    ∃ e e', M.execAll c (ls.take k) = some e ∧ M.execAll c' ((ls.take k).filter keep) = some e'
      ∧ R (ls.drop k) e e' := by
  induction ls generalizing c c' k with
  | nil =>
    rw [List.take_nil, List.drop_nil]
    exact ⟨c, c', rfl, rfl, hR⟩
  | cons l ls ih =>
    cases k with
    | zero => exact ⟨c, c', rfl, rfl, hR⟩
    | succ k =>
      obtain ⟨s, evs, hs, hrest⟩ := exec_cons h
      rw [List.take_succ_cons, List.drop_succ_cons, List.filter_cons]
      cases hkeep : keep l with
      | true =>
        -- the step is made on both sides
        obtain ⟨s', evs', hs', hR'⟩ := hkept l ls c c' s evs hR hkeep hs ⟨d, hrest⟩
        obtain ⟨e, e', he, he', hRe⟩ := ih hrest hR' k
        exact ⟨e, e', execAll_cons hs he, execAll_cons hs' he', hRe⟩
      | false =>
        -- the second machine waits
        obtain ⟨e, e', he, he', hRe⟩ := ih hrest (hdropped l ls c c' s evs hR hkeep hs) k
        exact ⟨e, e', execAll_cons hs he, he', hRe⟩

end Machine

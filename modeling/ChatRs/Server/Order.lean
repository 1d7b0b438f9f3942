import ChatRs.Lib.Precedence
import ChatRs.Server.Clear

/-!
# The order of messages

Every handler stores its message under one lock and then walks its own snapshot of the senders
with no lock held. So messages whose handlers overlap may reach two members in different orders
(`orders_differ`). Messages that are not on their way at the same time may not: once the
broadcast of a message has ended, the message is never stored or enqueued again (`Landed`), and
what is accepted later comes after it everywhere. Messages of one sender never overlap.
-/

namespace ChatRs

open Machine (Config free)

/-! ## A message that has landed -/

/-- The message was accepted, and no handler works on it any more. -/
structure Landed (c : Config World Event) (m : RoomMessage) : Prop where
  accepted : m ∈ messagesOf (acceptedIn c.past)
  gone : ∀ k, .message m ∉ (c.state.flight k).frames

section

variable {c c' : Config World Event} {m : RoomMessage}

/-- A message that has landed is not accepted again, stored again or enqueued again. -/
theorem landed_step {w : World} {l : Label} {evs : List Event} (h : room.Reach free c)
    (hs : step c.state l = some (w, evs)) (hm : Landed c m) :
    Landed ⟨c.past ++ evs, w⟩ m ∧ .message m ∉ storedIn evs
      ∧ ∀ peer, .message m ∉ enqueuedTo peer evs := by
  have hflow := (step_inv hs).flow
  have hnext : room.Reach free ⟨c.past ++ evs, w⟩ := h.tail (.mk l w evs trivial hs)
  have haccepted : m ∈ messagesOf (acceptedIn (c.past ++ evs)) := by
    rw [acceptedIn_append, messagesOf_append]
    exact List.mem_append_left _ hm.accepted
  refine ⟨⟨haccepted, fun k hk => ?_⟩, fun hmem => ?_, fun peer hmem => ?_⟩
  · replace hk : .message m ∈ (w.flight k).frames := hk
    -- it does not come into flight again: that would take a second acceptance
    obtain ⟨hframes, _⟩ | ⟨id, f, horigin, hf, hflight⟩ | ⟨id, _, hflight⟩ := hflow.frames
    · rw [hframes] at hk
      exact hm.gone k hk
    · rw [hflight] at hk
      rcases eq_or_ne k id with rfl | hne
      · rw [Function.update_self, Flight.frames_start] at hk
        exact accepted_once hnext hm.accepted (hf ▸ hk)
      · rw [Function.update_of_ne hne] at hk
        exact hm.gone k hk
    · rw [hflight] at hk
      rcases eq_or_ne k id with rfl | hne
      · rw [Function.update_self] at hk
        cases hk
      · rw [Function.update_of_ne hne] at hk
        exact hm.gone k hk
  · -- what is stored is in flight before
    cases hflow with
    | quiet _ _ _ hstored =>
      rw [hstored] at hmem
      cases hmem
    | stores k f hat =>
      rw [storedIn_stored, List.mem_singleton] at hmem
      refine hm.gone k ?_
      rw [hat, hmem]
      exact List.mem_singleton_self f
    | accepts | collects | enqueues | refused | lands => cases hmem
  · -- and so is what is enqueued
    cases hflow with
    | quiet _ _ _ _ henqueued =>
      rw [henqueued] at hmem
      cases hmem
    | enqueues k f first rest hat =>
      rcases eq_or_ne peer first with rfl | hne
      · rw [enqueuedTo_self, List.mem_singleton] at hmem
        refine hm.gone k ?_
        rw [hat, hmem]
        exact List.mem_singleton_self f
      · rw [enqueuedTo_other f hne] at hmem
        cases hmem
    | accepts | stores | collects | refused | lands => cases hmem

/-- **After it has landed a message is neither stored nor enqueued**, in the rest of every
run. -/
theorem landed_later (h : room.Reach free c) (hrun : room.Run free c c') (hm : Landed c m) :
    ∃ evs, c'.past = c.past ++ evs ∧ .message m ∉ storedIn evs
      ∧ ∀ peer, .message m ∉ enqueuedTo peer evs := by
  have hall : Landed c' m ∧ ∃ evs, c'.past = c.past ++ evs ∧ .message m ∉ storedIn evs
      ∧ ∀ peer, .message m ∉ enqueuedTo peer evs := by
    refine Machine.Run.invariant (P := fun d => Landed d m ∧ ∃ evs, d.past = c.past ++ evs
      ∧ .message m ∉ storedIn evs ∧ ∀ peer, .message m ∉ enqueuedTo peer evs) hrun ?_ ?_
    · exact ⟨hm, [], (List.append_nil _).symm, List.not_mem_nil, fun _ => List.not_mem_nil⟩
    rintro d l w evs hd ⟨hland, before, hpast, hstored, henqueued⟩ _ hs
    obtain ⟨hnext, hstored', henqueued'⟩ := landed_step (h.trans hd) hs hland
    refine ⟨hnext, before ++ evs, ?_, ?_, fun peer => ?_⟩
    · show d.past ++ evs = _
      rw [hpast, List.append_assoc]
    · rw [storedIn_append, List.mem_append]
      exact fun hmem => hmem.elim hstored hstored'
    · rw [enqueuedTo_append, List.mem_append]
      exact fun hmem => hmem.elim (henqueued peer) (henqueued' peer)
  exact hall.2

end

/-! ## Messages that do not overlap -/

/-- The two messages are not on their way at the same time. -/
inductive Separate (c : Config World Event) (m₁ m₂ : RoomMessage) : Prop
  /-- They are of one sender, the first with the lower counter. -/
  | sender (hfrom : m₁.fromId = m₂.fromId) (hlt : m₁.count < m₂.count)
  /-- The broadcast of the first had ended when the second was accepted. -/
  | handlers (c₁ : Config World Event) (hreach : room.Reach free c₁) (hrun : room.Run free c₁ c)
      (hlanded : Landed c₁ m₁) (hlater : m₂ ∉ messagesOf (acceptedIn c₁.past))

/-- **One order for messages that do not overlap.** In every run, two messages of one sender,
and two messages of which the one had been broadcast before the other was accepted, stand in
that order in every outbox and in the history. -/
theorem one_order {c : Config World Event} (h : room.Reach free c) (m₁ m₂ : RoomMessage)
    (hsep : Separate c m₁ m₂) :
    (∀ peer, Precedes m₁ m₂ (messagesOf (enqueuedTo peer c.past)))
      ∧ Precedes m₁ m₂ c.state.messages.history := by
  cases hsep with
  | sender hfrom hlt =>
    have hne : m₁ ≠ m₂ := by
      rintro rfl
      omega
    -- in an authentic list the counters of a sender increase
    have hback {past : List Event} {ms : List RoomMessage} (hms : Authentic past ms) :
        Precedes m₁ m₂ ms := by
      refine .of_pairwise hms.ordered.2 hne fun hless => ?_
      have := hless hfrom.symm
      omega
    exact ⟨fun peer => hback (outbox_authentic h peer), hback (history_authentic h)⟩
  | handlers c₁ hreach hrun hlanded hlater =>
    have hne : m₁ ≠ m₂ := by
      rintro rfl
      exact hlater hlanded.accepted
    obtain ⟨evs, hpast, hstored, henqueued⟩ := landed_later hreach hrun hlanded
    constructor
    · intro peer
      rw [hpast, enqueuedTo_append, messagesOf_append]
      refine .append hne (fun hm => henqueued peer (mem_messagesOf.mp hm)) fun hm => hlater ?_
      exact mem_messagesOf.mpr (accepted_of_enqueued hreach peer _ (mem_messagesOf.mp hm))
    · refine Precedes.of_sublist hne ?_ (history_sublist h)
      rw [hpast, storedIn_append, messagesOf_append]
      refine .append hne (fun hm => hstored (mem_messagesOf.mp hm)) fun hm => hlater ?_
      exact mem_messagesOf.mpr (accepted_of_stored hreach _ (mem_messagesOf.mp hm))

/-! ## In turn and at once -/

namespace Cast

/-- Alice's message is broadcast, and nothing else happens. -/
def aliceSpeaks : List Label :=
  bothArrive ++ sends alice (note alice "alice" 1 false) ++ [.act alice .store]
    ++ broadcasts alice [bob, alice]

/-- Both of them speak at once, and each offers the other's copy first. -/
def bothSpeak : List Label :=
  sends alice (note alice "alice" 1 false) ++ [.act alice .store]
    ++ sends bob (note bob "bob" 1 false) ++ [.act bob .store]
    ++ [.act alice (.collect [bob, alice]), .act bob (.collect [alice, bob]),
      .act alice .trySend, .act bob .trySend, .act alice .trySend, .act bob .trySend,
      .act alice .evict, .act bob .evict]

end Cast

open Cast in
/-- Bob answers Alice when her message has landed: her own screen shows them in this order. -/
theorem one_order_answer :
    ∃ c, room.Reach free c
      ∧ messagesOf (enqueuedTo alice c.past)
          = [relayed alice "alice" 1 false, relayed bob "bob" 1 false]
      ∧ Precedes (relayed alice "alice" 1 false) (relayed bob "bob" 1 false)
          (messagesOf (enqueuedTo alice c.past)) := by
  obtain ⟨c₁, c, h₁, hc, hat, hsent⟩ := Machine.exec_then (M := room)
    (fun _ _ => true) (fun _ _ => true)
    (aliceSpeaks ++ [receives bob, receives alice])
    (sends bob (note bob "bob" 1 false) ++ [.act bob .store] ++ broadcasts bob [alice, bob])
    (fun c => (c.state.isDrained alice && c.state.isDrained bob, messagesOf (acceptedIn c.past)))
    (true, [relayed alice "alice" 1 false])
    (fun c => messagesOf (enqueuedTo alice c.past))
    [relayed alice "alice" 1 false, relayed bob "bob" 1 false] (by decide)
  obtain ⟨hdrained, haccepted⟩ := Prod.mk.inj hat
  have hreach : room.Reach free c₁ := Machine.exec_run (fun _ _ _ => trivial) h₁
  have hrun : room.Run free c₁ c := Machine.exec_run (fun _ _ _ => trivial) hc
  have hnothing : room.exec (fun _ _ => true) c₁ [] = some c₁ := rfl
  have hlanded : Landed c₁ (relayed alice "alice" 1 false) := by
    refine ⟨by rw [haccepted]; exact List.mem_singleton_self _, fun k hk => ?_⟩
    rw [all_idle h₁ hnothing (by decide) hdrained k] at hk
    cases hk
  have hlater : relayed bob "bob" 1 false ∉ messagesOf (acceptedIn c₁.past) := by
    rw [haccepted]
    decide
  refine ⟨c, hreach.trans hrun, hsent, ?_⟩
  exact (one_order (hreach.trans hrun) _ _ (.handlers c₁ hreach hrun hlanded hlater)).1 alice

open Cast in
/-- When both speak at once, each of them sees the other first. -/
theorem orders_differ :
    ¬ ∀ (c₀ c : Config World Event) (p q : Uuid), room.Reach free c₀ → room.Run free c₀ c →
        c₀.state.connections.Connected p → c₀.state.connections.Connected q →
        c.state.connections.Connected p → c.state.connections.Connected q →
        ∀ m₁ m₂, m₁ ∈ messagesOf (enqueuedTo q c.past) → m₂ ∈ messagesOf (enqueuedTo q c.past) →
          [m₁, m₂].Sublist (messagesOf (enqueuedTo p c.past)) →
          [m₁, m₂].Sublist (messagesOf (enqueuedTo q c.past)) := by
  intro hall
  let hers : RoomMessage := relayed alice "alice" 1 false
  let his : RoomMessage := relayed bob "bob" 1 false
  -- the two broadcasts walk the peers in opposite orders
  obtain ⟨c₀, c, h₀, hc, hjoined, hat⟩ := Machine.exec_then (M := room)
    (fun _ _ => true) (fun _ _ => true) bothArrive bothSpeak
    (fun d => d.state.connections.snapshot) [bob, alice]
    (fun c => (c.state.connections.snapshot,
      (messagesOf (enqueuedTo bob c.past), messagesOf (enqueuedTo alice c.past))))
    ([bob, alice], ([hers, his], [his, hers])) (by decide)
  obtain ⟨hsnapshot, hsent⟩ := Prod.mk.inj hat
  obtain ⟨hbob, halice⟩ := Prod.mk.inj hsent
  have hsame := hall c₀ c bob alice (Machine.exec_run (fun _ _ _ => trivial) h₀)
    (Machine.exec_run (fun _ _ _ => trivial) hc)
    ((connected_both hjoined bob).mpr (.inl rfl)) ((connected_both hjoined alice).mpr (.inr rfl))
    ((connected_both hsnapshot bob).mpr (.inl rfl))
    ((connected_both hsnapshot alice).mpr (.inr rfl)) hers his
  rw [hbob, halice] at hsame
  have hback : [hers, his].Sublist [his, hers] :=
    hsame (List.mem_cons_of_mem _ (List.mem_singleton_self _)) List.mem_cons_self
      (List.Sublist.refl _)
  exact absurd hback (by decide)

end ChatRs

import ChatRs.Server.Gate

/-!
# The connection cap (`server/mod.rs`)

`ConnGuard::try_acquire` and its `Drop`, cut at the atomic operations: a call first adds and
learns what was there, and if that was the cap or more it subtracts again in a second step. The
counter is a `usize` of `w` bits, which wraps; the callers are any.

* **`Cap`**: the counter, and between which two operations every caller stands;
* **`counts`**: the counter is the number of the guards and of the calls about to roll back;
* **`connGuard_caps`**: so there are never more guards than `max`;
* **`server_caps`**: the connections of the server are such callers.
-/

namespace ChatRs

open Machine (Config Guard free)

/-- Where a caller of `try_acquire` stands. -/
inductive Slot where
  | out
  /-- Behind a `fetch_add` that found the cap reached. -/
  | rollingBack
  /-- It holds a `ConnGuard`. -/
  | holding
deriving DecidableEq

structure Cap (ι : Type) (w : Nat) where
  activeConns : BitVec w
  slots : ι → Slot

inductive CapLabel (ι : Type) where
  | fetchAdd (i : ι)
  | rollBack (i : ι)
  | drop (i : ι)

namespace Cap

variable {ι : Type} {w : Nat}

def init : Cap ι w := ⟨0, fun _ => .out⟩

/-- The callers that hold a guard. -/
def guards (s : Cap ι w) : Set ι := {i | s.slots i = .holding}

/-- The callers between their add and its rollback. -/
def pending (s : Cap ι w) : Set ι := {i | s.slots i = .rollingBack}

end Cap

section

variable {ι : Type} [DecidableEq ι] {w : Nat} (max : Nat)

def Cap.step (s : Cap ι w) : CapLabel ι → Option (Cap ι w × List Empty)
  -- `fetch_add` returns what was there
  | .fetchAdd i =>
    if s.slots i = .out then
      some (⟨s.activeConns + 1, Function.update s.slots i
        (if s.activeConns.toNat ≥ max then .rollingBack else .holding)⟩, [])
    else none
  | .rollBack i =>
    if s.slots i = .rollingBack then
      some (⟨s.activeConns - 1, Function.update s.slots i .out⟩, [])
    else none
  | .drop i =>
    if s.slots i = .holding then
      some (⟨s.activeConns - 1, Function.update s.slots i .out⟩, [])
    else none

/-- Any number of callers, each with one call or guard at a time. -/
def connGuard (ι : Type) [DecidableEq ι] (w max : Nat) : Machine (Cap ι w) (CapLabel ι) Empty :=
  ⟨.init, Cap.step max⟩

end

/-- With the call that comes, the calls in progress and the guards are at most `usize::MAX`. -/
def Few {ι : Type} {w : Nat} : Guard (Cap ι w) (CapLabel ι) Empty := fun c l =>
  ∀ i, l = .fetchAdd i → c.state.slots i = .out →
    c.state.guards.encard + c.state.pending.encard + 1 < 2 ^ w

/-- Callers that are fewer than `2 ^ w` in all are never too many. -/
theorem few_of_card {ι : Type} {w : Nat} (hcard : ENat.card ι < 2 ^ w)
    (c : Config (Cap ι w) Empty) (l : CapLabel ι) : Few c l := by
  intro i _ hout
  have hpending : i ∉ c.state.pending := fun h => nomatch hout.symm.trans h
  have hdisjoint : Disjoint c.state.guards (insert i c.state.pending) := by
    rw [Set.disjoint_left]
    rintro k hguard (rfl | hpending)
    · exact nomatch hout.symm.trans hguard
    · exact nomatch hpending.symm.trans hguard
  calc c.state.guards.encard + c.state.pending.encard + 1
      = (c.state.guards ∪ insert i c.state.pending).encard := by
        rw [Set.encard_union_eq hdisjoint, Set.encard_insert_of_notMem hpending, add_assoc]
    _ ≤ ENat.card ι := Set.encard_le_card
    _ < 2 ^ w := hcard

/-! ## What the counter counts -/

section

variable {ι : Type} [DecidableEq ι] {w max : Nat} {c : Config (Cap ι w) Empty}

/-- Who stands at `slot` when the caller `i` has moved to `slot'`. -/
theorem setOf_update_slots (slots : ι → Slot) (i : ι) (slot slot' : Slot) :
    {k | Function.update slots i slot' k = slot}
      = if slot' = slot then insert i {k | slots k = slot} else {k | slots k = slot} \ {i} := by
  ext k
  show Function.update slots i slot' k = slot ↔ _
  rcases eq_or_ne k i with rfl | hne
  · rw [Function.update_self]
    split
    · rename_i hslot
      exact iff_of_true hslot (.inl rfl)
    · rename_i hslot
      exact iff_of_false hslot fun h => h.2 rfl
  · rw [Function.update_of_ne hne]
    split
    · exact (or_iff_right hne).symm
    · exact (and_iff_left hne).symm

theorem guards_update (s : Cap ι w) (i : ι) (slot : Slot) (n : BitVec w) :
    (⟨n, Function.update s.slots i slot⟩ : Cap ι w).guards
      = if slot = .holding then insert i s.guards else s.guards \ {i} :=
  setOf_update_slots s.slots i .holding slot

theorem pending_update (s : Cap ι w) (i : ι) (slot : Slot) (n : BitVec w) :
    (⟨n, Function.update s.slots i slot⟩ : Cap ι w).pending
      = if slot = .rollingBack then insert i s.pending else s.pending \ {i} :=
  setOf_update_slots s.slots i .rollingBack slot

/-- What the counter stands for, and the cap. -/
structure Counts (max : Nat) (s : Cap ι w) : Prop where
  sum : s.guards.encard + s.pending.encard = s.activeConns.toNat
  cap : s.guards.encard ≤ max

/-- An add that does not wrap. -/
theorem toNat_add_one {n : BitVec w} (h : n.toNat + 1 < 2 ^ w) :
    (n + 1).toNat = n.toNat + 1 := by
  have hw : 0 < w := by
    rw [Nat.pos_iff_ne_zero]
    rintro rfl
    exact Nat.not_succ_le_zero _ (Nat.lt_succ_iff.mp h)
  have hone : (1 : BitVec w).toNat = 1 := BitVec.toNat_one hw
  rw [BitVec.toNat_add_of_lt (by rwa [hone]), hone]

/-- A subtraction that does not wrap. -/
theorem toNat_sub_one {n : BitVec w} (h : 0 < n.toNat) : (n - 1).toNat = n.toNat - 1 := by
  have hw : 0 < w := by
    rw [Nat.pos_iff_ne_zero]
    rintro rfl
    rw [BitVec.toNat_of_zero_length rfl] at h
    exact Nat.lt_irrefl 0 h
  have hone : (1 : BitVec w).toNat = 1 := BitVec.toNat_one hw
  rw [BitVec.toNat_sub_of_le (by rwa [BitVec.le_def, hone]), hone]

/-- Everything a step can do: a caller wins, loses, or goes. -/
theorem Cap.step_inv {s s' : Cap ι w} {l : CapLabel ι} {evs : List Empty}
    (h : s.step max l = some (s', evs)) :
    (∃ i, l = .fetchAdd i ∧ s.slots i = .out
        ∧ s' = ⟨s.activeConns + 1, Function.update s.slots i
            (if s.activeConns.toNat ≥ max then .rollingBack else .holding)⟩)
      ∨ ∃ i, s.slots i ≠ .out ∧ s' = ⟨s.activeConns - 1, Function.update s.slots i .out⟩ := by
  cases l with
  | fetchAdd i =>
    obtain ⟨hout, heq⟩ := Option.ite_none_right_eq_some.mp h
    cases heq
    exact .inl ⟨i, rfl, hout, rfl⟩
  | rollBack i | drop i =>
    obtain ⟨hat, heq⟩ := Option.ite_none_right_eq_some.mp h
    cases heq
    refine .inr ⟨i, ?_, rfl⟩
    rw [hat]
    exact nofun

/-- **The counter counts.** An add that loses is pending until it is rolled back, so that the
guards alone stay within the cap. -/
theorem counts (h : (connGuard ι w max).Reach Few c) : Counts max c.state := by
  refine Machine.Reach.invariant (P := fun c => Counts max c.state) ?_ ?_ h
  · -- at the start the counter is zero and every slot is free
    have hnobody (slot : Slot) (hslot : slot ≠ .out) : {k : ι | Slot.out = slot} = ∅ :=
      Set.eq_empty_of_forall_notMem fun _ heq => hslot heq.symm
    have hguards : (connGuard ι w max).start.state.guards = ∅ := hnobody .holding nofun
    have hpending : (connGuard ι w max).start.state.pending = ∅ := hnobody .rollingBack nofun
    constructor
    · rw [hguards, hpending, Set.encard_empty, add_zero]
      show (0 : ℕ∞) = ((0 : BitVec w).toNat : ℕ∞)
      rw [BitVec.ofNat_eq_ofNat, BitVec.toNat_ofNat, Nat.zero_mod, Nat.cast_zero]
    · rw [hguards, Set.encard_empty]
      exact zero_le
  intro c l s evs _ ih hG hs
  rcases Cap.step_inv hs with ⟨i, rfl, hout, rfl⟩ | ⟨i, hin, rfl⟩
  · -- `fetch_add`: the caller was out; it loses at the cap, and holds a guard below it
    have hguard : i ∉ c.state.guards := fun h => nomatch hout.symm.trans h
    have hpending : i ∉ c.state.pending := fun h => nomatch hout.symm.trans h
    have hfew := hG i rfl hout
    rw [ih.sum] at hfew
    have hadd : (c.state.activeConns + 1).toNat = c.state.activeConns.toNat + 1 :=
      toNat_add_one (by exact_mod_cast hfew)
    split
    · constructor
      · rw [guards_update, pending_update, if_neg nofun, if_pos rfl, hadd,
          Set.sdiff_singleton_eq_self hguard, Set.encard_insert_of_notMem hpending, ← add_assoc,
          ih.sum, Nat.cast_add_one]
      · rw [guards_update, if_neg nofun, Set.sdiff_singleton_eq_self hguard]
        exact ih.cap
    · rename_i hroom
      constructor
      · rw [guards_update, pending_update, if_pos rfl, if_neg nofun, hadd,
          Set.sdiff_singleton_eq_self hpending, Set.encard_insert_of_notMem hguard, add_right_comm,
          ih.sum, Nat.cast_add_one]
      · -- there was room in the counter, and so among the guards
        rw [guards_update, if_pos rfl, Set.encard_insert_of_notMem hguard]
        have hle : c.state.guards.encard ≤ c.state.activeConns.toNat := ih.sum ▸ le_self_add
        refine (add_le_add_left hle 1).trans ?_
        exact_mod_cast Nat.lt_of_not_le hroom
  · -- a guard is dropped, or an add rolled back: one less in the counter and in the two sets
    have hsum : ((c.state.guards \ {i}).encard + (c.state.pending \ {i}).encard) + 1
        = c.state.activeConns.toNat := by
      rw [← ih.sum]
      cases hslot : c.state.slots i with
      | out => exact absurd hslot hin
      | rollingBack =>
        have hguard : i ∉ c.state.guards := fun h => nomatch hslot.symm.trans h
        have hmem : i ∈ c.state.pending := hslot
        rw [Set.sdiff_singleton_eq_self hguard, add_assoc,
          Set.encard_sdiff_singleton_add_one hmem]
      | holding =>
        have hpending : i ∉ c.state.pending := fun h => nomatch hslot.symm.trans h
        have hmem : i ∈ c.state.guards := hslot
        rw [Set.sdiff_singleton_eq_self hpending, add_right_comm,
          Set.encard_sdiff_singleton_add_one hmem]
    have hpos : 0 < c.state.activeConns.toNat := by
      have hone : (1 : ℕ∞) ≤ c.state.activeConns.toNat := hsum ▸ le_add_self
      exact_mod_cast hone
    constructor
    · rw [guards_update, pending_update, if_neg nofun, if_neg nofun, toNat_sub_one hpos]
      have hcast : (c.state.activeConns.toNat : ℕ∞) = (c.state.activeConns.toNat - 1 : ℕ) + 1 := by
        exact_mod_cast (Nat.sub_add_cancel hpos).symm
      exact ENat.add_left_injective_of_ne_top ENat.one_ne_top (hsum.trans hcast)
    · rw [guards_update, if_neg nofun]
      exact (Set.encard_le_encard Set.sdiff_subset).trans ih.cap

/-- **The connection cap.** For every cap, and for every order of the adds, the rollbacks and the
drops of callers that are fewer than the counter can count:

* there are never more guards than `max`;
* the counter is never below their number, and is 0 for no subtraction: it never wraps, but
  counts the guards and the calls that have yet to roll back;
* so it is the number of the guards whenever there are no such calls. -/
theorem connGuard_caps (h : (connGuard ι w max).Reach Few c) :
    c.state.guards.encard ≤ max
      ∧ c.state.guards.encard ≤ c.state.activeConns.toNat
      ∧ (∀ i, c.state.slots i ≠ .out → 0 < c.state.activeConns.toNat)
      ∧ c.state.guards.encard + c.state.pending.encard = c.state.activeConns.toNat
      ∧ (c.state.pending = ∅ → c.state.guards.encard = c.state.activeConns.toNat) := by
  obtain ⟨hsum, hcap⟩ := counts h
  refine ⟨hcap, hsum ▸ le_self_add, fun i hin => ?_, hsum, fun hnone => ?_⟩
  · have hone : (1 : ℕ∞) ≤ c.state.activeConns.toNat := by
      rw [← hsum]
      cases hslot : c.state.slots i with
      | out => exact absurd hslot hin
      | rollingBack =>
        exact (Set.one_le_encard_iff_nonempty.mpr ⟨i, hslot⟩).trans le_add_self
      | holding => exact (Set.one_le_encard_iff_nonempty.mpr ⟨i, hslot⟩).trans le_self_add
    exact_mod_cast hone
  · rw [← hsum, hnone, Set.encard_empty, add_zero]

end

/-- Two calls, and room for one: until the second has rolled back the counter is above the
cap. -/
theorem connGuard_caps_race : ∃ c, (connGuard Bool 64 1).Reach Few c
    ∧ c.state.activeConns = 2 ∧ c.state.guards.encard ≤ 1
    ∧ c.state.guards.encard + c.state.pending.encard = 2 := by
  have hcard : ENat.card Bool < 2 ^ 64 := by
    rw [ENat.card_eq_coe_fintype_card, Fintype.card_bool]
    exact_mod_cast (by decide : 2 < 2 ^ 64)
  obtain ⟨c, hc, hactive⟩ := Machine.exec_reach (M := connGuard Bool 64 1) (fun _ _ => true)
    (fun c l _ => few_of_card hcard c l) (fun c => c.state.activeConns) 2
    [.fetchAdd true, .fetchAdd false] (by decide)
  obtain ⟨hcap, _, _, hsum, _⟩ := connGuard_caps hc
  refine ⟨c, hc, hactive, hcap, ?_⟩
  rw [hsum, hactive]
  rfl

/-! ## The connections as callers -/

section

variable {τ : Type} {N : Noise τ} {decode : List UInt8 → Option ClientFrame}
  {fill : Nat → Option Key} {hub : ServerHub} {drawn : Nat} {c : Config (Service τ) ServerEvent}

/-- What a connection holds of the cap. -/
def Stage.slot : Option (Stage τ) → Slot
  | none | some (.returned _) => .out
  | some .rollingBack => .rollingBack
  | _ => .holding

/-- The connections, as `try_acquire` and the drops of the guards see them. -/
def Service.capOf (s : Service τ) : Cap Uuid 64 :=
  ⟨.ofNat 64 s.activeConns, fun id => Stage.slot (s.conns id)⟩

/-- At an accept there are fewer than `usize::MAX` connections. -/
def FewConns : Guard (Service τ) ServerLabel ServerEvent := fun c l =>
  ∀ id, l = .accept id → c.state.activeConns + 1 < 2 ^ 64

/-- A step of a connection moves its own slot. -/
theorem slots_goto {s u : Service τ} {id : Uuid} {stage : Stage τ} (hconns : u.conns = s.conns) :
    (u.goto id stage).capOf.slots
      = Function.update s.capOf.slots id (Stage.slot (some stage)) := by
  funext k
  show Stage.slot ((u.goto id stage).conns k) = _
  rw [Service.goto_conns, hconns]
  rcases eq_or_ne k id with rfl | hne
  · rw [Function.update_self, Function.update_self]
  · rw [Function.update_of_ne hne, Function.update_of_ne hne]
    rfl

theorem slot_of_seat {stage : Stage τ} {x : RoomRef × RoomState} (h : stage.seat = some x) :
    Stage.slot (some stage) = .holding := by
  cases stage with
  | greeting | handshaking | answering | awaitingHello => rfl
  | _ => cases h

theorem slot_of_early {stage : Stage τ} (h : stage.Early) :
    Stage.slot (some stage) = .holding := by
  cases stage with
  | selecting | greeting | handshaking | answering | awaitingHello => rfl
  | _ => exact h.elim

/-- A connection that keeps its guard, or goes on without one. -/
theorem capOf_goto {s u : Service τ} {id : Uuid} {before stage : Stage τ}
    (hconns : u.conns = s.conns) (hactive : u.activeConns = s.activeConns)
    (hat : s.conns id = some before)
    (hslot : Stage.slot (some stage) = Stage.slot (some before)) :
    (u.goto id stage).capOf = s.capOf := by
  have hslots : (u.goto id stage).capOf.slots = s.capOf.slots := by
    have hsame : s.capOf.slots id = Stage.slot (some before) := congrArg Stage.slot hat
    rw [slots_goto hconns, hslot, ← hsame, Function.update_eq_self]
  show (⟨.ofNat 64 u.activeConns, (u.goto id stage).capOf.slots⟩ : Cap Uuid 64) = s.capOf
  rw [hslots, hactive]
  rfl

/-- A connection that gives up its place. -/
theorem capOf_leave {s : Service τ} {id : Uuid} (result : Result Unit)
    (hpos : 0 < s.activeConns) :
    ({ s with activeConns := s.activeConns - 1 }.goto id (.returned result)).capOf
      = ⟨s.capOf.activeConns - 1, Function.update s.capOf.slots id .out⟩ := by
  have hcount : BitVec.ofNat 64 (s.activeConns - 1) = BitVec.ofNat 64 s.activeConns - 1 := by
    obtain ⟨n, hn⟩ := Nat.exists_eq_add_of_lt hpos
    rw [hn, Nat.zero_add, Nat.add_sub_cancel, BitVec.ofNat_add]
    exact (BitVec.add_sub_cancel _ _).symm
  have hslots : ({ s with activeConns := s.activeConns - 1 }.goto id (.returned result)).capOf.slots
      = Function.update s.capOf.slots id .out := slots_goto rfl
  show (⟨.ofNat 64 (s.activeConns - 1), Service.capOf _ |>.slots⟩ : Cap Uuid 64) = _
  rw [hcount, hslots]
  rfl

/-- A connection that comes: it has added, and seen whether there was room. -/
theorem capOf_accept {s s' : Service τ} {id : Uuid} {evs : List ServerEvent}
    (h : serverStep N decode fill hub s (.accept id) = some (s', evs))
    (hfew : s.activeConns < 2 ^ 64) :
    s.capOf.step MAX_ACTIVE_CONNS (.fetchAdd id) = some (s'.capOf, []) := by
  simp only [serverStep] at h
  split at h
  · cases h
  · rename_i hnew
    cases h
    have hout : s.capOf.slots id = .out := congrArg Stage.slot hnew
    have hcount : s.capOf.activeConns.toNat = s.activeConns := by
      show (BitVec.ofNat 64 s.activeConns).toNat = s.activeConns
      rw [BitVec.toNat_ofNat, Nat.mod_eq_of_lt hfew]
    simp only [Cap.step, if_pos hout, hcount]
    set stage : Stage τ :=
      if s.activeConns ≥ MAX_ACTIVE_CONNS then .rollingBack else .selecting with hstage
    have hslots : ({ s with activeConns := s.activeConns + 1 }.goto id stage).capOf.slots
        = Function.update s.capOf.slots id (Stage.slot (some stage)) := slots_goto rfl
    have hslot : Stage.slot (some stage)
        = if s.activeConns ≥ MAX_ACTIVE_CONNS then .rollingBack else .holding := by
      rw [hstage]
      split <;> rfl
    rw [← hslot, ← hslots]
    congr 2
    show _ = (⟨.ofNat 64 (s.activeConns + 1), _⟩ : Cap Uuid 64)
    rw [BitVec.ofNat_add]
    rfl

/-- **The connections of the server are callers of `try_acquire`.** -/
theorem server_connGuard (h : (server N decode fill hub drawn).Reach FewConns c) :
    (connGuard Uuid 64 MAX_ACTIVE_CONNS).Reach Few ⟨[], c.state.capOf⟩ := by
  have hstart : (connGuard Uuid 64 MAX_ACTIVE_CONNS).Reach Few
      ⟨[], (Service.init drawn : Service τ).capOf⟩ := .refl
  refine Machine.Reach.simulates
    (fun c => (⟨[], c.state.capOf⟩ : Config (Cap Uuid 64) Empty)) hstart ?_ h
  intro c l s evs hreach hcap hG hs
  have stays {u : Cap Uuid 64} (hsame : u = c.state.capOf) :
      (connGuard Uuid 64 MAX_ACTIVE_CONNS).Run Few ⟨[], c.state.capOf⟩ ⟨[], u⟩ := by
    rw [hsame]
  -- the connection gives its place back, with the guard or with the rollback
  have leaves {id : Uuid} {stage : Stage τ} (result : Result Unit)
      (hat : c.state.conns id = some stage) (hflying : InFlight (some stage))
      (l : CapLabel Uuid) (hne : ∀ i, l ≠ .fetchAdd i)
      (hl : ∀ s : Cap Uuid 64, s.slots id = Stage.slot (some stage) →
        s.step MAX_ACTIVE_CONNS l
          = some (⟨s.activeConns - 1, Function.update s.slots id .out⟩, [])) :
      (connGuard Uuid 64 MAX_ACTIVE_CONNS).Run Few ⟨[], c.state.capOf⟩
        ⟨[], ({ c.state with activeConns := c.state.activeConns - 1 }.goto id
          (.returned result)).capOf⟩ := by
    have hpos : 0 < c.state.activeConns := by
      have hone : (1 : ℕ∞) ≤ c.state.activeConns := by
        rw [← activeConns_eq hreach]
        apply Set.one_le_encard_iff_nonempty.mpr
        refine ⟨id, ?_⟩
        show InFlight (c.state.conns id)
        rw [hat]
        exact hflying
      exact_mod_cast hone
    rw [capOf_leave result hpos]
    have hslot : c.state.capOf.slots id = Stage.slot (some stage) := congrArg Stage.slot hat
    exact .single (.mk (c := ⟨[], c.state.capOf⟩) l _ [] (fun i heq => absurd heq (hne i))
      (hl _ hslot))
  cases serverStep_inv hs with
  | accepts id stage hnew hstage =>
    -- the counter of the model does not wrap, so that the word of the source agrees with it
    have hfew := hG id rfl
    have hstep : serverStep N decode fill hub c.state (.accept id) = some (_, []) := hs
    have hadd := capOf_accept hstep ((Nat.lt_succ_self _).trans hfew)
    have hallowed : Few ⟨[], c.state.capOf⟩ (.fetchAdd id) := by
      intro _ _ _
      have hle : c.state.capOf.activeConns.toNat ≤ c.state.activeConns := by
        show (BitVec.ofNat 64 c.state.activeConns).toNat ≤ c.state.activeConns
        rw [BitVec.toNat_ofNat]
        exact Nat.mod_le ..
      rw [(counts hcap).sum]
      exact_mod_cast (Nat.succ_le_succ hle).trans_lt hfew
    exact .single (.mk (CapLabel.fetchAdd id) _ [] hallowed hadd)
  | rollsBack id e hat =>
    exact leaves _ hat trivial (.rollBack id) nofun fun s hslot => if_pos hslot
  | ends id a stage e drawn evs hat hearly hevs =>
    exact stays (capOf_goto rfl rfl hat (slot_of_early hearly).symm)
  | selects id r ref room drawn evs hat hplace => exact stays (capOf_goto rfl rfl hat rfl)
  | proceeds id a before after ref room evs hat hbefore hafter hevs =>
    refine stays (capOf_goto rfl rfl hat ?_)
    rw [slot_of_seat hbefore, slot_of_seat hafter]
  | opens id bytes ref room transport username hat hopens hname =>
    exact stays (capOf_goto rfl rfl hat rfl)
  | registers id ref username w evs hat hregister => exact stays (capOf_goto rfl rfl hat rfl)
  | lives id ref username pc a w evs hat htask hlive =>
    refine stays (capOf_goto rfl rfl hat ?_)
    unfold afterLive
    split <;> rfl
  | returns id result hat => exact leaves _ hat trivial (.drop id) nofun fun s hslot => if_pos hslot
  -- nobody comes or goes
  | elapse d => exact .refl
  | sweeps l name lr w evs hl hstep => exact .refl

/-- **The cap of the server**: never more than `MAX_ACTIVE_CONNS` connections are past
`try_acquire`. -/
theorem server_caps (h : (server N decode fill hub drawn).Reach FewConns c) :
    c.state.capOf.guards.encard ≤ MAX_ACTIVE_CONNS :=
  (counts (server_connGuard h)).cap

end

end ChatRs

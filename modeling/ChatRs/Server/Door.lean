import ChatRs.Server.Listener

/-!
# Who gets in (`server/mod.rs`, `server/ratelimit.rs`)

The accept loop over whole runs of the server, with its rate limiter and the sweeper's cleanups:

* **`Arrived`**: a socket has arrived once, and has a task behind it if it was let in;
* **`door_fair`**: of an address at most `RATELIMIT_MAX` connections are let in within a window,
  and an address that does not ask for more is never turned away, whatever the others do;
* **`limiter_small`**: from one cleanup to the next the limiter holds no more entries than
  connections were let in of late, so a flood of addresses does not make it grow.
-/

namespace ChatRs

open Machine (Config Guard free)
open SlidingWindow

/-- The sockets that have arrived, with the limiter's answers. -/
def arrivals (past : List ListenerEvent) : List (Uuid × Checked) :=
  past.filterMap fun ev => match ev with
    | .checked id x => some (id, x)
    | .server _ => none

theorem arrivals_map (evs : List ServerEvent) : arrivals (evs.map .server) = [] := by
  rw [arrivals, List.filterMap_map]
  exact List.filterMap_none ..

theorem arrivals_singleton (id : Uuid) (x : Checked) : arrivals [.checked id x] = [(id, x)] := rfl

theorem arrivals_append (past evs : List ListenerEvent) :
    arrivals (past ++ evs) = arrivals past ++ arrivals evs := List.filterMap_append

theorem checkedPast_append (past evs : List ListenerEvent) :
    checkedPast (past ++ evs) = checkedPast past ++ checkedPast evs := List.filterMap_append

/-- Every arrival is a check of the limiter. -/
theorem arrivals_checked (past : List ListenerEvent) :
    (arrivals past).map Prod.snd = checkedPast past := by
  induction past with
  | nil => rfl
  | cons ev past ih =>
    cases ev with
    | checked id x => exact congrArg (x :: ·) ih
    | server ev => exact ih

/-- To count what an address was granted is to count the sockets that were let in. -/
theorem length_passed (ip : IpAddr) (p : Instant → Bool) (past : List ListenerEvent) :
    ((passed ip (checkedPast past)).filter p).length
      = ((arrivals past).filter fun x => x.2.ip = ip ∧ x.2.allowed ∧ p x.2.now).length := by
  rw [← arrivals_checked, passed, ← List.countP_eq_length_filter, ← List.countP_eq_length_filter,
    List.countP_filterMap, List.countP_map]
  refine List.countP_congr fun x _ => ?_
  by_cases hpassed : x.2.ip = ip ∧ x.2.allowed = true
  · simp [hpassed.1, hpassed.2]
  · simp only [Function.comp, if_neg hpassed]
    simp
    tauto

section

variable {τ : Type} {N : Noise τ} {decode : List UInt8 → Option ClientFrame}
  {fill : Nat → Option Key} {hub : ServerHub} {drawn : Nat}
  {G : Guard (Listener τ) ListenerLabel ListenerEvent} {c c₀ : Config (Listener τ) ListenerEvent}

/-! ## Sockets -/

/-- How the sockets stand for what has arrived. -/
structure Arrived (c : Config (Listener τ) ListenerEvent) : Prop where
  nodup : ((arrivals c.past).map Prod.fst).Nodup
  known : ∀ x ∈ arrivals c.past, c.state.sockets x.1 = some x.2.allowed
  sockets : ∀ id b, c.state.sockets id = some b → ∃ x, (id, x) ∈ arrivals c.past ∧ x.allowed = b

/-- **Every socket has arrived once.** -/
theorem listener_arrived (h : (listener N decode fill hub drawn).Reach G c) : Arrived c := by
  refine Machine.Reach.invariant (P := Arrived) ⟨.nil, fun x hx => ?_, fun id b hb => ?_⟩ ?_ h
  · cases hx
  · cases hb
  intro c l s evs _ ih _ hs
  cases listenerStep_inv hs with
  | connects id ip hnew =>
    have happend (x : Checked) : arrivals (c.past ++ [.checked id x])
        = arrivals c.past ++ [(id, x)] := by
      rw [arrivals_append, arrivals_singleton]
    -- an id is used once
    have hother : ∀ x ∈ arrivals c.past, x.1 ≠ id := by
      intro x hx heq
      have hknown := ih.known x hx
      rw [heq, hnew] at hknown
      cases hknown
    refine ⟨?_, fun x hx => ?_, fun k b hk => ?_⟩
    · rw [happend, List.map_append]
      refine List.nodup_append.mpr ⟨ih.nodup, List.nodup_singleton _, fun k hk k' hk' heq => ?_⟩
      obtain ⟨x, hx, rfl⟩ := List.mem_map.mp hk
      exact hother x hx (heq.trans (List.mem_singleton.mp hk'))
    · rw [happend, List.mem_append] at hx
      rcases hx with hx | hx
      · exact (Function.update_of_ne (hother x hx) ..).trans (ih.known x hx)
      · rw [List.mem_singleton.mp hx]
        exact Function.update_self ..
    · rw [happend]
      by_cases hid : k = id
      · subst hid
        have hb := (Function.update_self ..).symm.trans hk
        exact ⟨_, List.mem_append_right _ (List.mem_singleton_self _), Option.some.inj hb⟩
      · obtain ⟨x, hx, hallowed⟩ := ih.sockets k b ((Function.update_of_ne hid ..).symm.trans hk)
        exact ⟨x, List.mem_append_left _ hx, hallowed⟩
  | cleans =>
    rw [List.append_nil]
    exact ⟨ih.nodup, ih.known, ih.sockets⟩
  | serves l service evs d hspawned hclock hstep =>
    have hsame : arrivals (c.past ++ evs.map .server) = arrivals c.past := by
      rw [arrivals_append, arrivals_map, List.append_nil]
    refine ⟨?_, ?_, ?_⟩
    all_goals
      dsimp only
      rw [hsame]
    exacts [ih.nodup, ih.known, ih.sockets]

/-! ## Windows -/

/-- **No window lets more than `RATELIMIT_MAX` in**, of one address. -/
theorem passed_sparse (h : (listener N decode fill hub drawn).Reach G c) (ip : IpAddr) :
    Sparse RATELIMIT_MAX RATELIMIT_WINDOW (passed ip (checkedPast c.past)) := by
  refine Machine.Reach.invariant (P := fun c =>
    Sparse RATELIMIT_MAX RATELIMIT_WINDOW (passed ip (checkedPast c.past))) .nil ?_ h
  intro c l s evs hreach ih _ hs
  have hstands := listener_stands hreach
  dsimp only
  rw [checkedPast_append]
  cases listenerStep_inv hs with
  | connects id ip' hnew =>
    show Sparse _ _ (passed ip (checkedPast c.past ++ [⟨_, ip', _⟩]))
    rw [passed_concat, RateLimiter.check_eq hstands.sound, hstands.bound, hstands.span]
    by_cases hip : ip' = ip
    · rw [if_pos hip, hip]
      exact ih.take (hstands.tracks ip)
    · rw [if_neg hip]
      exact ih
  | cleans =>
    show Sparse _ _ (passed ip (checkedPast c.past ++ []))
    rw [List.append_nil]
    exact ih
  | serves l service evs d hspawned hclock hstep =>
    rw [checkedPast_map, List.append_nil]
    exact ih

/-- **Only who asks for more is turned away**: there were more than `RATELIMIT_MAX` sockets of its
address in the window that ended with it. -/
theorem turned_away (h : (listener N decode fill hub drawn).Reach G c) :
    ∀ x ∈ arrivals c.past, x.2.allowed = false →
      RATELIMIT_MAX < ((arrivals c.past).filter fun y =>
        y.2.ip = x.2.ip ∧ y.2.now ≤ x.2.now ∧ x.2.now ≤ y.2.now + RATELIMIT_WINDOW).length := by
  refine Machine.Reach.invariant (P := fun c => ∀ x ∈ arrivals c.past, x.2.allowed = false →
    RATELIMIT_MAX < ((arrivals c.past).filter fun y => y.2.ip = x.2.ip ∧ y.2.now ≤ x.2.now
      ∧ x.2.now ≤ y.2.now + RATELIMIT_WINDOW).length) ?_ ?_ h
  · intro x hx
    cases hx
  intro c l s evs hreach ih _ hs
  have hstands := listener_stands hreach
  dsimp only
  rw [arrivals_append]
  cases listenerStep_inv hs with
  | connects id ip hnew =>
    rw [arrivals_singleton]
    intro x hx hrefused
    rw [List.filter_append, List.length_append]
    rcases List.mem_append.mp hx with hx | hx
    · exact Nat.lt_add_right _ (ih x hx hrefused)
    · -- the window of the refused socket is full, and it is one more
      rw [List.mem_singleton.mp hx] at hrefused ⊢
      have hfull : RATELIMIT_MAX
          ≤ (recent RATELIMIT_WINDOW c.state.now (passed ip (checkedPast c.past))).length := by
        by_contra hfew
        have hallowed := (hstands.check_fst ip).mpr (Nat.lt_of_not_le hfew)
        exact Bool.false_ne_true (hrefused.symm.trans hallowed)
      have hrecent : (recent RATELIMIT_WINDOW c.state.now (passed ip (checkedPast c.past))).length
          ≤ ((arrivals c.past).filter fun y => y.2.ip = ip ∧ y.2.now ≤ c.state.now
            ∧ c.state.now ≤ y.2.now + RATELIMIT_WINDOW).length := by
        rw [recent, length_passed, ← List.countP_eq_length_filter, ← List.countP_eq_length_filter]
        refine List.countP_mono_left fun y _ hy => ?_
        rw [decide_eq_true_eq, decide_eq_true_eq] at hy
        exact decide_eq_true ⟨hy.1, hy.2.2⟩
      -- the refused socket itself is the one over the limit
      refine Nat.lt_of_le_of_lt (hfull.trans hrecent) (Nat.lt_add_of_pos_right ?_)
      exact List.length_pos_of_mem (List.mem_filter.mpr ⟨List.mem_singleton_self _,
        decide_eq_true ⟨rfl, le_refl _, Nat.le_add_right _ _⟩⟩)
  | cleans =>
    rw [show arrivals [] = [] from rfl, List.append_nil]
    exact ih
  | serves l service evs d hspawned hclock hstep =>
    rw [arrivals_map, List.append_nil]
    exact ih

/-- **The door is fair.** At any moment of any run of the server, for every address:

* of the connections that came in within a window at most `RATELIMIT_MAX` are from it;
* if it never opens more than `RATELIMIT_MAX` sockets within a window, each of them is let in,
  whatever the other addresses and the cleanups do. -/
theorem door_fair (h : (listener N decode fill hub drawn).Reach free c) (ip : IpAddr) :
    (∀ a, {id | c.state.service.conns id ≠ none ∧ ∃ x, (id, x) ∈ arrivals c.past ∧ x.ip = ip
        ∧ a ≤ x.now ∧ x.now ≤ a + RATELIMIT_WINDOW}.encard ≤ RATELIMIT_MAX)
      ∧ ((∀ a, ((arrivals c.past).filter fun x => x.2.ip = ip ∧ a ≤ x.2.now
          ∧ x.2.now ≤ a + RATELIMIT_WINDOW).length ≤ RATELIMIT_MAX) →
        ∀ x ∈ arrivals c.past, x.2.ip = ip → c.state.sockets x.1 = some true) := by
  have harrived := listener_arrived h
  constructor
  · intro a
    -- only who has passed the limiter has a connection
    let ids := ((arrivals c.past).filter fun x => x.2.ip = ip ∧ x.2.allowed
      ∧ decide (a ≤ x.2.now ∧ x.2.now ≤ a + RATELIMIT_WINDOW)).map Prod.fst
    have hfew : ids.length ≤ RATELIMIT_MAX := by
      have hsparse := passed_sparse h ip a
      rw [within, length_passed] at hsparse
      rw [List.length_map]
      exact hsparse
    have hsub : {id | c.state.service.conns id ≠ none ∧ ∃ x, (id, x) ∈ arrivals c.past ∧ x.ip = ip
        ∧ a ≤ x.now ∧ x.now ≤ a + RATELIMIT_WINDOW} ⊆ (ids.toFinset : Set Uuid) := by
      rintro id ⟨hconn, x, hx, hip, hin⟩
      have hallowed : some x.allowed = some true :=
        (harrived.known _ hx).symm.trans (socket_of_conn h id hconn)
      rw [List.coe_toFinset]
      exact List.mem_map.mpr ⟨(id, x), List.mem_filter.mpr ⟨hx, decide_eq_true
        ⟨hip, Option.some.inj hallowed, decide_eq_true hin⟩⟩, rfl⟩
    refine (Set.encard_le_encard hsub).trans ?_
    rw [Set.encard_coe_eq_coe_finsetCard]
    exact Nat.cast_le.mpr ((List.toFinset_card_le ids).trans hfew)
  · intro hfew x hx hip
    rw [harrived.known x hx]
    congr 1
    by_contra hrefused
    -- a refusal needs a full window, which a modest address never has
    have haway := turned_away h x hx (Bool.eq_false_of_not_eq_true hrefused)
    have hle := hfew (x.2.now - RATELIMIT_WINDOW)
    refine absurd (haway.trans_le (Nat.le_trans ?_ hle)) (Nat.lt_irrefl _)
    rw [← List.countP_eq_length_filter, ← List.countP_eq_length_filter]
    refine List.countP_mono_left fun y _ hy => ?_
    rw [decide_eq_true_eq] at hy ⊢
    rw [← hip]
    obtain ⟨hsame, hbefore, hnear⟩ := hy
    exact ⟨hsame, Nat.sub_le_iff_le_add.mpr hnear, hbefore.trans le_tsub_add⟩

/-! ## The limiter's memory -/

/-- What an address was granted stays granted. -/
theorem passed_subset (ip : IpAddr) (log : List Checked) (x : Checked) :
    passed ip log ⊆ passed ip (log ++ [x]) := by
  unfold passed
  rw [List.filterMap_append]
  exact List.subset_append_left _ _

/-- Whoever was let in was checked then. -/
theorem exists_of_passed {ip : IpAddr} {log : List Checked} {t : Instant}
    (h : t ∈ passed ip log) : ∃ x ∈ log, x.ip = ip ∧ x.allowed = true ∧ x.now = t := by
  obtain ⟨x, hx, hpassed⟩ := List.mem_filterMap.mp h
  obtain ⟨hboth, hnow⟩ := Option.ite_none_right_eq_some.mp hpassed
  exact ⟨x, hx, hboth.1, hboth.2, Option.some.inj hnow⟩

/-- **No queue is longer than the limit.** -/
theorem queue_short (h : (listener N decode fill hub drawn).Reach G c) :
    ∀ ip, (c.state.ratelimit.queue ip).length ≤ RATELIMIT_MAX := by
  refine Machine.Reach.invariant (P := fun c => ∀ ip,
    (c.state.ratelimit.queue ip).length ≤ RATELIMIT_MAX) (fun _ => Nat.zero_le _) ?_ h
  intro c l s evs hreach ih _ hs ip
  have hstands := listener_stands hreach
  cases listenerStep_inv hs with
  | connects id ip' hnew =>
    show ((c.state.ratelimit.check c.state.now ip').2.queue ip).length ≤ RATELIMIT_MAX
    rw [RateLimiter.check_queue hstands.sound, hstands.bound]
    by_cases hip : ip = ip'
    · rw [hip, Function.update_self]
      exact length_take_le (ih ip')
    · rw [Function.update_of_ne hip]
      exact ih ip
  | cleans =>
    show ((c.state.ratelimit.cleanup c.state.now).queue ip).length ≤ RATELIMIT_MAX
    rw [RateLimiter.cleanup_queue hstands.sound]
    exact (List.dropWhile_suffix _).length_le.trans (ih ip)
  | serves => exact ih ip

/-- What a limiter that has just been cleaned up holds. -/
theorem recent_of_mem_cleanup (h : (listener N decode fill hub drawn).Reach G c) {ip : IpAddr}
    (hmem : ip ∈ (c.state.ratelimit.cleanup c.state.now).byIp) :
    ∃ t ∈ passed ip (checkedPast c.past), c.state.now ≤ t + RATELIMIT_WINDOW := by
  have hstands := listener_stands h
  rw [RateLimiter.mem_cleanup hstands.sound, hstands.span, (hstands.tracks ip).expire_eq] at hmem
  obtain ⟨t, ht⟩ := List.exists_mem_of_ne_nil _ hmem
  obtain ⟨hpassed, hrecent⟩ := List.mem_filter.mp ht
  exact ⟨t, hpassed, (of_decide_eq_true hrecent).2⟩

/-- Who has just been checked was let in of late, if not now. -/
theorem recent_of_check (h : (listener N decode fill hub drawn).Reach G c) (ip : IpAddr) :
    ∃ t ∈ passed ip (checkedPast c.past
        ++ [⟨c.state.now, ip, (c.state.ratelimit.check c.state.now ip).1⟩]),
      c.state.now ≤ t + RATELIMIT_WINDOW := by
  have hstands := listener_stands h
  cases hanswer : (c.state.ratelimit.check c.state.now ip).1 with
  | true =>
    refine ⟨c.state.now, ?_, Nat.le_add_right _ _⟩
    rw [passed_concat, if_pos rfl]
    exact List.mem_append_right _ (List.mem_singleton_self _)
  | false =>
    have hfull : recent RATELIMIT_WINDOW c.state.now (passed ip (checkedPast c.past)) ≠ [] := by
      intro hnone
      have hallowed := (hstands.check_fst ip).mpr (by rw [hnone]; decide)
      exact Bool.false_ne_true (hanswer.symm.trans hallowed)
    obtain ⟨t, ht⟩ := List.exists_mem_of_ne_nil _ hfull
    obtain ⟨hpassed, hrecent⟩ := List.mem_filter.mp ht
    exact ⟨t, passed_subset ip _ _ hpassed, (of_decide_eq_true hrecent).2⟩

/-- The state right after a cleanup. -/
def Listener.cleaned (s : Listener τ) : Listener τ :=
  { s with ratelimit := s.ratelimit.cleanup s.now }

/-- A cleanup can come at any time. -/
theorem reach_cleaned (h : (listener N decode fill hub drawn).Reach free c) :
    (listener N decode fill hub drawn).Reach free ⟨c.past, c.state.cleaned⟩ := by
  have hnext := Machine.Next.mk (M := listener N decode fill hub drawn) (G := free) (c := c)
    .cleanup c.state.cleaned [] trivial rfl
  rw [List.append_nil] at hnext
  exact h.tail hnext

/-- **From a cleanup on, the limiter holds who was let in since its window.** -/
theorem recent_since (h₀ : (listener N decode fill hub drawn).Reach free c₀)
    (hrun : (listener N decode fill hub drawn).Run free ⟨c₀.past, c₀.state.cleaned⟩ c) :
    c₀.state.now ≤ c.state.now ∧ ∀ ip ∈ c.state.ratelimit.byIp,
      ∃ t ∈ passed ip (checkedPast c.past), c₀.state.now ≤ t + RATELIMIT_WINDOW := by
  refine Machine.Run.invariant (P := fun c => c₀.state.now ≤ c.state.now
    ∧ ∀ ip ∈ c.state.ratelimit.byIp, ∃ t ∈ passed ip (checkedPast c.past),
      c₀.state.now ≤ t + RATELIMIT_WINDOW) hrun ⟨le_refl _, fun ip => recent_of_mem_cleanup h₀⟩ ?_
  intro d l s evs hd ih _ hs
  obtain ⟨hlater, hmem⟩ := ih
  have hreach := (reach_cleaned h₀).trans hd
  cases listenerStep_inv hs with
  | connects id ip hnew =>
    refine ⟨hlater, fun k hk => ?_⟩
    dsimp only
    rw [checkedPast_append]
    by_cases hkip : k = ip
    · -- the address that asks is recent now
      obtain ⟨t, hpassed, hnear⟩ := recent_of_check hreach k
      rw [← hkip]
      exact ⟨t, hpassed, hlater.trans hnear⟩
    · replace hk : k ∈ (d.state.ratelimit.check d.state.now ip).2.byIp := hk
      rw [RateLimiter.check_eq (listener_stands hreach).sound] at hk
      obtain ⟨t, hpassed, hnear⟩ := hmem k ((AList.mem_insert _).mp hk |>.resolve_left hkip)
      exact ⟨t, passed_subset k _ _ hpassed, hnear⟩
  | cleans =>
    rw [List.append_nil]
    -- whoever is left was recent at this cleanup, which is the later one
    refine ⟨hlater, fun k hk => ?_⟩
    obtain ⟨t, hpassed, hnear⟩ := recent_of_mem_cleanup hreach hk
    exact ⟨t, hpassed, hlater.trans hnear⟩
  | serves l service evs d' hspawned hclock hstep =>
    refine ⟨Nat.le_trans hlater (Nat.le_add_right _ _), ?_⟩
    dsimp only
    rw [checkedPast_append, checkedPast_map, List.append_nil]
    exact hmem

/-- **A flood of addresses does not make the limiter grow.** Up to a period after a cleanup, it has
no more entries than connections were let in within the last window and period, from whatever
addresses, and no entry is longer than the limit. -/
theorem limiter_small (h₀ : (listener N decode fill hub drawn).Reach free c₀)
    (hrun : (listener N decode fill hub drawn).Run free ⟨c₀.past, c₀.state.cleaned⟩ c)
    {period : Duration} (hperiod : c.state.now ≤ c₀.state.now + period) :
    c.state.ratelimit.byIp.keys.length ≤ ((checkedPast c.past).filter fun x =>
        x.allowed ∧ c.state.now ≤ x.now + RATELIMIT_WINDOW + period).length
      ∧ ∀ ip, (c.state.ratelimit.queue ip).length ≤ RATELIMIT_MAX := by
  refine ⟨?_, queue_short ((reach_cleaned h₀).trans hrun)⟩
  have hsub : c.state.ratelimit.byIp.keys ⊆ ((checkedPast c.past).filter fun x =>
      x.allowed ∧ c.state.now ≤ x.now + RATELIMIT_WINDOW + period).map Checked.ip := by
    intro ip hip
    obtain ⟨t, hpassed, hnear⟩ := (recent_since h₀ hrun).2 ip (AList.mem_keys.mpr hip)
    obtain ⟨x, hx, rfl, hallowed, rfl⟩ := exists_of_passed hpassed
    refine List.mem_map.mpr ⟨x, List.mem_filter.mpr ⟨hx, decide_eq_true ⟨hallowed, ?_⟩⟩, rfl⟩
    exact hperiod.trans (Nat.add_le_add_right hnear period)
  have hle := (List.subperm_of_subset c.state.ratelimit.byIp.keys_nodup hsub).length_le
  rw [List.length_map] at hle
  exact hle

end

/-! ## Two addresses -/

section

open Knock Cast

def loopback : IpAddr := .v4 (List.Vector.replicate 4 127)

def elsewhere : IpAddr := .v4 (List.Vector.replicate 4 10)

/-- Alice and Eve connect, from two addresses. -/
def twoCome : List ListenerLabel :=
  [.connect alice loopback, .connect eve elsewhere, .server (.accept alice)]

/-- Both are let in. -/
theorem door_fair_two :
    ∃ c, (listener clearNoise decodeKnown stream (hubWith "main") 1).Reach free c
      ∧ c.state.service.conns alice ≠ none ∧ c.state.sockets eve = some true
      ∧ {id | c.state.service.conns id ≠ none ∧ ∃ x, (id, x) ∈ arrivals c.past ∧ x.ip = loopback
          ∧ 0 ≤ x.now ∧ x.now ≤ 0 + RATELIMIT_WINDOW}.encard ≤ RATELIMIT_MAX := by
  obtain ⟨c, hc, hat⟩ := Machine.exec_reach_free
    (M := listener clearNoise decodeKnown stream (hubWith "main") 1)
    (fun c => ((c.state.service.conns alice).isSome,
      (arrivals c.past).map fun x => (x.1, x.2.ip)))
    (true, [(alice, loopback), (eve, elsewhere)]) twoCome (by decide)
  obtain ⟨halice, harrivals⟩ := Prod.mk.inj hat
  have hconn : c.state.service.conns alice ≠ none := by
    intro hnone
    rw [hnone] at halice
    cases halice
  have hlen : (arrivals c.past).length = 2 := by
    have hlen := congrArg List.length harrivals
    rw [List.length_map] at hlen
    exact hlen
  have heve : (eve, elsewhere) ∈ (arrivals c.past).map fun x => (x.1, x.2.ip) := by
    rw [harrivals]
    exact List.mem_cons_of_mem _ (List.mem_singleton_self _)
  obtain ⟨x, hx, hsame⟩ := List.mem_map.mp heve
  obtain ⟨hid, hip⟩ := Prod.mk.inj hsame
  have hsocket := (door_fair hc elsewhere).2
    (fun a => (List.length_filter_le ..).trans (by rw [hlen]; decide)) x hx hip
  rw [hid] at hsocket
  exact ⟨c, hc, hconn, hsocket, (door_fair hc loopback).1 0⟩

/-- A cleanup, and half a minute later Alice is still in the limiter. -/
theorem limiter_small_alice :
    ∃ c₀ c, (listener clearNoise decodeKnown stream (hubWith "main") 1).Reach free c₀
      ∧ (listener clearNoise decodeKnown stream (hubWith "main") 1).Run free
          ⟨c₀.past, c₀.state.cleaned⟩ c
      ∧ c.state.ratelimit.byIp.keys.length = 2
      ∧ ((checkedPast c.past).filter fun x =>
          x.allowed ∧ c.state.now ≤ x.now + RATELIMIT_WINDOW + 30).length ≥ 2 := by
  obtain ⟨c₀, c, h₀, hc, hbefore, hafter⟩ := Machine.exec_then
    (M := listener clearNoise decodeKnown stream (hubWith "main") 1)
    (fun _ _ => true) (fun _ _ => true) twoCome [.cleanup, .server (.elapse 30)]
    (fun c => c.state.now) 0
    (fun c => (c.state.now, c.state.ratelimit.byIp.keys.length)) (30, 2) (by decide)
  obtain ⟨hnow, hkeys⟩ := Prod.mk.inj hafter
  have hreach := Machine.exec_run (G := free) (fun _ _ _ => trivial) h₀
  obtain ⟨s, evs, hs, hc⟩ := Machine.exec_cons hc
  cases hs
  rw [List.append_nil] at hc
  have hrun := Machine.exec_run (G := free) (fun _ _ _ => trivial) hc
  have hperiod : c.state.now ≤ c₀.state.now + 30 := by rw [hnow, hbefore]
  have hsmall := (limiter_small hreach hrun hperiod).1
  rw [hkeys] at hsmall
  exact ⟨c₀, c, hreach, hrun, hkeys, hsmall⟩

end

end ChatRs

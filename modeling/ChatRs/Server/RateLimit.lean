import ChatRs.Lib.SlidingWindow
import ChatRs.RustStd

/-!
# The per-IP rate limiter (`server/ratelimit.rs`)

`RateLimiter` with its two operations, and any sequence of calls to them. Every address has a
sliding window of its own (`Lib.SlidingWindow`); `cleanup` trims all of them and drops those
that are empty, which is the same as keeping them.

* **`limiterRun`**: a sequence of calls, with the answers of the checks;
* **`limiterRun_stands`**: the queue of every address stands for its successful checks;
* **`limiter_exact`**: so each answer is a count, and `cleanup` cannot be seen in the answers.
-/

namespace ChatRs

open SlidingWindow

inductive IpAddr where
  | v4 (octets : ByteArr 4)
  | v6 (octets : ByteArr 16)
deriving DecidableEq

structure RateLimiter where
  byIp : AList fun _ : IpAddr => List Instant
  /-- A thread has panicked with the lock on `byIp`. -/
  poisoned : Bool
  window : Duration
  max : Nat

namespace RateLimiter

def new (maxPerWindow : Nat) (window : Duration) : RateLimiter where
  byIp := ∅
  poisoned := false
  window := window
  max := maxPerWindow

-- `entry(ip).or_default()`: an address without an entry gets one, allowed or not
def check (rl : RateLimiter) (now : Instant) (ip : IpAddr) : Bool × RateLimiter :=
  if rl.poisoned then (false, rl)
  else
    let entry := (rl.byIp.lookup ip).getD []
    let entry := entry.dropWhile fun t => now.durationSince t > rl.window
    if entry.length ≥ rl.max then (false, { rl with byIp := rl.byIp.insert ip entry })
    else (true, { rl with byIp := rl.byIp.insert ip (entry ++ [now]) })

def cleanup (rl : RateLimiter) (now : Instant) : RateLimiter :=
  if rl.poisoned then rl
  else
    { rl with
      byIp := retain (fun q => q.dropWhile fun t => now.durationSince t > rl.window)
        (fun q => !q.isEmpty) rl.byIp }

/-- The queue of an address, empty without an entry. -/
def queue (rl : RateLimiter) (ip : IpAddr) : List Instant := (rl.byIp.lookup ip).getD []

/-! ## The two operations on the queues -/

variable {rl : RateLimiter}

/-- A check is a question to the sliding window of the address. -/
theorem check_eq (hsound : rl.poisoned = false) (now : Instant) (ip : IpAddr) :
    rl.check now ip
      = ((take rl.max rl.window now (rl.queue ip)).1,
          { rl with byIp := rl.byIp.insert ip (take rl.max rl.window now (rl.queue ip)).2 }) := by
  rw [check, if_neg (by rw [hsound]; exact Bool.false_ne_true)]
  unfold take
  show (if (expire rl.window now (rl.queue ip)).length ≥ rl.max then _ else _) = _
  split <;> rfl

/-- A check leaves the queues of the others alone. -/
theorem check_queue (hsound : rl.poisoned = false) (now : Instant) (ip : IpAddr) :
    (rl.check now ip).2.queue
      = Function.update rl.queue ip (take rl.max rl.window now (rl.queue ip)).2 := by
  funext k
  rw [check_eq hsound, queue, lookup_insert_eq_update]
  exact Function.apply_update (fun _ (q : Option (List Instant)) => q.getD []) ..

/-- A cleanup trims every entry and drops those that are empty then. -/
theorem cleanup_lookup (hsound : rl.poisoned = false) (now : Instant) (ip : IpAddr) :
    (rl.cleanup now).byIp.lookup ip
      = ((rl.byIp.lookup ip).map (expire rl.window now)).filter fun q => !q.isEmpty := by
  rw [cleanup, if_neg (by rw [hsound]; exact Bool.false_ne_true)]
  exact lookup_retain ..

/-- A cleanup trims every queue. -/
theorem cleanup_queue (hsound : rl.poisoned = false) (now : Instant) (ip : IpAddr) :
    (rl.cleanup now).queue ip = expire rl.window now (rl.queue ip) := by
  rw [queue, cleanup_lookup hsound, queue]
  cases rl.byIp.lookup ip with
  | none => rfl
  | some q =>
    rw [Option.map_some, Option.filter_some]
    cases hexpire : expire rl.window now q with
    | nil => exact hexpire.symm
    | cons => exact hexpire.symm

/-- Behind a cleanup an address has an entry if there is something in it. -/
theorem mem_cleanup (hsound : rl.poisoned = false) (now : Instant) (ip : IpAddr) :
    ip ∈ (rl.cleanup now).byIp ↔ expire rl.window now (rl.queue ip) ≠ [] := by
  rw [← AList.lookup_isSome, cleanup_lookup hsound, queue]
  cases rl.byIp.lookup ip with
  | none => exact ⟨nofun, fun h => absurd rfl h⟩
  | some q =>
    rw [Option.map_some, Option.filter_some, Option.getD_some]
    cases hexpire : expire rl.window now q with
    | nil => exact ⟨nofun, fun h => absurd rfl h⟩
    | cons => exact ⟨fun _ => nofun, fun _ => rfl⟩

end RateLimiter

/-! ## Calls -/

inductive LimiterCall where
  | check (ip : IpAddr)
  | cleanup
deriving DecidableEq

/-- A check and its answer. -/
structure Checked where
  now : Instant
  ip : IpAddr
  allowed : Bool
deriving DecidableEq

def limiterStep (s : List Checked × RateLimiter) :
    Instant × LimiterCall → List Checked × RateLimiter
  | (now, .check ip) => (s.1 ++ [⟨now, ip, (s.2.check now ip).1⟩], (s.2.check now ip).2)
  | (now, .cleanup) => (s.1, s.2.cleanup now)

/-- A sequence of calls to a new limiter: the answers, and where it stands then. -/
def limiterRun (max : Nat) (window : Duration) (calls : List (Instant × LimiterCall)) :
    List Checked × RateLimiter :=
  calls.foldl limiterStep ([], .new max window)

/-- The instants of the successful checks of an address. -/
def passed (ip : IpAddr) (log : List Checked) : List Instant :=
  log.filterMap fun c => if c.ip = ip ∧ c.allowed then some c.now else none

/-- One more check in the log. -/
theorem passed_concat (k : IpAddr) (log : List Checked) (now : Instant) (ip : IpAddr)
    (allowed : Bool) :
    passed k (log ++ [⟨now, ip, allowed⟩])
      = if ip = k then record (passed k log) now allowed else passed k log := by
  unfold passed record
  rw [List.filterMap_append]
  by_cases hip : ip = k
  · cases allowed <;> simp [hip]
  · simp [hip]

theorem limiterRun_concat (max : Nat) (window : Duration)
    (calls : List (Instant × LimiterCall)) (call : Instant × LimiterCall) :
    limiterRun max window (calls ++ [call]) = limiterStep (limiterRun max window calls) call :=
  List.foldl_concat ..

/-- Where a limiter stands after calls with these answers. -/
structure Stands (max : Nat) (window : Duration) (now : Instant) (s : List Checked × RateLimiter) :
    Prop where
  sound : s.2.poisoned = false
  bound : s.2.max = max
  span : s.2.window = window
  tracks : ∀ ip, Tracks window now (passed ip s.1) (s.2.queue ip)

/-- Time that passes takes nothing from what stands. -/
theorem Stands.later {max : Nat} {window : Duration} {now now' : Instant}
    {s : List Checked × RateLimiter} (h : Stands max window now s) (hle : now ≤ now') :
    Stands max window now' s :=
  ⟨h.sound, h.bound, h.span, fun ip => (h.tracks ip).later hle⟩

/-- A call keeps the queues what the log says they are. -/
theorem Stands.step {max : Nat} {window : Duration} {now : Instant}
    {s : List Checked × RateLimiter} (h : Stands max window now s) (call : LimiterCall) :
    Stands max window now (limiterStep s (now, call)) := by
  cases call with
  | check ip =>
    rw [limiterStep, RateLimiter.check_eq h.sound]
    refine ⟨h.sound, h.bound, h.span, fun k => ?_⟩
    have hqueue := congrFun (RateLimiter.check_queue h.sound now ip) k
    rw [RateLimiter.check_eq h.sound] at hqueue
    rw [passed_concat, hqueue, h.bound, h.span]
    rcases eq_or_ne ip k with rfl | hne
    · rw [if_pos rfl, Function.update_self]
      exact (h.tracks ip).take
    · rw [if_neg hne, Function.update_of_ne hne.symm]
      exact h.tracks k
  | cleanup =>
    have hframe : (s.2.cleanup now).poisoned = s.2.poisoned ∧ (s.2.cleanup now).max = s.2.max
        ∧ (s.2.cleanup now).window = s.2.window := by
      unfold RateLimiter.cleanup
      split <;> exact ⟨rfl, rfl, rfl⟩
    rw [limiterStep]
    refine ⟨hframe.1.trans h.sound, hframe.2.1.trans h.bound, hframe.2.2.trans h.span, ?_⟩
    intro ip
    rw [RateLimiter.cleanup_queue h.sound, h.span]
    exact (h.tracks ip).expire

/-- **Every queue stands for the successful checks of its address.** -/
theorem limiterRun_stands (max : Nat) (window : Duration) {calls : List (Instant × LimiterCall)}
    (hcalls : Chronological calls) {now : Instant} (hnow : ∀ call ∈ calls, call.1 ≤ now) :
    Stands max window now (limiterRun max window calls) := by
  induction calls using List.reverseRecOn generalizing now with
  | nil => exact ⟨rfl, rfl, rfl, fun ip => .nil⟩
  | append_singleton calls call ih =>
    obtain ⟨hbefore, hlast⟩ := chronological_concat.mp hcalls
    rw [limiterRun_concat]
    refine ((ih hbefore hlast).step call.2).later (hnow call ?_)
    exact List.mem_append_right calls (List.mem_singleton_self call)

/-- A check is allowed if fewer than the limit were let in within the window. -/
theorem Stands.check_fst {max : Nat} {window : Duration} {now : Instant}
    {s : List Checked × RateLimiter} (h : Stands max window now s) (ip : IpAddr) :
    (s.2.check now ip).1 = true ↔ (recent window now (passed ip s.1)).length < max := by
  rw [RateLimiter.check_eq h.sound, h.bound, h.span]
  exact (h.tracks ip).take_fst

/-! ## Cleanups do not show -/

/-- The calls without the cleanups. -/
def checksOf (calls : List (Instant × LimiterCall)) : List (Instant × LimiterCall) :=
  calls.filter fun call => call.2 ≠ .cleanup

/-- The checks among the calls, without the cleanups. -/
theorem checksOf_concat (calls : List (Instant × LimiterCall)) (now : Instant)
    (call : LimiterCall) :
    checksOf (calls ++ [(now, call)])
      = if call = .cleanup then checksOf calls else checksOf calls ++ [(now, call)] := by
  unfold checksOf
  rw [List.filter_append]
  by_cases hcall : call = .cleanup <;> simp [hcall]

/-- The answers are the same without the cleanups. -/
theorem limiterRun_checksOf (max : Nat) (window : Duration)
    {calls : List (Instant × LimiterCall)} (hcalls : Chronological calls) :
    (limiterRun max window (checksOf calls)).1 = (limiterRun max window calls).1 := by
  induction calls using List.reverseRecOn with
  | nil => rfl
  | append_singleton calls call ih =>
    obtain ⟨hbefore, hlast⟩ := chronological_concat.mp hcalls
    have hsame := ih hbefore
    have hstands := limiterRun_stands max window hbefore hlast
    have hstands' : Stands max window call.1 (limiterRun max window (checksOf calls)) :=
      limiterRun_stands max window (hbefore.sublist List.filter_sublist)
        fun c hc => hlast c (List.mem_of_mem_filter hc)
    obtain ⟨now, call⟩ := call
    rw [checksOf_concat, limiterRun_concat]
    cases call with
    | cleanup => exact hsame
    | check ip =>
      rw [if_neg nofun, limiterRun_concat]
      have hanswer : ((limiterRun max window (checksOf calls)).2.check now ip).1
          = ((limiterRun max window calls).2.check now ip).1 := by
        apply Bool.eq_iff_iff.mpr
        rw [hstands'.check_fst, hstands.check_fst, hsame]
      rw [limiterStep, limiterStep, hsame, hanswer]

/-! ## The limiter -/

/-- **The limiter is exact, and its cleanups are invisible.** After any calls at instants that do
not decrease: a check succeeds exactly if fewer than `max` of the successful checks of its
address lie in the window that ends now; calls that differ in their cleanups only have got the
same answers; and right behind a cleanup just the addresses with a successful check in the window
have an entry. -/
theorem limiter_exact (max : Nat) (window : Duration) (calls : List (Instant × LimiterCall))
    (hcalls : Chronological calls) :
    (∀ now ip, (∀ call ∈ calls, call.1 ≤ now) →
        (((limiterRun max window calls).2.check now ip).1 = true
          ↔ (recent window now (passed ip (limiterRun max window calls).1)).length < max))
      ∧ (∀ calls', Chronological calls' → checksOf calls' = checksOf calls →
          (limiterRun max window calls').1 = (limiterRun max window calls).1)
      ∧ ∀ now ip, (∀ call ∈ calls, call.1 ≤ now) →
          (ip ∈ (limiterRun max window (calls ++ [(now, .cleanup)])).2.byIp
            ↔ ∃ t ∈ passed ip (limiterRun max window calls).1, t ≤ now ∧ now ≤ t + window) := by
  refine ⟨fun now ip hnow => (limiterRun_stands max window hcalls hnow).check_fst ip,
    fun calls' hcalls' hsame => ?_, fun now ip hnow => ?_⟩
  · rw [← limiterRun_checksOf max window hcalls', hsame, limiterRun_checksOf max window hcalls]
  · have hstands := limiterRun_stands max window hcalls hnow
    rw [limiterRun_concat]
    show ip ∈ ((limiterRun max window calls).2.cleanup now).byIp ↔ _
    rw [RateLimiter.mem_cleanup hstands.sound, hstands.span, (hstands.tracks ip).expire_eq,
      recent, ne_eq, List.filter_eq_nil_iff]
    simp only [decide_eq_true_eq, not_forall, not_not, exists_prop]

/-- The third of three checks within the window is refused, and the fourth one is allowed, a
cleanup or not. -/
theorem limiter_exact_three :
    let a : IpAddr := .v4 (List.Vector.replicate 4 127)
    let calls := [(0, .check a), (40, .check a), (60, .check a), (61, .cleanup)]
    (limiterRun 2 60 calls).1 = [⟨0, a, true⟩, ⟨40, a, true⟩, ⟨60, a, false⟩]
      ∧ ((limiterRun 2 60 calls).2.check 61 a).1 = true
      ∧ (limiterRun 2 60 [(0, .check a), (10, .cleanup), (40, .check a), (60, .check a)]).1
        = (limiterRun 2 60 calls).1
      ∧ a ∈ (limiterRun 2 60 (calls ++ [(61, .cleanup)])).2.byIp := by
  intro a calls
  have hcalls : Chronological calls := by simp [Chronological, calls]
  have hnow : ∀ call ∈ calls, call.1 ≤ 61 := by simp [calls]
  have hanswers : (limiterRun 2 60 calls).1 = [⟨0, a, true⟩, ⟨40, a, true⟩, ⟨60, a, false⟩] := by
    decide
  obtain ⟨hexact, hinvisible, hcleanup⟩ := limiter_exact 2 60 calls hcalls
  refine ⟨hanswers, (hexact 61 a hnow).mpr ?_, hinvisible _ ?_ rfl, (hcleanup 61 a hnow).mpr ?_⟩
  · rw [hanswers]
    decide
  · simp [Chronological]
  · rw [hanswers]
    exact ⟨40, by decide, by decide, by decide⟩

end ChatRs

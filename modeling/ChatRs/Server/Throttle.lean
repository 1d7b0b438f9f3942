import ChatRs.Lib.SlidingWindow
import ChatRs.Server.Room

/-!
# The throttles of a session (`server/stores.rs`)

`try_consume_message_quota` and `try_consume_clear`, over any sequence of calls to a session
store. A call looks at the session of one user id and changes nothing else, so a sequence of
calls is one sequence for each session:

* **`entryCall`**: what a call does to its own session; **`call_entry`**: nothing else happens;
* **`granted`**: when a session was granted what it asked for;
* **`storeRun_throttled`**: its two fields keep what the answers depend on;
* **`throttles_exact`**: so the answers are those of a sliding limit and of a cooldown.
-/

namespace ChatRs

open SlidingWindow

inductive SessionCall where
  | insert (userId : Uuid) (username : String)
  | touch (userId : Uuid)
  | advance (userId : Uuid) (counter : UInt64)
  | message (userId : Uuid)
  | clear (userId : Uuid)
  | remove (userId : Uuid)
deriving DecidableEq

namespace SessionCall

def userId : SessionCall → Uuid
  | insert id _ | touch id | advance id _ | message id | clear id | remove id => id

def inserts : SessionCall → Bool
  | insert _ _ => true
  | _ => false

end SessionCall

/-- One call to the store: what it returns (`true` where it returns nothing). -/
def UserSessionStore.call (s : UserSessionStore) (now : Instant) :
    SessionCall → Bool × UserSessionStore
  | .insert id username => (true, s.insert now id username)
  | .touch id => (true, s.touch now id)
  | .advance id counter => s.tryAdvanceCounter id counter
  | .message id => s.tryConsumeMessageQuota now id
  | .clear id => s.tryConsumeClear now id
  | .remove id => (true, s.remove id)

/-- A call and its answer. -/
structure Answered where
  now : Instant
  call : SessionCall
  answer : Bool
deriving DecidableEq

def storeStep (s : List Answered × UserSessionStore) (call : Instant × SessionCall) :
    List Answered × UserSessionStore :=
  (s.1 ++ [⟨call.1, call.2, (s.2.call call.1 call.2).1⟩], (s.2.call call.1 call.2).2)

/-- A sequence of calls to a new store: the answers, and the store then. -/
def storeRun (timeout : Duration) (calls : List (Instant × SessionCall)) :
    List Answered × UserSessionStore :=
  calls.foldl storeStep ([], .new timeout)

theorem storeRun_concat (timeout : Duration) (calls : List (Instant × SessionCall))
    (call : Instant × SessionCall) :
    storeRun timeout (calls ++ [call]) = storeStep (storeRun timeout calls) call :=
  List.foldl_concat ..

/-! ## One session -/

/-- What a call does to the session that it is about. -/
def entryCall (entry : Option UserSession) (now : Instant) :
    SessionCall → Bool × Option UserSession
  | .insert id username => (true, some ⟨id, username, now, 0, [], none⟩)
  | .touch _ => (true, entry.map fun u => { u with lastActive := now })
  | .advance _ counter =>
    match entry with
    | none => (false, none)
    | some u =>
      if counter > u.lastCounter then (true, some { u with lastCounter := counter })
      else (false, some u)
  | .message _ =>
    match entry with
    | none => (false, none)
    | some u =>
      ((take MSG_RATE_MAX MSG_RATE_WINDOW now u.messageWindow).1,
        some { u with messageWindow :=
          (take MSG_RATE_MAX MSG_RATE_WINDOW now u.messageWindow).2 })
  | .clear _ =>
    match entry with
    | none => (false, none)
    | some u =>
      if u.lastClear.any fun prev => now.durationSince prev < CLEAR_COOLDOWN then (false, some u)
      else (true, some { u with lastClear := some now })
  | .remove _ => (true, none)

/-- A session that is written back as it was. -/
theorem update_lookup_self (s : UserSessionStore) (id : Uuid) {entry : Option UserSession}
    (h : s.sessions.lookup id = entry) :
    (fun k => s.sessions.lookup k) = Function.update (fun k => s.sessions.lookup k) id entry := by
  rw [← h]
  exact (Function.update_eq_self id _).symm

/-- The quota is a question to the sliding window of the session. -/
theorem tryConsumeMessageQuota_eq (s : UserSessionStore) (now : Instant) {id : Uuid}
    {u : UserSession} (hu : s.sessions.lookup id = some u) :
    s.tryConsumeMessageQuota now id
      = ((take MSG_RATE_MAX MSG_RATE_WINDOW now u.messageWindow).1,
          s.set id { u with messageWindow :=
            (take MSG_RATE_MAX MSG_RATE_WINDOW now u.messageWindow).2 }) := by
  rw [UserSessionStore.tryConsumeMessageQuota, hu]
  unfold take
  show (if (expire MSG_RATE_WINDOW now u.messageWindow).length ≥ MSG_RATE_MAX then _ else _) = _
  split <;> rfl

/-- **A call is about one session**: it looks at it alone, and writes to no other. -/
theorem call_entry (s : UserSessionStore) (now : Instant) (call : SessionCall) :
    (s.call now call).1 = (entryCall (s.sessions.lookup call.userId) now call).1
      ∧ (fun k => (s.call now call).2.sessions.lookup k)
        = Function.update (fun k => s.sessions.lookup k) call.userId
            (entryCall (s.sessions.lookup call.userId) now call).2 := by
  -- the store is a map, and a call writes one of its entries
  have writes (id : Uuid) (u : UserSession) :
      (fun k => (s.set id u).sessions.lookup k)
        = Function.update (fun k => s.sessions.lookup k) id (some u) :=
    funext fun k => lookup_insert_eq_update s.sessions id k u
  cases call with
  | insert id username => exact ⟨rfl, writes id _⟩
  | remove id => exact ⟨rfl, funext fun k => lookup_erase_eq_update s.sessions id k⟩
  | touch id =>
    refine ⟨rfl, ?_⟩
    show (fun k => (s.touch now id).sessions.lookup k) = _
    unfold UserSessionStore.touch SessionCall.userId entryCall
    cases hentry : s.sessions.lookup id with
    | none => exact update_lookup_self s id hentry
    | some u => exact writes id _
  | advance id counter =>
    show (s.tryAdvanceCounter id counter).1 = _
      ∧ (fun k => (s.tryAdvanceCounter id counter).2.sessions.lookup k) = _
    unfold UserSessionStore.tryAdvanceCounter SessionCall.userId entryCall
    cases hentry : s.sessions.lookup id with
    | none => exact ⟨rfl, update_lookup_self s id hentry⟩
    | some u =>
      dsimp only
      split
      · exact ⟨rfl, writes id _⟩
      · exact ⟨rfl, update_lookup_self s id hentry⟩
  | message id =>
    show (s.tryConsumeMessageQuota now id).1 = (entryCall (s.sessions.lookup id) now _).1
      ∧ (fun k => (s.tryConsumeMessageQuota now id).2.sessions.lookup k)
        = Function.update _ id (entryCall (s.sessions.lookup id) now _).2
    cases hentry : s.sessions.lookup id with
    | none =>
      rw [UserSessionStore.tryConsumeMessageQuota, hentry]
      exact ⟨rfl, update_lookup_self s id hentry⟩
    | some u =>
      -- the window is written back whether it grants the message or not
      rw [tryConsumeMessageQuota_eq s now hentry]
      exact ⟨rfl, writes id _⟩
  | clear id =>
    show (s.tryConsumeClear now id).1 = _
      ∧ (fun k => (s.tryConsumeClear now id).2.sessions.lookup k) = _
    unfold UserSessionStore.tryConsumeClear SessionCall.userId entryCall
    cases hentry : s.sessions.lookup id with
    | none => exact ⟨rfl, update_lookup_self s id hentry⟩
    | some u =>
      dsimp only
      split
      · exact ⟨rfl, update_lookup_self s id hentry⟩
      · exact ⟨rfl, writes id _⟩

/-! ## What a session was granted -/

/-- The answers to a session, from its insertion on. -/
def lifeOf (id : Uuid) (log : List Answered) : List Answered :=
  (log.filter fun a => a.call.userId = id).rtakeWhile fun a => !a.call.inserts

/-- When its session got `true` for this call. -/
def granted (call : SessionCall) (log : List Answered) : List Instant :=
  ((lifeOf call.userId log).filter fun a => a.call = call ∧ a.answer).map Answered.now

/-- What a call adds to it. -/
def grantedNext (asked : SessionCall) (times : List Instant) (a : Answered) : List Instant :=
  if a.call.userId = asked.userId ∧ a.call.inserts then []
  else if a.call = asked then record times a.now a.answer
  else times

/-- What was granted, with one more answer. -/
theorem granted_concat (asked : SessionCall) (log : List Answered) (a : Answered) :
    granted asked (log ++ [a]) = grantedNext asked (granted asked log) a := by
  have hlast : [a].filter (fun a => a.call.userId = asked.userId)
      = if a.call.userId = asked.userId then [a] else [] := by
    simp only [List.filter_cons, List.filter_nil, decide_eq_true_eq]
  unfold granted lifeOf grantedNext record
  rw [List.filter_append, hlast]
  by_cases hid : a.call.userId = asked.userId
  · rw [if_pos hid, List.rtakeWhile_concat]
    cases hinserts : a.call.inserts with
    | true => simp [hid]
    | false =>
      by_cases hsame : a.call = asked
      · cases hanswer : a.answer <;> simp [hsame, hanswer]
      · simp [hsame]
  · have hother : a.call ≠ asked := fun heq => hid (congrArg SessionCall.userId heq)
    rw [if_neg hid, List.append_nil]
    simp [hid, hother]

theorem grantedNext_self {asked : SessionCall} (hasked : asked.inserts = false)
    (times : List Instant) (now : Instant) (answer : Bool) :
    grantedNext asked times ⟨now, asked, answer⟩ = record times now answer := by
  rw [grantedNext, if_neg (by rw [hasked]; exact fun h => nomatch h.2), if_pos rfl]

/-- An answer to somebody else, or to another question, grants nothing here. -/
theorem grantedNext_other {asked call : SessionCall}
    (hcall : call.userId ≠ asked.userId ∨ (call.inserts = false ∧ call ≠ asked))
    (times : List Instant) (now : Instant) (answer : Bool) :
    grantedNext asked times ⟨now, call, answer⟩ = times := by
  unfold grantedNext
  rcases hcall with hid | ⟨hinserts, hcall⟩
  · rw [if_neg fun h => hid h.1, if_neg fun h => hid (congrArg SessionCall.userId h)]
  · rw [if_neg (by rw [hinserts]; exact fun h => nomatch h.2), if_neg hcall]

/-- A session of which this much was granted, and of its successor nothing. -/
structure Throttled (now : Instant) (messages clears : List Instant)
    (entry : Option UserSession) : Prop where
  sparse : Sparse MSG_RATE_MAX MSG_RATE_WINDOW messages
  spaced : Spaced CLEAR_COOLDOWN clears
  past : ∀ t ∈ clears, t ≤ now
  window : ∀ u, entry = some u → Tracks MSG_RATE_WINDOW now messages u.messageWindow
  short : ∀ u, entry = some u → u.messageWindow.length ≤ MSG_RATE_MAX
  last : ∀ u, entry = some u → u.lastClear = clears.getLast?

/-- No session, and nothing granted. -/
theorem Throttled.none (now : Instant) : Throttled now [] [] none :=
  ⟨.nil, .nil, nofun, nofun, nofun, nofun⟩

namespace Throttled

variable {now now' : Instant} {messages clears : List Instant} {entry : Option UserSession}

/-- Time that passes leaves a session in step with its grants. -/
theorem later (h : Throttled now messages clears entry) (hle : now ≤ now') :
    Throttled now' messages clears entry :=
  ⟨h.sparse, h.spaced, fun t ht => (h.past t ht).trans hle, fun u hu => (h.window u hu).later hle,
    h.short, h.last⟩

/-- A session with another one's window and last clear. -/
theorem alike (h : Throttled now messages clears entry) {entry' : Option UserSession}
    (hsame : ∀ u', entry' = some u' → ∃ u, entry = some u
      ∧ u'.messageWindow = u.messageWindow ∧ u'.lastClear = u.lastClear) :
    Throttled now messages clears entry' := by
  refine ⟨h.sparse, h.spaced, h.past, ?_, ?_, ?_⟩
  all_goals
    intro u' hu'
    obtain ⟨u, hu, hwindow, hlast⟩ := hsame u' hu'
  · rw [hwindow]
    exact h.window u hu
  · rw [hwindow]
    exact h.short u hu
  · rw [hlast]
    exact h.last u hu

/-- The cooldown goes by the last clear, and so by all of them. -/
theorem cooled_iff (h : Throttled now messages clears entry) {u : UserSession}
    (hu : entry = some u) :
    (u.lastClear.any fun prev => now.durationSince prev < CLEAR_COOLDOWN) = false
      ↔ ∀ t ∈ clears, t + CLEAR_COOLDOWN ≤ now := by
  rw [h.last u hu]
  exact h.spaced.clear_iff h.past

/-- What a session may ask for at `now`. -/
theorem answers (h : Throttled now messages clears entry) (id : Uuid) :
    ((entryCall entry now (.message id)).1 = true
        ↔ entry.isSome ∧ (recent MSG_RATE_WINDOW now messages).length < MSG_RATE_MAX)
      ∧ ((entryCall entry now (.clear id)).1 = true
        ↔ entry.isSome ∧ ∀ t ∈ clears, t + CLEAR_COOLDOWN ≤ now) := by
  cases hentry : entry with
  | none => exact ⟨⟨nofun, fun h => nomatch h.1⟩, ⟨nofun, fun h => nomatch h.1⟩⟩
  | some u =>
    constructor
    · rw [← (h.window u hentry).take_fst]
      exact ⟨fun hanswer => ⟨rfl, hanswer⟩, fun hanswer => hanswer.2⟩
    · rw [← h.cooled_iff hentry, entryCall]
      cases hcooled : u.lastClear.any fun prev => now.durationSince prev < CLEAR_COOLDOWN with
      | true => exact ⟨nofun, fun hanswer => nomatch hanswer.2⟩
      | false => exact ⟨fun _ => ⟨rfl, rfl⟩, fun _ => rfl⟩

/-- **A call keeps the two fields in step** with what was granted. -/
theorem call (h : Throttled now messages clears entry) (call : SessionCall) :
    Throttled now
      (grantedNext (.message call.userId) messages ⟨now, call, (entryCall entry now call).1⟩)
      (grantedNext (.clear call.userId) clears ⟨now, call, (entryCall entry now call).1⟩)
      (entryCall entry now call).2 := by
  -- a call that neither inserts nor asks
  have quiet {call : SessionCall} {answer : Bool} {entry' : Option UserSession}
      (hinserts : call.inserts = false) (hmessage : ∀ id, call ≠ .message id)
      (hclear : ∀ id, call ≠ .clear id) (h' : Throttled now messages clears entry') :
      Throttled now (grantedNext (.message call.userId) messages ⟨now, call, answer⟩)
        (grantedNext (.clear call.userId) clears ⟨now, call, answer⟩) entry' := by
    rw [grantedNext_other (.inr ⟨hinserts, hmessage _⟩),
      grantedNext_other (.inr ⟨hinserts, hclear _⟩)]
    exact h'
  cases call with
  | insert id username =>
    -- a new session starts with two empty records
    rw [grantedNext, if_pos ⟨rfl, rfl⟩, grantedNext, if_pos ⟨rfl, rfl⟩]
    refine ⟨.nil, .nil, nofun, fun u hu => ?_, fun u hu => ?_, fun u hu => ?_⟩
    all_goals cases hu
    · exact .nil
    · exact Nat.zero_le _
    · rfl
  | touch id =>
    -- only `last_active` is written
    refine quiet rfl nofun nofun (h.alike fun u' hu' => ?_)
    obtain ⟨u, hu, rfl⟩ := Option.map_eq_some_iff.mp hu'
    exact ⟨u, hu, rfl, rfl⟩
  | remove id =>
    exact quiet rfl nofun nofun ⟨h.sparse, h.spaced, h.past, nofun, nofun, nofun⟩
  | advance id counter =>
    -- at most the counter is written
    refine quiet rfl nofun nofun (h.alike fun u' hu' => ?_)
    unfold entryCall at hu'
    cases hentry : entry with
    | none =>
      rw [hentry] at hu'
      cases hu'
    | some u =>
      rw [hentry] at hu'
      dsimp only at hu'
      refine ⟨u, rfl, ?_⟩
      split at hu' <;> cases hu' <;> exact ⟨rfl, rfl⟩
  | message id =>
    have hne : SessionCall.message id ≠ .clear id := nofun
    have hother := grantedNext_other (.inr ⟨rfl, hne⟩) clears now
    rw [SessionCall.userId, grantedNext_self rfl, hother]
    cases entry with
    | none => exact h
    | some u =>
      have hwindow := h.window u rfl
      -- the window takes the instant exactly if it grants the message
      refine ⟨h.sparse.take hwindow, h.spaced, h.past, fun u' hu' => ?_, fun u' hu' => ?_,
        fun u' hu' => ?_⟩
      all_goals cases hu'
      · exact hwindow.take
      · exact length_take_le (h.short u rfl)
      · exact h.last u rfl
  | clear id =>
    have hne : SessionCall.clear id ≠ .message id := nofun
    have hother := grantedNext_other (.inr ⟨rfl, hne⟩) messages now
    rw [SessionCall.userId, hother, grantedNext_self rfl]
    cases entry with
    | none => exact h
    | some u =>
      have hcooled := h.cooled_iff rfl
      unfold entryCall
      dsimp only
      split
      · exact h
      · rename_i hfree
        -- granted: the cooldown is over for every earlier clear, and this one is the last
        have hall := hcooled.mp (Bool.eq_false_iff.mpr hfree)
        refine ⟨h.sparse, h.spaced.concat hall, fun t ht => ?_, fun u' hu' => ?_,
          fun u' hu' => ?_, fun u' hu' => ?_⟩
        · rcases List.mem_append.mp ht with ht | ht
          · exact h.past t ht
          · exact (List.mem_singleton.mp ht).le
        all_goals cases hu'
        · exact h.window u rfl
        · exact h.short u rfl
        · exact List.getLast?_concat.symm

end Throttled

/-! ## Runs of a store -/

/-- **The two fields of every session keep what its answers depend on.** -/
theorem storeRun_throttled (timeout : Duration) {calls : List (Instant × SessionCall)}
    (hcalls : Chronological calls) {now : Instant} (hnow : ∀ call ∈ calls, call.1 ≤ now)
    (id : Uuid) :
    Throttled now (granted (.message id) (storeRun timeout calls).1)
      (granted (.clear id) (storeRun timeout calls).1)
      ((storeRun timeout calls).2.sessions.lookup id) := by
  induction calls using List.reverseRecOn generalizing now with
  | nil => exact .none now
  | append_singleton calls call ih =>
    obtain ⟨hbefore, hlast⟩ := chronological_concat.mp hcalls
    have h := ih hbefore hlast
    have hle : call.1 ≤ now := hnow call (List.mem_append_right _ (List.mem_singleton_self call))
    obtain ⟨t, call⟩ := call
    obtain ⟨hanswer, hentry⟩ := call_entry (storeRun timeout calls).2 t call
    have hlookup := congrFun hentry id
    rw [storeRun_concat, storeStep, granted_concat, granted_concat]
    dsimp only at hlookup ⊢
    rw [hlookup]
    rcases eq_or_ne id call.userId with rfl | hne
    · rw [Function.update_self, hanswer]
      exact (h.call call).later hle
    · rw [Function.update_of_ne hne, grantedNext_other (.inl hne.symm),
        grantedNext_other (.inl hne.symm)]
      exact h.later hle

/-- **The sessions do not interfere**: without the calls of the others a session is the same, and
has got the same answers. -/
theorem storeRun_filter (timeout : Duration) (calls : List (Instant × SessionCall)) (id : Uuid) :
    (storeRun timeout (calls.filter fun call => call.2.userId = id)).1
        = (storeRun timeout calls).1.filter (fun a => a.call.userId = id)
      ∧ (storeRun timeout (calls.filter fun call => call.2.userId = id)).2.sessions.lookup id
        = (storeRun timeout calls).2.sessions.lookup id := by
  induction calls using List.reverseRecOn with
  | nil => exact ⟨rfl, rfl⟩
  | append_singleton calls call ih =>
    obtain ⟨hlog, hsame⟩ := ih
    have hlast : [call].filter (fun call => call.2.userId = id)
        = if call.2.userId = id then [call] else [] := by
      simp only [List.filter_cons, List.filter_nil, decide_eq_true_eq]
    obtain ⟨hanswer, hentry⟩ := call_entry (storeRun timeout calls).2 call.1 call.2
    have hlookup := congrFun hentry id
    rw [List.filter_append, hlast, storeRun_concat]
    unfold storeStep
    dsimp only at hlookup ⊢
    rw [List.filter_append, List.filter_cons, List.filter_nil, hlookup]
    by_cases hid : call.2.userId = id
    · obtain ⟨hanswer', hentry'⟩ := call_entry
        (storeRun timeout (calls.filter fun call => call.2.userId = id)).2 call.1 call.2
      have hlookup' := congrFun hentry' id
      subst hid
      rw [Function.update_self] at hlookup'
      rw [if_pos rfl, storeRun_concat, storeStep, if_pos (decide_eq_true rfl),
        Function.update_self]
      dsimp only at hlookup' ⊢
      rw [hlookup', hlog, hanswer, hanswer', hsame]
      exact ⟨rfl, rfl⟩
    · rw [if_neg hid, if_neg (by rwa [decide_eq_true_eq]), List.append_nil, List.append_nil,
        Function.update_of_ne (fun h => hid h.symm)]
      exact ⟨hlog, hsame⟩

/-- **The throttles are exact.** After any calls at instants that do not decrease, for the session
of every user id: a message passes exactly if fewer than `MSG_RATE_MAX` of those that passed lie
in the window that ends now, and one that does not pass leaves it at that; a clear passes exactly
if all that passed are `CLEAR_COOLDOWN` ago. So no span of the window holds more than
`MSG_RATE_MAX` passed messages, the queue of a session is never longer than that, and passed
clears are `CLEAR_COOLDOWN` apart. The calls of other sessions make no difference. -/
theorem throttles_exact (timeout : Duration) (calls : List (Instant × SessionCall))
    (hcalls : Chronological calls) {log : List Answered} {s : UserSessionStore}
    (hrun : storeRun timeout calls = (log, s)) :
    (∀ id now, (∀ call ∈ calls, call.1 ≤ now) →
        ((s.tryConsumeMessageQuota now id).1 = true ↔ s.Present id
          ∧ (recent MSG_RATE_WINDOW now (granted (.message id) log)).length < MSG_RATE_MAX)
        ∧ ((s.tryConsumeMessageQuota now id).1 = false →
          granted (.message id) (storeRun timeout (calls ++ [(now, .message id)])).1
            = granted (.message id) log)
        ∧ ((s.tryConsumeClear now id).1 = true ↔ s.Present id
          ∧ ∀ t ∈ granted (.clear id) log, t + CLEAR_COOLDOWN ≤ now))
      ∧ (∀ id, Sparse MSG_RATE_MAX MSG_RATE_WINDOW (granted (.message id) log)
        ∧ Spaced CLEAR_COOLDOWN (granted (.clear id) log))
      ∧ (∀ id u, s.sessions.lookup id = some u → u.messageWindow.length ≤ MSG_RATE_MAX)
      ∧ ∀ id, (storeRun timeout (calls.filter fun call => call.2.userId = id)).1
          = log.filter fun a => a.call.userId = id := by
  have hlog : (storeRun timeout calls).1 = log := congrArg Prod.fst hrun
  have hs : (storeRun timeout calls).2 = s := congrArg Prod.snd hrun
  -- the fields of a session agree with its log, at every instant from the last call on
  have hthrottled {now : Instant} (hnow : ∀ call ∈ calls, call.1 ≤ now) (id : Uuid) :
      Throttled now (granted (.message id) log) (granted (.clear id) log)
        (s.sessions.lookup id) := by
    rw [← hlog, ← hs]
    exact storeRun_throttled timeout hcalls hnow id
  obtain ⟨last, hlast⟩ := exists_end calls
  refine ⟨fun id now hnow => ?_, fun id => ?_, fun id => (hthrottled hlast id).short, fun id => ?_⟩
  · have hanswers := (hthrottled hnow id).answers id
    have hmessage : (s.tryConsumeMessageQuota now id).1 = _ :=
      (call_entry s now (.message id)).1
    have hclear : (s.tryConsumeClear now id).1 = _ := (call_entry s now (.clear id)).1
    rw [hmessage, hclear, UserSessionStore.Present, ← AList.lookup_isSome]
    refine ⟨hanswers.1, fun hrefused => ?_, hanswers.2⟩
    have hanswer : ((storeRun timeout calls).2.call now (.message id)).1 = false := by
      rw [hs]
      exact hmessage.trans hrefused
    rw [storeRun_concat, storeStep, granted_concat, grantedNext_self rfl, hanswer, hlog]
    rfl
  · exact ⟨(hthrottled hlast id).sparse, (hthrottled hlast id).spaced⟩
  · rw [← hlog]
    exact (storeRun_filter timeout calls id).1

open Cast in
/-- A second clear within the cooldown is refused, and another message in the same second is
not. -/
theorem throttles_exact_pair :
    let calls := [(0, .insert alice "alice"), (0, .message alice), (5, .clear alice)]
    ((storeRun 0 calls).2.tryConsumeMessageQuota 5 alice).1 = true
      ∧ ((storeRun 0 calls).2.tryConsumeClear 6 alice).1 = false := by
  intro calls
  have hcalls : Chronological calls := by simp [Chronological, calls]
  have hlog : (storeRun 0 calls).1
      = [⟨0, .insert alice "alice", true⟩, ⟨0, .message alice, true⟩, ⟨5, .clear alice, true⟩] := by
    decide
  have hpresent : (storeRun 0 calls).2.Present alice := by
    rw [UserSessionStore.present_iff]
    decide
  have hrun : storeRun 0 calls = ((storeRun 0 calls).1, (storeRun 0 calls).2) := rfl
  obtain ⟨hanswers, _⟩ := throttles_exact 0 calls hcalls hrun
  obtain ⟨hmessage, _, _⟩ := hanswers alice 5 (by simp [calls])
  obtain ⟨_, _, hclear⟩ := hanswers alice 6 (by simp [calls])
  refine ⟨hmessage.mpr ⟨hpresent, ?_⟩, ?_⟩
  · rw [hlog]
    decide
  · rw [Bool.eq_false_iff, ne_eq, hclear, hlog]
    exact fun h => absurd (h.2 5 (by decide)) (by decide)

/-! ## In a room -/

/-- The checks of a frame are calls of its session. -/
theorem checkFrame_calls (sessions : UserSessionStore) (now : Instant) (id : Uuid)
    (username : String) (f : ClientFrame) :
    ∃ calls : List SessionCall, (checkFrame sessions now id username f).2
      = calls.foldl (fun s call => (s.call now call).2) sessions := by
  unfold checkFrame
  split
  · exact ⟨[], rfl⟩
  · exact ⟨[], rfl⟩
  · rename_i ad ciphertext
    split
    · exact ⟨[], rfl⟩
    split
    · exact ⟨[], rfl⟩
    split
    · exact ⟨[], rfl⟩
    split
    · rename_i s₁ hadvance
      exact ⟨[.advance id ad.counter], (congrArg Prod.snd hadvance).symm⟩
    · rename_i s₁ hadvance
      refine ⟨[.advance id ad.counter, .message id], ?_⟩
      have hs₁ : (sessions.call now (.advance id ad.counter)).2 = s₁ :=
        congrArg Prod.snd hadvance
      rw [List.foldl_cons, hs₁]
      split <;> (rename_i heq; exact (congrArg Prod.snd heq).symm)
  · split <;> (rename_i heq; exact ⟨[.clear id], (congrArg Prod.snd heq).symm⟩)

/-- What a step does to the sessions is a number of calls, at the time of the room. -/
theorem Step.sessionCalls {w w' : World} {l : Label} {evs : List Event} (h : Step w l w' evs) :
    w.now ≤ w'.now ∧ ∃ calls : List SessionCall,
      w'.sessions = calls.foldl (fun s call => (s.call w.now call).2) w.sessions := by
  cases h with
  | register id username => exact ⟨le_refl _, [.insert id username], rfl⟩
  | touch id => exact ⟨le_refl _, [.touch id], rfl⟩
  | rejects id username f e sessions hat hcheck =>
    obtain ⟨calls, hcalls⟩ := checkFrame_calls w.sessions w.now id username f
    rw [hcheck] at hcalls
    exact ⟨le_refl _, calls, hcalls⟩
  | accepts id username f out sessions hat hcheck =>
    obtain ⟨calls, hcalls⟩ := checkFrame_calls w.sessions w.now id username f
    rw [hcheck] at hcalls
    exact ⟨le_refl _, calls, hcalls⟩
  | cleanup id => exact ⟨le_refl _, [.remove id], rfl⟩
  | sweep =>
    refine ⟨le_refl _, w.sweeping.map .remove, ?_⟩
    rw [List.foldl_map]
    rfl
  | elapse d => exact ⟨Nat.le_add_right _ _, [], rfl⟩
  | _ => exact ⟨le_refl _, [], rfl⟩

/-- **The sessions of a room are those of a run of the store**, so its throttles are exact. -/
theorem room_sessions {G : Machine.Guard World Label Event} {c : Machine.Config World Event}
    (h : room.Reach G c) :
    ∃ calls, Chronological calls ∧ (∀ call ∈ calls, call.1 ≤ c.state.now)
      ∧ (storeRun SESSION_TIMEOUT calls).2 = c.state.sessions := by
  refine Reach.room_invariant ⟨[], .nil, nofun, rfl⟩ ?_ h
  rintro c l w evs _ ⟨calls, hcalls, hnow, hsame⟩ _ hs
  obtain ⟨hlater, more, hmore⟩ := hs.sessionCalls
  -- the calls of a step are made at one instant
  have hrun : ∀ more : List SessionCall,
      (storeRun SESSION_TIMEOUT (calls ++ more.map fun call => (c.state.now, call))).2
        = more.foldl (fun s call => (s.call c.state.now call).2) c.state.sessions := by
    intro more
    induction more using List.reverseRecOn with
    | nil =>
      rw [List.map_nil, List.append_nil, hsame]
      rfl
    | append_singleton more call ih =>
      rw [List.map_append, ← List.append_assoc, List.map_singleton, storeRun_concat, storeStep,
        List.foldl_concat, ← ih]
  refine ⟨calls ++ more.map fun call => (c.state.now, call), ?_, fun call hcall => ?_, ?_⟩
  · refine List.pairwise_append.mpr ⟨hcalls, ?_, fun call hcall call' hcall' => ?_⟩
    · rw [List.pairwise_map]
      exact List.pairwise_of_forall fun _ _ => le_refl _
    · obtain ⟨_, _, rfl⟩ := List.mem_map.mp hcall'
      exact hnow call hcall
  · rcases List.mem_append.mp hcall with hcall | hcall
    · exact (hnow call hcall).trans hlater
    · obtain ⟨_, _, rfl⟩ := List.mem_map.mp hcall
      exact hlater
  · rw [hrun, hmore]

end ChatRs

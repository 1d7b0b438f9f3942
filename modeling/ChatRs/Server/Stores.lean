import ChatRs.Proto
import ChatRs.Lib.Ring

/-!
# Message history and sessions (`server/stores.rs`)

The two stores of a room. `Instant::now()` is an argument. What the rest of the development
uses of a session store is one function, the highest accepted counter of each present session
(`UserSessionStore.counterOf`): every operation is described by what it does to that.
-/

namespace ChatRs

def MSG_RATE_MAX : Nat := 30
def MSG_RATE_WINDOW : Duration := .fromSecs 10
def CLEAR_COOLDOWN : Duration := .fromSecs 30

structure MessageStore where
  history : List RoomMessage

namespace MessageStore

def new : MessageStore := ⟨[]⟩

def push (s : MessageStore) (msg : RoomMessage) : MessageStore :=
  ⟨Ring.push HISTORY_LEN s.history msg⟩

def snapshot (s : MessageStore) : List RoomMessage := s.history

def clear (_ : MessageStore) : MessageStore := ⟨[]⟩

end MessageStore

structure UserSession where
  userId : Uuid
  username : String
  lastActive : Instant
  lastCounter : UInt64
  messageWindow : List Instant
  lastClear : Option Instant

structure UserSessionStore where
  sessions : AList fun _ : Uuid => UserSession
  timeout : Duration

namespace UserSessionStore

def new (timeout : Duration) : UserSessionStore := ⟨∅, timeout⟩

/-- Writes through `get_mut`, for a session that is present. -/
def set (s : UserSessionStore) (userId : Uuid) (session : UserSession) : UserSessionStore :=
  { s with sessions := s.sessions.insert userId session }

def insert (s : UserSessionStore) (now : Instant) (userId : Uuid) (username : String) :
    UserSessionStore :=
  { s with
    sessions := s.sessions.insert userId
      { userId := userId
        username := username
        lastActive := now
        lastCounter := 0
        messageWindow := []
        lastClear := none } }

def touch (s : UserSessionStore) (now : Instant) (userId : Uuid) : UserSessionStore :=
  match s.sessions.lookup userId with
  | some u => s.set userId { u with lastActive := now }
  | none => s

def tryAdvanceCounter (s : UserSessionStore) (userId : Uuid) (counter : UInt64) :
    Bool × UserSessionStore :=
  match s.sessions.lookup userId with
  | some u =>
    if counter > u.lastCounter then (true, s.set userId { u with lastCounter := counter })
    else (false, s)
  | none => (false, s)

def tryConsumeMessageQuota (s : UserSessionStore) (now : Instant) (userId : Uuid) :
    Bool × UserSessionStore :=
  match s.sessions.lookup userId with
  | none => (false, s)
  | some u =>
    -- the window is pruned also when the message is then refused
    let window := u.messageWindow.dropWhile fun t => now.durationSince t > MSG_RATE_WINDOW
    if window.length ≥ MSG_RATE_MAX then (false, s.set userId { u with messageWindow := window })
    else (true, s.set userId { u with messageWindow := window ++ [now] })

def tryConsumeClear (s : UserSessionStore) (now : Instant) (userId : Uuid) :
    Bool × UserSessionStore :=
  match s.sessions.lookup userId with
  | none => (false, s)
  | some u =>
    if u.lastClear.any fun prev => now.durationSince prev < CLEAR_COOLDOWN then (false, s)
    else (true, s.set userId { u with lastClear := some now })

def remove (s : UserSessionStore) (userId : Uuid) : UserSessionStore :=
  { s with sessions := s.sessions.erase userId }

def stale (s : UserSessionStore) (now : Instant) : List Uuid :=
  (s.sessions.entries.filter fun e => now.durationSince e.2.lastActive > s.timeout).map Sigma.fst

/-! ## The counters of the present sessions -/

/-- The highest accepted counter of a session, `none` when there is no such session. -/
def counterOf (s : UserSessionStore) (userId : Uuid) : Option UInt64 :=
  (s.sessions.lookup userId).map UserSession.lastCounter

/-- `userId` has a session in the store. -/
def Present (s : UserSessionStore) (userId : Uuid) : Prop := userId ∈ s.sessions

/-- A session is present when it has a counter. -/
theorem present_iff (s : UserSessionStore) (userId : Uuid) :
    s.Present userId ↔ s.counterOf userId ≠ none := by
  rw [Present, counterOf, ← AList.lookup_isSome, ne_eq, Option.map_eq_none_iff,
    Option.isSome_iff_ne_none]

@[simp] theorem present_insert (s : UserSessionStore) (now : Instant) (userId k : Uuid)
    (username : String) : (s.insert now userId username).Present k ↔ k = userId ∨ s.Present k :=
  AList.mem_insert _

@[simp] theorem present_remove (s : UserSessionStore) (userId k : Uuid) :
    (s.remove userId).Present k ↔ k ≠ userId ∧ s.Present k := AList.mem_erase

/-- The sweeper's removals, one after the other, remove what is on the list. -/
@[simp] theorem present_removes (s : UserSessionStore) (ids : List Uuid) (k : Uuid) :
    (ids.foldl remove s).Present k ↔ k ∉ ids ∧ s.Present k := by
  induction ids generalizing s with
  | nil => simp
  | cons id ids ih =>
    rw [List.foldl_cons, ih, present_remove, List.mem_cons, not_or]
    tauto

@[simp] theorem counterOf_new (timeout : Duration) (userId : Uuid) :
    (new timeout).counterOf userId = none := by
  rw [counterOf, new, AList.lookup_empty]
  rfl

section Part

variable {α : Type} (g : UserSession → α) (s : UserSessionStore) (userId : Uuid)

/-- What a write does to one part of the sessions. -/
theorem map_lookup_set (u : UserSession) :
    (fun k => ((s.set userId u).sessions.lookup k).map g)
      = Function.update (fun k => (s.sessions.lookup k).map g) userId (some (g u)) := by
  funext k
  rw [set, lookup_insert_eq_update]
  exact Function.apply_update (fun _ => Option.map g) ..

/-- Any field of the sessions, behind a removal: that of the others is as it was. -/
theorem map_lookup_remove :
    (fun k => ((s.remove userId).sessions.lookup k).map g)
      = Function.update (fun k => (s.sessions.lookup k).map g) userId none := by
  funext k
  rw [remove, lookup_erase_eq_update]
  exact Function.apply_update (fun _ => Option.map g) ..

variable {g s userId}

/-- What is still there after a removal was there before. -/
theorem of_map_lookup_remove {k : Uuid} {x : α}
    (h : ((s.remove userId).sessions.lookup k).map g = some x) :
    k ≠ userId ∧ (s.sessions.lookup k).map g = some x := by
  have hupdate := congrFun (s.map_lookup_remove g userId) k
  rw [h] at hupdate
  rcases eq_or_ne k userId with rfl | hne
  · rw [Function.update_self] at hupdate
    cases hupdate
  · rw [Function.update_of_ne hne] at hupdate
    exact ⟨hne, hupdate.symm⟩

/-- The same for a list of removals. -/
theorem of_map_lookup_removes {ids : List Uuid} {k : Uuid} {x : α}
    (h : ((ids.foldl remove s).sessions.lookup k).map g = some x) :
    k ∉ ids ∧ (s.sessions.lookup k).map g = some x := by
  induction ids generalizing s with
  | nil => exact ⟨List.not_mem_nil, h⟩
  | cons id ids ih =>
    obtain ⟨hmem, hrest⟩ := ih h
    obtain ⟨hne, hs⟩ := of_map_lookup_remove hrest
    exact ⟨fun hk => (List.mem_cons.mp hk).elim hne hmem, hs⟩

end Part

theorem counterOf_set (s : UserSessionStore) (userId : Uuid) (u : UserSession) :
    (s.set userId u).counterOf = Function.update s.counterOf userId (some u.lastCounter) :=
  s.map_lookup_set UserSession.lastCounter userId u

/-- Writing back a session with a part of it unchanged. -/
theorem lookup_set_same {α : Type} (g : UserSession → α) (s : UserSessionStore) {userId : Uuid}
    {u v : UserSession} (hu : s.sessions.lookup userId = some u) (hv : g v = g u) (k : Uuid) :
    ((s.set userId v).sessions.lookup k).map g = (s.sessions.lookup k).map g := by
  rw [set, lookup_insert_eq_update]
  rcases eq_or_ne k userId with rfl | hne
  · rw [Function.update_self, hu, Option.map_some, Option.map_some, hv]
  · rw [Function.update_of_ne hne]

/-- Writing back a session with its counter unchanged. -/
theorem counterOf_set_same (s : UserSessionStore) {userId : Uuid} {u v : UserSession}
    (hu : s.sessions.lookup userId = some u) (hv : v.lastCounter = u.lastCounter) :
    (s.set userId v).counterOf = s.counterOf := by
  funext k
  exact lookup_set_same UserSession.lastCounter s hu hv k

/-- A session starts with counter 0, and one that was there under the id is replaced. -/
theorem counterOf_insert (s : UserSessionStore) (now : Instant) (userId : Uuid)
    (username : String) :
    (s.insert now userId username).counterOf = Function.update s.counterOf userId (some 0) :=
  s.counterOf_set userId _

theorem counterOf_remove (s : UserSessionStore) (userId : Uuid) :
    (s.remove userId).counterOf = Function.update s.counterOf userId none :=
  s.map_lookup_remove UserSession.lastCounter userId

theorem of_counterOf_remove {s : UserSessionStore} {userId k : Uuid} {x : UInt64}
    (h : (s.remove userId).counterOf k = some x) : k ≠ userId ∧ s.counterOf k = some x :=
  of_map_lookup_remove h

/-- A counter that is left after the sweep was there before, and its session not on the list. -/
theorem of_counterOf_removes {s : UserSessionStore} {ids : List Uuid} {k : Uuid} {x : UInt64}
    (h : (ids.foldl remove s).counterOf k = some x) : k ∉ ids ∧ s.counterOf k = some x :=
  of_map_lookup_removes h

/-- Only `try_advance_counter` sets a counter: a touch leaves them all alone. -/
@[simp] theorem counterOf_touch (s : UserSessionStore) (now : Instant) (userId : Uuid) :
    (s.touch now userId).counterOf = s.counterOf := by
  rw [touch]
  split
  · rename_i u hu
    exact s.counterOf_set_same hu rfl
  · rfl

/-- So does the quota. -/
@[simp] theorem counterOf_tryConsumeMessageQuota (s : UserSessionStore) (now : Instant)
    (userId : Uuid) : (s.tryConsumeMessageQuota now userId).2.counterOf = s.counterOf := by
  rw [tryConsumeMessageQuota]
  split
  · rfl
  · rename_i u hu
    simp only
    split <;> exact s.counterOf_set_same hu rfl

/-- So does the cooldown of the clears. -/
@[simp] theorem counterOf_tryConsumeClear (s : UserSessionStore) (now : Instant)
    (userId : Uuid) : (s.tryConsumeClear now userId).2.counterOf = s.counterOf := by
  rw [tryConsumeClear]
  split
  · rfl
  · rename_i u hu
    split
    · rfl
    · exact s.counterOf_set_same hu rfl

/-- A touch brings no session back. -/
@[simp] theorem present_touch (s : UserSessionStore) (now : Instant) (userId k : Uuid) :
    (s.touch now userId).Present k ↔ s.Present k := by
  rw [present_iff, counterOf_touch, ← present_iff]

/-- An accepted counter lies above the session's, and takes its place. -/
theorem tryAdvanceCounter_true {s s' : UserSessionStore} {userId : Uuid} {counter : UInt64}
    (h : s.tryAdvanceCounter userId counter = (true, s')) :
    (∃ last, s.counterOf userId = some last ∧ last < counter) ∧
      s'.counterOf = Function.update s.counterOf userId (some counter) := by
  rw [tryAdvanceCounter] at h
  split at h
  · rename_i u hu
    split at h
    · rename_i hlt
      cases h
      refine ⟨⟨u.lastCounter, ?_, hlt⟩, s.counterOf_set userId _⟩
      rw [counterOf, hu]
      rfl
    · cases h
  · cases h

/-- A counter is accepted if there is a session and the counter lies above its own. -/
theorem tryAdvanceCounter_fst (s : UserSessionStore) (userId : Uuid) (counter : UInt64) :
    (s.tryAdvanceCounter userId counter).1 = true
      ↔ ∃ last, s.counterOf userId = some last ∧ last < counter := by
  rw [tryAdvanceCounter, counterOf]
  cases hu : s.sessions.lookup userId with
  | none => simp
  | some u =>
    simp only [Option.map_some, Option.some.injEq, exists_eq_left']
    split
    · rename_i hlt
      exact ⟨fun _ => hlt, fun _ => rfl⟩
    · rename_i hge
      exact ⟨nofun, fun hlt => absurd hlt hge⟩

/-- The quota looks at the session's window only. -/
theorem tryConsumeMessageQuota_fst (s : UserSessionStore) (now : Instant) (userId : Uuid) :
    (s.tryConsumeMessageQuota now userId).1
      = ((s.sessions.lookup userId).map UserSession.messageWindow).any fun window =>
          (window.dropWhile fun t => now.durationSince t > MSG_RATE_WINDOW).length
            < MSG_RATE_MAX := by
  rw [tryConsumeMessageQuota]
  cases hu : s.sessions.lookup userId with
  | none => rfl
  | some u =>
    show (if _ ≥ MSG_RATE_MAX then _ else _ : Bool × UserSessionStore).1 = decide (_ < MSG_RATE_MAX)
    split
    · rename_i hfull
      exact (decide_eq_false (Nat.not_lt.mpr hfull)).symm
    · rename_i hroom
      exact (decide_eq_true (Nat.lt_of_not_le hroom)).symm

/-- Advancing the counter leaves the quota as it is. -/
theorem quota_of_advance {s s' : UserSessionStore} {userId : Uuid} {counter : UInt64}
    (h : s.tryAdvanceCounter userId counter = (true, s')) (now : Instant) :
    (s'.tryConsumeMessageQuota now userId).1 = (s.tryConsumeMessageQuota now userId).1 := by
  rw [tryConsumeMessageQuota_fst, tryConsumeMessageQuota_fst]
  rw [tryAdvanceCounter] at h
  split at h
  · rename_i u hu
    split at h
    · cases h
      rw [set, AList.lookup_insert, hu]
      rfl
    · cases h
  · cases h

/-- A rejected counter leaves no trace. -/
theorem tryAdvanceCounter_false {s s' : UserSessionStore} {userId : Uuid} {counter : UInt64}
    (h : s.tryAdvanceCounter userId counter = (false, s')) : s' = s := by
  rw [tryAdvanceCounter] at h
  split at h
  · split at h
    · cases h
    · exact (Prod.mk.inj h).2.symm
  · exact (Prod.mk.inj h).2.symm

/-! ## The last sign of life

What the sweeper goes by. Only an insert and a touch write it, with the time of the write.
-/

/-- The `last_active` of a session, `none` when there is no such session. -/
def lastActiveOf (s : UserSessionStore) (userId : Uuid) : Option Instant :=
  (s.sessions.lookup userId).map UserSession.lastActive

/-- A session is present when it has a time of its last activity. -/
theorem present_iff_lastActive (s : UserSessionStore) (userId : Uuid) :
    s.Present userId ↔ ∃ t, s.lastActiveOf userId = some t := by
  rw [Present, lastActiveOf, ← AList.lookup_isSome, Option.isSome_iff_exists]
  simp only [Option.map_eq_some_iff]
  exact ⟨fun ⟨u, hu⟩ => ⟨_, u, hu, rfl⟩, fun ⟨_, u, hu, _⟩ => ⟨u, hu⟩⟩

theorem lastActiveOf_set (s : UserSessionStore) (userId : Uuid) (u : UserSession) :
    (s.set userId u).lastActiveOf = Function.update s.lastActiveOf userId (some u.lastActive) :=
  s.map_lookup_set UserSession.lastActive userId u

/-- A session is active when it is made. -/
theorem lastActiveOf_insert (s : UserSessionStore) (now : Instant) (userId : Uuid)
    (username : String) :
    (s.insert now userId username).lastActiveOf
      = Function.update s.lastActiveOf userId (some now) :=
  s.lastActiveOf_set userId _

/-- A touch writes the time, or there is no session to write to. -/
theorem of_lastActiveOf_touch {s : UserSessionStore} {now : Instant} {userId k : Uuid}
    {t : Instant} (h : (s.touch now userId).lastActiveOf k = some t) :
    (k = userId ∧ t = now) ∨ (k ≠ userId ∧ s.lastActiveOf k = some t) := by
  unfold touch at h
  split at h
  · rw [lastActiveOf_set] at h
    rcases eq_or_ne k userId with rfl | hne
    · rw [Function.update_self] at h
      exact .inl ⟨rfl, (Option.some.inj h).symm⟩
    · rw [Function.update_of_ne hne] at h
      exact .inr ⟨hne, h⟩
  · rename_i hnone
    refine .inr ⟨?_, h⟩
    rintro rfl
    rw [lastActiveOf, hnone] at h
    cases h

theorem of_lastActiveOf_remove {s : UserSessionStore} {userId k : Uuid} {t : Instant}
    (h : (s.remove userId).lastActiveOf k = some t) : s.lastActiveOf k = some t :=
  (of_map_lookup_remove h).2

/-- What is left after a sweep is as old as it was. -/
theorem of_lastActiveOf_removes {s : UserSessionStore} {ids : List Uuid} {k : Uuid} {t : Instant}
    (h : (ids.foldl remove s).lastActiveOf k = some t) : s.lastActiveOf k = some t :=
  (of_map_lookup_removes h).2

/-- Only `touch` renews a session: the checks of a frame leave its age alone. -/
@[simp] theorem lastActiveOf_tryAdvanceCounter (s : UserSessionStore) (userId : Uuid)
    (counter : UInt64) : (s.tryAdvanceCounter userId counter).2.lastActiveOf = s.lastActiveOf := by
  unfold tryAdvanceCounter
  split
  · rename_i u hu
    split
    · exact funext (lookup_set_same UserSession.lastActive s hu rfl)
    · rfl
  · rfl

@[simp] theorem lastActiveOf_tryConsumeMessageQuota (s : UserSessionStore) (now : Instant)
    (userId : Uuid) : (s.tryConsumeMessageQuota now userId).2.lastActiveOf = s.lastActiveOf := by
  unfold tryConsumeMessageQuota
  split
  · rfl
  · rename_i u hu
    dsimp only
    split <;> exact funext (lookup_set_same UserSession.lastActive s hu rfl)

@[simp] theorem lastActiveOf_tryConsumeClear (s : UserSessionStore) (now : Instant)
    (userId : Uuid) : (s.tryConsumeClear now userId).2.lastActiveOf = s.lastActiveOf := by
  unfold tryConsumeClear
  split
  · rfl
  · rename_i u hu
    split
    · rfl
    · exact funext (lookup_set_same UserSession.lastActive s hu rfl)

/-- What `stale` finds. -/
theorem mem_stale {s : UserSessionStore} {now : Instant} {userId : Uuid} :
    userId ∈ s.stale now
      ↔ ∃ t, s.lastActiveOf userId = some t ∧ now.durationSince t > s.timeout := by
  rw [stale, List.mem_map]
  constructor
  · rintro ⟨⟨k, u⟩, hmem, rfl⟩
    obtain ⟨hentry, hidle⟩ := List.mem_filter.mp hmem
    refine ⟨u.lastActive, ?_, of_decide_eq_true hidle⟩
    rw [lastActiveOf, AList.mem_lookup_iff.mpr hentry, Option.map_some]
  · rintro ⟨t, ht, hidle⟩
    obtain ⟨u, hu, rfl⟩ := Option.map_eq_some_iff.mp ht
    refine ⟨⟨userId, u⟩, List.mem_filter.mpr ⟨?_, decide_eq_true hidle⟩, rfl⟩
    exact AList.mem_lookup_iff.mp hu

end UserSessionStore

end ChatRs

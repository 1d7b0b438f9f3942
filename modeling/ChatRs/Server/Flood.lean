import ChatRs.Server.Relay
import ChatRs.Server.Throttle

/-!
# How much one member can send (`server/mod.rs`, `server/stores.rs`)

Every message that is stored or broadcast has passed the quota of its sender's session, and every
clear its cooldown. So however a connection behaves, and whatever the others do in the meantime:

* **`Throttled.called`**: a call keeps every session in step with what was granted to it;
* **`Step.grants`**: a step adds to the grants of a connection what it accepts of it, at its time;
* **`flood_bounded`**: in `n` windows in a row a connection gets at most `n * MSG_RATE_MAX` messages
  accepted, and in `n` cooldowns in a row at most `n` clears.
-/

namespace ChatRs

open Machine (Config Guard free)
open SlidingWindow

def ServerFrame.isCleared : ServerFrame → Bool
  | .cleared _ _ => true
  | _ => false

/-- The messages of `k` that were accepted. -/
def messagesFrom (k : Uuid) (past : List Event) : List RoomMessage :=
  messagesOf (byOrigin k (acceptedIn past))

/-- The clears of `k` that were accepted. -/
def clearsFrom (k : Uuid) (past : List Event) : List ServerFrame :=
  (byOrigin k (acceptedIn past)).filter ServerFrame.isCleared

section

variable (k : Uuid) (past evs : List Event)

theorem messagesFrom_append :
    messagesFrom k (past ++ evs) = messagesFrom k past ++ messagesFrom k evs := by
  simp [messagesFrom]

theorem clearsFrom_append :
    clearsFrom k (past ++ evs) = clearsFrom k past ++ clearsFrom k evs := by
  simp [clearsFrom]

theorem messagesFrom_message (m : RoomMessage) :
    messagesFrom k [.accepted (.message m)] = if m.fromId = k then [m] else [] := by
  by_cases hid : m.fromId = k <;> simp [messagesFrom, messagesOf, byOrigin, ServerFrame.origin, hid]

theorem clearsFrom_message (m : RoomMessage) : clearsFrom k [.accepted (.message m)] = [] := by
  by_cases hid : m.fromId = k <;>
    simp [clearsFrom, byOrigin, ServerFrame.origin, ServerFrame.isCleared, hid]

theorem messagesFrom_cleared (id : Uuid) (username : String) :
    messagesFrom k [.accepted (.cleared id username)] = [] := by
  by_cases hid : id = k <;> simp [messagesFrom, messagesOf, byOrigin, ServerFrame.origin, hid]

theorem clearsFrom_cleared (id : Uuid) (username : String) :
    clearsFrom k [.accepted (.cleared id username)]
      = if id = k then [.cleared id username] else [] := by
  by_cases hid : id = k <;>
    simp [clearsFrom, byOrigin, ServerFrame.origin, ServerFrame.isCleared, hid]

end

/-! ## One step -/

section

variable {now : Instant} {messages clears : List Instant} {sessions : UserSessionStore} {k : Uuid}

/-- **A call keeps every session in step** with what was granted to it. -/
theorem Throttled.called (h : Throttled now messages clears (sessions.sessions.lookup k))
    (call : SessionCall) :
    Throttled now (grantedNext (.message k) messages ⟨now, call, (sessions.call now call).1⟩)
      (grantedNext (.clear k) clears ⟨now, call, (sessions.call now call).1⟩)
      ((sessions.call now call).2.sessions.lookup k) := by
  obtain ⟨hanswer, hentry⟩ := call_entry sessions now call
  have hlookup := congrFun hentry k
  rw [hlookup]
  by_cases hk : k = call.userId
  · subst hk
    rw [Function.update_self, hanswer]
    exact h.call call
  · have hmessage : call.userId ≠ (SessionCall.message k).userId := fun heq => hk heq.symm
    have hclear : call.userId ≠ (SessionCall.clear k).userId := fun heq => hk heq.symm
    rw [Function.update_of_ne hk, grantedNext_other (.inl hmessage),
      grantedNext_other (.inl hclear)]
    exact h

/-- A call that asks for nothing and starts no session grants nothing. -/
theorem Throttled.quiet (h : Throttled now messages clears (sessions.sessions.lookup k))
    (call : SessionCall) (hinserts : call.inserts = false) (hmessage : call ≠ .message k)
    (hclear : call ≠ .clear k) :
    Throttled now messages clears ((sessions.call now call).2.sessions.lookup k) := by
  have hcalled := h.called call
  rw [grantedNext_other (.inr ⟨hinserts, hmessage⟩),
    grantedNext_other (.inr ⟨hinserts, hclear⟩)] at hcalled
  exact hcalled

/-- What is granted for the frames that are accepted at `now`. -/
def Grants (now : Instant) (k : Uuid) (messages clears : List Instant)
    (entry : Option UserSession) (evs : List Event) : Prop :=
  Throttled now (messages ++ List.replicate (messagesFrom k evs).length now)
    (clears ++ List.replicate (clearsFrom k evs).length now) entry

/-- A step that accepts nothing of `k`. -/
theorem Grants.none {entry : Option UserSession} {evs : List Event}
    (h : Throttled now messages clears entry) (hmessages : messagesFrom k evs = [])
    (hclears : clearsFrom k evs = []) : Grants now k messages clears entry evs := by
  rw [Grants, hmessages, hclears]
  show Throttled now (messages ++ []) (clears ++ []) entry
  rw [List.append_nil, List.append_nil]
  exact h

/-- An accepted message is one that the quota of its sender was asked for and granted. -/
theorem Grants.message {entry : Option UserSession} {m : RoomMessage}
    (h : Throttled now (if m.fromId = k ∧ true = true then messages ++ [now] else messages) clears
      entry) :
    Grants now k messages clears entry [.accepted (.message m)] := by
  rw [Grants, messagesFrom_message, clearsFrom_message]
  by_cases hid : m.fromId = k
  · rw [if_pos ⟨hid, rfl⟩] at h
    simpa [hid] using h
  · rw [if_neg fun h => hid h.1] at h
    simpa [hid] using h

/-- An accepted clear is granted by the cooldown. -/
theorem Grants.cleared {entry : Option UserSession} {id : Uuid} {username : String}
    (h : Throttled now messages (if id = k ∧ true = true then clears ++ [now] else clears) entry) :
    Grants now k messages clears entry [.accepted (.cleared id username)] := by
  rw [Grants, messagesFrom_cleared, clearsFrom_cleared]
  by_cases hid : id = k
  · rw [if_pos ⟨hid, rfl⟩] at h
    simpa [hid] using h
  · rw [if_neg fun h => hid h.1] at h
    simpa [hid] using h

/-- The grants of the messages grow when a message of that sender is granted. -/
theorem grantedNext_message (id : Uuid) (answer : Bool) :
    grantedNext (.message k) messages ⟨now, .message id, answer⟩
      = if id = k ∧ answer = true then messages ++ [now] else messages := by
  unfold grantedNext record
  by_cases hid : id = k <;> simp [SessionCall.userId, SessionCall.inserts, hid]

/-- The grants of the clears, when a clear is. -/
theorem grantedNext_clear (id : Uuid) (answer : Bool) :
    grantedNext (.clear k) clears ⟨now, .clear id, answer⟩
      = if id = k ∧ answer = true then clears ++ [now] else clears := by
  unfold grantedNext record
  by_cases hid : id = k <;> simp [SessionCall.userId, SessionCall.inserts, hid]

/-- The quota is asked for a message. -/
theorem Throttled.asked_message (h : Throttled now messages clears (sessions.sessions.lookup k))
    (id : Uuid) :
    Throttled now
      (if id = k ∧ (sessions.tryConsumeMessageQuota now id).1 = true then messages ++ [now]
        else messages)
      clears ((sessions.tryConsumeMessageQuota now id).2.sessions.lookup k) := by
  have hcalled := h.called (.message id)
  have hclear : SessionCall.message id ≠ .clear k := by simp
  rw [grantedNext_message, grantedNext_other (.inr ⟨rfl, hclear⟩)] at hcalled
  exact hcalled

/-- The cooldown is asked for a clear. -/
theorem Throttled.asked_clear (h : Throttled now messages clears (sessions.sessions.lookup k))
    (id : Uuid) :
    Throttled now messages
      (if id = k ∧ (sessions.tryConsumeClear now id).1 = true then clears ++ [now] else clears)
      ((sessions.tryConsumeClear now id).2.sessions.lookup k) := by
  have hcalled := h.called (.clear id)
  have hmessage : SessionCall.clear id ≠ .message k := by simp
  rw [grantedNext_clear, grantedNext_other (.inr ⟨rfl, hmessage⟩)] at hcalled
  exact hcalled

/-- What the checks of a frame come to. -/
def Event.ofCheck : Result ServerFrame → List Event
  | .ok out => [.accepted out]
  | .error _ => []

/-- **The checks of a frame grant what they accept.** -/
theorem checkFrame_grants (h : Throttled now messages clears (sessions.sessions.lookup k))
    (id : Uuid) (username : String) (f : ClientFrame) :
    Grants now k messages clears
      ((checkFrame sessions now id username f).2.sessions.lookup k)
      (Event.ofCheck (checkFrame sessions now id username f).1) := by
  cases f with
  | roomSelect | hello => exact .none h rfl rfl
  | message ad ciphertext =>
    -- the counter is burned first, the rate asked after it
    have hadvanced := h.quiet (.advance id ad.counter) rfl (by simp) (by simp)
    replace hadvanced : Throttled now messages clears
      ((sessions.tryAdvanceCounter id ad.counter).2.sessions.lookup k) := hadvanced
    simp only [checkFrame]
    split
    · exact .none h rfl rfl
    split
    · exact .none h rfl rfl
    split
    · exact .none h rfl rfl
    split
    · rename_i s₁ hadvance
      rw [hadvance] at hadvanced
      exact .none hadvanced rfl rfl
    · rename_i s₁ hadvance
      rw [hadvance] at hadvanced
      have hasked := hadvanced.asked_message id
      split
      · rename_i s₂ hquota
        rw [hquota, if_neg (by simp)] at hasked
        exact .none hasked rfl rfl
      · rename_i s₂ hquota
        rw [hquota] at hasked
        exact .message hasked
  | clear =>
    have hasked := h.asked_clear id
    simp only [checkFrame]
    split
    · rename_i s₂ hcool
      rw [hcool, if_neg (by simp)] at hasked
      exact .none hasked rfl rfl
    · rename_i s₂ hcool
      rw [hcool] at hasked
      exact .cleared hasked

/-- Sweeping grants nothing. -/
theorem Throttled.swept (h : Throttled now messages clears (sessions.sessions.lookup k))
    (ids : List Uuid) :
    Throttled now messages clears
      ((ids.foldl UserSessionStore.remove sessions).sessions.lookup k) := by
  induction ids generalizing sessions with
  | nil => exact h
  | cons id ids ih => exact ih (h.quiet (.remove id) rfl (by simp) (by simp))

/-- **A step grants what it accepts**, at its time. -/
theorem Step.grants {w w' : World} {l : Label} {evs : List Event} (h : Step w l w' evs)
    (hthrottled : Throttled w.now messages clears (w.sessions.sessions.lookup k))
    (hfresh : Unregistered (w.tasks k) → messages = [] ∧ clears = []) :
    Grants w.now k messages clears (w'.sessions.sessions.lookup k) evs := by
  cases h with
  | register id username hat =>
    refine .none ?_ rfl rfl
    have hcalled := hthrottled.called (.insert id username)
    by_cases hid : id = k
    · -- a session that registers begins with nothing granted
      subst hid
      rw [hat] at hfresh
      obtain ⟨rfl, rfl⟩ := hfresh trivial
      simp only [grantedNext, SessionCall.userId, SessionCall.inserts, and_self, if_pos] at hcalled
      exact hcalled
    · have hmessage :
          (SessionCall.insert id username).userId ≠ (SessionCall.message k).userId := hid
      have hclear : (SessionCall.insert id username).userId ≠ (SessionCall.clear k).userId := hid
      rw [grantedNext_other (.inl hmessage), grantedNext_other (.inl hclear)] at hcalled
      exact hcalled
  | touch id username f hat =>
    exact .none (hthrottled.quiet (.touch id) rfl (by simp) (by simp)) rfl rfl
  | rejects id username f e sessions hat hcheck =>
    have hgrants := checkFrame_grants hthrottled id username f
    rw [hcheck] at hgrants
    exact hgrants
  | accepts id username f out sessions hat hcheck =>
    have hgrants := checkFrame_grants hthrottled id username f
    rw [hcheck] at hgrants
    exact hgrants
  | cleanup id username result hat =>
    exact .none (hthrottled.quiet (.remove id) rfl (by simp) (by simp)) rfl rfl
  | sweep => exact .none (hthrottled.swept w.sweeping) rfl rfl
  | _ => exact .none hthrottled rfl rfl

end

/-! ## Runs -/

section

variable {G : Guard World Label Event} {c c₀ : Config World Event} {k : Uuid}

/-- Of a connection that has not registered nothing was accepted. -/
theorem nothing_accepted (h : room.Reach G c) :
    ∀ k, Unregistered (c.state.tasks k) → byOrigin k (acceptedIn c.past) = [] := by
  refine Reach.room_invariant (fun _ _ => rfl) ?_ h
  intro c l w evs _ ih _ hs k hnew
  have hbefore := hs.unregistered hnew
  rw [acceptedIn_append, byOrigin_append, ih k hbefore, List.nil_append]
  cases hs with
  | accepts id username f out sessions hat hcheck =>
    have hne : k ≠ id := by
      intro hk
      rw [hk, hat] at hbefore
      exact hbefore
    exact byOrigin_other out (checkFrame_ok hcheck).origin hne
  | _ => rfl

/-- When the accepted frames of a connection were granted. -/
structure Metered (k : Uuid) (c : Config World Event) (messages clears : List Instant) : Prop where
  throttled : Throttled c.state.now messages clears (c.state.sessions.sessions.lookup k)
  messages : messages.length = (messagesFrom k c.past).length
  clears : clears.length = (clearsFrom k c.past).length

/-- A step of the room keeps a connection within its grants. -/
theorem Metered.step (hreach : room.Reach G c) {messages clears : List Instant}
    (h : Metered k c messages clears) {l : Label} {w : World} {evs : List Event}
    (hs : Step c.state l w evs) :
    Metered k ⟨c.past ++ evs, w⟩
      (messages ++ List.replicate (messagesFrom k evs).length c.state.now)
      (clears ++ List.replicate (clearsFrom k evs).length c.state.now) := by
  refine ⟨(hs.grants h.throttled fun hnew => ?_).later hs.sessionCalls.1, ?_, ?_⟩
  · have hnone := nothing_accepted hreach k hnew
    refine ⟨List.length_eq_zero_iff.mp ?_, List.length_eq_zero_iff.mp ?_⟩
    · rw [h.messages, messagesFrom, hnone]
      rfl
    · rw [h.clears, clearsFrom, hnone]
      rfl
  · rw [messagesFrom_append, List.length_append, List.length_append, List.length_replicate,
      h.messages]
  · rw [clearsFrom_append, List.length_append, List.length_append, List.length_replicate, h.clears]

/-- Along every run what was accepted of a session was granted, whatever the others do. -/
theorem metered (h : room.Reach G c) (k : Uuid) :
    ∃ messages clears, Metered k c messages clears := by
  refine Reach.room_invariant ⟨[], [], .none _, rfl, rfl⟩ ?_ h
  intro c l w evs hreach ih _ hs
  obtain ⟨messages, clears, hmetered⟩ := ih
  exact ⟨_, _, hmetered.step hreach hs⟩

/-- **What a run accepts was granted in its course.** -/
theorem metered_since (h₀ : room.Reach G c₀) (hrun : room.Run G c₀ c) (k : Uuid) :
    ∃ messages messages' clears clears', Metered k c₀ messages clears
      ∧ Metered k c (messages ++ messages') (clears ++ clears')
      ∧ ∀ t ∈ messages' ++ clears', c₀.state.now ≤ t ∧ t ≤ c.state.now := by
  obtain ⟨messages, clears, hstart⟩ := metered h₀ k
  have hsince : ∃ messages' clears', Metered k c (messages ++ messages') (clears ++ clears')
      ∧ (∀ t ∈ messages' ++ clears', c₀.state.now ≤ t ∧ t ≤ c.state.now)
      ∧ c₀.state.now ≤ c.state.now := by
    refine Run.room_invariant hrun ⟨[], [], by simpa using hstart, by simp, le_rfl⟩ ?_
    intro d l w evs hd ih _ hs
    obtain ⟨messages', clears', hmetered, hin, hlater⟩ := ih
    have hnow := hs.sessionCalls.1
    have hnext := hmetered.step (h₀.trans hd) hs
    rw [List.append_assoc, List.append_assoc] at hnext
    refine ⟨_, _, hnext, fun t ht => ?_, hlater.trans hnow⟩
    have ht : t ∈ messages' ++ clears' ∨ t = d.state.now := by
      simp only [List.mem_append, List.mem_replicate] at ht ⊢
      tauto
    rcases ht with ht | rfl
    · exact ⟨(hin t ht).1, (hin t ht).2.trans hnow⟩
    · exact ⟨hlater, hnow⟩
  obtain ⟨messages', clears', hend, hin, _⟩ := hsince
  exact ⟨messages, messages', clears, clears', hstart, hend, hin⟩

/-- **Nobody floods a room.** Whatever a connection sends, and whatever the others do: from any
moment on, its accepted messages are `MSG_RATE_MAX` at most in every window, and its accepted clears
one at most in every cooldown. -/
theorem flood_bounded (h₀ : room.Reach free c₀) (hrun : room.Run free c₀ c) (k : Uuid) (n : Nat) :
    (c.state.now < c₀.state.now + n * MSG_RATE_WINDOW →
        (messagesFrom k c.past).length ≤ (messagesFrom k c₀.past).length + n * MSG_RATE_MAX)
      ∧ (c.state.now < c₀.state.now + n * CLEAR_COOLDOWN →
        (clearsFrom k c.past).length ≤ (clearsFrom k c₀.past).length + n) := by
  obtain ⟨messages, messages', clears, clears', hstart, hend, hin⟩ := metered_since h₀ hrun k
  -- what was granted since lies in the spans
  have inside (times : List Instant) {times' : List Instant} {b : Instant}
      (hb : ∀ t ∈ times', c₀.state.now ≤ t ∧ t < b) :
      times'.length ≤ (between c₀.state.now b (times ++ times')).length := by
    have hall : between c₀.state.now b times' = times' :=
      List.filter_eq_self.mpr fun t ht => decide_eq_true (hb t ht)
    rw [between, List.filter_append, List.length_append, ← between, ← between, hall]
    exact Nat.le_add_left _ _
  constructor
  · intro hnow
    have hspans := length_spans_le hend.throttled.sparse.length_between_le c₀.state.now n
    have hnew := inside messages (fun t ht =>
      ⟨(hin t (List.mem_append_left _ ht)).1,
        (hin t (List.mem_append_left _ ht)).2.trans_lt hnow⟩)
    rw [← hend.messages, ← hstart.messages, List.length_append]
    omega
  · intro hnow
    have hspans := length_spans_le hend.throttled.spaced.length_between_le c₀.state.now n
    have hnew := inside clears (fun t ht =>
      ⟨(hin t (List.mem_append_right _ ht)).1,
        (hin t (List.mem_append_right _ ht)).2.trans_lt hnow⟩)
    rw [← hend.clears, ← hstart.clears, List.length_append]
    omega

end

open Cast in
/-- Alice is welcomed, and sends a message. -/
theorem flood_bounded_alice :
    ∃ c₀ c, room.Reach free c₀ ∧ room.Run free c₀ c
      ∧ (messagesFrom alice c₀.past).length = 0 ∧ (messagesFrom alice c.past).length = 1
      ∧ (messagesFrom alice c.past).length ≤ MSG_RATE_MAX := by
  obtain ⟨c₀, c, h₀, hc, hbefore, hafter⟩ := Machine.exec_then (M := room)
    (fun _ _ => true) (fun _ _ => true) (arrives alice "alice" ++ isWelcomed alice)
    (sends alice (note alice "alice" 1 false))
    (fun c => ((messagesFrom alice c.past).length, c.state.now)) (0, 0)
    (fun c => ((messagesFrom alice c.past).length, c.state.now)) (1, 0) (by decide)
  obtain ⟨hnone, hstart⟩ := Prod.mk.inj hbefore
  obtain ⟨hone, hnow⟩ := Prod.mk.inj hafter
  have hreach : room.Reach free c₀ := Machine.exec_run (fun _ _ _ => trivial) h₀
  have hrun : room.Run free c₀ c := Machine.exec_run (fun _ _ _ => trivial) hc
  have hbound := (flood_bounded hreach hrun alice 1).1 (by rw [hstart, hnow]; decide)
  rw [hnone, Nat.zero_add, Nat.one_mul] at hbound
  exact ⟨c₀, c, hreach, hrun, hnone, hone, hbound⟩

end ChatRs

import ChatRs.Server.Flow

/-!
# Rejected frames

`handle_client_frame` writes to the sessions before its last check: it touches the session,
then the checks on a message advance the counter and prune the rate window. All of it stays
within the sender's own session, and a session that has been removed is not written to at all.
The plan:

* **`UserSessionStore.Keeps`**: the store has changed in one session at most, and there in
  `last_active`, `last_counter` and `message_window` only; one lemma for each operation;
* **`Unseen`**: the whole room has changed no more than that;
* `Step.ending`: after an error no frame of the connection is taken in any more;
* **`rejected_unseen`**: the three put together.
-/

namespace ChatRs

open Machine (Config free)

/-! ## Changes within one session -/

/-- A session without `last_active`, `last_counter` and `message_window`. -/
def UserSession.fixed (u : UserSession) : Uuid × String × Option Instant :=
  (u.userId, u.username, u.lastClear)

namespace UserSessionStore

/-- Nothing has changed but those three fields of the session of `id`. -/
structure Keeps (id : Uuid) (s s' : UserSessionStore) : Prop where
  timeout : s'.timeout = s.timeout
  others : ∀ k ≠ id, s'.sessions.lookup k = s.sessions.lookup k
  own : (s'.sessions.lookup id).map UserSession.fixed
    = (s.sessions.lookup id).map UserSession.fixed

variable {s s' : UserSessionStore} {id : Uuid}

theorem Keeps.refl (id : Uuid) (s : UserSessionStore) : Keeps id s s :=
  ⟨rfl, fun _ _ => rfl, rfl⟩

theorem Keeps.trans {s'' : UserSessionStore} (h : Keeps id s s') (h' : Keeps id s' s'') :
    Keeps id s s'' where
  timeout := h'.timeout.trans h.timeout
  others k hk := (h'.others k hk).trans (h.others k hk)
  own := h'.own.trans h.own

/-- Writing back a session with the other fields unchanged. -/
theorem keeps_set {u v : UserSession} (hu : s.sessions.lookup id = some u)
    (hv : v.fixed = u.fixed) : Keeps id s (s.set id v) where
  timeout := rfl
  others k hk := by
    rw [set]
    exact AList.lookup_insert_ne hk
  own := by
    rw [set, AList.lookup_insert, hu]
    exact congrArg some hv

/-- A touch renews the session of the sender only. -/
theorem keeps_touch (s : UserSessionStore) (now : Instant) (id : Uuid) :
    Keeps id s (s.touch now id) := by
  unfold touch
  split
  · rename_i u hu
    exact keeps_set hu rfl
  · exact .refl id s

/-- A counter is set in the session of the sender only. -/
theorem keeps_tryAdvanceCounter (s : UserSessionStore) (id : Uuid) (counter : UInt64) :
    Keeps id s (s.tryAdvanceCounter id counter).2 := by
  unfold tryAdvanceCounter
  split
  · rename_i u hu
    split
    · exact keeps_set hu rfl
    · exact .refl id s
  · exact .refl id s

/-- The quota that is used up is that of the sender. -/
theorem keeps_tryConsumeMessageQuota (s : UserSessionStore) (now : Instant) (id : Uuid) :
    Keeps id s (s.tryConsumeMessageQuota now id).2 := by
  unfold tryConsumeMessageQuota
  split
  · exact .refl id s
  · rename_i u hu
    dsimp only
    split <;> exact keeps_set hu rfl

/-- A clear that is refused writes nothing. -/
theorem tryConsumeClear_false {now : Instant} (h : s.tryConsumeClear now id = (false, s')) :
    s' = s := by
  unfold tryConsumeClear at h
  split at h
  · exact (Prod.mk.inj h).2.symm
  · split at h
    · exact (Prod.mk.inj h).2.symm
    · cases h

end UserSessionStore

/-- Whichever check fails, it has changed nothing but the sender's own session. -/
theorem keeps_of_checkFrame_error {sessions sessions' : UserSessionStore} {now : Instant}
    {id : Uuid} {username : String} {f : ClientFrame} {e : Error}
    (h : checkFrame sessions now id username f = (.error e, sessions')) :
    UserSessionStore.Keeps id sessions sessions' := by
  unfold checkFrame at h
  split at h
  · cases h
    exact .refl id _
  · cases h
    exact .refl id _
  · rename_i ad ciphertext
    split at h
    · cases h
      exact .refl id _
    · split at h
      · cases h
        exact .refl id _
      · split at h
        · cases h
          exact .refl id _
        · have hadvance := sessions.keeps_tryAdvanceCounter id ad.counter
          split at h
          · rename_i s₁ hfalse
            cases h
            rw [hfalse] at hadvance
            exact hadvance
          · rename_i s₁ htrue
            rw [htrue] at hadvance
            have hquota := s₁.keeps_tryConsumeMessageQuota now id
            split at h
            · rename_i s₂ hfalse
              cases h
              rw [hfalse] at hquota
              exact hadvance.trans hquota
            · cases h
  · split at h
    · rename_i s₁ hfalse
      cases h
      rw [UserSessionStore.tryConsumeClear_false hfalse]
      exact .refl id _
    · cases h

/-! ## What the room shows of it -/

/-- Nothing in the room has changed but the three fields of the session of `id`, and where its
task stands. -/
structure Unseen (id : Uuid) (w w' : World) : Prop where
  messages : w'.messages = w.messages
  connections : w'.connections = w.connections
  outbox : w'.outbox = w.outbox
  sessions : UserSessionStore.Keeps id w.sessions w'.sessions
  tasks : ∀ k ≠ id, w'.tasks k = w.tasks k
  sweeping : w'.sweeping = w.sweeping
  now : w'.now = w.now

/-- What goes unseen at every step goes unseen. -/
theorem Unseen.trans {id : Uuid} {w w' w'' : World} (h : Unseen id w w') (h' : Unseen id w' w'') :
    Unseen id w w'' where
  messages := h'.messages.trans h.messages
  connections := h'.connections.trans h.connections
  outbox := h'.outbox.trans h.outbox
  sessions := h.sessions.trans h'.sessions
  tasks k hk := (h'.tasks k hk).trans (h.tasks k hk)
  sweeping := h'.sweeping.trans h.sweeping
  now := h'.now.trans h.now

/-- A task that goes on, with its own session changed, is not seen by the others. -/
theorem unseen_goto (w : World) {id : Uuid} {sessions : UserSessionStore} (phase : Phase)
    (h : UserSessionStore.Keeps id w.sessions sessions) :
    Unseen id w ({ w with sessions := sessions }.goto id phase) where
  messages := rfl
  connections := rfl
  outbox := rfl
  sessions := h
  tasks _ hk := Function.update_of_ne hk ..
  sweeping := rfl
  now := rfl

variable {w w' : World} {id : Uuid} {username : String} {f : ClientFrame} {evs : List Event}

/-- The touch is unseen. -/
theorem unseen_of_touch (hat : w.tasks id = some (.live username (.touching f)))
    (h : step w (.act id .touch) = some (w', evs)) :
    Unseen id w w' ∧ evs = [] ∧ w'.tasks id = some (.live username (.checking f)) := by
  simp only [step, hat, actStep, liveStep] at h
  cases h
  exact ⟨unseen_goto w _ (UserSessionStore.keeps_touch ..), rfl, Function.update_self ..⟩

/-- Checks that fail are unseen by everybody else. -/
theorem unseen_of_check {e : Error} (hat : w.tasks id = some (.live username (.checking f)))
    (h : step w (.act id .check) = some (w', evs))
    (herror : w'.tasks id = some (.live username (.cleaning (.error e)))) :
    Unseen id w w' ∧ evs = [] := by
  simp only [step, hat, actStep, liveStep] at h
  split at h
  · rename_i e' sessions hcheck
    cases h
    exact ⟨unseen_goto w _ (keeps_of_checkFrame_error hcheck), rfl⟩
  · rename_i out sessions hcheck
    cases h
    -- a frame that passed is not at the clean-up
    rw [World.goto_tasks, Function.update_self] at herror
    have hflight := congrArg (Option.map Phase.flight) herror
    replace hflight : (afterCheck out).flight = .idle := Option.some.inj hflight
    rw [flight_afterCheck] at hflight
    have hframes := congrArg Flight.frames hflight
    rw [Flight.frames_start] at hframes
    cases hframes

/-! ## The connection takes in no more -/

/-- `pump` has returned. -/
def Phase.Ending : Phase → Prop
  | .live _ (.cleaning _) => True
  | .live _ (.leaving _) => True
  | .returned _ => True
  | _ => False

/-- The frames that came in on the connection of `id`. -/
def incomingFrom (id : Uuid) (past : List Event) : List ClientFrame :=
  past.filterMap fun e => match e with
    | .incoming k f => if k = id then some f else none
    | _ => none

@[simp] theorem incomingFrom_append (id : Uuid) (past evs : List Event) :
    incomingFrom id (past ++ evs) = incomingFrom id past ++ incomingFrom id evs :=
  List.filterMap_append

@[simp] theorem incomingFrom_self (id : Uuid) (f : ClientFrame) :
    incomingFrom id [.incoming id f] = [f] := by
  simp [incomingFrom]

theorem incomingFrom_other {id k : Uuid} (f : ClientFrame) (hne : k ≠ id) :
    incomingFrom k [.incoming id f] = [] := by
  simp [incomingFrom, Ne.symm hne]

/-- Past the end of `pump` a task goes on to return, and takes in nothing. -/
theorem Step.ending {l : Label} (h : Step w l w' evs) {phase : Phase}
    (hat : w.tasks id = some phase) (hphase : phase.Ending) :
    (∃ phase', w'.tasks id = some phase' ∧ phase'.Ending) ∧ incomingFrom id evs = [] := by
  -- a step of another task
  have others {u : World} {i : Uuid} {next : Phase} (hu : u.tasks = w.tasks) (hne : id ≠ i) :
      ∃ phase', (u.goto i next).tasks id = some phase' ∧ phase'.Ending := by
    rw [World.goto_tasks, hu, Function.update_of_ne hne]
    exact ⟨phase, hat, hphase⟩
  have differs {i : Uuid} {before : Phase} (hbefore : w.tasks i = some before)
      (hgoing : ¬ before.Ending) : id ≠ i := by
    rintro rfl
    rw [hat] at hbefore
    cases hbefore
    exact hgoing hphase
  -- one of its own last steps
  have ends {u : World} {i : Uuid} {next : Phase} (hu : u.tasks = w.tasks)
      (hnext : next.Ending) : ∃ phase', (u.goto i next).tasks id = some phase' ∧ phase'.Ending := by
    rcases eq_or_ne id i with rfl | hne
    · exact ⟨next, Function.update_self .., hnext⟩
    · exact others hu hne
  cases h with
  | early l i next hbefore hafter hname =>
    refine ⟨others rfl ?_, rfl⟩
    rintro rfl
    rw [hat] at hbefore
    cases phase with
    | live _ _ => exact hbefore
    | returned _ => exact hbefore
    | _ => exact hphase
  | incoming i name g hat' =>
    have hne := differs hat' not_false
    exact ⟨others rfl hne, incomingFrom_other g hne⟩
  | register _ _ hat' | snapshot _ _ hat' | welcomed _ _ _ hat' | touch _ _ _ hat'
  | accepts _ _ _ _ _ hat' | store _ _ _ hat' | collect _ _ _ _ hat'
  | enqueues _ _ _ _ _ _ _ hat' | refused _ _ _ _ _ _ hat' | evict _ _ _ _ hat' =>
    exact ⟨others rfl (differs hat' not_false), rfl⟩
  | unwelcomed | stops | undelivered | rejects | cleanup | leave =>
    exact ⟨ends rfl trivial, rfl⟩
  | delivers | elapse | scan | sweep => exact ⟨⟨phase, hat, hphase⟩, rfl⟩

/-- **After an error nothing more is taken in**, in the rest of every run. -/
theorem incomingFrom_of_ending {c c' : Config World Event} (hrun : room.Run free c c')
    {phase : Phase} (hat : c.state.tasks id = some phase) (hphase : phase.Ending) :
    incomingFrom id c'.past = incomingFrom id c.past := by
  have hrest : (∃ phase', c'.state.tasks id = some phase' ∧ phase'.Ending)
      ∧ incomingFrom id c'.past = incomingFrom id c.past := by
    refine Run.room_invariant (P := fun d => (∃ phase', d.state.tasks id = some phase'
      ∧ phase'.Ending) ∧ incomingFrom id d.past = incomingFrom id c.past) hrun
      ⟨⟨phase, hat, hphase⟩, rfl⟩ ?_
    rintro d l w evs _ ⟨⟨phase', hat', hphase'⟩, hsame⟩ _ hs
    obtain ⟨hnext, hnone⟩ := hs.ending hat' hphase'
    refine ⟨hnext, ?_⟩
    rw [incomingFrom_append, hnone, List.append_nil, hsame]
  exact hrest.2

/-! ## Rejection -/

/-- **A rejected frame has no effect that the room sees.** In every state of a room and for
every frame, with the session still there or removed: when the touch and the checks end in an
error, each of the two critical sections has changed nothing but three fields of the sender's
own session, so both together have not when nobody comes in between; and in no continuation of
the run does the connection take in another frame. -/
theorem rejected_unseen (id : Uuid) (username : String) (f : ClientFrame) :
    (∀ w w₁ evs, w.tasks id = some (.live username (.touching f)) →
      step w (.act id .touch) = some (w₁, evs) → Unseen id w w₁ ∧ evs = []
        ∧ w₁.tasks id = some (.live username (.checking f)))
    ∧ (∀ w w₁ w₂ evs₁ evs₂ e, w.tasks id = some (.live username (.touching f)) →
      step w (.act id .touch) = some (w₁, evs₁) → step w₁ (.act id .check) = some (w₂, evs₂) →
      w₂.tasks id = some (.live username (.cleaning (.error e))) →
        Unseen id w w₂ ∧ evs₁ ++ evs₂ = [])
    ∧ ∀ (c : Config World Event) w evs e,
      c.state.tasks id = some (.live username (.checking f)) →
      step c.state (.act id .check) = some (w, evs) →
      w.tasks id = some (.live username (.cleaning (.error e))) →
        Unseen id c.state w ∧ evs = []
          ∧ ∀ c', room.Run free ⟨c.past, w⟩ c' →
              incomingFrom id c'.past = incomingFrom id c.past := by
  refine ⟨fun w w₁ evs hat h => unseen_of_touch hat h, ?_, ?_⟩
  · intro w w₁ w₂ evs₁ evs₂ e hat htouch hcheck herror
    obtain ⟨hfirst, rfl, hat₁⟩ := unseen_of_touch hat htouch
    obtain ⟨hsecond, rfl⟩ := unseen_of_check hat₁ hcheck herror
    exact ⟨hfirst.trans hsecond, rfl⟩
  · intro c w evs e hat hcheck herror
    obtain ⟨hunseen, rfl⟩ := unseen_of_check hat hcheck herror
    refine ⟨hunseen, rfl, fun c' hrun => ?_⟩
    exact incomingFrom_of_ending (c := ⟨c.past, w⟩) hrun herror trivial

/-! ## A replay -/

/-- The frame that is about to be checked, with the name of its session. -/
def World.checking? (w : World) (id : Uuid) : Option (String × ClientFrame) :=
  match w.tasks id with
  | some (.live username (.checking f)) => some (username, f)
  | _ => none

/-- The error that a session goes down with, and its name. -/
def World.failing? (w : World) (id : Uuid) : Option (String × Error) :=
  match w.tasks id with
  | some (.live username (.cleaning (.error e))) => some (username, e)
  | _ => none

/-- The test finds the frame under its checks. -/
theorem World.checking?_eq_some {w : World} {id : Uuid} {username : String} {f : ClientFrame}
    (h : w.checking? id = some (username, f)) :
    w.tasks id = some (.live username (.checking f)) := by
  unfold checking? at h
  split at h
  · rename_i hat
    cases h
    exact hat
  · cases h

/-- The test gives the error with which the task ends. -/
theorem World.failing?_eq_some {w : World} {id : Uuid} {username : String} {e : Error}
    (h : w.failing? id = some (username, e)) :
    w.tasks id = some (.live username (.cleaning (.error e))) := by
  unfold failing? at h
  split at h
  · rename_i hat
    cases h
    exact hat
  · cases h

open Cast in
/-- Alice repeats a counter: the room does not notice. -/
theorem rejected_unseen_replay :
    ∃ c w, room.Reach free c ∧ step c.state (.act alice .check) = some (w, [])
      ∧ w.failing? alice = some ("alice", .protocol "ad.counter not strictly increasing")
      ∧ Unseen alice c.state w := by
  obtain ⟨c, c', hc, hc', hat, hfailing⟩ := Machine.exec_then (M := room)
    (fun _ _ => true) (fun _ _ => true)
    (arrives alice "alice" ++ isWelcomed alice ++ sends alice (note alice "alice" 1 true)
      ++ broadcasts alice [alice]
      ++ [.act alice (.incoming (some (.ok (note alice "alice" 1 true)))), .act alice .touch])
    [.act alice .check]
    (fun c => c.state.checking? alice) (some ("alice", note alice "alice" 1 true))
    (fun c => c.state.failing? alice)
    (some ("alice", .protocol "ad.counter not strictly increasing")) (by decide)
  obtain ⟨w, evs, hstep, hend⟩ := Machine.exec_cons hc'
  cases hend
  obtain ⟨hunseen, rfl, _⟩ := (rejected_unseen alice "alice" (note alice "alice" 1 true)).2.2 c w
    evs _ (World.checking?_eq_some hat) hstep (World.failing?_eq_some hfailing)
  exact ⟨c, w, Machine.exec_run (fun _ _ _ => trivial) hc, hstep, hfailing, hunseen⟩

end ChatRs

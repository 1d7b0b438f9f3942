import ChatRs.Server.Membership

/-!
# Clean-up on the way out

A registered connection leaves through the clean-up after `pump`, which removes its session and
its sender, on every path but one: when the Welcome cannot be sent, the `?` returns past the
clean-up. A connection that has returned has left nothing behind in the runs in which the send of
its own Welcome does not fail while its session or sender is still there, whatever becomes of the
others; and wherever that send fails, the connection returns with what it still had.
-/

namespace ChatRs

open Machine (Config Guard)

/-- The session or the sender of `id` is in the room. -/
def World.Resident (w : World) (id : Uuid) : Prop :=
  w.sessions.Present id ∨ w.connections.Connected id

/-- The task is registered and has not passed the clean-up. -/
def Phase.Staying : Phase → Prop
  | .live _ (.leaving _) => False
  | .live _ _ => True
  | _ => False

/-- The send of the Welcome of `id` does not fail before its session and sender are gone. -/
def WelcomeSent (id : Uuid) : Guard World Label Event := fun c l =>
  ∀ e, l = .act id (.sendWelcome (.error e)) → ¬ c.state.Resident id

theorem staying_afterCheck (username : String) (f : ServerFrame) :
    (Phase.live username (afterCheck f)).Staying := by
  unfold afterCheck
  split
  · split <;> trivial
  · trivial

/-! ## Where sessions and senders come and go -/

/-- A resident was there before, or registers with this step. -/
theorem Step.resident {w w' : World} {l : Label} {evs : List Event} (h : Step w l w' evs)
    {k : Uuid} (hk : w'.Resident k) :
    w.Resident k ∨ ∃ username, w'.tasks k = some (.live username .snapshotting) := by
  rcases hk with hk | hk
  · exact (h.present hk).imp Or.inl And.right
  · exact (h.connected hk).imp Or.inr And.right

/-- A staying task stays, but for a failed Welcome and for the clean-up, which removes the
session and the sender. -/
theorem Step.staying {w w' : World} {l : Label} {evs : List Event} (h : Step w l w' evs)
    {k : Uuid} {phase : Phase} (hat : w.tasks k = some phase) (hphase : phase.Staying) :
    (∃ phase', w'.tasks k = some phase' ∧ phase'.Staying)
      ∨ (∃ e, l = .act k (.sendWelcome (.error e))) ∨ ¬ w'.Resident k := by
  have moves {u : World} {id : Uuid} {next : Phase} (hu : u.tasks = w.tasks)
      (hnext : next.Staying) :
      ∃ phase', (u.goto id next).tasks k = some phase' ∧ phase'.Staying := by
    rw [World.goto_tasks, hu]
    rcases eq_or_ne k id with rfl | hne
    · exact ⟨next, Function.update_self .., hnext⟩
    · rw [Function.update_of_ne hne]
      exact ⟨phase, hat, hphase⟩
  -- a step of another task
  have others {u : World} {id : Uuid} {next : Phase} (hu : u.tasks = w.tasks) (hne : k ≠ id) :
      ∃ phase', (u.goto id next).tasks k = some phase' ∧ phase'.Staying := by
    rw [World.goto_tasks, hu, Function.update_of_ne hne]
    exact ⟨phase, hat, hphase⟩
  cases h with
  | early l id next hbefore hafter hname =>
    refine .inl (others rfl ?_)
    rintro rfl
    rw [hat] at hbefore
    cases phase with
    | live _ _ => exact hbefore
    | _ => exact hphase
  -- the only way out of the room that passes the clean-up by
  | unwelcomed id username history e hat' =>
    rcases eq_or_ne k id with rfl | hne
    · exact .inr (.inl ⟨e, rfl⟩)
    · exact .inl (others rfl hne)
  | cleanup id username result hat' =>
    rcases eq_or_ne k id with rfl | hne
    · refine .inr (.inr ?_)
      rintro (hk | hk)
      · rw [UserSessionStore.present_iff, World.goto_sessions,
          UserSessionStore.counterOf_remove, Function.update_self] at hk
        exact hk rfl
      · exact ((ConnectionManager.connected_remove ..).mp hk).1 rfl
    · exact .inl (others rfl hne)
  | leave id username result hat' =>
    refine .inl (others rfl ?_)
    rintro rfl
    rw [hat] at hat'
    cases hat'
    exact hphase
  | accepts id username f out => exact .inl (moves rfl (staying_afterCheck username out))
  | delivers | elapse | scan | sweep => exact .inl ⟨phase, hat, hphase⟩
  | _ => exact .inl (moves rfl trivial)

section

variable {c : Config World Event} {id : Uuid}

/-- **What the room has of a connection is that of a task that has not passed the clean-up**, as
long as its Welcome does not fail. -/
theorem resident_staying (h : room.Reach (WelcomeSent id) c) :
    c.state.Resident id → ∃ phase, c.state.tasks id = some phase ∧ phase.Staying := by
  refine Reach.room_invariant ?_ ?_ h
  · rintro (hk | hk)
    · exact (UserSessionStore.present_iff ..).mp hk (UserSessionStore.counterOf_new ..) |>.elim
    · exact (ConnectionManager.not_connected_new id hk).elim
  intro c l w evs _ ih hguard hs hk
  rcases hs.resident hk with hbefore | ⟨username, hnew⟩
  · obtain ⟨phase, hat, hphase⟩ := ih hbefore
    rcases hs.staying hat hphase with hstays | ⟨e, rfl⟩ | hgone
    · exact hstays
    · exact absurd hbefore (hguard e rfl)
    · exact absurd hk hgone
  · exact ⟨_, hnew, trivial⟩

/-- **Clean-up on every exit.** In the runs in which the send of its Welcome does not fail while
its session or sender is in the room, a connection that has returned has neither. -/
theorem returned_clean (h : room.Reach (WelcomeSent id) c) (result : Result Unit)
    (hreturned : c.state.tasks id = some (.returned result)) :
    ¬ c.state.sessions.Present id ∧ ¬ c.state.connections.Connected id := by
  have hgone : ¬ c.state.Resident id := by
    intro hk
    obtain ⟨phase, hat, hphase⟩ := resident_staying h hk
    rw [hreturned] at hat
    cases hat
    exact hphase
  exact ⟨fun hk => hgone (.inl hk), fun hk => hgone (.inr hk)⟩

end

/-- The condition is exact: where it fails, the connection returns with its next step, and what
the room had of it stays. -/
theorem failed_welcome_leaks {w : World} {id : Uuid} {username : String}
    {history : List RoomMessage} (e : Error)
    (hat : w.tasks id = some (.live username (.welcoming history))) (hk : w.Resident id) :
    ∃ w₁ w₂, step w (.act id (.sendWelcome (.error e))) = some (w₁, [])
      ∧ step w₁ (.act id .leave) = some (w₂, [])
      ∧ w₂.tasks id = some (.returned (.error e)) ∧ w₂.Resident id := by
  let w₁ := w.goto id (.live username (.leaving (.error e)))
  let w₂ := (w₁.setOutbox id (w₁.outbox id).drop).goto id (.returned (.error e))
  refine ⟨w₁, w₂, ?_, ?_, Function.update_self .., hk⟩
  · rw [step]
    simp only [hat]
    rfl
  · have hat₁ : w₁.tasks id = some (.live username (.leaving (.error e))) :=
      Function.update_self ..
    rw [step]
    simp only [hat₁]
    rfl

/-! ## A peer that hangs up -/

/-- The task of `id` has returned. -/
def World.hasReturned (w : World) (id : Uuid) : Bool :=
  match w.tasks id with
  | some (.returned _) => true
  | _ => false

theorem returned_of_hasReturned {w : World} {id : Uuid} (h : w.hasReturned id = true) :
    ∃ result, w.tasks id = some (.returned result) := by
  rw [World.hasReturned] at h
  split at h
  · rename_i result hat
    exact ⟨result, hat⟩
  · cases h

/-- A test for `WelcomeSent`: the Welcome of `id` does not fail at all. -/
def welcomeNotFailed (id : Uuid) : Label → Bool
  | .act k (.sendWelcome (.error _)) => k ≠ id
  | _ => true

theorem welcomeSent_of_test (id : Uuid) (c : Config World Event) (l : Label)
    (h : welcomeNotFailed id l = true) : WelcomeSent id c l := by
  rintro e rfl
  exact absurd rfl (of_decide_eq_true h)

open Cast in
/-- Bob's Welcome fails, and he stays registered. Alice hangs up after hers and is forgotten. -/
theorem returned_clean_alice :
    ∃ c, room.Reach (WelcomeSent alice) c ∧ c.state.connections.snapshot = [bob]
      ∧ ¬ c.state.sessions.Present alice ∧ ¬ c.state.connections.Connected alice := by
  obtain ⟨c, hc, hvalue⟩ := Machine.exec_reach (M := room) (G := WelcomeSent alice)
    (fun _ l => welcomeNotFailed alice l) (welcomeSent_of_test alice)
    (fun c => (c.state.hasReturned alice, c.state.connections.snapshot)) (true, [bob])
    (arrives bob "bob" ++ [.act bob .snapshot, .act bob (.sendWelcome (.error .io))]
      ++ arrives alice "alice" ++ isWelcomed alice
      ++ [.act alice (.incoming none), .act alice .cleanup, .act alice .leave]) (by decide)
  obtain ⟨hreturned, hleft⟩ := Prod.mk.inj hvalue
  obtain ⟨result, hat⟩ := returned_of_hasReturned hreturned
  exact ⟨c, hc, hleft, returned_clean hc result hat⟩

open Cast in
/-- Alice hangs up before the Welcome and stays registered after her connection has returned. -/
theorem returned_unclean :
    ¬ ∀ c, room.Reach Machine.free c → ∀ id result,
        c.state.tasks id = some (.returned result) →
        ¬ c.state.sessions.Present id ∧ ¬ c.state.connections.Connected id := by
  intro hclean
  obtain ⟨c, hc, hvalue⟩ := Machine.exec_reach_free (M := room)
    (fun c => (c.state.hasReturned alice, c.state.connections.snapshot)) (true, [alice])
    (arrives alice "alice"
      ++ [.act alice .snapshot, .act alice (.sendWelcome (.error .io)), .act alice .leave])
    (by decide)
  obtain ⟨hreturned, hconnected⟩ := Prod.mk.inj hvalue
  obtain ⟨result, hat⟩ := returned_of_hasReturned hreturned
  refine (hclean c hc alice result hat).2 ((ConnectionManager.mem_snapshot ..).mp ?_)
  rw [hconnected]
  exact List.mem_singleton_self alice

end ChatRs

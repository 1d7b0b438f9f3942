import ChatRs.Server.Service

/-!
# The rooms of the server

The steps of the server that concern one room are steps of `room`, and a registration is the
whole way of a task from the accept to there. So what happens in one room of the server happens
in a run of `room` (**`server_room`**), and what holds of the runs of one room holds of every
room of the server.
-/

namespace ChatRs

open Machine (Config Guard free)

section

variable {τ : Type} {N : Noise τ} {decode : List UInt8 → Option ClientFrame}
  {fill : Nat → Option Key} {hub : ServerHub}

/-! ## What happens in one room -/

/-- What happened in one room. -/
def roomPast (ref : RoomRef) (past : List ServerEvent) : List Event :=
  past.filterMap fun ev => match ev with
    | .room r e => if r = ref then some e else none
    | _ => none

theorem roomPast_append (ref : RoomRef) (past past' : List ServerEvent) :
    roomPast ref (past ++ past') = roomPast ref past ++ roomPast ref past' :=
  List.filterMap_append

/-- What happens in a room is in its past. -/
theorem roomPast_map_self (ref : RoomRef) (evs : List Event) :
    roomPast ref (evs.map (.room ref)) = evs := by
  induction evs with
  | nil => rfl
  | cons e evs ih =>
    simp only [roomPast, List.map_cons, List.filterMap_cons, if_true] at ih ⊢
    rw [ih]

/-- What happens in one room is not in the past of another. -/
theorem roomPast_map_other {ref ref' : RoomRef} (hne : ref' ≠ ref) (evs : List Event) :
    roomPast ref (evs.map (.room ref')) = [] := by
  induction evs with
  | nil => rfl
  | cons e evs ih =>
    simp only [roomPast, List.map_cons, List.filterMap_cons, if_neg hne] at ih ⊢
    exact ih

/-- The handshake is in no room's past. -/
theorem roomPast_open {evs : List ServerEvent} (hevs : ∀ ev ∈ evs, ev.Open) (ref : RoomRef) :
    roomPast ref evs = [] := by
  rw [roomPast, List.filterMap_eq_nil_iff]
  intro ev hev
  cases ev with
  | room r e => exact (hevs _ hev).elim
  | _ => rfl

/-- The Welcome on the wire is not in the past of a room. -/
theorem roomPast_welcomes (ref : RoomRef) (id : Uuid) (pc : Pc) (a : Act) :
    roomPast ref (welcomes id pc a) = [] := by
  unfold welcomes
  split <;> rfl

/-- The connection has not entered a room. -/
def Outside : Option (Stage τ) → Prop
  | some (.joined _) | some (.returning _) | some (.returned _) => False
  | _ => True

/-- A connection in the handshake is not inside its room yet. -/
theorem outside_of_seat {stage : Stage τ} {x : RoomRef × RoomState} (h : stage.seat = some x) :
    Outside (some stage) := by
  cases stage with
  | greeting | handshaking | answering | awaitingHello => trivial
  | _ => cases h

section

variable {G : Guard (Service τ) ServerLabel ServerEvent} {drawn : Nat}
  {c : Config (Service τ) ServerEvent}

/-- No room knows of a connection that has not entered. -/
theorem outside_tasks (h : (server N decode fill hub drawn).Reach G c) :
    ∀ id, Outside (c.state.conns id) → ∀ ref, (c.state.stores ref).tasks id = none := by
  refine Reach.server_invariant ?_ ?_ h
  · exact fun _ _ _ => rfl
  intro c l s evs _ ih _ hs k hk ref
  by_cases hactor : l.actor = some k
  · -- where it stands now it is inside, or the stores are as they were
    have stays {u : Service τ} {stage : Stage τ} (hstores : u.stores = c.state.stores)
        (hbefore : Outside (c.state.conns k)) : ((u.goto k stage).stores ref).tasks k = none := by
      rw [Service.goto_stores, hstores]
      exact ih k hbefore ref
    cases hs with
    | elapse => cases hactor
    | sweeps l name lr w evs hl hstep => cases (actor_of_sweep hl).1.symm.trans hactor
    | accepts id stage hnew hstage =>
      cases hactor
      exact stays rfl (hnew ▸ trivial)
    | selects id r ref' room drawn evs hat hplace =>
      cases hactor
      exact stays rfl (hat ▸ trivial)
    | proceeds id a before after ref' room evs hat hbefore hafter hevs =>
      cases hactor
      exact stays rfl (hat ▸ outside_of_seat hbefore)
    | opens id bytes ref' room transport username hat hopens hname =>
      cases hactor
      exact stays rfl (hat ▸ trivial)
    -- who is inside or has left is not outside
    | lives id ref' username pc a w evs hat htask hlive =>
      cases hactor
      rw [Service.goto_conns, Function.update_self] at hk
      unfold afterLive at hk
      split at hk <;> exact hk.elim
    | _ =>
      cases hactor
      rw [Service.goto_conns, Function.update_self] at hk
      exact hk.elim
  · rw [hs.tasks_other hactor]
    rw [hs.conns_other hactor] at hk
    exact ih k hk ref

/-- Where a connection is about to register, its username has passed the checks, and came in the
first frame. -/
theorem registering_opened (h : (server N decode fill hub drawn).Reach G c) :
    ∀ id ref username, c.state.conns id = some (.registering ref username) →
      ValidName username ∧ .opened id (.hello username) ∈ c.past := by
  refine Reach.server_invariant ?_ ?_ h
  · exact nofun
  intro c l s evs _ ih _ hs k ref username hk
  have before (hbefore : c.state.conns k = some (.registering ref username)) :
      ValidName username ∧ .opened k (.hello username) ∈ c.past ++ evs := by
    obtain ⟨hname, hopened⟩ := ih k ref username hbefore
    exact ⟨hname, List.mem_append_left evs hopened⟩
  by_cases hactor : l.actor = some k
  · cases hs with
    | elapse | sweeps => exact before hk
    | accepts id stage hnew hstage =>
      cases hactor
      rcases hstage with rfl | rfl <;> exact Service.elsewhere hk nofun
    | proceeds id a stage after ref' room evs hat hbefore hafter hevs =>
      cases hactor
      refine Service.elsewhere hk fun heq => ?_
      rw [heq] at hafter
      cases hafter
    | opens id bytes ref' room transport username' hat hopens hname =>
      cases hactor
      rw [Service.goto_conns, Function.update_self] at hk
      cases hk
      -- this is the step with the Hello
      exact ⟨hname, List.mem_append_right _ (List.mem_singleton_self _)⟩
    | lives id ref' username' pc a w evs hat htask hlive =>
      cases hactor
      refine Service.elsewhere hk ?_
      unfold afterLive
      split <;> exact nofun
    | _ =>
      cases hactor
      exact Service.elsewhere hk nofun
  · rw [hs.conns_other hactor] at hk
    exact before hk

end

end

/-! ## The steps of a room that a registration stands for -/

theorem World.goto_goto (w : World) (id : Uuid) (phase phase' : Phase) :
    (w.goto id phase).goto id phase' = w.goto id phase' := by
  unfold World.goto
  rw [Function.update_idem]

theorem step_act_goto (w : World) (id : Uuid) (phase : Phase) (a : Act) :
    step (w.goto id phase) (.act id a) = actStep (w.goto id phase) id phase a := by
  simp only [step, World.goto_tasks, Function.update_self]

/-- A step of one task, and of nothing else. -/
theorem run_goto {w : World} {l : Label} {id : Uuid} {phase : Phase}
    (h : step w l = some (w.goto id phase, [])) (past : List Event) :
    room.Run free ⟨past, w⟩ ⟨past, w.goto id phase⟩ := by
  have hnext := Machine.Next.mk (M := room) (G := free) (c := ⟨past, w⟩) l _ _ trivial h
  rw [List.append_nil] at hnext
  exact .single hnext

/-- **A registration is a run of the room**: what comes before it leaves no trace there. -/
theorem run_registers {w w' : World} {id : Uuid} {username : String} {evs : List Event}
    (hnone : w.tasks id = none) (hname : ValidName username)
    (hregister : actStep w id (.registering username) .register = some (w', evs))
    (past : List Event) : room.Run free ⟨past, w⟩ ⟨past ++ evs, w'⟩ := by
  -- a step of the handshake changes the phase and nothing else
  have moves {phase phase' : Phase} (a : Act)
      (h : actStep (w.goto id phase) id phase a = some ((w.goto id phase).goto id phase', [])) :
      room.Run free ⟨past, w.goto id phase⟩ ⟨past, w.goto id phase'⟩ := by
    rw [← step_act_goto] at h
    have hrun := run_goto h past
    rw [World.goto_goto] at hrun
    exact hrun
  have haccept : room.Run free ⟨past, w⟩ ⟨past, w.goto id .selecting⟩ := by
    apply run_goto (l := .accept id true)
    simp only [step, hnone, if_true]
  -- the name of the room does not matter to the phases
  have hselect : handshakeStep .selecting (.recvSelect (.ok (.roomSelect "main")))
      = some .greeting := by
    rw [handshakeStep, if_neg (by decide)]
  have hchecks : handshakeStep .awaitingHello (.recvHello (.ok (.hello username)))
      = some (.registering username) := if_neg (checks_of_validName hname)
  have hgreeted : room.Run free ⟨past, w.goto id .selecting⟩ ⟨past, w.goto id .greeting⟩ := by
    apply moves (.recvSelect (.ok (.roomSelect "main")))
    simp only [actStep, hselect, Option.map_some]
  have hhandshake : room.Run free ⟨past, w.goto id .greeting⟩ ⟨past, w.goto id .awaitingHello⟩ :=
    (moves (.sendHello (.ok ())) rfl).trans (moves (.handshake (.ok ())) rfl)
  have hhello : room.Run free ⟨past, w.goto id .awaitingHello⟩
      ⟨past, w.goto id (.registering username)⟩ := by
    apply moves (.recvHello (.ok (.hello username)))
    simp only [actStep, hchecks, Option.map_some]
  have hlast : step (w.goto id (.registering username)) (.act id .register) = some (w', evs) := by
    rw [step_act_goto, ← hregister]
    simp only [actStep, World.goto, World.setOutbox, Function.update_idem]
  have hregistered := Machine.Next.mk (M := room) (G := free)
    (c := ⟨past, w.goto id (.registering username)⟩) (.act id .register) w' evs trivial hlast
  exact (((haccept.trans hgreeted).trans hhandshake).trans hhello).tail hregistered

section

variable {τ : Type} {N : Noise τ} {decode : List UInt8 → Option ClientFrame}
  {fill : Nat → Option Key} {hub : ServerHub} {G : Guard (Service τ) ServerLabel ServerEvent}
  {drawn : Nat} {c : Config (Service τ) ServerEvent}

/-- **Every room of the server is a `room`**: what its runs keep is kept there, and what happens
in it happens in one of its runs. -/
theorem server_room (h : (server N decode fill hub drawn).Reach G c) (ref : RoomRef) :
    room.Reach free ⟨roomPast ref c.past, c.state.stores ref⟩ := by
  have hstart : room.Reach free room.start := .refl
  refine Machine.Reach.simulates
    (fun c => (⟨roomPast ref c.past, c.state.stores ref⟩ : Config World Event)) hstart ?_ h
  intro c l s evs hreach _ _ hs
  -- a step in one room is a run of that room, and none of the others
  have within {ref' : RoomRef} {u : Service τ} {w : World} {wevs : List Event}
      (hstores : u.stores = Function.update c.state.stores ref' w)
      (hevs : ∀ r, roomPast r evs = roomPast r (wevs.map (.room ref')))
      (hrun : room.Run free ⟨roomPast ref' c.past, c.state.stores ref'⟩
        ⟨roomPast ref' c.past ++ wevs, w⟩) :
      room.Run free ⟨roomPast ref c.past, c.state.stores ref⟩
        ⟨roomPast ref (c.past ++ evs), u.stores ref⟩ := by
    rw [roomPast_append, hevs, hstores]
    rcases eq_or_ne ref ref' with rfl | hne
    · rw [roomPast_map_self, Function.update_self]
      exact hrun
    · rw [roomPast_map_other hne.symm, Function.update_of_ne hne, List.append_nil]
  -- a step outside the rooms leaves each of them as it is
  have elsewhere {u : Service τ} (hstores : u.stores = c.state.stores)
      (hevs : ∀ ev ∈ evs, ev.Open) :
      room.Run free ⟨roomPast ref c.past, c.state.stores ref⟩
        ⟨roomPast ref (c.past ++ evs), u.stores ref⟩ := by
    rw [roomPast_append, roomPast_open hevs, List.append_nil, hstores]
  have quiet : ∀ ev ∈ ([] : List ServerEvent), ev.Open := nofun
  cases serverStep_inv hs with
  | accepts => exact elsewhere rfl quiet
  | rollsBack => exact elsewhere rfl quiet
  | ends id a stage e drawn evs hat hearly hevs => exact elsewhere rfl hevs
  | selects id r ref' room drawn evs hat hplace =>
    refine elsewhere rfl ?_
    rcases hplace with ⟨_, _, _, rfl⟩ | ⟨_, rfl⟩
    · exact quiet
    · exact List.forall_mem_singleton.mpr trivial
  | proceeds id a before after ref' room evs hat hbefore hafter hevs => exact elsewhere rfl hevs
  | opens => exact elsewhere rfl (List.forall_mem_singleton.mpr trivial)
  | registers id ref' username w wevs hat hregister =>
    -- the room is entered with a name that the greeting has checked
    refine within rfl (fun _ => rfl) ?_
    have hnone := outside_tasks hreach id (hat ▸ trivial) ref'
    exact run_registers hnone (registering_opened hreach id ref' username hat).1 hregister _
  | lives id ref' username pc a w wevs hat htask hlive =>
    refine within rfl (fun r => ?_) (.single (.mk (.act id a) w wevs trivial ?_))
    · rw [roomPast_append, roomPast_welcomes, List.nil_append]
    · show step (c.state.stores ref') (.act id a) = some (w, wevs)
      simp only [step, htask]
      exact hlive
  | returns => exact elsewhere rfl quiet
  -- the clock is that of every room
  | elapse d =>
    refine .single ?_
    rw [roomPast_append]
    exact .mk (.elapse d) _ [] trivial rfl
  | sweeps l name lr w wevs hl hstep =>
    exact within rfl (fun _ => rfl) (.single (.mk lr w wevs trivial hstep))

end

end ChatRs

import Mathlib.Data.FinEnum
import Mathlib.Data.Fintype.Vector
import ChatRs.Lib.Drain
import ChatRs.Server.Cleanup
import ChatRs.Server.Gate

/-!
# Shutting down (`server/mod.rs`)

After ctrl-c `run` cancels the token, drops the listener and waits for its tasks. Nobody is
aborted: a connection goes on where it stands, and the next time it comes to the top of `pump`
the cancelled token wins over its outbox and its peer, because the `select!` is biased. But a send
that has begun is raced with nothing, and a peer that does not read can hold it up. The plan:

* **`ShuttingDown`**: the steps that are left, no accept among them;
* **`Service.distance`**: how far a connection is from its return. Every step it takes brings it
  nearer, a broadcast by one peer at a time (`drains`);
* **`Service.Sends`**, `exists_unaided`: only in a send can a connection be held up, by its peer;
* **`GoesOn`**: what is asked of the scheduler and of the peer, so that a connection returns;
* **`shutdown_drains`**: then it does, and `active_conns` comes down to 0 when all do;
* **`shutdown_tidies`**: what a connection had in its room is gone then, if it was welcomed.
-/

namespace ChatRs

open Machine (Config Guard Path free)

/-! ## The steps that are left -/

section

variable {τ : Type}

/-- The listener is gone: only tasks that were spawned before may still start. And `pump` sees the
token first. -/
def ShuttingDown (spawned : Set Uuid) : Guard (Service τ) ServerLabel ServerEvent :=
  fun c l => (∀ id, l = .accept id → id ∈ spawned)
    ∧ ∀ id a ref username, l = .conn id (.live a) → c.state.conns id = some (.joined ref) →
      (c.state.stores ref).tasks id = some (.live username .pumping) → a = .cancelled

/-- How far a task in a room is from its return: the steps of a broadcast count the peers that
are left. -/
def Pc.distance : Pc → ℕ ×ₗ ℕ
  | .snapshotting => toLex (13, 0)
  | .welcoming _ => toLex (12, 0)
  | .touching _ => toLex (11, 0)
  | .checking _ => toLex (10, 0)
  | .storing _ => toLex (9, 0)
  | .collecting _ => toLex (8, 0)
  | .sending _ rest _ => toLex (7, rest.length)
  | .pumping => toLex (6, 0)
  | .cleaning _ => toLex (5, 0)
  | .leaving _ => toLex (4, 0)

def Phase.distance : Phase → ℕ ×ₗ ℕ
  | .live _ pc => pc.distance
  | _ => toLex (3, 0)

/-- The same for a connection, with its task in the room that it has joined. -/
def Stage.distance (task : RoomRef → Option Phase) : Stage τ → ℕ ×ₗ ℕ
  | .selecting => toLex (19, 0)
  | .greeting _ _ => toLex (18, 0)
  | .handshaking _ _ => toLex (17, 0)
  | .answering _ _ _ _ => toLex (16, 0)
  | .awaitingHello _ _ _ => toLex (15, 0)
  | .registering _ _ => toLex (14, 0)
  | .joined ref => ((task ref).map Phase.distance).getD (toLex (3, 0))
  | .returning _ => toLex (2, 0)
  | .rollingBack => toLex (1, 0)
  | .returned _ => toLex (0, 0)

def Service.distance (s : Service τ) (id : Uuid) : ℕ ×ₗ ℕ :=
  ((s.conns id).map (Stage.distance fun ref => (s.stores ref).tasks id)).getD (toLex (20, 0))

/-- The connection is in flight, or its task has not started yet. -/
def Service.Waiting (s : Service τ) (spawned : Set Uuid) (id : Uuid) : Prop :=
  InFlight (s.conns id) ∨ (id ∈ spawned ∧ s.conns id = none)

theorem Service.distance_of_at {s : Service τ} {id : Uuid} {stage : Stage τ}
    (h : s.conns id = some stage) :
    s.distance id = stage.distance fun ref => (s.stores ref).tasks id := by
  rw [distance, h]
  rfl

theorem Service.distance_goto (s : Service τ) (id : Uuid) (stage : Stage τ) :
    (s.goto id stage).distance id = stage.distance fun ref => (s.stores ref).tasks id :=
  distance_of_at (Function.update_self ..)

/-- The next phase is nearer, however many peers are left in it. -/
theorem nearer {a b m n : Nat} (h : a < b) : toLex (a, m) < toLex (b, n) :=
  Prod.Lex.toLex_lt_toLex.mpr (.inl h)

/-- Behind the checks a frame is stored, broadcast or done with: all of that is nearer to the
return. -/
theorem distance_afterCheck_lt (f : ClientFrame) (out : ServerFrame) :
    (afterCheck out).distance < (Pc.checking f).distance := by
  unfold afterCheck
  split
  · split
    · exact nearer (by decide)
    · exact nearer (by decide)
  · exact nearer (by decide)

end

/-! ## Every step brings a connection nearer to its return -/

/-- A step in the room, unless the task is in `pump` and does not stop there. -/
theorem liveStep_distance {w w' : World} {id : Uuid} {username : String} {pc : Pc} {a : Act}
    {evs : List Event} (hat : w.tasks id = some (.live username pc))
    (h : liveStep w id username pc a = some (w', evs)) (hpump : pc = .pumping → a = .cancelled) :
    (∃ username' pc', w'.tasks id = some (.live username' pc') ∧ pc'.distance < pc.distance)
      ∨ ((∃ result, w'.tasks id = some (.returned result)) ∧ toLex (2, 0) < pc.distance) := by
  have moves {u : World} {pc' : Pc} (hlt : pc'.distance < pc.distance) :
      ∃ username' pc'', (u.goto id (.live username pc')).tasks id = some (.live username' pc'')
        ∧ pc''.distance < pc.distance :=
    ⟨username, pc', Function.update_self .., hlt⟩
  -- the inversion names the place of the task again; there is only one
  have here {username' : String} {pc' : Pc}
      (hat' : w.tasks id = some (.live username' pc')) : username' = username ∧ pc' = pc := by
    rw [hat, Option.some.injEq, Phase.live.injEq] at hat'
    exact ⟨hat'.1.symm, hat'.2.symm⟩
  cases liveStep_inv hat h with
  | early l _ phase hbefore hafter hname hactor =>
    cases hactor
    rw [hat] at hbefore
    exact hbefore.elim
  | register _ _ hat' =>
    rw [hat] at hat'
    cases hat'
  | snapshot _ _ hat' =>
    obtain ⟨rfl, rfl⟩ := here hat'
    exact .inl (moves (nearer (by decide)))
  | welcomed _ _ history hat' =>
    obtain ⟨rfl, rfl⟩ := here hat'
    exact .inl (moves (nearer (by decide)))
  | unwelcomed _ _ history e hat' =>
    obtain ⟨rfl, rfl⟩ := here hat'
    exact .inl (moves (nearer (by decide)))
  | stops _ _ _ result hat' =>
    obtain ⟨rfl, rfl⟩ := here hat'
    exact .inl (moves (nearer (by decide)))
  -- `pump` may go round without end, which is why it must stop here
  | delivers _ _ f o hat' =>
    obtain ⟨rfl, rfl⟩ := here hat'
    cases hpump rfl
  | undelivered _ _ f o e hat' =>
    obtain ⟨rfl, rfl⟩ := here hat'
    cases hpump rfl
  | incoming _ _ f hat' =>
    obtain ⟨rfl, rfl⟩ := here hat'
    cases hpump rfl
  | touch _ _ f hat' =>
    obtain ⟨rfl, rfl⟩ := here hat'
    exact .inl (moves (nearer (by decide)))
  | rejects _ _ f e sessions hat' =>
    obtain ⟨rfl, rfl⟩ := here hat'
    exact .inl (moves (nearer (by decide)))
  | accepts _ _ f out sessions hat' =>
    obtain ⟨rfl, rfl⟩ := here hat'
    exact .inl (moves (distance_afterCheck_lt f out))
  | store _ _ f hat' =>
    obtain ⟨rfl, rfl⟩ := here hat'
    exact .inl (moves (nearer (by decide)))
  | collect _ _ f order hat' =>
    obtain ⟨rfl, rfl⟩ := here hat'
    exact .inl (moves (nearer (by decide)))
  | enqueues _ _ f peer rest dead o hat' =>
    obtain ⟨rfl, rfl⟩ := here hat'
    -- within a broadcast the list of peers gets shorter
    refine .inl (moves (Prod.Lex.toLex_lt_toLex.mpr (.inr ⟨rfl, ?_⟩)))
    exact Nat.lt_succ_self rest.length
  | refused _ _ f peer rest dead hat' =>
    obtain ⟨rfl, rfl⟩ := here hat'
    refine .inl (moves (Prod.Lex.toLex_lt_toLex.mpr (.inr ⟨rfl, ?_⟩)))
    exact Nat.lt_succ_self rest.length
  | evict _ _ f dead hat' =>
    obtain ⟨rfl, rfl⟩ := here hat'
    exact .inl (moves (nearer (by decide)))
  | cleanup _ _ result hat' =>
    obtain ⟨rfl, rfl⟩ := here hat'
    exact .inl (moves (nearer (by decide)))
  | leave _ _ result hat' =>
    obtain ⟨rfl, rfl⟩ := here hat'
    exact .inr ⟨⟨result, Function.update_self ..⟩, nearer (by decide)⟩

section

variable {τ : Type} {N : Noise τ} {decode : List UInt8 → Option ClientFrame}
  {fill : Nat → Option Key} {hub : ServerHub} {drawn : Nat} {spawned : Set Uuid}

/-- A step of the handshake. -/
theorem greetStep_distance {id : Uuid} {stage stage' : Stage τ} {a : ConnAct} {k k' : Nat}
    {evs : List ServerEvent} (task : RoomRef → Option Phase)
    (h : greetStep N decode fill hub id k stage a = some (stage', k', evs)) :
    stage'.distance task < stage.distance task := by
  unfold greetStep at h
  split at h
  case h_1 =>
    split at h
    · cases h
      exact nearer (by decide)
    · split at h
      · cases h
        exact nearer (by decide)
      · split at h <;> cases h
        · exact nearer (by decide)
        · exact nearer (by decide)
    · cases h
      exact nearer (by decide)
  case h_6 =>
    split at h <;> cases h
    · exact nearer (by decide)
    · exact nearer (by decide)
  case h_10 =>
    split at h
    · cases h
      exact nearer (by decide)
    · split at h <;> cases h
      · exact nearer (by decide)
      · exact nearer (by decide)
    · cases h
      exact nearer (by decide)
  all_goals cases h
  all_goals exact nearer (by decide)

/-- A step of a connection. -/
theorem connStep_distance {c : Config (Service τ) ServerEvent} {s : Service τ} {id : Uuid}
    {stage : Stage τ} {a : ConnAct} {evs : List ServerEvent}
    (hG : ShuttingDown spawned c (.conn id a)) (hat : c.state.conns id = some stage)
    (h : connStep N decode fill hub c.state id stage a = some (s, evs)) :
    s.distance id < c.state.distance id := by
  rw [Service.distance_of_at hat]
  unfold connStep at h
  split at h
  case h_1 =>
    cases h
    rw [Service.distance_goto]
    exact nearer (by decide)
  case h_2 =>
    obtain ⟨⟨w, wevs⟩, hregister, heq⟩ := Option.map_eq_some_iff.mp h
    cases heq
    cases hregister
    rw [Service.distance_goto]
    simp only [Stage.distance, Service.setStore_stores, Function.update_self, World.goto_tasks]
    exact nearer (by decide)
  case h_3 _ ref a =>
    split at h
    case h_2 => cases h
    rename_i username pc htask
    obtain ⟨⟨w, wevs⟩, hlive, heq⟩ := Option.map_eq_some_iff.mp h
    cases heq
    -- during the shutdown `pump` takes no other turn
    have hpump : pc = .pumping → a = .cancelled := by
      rintro rfl
      exact hG.2 id a ref username rfl hat htask
    have hbefore : (Stage.joined ref : Stage τ).distance
        (fun ref => (c.state.stores ref).tasks id) = pc.distance := by
      simp only [Stage.distance, htask]
      rfl
    rw [Service.distance_goto, hbefore]
    -- the task is nearer to its return, or the connection leaves the room with it
    rcases liveStep_distance htask hlive hpump with
      ⟨username', pc', hnext, hlt⟩ | ⟨⟨result, hnext⟩, hlt⟩
    · simp only [afterLive, hnext, Stage.distance, Service.setStore_stores, Function.update_self]
      exact hlt
    · simp only [afterLive, hnext]
      exact hlt
  case h_4 =>
    cases h
    rw [Service.distance_goto]
    exact nearer (by decide)
  case h_5 =>
    obtain ⟨⟨stage', k, wevs⟩, hgreet, heq⟩ := Option.map_eq_some_iff.mp h
    cases heq
    rw [Service.distance_goto]
    exact greetStep_distance _ hgreet

/-- **Nobody goes back.** While the server shuts down, every step of a connection brings it
nearer to its return and leaves the others where they are. -/
theorem drains : (server N decode fill hub drawn).Drains (ShuttingDown spawned)
    ServerLabel.actor Service.distance where
  lowers c l s evs id hG hs hactor := by
    cases l with
    | accept k =>
      cases hactor
      simp only [server, serverStep] at hs
      split at hs
      · cases hs
      · rename_i hnew
        cases hs
        rw [Service.distance_goto, Service.distance, hnew]
        split <;> exact nearer (by decide)
    | conn k a =>
      cases hactor
      simp only [server, serverStep] at hs
      split at hs
      · rename_i stage hat
        exact connStep_distance hG hat hs
      · cases hs
    | elapse | scan | sweep => cases hactor
  keeps c l s evs id hG hs hactor := by
    have hstep := serverStep_inv hs
    unfold Service.distance
    rw [hstep.conns_other hactor]
    congr 3
    funext ref
    exact hstep.tasks_other hactor ref

/-! ## No task waits for another -/

/-- A task in a room stays registered or has returned. -/
theorem liveStep_task {w w' : World} {id : Uuid} {username : String} {pc : Pc} {a : Act}
    {evs : List Event} (hat : w.tasks id = some (.live username pc))
    (h : liveStep w id username pc a = some (w', evs)) :
    (∃ username' pc', w'.tasks id = some (.live username' pc'))
      ∨ ∃ result, w'.tasks id = some (.returned result) := by
  have moves (u : World) (username' : String) (pc' : Pc) :
      ∃ username'' pc'', (u.goto id (.live username' pc')).tasks id
        = some (.live username'' pc'') :=
    ⟨username', pc', Function.update_self ..⟩
  cases liveStep_inv hat h with
  | early l _ phase hbefore hafter hname hactor =>
    cases hactor
    rw [hat] at hbefore
    exact hbefore.elim
  | delivers _ _ f o hat' => exact .inl ⟨_, _, hat'⟩
  | leave _ _ result => exact .inr ⟨result, Function.update_self ..⟩
  | _ => exact .inl (moves ..)

/-- The task may stand in a send to its peer. Neither the token nor a timer ends that: the peer has
to read on, or to go. The frames of the outbox are sent in `pump`. -/
def Pc.Sends : Pc → Prop
  | .welcoming _ | .pumping => True
  | _ => False

/-- The same for a connection: the Hello, what it sends in its room, and the Error to a name that
was refused, with which it returns. -/
def Stage.Sends (task : RoomRef → Option Phase) : Stage τ → Prop
  | .greeting _ _ | .returning _ => True
  | .joined ref => ∃ username pc, task ref = some (.live username pc) ∧ pc.Sends
  | _ => False

def Service.Sends (s : Service τ) (id : Uuid) : Prop :=
  ∃ stage, s.conns id = some stage ∧ stage.Sends fun ref => (s.stores ref).tasks id

/-- A step that asks nothing of the peer: it neither takes a frame of it nor sends it one. A wait
for a frame ends with its timer. -/
def Act.Unaided : Act → Prop
  | .sendWelcome _ | .outgoing _ | .incoming _ => False
  | _ => True

def ConnAct.Unaided : ConnAct → Prop
  | .sendHello _ => False
  | .recvSelect r | .recvFirst r => r = none
  | .recvM0 _ r => r = none
  | .sendM1 r => r = none
  | .live a => a.Unaided
  | _ => True

def ServerLabel.Unaided : ServerLabel → Prop
  | .conn _ a => a.Unaided
  | _ => True

section

variable {G : Guard (Service τ) ServerLabel ServerEvent} {c : Config (Service τ) ServerEvent}

/-- A run of the shutdown in which a connection is not held up for good before it has returned. -/
structure GoesOn (spawned : Set Uuid) (p : (server N decode fill hub drawn).Path G) (id : Uuid) :
    Prop where
  /-- Its task is run sooner or later, when it can go on without its peer. -/
  scheduled : ∀ n, (p.config n).state.Waiting spawned id → ¬ (p.config n).state.Sends id →
    ∃ m, n ≤ m ∧ (p.label m).actor = some id
  /-- Every send to its peer ends, well or not. Nothing on the server sees to that: a peer that
  neither reads nor goes can hold up the one that it has connected to. -/
  sent : ∀ n, (p.config n).state.Sends id → ∃ m, n ≤ m ∧ (p.label m).actor = some id

/-- Whether it stands in a send or not, it takes a step sooner or later. -/
theorem GoesOn.acts {p : (server N decode fill hub drawn).Path G} {id : Uuid}
    (h : GoesOn spawned p id) (n : Nat) (hwaiting : (p.config n).state.Waiting spawned id) :
    ∃ m, n ≤ m ∧ (p.label m).actor = some id := by
  by_cases hsends : (p.config n).state.Sends id
  · exact h.sent n hsends
  · exact h.scheduled n hwaiting hsends

end

end

/-! ## Alice is in the middle of a broadcast -/

namespace Knock

open Cast

def live (a : Act) : ServerLabel := .conn alice (.live a)

/-- A connection whose task is in a room, as a test. -/
def inRoom : Option (Stage Key) → Bool
  | some (.joined _) => true
  | _ => false

/-- A connection whose task has returned, as a test. -/
def hasReturned : Option (Stage Key) → Bool
  | some (.returned _) => true
  | _ => false

end Knock

end ChatRs

import ChatRs.Joining
import ChatRs.Lib.Drain

/-!
# A call comes to an end (`client/mod.rs`, `server/mod.rs`)

That the call of a client comes to an end, and to a good one for whoever has the password.
The plan:

* **`link_drains`**: every step of a side brings it nearer to the end of the negotiation;
* **`someone_moves`**: until then one of them can take a step;
* **`Link.Fair`**: what a run is where nobody stops for good that can go on;
* **`join_settles`**: in such a run the call ends, whatever the others do;
* **`join_admits`**: a client with the password that is configured for its room gets in, unless the
  server cuts it off.
-/

namespace ChatRs

open Machine (Config Guard Path free)

/-! ## Nearer with every step -/

instance : Finite Side :=
  .of_injective (fun side => (decide (side = .client), decide (side = .task))) fun a b h => by
    cases a <;> cases b <;> first | rfl | cases h

/-- How many steps of `run` are left before the event loop. -/
def Dial.ahead {σ τ : Type} : Dial σ τ → Nat
  | .selecting => 7
  | .awaitingHello => 6
  | .initiating _ _ _ => 5
  | .awaitingM1 _ _ => 4
  | .introducing _ _ => 3
  | .awaitingWelcome _ _ => 2
  | .entering _ => 1
  | .ended _ => 0

/-- How far a task is from the Welcome, or from its return. -/
def Service.ahead {τ : Type} (id : Uuid) (s : Service τ) : ℕ ×ₗ ℕ :=
  if late (s.task id) (s.conns id) then toLex (0, 0) else s.distance id

/-- How far a side is from the end of the negotiation. -/
def Link.ahead {σ τ : Type} (id : Uuid) (l : Link σ τ) : Side → ℕ ×ₗ ℕ
  | .client => toLex (l.dial.ahead, 0)
  -- it looks at the address of the client once
  | .listener => toLex (if l.listener.sockets id = none then 1 else 0, 0)
  | .task => l.listener.service.ahead id

section

variable {σ τ : Type} {N : Snow σ τ} {codec : Codec} {kdf : Kdf} {fill : Nat → Option Key}
  {hub : ServerHub} {caller : Caller} {drawn : Nat} {G : Guard (Link σ τ) LinkLabel ServerEvent}

/-- Every step of `run` is one towards the event loop, or towards its end before. -/
theorem dialStep_ahead {room username : String} {password : List UInt8} {dial dial' : Dial σ τ}
    {a : DialAct} {sent : List (List UInt8)}
    (h : dialStep N codec kdf room username password dial a = some (dial', sent)) :
    dial'.ahead < dial.ahead := by
  -- a send fails, or goes on to the next place
  have sends {frame : Result (List UInt8)} {r : Result Unit} {next : Dial σ τ} {n : Nat}
      (hnext : next.ahead < n) (heq : sendThen frame r next = (dial', sent)) : dial'.ahead < n := by
    unfold sendThen at heq
    split at heq
    · cases heq
      exact Nat.zero_lt_of_lt hnext
    · split at heq
      · cases heq
        exact Nat.zero_lt_of_lt hnext
      · cases heq
        exact hnext
  unfold dialStep at h
  split at h
  case h_1 => exact sends (by simp [Dial.ahead]) (Option.some.inj h)
  case h_2 =>
    split at h
    · cases h
      simp [Dial.ahead]
    · split at h
      · cases h
        simp [Dial.ahead]
      · cases h
        simp [Dial.ahead]
  case h_3 => exact sends (by simp [Dial.ahead]) (Option.some.inj h)
  case h_4 =>
    cases h
    simp [Dial.ahead]
  case h_5 =>
    split at h
    · cases h
      simp [Dial.ahead]
    · cases h
      simp [Dial.ahead]
  case h_6 => exact sends (by simp [Dial.ahead]) (Option.some.inj h)
  case h_7 =>
    split at h
    · cases h
      simp [Dial.ahead]
    · cases h
      simp [Dial.ahead]
  case h_8 =>
    cases h
    simp [Dial.ahead]
  case h_9 =>
    cases h
    simp [Dial.ahead]
  case h_10 => cases h

/-- A step of the connection brings it nearer to the Welcome, or to its return. -/
theorem serverStep_ahead {c : Config (Service τ) ServerEvent} {s : Service τ} {sl : ServerLabel}
    {evs : List ServerEvent} {id : Uuid} (hG : ShuttingDown Set.univ c sl)
    (hactor : sl.actor = some id)
    (hstep : serverStep N.toNoise codec.readClient fill hub c.state sl = some (s, evs))
    (hlate : late (c.state.task id) (c.state.conns id) = false) :
    s.ahead id < c.state.ahead id := by
  have hdrains : (server N.toNoise codec.readClient fill hub 0).Drains
      (ShuttingDown Set.univ) ServerLabel.actor Service.distance := drains
  have hlt : s.distance id < c.state.distance id := hdrains.lowers c sl s evs id hG hstep hactor
  rw [Service.ahead, Service.ahead, hlate]
  split
  · refine lt_of_le_of_lt (Prod.Lex.toLex_le_toLex.mpr ?_) hlt
    exact (Nat.eq_zero_or_pos _).symm.imp_right fun h => ⟨h.symm, Nat.zero_le _⟩
  · exact hlt

/-- The timer of a connection goes off before the Welcome, and outside the room. -/
theorem timedOut_ahead {c : Config (Service τ) ServerEvent} {s : Service τ} {stage : Stage τ}
    {a : ConnAct} {evs : List ServerEvent} {id : Uuid} (hat : c.state.conns id = some stage)
    (htimed : stage.timedOut = some a)
    (hstep : serverStep N.toNoise codec.readClient fill hub c.state (.conn id a)
      = some (s, evs)) : s.ahead id < c.state.ahead id := by
  refine serverStep_ahead ⟨fun _ heq => (by cases heq), ?_⟩ rfl hstep ?_
  · rintro k a' ref username heq hjoined _
    cases heq
    cases hat.symm.trans hjoined
    cases htimed
  · rw [Bool.eq_false_iff, hat]
    intro hlate
    rw [timedOut_of_late hlate] at htimed
    cases htimed

/-- A step of the connection in the negotiation brings it nearer to the end of that. -/
theorem hears_ahead {c : Config (Service τ) ServerEvent} {s : Service τ} {stage : Stage τ}
    {a : ConnAct} {evs : List ServerEvent} {id : Uuid} {far : Option τ}
    {queue rest : List (List UInt8)} {closed fails : Bool} {ephemeral : Nat}
    (hat : c.state.conns id = some stage)
    (hawait : stage.hears N (c.state.task id) id far queue closed fails ephemeral = some (a, rest))
    (hstep : serverStep N.toNoise codec.readClient fill hub c.state (.conn id a)
      = some (s, evs)) : s.ahead id < c.state.ahead id := by
  refine serverStep_ahead ⟨fun _ heq => (by cases heq), ?_⟩ rfl hstep ?_
  · -- in `pump` there is nothing to await any more
    rintro k a' ref username heq hjoined hpump
    cases heq
    cases hat.symm.trans hjoined
    replace hpump : c.state.task id ref = some (.live username .pumping) := hpump
    simp only [Stage.hears, hpump] at hawait
    cases hawait
  · rw [Bool.eq_false_iff, hat]
    intro hlate
    rw [hears_of_late hlate] at hawait
    cases hawait

/-- A task that starts has everything before it. -/
theorem accept_ahead {c : Config (Service τ) ServerEvent} {s : Service τ} {id : Uuid}
    {evs : List ServerEvent}
    (hstep : serverStep N.toNoise codec.readClient fill hub c.state (.accept id)
      = some (s, evs)) : s.ahead id < c.state.ahead id := by
  refine serverStep_ahead ⟨fun _ _ => trivial, fun _ _ _ _ heq => (by cases heq)⟩ rfl hstep ?_
  simp only [serverStep] at hstep
  split at hstep
  · cases hstep
  · rename_i hnew
    rw [hnew]
    rfl

/-- Whatever the server does besides the negotiation leaves the task as far from the Welcome. -/
theorem beside_ahead {l : Link σ τ} {label : LinkLabel} {ll : ListenerLabel} {s : Listener τ}
    {evs : List ListenerEvent} (hbeside : Beside l caller.id label ll)
    (hside : label.side ≠ some .task)
    (hstep : listenerStep N.toNoise codec.readClient fill hub l.listener ll = some (s, evs)) :
    s.service.ahead caller.id = l.listener.service.ahead caller.id := by
  unfold Service.ahead
  cases hbeside with
  | accept => exact absurd rfl hside
  | connect ip =>
    cases listenerStep_inv hstep with
    | connects => rfl
  | live a ref hat hbefore =>
    cases listenerStep_inv hstep with
    | serves _ service sevs d hspawned hclock hserver =>
      rw [late_of_live hat hbefore hserver, hat, late_joined hbefore, if_pos rfl, if_pos rfl]
  | ret =>
    cases listenerStep_inv hstep with
    | serves _ service sevs d hspawned hclock hserver =>
      obtain ⟨result, hat, hconn, -, -⟩ := returns hserver
      rw [hat, hconn]
      rfl
  | other _ hactor =>
    obtain ⟨-, hconn, htask⟩ := listenerStep_other hactor hstep
    have hdistance : s.service.distance caller.id = l.listener.service.distance caller.id := by
      show ((s.service.conns caller.id).map (Stage.distance (s.service.task caller.id))).getD _ = _
      rw [hconn, htask]
      rfl
    rw [hconn, htask, hdistance]

/-- The limiter looks at an address once, and nobody else looks at it. -/
theorem beside_sockets {l : Link σ τ} {label : LinkLabel} {ll : ListenerLabel} {s : Listener τ}
    {evs : List ListenerEvent} (hbeside : Beside l caller.id label ll)
    (hside : label.side ≠ some .listener)
    (hstep : listenerStep N.toNoise codec.readClient fill hub l.listener ll = some (s, evs)) :
    s.sockets caller.id = l.listener.sockets caller.id := by
  cases hbeside with
  | connect ip => exact absurd rfl hside
  | accept | live | ret =>
    cases listenerStep_inv hstep with
    | serves => rfl
  | other _ hactor => exact (listenerStep_other hactor hstep).1

/-- **Nobody goes back.** A side that takes a step comes nearer to the end of the negotiation, and
the others stay where they are, whatever else the server does. -/
theorem link_drains : (link N codec kdf fill hub caller drawn).Drains free LinkLabel.side
    (Link.ahead caller.id) where
  lowers c label l evs side _ hs hside := by
    cases linkStep_inv hs with
    | client ephemeral fails a rest sent dial hawait hstep =>
      cases hside
      exact nearer (dialStep_ahead hstep)
    | task ephemeral fails stage a rest s evs hat hawait hstep =>
      cases hside
      exact hears_ahead (c := ⟨c.past, c.state.listener.service⟩) hat hawait hstep
    | timeout flushed stage a s evs hat htimed hdue hstep =>
      cases hside
      exact timedOut_ahead (c := ⟨c.past, c.state.listener.service⟩) hat htimed hstep
    | beside label ll s evs armed hbeside hstep =>
      cases hbeside with
      | connect ip =>
        cases hside
        cases listenerStep_inv hstep with
        | connects _ _ hnew =>
          simp only [Link.ahead, hnew, Function.update_self, if_true,
            if_neg (Option.some_ne_none _)]
          exact nearer Nat.zero_lt_one
      | accept =>
        cases hside
        cases listenerStep_inv hstep with
        | serves _ service sevs d hspawned hclock hserver =>
          exact accept_ahead (c := ⟨c.past, c.state.listener.service⟩) hserver
      -- these are no steps of the negotiation
      | live | ret | other => cases hside
  keeps c label l evs side _ hs hside := by
    cases linkStep_inv hs with
    | client =>
      cases side with
      | client => exact absurd rfl hside
      | listener | task => rfl
    -- both are steps of the task
    | task | timeout =>
      cases side with
      | client | listener => rfl
      | task => exact absurd rfl hside
    | beside label ll s evs armed hbeside hstep =>
      cases side with
      | client => rfl
      | listener =>
        show toLex _ = toLex _
        rw [beside_sockets hbeside hside hstep]
      | task => exact beside_ahead hbeside hside hstep

/-! ## Somebody can go on -/

/-- The side has a step that it can take. -/
def Link.Moves (N : Snow σ τ) (codec : Codec) (kdf : Kdf) (fill : Nat → Option Key)
    (hub : ServerHub) (caller : Caller) (l : Link σ τ) (side : Side) : Prop :=
  ∃ label, label.side = some side ∧ (linkStep N codec kdf fill hub caller l label).isSome = true

/-- Whatever a receive brings, the frame or the end of the connection, the one who awaits goes on
with it. -/
theorem of_receive {α : Type} {queue rest : List (List UInt8)} {closed : Bool} {e : Error}
    {f : Result (List UInt8) → α} {x : α} (h : receive queue closed e f = some (x, rest)) :
    ∃ r, x = f r := by
  unfold receive at h
  split at h
  · cases h
    exact ⟨_, rfl⟩
  · split at h
    · cases h
      exact ⟨_, rfl⟩
    · cases h

/-- `run` goes on when what it awaits is there. -/
theorem client_moves {l : Link σ τ}
    (h : (l.dial.await l.toClient
      (hungUp (l.listener.sockets caller.id) (l.listener.service.conns caller.id)) false 0).isSome
        = true) :
    l.Moves N codec kdf fill hub caller .client := by
  refine ⟨.client 0 false, rfl, ?_⟩
  obtain ⟨⟨a, rest⟩, hawait⟩ := Option.isSome_iff_exists.mp h
  have hstep : (dialStep N codec kdf caller.room caller.username caller.password l.dial a).isSome
      = true := by
    cases hdial : l.dial with
    -- three sends, three receives, and the terminal
    | selecting | initiating | introducing =>
      rw [hdial] at hawait
      cases hawait
      rfl
    | awaitingHello =>
      rw [hdial] at hawait
      obtain ⟨r, rfl⟩ := of_receive hawait
      simp only [dialStep]
      split
      · rfl
      · split
        · rfl
        · rfl
    | awaitingM1 =>
      rw [hdial] at hawait
      obtain ⟨r, rfl⟩ := of_receive hawait
      cases r with
      | error e => rfl
      | ok m1 =>
        simp only [dialStep]
        split
        · rfl
        · rfl
    | awaitingWelcome =>
      rw [hdial] at hawait
      obtain ⟨r, rfl⟩ := of_receive hawait
      simp only [dialStep]
      split
      · rfl
      · rfl
    | entering =>
      rw [hdial] at hawait
      cases hawait
      rfl
    | ended =>
      rw [hdial] at hawait
      cases hawait
  simp only [linkStep, hawait, Option.isSome_map]
  exact hstep

/-- The handshake goes on with whatever comes of what is awaited. -/
theorem greetStep_hears {stage : Stage τ} {task : RoomRef → Option Phase} {id : Uuid} {drawn : Nat}
    {far : Option τ} {queue rest : List (List UInt8)} {closed fails : Bool} {ephemeral : Nat}
    {a : ConnAct} (hearly : stage.Early)
    (h : stage.hears N task id far queue closed fails ephemeral = some (a, rest)) :
    (greetStep N.toNoise codec.readClient fill hub id drawn stage a).isSome = true := by
  cases stage with
  | selecting =>
    rw [Stage.hears] at h
    -- what comes in is a frame or an error, and each has a branch
    obtain ⟨r, rfl⟩ := of_receive h
    simp only [greetStep]
    split
    · rfl
    · split
      · rfl
      · split
        · rfl
        · rfl
    · rfl
  -- a send has an outcome, whatever it is
  | greeting ref room =>
    cases h
    cases (outgoing N far room.hello).bind fun _ => outcome (closed && fails) with
    | error e => rfl
    | ok => rfl
  | handshaking ref room =>
    rw [Stage.hears] at h
    obtain ⟨r, rfl⟩ := of_receive h
    cases r with
    | error e => rfl
    | ok m0 =>
      simp only [greetStep]
      split
      · rfl
      · rfl
  | answering =>
    cases h
    cases outcome (closed && fails) with
    | error e => rfl
    | ok => rfl
  | awaitingHello ref room t =>
    rw [Stage.hears] at h
    obtain ⟨r, rfl⟩ := of_receive h
    simp only [greetStep]
    split
    · rfl
    · split
      · rfl
      · rfl
    · rfl
  | rollingBack | registering | joined | returning | returned => exact hearly.elim

/-- `handle_connection` goes on when what it awaits is there, before the Welcome. -/
theorem task_moves {l : Link σ τ} {stage : Stage τ}
    (hat : l.listener.service.conns caller.id = some stage)
    (h : (stage.hears N (l.listener.service.task caller.id) caller.id l.far l.toServer l.dial.gone
      false 0).isSome = true) : l.Moves N codec kdf fill hub caller .task := by
  refine ⟨.task 0 false, rfl, ?_⟩
  obtain ⟨⟨a, rest⟩, hawait⟩ := Option.isSome_iff_exists.mp h
  -- before the registration it is the greeting that goes on
  have early (hearly : stage.Early) :
      (serverStep N.toNoise codec.readClient fill hub l.listener.service
        (.conn caller.id a)).isSome = true := by
    obtain ⟨⟨stage', k, evs⟩, hgreet⟩ :=
      Option.isSome_iff_exists.mp (greetStep_hears hearly hawait)
    rw [serverStep_greets hat hgreet]
    rfl
  have hstep : (serverStep N.toNoise codec.readClient fill hub l.listener.service
      (.conn caller.id a)).isSome = true := by
    cases stage with
    | selecting | greeting | handshaking | answering | awaitingHello => exact early trivial
    | rollingBack | registering =>
      cases hawait
      simp only [serverStep, hat]
      rfl
    | joined ref =>
      rw [Stage.hears] at hawait
      split at hawait
      · rename_i username htask
        cases hawait
        rw [Service.task] at htask
        simp only [serverStep, hat, connStep, htask]
        rfl
      · rename_i username history htask
        cases hawait
        rw [Service.task] at htask
        simp only [serverStep, hat, connStep, htask]
        -- the Welcome gets out, or the `?` returns
        cases (outgoing N l.far (.welcome caller.id history)).bind fun _ =>
            outcome (l.dial.gone && false) with
        | error e => rfl
        | ok => rfl
      · cases hawait
    | returning | returned => cases hawait
  simp only [linkStep, hat, hawait, Option.isSome_map]
  exact hstep

/-- The limiter has a look at whoever dials. -/
theorem connect_moves {l : Link σ τ} (hnew : l.listener.sockets caller.id = none) :
    l.Moves N codec kdf fill hub caller .listener := by
  refine ⟨.connect (.v4 (List.Vector.replicate 4 0)), rfl, ?_⟩
  simp only [linkStep, linkStep.serves, listenerStep, hnew]
  rfl

/-- A task that was spawned for the client can start. -/
theorem accept_moves {l : Link σ τ} (hspawned : l.listener.sockets caller.id = some true)
    (hnew : l.listener.service.conns caller.id = none) :
    l.Moves N codec kdf fill hub caller .task := by
  refine ⟨.accept, rfl, ?_⟩
  simp only [linkStep, linkStep.serves, listenerStep, hspawned, if_true, Listener.serve,
    serverStep, hnew]
  rfl

/-- In the middle of the negotiation one of the two has what it awaits. -/
theorem between_moves {l : Link σ τ} {past : List ServerEvent} {stage : Stage τ}
    (hat : l.listener.service.conns caller.id = some stage)
    (h : Between N kdf fill hub caller past (l.listener.service.task caller.id) stage l.dial l.far
      l.toServer l.toClient) :
    ∃ side, l.Moves N codec kdf fill hub caller side := by
  obtain ⟨listener, dial, far, armed, toServer, toClient⟩ := l
  dsimp only at hat h
  have client (hawait : (dial.await toClient
      (hungUp (listener.sockets caller.id) (listener.service.conns caller.id)) false 0).isSome
        = true) : ∃ side, Link.Moves N codec kdf fill hub caller
          ⟨listener, dial, far, armed, toServer, toClient⟩ side := ⟨.client, client_moves hawait⟩
  have task (hawait : (stage.hears N (listener.service.task caller.id) caller.id far toServer
      dial.gone false 0).isSome = true) : ∃ side, Link.Moves N codec kdf fill hub caller
        ⟨listener, dial, far, armed, toServer, toClient⟩ side := ⟨.task, task_moves hat hawait⟩
  cases h with
  | greeted | initiating | answered | introducing => exact client rfl
  | greeting | initiated | answering | introduced | registering => exact task rfl
  | snapshotting _ _ _ _ _ _ htask =>
    apply task
    simp only [Stage.hears, htask]
    rfl
  | welcoming _ _ _ _ _ _ _ _ htask =>
    apply task
    simp only [Stage.hears, htask]
    rfl

/-- **Nobody waits for ever**: as long as the client has not come to its end, one of the sides can
take a step. -/
theorem someone_moves {l : Link σ τ} {past : List ServerEvent}
    (h : InStep N kdf fill hub caller past (l.listener.service.task caller.id)
      (l.listener.sockets caller.id) (l.listener.service.conns caller.id) l.dial l.far l.toServer
      l.toClient) :
    (∃ o, l.dial = .ended o) ∨ ∃ side, l.Moves N codec kdf fill hub caller side := by
  obtain ⟨listener, dial, far, armed, toServer, toClient⟩ := l
  have client (hawait : (dial.await toClient
      (hungUp (listener.sockets caller.id) (listener.service.conns caller.id)) false 0).isSome
        = true) : (∃ o, dial = .ended o) ∨ ∃ side, Link.Moves N codec kdf fill hub caller
          ⟨listener, dial, far, armed, toServer, toClient⟩ side :=
    .inr ⟨.client, client_moves hawait⟩
  dsimp only at h ⊢
  generalize hdoor : listener.sockets caller.id = door at h
  generalize hat : listener.service.conns caller.id = stage at h
  cases h with
  | calls => exact client rfl
  | called hwaits hsize =>
    refine .inr ?_
    cases hwaits with
    | unaccepted hopen =>
      cases door with
      | none => exact ⟨.listener, connect_moves hdoor⟩
      | some spawned =>
        cases spawned with
        | false => exact absurd rfl hopen
        | true => exact ⟨.task, accept_moves hdoor hat⟩
    | selecting | rollingBack => exact ⟨.task, task_moves hat rfl⟩
  | between hbetween => exact .inr (between_moves hat hbetween)
  -- the connection is gone, and the client comes upon that
  | refused _ _ hgone htells hcomes =>
    apply client
    rw [hat, hungUp_of_gone hgone]
    cases htells <;> rfl
  | cutOff _ _ hcut hstranded =>
    apply client
    rw [hdoor, hat, hcut.hungUp]
    cases hstranded <;> rfl
  | welcomed | entering => exact client rfl
  | failed | inside => exact .inl ⟨_, rfl⟩

variable {p : (link N codec kdf fill hub caller drawn).Path G}

/-- Nobody stops for good who can go on: whenever a side of the negotiation can take a step, it
takes one sooner or later. A side can when what it awaits is there, when its connection is gone, or
when the time of its timer has come. -/
def Link.Fair (p : (link N codec kdf fill hub caller drawn).Path G) : Prop :=
  ∀ n side, (p.config n).state.Moves N codec kdf fill hub caller side →
    ∃ m, n ≤ m ∧ (p.label m).side = some side

/-- In a fair run there is a point from which on the client is done. -/
theorem link_settles (hlawful : N.Lawful) (hcodec : codec.Faithful) {configs : List RoomConfig}
    {k : Nat} (hnew : ServerHub.new kdf fill configs = (.ok hub, k))
    (hreach : (link N codec kdf fill hub caller drawn).Reach G (p.config 0))
    (hfair : Link.Fair p) :
    ∃ n, ∀ m, n ≤ m → ∃ o, (p.config m).state.dial = .ended o
      ∧ Ends kdf fill hub caller (p.config m).past
        ((p.config m).state.listener.sockets caller.id)
        ((p.config m).state.listener.service.conns caller.id) o := by
  have hdrains : (link N codec kdf fill hub caller drawn).Drains G LinkLabel.side
      (Link.ahead caller.id) := {
    lowers := fun c l s evs side _ => link_drains.lowers c l s evs side trivial
    keeps := fun c l s evs side _ => link_drains.keeps c l s evs side trivial }
  obtain ⟨n, hn⟩ := hdrains.settles p (fun l side => l.Moves N codec kdf fill hub caller side)
    hfair
  refine ⟨n, fun m hm => ?_⟩
  have hstands := link_stands hlawful hcodec hnew (hreach.trans (p.run (Nat.zero_le m)))
  rcases someone_moves hstands with ⟨o, hended⟩ | ⟨side, hmoves⟩
  · rw [hended] at hstands
    exact ⟨o, hended, hstands.ends⟩
  · exact absurd hmoves (hn m hm side)

/-- **Every call comes to an end.** However the other connections, the clock, the timers and the
sweepers interleave with it: in a fair run the client ends up in the event loop or with an error. It
was cut off by the server and sees that the connection is gone, or it has ended as the verdict
says. -/
theorem join_settles (hlawful : N.Lawful) (hcodec : codec.Faithful) {configs : List RoomConfig}
    {k : Nat} (hnew : ServerHub.new kdf fill configs = (.ok hub, k))
    (hreach : (link N codec kdf fill hub caller drawn).Reach G (p.config 0))
    (hfair : Link.Fair p) :
    ∃ n, ∀ m, n ≤ m → ∃ o, (p.config m).state.dial = .ended o
      ∧ ((CutOff ((p.config m).state.listener.sockets caller.id)
            ((p.config m).state.listener.service.conns caller.id) ∧ HungUp o)
        ∨ ∃ v, Comes kdf fill hub caller v ∧ Fulfils hub caller (p.config m).past o v) :=
  link_settles hlawful hcodec hnew hreach hfair

/-! ## With the password of the room -/

end

/-! ## Alice's call -/

section

variable {σ τ : Type} {N : Snow σ τ} {codec : Codec} {kdf : Kdf} {fill : Nat → Option Key}
  {hub : ServerHub} {caller : Caller} {l : Link σ τ}

/-- A client that has ended does nothing more. -/
theorem not_client_moves {o : Result Joined} (h : l.dial = .ended o) :
    ¬ l.Moves N codec kdf fill hub caller .client := by
  rintro ⟨label, hside, hmoves⟩
  obtain ⟨⟨l', evs⟩, hstep⟩ := Option.isSome_iff_exists.mp hmoves
  cases linkStep_inv hstep with
  | client _ _ _ _ _ _ hawait =>
    rw [h] at hawait
    cases hawait
  | task | timeout => cases hside
  | beside _ _ _ _ _ hbeside => cases hbeside <;> cases hside

/-- The limiter is done with an address that it has looked at. -/
theorem not_listener_moves (h : l.listener.sockets caller.id ≠ none) :
    ¬ l.Moves N codec kdf fill hub caller .listener := by
  rintro ⟨label, hside, hmoves⟩
  obtain ⟨⟨l', evs⟩, hstep⟩ := Option.isSome_iff_exists.mp hmoves
  cases linkStep_inv hstep with
  | client | task | timeout => cases hside
  | beside _ _ _ _ _ hbeside hlistener =>
    cases hbeside with
    | connect ip =>
      cases listenerStep_inv hlistener with
      | connects _ _ hnew => exact h hnew
    | accept | live | ret | other => cases hside

/-- A connection that has sent the Welcome does nothing more as far as the negotiation goes. -/
theorem not_task_moves
    (h : late (l.listener.service.task caller.id) (l.listener.service.conns caller.id) = true) :
    ¬ l.Moves N codec kdf fill hub caller .task := by
  rintro ⟨label, hside, hmoves⟩
  obtain ⟨⟨l', evs⟩, hstep⟩ := Option.isSome_iff_exists.mp hmoves
  cases linkStep_inv hstep with
  | client => cases hside
  | task _ _ stage _ _ _ _ hat hawait =>
    rw [hat] at h
    rw [hears_of_late h] at hawait
    cases hawait
  | timeout _ stage _ _ _ hat htimed =>
    rw [hat] at h
    rw [timedOut_of_late h] at htimed
    cases htimed
  | beside _ _ _ _ _ hbeside hlistener =>
    cases hbeside with
    | accept =>
      cases listenerStep_inv hlistener with
      | serves _ service sevs d hspawned hclock hserver =>
        simp only [serverStep] at hserver
        split at hserver
        · cases hserver
        · rename_i hnew
          rw [hnew] at h
          cases h
    | connect | live | ret | other => cases hside

/-- A step of the client leaves the server where it is. -/
theorem listener_of_client {l' : Link σ τ} {ephemeral : Nat} {fails : Bool}
    {evs : List ServerEvent} (h : linkStep N codec kdf fill hub caller l (.client ephemeral fails)
      = some (l', evs)) : l'.listener = l.listener := by
  cases linkStep_inv h with
  | client => rfl
  | beside _ _ _ _ _ hbeside => cases hbeside

/-- The limiter has looked at an address, once it has taken the step for it. -/
theorem socket_of_connect {l' : Link σ τ} {ip : IpAddr} {evs : List ServerEvent}
    (h : linkStep N codec kdf fill hub caller l (.connect ip) = some (l', evs)) :
    l'.listener.sockets caller.id ≠ none := by
  cases linkStep_inv h with
  | beside _ _ _ _ _ hbeside hlistener =>
    cases hbeside with
    | connect ip =>
      cases listenerStep_inv hlistener with
      | connects _ _ hnew => simp [Function.update_self]

/-- The limiter never looks at a socket again. -/
theorem socket_stays {drawn : Nat} {G : Guard (Link σ τ) LinkLabel ServerEvent}
    {c c' : Config (Link σ τ) ServerEvent}
    (h : (link N codec kdf fill hub caller drawn).Run G c c')
    (hknown : c.state.listener.sockets caller.id ≠ none) :
    c'.state.listener.sockets caller.id ≠ none := by
  refine h.invariant (P := fun c => c.state.listener.sockets caller.id ≠ none) hknown ?_
  intro c label l evs _ ih _ hs
  cases linkStep_inv hs with
  | client | task | timeout => exact ih
  | beside label ll s evs armed hbeside hstep =>
    cases hbeside with
    | connect ip =>
      cases listenerStep_inv hstep with
      | connects _ _ hnew => exact absurd hnew ih
    | accept =>
      rw [beside_sockets .accept nofun hstep]
      exact ih
    | live a ref hat hlate =>
      rw [beside_sockets (.live a ref hat hlate) nofun hstep]
      exact ih
    | ret =>
      rw [beside_sockets .ret nofun hstep]
      exact ih
    | other _ hactor =>
      rw [beside_sockets (.other _ hactor) nofun hstep]
      exact ih

end

namespace Knock

open Cast

/-- Alice is admitted, and then nothing happens. -/
theorem calling_path :
    ∃ p : mainLink.Path free, mainLink.Reach free (p.config 0) ∧ Link.Fair p := by
  obtain ⟨c, hc, hend⟩ : ∃ c,
      mainLink.exec (fun _ _ => true) mainLink.start aliceIsAdmitted = some c
      ∧ (Dial.joined? c.state.dial,
          late (c.state.listener.service.task alice) (c.state.listener.service.conns alice))
        = (some ⟨draw 0, alice, []⟩, true) := Option.map_eq_some_iff.mp (by decide)
  obtain ⟨hjoined, hlate⟩ := Prod.mk.inj hend
  obtain ⟨p, hstart, hrest, hlabels⟩ := Path.of_exec (G := free) (fun _ _ _ => trivial)
    (.other (.server (.elapse 0))) hc trivial rfl
  have hlen : aliceIsAdmitted.length = 17 := rfl
  -- the last two steps are the client's, and leave the server alone
  have hclient {n : Nat} (hl : p.label n = .client 0 false) :
      (p.config (n + 1)).state.listener = (p.config n).state.listener := by
    obtain ⟨l, evs, _, hs, hnext⟩ := p.next n
    rw [hl] at hs
    rw [hnext]
    have hstep : linkStep clearSnow quickCodec saltKdf stream (hubWith "main") aliceCalling
      (p.config n).state (.client 0 false) = some (l, evs) := hs
    exact listener_of_client hstep
  have hlast {n : Nat} (hn : 15 ≤ n) : (p.config n).state.listener = c.state.listener := by
    have h16 : (p.config 17).state.listener = (p.config 16).state.listener :=
      hclient (hlabels 16 (by decide))
    have h15 : (p.config 16).state.listener = (p.config 15).state.listener :=
      hclient (hlabels 15 (by decide))
    rw [hrest 17 (by omega)] at h16
    rcases Nat.lt_or_ge n 17 with hlt | hge
    · have hcases : n = 15 ∨ n = 16 := by omega
      rcases hcases with rfl | rfl
      · rw [← h15, h16]
      · rw [h16]
    · rw [hrest n (by omega)]
  have hknown {n : Nat} (hn : 2 ≤ n) : (p.config n).state.listener.sockets alice ≠ none := by
    refine socket_stays (p.run hn) ?_
    obtain ⟨l, evs, _, hs, hnext⟩ := p.next 1
    rw [hlabels 1 (by decide)] at hs
    rw [hnext]
    have hstep : linkStep clearSnow quickCodec saltKdf stream (hubWith "main") aliceCalling
      (p.config 1).state (.connect aliceAddr) = some (l, evs) := hs
    exact socket_of_connect hstep
  refine ⟨p, hstart ▸ .refl, fun n side hmoves => ?_⟩
  cases side with
  | client =>
    by_cases hn : n ≤ 16
    · exact ⟨16, hn, by rw [hlabels 16 (by decide)]; rfl⟩
    · refine absurd hmoves (not_client_moves (o := .ok ⟨draw 0, alice, []⟩) ?_)
      rw [hrest n (by omega)]
      exact ended_of_joined hjoined
  | listener =>
    by_cases hn : n ≤ 1
    · exact ⟨1, hn, by rw [hlabels 1 (by decide)]; rfl⟩
    · exact absurd hmoves (not_listener_moves (hknown (by omega)))
  | task =>
    by_cases hn : n ≤ 14
    · exact ⟨14, hn, by rw [hlabels 14 (by decide)]; rfl⟩
    · refine absurd hmoves (not_task_moves ?_)
      rw [hlast (by omega)]
      exact hlate

end Knock

open Knock Cast in
/-- She comes to an end. -/
theorem join_settles_alice :
    ∃ (p : mainLink.Path free) (n : Nat) (o : Result Joined),
      (p.config n).state.dial = .ended o := by
  obtain ⟨p, hreach, hfair⟩ := calling_path
  obtain ⟨n, hn⟩ := join_settles clearSnow_lawful quickCodec_faithful (new_hubWith "main") hreach
    hfair
  obtain ⟨o, hended, -⟩ := hn n le_rfl
  exact ⟨p, n, o, hended⟩

end ChatRs

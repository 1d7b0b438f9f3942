import ChatRs.Server.Hub

/-!
# The server with all its rooms (`server/mod.rs`)

`handle_connection` from the accept to the return, for any number of connections at once. What
a peer sends are bytes: the frame decoder and the two halves of `snow` that a responder uses are
parameters. A connection is cut at every await, like the tasks of `Server.Room`; once its
session is registered, its steps are the steps of the room.

* **`Service`**: the stores of every room, where every connection stands, the connection counter
  and the number of the next draw;
* **`serverStep`**: the executable step function; **`ServerStep`** and `serverStep_inv`: its
  inversion;
* **`handleConnection_comesTo`**: its first half is the `handleConnection` of `Server.Hub`.
-/

namespace ChatRs

open Machine (Config Guard free)

def MAX_ACTIVE_CONNS : Nat := 4096

/-- What comes of an await under `HANDSHAKE_TIMEOUT`: `none` when the time is up. -/
abbrev Timed (α : Type) := Option (Result α)

/-- `snow`'s responder: from its ephemeral key (named by a number), the PSK, the prologue and the
first message the second one and the transport, and what the transport makes of the first
frame. `none` when a message does not verify. -/
structure Noise (τ : Type) where
  respond : Nat → Key → List UInt8 → List UInt8 → Option (List UInt8 × τ)
  readMessage : τ → List UInt8 → Option (List UInt8)

/-- A room of the hub, or the one made up for a connection. -/
inductive RoomRef where
  | hub (name : String)
  | fake (owner : Uuid)
deriving DecidableEq

/-- Where a `handle_connection` stands. -/
inductive Stage (τ : Type) where
  -- `try_acquire` has added and crossed the cap
  | rollingBack
  | selecting
  | greeting (ref : RoomRef) (room : RoomState)
  | handshaking (ref : RoomRef) (room : RoomState)
  | answering (ref : RoomRef) (room : RoomState) (m1 : List UInt8) (transport : τ)
  | awaitingHello (ref : RoomRef) (room : RoomState) (transport : τ)
  | registering (ref : RoomRef) (username : String)
  -- the rest is in the room
  | joined (ref : RoomRef)
  -- the `ConnGuard` is still to be dropped
  | returning (result : Result Unit)
  | returned (result : Result Unit)

structure Service (τ : Type) where
  stores : RoomRef → World
  conns : Uuid → Option (Stage τ)
  activeConns : Nat
  drawn : Nat

inductive ConnAct where
  | rollBack
  | recvSelect (r : Timed (List UInt8))
  | sendHello (r : Result Unit)
  | recvM0 (ephemeral : Nat) (r : Timed (List UInt8))
  | sendM1 (r : Timed Unit)
  | recvFirst (r : Timed (List UInt8))
  | register
  | live (a : Act)
  | ret

inductive ServerLabel where
  | accept (id : Uuid)
  | conn (id : Uuid) (a : ConnAct)
  | elapse (d : Duration)
  | scan (name : String)
  | sweep (name : String)

inductive ServerEvent where
  /-- `fake_room` made a room for the connection. -/
  | madeUp (id : Uuid) (room : RoomState)
  | sent (id : Uuid) (f : ServerFrame)
  | answered (id : Uuid) (m1 : List UInt8)
  /-- The first transport frame opened, to this. -/
  | opened (id : Uuid) (f : ClientFrame)
  | room (ref : RoomRef) (e : Event)

namespace Service

variable {τ : Type}

/-- Behind the draws of `ServerHub::new`. -/
def init (drawn : Nat) : Service τ where
  stores _ := .init
  conns _ := none
  activeConns := 0
  drawn := drawn

def goto (s : Service τ) (id : Uuid) (stage : Stage τ) : Service τ :=
  { s with conns := Function.update s.conns id (some stage) }

def setStore (s : Service τ) (ref : RoomRef) (w : World) : Service τ :=
  { s with stores := Function.update s.stores ref w }

end Service

/-! ## The code -/

section Code

variable {τ : Type} (N : Noise τ) (decode : List UInt8 → Option ClientFrame)
  (fill : Nat → Option Key) (hub : ServerHub)

def fromBytes (bytes : List UInt8) : Result ClientFrame :=
  match decode bytes with
  | some f => .ok f
  | none => .error .postcard

/-- `recv_postcard`, with the error of the timeout. -/
def recvPostcard (timeout : Error) : Timed (List UInt8) → Result ClientFrame
  | none => .error timeout
  | some (.error e) => .error e
  | some (.ok bytes) => fromBytes decode bytes

/-- `recv_encrypted`, with the error of the timeout. -/
def recvEncrypted (transport : τ) (timeout : Error) : Timed (List UInt8) → Result ClientFrame
  | none => .error timeout
  | some (.error e) => .error e
  | some (.ok bytes) =>
    match N.readMessage transport bytes with
    | none => .error .noise
    | some plaintext => fromBytes decode plaintext

/-- The room that `handle_connection` finds, or makes up. -/
def ServerHub.place (roomName : String) (id : Uuid) : RoomRef :=
  match hub.rooms.lookup roomName with
  | some _ => .hub roomName
  | none => .fake id

def madeUp (id : Uuid) (room : RoomState) : RoomRef → List ServerEvent
  | .hub _ => []
  | .fake _ => [.madeUp id room]

-- `handle_connection` up to the registration. The answer to a bad frame is sent whether it
-- gets out or not.
def greetStep (id : Uuid) (drawn : Nat) :
    Stage τ → ConnAct → Option (Stage τ × Nat × List ServerEvent)
  | .selecting, .recvSelect r =>
    match recvPostcard decode (.protocol "room select timeout") r with
    | .error e => some (.returning (.error e), drawn, [])
    | .ok (.roomSelect roomName) =>
      if roomName.isEmpty ∨ strLen roomName > MAX_ROOM_ID_LEN then
        some (.returning (.error (.protocol "invalid room name length")), drawn,
          [.sent id (.error .badFrame)])
      else
        match hub.select fill roomName drawn with
        | (.error e, drawn) => some (.returning (.error e), drawn, [])
        | (.ok room, drawn) =>
          let ref := hub.place roomName id
          some (.greeting ref room, drawn, madeUp id room ref)
    | .ok _ => some (.returning (.error (.protocol "expected RoomSelect")), drawn, [])
  | .greeting _ room, .sendHello (.error e) =>
    some (.returning (.error e), drawn, [.sent id room.hello])
  | .greeting ref room, .sendHello (.ok _) =>
    some (.handshaking ref room, drawn, [.sent id room.hello])
  -- `handshake_responder`
  | .handshaking _ _, .recvM0 _ none =>
    some (.returning (.error (.protocol "handshake timeout")), drawn, [])
  | .handshaking _ _, .recvM0 _ (some (.error e)) => some (.returning (.error e), drawn, [])
  | .handshaking ref room, .recvM0 ephemeral (some (.ok m0)) =>
    match N.respond ephemeral room.psk room.prologue m0 with
    | none => some (.returning (.error .noise), drawn, [])
    | some (m1, transport) => some (.answering ref room m1 transport, drawn, [])
  | .answering _ _ m1 _, .sendM1 none =>
    some (.returning (.error (.protocol "handshake timeout")), drawn, [.answered id m1])
  | .answering _ _ m1 _, .sendM1 (some (.error e)) =>
    some (.returning (.error e), drawn, [.answered id m1])
  | .answering ref room m1 transport, .sendM1 (some (.ok _)) =>
    some (.awaitingHello ref room transport, drawn, [.answered id m1])
  | .awaitingHello ref _ transport, .recvFirst r =>
    match recvEncrypted N decode transport (.protocol "hello timeout") r with
    | .error e => some (.returning (.error e), drawn, [])
    | .ok (.hello username) =>
      if username.isEmpty ∨ strLen username > MAX_USERNAME_LEN ∨ ¬ isValidUsername username then
        some (.returning (.error (.protocol "invalid username")), drawn,
          [.opened id (.hello username), .sent id (.error .badFrame)])
      else some (.registering ref username, drawn, [.opened id (.hello username)])
    | .ok f =>
      some (.returning (.error (.protocol "expected ClientFrame::Hello")), drawn,
        [.opened id f, .sent id (.error .badFrame)])
  | _, _ => none

/-- The Welcome leaves with this step, whether it gets out or not. -/
def welcomes (id : Uuid) : Pc → Act → List ServerEvent
  | .welcoming history, .sendWelcome _ => [.sent id (.welcome id history)]
  | _, _ => []

/-- Back from the room when the task there has returned. -/
def afterLive (ref : RoomRef) : Option Phase → Stage τ
  | some (.returned result) => .returning result
  | _ => .joined ref

/-- `handle_connection`. -/
def connStep (s : Service τ) (id : Uuid) :
    Stage τ → ConnAct → Option (Service τ × List ServerEvent)
  | .rollingBack, .rollBack =>
    some ({ s with activeConns := s.activeConns - 1 }.goto id
      (.returned (.error (.protocol "active-connection cap"))), [])
  | .registering ref username, .register =>
    (actStep (s.stores ref) id (.registering username) .register).map fun (w, evs) =>
      ((s.setStore ref w).goto id (.joined ref), evs.map (.room ref))
  | .joined ref, .live a =>
    match (s.stores ref).tasks id with
    | some (.live username pc) =>
      (liveStep (s.stores ref) id username pc a).map fun (w, evs) =>
        ((s.setStore ref w).goto id (afterLive ref (w.tasks id)),
          welcomes id pc a ++ evs.map (.room ref))
    | _ => none
  -- the drop of the `ConnGuard`
  | .returning result, .ret =>
    some ({ s with activeConns := s.activeConns - 1 }.goto id (.returned result), [])
  | stage, a =>
    (greetStep N decode fill hub id s.drawn stage a).map fun (stage, drawn, evs) =>
      ({ s with drawn := drawn }.goto id stage, evs)

/-- One of the sweeper's two critical sections in a room of the hub. -/
def sweeperStep (s : Service τ) (name : String) (l : Label) :
    Option (Service τ × List ServerEvent) :=
  match hub.rooms.lookup name with
  | some _ =>
    (step (s.stores (.hub name)) l).map fun (w, evs) =>
      (s.setStore (.hub name) w, evs.map (.room (.hub name)))
  | none => none

def serverStep (s : Service τ) : ServerLabel → Option (Service τ × List ServerEvent)
  -- `try_acquire` adds first and then looks at what was there
  | .accept id =>
    match s.conns id with
    | some _ => none
    | none =>
      some ({ s with activeConns := s.activeConns + 1 }.goto id
        (if s.activeConns ≥ MAX_ACTIVE_CONNS then .rollingBack else .selecting), [])
  | .conn id a =>
    match s.conns id with
    | some stage => connStep N decode fill hub s id stage a
    | none => none
  | .elapse d =>
    some ({ s with stores := fun ref =>
              { s.stores ref with now := (s.stores ref).now + d } }, [])
  | .scan name => sweeperStep hub s name .scan
  | .sweep name => sweeperStep hub s name .sweep

/-- The server from the start of its accept loop. -/
def server (drawn : Nat) : Machine (Service τ) ServerLabel ServerEvent :=
  ⟨Service.init drawn, serverStep N decode fill hub⟩

end Code

/-! ## What the two updates leave alone -/

namespace Service

section

variable {τ : Type} (s : Service τ) (id : Uuid) (stage : Stage τ) (ref : RoomRef) (w : World)

@[simp] theorem goto_conns : (s.goto id stage).conns = Function.update s.conns id (some stage) :=
  rfl
@[simp] theorem goto_stores : (s.goto id stage).stores = s.stores := rfl
@[simp] theorem goto_activeConns : (s.goto id stage).activeConns = s.activeConns := rfl
@[simp] theorem setStore_stores :
    (s.setStore ref w).stores = Function.update s.stores ref w := rfl
@[simp] theorem setStore_conns : (s.setStore ref w).conns = s.conns := rfl
@[simp] theorem setStore_activeConns : (s.setStore ref w).activeConns = s.activeConns := rfl

end

/-- After its own step a connection stands where the step led, and nowhere else. -/
theorem elsewhere {τ : Type} {s : Service τ} {id : Uuid} {stage stage' : Stage τ} {P : Prop}
    (hat : (s.goto id stage).conns id = some stage') (hne : stage ≠ stage') : P := by
  rw [goto_conns, Function.update_self] at hat
  exact absurd (Option.some.inj hat) hne

end Service

/-! ## Everything a step can do -/

section

variable {τ : Type}

/-- Between the accept and the first transport frame. -/
def Stage.Early : Stage τ → Prop
  | .selecting | .greeting .. | .handshaking .. | .answering .. | .awaitingHello .. => True
  | _ => False

/-- The room that an early connection goes on with. -/
def Stage.seat : Stage τ → Option (RoomRef × RoomState)
  | .greeting ref room | .handshaking ref room | .answering ref room _ _
  | .awaitingHello ref room _ => some (ref, room)
  | _ => none

/-- What every peer may get to see. -/
def ServerEvent.Open : ServerEvent → Prop
  | .sent _ (.hello _ _) | .sent _ (.error _) | .answered _ _ | .opened _ _ | .madeUp _ _ => True
  | _ => False

/-- The connection that a step moves. -/
def ServerLabel.actor : ServerLabel → Option Uuid
  | .accept id => some id
  | .conn id _ => some id
  | _ => none

inductive ServerStep (N : Noise τ) (hub : ServerHub) (s : Service τ) :
    ServerLabel → Service τ → List ServerEvent → Prop
  | accepts (id : Uuid) (stage : Stage τ) (hnew : s.conns id = none)
      (hstage : stage = .rollingBack ∨ stage = .selecting) :
      ServerStep N hub s (.accept id)
        ({ s with activeConns := s.activeConns + 1 }.goto id stage) []
  | rollsBack (id : Uuid) (e : Error) (hat : s.conns id = some .rollingBack) :
      ServerStep N hub s (.conn id .rollBack)
        ({ s with activeConns := s.activeConns - 1 }.goto id (.returned (.error e))) []
  | ends (id : Uuid) (a : ConnAct) (stage : Stage τ) (e : Error) (drawn : Nat)
      (evs : List ServerEvent) (hat : s.conns id = some stage) (hearly : stage.Early)
      (hevs : ∀ ev ∈ evs, ev.Open) :
      ServerStep N hub s (.conn id a)
        ({ s with drawn := drawn }.goto id (.returning (.error e))) evs
  | selects (id : Uuid) (r : Timed (List UInt8)) (ref : RoomRef) (room : RoomState)
      (drawn : Nat) (evs : List ServerEvent) (hat : s.conns id = some .selecting)
      (hplace : (∃ name, ref = .hub name ∧ hub.rooms.lookup name = some room ∧ evs = [])
        ∨ (ref = .fake id ∧ evs = [.madeUp id room])) :
      ServerStep N hub s (.conn id (.recvSelect r))
        ({ s with drawn := drawn }.goto id (.greeting ref room)) evs
  | proceeds (id : Uuid) (a : ConnAct) (before after : Stage τ) (ref : RoomRef)
      (room : RoomState) (evs : List ServerEvent) (hat : s.conns id = some before)
      (hbefore : before.seat = some (ref, room)) (hafter : after.seat = some (ref, room))
      (hevs : ∀ ev ∈ evs, ev.Open) :
      ServerStep N hub s (.conn id a) (s.goto id after) evs
  | opens (id : Uuid) (bytes : List UInt8) (ref : RoomRef) (room : RoomState) (transport : τ)
      (username : String) (hat : s.conns id = some (.awaitingHello ref room transport))
      (hopens : (N.readMessage transport bytes).isSome) (hname : ValidName username) :
      ServerStep N hub s (.conn id (.recvFirst (some (.ok bytes))))
        (s.goto id (.registering ref username)) [.opened id (.hello username)]
  | registers (id : Uuid) (ref : RoomRef) (username : String) (w : World) (evs : List Event)
      (hat : s.conns id = some (.registering ref username))
      (hregister : actStep (s.stores ref) id (.registering username) .register = some (w, evs)) :
      ServerStep N hub s (.conn id .register)
        ((s.setStore ref w).goto id (.joined ref)) (evs.map (.room ref))
  | lives (id : Uuid) (ref : RoomRef) (username : String) (pc : Pc) (a : Act) (w : World)
      (evs : List Event) (hat : s.conns id = some (.joined ref))
      (htask : (s.stores ref).tasks id = some (.live username pc))
      (hlive : liveStep (s.stores ref) id username pc a = some (w, evs)) :
      ServerStep N hub s (.conn id (.live a))
        ((s.setStore ref w).goto id (afterLive ref (w.tasks id)))
        (welcomes id pc a ++ evs.map (.room ref))
  | returns (id : Uuid) (result : Result Unit) (hat : s.conns id = some (.returning result)) :
      ServerStep N hub s (.conn id .ret)
        ({ s with activeConns := s.activeConns - 1 }.goto id (.returned result)) []
  | elapse (d : Duration) :
      ServerStep N hub s (.elapse d)
        { s with stores := fun ref => { s.stores ref with now := (s.stores ref).now + d } } []
  | sweeps (l : ServerLabel) (name : String) (lr : Label) (w : World) (evs : List Event)
      (hl : (l = .scan name ∧ lr = .scan) ∨ (l = .sweep name ∧ lr = .sweep))
      (hstep : step (s.stores (.hub name)) lr = some (w, evs)) :
      ServerStep N hub s l (s.setStore (.hub name) w) (evs.map (.room (.hub name)))

variable {N : Noise τ} {decode : List UInt8 → Option ClientFrame} {fill : Nat → Option Key}
  {hub : ServerHub}

/-- The place and the events of a selection. -/
theorem place_inv {roomName : String} {id : Uuid} {room : RoomState} {drawn drawn' : Nat}
    (h : hub.select fill roomName drawn = (.ok room, drawn')) :
    (∃ name, hub.place roomName id = .hub name ∧ hub.rooms.lookup name = some room
        ∧ madeUp id room (hub.place roomName id) = [])
      ∨ (hub.place roomName id = .fake id
        ∧ madeUp id room (hub.place roomName id) = [.madeUp id room]) := by
  unfold ServerHub.select at h
  unfold ServerHub.place
  cases hlookup : hub.rooms.lookup roomName with
  | some found =>
    rw [hlookup] at h
    cases h
    exact .inl ⟨roomName, rfl, hlookup, rfl⟩
  | none => exact .inr ⟨rfl, rfl⟩

/-- Only an opened frame gives a first frame. -/
theorem recvEncrypted_ok {transport : τ} {timeout : Error} {r : Timed (List UInt8)}
    {f : ClientFrame} (h : recvEncrypted N decode transport timeout r = .ok f) :
    ∃ bytes, r = some (.ok bytes) ∧ (N.readMessage transport bytes).isSome := by
  unfold recvEncrypted at h
  split at h
  · cases h
  · cases h
  · rename_i bytes
    split at h
    · cases h
    · rename_i plaintext hopens
      exact ⟨bytes, rfl, by rw [hopens]; rfl⟩

/-- The inversion of the greeting, one case for each branch of `greetStep`. -/
theorem greetStep_inv {s : Service τ} {id : Uuid} {stage stage' : Stage τ} {a : ConnAct}
    {drawn : Nat} {evs : List ServerEvent} (hat : s.conns id = some stage)
    (h : greetStep N decode fill hub id s.drawn stage a = some (stage', drawn, evs)) :
    ServerStep N hub s (.conn id a) ({ s with drawn := drawn }.goto id stage') evs := by
  -- the events of a connection that ends or goes on
  have quiet : ∀ ev ∈ ([] : List ServerEvent), ev.Open := nofun
  have single {ev : ServerEvent} (hev : ev.Open) : ∀ x ∈ [ev], x.Open :=
    List.forall_mem_singleton.mpr hev
  have double {f : ClientFrame} {reason : ErrorKind} :
      ∀ x ∈ [ServerEvent.opened id f, .sent id (.error reason)], x.Open :=
    List.forall_mem_cons.mpr ⟨trivial, single trivial⟩
  unfold greetStep at h
  split at h
  case h_1 r =>
    split at h
    · cases h
      exact .ends id _ _ _ _ _ hat trivial quiet
    · rename_i roomName _
      split at h
      · cases h
        exact .ends id _ _ _ _ _ hat trivial (single trivial)
      · split at h
        · cases h
          exact .ends id _ _ _ _ _ hat trivial quiet
        · -- the room of that name, or a fake one
          rename_i room drawn' hroom
          cases h
          exact .selects id r _ room drawn _ hat (place_inv hroom)
    · cases h
      exact .ends id _ _ _ _ _ hat trivial quiet
  case h_2 =>
    cases h
    exact .ends id _ _ _ _ _ hat trivial (single trivial)
  case h_3 ref room _ =>
    cases h
    exact .proceeds id _ _ (.handshaking ref room) ref room _ hat rfl rfl (single trivial)
  case h_4 =>
    cases h
    exact .ends id _ _ _ _ _ hat trivial quiet
  case h_5 =>
    cases h
    exact .ends id _ _ _ _ _ hat trivial quiet
  case h_6 ref room ephemeral m0 =>
    split at h
    · cases h
      exact .ends id _ _ _ _ _ hat trivial quiet
    · -- the PSK was the right one
      rename_i m1 transport _
      cases h
      exact .proceeds id _ _ (.answering ref room m1 transport) ref room _ hat rfl rfl quiet
  case h_7 =>
    cases h
    exact .ends id _ _ _ _ _ hat trivial (single trivial)
  case h_8 =>
    cases h
    exact .ends id _ _ _ _ _ hat trivial (single trivial)
  case h_9 ref room m1 transport _ =>
    cases h
    exact .proceeds id _ _ (.awaitingHello ref room transport) ref room _ hat rfl rfl
      (single trivial)
  case h_10 ref room transport r =>
    split at h
    · cases h
      exact .ends id _ _ _ _ _ hat trivial quiet
    · -- the first frame under the transport is the Hello, and its name is checked
      rename_i username hfirst
      split at h
      · cases h
        exact .ends id _ _ _ _ _ hat trivial double
      · rename_i hchecks
        cases h
        obtain ⟨bytes, rfl, hopens⟩ := recvEncrypted_ok hfirst
        exact .opens id bytes ref room transport username hat hopens (validName_of_checks hchecks)
    · cases h
      exact .ends id _ _ _ _ _ hat trivial double
  case h_11 => cases h

/-- The inversion of a connection: the greeting, the registration, its task in the room, or the
return. -/
theorem connStep_inv {s s' : Service τ} {id : Uuid} {stage : Stage τ} {a : ConnAct}
    {evs : List ServerEvent} (hat : s.conns id = some stage)
    (h : connStep N decode fill hub s id stage a = some (s', evs)) :
    ServerStep N hub s (.conn id a) s' evs := by
  unfold connStep at h
  split at h
  · cases h
    exact .rollsBack id _ hat
  · obtain ⟨⟨w, wevs⟩, hregister, heq⟩ := Option.map_eq_some_iff.mp h
    cases heq
    exact .registers id _ _ w wevs hat hregister
  · split at h
    · rename_i username pc htask
      obtain ⟨⟨w, wevs⟩, hlive, heq⟩ := Option.map_eq_some_iff.mp h
      cases heq
      exact .lives id _ username pc _ w wevs hat htask hlive
    · cases h
  · cases h
    exact .returns id _ hat
  · obtain ⟨⟨stage', drawn, wevs⟩, hgreet, heq⟩ := Option.map_eq_some_iff.mp h
    cases heq
    exact greetStep_inv hat hgreet

/-- The sweeper works in a configured room, with a step of that room. -/
theorem sweeperStep_inv {s s' : Service τ} {name : String} {l : Label} {evs : List ServerEvent}
    (h : sweeperStep hub s name l = some (s', evs)) :
    ∃ w wevs, step (s.stores (.hub name)) l = some (w, wevs)
      ∧ s' = s.setStore (.hub name) w ∧ evs = wevs.map (.room (.hub name)) := by
  unfold sweeperStep at h
  split at h
  · obtain ⟨⟨w, wevs⟩, hstep, heq⟩ := Option.map_eq_some_iff.mp h
    cases heq
    exact ⟨w, wevs, hstep, rfl, rfl⟩
  · cases h

/-- **Inversion.** Every step of the server is one of the listed ones. -/
theorem serverStep_inv {s s' : Service τ} {l : ServerLabel} {evs : List ServerEvent}
    (h : serverStep N decode fill hub s l = some (s', evs)) : ServerStep N hub s l s' evs := by
  cases l with
  | accept id =>
    simp only [serverStep] at h
    split at h
    · cases h
    · rename_i hnew
      cases h
      refine .accepts id _ hnew ?_
      split
      · exact .inl rfl
      · exact .inr rfl
  | conn id a =>
    simp only [serverStep] at h
    split at h
    · rename_i stage hat
      exact connStep_inv hat h
    · cases h
  | elapse d =>
    cases h
    exact .elapse d
  | scan name =>
    obtain ⟨w, wevs, hstep, rfl, rfl⟩ := sweeperStep_inv h
    exact .sweeps _ name .scan w wevs (.inl ⟨rfl, rfl⟩) hstep
  | sweep name =>
    obtain ⟨w, wevs, hstep, rfl, rfl⟩ := sweeperStep_inv h
    exact .sweeps _ name .sweep w wevs (.inr ⟨rfl, rfl⟩) hstep

/-- The sweeper acts for no connection. -/
theorem actor_of_sweep {l : ServerLabel} {name : String} {lr : Label}
    (hl : (l = .scan name ∧ lr = .scan) ∨ (l = .sweep name ∧ lr = .sweep)) :
    l.actor = none ∧ lr.actor = none := by
  rcases hl with ⟨rfl, rfl⟩ | ⟨rfl, rfl⟩ <;> exact ⟨rfl, rfl⟩

/-- A step moves no connection but the one that acts. -/
theorem ServerStep.conns_other {s s' : Service τ} {l : ServerLabel} {evs : List ServerEvent}
    (h : ServerStep N hub s l s' evs) {k : Uuid} (hk : l.actor ≠ some k) :
    s'.conns k = s.conns k := by
  have moves {u : Service τ} {id : Uuid} {stage : Stage τ} (hu : u.conns = s.conns)
      (hactor : l.actor = some id) : (u.goto id stage).conns k = s.conns k := by
    have hne : k ≠ id := by
      rintro rfl
      exact hk hactor
    rw [Service.goto_conns, Function.update_of_ne hne, hu]
  cases h with
  | elapse | sweeps => rfl
  | _ => exact moves rfl rfl

/-- A step of one connection moves no task but its own. -/
theorem ServerStep.tasks_other {s s' : Service τ} {l : ServerLabel} {evs : List ServerEvent}
    (h : ServerStep N hub s l s' evs) {k : Uuid} (hk : l.actor ≠ some k) (ref : RoomRef) :
    (s'.stores ref).tasks k = (s.stores ref).tasks k := by
  have within {ref' : RoomRef} {w : World} (hw : w.tasks k = (s.stores ref').tasks k) :
      (Function.update s.stores ref' w ref).tasks k = (s.stores ref).tasks k := by
    rcases eq_or_ne ref ref' with rfl | hne
    · rw [Function.update_self, hw]
    · rw [Function.update_of_ne hne]
  cases h with
  | registers id ref' username w evs hat hregister =>
    cases hregister
    refine within ?_
    rw [World.goto_tasks, Function.update_of_ne fun heq => hk (congrArg some heq.symm)]
    rfl
  | lives id ref' username pc a w evs hat htask hlive =>
    exact within ((liveStep_inv htask hlive).tasks_other hk)
  | sweeps l name lr w evs hl hstep =>
    refine within ((step_inv hstep).tasks_other ?_)
    rw [(actor_of_sweep hl).2]
    exact nofun
  | _ => rfl

section Runs

variable {G : Guard (Service τ) ServerLabel ServerEvent}
  {P : Config (Service τ) ServerEvent → Prop} {drawn : Nat}

/-- The invariant rule of the server, over the listed effects. -/
@[elab_as_elim] theorem Reach.server_invariant
    (hinit : P (server N decode fill hub drawn).start)
    (hstep : ∀ c l s evs, (server N decode fill hub drawn).Reach G c → P c → G c l →
      ServerStep N hub c.state l s evs → P ⟨c.past ++ evs, s⟩)
    {c : Config (Service τ) ServerEvent} (h : (server N decode fill hub drawn).Reach G c) : P c :=
  Machine.Reach.invariant hinit
    (fun c l s evs hreach hP hG hs => hstep c l s evs hreach hP hG (serverStep_inv hs)) h

end Runs

end

/-! ## The first half by itself

`ServerHub.handleConnection` is what the steps of one connection come to, as far as the
handshake.
-/

section

variable {τ : Type} (N : Noise τ) (decode : List UInt8 → Option ClientFrame)
  (fill : Nat → Option Key) (hub : ServerHub)

def greetRun (id : Uuid) :
    Stage τ → Nat → List ConnAct → Option (Stage τ × Nat × List ServerEvent)
  | stage, drawn, [] => some (stage, drawn, [])
  | stage, drawn, a :: acts =>
    (greetStep N decode fill hub id drawn stage a).bind fun (stage, drawn, evs) =>
      (greetRun id stage drawn acts).map fun (stage, drawn, rest) => (stage, drawn, evs ++ rest)

/-- The second message alone. -/
def Noise.responder (ephemeral : Nat) : Responder :=
  fun psk prologue m0 => (N.respond ephemeral psk prologue m0).map Prod.fst

/-- What the peer sees of it. -/
def seen (evs : List ServerEvent) : List Sent :=
  evs.filterMap fun ev => match ev with
    | .sent _ f => some (.frame f)
    | .answered _ m1 => some (.handshake m1)
    | _ => none

/-- A run of one connection along the first of `acts` comes to what `answer` says: with these
draws, to this end, and with these frames if all of them get out. -/
def ComesTo (id : Uuid) (p : Probe) (stage : Stage τ) (drawn : Nat) (acts : List ConnAct)
    (answer : Answer) (drawn' : Nat) : Prop :=
  ∃ used evs stage', used <+: acts
    ∧ greetRun N decode fill hub id stage drawn used = some (stage', drawn', evs)
    ∧ (p.answered = .ok () → p.finished = .ok () → seen evs = answer.sent)
    ∧ match answer.result with
      | .ok room => ∃ ref transport, stage' = .awaitingHello ref room transport
      | .error e => stage' = .returning (.error e)

variable {N decode fill hub}

/-- One step more, in front of a run of the greeting. -/
theorem greetRun_cons {id : Uuid} {stage stage' stage'' : Stage τ} {drawn drawn' drawn'' : Nat}
    {a : ConnAct} {acts : List ConnAct} {evs rest : List ServerEvent}
    (hstep : greetStep N decode fill hub id drawn stage a = some (stage', drawn', evs))
    (hrest : greetRun N decode fill hub id stage' drawn' acts = some (stage'', drawn'', rest)) :
    greetRun N decode fill hub id stage drawn (a :: acts)
      = some (stage'', drawn'', evs ++ rest) := by
  rw [greetRun, hstep, Option.bind_some]
  dsimp only
  rw [hrest, Option.map_some]

/-- From the Hello on. -/
theorem greet_comesTo (id : Uuid) (ref : RoomRef) (room : RoomState) (p : Probe)
    (ephemeral drawn : Nat) :
    ComesTo N decode fill hub id p (.greeting ref room) drawn
      [.sendHello p.answered, .recvM0 ephemeral (some p.m0), .sendM1 (some p.finished)]
      (greet (N.responder ephemeral) room p) drawn := by
  obtain ⟨admitted, select, answered, m0, finished⟩ := p
  cases answered with
  -- each `?` on the way ends it
  | error e => exact ⟨[.sendHello (.error e)], _, _, ⟨_, rfl⟩, rfl, nofun, rfl⟩
  | ok _ =>
    have hhello : greetStep N decode fill hub id drawn (.greeting ref room) (.sendHello (.ok ()))
        = some (.handshaking ref room, drawn, [.sent id room.hello]) := rfl
    cases m0 with
    | error e =>
      exact ⟨[.sendHello (.ok ()), .recvM0 ephemeral (some (.error e))], _, _, ⟨_, rfl⟩, rfl,
        fun _ _ => rfl, rfl⟩
    | ok m0 =>
      unfold greet
      cases hm0 : N.respond ephemeral room.psk room.prologue m0 with
      | none =>
        -- the first message does not fit the PSK and the prologue
        have hnoise : handshakeResponder (N.responder ephemeral) room.psk room.prologue (.ok m0)
            = .error .noise := by
          simp only [handshakeResponder, Noise.responder, hm0, Option.map_none]
        have hend : greetStep N decode fill hub id drawn (.handshaking ref room)
            (.recvM0 ephemeral (some (.ok m0))) = some (.returning (.error .noise), drawn, []) := by
          simp only [greetStep, hm0]
        unfold RoomState.prologue at hnoise
        simp only [hnoise]
        exact ⟨[.sendHello (.ok ()), .recvM0 ephemeral (some (.ok m0))], _, _, ⟨_, rfl⟩,
          greetRun_cons hhello (greetRun_cons hend rfl), fun _ _ => rfl, rfl⟩
      | some answer =>
        obtain ⟨m1, transport⟩ := answer
        have hnoise : handshakeResponder (N.responder ephemeral) room.psk room.prologue (.ok m0)
            = .ok m1 := by
          simp only [handshakeResponder, Noise.responder, hm0, Option.map_some]
        have hm1 : greetStep N decode fill hub id drawn (.handshaking ref room)
            (.recvM0 ephemeral (some (.ok m0)))
              = some (.answering ref room m1 transport, drawn, []) := by
          simp only [greetStep, hm0]
        unfold RoomState.prologue at hnoise
        simp only [hnoise]
        cases finished with
        | error e =>
          exact ⟨_, _, _, List.prefix_rfl, greetRun_cons hhello (greetRun_cons hm1 rfl),
            fun _ => nofun, rfl⟩
        | ok _ =>
          exact ⟨_, _, _, List.prefix_rfl, greetRun_cons hhello (greetRun_cons hm1 rfl),
            fun _ _ => rfl, ref, transport, rfl⟩

/-- **Both models of `handle_connection` agree** on the unauthenticated half: on the room, the
draws, the end, and what the peer sees. -/
theorem handleConnection_comesTo (id : Uuid) {p : Probe} (hadmitted : p.admitted = true)
    {r : Timed (List UInt8)}
    (hselect : recvPostcard decode (.protocol "room select timeout") r = p.select)
    (ephemeral drawn : Nat) :
    ComesTo N decode fill hub id p .selecting drawn
      [.recvSelect r, .sendHello p.answered, .recvM0 ephemeral (some p.m0),
        .sendM1 (some p.finished)]
      (hub.handleConnection (N.responder ephemeral) fill p drawn).1
      (hub.handleConnection (N.responder ephemeral) fill p drawn).2 := by
  -- over the cap there is no conversation, and that is excluded here
  rw [ServerHub.handleConnection, if_neg (not_not.mpr hadmitted)]
  -- the connection ends with the first step
  have ends {answer : Answer} {drawn' : Nat} {e : Error} {evs : List ServerEvent}
      (hstep : greetStep N decode fill hub id drawn .selecting (.recvSelect r)
        = some (.returning (.error e), drawn', evs)) (hresult : answer.result = .error e)
      (hsent : p.answered = .ok () → seen evs = answer.sent) :
      ComesTo N decode fill hub id p .selecting drawn
        [.recvSelect r, .sendHello p.answered, .recvM0 ephemeral (some p.m0),
          .sendM1 (some p.finished)] answer drawn' := by
    refine ⟨[.recvSelect r], evs ++ [], _, ⟨_, rfl⟩, greetRun_cons hstep rfl, ?_, ?_⟩
    · intro hanswered _
      rw [List.append_nil]
      exact hsent hanswered
    · rw [hresult]
  cases hp : p.select with
  | error e => exact ends (by simp only [greetStep, hselect, hp]; rfl) rfl fun _ => rfl
  | ok f =>
    cases f with
    | roomSelect roomName =>
      dsimp only
      by_cases hname : roomName.isEmpty ∨ strLen roomName > MAX_ROOM_ID_LEN
      · rw [if_pos hname]
        refine ends (by simp only [greetStep, hselect, hp, if_pos hname]; rfl) rfl ?_
        intro hanswered
        rw [Probe.sees, hanswered]
        rfl
      · rw [if_neg hname]
        rcases hroom : hub.select fill roomName drawn with ⟨result, drawn'⟩
        cases result with
        | error e =>
          exact ends (by simp only [greetStep, hselect, hp, if_neg hname, hroom]; rfl) rfl
            fun _ => rfl
        | ok room =>
          have hstep : greetStep N decode fill hub id drawn .selecting (.recvSelect r)
              = some (.greeting (hub.place roomName id) room, drawn',
                  madeUp id room (hub.place roomName id)) := by
            simp only [greetStep, hselect, hp, if_neg hname, hroom]
          -- from the hello on the room answers, whether it exists or not
          obtain ⟨used, evs, stage, ⟨unused, hused⟩, hrun, hseen, hresult⟩ :=
            greet_comesTo id (hub.place roomName id) room p ephemeral drawn'
          refine ⟨_, _, stage, ⟨unused, ?_⟩, greetRun_cons hstep hrun, ?_, hresult⟩
          · rw [List.cons_append, hused]
          · intro hanswered hfinished
            rw [seen, List.filterMap_append]
            have hquiet : seen (madeUp id room (hub.place roomName id)) = [] := by
              cases hub.place roomName id <;> rfl
            rw [seen] at hquiet
            rw [hquiet]
            exact hseen hanswered hfinished
    -- a first frame of another kind is a protocol error
    | hello | message | clear =>
      exact ends (by simp only [greetStep, hselect, hp]; rfl) rfl fun _ => rfl

end

end ChatRs

import ChatRs.Client.Run
import ChatRs.Server.Deadline
import ChatRs.Server.Listener

/-!
# A client and the server (`client/mod.rs`, `server/mod.rs`)

Both programs at once: one client in `run`, and the whole server behind its rate limiter, with
whoever else is connected to it. The network between the two is honest: it loses nothing, hands on
frames in order, and an end that is dropped reads as closed, or as reset, at the other, where a
write to it may fail. The server's timers go off when their time has come, and the client's terminal
may refuse to open. The plan:

* **`Link`**, **`linkStep`**: the two programs and the frames on their way, as one machine. Neither
  side's step function knows of the other's;
* **`Stage.timedOut`**: the waits of a connection that are under a timer;
* **`LinkStep`** and `linkStep_inv`: everything a step can do;
* **`link_server`**: the server's part of a run is a run of the server.

For the client's connection the machine goes as far as the Welcome: its frames after that are in
`Server.Room` and `Client.Loop`. Nobody shuts the server down.
-/

namespace ChatRs

open Machine (Config Guard free)

/-- A client, and the connection that the server has for it. -/
structure Caller where
  id : Uuid
  room : String
  username : String
  password : List UInt8

structure Link (σ τ : Type) where
  listener : Listener τ
  dial : Dial σ τ
  /-- The server's end of the transport, once it is made. -/
  far : Option τ
  /-- When the timer of the connection was set. -/
  armed : Instant
  toServer : List (List UInt8)
  toClient : List (List UInt8)

/-- Who takes part in the negotiation. -/
inductive Side where
  | client
  | listener
  | task
deriving DecidableEq

inductive LinkLabel where
  -- with `fails`, what can fail does: a connection that the other end has dropped reads as reset
  -- and takes nothing more, and the terminal does not open
  | client (ephemeral : Nat) (fails : Bool)
  -- the limiter looks at the client's address
  | connect (ip : IpAddr)
  | accept
  | task (ephemeral : Nat) (fails : Bool)
  -- the timer goes off; `flushed` tells whether what was being sent got out before
  | timeout (flushed : Bool)
  -- the client's connection after the Welcome, and its end
  | live (a : Act)
  | ret
  | other (l : ListenerLabel)

def LinkLabel.side : LinkLabel → Option Side
  | .client _ _ => some .client
  | .connect _ => some .listener
  | .accept | .task _ _ | .timeout _ => some .task
  | _ => none

/-- Whose socket or connection a step is about. -/
def ListenerLabel.actor : ListenerLabel → Option Uuid
  | .connect id _ => some id
  | .cleanup => none
  | .server l => l.actor

/-! ## The network -/

/-- A receive: the next frame, or the end of the connection when nothing is left. -/
def receive {α : Type} (queue : List (List UInt8)) (closed : Bool) (e : Error)
    (f : Result (List UInt8) → α) : Option (α × List (List UInt8)) :=
  match queue with
  | bytes :: rest => some (f (.ok bytes), rest)
  | [] => if closed then some (f (.error e), []) else none

/-- What becomes of a call that may fail. -/
def outcome (fails : Bool) : Result Unit := if fails then .error .io else .ok ()

/-- How the end of a connection reads. -/
def lost (reset : Bool) : Error := if reset then .io else .closed

/-- What `run` awaits next, if it is there. What is written to a live connection gets out. -/
def Dial.await {σ τ : Type} (queue : List (List UInt8)) (closed fails : Bool)
    (ephemeral : Nat) : Dial σ τ → Option (DialAct × List (List UInt8))
  | .selecting => some (.sendSelect (outcome (closed && fails)), queue)
  | .awaitingHello => receive queue closed (lost fails) (.recvHello ephemeral)
  | .initiating _ _ _ => some (.sendM0 (outcome (closed && fails)), queue)
  | .awaitingM1 _ _ => receive queue closed (lost fails) .recvM1
  | .introducing _ _ => some (.sendHello (outcome (closed && fails)), queue)
  | .awaitingWelcome _ _ => receive queue closed (lost fails) .recvWelcome
  | .entering _ => some (.enterTerminal (outcome fails), queue)
  | .ended _ => none

def Dial.gone {σ τ : Type} : Dial σ τ → Bool
  | .ended (.error _) => true
  | _ => false

/-- The locals of `handle_connection` are dropped, the socket among them. -/
def gone {τ : Type} : Option (Stage τ) → Bool
  | some (.returning _) | some (.returned _) => true
  | _ => false

/-- The client's socket is gone at the server: the limiter had it dropped, or the connection has
ended. -/
def hungUp {τ : Type} (door : Option Bool) : Option (Stage τ) → Bool
  | none => door == some false
  | stage => gone stage

@[simp] theorem hungUp_some {τ : Type} (door : Option Bool) (stage : Stage τ) :
    hungUp door (some stage) = gone (some stage) := rfl

def beforeWelcome : Option Phase → Bool
  | some (.live _ .snapshotting) | some (.live _ (.welcoming _)) => true
  | _ => false

/-- The Welcome has gone out, or never will. -/
def late {τ : Type} (task : RoomRef → Option Phase) : Option (Stage τ) → Bool
  | some (.joined ref) => ! beforeWelcome (task ref)
  | stage => gone stage

/-- A connection whose Welcome is out, or whose task has given up, is late. -/
theorem late_joined {τ : Type} {task : RoomRef → Option Phase} {ref : RoomRef}
    (h : beforeWelcome (task ref) = false) :
    late task (some (.joined ref : Stage τ)) = true := by
  rw [late, h]
  rfl

section Code

variable {σ τ : Type} (N : Snow σ τ) (codec : Codec) (kdf : Kdf) (fill : Nat → Option Key)
  (hub : ServerHub) (caller : Caller)

/-- A frame of the server as it goes out, sealed once there is a transport. -/
def outgoing (far : Option τ) (f : ServerFrame) : Result (List UInt8) :=
  match far with
  | none => sendBytes (encodeServerFrame f)
  | some transport => transportSeal N transport (encodeServerFrame f)

/-- What a step of `handle_connection` puts on the wire. -/
def wire (far : Option τ) (evs : List ServerEvent) : List (List UInt8) :=
  evs.filterMap fun ev => match ev with
    | .sent _ f => (outgoing N far f).toOption
    | .answered _ m1 => some m1
    | _ => none

/-- What `handle_connection` awaits next, as far as the Welcome. -/
def Stage.hears (task : RoomRef → Option Phase) (id : Uuid) (far : Option τ)
    (queue : List (List UInt8)) (closed fails : Bool) (ephemeral : Nat) :
    Stage τ → Option (ConnAct × List (List UInt8))
  | .rollingBack => some (.rollBack, queue)
  | .selecting => receive queue closed (lost fails) fun r => .recvSelect (some r)
  | .greeting _ room =>
    some (.sendHello ((outgoing N far room.hello).bind fun _ => outcome (closed && fails)), queue)
  | .handshaking _ _ => receive queue closed (lost fails) fun r => .recvM0 ephemeral (some r)
  | .answering _ _ _ _ => some (.sendM1 (some (outcome (closed && fails))), queue)
  | .awaitingHello _ _ _ => receive queue closed (lost fails) fun r => .recvFirst (some r)
  | .registering _ _ => some (.register, queue)
  | .joined ref =>
    match task ref with
    | some (.live _ .snapshotting) => some (.live .snapshot, queue)
    | some (.live _ (.welcoming history)) =>
      some (.live (.sendWelcome ((outgoing N far (.welcome id history)).bind fun _ =>
        outcome (closed && fails))), queue)
    | _ => none
  | .returning _ | .returned _ => none

/-- The waits under a timer, as they end when it goes off. -/
def Stage.timedOut : Stage τ → Option ConnAct
  | .selecting => some (.recvSelect none)
  | .handshaking _ _ => some (.recvM0 0 none)
  | .answering _ _ _ _ => some (.sendM1 none)
  | .awaitingHello _ _ _ => some (.recvFirst none)
  | _ => none

/-- The time the timer counts from after a step: both halves of the handshake are under one. -/
def Stage.rearmed (armed now : Instant) : Stage τ → Instant
  | .handshaking _ _ => armed
  | _ => now

/-- The transport that the handshake makes. -/
def farEnd (far : Option τ) : Option (Stage τ) → Option τ
  | some (.answering _ _ _ transport) => some transport
  | _ => far

def Service.task (s : Service τ) (id : Uuid) (ref : RoomRef) : Option Phase :=
  (s.stores ref).tasks id

def linkStep (l : Link σ τ) : LinkLabel → Option (Link σ τ × List ServerEvent)
  | .client ephemeral fails =>
    match l.dial.await l.toClient
        (hungUp (l.listener.sockets caller.id) (l.listener.service.conns caller.id)) fails
        ephemeral with
    | none => none
    | some (a, rest) =>
      (dialStep N codec kdf caller.room caller.username caller.password l.dial a).map
        fun (dial, sent) =>
          ({ l with dial := dial, toServer := l.toServer ++ sent, toClient := rest }, [])
  | .task ephemeral fails =>
    match l.listener.service.conns caller.id with
    | none => none
    | some stage =>
      match stage.hears N (l.listener.service.task caller.id) caller.id l.far l.toServer
          l.dial.gone fails ephemeral with
      | none => none
      | some (a, rest) =>
        (serverStep N.toNoise codec.readClient fill hub l.listener.service
          (.conn caller.id a)).map fun (s, evs) =>
            ({ l with listener := { l.listener with service := s }
                      far := farEnd l.far (s.conns caller.id)
                      armed := stage.rearmed l.armed l.listener.now
                      toServer := rest
                      toClient := l.toClient ++ wire N l.far evs }, evs)
  | .timeout flushed =>
    match l.listener.service.conns caller.id with
    | none => none
    | some stage =>
      match stage.timedOut with
      | none => none
      | some a =>
        if l.armed + HANDSHAKE_TIMEOUT ≤ l.listener.now then
          (serverStep N.toNoise codec.readClient fill hub l.listener.service
            (.conn caller.id a)).map fun (s, evs) =>
              ({ l with listener := { l.listener with service := s }
                        toClient :=
                          l.toClient ++ if flushed then wire N l.far evs else [] }, evs)
        else none
  | .connect ip => serves l (.connect caller.id ip)
  -- the spawned task starts, with the wait for `RoomSelect`
  | .accept =>
    (serves l (.server (.accept caller.id))).map fun (l, evs) =>
      ({ l with armed := l.listener.now }, evs)
  | .live a =>
    match l.listener.service.conns caller.id with
    | some (.joined ref) =>
      if beforeWelcome (l.listener.service.task caller.id ref) then none
      else serves l (.server (.conn caller.id (.live a)))
    | _ => none
  | .ret => serves l (.server (.conn caller.id .ret))
  | .other ll => if ll.actor = some caller.id then none else serves l ll
where
  /-- A step of the server that is not part of the negotiation. -/
  serves (l : Link σ τ) (ll : ListenerLabel) : Option (Link σ τ × List ServerEvent) :=
    (listenerStep N.toNoise codec.readClient fill hub l.listener ll).map fun (s, evs) =>
      ({ l with listener := s }, serverPast evs)

/-- From the start of the server's accept loop and the client's connected socket. -/
def link (drawn : Nat) : Machine (Link σ τ) LinkLabel ServerEvent where
  init := ⟨.init drawn, .selecting, none, 0, [], []⟩
  step := linkStep N codec kdf fill hub caller

end Code

/-! ## Everything a step can do -/

section

variable {σ τ : Type} {N : Snow σ τ} {codec : Codec} {kdf : Kdf} {fill : Nat → Option Key}
  {hub : ServerHub} {caller : Caller}

/-- A step of the server on its own. -/
inductive Beside (l : Link σ τ) (id : Uuid) : LinkLabel → ListenerLabel → Prop
  | connect (ip : IpAddr) : Beside l id (.connect ip) (.connect id ip)
  | accept : Beside l id .accept (.server (.accept id))
  | live (a : Act) (ref : RoomRef) (hat : l.listener.service.conns id = some (.joined ref))
      (hlate : beforeWelcome (l.listener.service.task id ref) = false) :
      Beside l id (.live a) (.server (.conn id (.live a)))
  | ret : Beside l id .ret (.server (.conn id .ret))
  | other (ll : ListenerLabel) (hactor : ll.actor ≠ some id) : Beside l id (.other ll) ll

/-- Everything a step of the two can do. -/
inductive LinkStep (N : Snow σ τ) (codec : Codec) (kdf : Kdf) (fill : Nat → Option Key)
    (hub : ServerHub) (caller : Caller) (l : Link σ τ) :
    LinkLabel → Link σ τ → List ServerEvent → Prop
  | client (ephemeral : Nat) (fails : Bool) (a : DialAct) (rest sent : List (List UInt8))
      (dial : Dial σ τ)
      (hawait : l.dial.await l.toClient
        (hungUp (l.listener.sockets caller.id) (l.listener.service.conns caller.id)) fails
        ephemeral = some (a, rest))
      (hstep : dialStep N codec kdf caller.room caller.username caller.password l.dial a
        = some (dial, sent)) :
      LinkStep N codec kdf fill hub caller l (.client ephemeral fails)
        { l with dial := dial, toServer := l.toServer ++ sent, toClient := rest } []
  | task (ephemeral : Nat) (fails : Bool) (stage : Stage τ) (a : ConnAct)
      (rest : List (List UInt8)) (s : Service τ) (evs : List ServerEvent)
      (hat : l.listener.service.conns caller.id = some stage)
      (hawait : stage.hears N (l.listener.service.task caller.id) caller.id l.far l.toServer
        l.dial.gone fails ephemeral = some (a, rest))
      (hstep : serverStep N.toNoise codec.readClient fill hub l.listener.service
        (.conn caller.id a) = some (s, evs)) :
      LinkStep N codec kdf fill hub caller l (.task ephemeral fails)
        { l with listener := { l.listener with service := s }
                 far := farEnd l.far (s.conns caller.id)
                 armed := stage.rearmed l.armed l.listener.now
                 toServer := rest
                 toClient := l.toClient ++ wire N l.far evs } evs
  | timeout (flushed : Bool) (stage : Stage τ) (a : ConnAct) (s : Service τ)
      (evs : List ServerEvent) (hat : l.listener.service.conns caller.id = some stage)
      (htimed : stage.timedOut = some a)
      (hdue : l.armed + HANDSHAKE_TIMEOUT ≤ l.listener.now)
      (hstep : serverStep N.toNoise codec.readClient fill hub l.listener.service
        (.conn caller.id a) = some (s, evs)) :
      LinkStep N codec kdf fill hub caller l (.timeout flushed)
        { l with listener := { l.listener with service := s }
                 toClient := l.toClient ++ if flushed then wire N l.far evs else [] } evs
  | beside (label : LinkLabel) (ll : ListenerLabel) (s : Listener τ)
      (evs : List ListenerEvent) (armed : Instant) (hbeside : Beside l caller.id label ll)
      (hstep : listenerStep N.toNoise codec.readClient fill hub l.listener ll = some (s, evs)) :
      LinkStep N codec kdf fill hub caller l label { l with listener := s, armed := armed }
        (serverPast evs)

/-- **The inversion of a step**: the client moves, the task moves, a timer goes off, or the listener
does something beside the conversation. -/
theorem linkStep_inv {l l' : Link σ τ} {label : LinkLabel} {evs : List ServerEvent}
    (h : linkStep N codec kdf fill hub caller l label = some (l', evs)) :
    LinkStep N codec kdf fill hub caller l label l' evs := by
  -- the steps that touch neither queue
  have serves {ll : ListenerLabel} (hbeside : Beside l caller.id label ll)
      (h : linkStep.serves N codec fill hub l ll = some (l', evs)) :
      LinkStep N codec kdf fill hub caller l label l' evs := by
    obtain ⟨⟨s, evs⟩, hstep, heq⟩ := Option.map_eq_some_iff.mp h
    cases heq
    exact .beside label ll s evs l.armed hbeside hstep
  cases label with
  | client ephemeral fails =>
    simp only [linkStep] at h
    split at h
    · cases h
    · rename_i a rest hawait
      obtain ⟨⟨dial, sent⟩, hstep, heq⟩ := Option.map_eq_some_iff.mp h
      cases heq
      exact .client ephemeral fails a rest sent dial hawait hstep
  | task ephemeral fails =>
    simp only [linkStep] at h
    split at h
    · cases h
    · rename_i stage hat
      split at h
      · cases h
      · rename_i a rest hawait
        obtain ⟨⟨s, evs⟩, hstep, heq⟩ := Option.map_eq_some_iff.mp h
        cases heq
        exact .task ephemeral fails stage a rest s evs hat hawait hstep
  | timeout flushed =>
    simp only [linkStep] at h
    split at h
    · cases h
    · rename_i stage hat
      split at h
      · cases h
      · rename_i a htimed
        split at h
        · rename_i hdue
          obtain ⟨⟨s, evs⟩, hstep, heq⟩ := Option.map_eq_some_iff.mp h
          cases heq
          exact .timeout flushed stage a s evs hat htimed hdue hstep
        · cases h
  | connect ip => exact serves (.connect ip) h
  | accept =>
    -- the accept arms the first timer too
    simp only [linkStep, linkStep.serves, Option.map_map] at h
    obtain ⟨⟨s, evs⟩, hstep, heq⟩ := Option.map_eq_some_iff.mp h
    cases heq
    exact .beside .accept (.server (.accept caller.id)) s evs s.now .accept hstep
  | live a =>
    simp only [linkStep] at h
    split at h
    · rename_i ref hat
      split at h
      · cases h
      · rename_i hlate
        exact serves (.live a ref hat (Bool.eq_false_iff.mpr hlate)) h
    · cases h
  | ret => exact serves .ret h
  | other ll =>
    simp only [linkStep] at h
    split at h
    · cases h
    · rename_i hactor
      exact serves (.other ll hactor) h

variable {drawn : Nat} {G : Guard (Link σ τ) LinkLabel ServerEvent}
  {c : Config (Link σ τ) ServerEvent}

/-- The server's part of a run is a run of the server. -/
theorem link_server (h : (link N codec kdf fill hub caller drawn).Reach G c) :
    (server N.toNoise codec.readClient fill hub drawn).Reach free
      ⟨c.past, c.state.listener.service⟩ := by
  have hstart : (server N.toNoise codec.readClient fill hub drawn).Reach free
      (server N.toNoise codec.readClient fill hub drawn).start := .refl
  refine Machine.Reach.simulates
    (fun c => (⟨c.past, c.state.listener.service⟩ : Config (Service τ) ServerEvent)) hstart ?_ h
  intro c label l evs _ _ _ hs
  cases linkStep_inv hs with
  | client =>
    simp only [List.append_nil]
    exact .refl
  | task ephemeral fails stage a rest s evs hat hawait hstep =>
    refine .single (.mk (.conn caller.id a) s evs trivial ?_)
    exact hstep
  | timeout flushed stage a s evs hat htimed hdue hstep =>
    refine .single (.mk (.conn caller.id a) s evs trivial ?_)
    exact hstep
  | beside _ ll s evs armed hbeside hstep =>
    cases listenerStep_inv hstep with
    | connects | cleans =>
      simp only [serverPast, List.filterMap_cons, List.filterMap_nil, List.append_nil]
      exact .refl
    | serves sl service sevs d hspawned hclock hserver =>
      rw [serverPast_map]
      exact .single (.mk sl service sevs trivial hserver)

end

end ChatRs

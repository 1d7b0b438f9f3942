import ChatRs.Client.Loop
import ChatRs.Server.Channel
import ChatRs.Server.Rejection

/-!
# A room and the clients in it (`client/mod.rs`, `server/mod.rs`)

One room of the server, and behind any of its connections the client of this repository, from the
Welcome on. Between the two lies a transport that hands on frames in order; it may break at any
moment, and then each side reads an error or the end. The other connections are anybody's: what
they send is arbitrary. The plan:

* **`Chat`**, **`chatStep`**: the room, the clients and the frames on their way, as one machine.
  Neither side's step function knows of the other's;
* **`ChatStep`** and `chatStep_inv`: everything a step can do;
* **`chat_run`**: the server's part of a run is a run of the room;
* **`Connected`** and `connected`: along every run the server has read a beginning of what a
  client sent, and a client a beginning of what the server sent it.
-/

namespace ChatRs

open Machine (Config Guard free)

open Client

/-- Where a client stands. -/
inductive Seat where
  | waiting
  | running (ui : UiState)
  | ended (result : Result Unit)

structure Chat where
  world : World
  client : Uuid → Seat
  toServer : Uuid → List ClientFrame
  toClient : Uuid → List ServerFrame

inductive ChatLabel where
  | server (l : Label)
  /-- The client reads its Welcome and replays the history, each message at a clock of its own. -/
  | join (id : Uuid) (clocks : Nat → Clock)
  | turn (id : Uuid) (clock : Clock) (i : Input)

inductive ChatEvent where
  | room (ev : Event)
  | joined (id : Uuid) (history : List Received)
  | turned (id : Uuid) (clock : Clock) (i : Input)

section Code

variable (aead : Aead) (roomKey : Key) (roomName : String) (users : Uuid → Option String)

/-- What is left to the server after a receive, `none` when it receives something else than the
client sent. -/
def unread (c : Chat) : Label → Option (Uuid → List ClientFrame)
  | .act id (.recvHello (.ok f)) =>
    match users id with
    | none => some c.toServer
    | some username => if f = .hello username then some c.toServer else none
  | .act id (.incoming (some (.ok f))) =>
    match users id, c.toServer id with
    | none, _ => some c.toServer
    | some _, [] => none
    | some _, g :: rest =>
      if f = g then some (Function.update c.toServer id rest) else none
  | _ => some c.toServer

/-- The Welcome that goes out in a step. -/
def welcomeOut (w : World) : Label → Uuid → List ServerFrame
  | .act id (.sendWelcome (.ok _)), k =>
    if id = k then
      match w.tasks id with
      | some (.live _ (.welcoming history)) => [.welcome id history]
      | _ => []
    else []
  | _, _ => []

/-- What is left to the client after a turn, `none` when it reads something else than the server
sent. -/
def unheard (queue : List ServerFrame) : Input → Option (List ServerFrame)
  | .incoming (some (.ok f)) =>
    match queue with
    | [] => none
    | g :: rest => if f = g then some rest else none
  | _ => some queue

/-- Where a turn leaves the client. -/
def Seat.after : Option (Result Unit) × UiState → Seat
  | (none, ui) => .running ui
  | (some result, _) => .ended result

/-- What a turn puts on the wire: the loop goes on only when the frame could be written. -/
def written (ui : UiState) (clock : Clock) (i : Input) : List ClientFrame :=
  match (turn aead roomKey ui clock i).1 with
  | none => producedIn aead roomKey ui clock i
  | some _ => []

/-- The history with the clock at which each message is replayed. -/
def clocked (clocks : Nat → Clock) (history : List RoomMessage) : List Received :=
  history.zipIdx.map fun x => (clocks x.2, x.1)

def chatStep (c : Chat) : ChatLabel → Option (Chat × List ChatEvent)
  | .server l =>
    match unread users c l, step c.world l with
    | some toServer, some (w, evs) =>
      some ({ c with world := w
                     toServer := toServer
                     toClient := fun k =>
                       c.toClient k ++ welcomeOut c.world l k ++ deliveredTo k evs },
        evs.map .room)
    | _, _ => none
  | .join id clocks =>
    match users id, c.client id, c.toClient id with
    | some username, .waiting, .welcome userId history :: rest =>
      let history := clocked clocks history
      some ({ c with
              client := Function.update c.client id
                (.running (welcomed aead roomKey username userId roomName history))
              toClient := Function.update c.toClient id rest },
        [.joined id history])
    | _, _, _ => none
  | .turn id clock i =>
    match c.client id, unheard (c.toClient id) i with
    | .running ui, some rest =>
      some ({ c with
              client := Function.update c.client id (.after (turn aead roomKey ui clock i))
              toServer := Function.update c.toServer id
                (c.toServer id ++ written aead roomKey ui clock i)
              toClient := Function.update c.toClient id rest },
        [.turned id clock i])
    | _, _ => none

def Chat.init : Chat where
  world := .init
  client _ := .waiting
  toServer _ := []
  toClient _ := []

/-- The room, and a client for everyone that `users` names. -/
def chat : Machine Chat ChatLabel ChatEvent := ⟨.init, chatStep aead roomKey roomName users⟩

end Code

/-! ## Everything a step can do -/

section

variable (aead : Aead) (roomKey : Key) (roomName : String) (users : Uuid → Option String)

inductive ChatStep (c : Chat) : ChatLabel → Chat → List ChatEvent → Prop
  | serves (l : Label) (toServer : Uuid → List ClientFrame) (w : World) (evs : List Event)
      (hunread : unread users c l = some toServer) (hstep : step c.world l = some (w, evs)) :
      ChatStep c (.server l)
        { c with world := w
                 toServer := toServer
                 toClient := fun k =>
                   c.toClient k ++ welcomeOut c.world l k ++ deliveredTo k evs }
        (evs.map .room)
  | joins (id : Uuid) (clocks : Nat → Clock) (username : String) (userId : Uuid)
      (history : List RoomMessage) (rest : List ServerFrame) (huser : users id = some username)
      (hclient : c.client id = .waiting)
      (hqueue : c.toClient id = .welcome userId history :: rest) :
      ChatStep c (.join id clocks)
        { c with client := Function.update c.client id (.running
                   (welcomed aead roomKey username userId roomName (clocked clocks history)))
                 toClient := Function.update c.toClient id rest }
        [.joined id (clocked clocks history)]
  | turns (id : Uuid) (clock : Clock) (i : Input) (ui : UiState) (rest : List ServerFrame)
      (hclient : c.client id = .running ui) (hqueue : unheard (c.toClient id) i = some rest) :
      ChatStep c (.turn id clock i)
        { c with client := Function.update c.client id (.after (turn aead roomKey ui clock i))
                 toServer := Function.update c.toServer id
                   (c.toServer id ++ written aead roomKey ui clock i)
                 toClient := Function.update c.toClient id rest }
        [.turned id clock i]

variable {aead roomKey roomName users}

/-- The inversion of a step, one case for each branch of `chatStep`. -/
theorem chatStep_inv {c c' : Chat} {l : ChatLabel} {evs : List ChatEvent}
    (h : chatStep aead roomKey roomName users c l = some (c', evs)) :
    ChatStep aead roomKey roomName users c l c' evs := by
  cases l with
  | server l =>
    simp only [chatStep] at h
    split at h
    · rename_i toServer w evs hunread hstep
      cases h
      exact .serves l toServer w evs hunread hstep
    · cases h
  | join id clocks =>
    simp only [chatStep] at h
    split at h
    · rename_i username userId history rest huser hclient hqueue
      cases h
      exact .joins id clocks username userId history rest huser hclient hqueue
    · cases h
  | turn id clock i =>
    simp only [chatStep] at h
    split at h
    · rename_i ui rest hclient hqueue
      cases h
      exact .turns id clock i ui rest hclient hqueue
    · cases h

end

/-! ## What a run reports -/

/-- The server's part of a run. -/
def worldPast (past : List ChatEvent) : List Event :=
  past.filterMap fun e => match e with
    | .room ev => some ev
    | _ => none

/-- The history with which a client of `id` has started: there is one of them at most. -/
def histories (id : Uuid) (past : List ChatEvent) : List (List Received) :=
  past.filterMap fun e => match e with
    | .joined k history => if k = id then some history else none
    | _ => none

/-- What the client of `id` has processed. -/
def inputsOf (id : Uuid) (past : List ChatEvent) : List (Clock × Input) :=
  past.filterMap fun e => match e with
    | .turned k clock i => if k = id then some (clock, i) else none
    | _ => none

section

variable (id : Uuid) (past evs : List ChatEvent)

@[simp] theorem worldPast_append :
    worldPast (past ++ evs) = worldPast past ++ worldPast evs := List.filterMap_append

@[simp] theorem histories_append :
    histories id (past ++ evs) = histories id past ++ histories id evs := List.filterMap_append

@[simp] theorem inputsOf_append :
    inputsOf id (past ++ evs) = inputsOf id past ++ inputsOf id evs := List.filterMap_append

@[simp] theorem worldPast_room (evs : List Event) : worldPast (evs.map .room) = evs := by
  rw [worldPast, List.filterMap_map]
  exact List.filterMap_some

@[simp] theorem histories_room (evs : List Event) : histories id (evs.map .room) = [] := by
  rw [histories, List.filterMap_map, List.filterMap_eq_nil_iff]
  exact fun _ _ => rfl

@[simp] theorem inputsOf_room (evs : List Event) : inputsOf id (evs.map .room) = [] := by
  rw [inputsOf, List.filterMap_map, List.filterMap_eq_nil_iff]
  exact fun _ _ => rfl

theorem histories_self (history : List Received) :
    histories id [.joined id history] = [history] := by
  simp [histories]

theorem histories_other {k : Uuid} (history : List Received) (hne : id ≠ k) :
    histories id [.joined k history] = [] := by
  simp [histories, Ne.symm hne]

theorem inputsOf_self (clock : Clock) (i : Input) :
    inputsOf id [.turned id clock i] = [(clock, i)] := by
  simp [inputsOf]

theorem inputsOf_other {k : Uuid} (clock : Clock) (i : Input) (hne : id ≠ k) :
    inputsOf id [.turned k clock i] = [] := by
  simp [inputsOf, Ne.symm hne]

end

section

variable {aead : Aead} {roomKey : Key} {roomName : String} {users : Uuid → Option String}
  {G : Guard Chat ChatLabel ChatEvent} {c : Config Chat ChatEvent}

/-- **The server's part of a run is a run of the room**, from any moment on. -/
theorem chat_run {c₀ : Config Chat ChatEvent}
    (h : (chat aead roomKey roomName users).Run G c₀ c) :
    room.Run free ⟨worldPast c₀.past, c₀.state.world⟩ ⟨worldPast c.past, c.state.world⟩ := by
  refine Machine.Run.invariant (P := fun c => room.Run free
    ⟨worldPast c₀.past, c₀.state.world⟩ ⟨worldPast c.past, c.state.world⟩) h .refl ?_
  intro c l s evs _ ih _ hs
  cases chatStep_inv hs with
  | serves l toServer w evs _ hstep =>
    rw [worldPast_append, worldPast_room]
    exact ih.tail (.mk l w evs trivial hstep)
  | joins | turns =>
    rw [worldPast_append]
    show room.Run free _ ⟨worldPast c.past ++ [], c.state.world⟩
    rw [List.append_nil]
    exact ih

theorem chat_room (h : (chat aead roomKey roomName users).Reach G c) :
    room.Reach free ⟨worldPast c.past, c.state.world⟩ := chat_run h

end

/-! ## The Welcome goes out once -/

/-- Nothing has gone out to the client yet. -/
def Mute : Option Phase → Prop
  | some (.live _ .snapshotting) | some (.live _ (.welcoming _)) | some (.live _ (.leaving _)) =>
    True
  | some (.live _ _) => False
  | _ => True

/-- The task is past the Welcome. -/
def Greeted : Option Phase → Prop
  | some (.live _ pc) => ¬ pc.Joining
  | some (.returned _) => True
  | _ => False

/-- A connection that is not about to be welcomed gets no Welcome with a step. -/
theorem welcomeOut_eq_nil {w : World} {id : Uuid} {l : Label}
    (h : ∀ name history, w.tasks id ≠ some (.live name (.welcoming history))) :
    welcomeOut w l id = [] := by
  unfold welcomeOut
  split
  · split
    · rename_i heq
      subst heq
      split
      · rename_i hat
        exact absurd hat (h _ _)
      · rfl
    · rfl
  · rfl

/-- A connection whose step it is not puts no Welcome on the wire. -/
theorem welcomeOut_other {w : World} {id : Uuid} {l : Label} (h : l.actor ≠ some id) :
    welcomeOut w l id = [] := by
  unfold welcomeOut
  split
  · split
    · rename_i heq
      subst heq
      exact absurd rfl h
    · rfl
  · rfl

/-- Nothing is delivered to a connection outside `pump`. -/
theorem deliveredTo_step {w w' : World} {l : Label} {evs : List Event} (h : Step w l w' evs)
    {id : Uuid} (hat : ∀ name, w.tasks id ≠ some (.live name .pumping)) :
    deliveredTo id evs = [] := by
  cases h with
  | delivers k name f o hat' =>
    refine deliveredTo_other f ?_
    rintro rfl
    exact hat _ hat'
  | _ => rfl

/-- A connection that was welcomed is never about to be welcomed again. -/
theorem Step.greeted {w w' : World} {l : Label} {evs : List Event} (h : Step w l w' evs) {id : Uuid}
    (hgreeted : Greeted (w.tasks id)) : Greeted (w'.tasks id) := by
  by_cases hactor : l.actor = some id
  swap
  · rw [h.tasks_other hactor]
    exact hgreeted
  have goes {u : World} {next : Phase} (hnext : Greeted (some next)) :
      Greeted ((u.goto id next).tasks id) := by
    rw [World.goto_tasks, Function.update_self]
    exact hnext
  cases h with
  | early l k phase hbefore _ _ hk =>
    cases hactor.symm.trans hk
    generalize w.tasks id = task at *
    cases task with
    | none => exact hgreeted.elim
    | some phase =>
      cases phase with
      | live => exact hbefore.elim
      | returned => exact hbefore.elim
      | _ => exact hgreeted.elim
  | register k _ hat =>
    cases hactor
    rw [hat] at hgreeted
    exact hgreeted.elim
  -- the snapshot leads to a Welcome, and is taken once
  | snapshot k _ hat =>
    cases hactor
    rw [hat] at hgreeted
    exact absurd trivial hgreeted
  | delivers => exact hgreeted
  | accepts =>
    cases hactor
    exact goes (not_joining_afterCheck _)
  | elapse | scan | sweep => cases hactor
  | leave =>
    cases hactor
    exact goes trivial
  | _ =>
    cases hactor
    exact goes not_false

/-- **Nothing goes out before the Welcome**, and after the step that sends it the task is past
it. -/
theorem Step.mute {w w' : World} {l : Label} {evs : List Event} (h : Step w l w' evs) {id : Uuid}
    (hmute : Mute (w.tasks id)) :
    deliveredTo id evs = []
      ∧ ((Mute (w'.tasks id) ∧ welcomeOut w l id = [])
        ∨ ∃ name history, w.tasks id = some (.live name (.welcoming history))
          ∧ welcomeOut w l id = [.welcome id history] ∧ Greeted (w'.tasks id)) := by
  have hpumping : ∀ name, w.tasks id ≠ some (.live name .pumping) := by
    intro name hat
    rw [hat] at hmute
    exact hmute
  refine ⟨deliveredTo_step h hpumping, ?_⟩
  by_cases hactor : l.actor = some id
  swap
  · rw [h.tasks_other hactor]
    exact .inl ⟨hmute, welcomeOut_other hactor⟩
  -- a step of the task that is not the one with the Welcome
  have goes {u : World} {before next : Phase} (hat : w.tasks id = some before)
      (hbefore : ∀ name history, before ≠ .live name (.welcoming history))
      (hnext : Mute (some next)) :
      Mute ((u.goto id next).tasks id) ∧ welcomeOut w l id = [] := by
    rw [World.goto_tasks, Function.update_self]
    refine ⟨hnext, welcomeOut_eq_nil fun name history heq => ?_⟩
    exact hbefore name history (Option.some.inj (hat.symm.trans heq))
  cases h with
  | early l k phase hbefore hafter _ hk =>
    cases hactor.symm.trans hk
    rw [World.goto_tasks, Function.update_self]
    refine .inl ⟨?_, welcomeOut_eq_nil fun name history heq => ?_⟩
    · rcases hafter with hafter | ⟨result, rfl⟩
      · cases phase with
        | live => exact hafter.elim
        | _ => trivial
      · trivial
    · rw [heq] at hbefore
      exact hbefore
  | register k name hat =>
    cases hactor
    exact .inl (goes hat (by simp) trivial)
  | snapshot k name hat =>
    cases hactor
    exact .inl (goes hat (by simp) trivial)
  | welcomed k name history hat =>
    cases hactor
    -- this is the step
    refine .inr ⟨name, history, hat, ?_, ?_⟩
    · simp only [welcomeOut, hat, if_true]
    · rw [World.goto_tasks, Function.update_self]
      exact not_false
  | unwelcomed k name history e hat =>
    cases hactor
    rw [World.goto_tasks, Function.update_self]
    -- the send failed, and the task is on its way out
    exact .inl ⟨trivial, rfl⟩
  | leave k name result hat =>
    cases hactor
    exact .inl (goes hat (by simp) trivial)
  | elapse | scan | sweep => cases hactor
  -- the rest happens after the Welcome
  | delivers k _ _ _ hat | stops k _ _ _ hat | undelivered k _ _ _ _ hat | incoming k _ _ hat
  | touch k _ _ hat | rejects k _ _ _ _ hat | accepts k _ _ _ _ hat | store k _ _ hat
  | collect k _ _ _ hat | enqueues k _ _ _ _ _ _ hat | refused k _ _ _ _ _ hat
  | evict k _ _ _ hat | cleanup k _ _ hat =>
    cases hactor
    rw [hat] at hmute
    exact hmute.elim

/-- A task past the Welcome sends none. -/
theorem welcomeOut_of_greeted {w : World} {id : Uuid} {l : Label} (h : Greeted (w.tasks id)) :
    welcomeOut w l id = [] := by
  apply welcomeOut_eq_nil
  intro name history hat
  rw [hat] at h
  exact h trivial

/-! ## One more turn -/

namespace Client

section

variable {aead : Aead} {roomKey : Key} {s s' : UiState} {inputs : List (Clock × Input)}

/-- One more turn of a loop that is still running. -/
theorem eventLoop_concat (h : Client.eventLoop aead roomKey s inputs = (none, s')) (clock : Clock)
    (i : Input) : Client.eventLoop aead roomKey s (inputs ++ [(clock, i)])
      = turn aead roomKey s' clock i := by
  induction inputs generalizing s with
  | nil =>
    cases h
    rw [List.nil_append, Client.eventLoop]
    split
    · rename_i heq
      exact heq.symm
    · rename_i heq
      exact heq.symm
  | cons x inputs ih =>
    obtain ⟨clock', i'⟩ := x
    rw [Client.eventLoop] at h
    rw [List.cons_append, Client.eventLoop]
    split at h
    · cases h
    · exact ih h

/-- What is noted along a loop, with one more turn. -/
theorem along_concat {α : Type} (log : UiState → Clock → Input → List α)
    (h : Client.eventLoop aead roomKey s inputs = (none, s')) (clock : Clock) (i : Input) :
    along aead roomKey log s (inputs ++ [(clock, i)])
      = along aead roomKey log s inputs ++ log s' clock i := by
  induction inputs generalizing s with
  | nil =>
    cases h
    rw [List.nil_append, along, along, List.nil_append]
    split
    · exact List.append_nil _
    · exact List.append_nil _
  | cons x inputs ih =>
    obtain ⟨clock', i'⟩ := x
    rw [Client.eventLoop] at h
    rw [List.cons_append, along, along, List.append_assoc]
    split at h
    · cases h
    · rw [ih h]

end

end Client

/-! ## What a receive takes -/

/-- Only `pump` takes a frame in. -/
theorem incoming_of_step {w w' : World} {id : Uuid} {f : ClientFrame} {evs : List Event}
    (hs : step w (.act id (.incoming (some (.ok f)))) = some (w', evs)) :
    evs = [.incoming id f] := by
  simp only [step] at hs
  split at hs
  · rename_i phase hat
    cases phase with
    | live name pc =>
      cases pc with
      | pumping =>
        cases hs
        rfl
      | sending g rest dead => cases rest <;> cases hs
      | _ => cases hs
    | _ => cases hs
  · cases hs

/-- A connection registers with a Hello, and under the name in it. -/
theorem handshakeStep_registering {phase : Phase} {a : Act} {name : String}
    (h : handshakeStep phase a = some (.registering name)) :
    a = .recvHello (.ok (.hello name)) := by
  unfold handshakeStep at h
  split at h
  case h_1 => split at h <;> cases h
  case h_8 =>
    split at h
    · cases h
    · cases h
      rfl
  all_goals cases h

/-- A name that is to be registered was read in this step or before. -/
theorem step_registering {w w' : World} {id : Uuid} {l : Label} {name : String} {evs : List Event}
    (hs : step w l = some (w', evs)) (hat : w'.tasks id = some (.registering name)) :
    w.tasks id = some (.registering name) ∨ l = .act id (.recvHello (.ok (.hello name))) := by
  have hstep := step_inv hs
  by_cases hactor : l.actor = some id
  swap
  · rw [hstep.tasks_other hactor] at hat
    exact .inl hat
  have hnew : Unregistered (w.tasks id) := hstep.unregistered (by rw [hat]; trivial)
  cases l with
  | accept k admitted =>
    cases hactor
    simp only [step] at hs
    split at hs
    · cases hs
    · split at hs <;> (cases hs; rw [World.goto_tasks, Function.update_self] at hat; cases hat)
  | act k a =>
    cases hactor
    simp only [step] at hs
    split at hs
    · rename_i phase hphase
      rw [hphase] at hnew
      unfold actStep at hs
      split at hs
      · cases hs
        rw [World.goto_tasks, Function.update_self] at hat
        cases hat
      · exact hnew.elim
      · rw [Option.map_eq_some_iff] at hs
        obtain ⟨next, hnext, heq⟩ := hs
        cases heq
        rw [World.goto_tasks, Function.update_self, Option.some.injEq] at hat
        subst hat
        rw [handshakeStep_registering hnext]
        exact .inr rfl
    · cases hs
  | elapse | scan | sweep => cases hactor

section

variable {users : Uuid → Option String} {c : Chat} {l : Label}
  {toServer : Uuid → List ClientFrame} {id : Uuid} {username : String}

/-- **The server reads what the client wrote**, or leaves it. -/
theorem incomingFrom_unread (huser : users id = some username)
    (hunread : unread users c l = some toServer) {w w' : World} {evs : List Event}
    (hs : step w l = some (w', evs)) : incomingFrom id evs ++ toServer id = c.toServer id := by
  -- a step that takes in no frame
  have leaves (hother : ∀ k f, l ≠ .act k (.incoming (some (.ok f))))
      (hsame : toServer = c.toServer) : incomingFrom id evs ++ toServer id = c.toServer id := by
    rw [hsame]
    cases step_inv hs with
    | incoming k name f hat => exact absurd rfl (hother k f)
    | _ => rfl
  unfold unread at hunread
  split at hunread
  · refine leaves (fun k f heq => ?_) ?_
    · cases heq
    · split at hunread
      · cases hunread
        rfl
      · split at hunread <;> cases hunread
        rfl
  · rename_i k f
    obtain rfl := incoming_of_step hs
    split at hunread
    · rename_i hk
      cases hunread
      have hne : id ≠ k := by
        rintro rfl
        rw [huser] at hk
        cases hk
      rw [incomingFrom_other f hne, List.nil_append]
    · cases hunread
    · rename_i g rest _ hqueue
      split at hunread <;> cases hunread
      rename_i heq
      subst heq
      rcases eq_or_ne id k with rfl | hne
      · rw [incomingFrom_self, Function.update_self, hqueue]
        rfl
      · rw [incomingFrom_other _ hne, Function.update_of_ne hne, List.nil_append]
  · rename_i hhello hother
    cases hunread
    exact leaves hother rfl

end

/-! ## The client and its connection -/

section

variable (aead : Aead) (roomKey : Key) (roomName : String)

/-- The client of `id` has not read its Welcome, and the server has read nothing of it. -/
structure Untouched (c : Config Chat ChatEvent) (id : Uuid) : Prop where
  client : c.state.client id = .waiting
  histories : histories id c.past = []
  inputs : inputsOf id c.past = []
  toServer : c.state.toServer id = []
  incoming : incomingFrom id (worldPast c.past) = []

/-- A client in its loop, welcomed with a history that the server took, and what lies between the
two. -/
structure Talking (c : Config Chat ChatEvent) (id : Uuid) (username : String)
    (history : List Received) : Prop where
  histories : histories id c.past = [history]
  snapshotted : .snapshotted id (history.map Prod.snd) ∈ worldPast c.past
  greeted : Greeted (c.state.world.tasks id)
  loop : c.state.client id = .after (Client.eventLoop aead roomKey
    (welcomed aead roomKey username id roomName history) (inputsOf id c.past))
  sent : incomingFrom id (worldPast c.past) ++ c.state.toServer id <+: produced aead roomKey
    (welcomed aead roomKey username id roomName history) (inputsOf id c.past)
  allSent : ∀ ui, c.state.client id = .running ui →
    incomingFrom id (worldPast c.past) ++ c.state.toServer id = produced aead roomKey
      (welcomed aead roomKey username id roomName history) (inputsOf id c.past)
  heard : (heard aead roomKey (welcomed aead roomKey username id roomName history)
      (inputsOf id c.past)).map Prod.snd ++ c.state.toClient id
    = deliveredTo id (worldPast c.past)

/-- Where a client and its connection stand together. -/
inductive Connected (c : Config Chat ChatEvent) (id : Uuid) (username : String) : Prop
  | outside (huntouched : Untouched c id) (hmute : Mute (c.state.world.tasks id))
      (hqueue : c.state.toClient id = []) (hdelivered : deliveredTo id (worldPast c.past) = [])
  | welcomed (history : List RoomMessage) (huntouched : Untouched c id)
      (hsnapshotted : .snapshotted id history ∈ worldPast c.past)
      (hgreeted : Greeted (c.state.world.tasks id))
      (hqueue : c.state.toClient id = .welcome id history :: deliveredTo id (worldPast c.past))
  | talking (history : List Received)
      (htalking : Talking aead roomKey roomName c id username history)

variable {aead roomKey roomName}

theorem clocked_map_snd (clocks : Nat → Clock) (history : List RoomMessage) :
    (clocked clocks history).map Prod.snd = history := by
  rw [clocked, List.map_map]
  exact List.zipIdx_map_fst 0 history

variable {users : Uuid → Option String} {G : Guard Chat ChatLabel ChatEvent}
  {c : Config Chat ChatEvent} {id : Uuid} {username : String}

/-- **A client registers under its own name.** -/
theorem named (h : (chat aead roomKey roomName users).Reach G c)
    (huser : users id = some username) :
    (∀ name, c.state.world.tasks id = some (.registering name) → name = username)
      ∧ ∀ name, .registered id name ∈ worldPast c.past → name = username := by
  refine Machine.Reach.invariant (P := fun c =>
    (∀ name, c.state.world.tasks id = some (.registering name) → name = username)
      ∧ ∀ name, .registered id name ∈ worldPast c.past → name = username) ?_ ?_ h
  · constructor
    · intro name hat
      cases hat
    · intro name hmem
      cases hmem
  intro c l s evs _ ih _ hs
  obtain ⟨hregistering, hregistered⟩ := ih
  cases chatStep_inv hs with
  | serves l toServer w evs hunread hstep =>
    refine ⟨fun name hat => ?_, fun name hmem => ?_⟩
    · -- it comes from the Hello, and its client sends its own name there
      rcases step_registering hstep hat with hbefore | rfl
      · exact hregistering name hbefore
      · simp only [unread, huser] at hunread
        split at hunread
        · rename_i heq
          exact ClientFrame.hello.inj heq
        · cases hunread
    · rw [worldPast_append, worldPast_room, List.mem_append] at hmem
      rcases hmem with hpast | hnew
      · exact hregistered name hpast
      · cases step_inv hstep with
        | register k n hat =>
          cases List.mem_singleton.mp hnew
          exact hregistering _ hat
        | snapshot | delivers | incoming | accepts | store | enqueues =>
          cases List.mem_singleton.mp hnew
        | _ => cases hnew
  | joins | turns =>
    refine ⟨hregistering, fun name hmem => hregistered name ?_⟩
    rw [worldPast_append, List.mem_append] at hmem
    exact hmem.resolve_right List.not_mem_nil

/-- The server takes a step. -/
theorem connected_serves {l : Label} {toServer : Uuid → List ClientFrame} {w : World}
    {evs : List Event} (huser : users id = some username)
    (hroom : room.Reach free ⟨worldPast c.past, c.state.world⟩)
    (h : Connected aead roomKey roomName c id username)
    (hunread : unread users c.state l = some toServer)
    (hs : step c.state.world l = some (w, evs)) :
    Connected aead roomKey roomName ⟨c.past ++ evs.map .room,
      { c.state with
        world := w
        toServer := toServer
        toClient := fun k =>
          c.state.toClient k ++ welcomeOut c.state.world l k ++ deliveredTo k evs }⟩
      id username := by
  have hstep := step_inv hs
  have hread := incomingFrom_unread huser hunread hs
  -- a client that has not joined reads nothing, and the server reads nothing of it
  have untouched (h : Untouched c id) : Untouched ⟨c.past ++ evs.map .room,
      { c.state with
        world := w
        toServer := toServer
        toClient := fun k =>
          c.state.toClient k ++ welcomeOut c.state.world l k ++ deliveredTo k evs }⟩ id := by
    rw [h.toServer, List.append_eq_nil_iff] at hread
    refine ⟨h.client, ?_, ?_, hread.2, ?_⟩
    · rw [histories_append, histories_room, h.histories, List.append_nil]
    · rw [inputsOf_append, inputsOf_room, h.inputs, List.append_nil]
    · rw [worldPast_append, worldPast_room, incomingFrom_append, h.incoming, hread.1,
        List.append_nil]
  cases h with
  | outside huntouched hmute hqueue hdelivered =>
    obtain ⟨hnone, hnext⟩ := hstep.mute hmute
    have hdelivered' : deliveredTo id (worldPast (c.past ++ evs.map .room)) = [] := by
      rw [worldPast_append, worldPast_room, deliveredTo_append, hdelivered, hnone,
        List.append_nil]
    -- before the Welcome: this step either sends it, or leaves the client without one
    rcases hnext with ⟨hmute', hwelcome⟩ | ⟨name, history, hat, hwelcome, hgreeted⟩
    · refine .outside (untouched huntouched) hmute' ?_ hdelivered'
      show c.state.toClient id ++ welcomeOut c.state.world l id ++ deliveredTo id evs = []
      rw [hqueue, hwelcome, hnone]
      rfl
    · refine .welcomed history (untouched huntouched) ?_ hgreeted ?_
      · rw [worldPast_append]
        exact List.mem_append_left _ (standing hroom id _ hat).2
      · show c.state.toClient id ++ welcomeOut c.state.world l id ++ deliveredTo id evs = _
        rw [hqueue, hwelcome, hnone, hdelivered']
        rfl
  -- the Welcome is on its way, and what is delivered queues up behind it
  | welcomed history huntouched hsnapshotted hgreeted hqueue =>
    refine .welcomed history (untouched huntouched) ?_ (hstep.greeted hgreeted) ?_
    · rw [worldPast_append]
      exact List.mem_append_left _ hsnapshotted
    · show c.state.toClient id ++ welcomeOut c.state.world l id ++ deliveredTo id evs = _
      rw [hqueue, welcomeOut_of_greeted hgreeted, List.append_nil, worldPast_append,
        worldPast_room, deliveredTo_append]
      rfl
  -- the loop runs: its inputs are as they were, only the two queues move
  | talking history h =>
    have hinputs : inputsOf id (c.past ++ evs.map .room) = inputsOf id c.past := by
      rw [inputsOf_append, inputsOf_room, List.append_nil]
    have hsent : incomingFrom id (worldPast (c.past ++ evs.map .room)) ++ toServer id
        = incomingFrom id (worldPast c.past) ++ c.state.toServer id := by
      rw [worldPast_append, worldPast_room, incomingFrom_append, List.append_assoc, hread]
    refine .talking history ⟨?_, ?_, hstep.greeted h.greeted, ?_, ?_, fun ui hui => ?_, ?_⟩
    · rw [histories_append, histories_room, h.histories, List.append_nil]
    · rw [worldPast_append]
      exact List.mem_append_left _ h.snapshotted
    · rw [hinputs]
      exact h.loop
    · rw [hinputs, hsent]
      exact h.sent
    · rw [hinputs, hsent]
      exact h.allSent ui hui
    · rw [hinputs]
      show _ ++ (c.state.toClient id ++ welcomeOut c.state.world l id ++ deliveredTo id evs) = _
      rw [welcomeOut_of_greeted h.greeted, List.append_nil, ← List.append_assoc, h.heard,
        worldPast_append, worldPast_room, deliveredTo_append]

/-- Others' steps do not concern a client. -/
theorem Connected.frame (h : Connected aead roomKey roomName c id username) {s : Chat}
    {evs : List ChatEvent} (hworld : s.world = c.state.world)
    (hclient : s.client id = c.state.client id) (hserver : s.toServer id = c.state.toServer id)
    (hqueue : s.toClient id = c.state.toClient id) (hhistories : histories id evs = [])
    (hinputs : inputsOf id evs = []) (hpast : worldPast evs = []) :
    Connected aead roomKey roomName ⟨c.past ++ evs, s⟩ id username := by
  have hserverPast : worldPast (c.past ++ evs) = worldPast c.past := by
    rw [worldPast_append, hpast, List.append_nil]
  have hhistories' : histories id (c.past ++ evs) = histories id c.past := by
    rw [histories_append, hhistories, List.append_nil]
  have hinputs' : inputsOf id (c.past ++ evs) = inputsOf id c.past := by
    rw [inputsOf_append, hinputs, List.append_nil]
  -- every clause reads the client's own part of the state
  have untouched (h : Untouched c id) : Untouched ⟨c.past ++ evs, s⟩ id :=
    ⟨hclient.trans h.client, hhistories'.trans h.histories, hinputs'.trans h.inputs,
      hserver.trans h.toServer, (congrArg _ hserverPast).trans h.incoming⟩
  cases h with
  | outside huntouched hmute hqueue' hdelivered =>
    refine .outside (untouched huntouched) ?_ (hqueue.trans hqueue') ?_
    · rw [hworld]
      exact hmute
    · rw [hserverPast]
      exact hdelivered
  | welcomed history huntouched hsnapshotted hgreeted hqueue' =>
    refine .welcomed history (untouched huntouched) ?_ ?_ ?_
    · rw [hserverPast]
      exact hsnapshotted
    · rw [hworld]
      exact hgreeted
    · rw [hserverPast]
      exact hqueue.trans hqueue'
  | talking history h =>
    refine .talking history ⟨hhistories'.trans h.histories, ?_, ?_, ?_, ?_, fun ui hui => ?_, ?_⟩
    · rw [hserverPast]
      exact h.snapshotted
    · rw [hworld]
      exact h.greeted
    · rw [hinputs']
      exact hclient.trans h.loop
    · rw [hserverPast, hinputs', hserver]
      exact h.sent
    · rw [hserverPast, hinputs', hserver]
      exact h.allSent ui (hclient.symm.trans hui)
    · rw [hserverPast, hinputs', hqueue]
      exact h.heard

theorem Seat.after_ne_waiting (x : Option (Result Unit) × UiState) : Seat.after x ≠ .waiting := by
  obtain ⟨result, ui⟩ := x
  cases result with
  | none => exact fun h => by cases h
  | some result => exact fun h => by cases h

/-- A client goes on if its turn did not end the loop. -/
theorem Seat.after_eq_running {x : Option (Result Unit) × UiState} {ui : UiState}
    (h : Seat.after x = .running ui) : x = (none, ui) := by
  obtain ⟨result, s⟩ := x
  cases result with
  | none =>
    cases h
    rfl
  | some result => cases h

/-- The client reads its Welcome. -/
theorem connected_joins {clocks : Nat → Clock} {userId : Uuid} {history : List RoomMessage}
    {rest : List ServerFrame} (h : Connected aead roomKey roomName c id username)
    (hclient : c.state.client id = .waiting)
    (hqueue : c.state.toClient id = .welcome userId history :: rest) :
    Connected aead roomKey roomName ⟨c.past ++ [.joined id (clocked clocks history)],
      { c.state with
        client := Function.update c.state.client id (.running
          (Client.welcomed aead roomKey username userId roomName (clocked clocks history)))
        toClient := Function.update c.state.toClient id rest }⟩ id username := by
  have hserverPast : worldPast (c.past ++ [.joined id (clocked clocks history)])
      = worldPast c.past := by
    rw [worldPast_append]
    exact List.append_nil _
  cases h with
  | outside _ _ hnone =>
    rw [hnone] at hqueue
    cases hqueue
  -- the Welcome that waits is the one it reads
  | welcomed history' huntouched hsnapshotted hgreeted hqueue' =>
    obtain ⟨hwelcome, rfl⟩ := List.cons.inj (hqueue.symm.trans hqueue')
    obtain ⟨rfl, rfl⟩ := ServerFrame.welcome.inj hwelcome
    have hinputs : inputsOf userId (c.past ++ [.joined userId (clocked clocks history)]) = [] := by
      rw [inputsOf_append, huntouched.inputs]
      rfl
    have hsent : incomingFrom userId (worldPast c.past) ++ c.state.toServer userId = [] := by
      rw [huntouched.incoming, huntouched.toServer]
      rfl
    -- nothing has been said yet on either side
    refine .talking (clocked clocks history) ⟨?_, ?_, hgreeted, ?_, ?_, fun ui hui => ?_, ?_⟩
    · rw [histories_append, huntouched.histories]
      exact histories_self ..
    · rw [hserverPast, clocked_map_snd]
      exact hsnapshotted
    · rw [hinputs]
      exact Function.update_self ..
    · rw [hserverPast, hinputs, hsent]
      exact List.nil_prefix
    · rw [hserverPast, hinputs, hsent]
      rfl
    · rw [hserverPast, hinputs]
      show [] ++ Function.update c.state.toClient userId _ userId = _
      rw [Function.update_self]
      rfl
  | talking _ h =>
    rw [h.loop] at hclient
    exact absurd hclient (Seat.after_ne_waiting _)

/-- What a turn hears and what it leaves are what was there. -/
theorem heardIn_unheard {queue rest : List ServerFrame} {i : Input}
    (h : unheard queue i = some rest) (clock : Clock) :
    (heardIn clock i).map Prod.snd ++ rest = queue := by
  unfold unheard at h
  split at h
  · split at h
    · cases h
    · split at h <;> cases h
      rename_i heq
      rw [heq]
      rfl
  · rename_i hother
    cases h
    rw [(quiet_turn (UiState.new "" (List.Vector.replicate 16 0) "") clock i fun f hf =>
      hother f hf).1]
    rfl

/-- What gets onto the wire is a beginning of what a turn produced: a failing send ends the turn. -/
theorem written_begins (ui : UiState) (clock : Clock) (i : Input) :
    written aead roomKey ui clock i <+: producedIn aead roomKey ui clock i := by
  unfold written
  split
  · exact List.prefix_rfl
  · exact List.nil_prefix

/-- The client takes a turn. -/
theorem connected_turns {clock : Clock} {i : Input} {ui : UiState} {rest : List ServerFrame}
    (h : Connected aead roomKey roomName c id username)
    (hclient : c.state.client id = .running ui)
    (hqueue : unheard (c.state.toClient id) i = some rest) :
    Connected aead roomKey roomName ⟨c.past ++ [.turned id clock i],
      { c.state with
        client := Function.update c.state.client id (.after (turn aead roomKey ui clock i))
        toServer := Function.update c.state.toServer id
          (c.state.toServer id ++ written aead roomKey ui clock i)
        toClient := Function.update c.state.toClient id rest }⟩ id username := by
  cases h with
  -- without the Welcome there is no loop to take a turn
  | outside huntouched | welcomed _ huntouched =>
    rw [huntouched.client] at hclient
    cases hclient
  | talking history h =>
    have hloop := Seat.after_eq_running (h.loop.symm.trans hclient)
    have hserverPast : worldPast (c.past ++ [.turned id clock i]) = worldPast c.past := by
      rw [worldPast_append]
      exact List.append_nil _
    have hinputs : inputsOf id (c.past ++ [.turned id clock i])
        = inputsOf id c.past ++ [(clock, i)] := by
      rw [inputsOf_append, inputsOf_self]
    -- a turn adds what it produced, of which the write may have carried a part only
    have hproduced := along_concat (producedIn aead roomKey) hloop clock i
    have hsent : incomingFrom id (worldPast c.past)
          ++ Function.update c.state.toServer id
            (c.state.toServer id ++ written aead roomKey ui clock i) id
        = produced aead roomKey (Client.welcomed aead roomKey username id roomName history)
            (inputsOf id c.past) ++ written aead roomKey ui clock i := by
      rw [Function.update_self, ← List.append_assoc, h.allSent ui hclient]
    refine .talking history ⟨?_, ?_, h.greeted, ?_, ?_, fun ui' hui => ?_, ?_⟩
    · rw [histories_append, h.histories]
      rfl
    · rw [hserverPast]
      exact h.snapshotted
    · rw [hinputs, eventLoop_concat hloop]
      exact Function.update_self ..
    · rw [hserverPast, hinputs, hsent]
      unfold produced
      rw [hproduced]
      exact List.prefix_append_right_inj _ |>.mpr (written_begins ui clock i)
    · -- a loop that goes on has written all of it
      replace hui : Seat.after (turn aead roomKey ui clock i) = .running ui' :=
        (Function.update_self ..).symm.trans hui
      have hall : written aead roomKey ui clock i = producedIn aead roomKey ui clock i := by
        rw [written, Seat.after_eq_running hui]
      rw [hserverPast, hinputs, hsent, hall]
      unfold produced
      rw [hproduced]
    · -- what it heard moves from the queue to its inputs
      rw [hserverPast, hinputs]
      unfold heard
      rw [along_concat _ hloop, List.map_append, List.append_assoc]
      show _ ++ (_ ++ Function.update c.state.toClient id rest id) = _
      rw [Function.update_self, heardIn_unheard hqueue]
      exact h.heard

/-- **Along every run each client and its connection stand together.** -/
theorem connected (h : (chat aead roomKey roomName users).Reach G c)
    (huser : users id = some username) : Connected aead roomKey roomName c id username := by
  refine Machine.Reach.invariant
    (P := fun c => Connected aead roomKey roomName c id username) ?_ ?_ h
  · exact .outside ⟨rfl, rfl, rfl, rfl, rfl⟩ trivial rfl rfl
  intro c l s evs hreach ih _ hs
  cases chatStep_inv hs with
  | serves l toServer w evs hunread hstep =>
    exact connected_serves huser (chat_room hreach) ih hunread hstep
  | joins k clocks name userId history rest hname hclient hqueue =>
    rcases eq_or_ne id k with rfl | hne
    · cases huser.symm.trans hname
      exact connected_joins ih hclient hqueue
    · refine ih.frame rfl ?_ rfl ?_ ?_ rfl rfl
      · exact Function.update_of_ne hne ..
      · exact Function.update_of_ne hne ..
      · exact histories_other _ _ hne
  | turns k clock i ui rest hclient hqueue =>
    rcases eq_or_ne id k with rfl | hne
    · exact connected_turns ih hclient hqueue
    · refine ih.frame rfl ?_ ?_ ?_ rfl ?_ rfl
      · exact Function.update_of_ne hne ..
      · exact Function.update_of_ne hne ..
      · exact Function.update_of_ne hne ..
      · exact inputsOf_other _ _ _ hne

end

end ChatRs

import ChatRs.Server.Room

/-!
# The frames in flight

An abstraction of the room that forgets everything but the frames on their way. Each session
has at most one: it is accepted, stored in the history (unless it is an ephemeral message),
offered to the peers of one snapshot, and done. `Flow` is the step relation of this
abstraction, and `Step.flow` says that every step of the room is one of its steps.

What holds over runs is then stated on streams of frames, sender by sender:

* **`stream_to_peer`**: what a peer is sent of a sender is part of what was accepted of it, in
  that order;
* **`stream_to_history`**: what is stored of a sender, with what is about to be, is all that was
  accepted of it but the ephemeral messages;
* **`history_window`**: the history is the window on what was stored.
-/

namespace ChatRs

/-- The session a relayed frame comes from. -/
def ServerFrame.origin : ServerFrame → Option Uuid
  | .message m => some m.fromId
  | .cleared by_ _ => some by_
  | _ => none

/-- Frames that change the history: all but the ephemeral messages. -/
def ServerFrame.lasting : ServerFrame → Bool
  | .message m => ! m.ad.ephemeral
  | _ => true

/-- The frames that come from one session. -/
def byOrigin (id : Uuid) (fs : List ServerFrame) : List ServerFrame :=
  fs.filter fun f => f.origin = some id

/-- The frames that change the history: clears, and messages that are not ephemeral. -/
def lastingOf (fs : List ServerFrame) : List ServerFrame := fs.filter ServerFrame.lasting

@[simp] theorem lastingOf_append (fs gs : List ServerFrame) :
    lastingOf (fs ++ gs) = lastingOf fs ++ lastingOf gs := List.filter_append ..

@[simp] theorem lastingOf_nil : lastingOf [] = [] := rfl

theorem lastingOf_self {f : ServerFrame} (h : f.lasting = true) : lastingOf [f] = [f] :=
  List.filter_cons_of_pos h

theorem lastingOf_other {f : ServerFrame} (h : ¬ f.lasting = true) : lastingOf [f] = [] :=
  List.filter_cons_of_neg h

/-- Who sent a frame and whether it lasts are looked at independently. -/
theorem byOrigin_lastingOf (id : Uuid) (fs : List ServerFrame) :
    byOrigin id (lastingOf fs) = lastingOf (byOrigin id fs) := by
  rw [byOrigin, lastingOf, byOrigin, lastingOf, List.filter_comm]

/-! ## Streams of a run -/

def acceptedIn (past : List Event) : List ServerFrame :=
  past.filterMap fun e => match e with
    | .accepted f => some f
    | _ => none

def storedIn (past : List Event) : List ServerFrame :=
  past.filterMap fun e => match e with
    | .stored f => some f
    | _ => none

def enqueuedTo (peer : Uuid) (past : List Event) : List ServerFrame :=
  past.filterMap fun e => match e with
    | .enqueued p f => if p = peer then some f else none
    | _ => none

def deliveredTo (peer : Uuid) (past : List Event) : List ServerFrame :=
  past.filterMap fun e => match e with
    | .delivered p f => if p = peer then some f else none
    | _ => none

section

variable (past evs : List Event) (id peer : Uuid) (f : ServerFrame)

@[simp] theorem acceptedIn_append :
    acceptedIn (past ++ evs) = acceptedIn past ++ acceptedIn evs := List.filterMap_append

@[simp] theorem storedIn_append :
    storedIn (past ++ evs) = storedIn past ++ storedIn evs := List.filterMap_append

@[simp] theorem enqueuedTo_append :
    enqueuedTo peer (past ++ evs) = enqueuedTo peer past ++ enqueuedTo peer evs :=
  List.filterMap_append

@[simp] theorem deliveredTo_append :
    deliveredTo peer (past ++ evs) = deliveredTo peer past ++ deliveredTo peer evs :=
  List.filterMap_append

@[simp] theorem byOrigin_append (fs gs : List ServerFrame) :
    byOrigin id (fs ++ gs) = byOrigin id fs ++ byOrigin id gs := List.filter_append ..

@[simp] theorem byOrigin_nil : byOrigin id [] = [] := rfl

theorem byOrigin_self (h : f.origin = some id) : byOrigin id [f] = [f] := by
  simp [byOrigin, h]

theorem byOrigin_other {id k : Uuid} (h : f.origin = some id) (hne : k ≠ id) :
    byOrigin k [f] = [] := by
  simp [byOrigin, h, Ne.symm hne]

/-! What a single event adds to each stream. -/

@[simp] theorem acceptedIn_accepted : acceptedIn [.accepted f] = [f] := rfl

@[simp] theorem acceptedIn_stored : acceptedIn [.stored f] = [] := rfl

@[simp] theorem acceptedIn_enqueued : acceptedIn [.enqueued peer f] = [] := rfl

@[simp] theorem storedIn_accepted : storedIn [.accepted f] = [] := rfl

@[simp] theorem storedIn_stored : storedIn [.stored f] = [f] := rfl

@[simp] theorem storedIn_enqueued : storedIn [.enqueued peer f] = [] := rfl

@[simp] theorem enqueuedTo_accepted : enqueuedTo peer [.accepted f] = [] := rfl

@[simp] theorem enqueuedTo_stored : enqueuedTo peer [.stored f] = [] := rfl

@[simp] theorem enqueuedTo_delivered : enqueuedTo peer [.delivered id f] = [] := rfl

@[simp] theorem enqueuedTo_self : enqueuedTo peer [.enqueued peer f] = [f] := by
  simp [enqueuedTo]

theorem enqueuedTo_other {peer k : Uuid} (hne : k ≠ peer) :
    enqueuedTo k [.enqueued peer f] = [] := by
  simp [enqueuedTo, Ne.symm hne]

@[simp] theorem deliveredTo_self : deliveredTo peer [.delivered peer f] = [f] := by
  simp [deliveredTo]

theorem deliveredTo_other {peer k : Uuid} (hne : k ≠ peer) :
    deliveredTo k [.delivered peer f] = [] := by
  simp [deliveredTo, Ne.symm hne]

end

/-! ## Flights -/

/-- The frame a session has in flight, and what is still to be done with it. -/
inductive Flight where
  | idle
  | storing (f : ServerFrame)
  | collecting (f : ServerFrame)
  | sending (f : ServerFrame) (rest : List Uuid)

namespace Flight

def frames : Flight → List ServerFrame
  | idle => []
  | storing f => [f]
  | collecting f => [f]
  | sending f _ => [f]

/-- What is still to be offered to `peer`, as far as the peers are known. -/
def pending (peer : Uuid) : Flight → List ServerFrame
  | idle => []
  | storing f => [f]
  | collecting f => [f]
  | sending f rest => if peer ∈ rest then [f] else []

/-- What a broadcast that has taken its snapshot is still to offer to `peer`. -/
def offering (peer : Uuid) : Flight → List ServerFrame
  | sending f rest => if peer ∈ rest then [f] else []
  | _ => []

/-- What has been stored of the frame in flight and is still to be offered to `peer`. -/
def due (peer : Uuid) : Flight → List ServerFrame
  | collecting f => lastingOf [f]
  | sending f rest => if peer ∈ rest then lastingOf [f] else []
  | _ => []

/-- What is still to be stored. -/
def toStore : Flight → List ServerFrame
  | storing f => [f]
  | _ => []

/-- Where the flight of a frame starts. -/
def start (f : ServerFrame) : Flight := if f.lasting then storing f else collecting f

@[simp] theorem pending_idle (peer : Uuid) : idle.pending peer = [] := rfl

@[simp] theorem toStore_idle : idle.toStore = [] := rfl

/-- A task that has nothing in flight does not broadcast. -/
theorem idle_of_frames {flight : Flight} (h : flight.frames = []) : flight = .idle := by
  cases flight with
  | idle => rfl
  | storing | collecting | sending => cases h

@[simp] theorem frames_start (f : ServerFrame) : (start f).frames = [f] := by
  unfold start
  split <;> rfl

@[simp] theorem pending_start (peer : Uuid) (f : ServerFrame) :
    (start f).pending peer = [f] := by
  unfold start
  split <;> rfl

@[simp] theorem offering_start (peer : Uuid) (f : ServerFrame) : (start f).offering peer = [] := by
  unfold start
  split <;> rfl

/-- The offer to another peer. -/
theorem offering_tail {id peer : Uuid} (f : ServerFrame) (rest : List Uuid) (hne : id ≠ peer) :
    (sending f rest).offering id = (sending f (peer :: rest)).offering id := by
  simp [offering, hne]

/-- At the start of a broadcast nothing has to be sent to anybody yet: the peers are still to be
looked up. -/
theorem due_start (peer : Uuid) (f : ServerFrame) : (start f).due peer = [] := by
  unfold start
  split
  · rfl
  · rename_i hf
    exact lastingOf_other hf

/-- The offer to another peer. -/
theorem due_tail {id peer : Uuid} (f : ServerFrame) (rest : List Uuid) (hne : id ≠ peer) :
    (sending f rest).due id = (sending f (peer :: rest)).due id := by
  simp [due, hne]

theorem toStore_start (f : ServerFrame) : (start f).toStore = [f].filter ServerFrame.lasting := by
  unfold start
  cases h : f.lasting <;> simp [toStore, h]

end Flight

def Pc.flight : Pc → Flight
  | .storing f => .storing f
  | .collecting f => .collecting f
  | .sending f rest _ => .sending f rest
  | _ => .idle

def Phase.flight : Phase → Flight
  | .live _ pc => pc.flight
  | _ => .idle

namespace World

def flight (w : World) (id : Uuid) : Flight :=
  match w.tasks id with
  | some phase => phase.flight
  | none => .idle

theorem flight_of_at {w : World} {id : Uuid} {phase : Phase} (h : w.tasks id = some phase) :
    w.flight id = phase.flight := by
  rw [flight, h]

/-- A task that goes on changes its own flight and nobody else's. -/
@[simp] theorem flight_goto (w : World) (id : Uuid) (phase : Phase) :
    (w.goto id phase).flight = Function.update w.flight id phase.flight := by
  funext k
  rcases eq_or_ne k id with rfl | hne
  · rw [Function.update_self]
    exact flight_of_at (by rw [goto_tasks, Function.update_self])
  · rw [Function.update_of_ne hne, flight, goto_tasks, Function.update_of_ne hne, flight]

/-- The flights after a step of one task. -/
theorem flight_move {u w : World} {id : Uuid} {phase : Phase} (hu : u.tasks = w.tasks) :
    (u.goto id phase).flight = Function.update w.flight id phase.flight := by
  have hflight : u.flight = w.flight := by
    funext k
    rw [flight, flight, hu]
  rw [flight_goto, hflight]

/-- A step between two phases without a flight. -/
theorem flight_goto_idle {w : World} {id : Uuid} {phase : Phase} (h : w.flight id = .idle)
    (hphase : phase.flight = .idle) : (w.goto id phase).flight = w.flight := by
  rw [flight_goto, hphase, ← h, Function.update_eq_self]

end World

/-- Behind its checks a frame starts on its way, whether it is stored first or not. -/
theorem flight_afterCheck {f : ServerFrame} : (afterCheck f).flight = .start f := by
  unfold afterCheck Flight.start ServerFrame.lasting
  cases f with
  | message m => cases h : m.ad.ephemeral <;> simp [h, Pc.flight]
  | hello | welcome | cleared | error => rfl

/-- The peers a broadcast has not reached and will evict at its end. -/
def Pc.dead : Pc → List Uuid
  | .sending _ _ dead => dead
  | _ => []

def Phase.dead : Phase → List Uuid
  | .live _ pc => pc.dead
  | _ => []

namespace World

def dead (w : World) (id : Uuid) : List Uuid :=
  match w.tasks id with
  | some phase => phase.dead
  | none => []

theorem dead_of_at {w : World} {id : Uuid} {phase : Phase} (h : w.tasks id = some phase) :
    w.dead id = phase.dead := by
  rw [dead, h]

theorem dead_goto_self (w : World) (id : Uuid) (phase : Phase) :
    (w.goto id phase).dead id = phase.dead :=
  dead_of_at (Function.update_self ..)

theorem dead_goto_of_ne (w : World) {id k : Uuid} (phase : Phase) (h : k ≠ id) :
    (w.goto id phase).dead k = w.dead k := by
  rw [dead, dead, goto_tasks, Function.update_of_ne h]

end World

/-- What a step does to the frames in flight. -/
inductive Flow (w w' : World) : List Event → Prop
  | quiet (evs : List Event) (hflight : w'.flight = w.flight) (haccepted : acceptedIn evs = [])
      (hstored : storedIn evs = []) (henqueued : ∀ peer, enqueuedTo peer evs = []) :
      Flow w w' evs
  | accepts (id : Uuid) (f : ServerFrame) (hat : w.flight id = .idle)
      (horigin : f.origin = some id)
      (hflight : w'.flight = Function.update w.flight id (.start f)) :
      Flow w w' [.accepted f]
  | stores (id : Uuid) (f : ServerFrame) (hat : w.flight id = .storing f)
      (hflight : w'.flight = Function.update w.flight id (.collecting f)) :
      Flow w w' [.stored f]
  | collects (id : Uuid) (f : ServerFrame) (order : List Uuid)
      (hat : w.flight id = .collecting f) (hnodup : order.Nodup)
      (hflight : w'.flight = Function.update w.flight id (.sending f order))
      (hpeers : ∀ peer, peer ∈ order ↔ w.connections.Connected peer) :
      Flow w w' []
  | enqueues (id : Uuid) (f : ServerFrame) (peer : Uuid) (rest : List Uuid)
      (hat : w.flight id = .sending f (peer :: rest))
      (hflight : w'.flight = Function.update w.flight id (.sending f rest)) :
      Flow w w' [.enqueued peer f]
  | refused (id : Uuid) (f : ServerFrame) (peer : Uuid) (rest : List Uuid)
      (hat : w.flight id = .sending f (peer :: rest))
      (hflight : w'.flight = Function.update w.flight id (.sending f rest))
      (hdead : peer ∈ w'.dead id) :
      Flow w w' []
  | lands (id : Uuid) (f : ServerFrame) (hat : w.flight id = .sending f [])
      (hflight : w'.flight = Function.update w.flight id .idle) :
      Flow w w' []

/-- What the checks let through carries the id of the connection it came in on. -/
theorem Admits.origin {sessions sessions' : UserSessionStore} {id : Uuid} {username : String}
    {f : ClientFrame} {out : ServerFrame} (h : Admits sessions sessions' id username f out) :
    out.origin = some id := by
  cases h <;> rfl

/-- A task that has not registered has nothing in flight. -/
theorem flight_of_unregistered {w : World} {id : Uuid} (h : Unregistered (w.tasks id)) :
    w.flight id = .idle := by
  rw [World.flight]
  cases hat : w.tasks id with
  | none => rfl
  | some phase =>
    rw [hat] at h
    cases phase with
    | live _ _ => exact h.elim
    | _ => rfl

/-- A task that is still shaking hands or has returned has no frame in flight. -/
theorem flight_of_after {phase : Phase}
    (h : Unregistered (some phase) ∨ ∃ result, phase = .returned result) :
    phase.flight = .idle := by
  cases phase with
  | live _ _ =>
    rcases h with h | ⟨_, h⟩
    · exact h.elim
    · cases h
  | _ => rfl

/-- **The abstraction is a simulation.** Every step of the room is a step of the flights. -/
theorem Step.flow {w w' : World} {l : Label} {evs : List Event} (h : Step w l w' evs) :
    Flow w w' evs := by
  -- a step of a task that has no frame in flight, before or after
  have idle {u : World} {id : Uuid} {phase phase' : Phase} {evs : List Event}
      (hu : u.tasks = w.tasks) (hat : w.tasks id = some phase) (hphase : phase.flight = .idle)
      (hphase' : phase'.flight = .idle) (haccepted : acceptedIn evs = [])
      (hstored : storedIn evs = []) (henqueued : ∀ peer, enqueuedTo peer evs = []) :
      Flow w (u.goto id phase') evs := by
    refine .quiet evs ?_ haccepted hstored henqueued
    have hidle : w.flight id = .idle := (World.flight_of_at hat).trans hphase
    rw [World.flight_move hu, hphase', ← hidle, Function.update_eq_self]
  cases h with
  | early l id phase hbefore hafter _ =>
    exact .quiet _ (World.flight_goto_idle (flight_of_unregistered hbefore)
      (flight_of_after hafter)) rfl rfl fun _ => rfl
  | register _ _ hat | snapshot _ _ hat | welcomed _ _ _ hat | unwelcomed _ _ _ _ hat
  | stops _ _ _ _ hat | undelivered _ _ _ _ _ hat | incoming _ _ _ hat | touch _ _ _ hat
  | rejects _ _ _ _ _ hat | cleanup _ _ _ hat | leave _ _ _ hat =>
    exact idle rfl hat rfl rfl rfl rfl fun _ => rfl
  | delivers | elapse | scan | sweep => exact .quiet _ rfl rfl rfl fun _ => rfl
  | accepts id username f out sessions hat hcheck =>
    refine .accepts id out (World.flight_of_at hat) (checkFrame_ok hcheck).origin ?_
    rw [World.flight_goto]
    exact congrArg _ flight_afterCheck
  | store id username f hat =>
    exact .stores id f (World.flight_of_at hat) (World.flight_goto ..)
  | collect id username f order hat horder =>
    exact .collects id f order (World.flight_of_at hat)
      (horder.nodup_iff.mpr (ConnectionManager.snapshot_nodup _)) (World.flight_goto ..)
      fun _ => horder.mem_iff.trans (ConnectionManager.mem_snapshot ..)
  | enqueues id username f peer rest dead o hat hsend =>
    exact .enqueues id f peer rest (World.flight_of_at hat) (World.flight_goto ..)
  | refused id username f peer rest dead hat hsend =>
    refine .refused id f peer rest (World.flight_of_at hat) (World.flight_goto ..) ?_
    rw [World.dead_goto_self]
    exact List.mem_append_right _ (List.mem_singleton_self peer)
  | evict id username f dead hat =>
    exact .lands id f (World.flight_of_at hat) (World.flight_goto ..)

end ChatRs

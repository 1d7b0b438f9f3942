import ChatRs.Lib.Machine
import ChatRs.Server.Managers
import ChatRs.Server.Stores

/-!
# One room of the server (`server/mod.rs`)

The tasks that work on one `RoomState`: any number of `handle_connection` tasks and the
sweeper. A task is cut at every point where another one can run, that is where it takes a lock
or waits for the network: each step below is one critical section, one `try_send`, one receive
or one send. The peers are arbitrary, so what a receive delivers and whether a send succeeds
are part of the label.

* **`World`**: the three stores, the channels, and where every task stands;
* **`step`**: the executable step function, with the source's functions as its branches;
* **`Step`**: everything a step can do, one constructor for each; `step_inv` is the inversion
  every later proof starts from;
* **`room`**: the `Machine`, whose events are the facts that runs are about.

A task is named by the user id that it draws when it registers: `Uuid::new_v4` never returns
an id twice, so every task has a name of its own from the start.
-/

namespace ChatRs

def SESSION_TIMEOUT : Duration := .fromSecs 3600

/-- Where a registered connection stands. -/
inductive Pc where
  | snapshotting
  | welcoming (history : List RoomMessage)
  | pumping
  -- inside `handle_client_frame`
  | touching (f : ClientFrame)
  | checking (f : ClientFrame)
  | storing (f : ServerFrame)
  -- inside `broadcast`
  | collecting (f : ServerFrame)
  | sending (f : ServerFrame) (rest dead : List Uuid)
  -- after `pump`
  | cleaning (result : Result Unit)
  | leaving (result : Result Unit)

/-- Where a `handle_connection` task stands. -/
inductive Phase where
  | selecting
  | greeting
  | handshaking
  | awaitingHello
  | registering (username : String)
  | live (username : String) (pc : Pc)
  | returned (result : Result Unit)

structure World where
  messages : MessageStore
  sessions : UserSessionStore
  connections : ConnectionManager
  outbox : Uuid → Outbox
  tasks : Uuid → Option Phase
  /-- What the sweeper found stale and has not removed yet. -/
  sweeping : List Uuid
  now : Instant

/-- What a `handle_connection` task does next. A receive or a send carries its outcome; a
timeout is an error like any other. -/
inductive Act where
  | recvSelect (r : Result ClientFrame)
  | sendHello (r : Result Unit)
  | handshake (r : Result Unit)
  | recvHello (r : Result ClientFrame)
  | register
  | snapshot
  | sendWelcome (r : Result Unit)
  | cancelled
  | outgoing (r : Result Unit)
  | outboxClosed
  -- `none` when the peer has closed the connection
  | incoming (r : Option (Result ClientFrame))
  | touch
  | check
  | store
  | collect (order : List Uuid)
  | trySend
  | evict
  | cleanup
  | leave

inductive Label where
  | accept (id : Uuid) (admitted : Bool)
  | act (id : Uuid) (a : Act)
  | elapse (d : Duration)
  | scan
  | sweep

/-- What runs are about. -/
inductive Event where
  | registered (id : Uuid) (username : String)
  | snapshotted (id : Uuid) (history : List RoomMessage)
  | incoming (id : Uuid) (f : ClientFrame)
  /-- `f` passed every check of `handle_client_frame` and is about to be broadcast. -/
  | accepted (f : ServerFrame)
  | stored (f : ServerFrame)
  | enqueued (peer : Uuid) (f : ServerFrame)
  | delivered (peer : Uuid) (f : ServerFrame)

/-! ## The code -/

/-- The bytes that a username and the name of a room are made of. -/
def isNameByte (b : UInt8) : Bool := isAsciiAlphanumeric b || b = 0x5F || b = 0x2D

/-- ASCII `[A-Za-z0-9_-]` only. -/
def isValidUsername (name : String) : Bool := (strBytes name).all isNameByte

-- `handle_connection` before the registration: nothing of the room is touched. The room that
-- the name selects is the one modelled here, or another one with a state of its own.
def handshakeStep : Phase → Act → Option Phase
  | .selecting, .recvSelect (.ok (.roomSelect room)) =>
    if room.isEmpty ∨ strLen room > MAX_ROOM_ID_LEN then
      some (.returned (.error (.protocol "invalid room name length")))
    else some .greeting
  | .selecting, .recvSelect (.ok _) =>
    some (.returned (.error (.protocol "expected RoomSelect")))
  | .selecting, .recvSelect (.error e) => some (.returned (.error e))
  | .greeting, .sendHello (.ok _) => some .handshaking
  | .greeting, .sendHello (.error e) => some (.returned (.error e))
  | .handshaking, .handshake (.ok _) => some .awaitingHello
  | .handshaking, .handshake (.error e) => some (.returned (.error e))
  | .awaitingHello, .recvHello (.ok (.hello username)) =>
    if username.isEmpty ∨ strLen username > MAX_USERNAME_LEN ∨ ¬ isValidUsername username then
      some (.returned (.error (.protocol "invalid username")))
    else some (.registering username)
  | .awaitingHello, .recvHello (.ok _) =>
    some (.returned (.error (.protocol "expected ClientFrame::Hello")))
  | .awaitingHello, .recvHello (.error e) => some (.returned (.error e))
  | _, _ => none

/-- The checks of `handle_client_frame`, up to the end of the critical section on the
sessions: the frame to be broadcast, or the error. -/
def checkFrame (sessions : UserSessionStore) (now : Instant) (userId : Uuid)
    (username : String) : ClientFrame → Result ServerFrame × UserSessionStore
  | .roomSelect _ => (.error (.protocol "unexpected handshake frame after auth"), sessions)
  | .hello _ => (.error (.protocol "unexpected handshake frame after auth"), sessions)
  | .message ad ciphertext =>
    if ad.fromId ≠ userId then
      (.error (.protocol "ad.from does not match session user_id"), sessions)
    else if ad.username ≠ username then
      (.error (.protocol "ad.username does not match session"), sessions)
    else if ciphertext.length > MAX_CIPHERTEXT_LEN then
      (.error (.protocol "ciphertext exceeds MAX_CIPHERTEXT_LEN"), sessions)
    else
      match sessions.tryAdvanceCounter userId ad.counter with
      | (false, sessions) =>
        (.error (.protocol "ad.counter not strictly increasing"), sessions)
      | (true, sessions) =>
        match sessions.tryConsumeMessageQuota now userId with
        | (false, sessions) => (.error (.protocol "message rate exceeded"), sessions)
        | (true, sessions) =>
          (.ok (.message { fromId := userId, username := username, ad := ad,
                           ciphertext := ciphertext }), sessions)
  | .clear =>
    match sessions.tryConsumeClear now userId with
    | (false, sessions) => (.error (.protocol "clear cooldown active"), sessions)
    | (true, sessions) => (.ok (.cleared userId username), sessions)

/-- What follows the checks: an ephemeral message skips the history. -/
def afterCheck : ServerFrame → Pc
  | .message m => if m.ad.ephemeral then .collecting (.message m) else .storing (.message m)
  | f => .storing f

/-- The history's critical section: a message is pushed, a clear empties the history. -/
def MessageStore.store (s : MessageStore) : ServerFrame → MessageStore
  | .message m => s.push m
  | .cleared _ _ => s.clear
  | _ => s

namespace World

def init : World where
  messages := .new
  sessions := .new SESSION_TIMEOUT
  connections := .new
  outbox _ := ⟨[], true⟩
  tasks _ := none
  sweeping := []
  now := 0

def goto (w : World) (id : Uuid) (phase : Phase) : World :=
  { w with tasks := Function.update w.tasks id (some phase) }

def setOutbox (w : World) (id : Uuid) (o : Outbox) : World :=
  { w with outbox := Function.update w.outbox id o }

end World

/-- The steps of a registered connection. -/
def liveStep (w : World) (id : Uuid) (username : String) :
    Pc → Act → Option (World × List Event)
  | .snapshotting, .snapshot =>
    let history := w.messages.snapshot
    some (w.goto id (.live username (.welcoming history)), [.snapshotted id history])
  | .welcoming _, .sendWelcome (.ok _) => some (w.goto id (.live username .pumping), [])
  -- the `?` after this send leaves the function before the clean-up
  | .welcoming _, .sendWelcome (.error e) =>
    some (w.goto id (.live username (.leaving (.error e))), [])
  | .pumping, .cancelled => some (w.goto id (.live username (.cleaning (.ok ()))), [])
  | .pumping, .outgoing r =>
    match (w.outbox id).recv with
    | none => none
    | some (f, o) =>
      match r with
      | .ok _ => some (w.setOutbox id o, [.delivered id f])
      | .error e => some ((w.setOutbox id o).goto id (.live username (.cleaning (.error e))), [])
  -- `rx.recv()` gives `None`: the queue is empty and the sender removed; clones of it that a
  -- broadcast still holds can only delay this
  | .pumping, .outboxClosed =>
    if (w.outbox id).queue = [] ∧ id ∉ w.connections.senders then
      some (w.goto id (.live username (.cleaning (.ok ()))), [])
    else none
  | .pumping, .incoming none => some (w.goto id (.live username (.cleaning (.ok ()))), [])
  | .pumping, .incoming (some (.error e)) =>
    some (w.goto id (.live username (.cleaning (.error e))), [])
  | .pumping, .incoming (some (.ok f)) =>
    some (w.goto id (.live username (.touching f)), [.incoming id f])
  | .touching f, .touch =>
    some ({ w with sessions := w.sessions.touch w.now id }.goto id
      (.live username (.checking f)), [])
  | .checking f, .check =>
    match checkFrame w.sessions w.now id username f with
    | (.error e, sessions) =>
      some ({ w with sessions := sessions }.goto id (.live username (.cleaning (.error e))), [])
    | (.ok out, sessions) =>
      some ({ w with sessions := sessions }.goto id (.live username (afterCheck out)),
        [.accepted out])
  | .storing f, .store =>
    some ({ w with messages := w.messages.store f }.goto id (.live username (.collecting f)),
      [.stored f])
  -- the order of a hash map's entries is arbitrary
  | .collecting f, .collect order =>
    if order.Perm w.connections.snapshot then
      some (w.goto id (.live username (.sending f order [])), [])
    else none
  | .sending f (peer :: rest) dead, .trySend =>
    match (w.outbox peer).trySend f with
    | some o =>
      some ((w.setOutbox peer o).goto id (.live username (.sending f rest dead)),
        [.enqueued peer f])
    | none => some (w.goto id (.live username (.sending f rest (dead ++ [peer]))), [])
  | .sending _ [] dead, .evict =>
    some ({ w with connections := w.connections.removeAll dead }.goto id
      (.live username .pumping), [])
  | .cleaning result, .cleanup =>
    some ({ w with sessions := w.sessions.remove id
                   connections := w.connections.remove id }.goto id
      (.live username (.leaving result)), [])
  -- the locals are dropped, the receiver among them
  | .leaving result, .leave =>
    some ((w.setOutbox id (w.outbox id).drop).goto id (.returned result), [])
  | _, _ => none

/-- The steps of a connection. -/
def actStep (w : World) (id : Uuid) : Phase → Act → Option (World × List Event)
  -- one critical section: the lock on the sessions is held across both inserts
  | .registering username, .register =>
    some (({ w with sessions := w.sessions.insert w.now id username
                    connections := w.connections.insert id ⟨⟩ }.setOutbox id .new).goto id
        (.live username .snapshotting),
      [.registered id username])
  | .live username pc, a => liveStep w id username pc a
  | phase, a => (handshakeStep phase a).map fun phase => (w.goto id phase, [])

def step (w : World) : Label → Option (World × List Event)
  | .accept id admitted =>
    match w.tasks id with
    | some _ => none
    | none =>
      if admitted then some (w.goto id .selecting, [])
      else some (w.goto id (.returned (.error (.protocol "active-connection cap"))), [])
  | .act id a =>
    match w.tasks id with
    | some phase => actStep w id phase a
    | none => none
  | .elapse d => some ({ w with now := w.now + d }, [])
  -- the sweeper: an empty find ends its round
  | .scan =>
    if w.sweeping = [] then some ({ w with sweeping := w.sessions.stale w.now }, []) else none
  | .sweep =>
    if w.sweeping = [] then none
    else
      some ({ w with sessions := w.sweeping.foldl UserSessionStore.remove w.sessions
                     connections := w.connections.removeAll w.sweeping
                     sweeping := [] }, [])

/-- A room of the server. -/
def room : Machine World Label Event := ⟨World.init, step⟩

/-! ## What the checks let through -/

/-- A frame that passed: what is to be broadcast, and the counters it leaves. -/
inductive Admits (sessions sessions' : UserSessionStore) (id : Uuid) (username : String) :
    ClientFrame → ServerFrame → Prop
  | message (ad : MessageAd) (ciphertext : List UInt8) (last : UInt64)
      (hfrom : ad.fromId = id) (hname : ad.username = username)
      (hlen : ciphertext.length ≤ MAX_CIPHERTEXT_LEN)
      (hlast : sessions.counterOf id = some last) (hlt : last < ad.counter)
      (hcounter : sessions'.counterOf = Function.update sessions.counterOf id (some ad.counter)) :
      Admits sessions sessions' id username (.message ad ciphertext)
        (.message { fromId := id, username := username, ad := ad, ciphertext := ciphertext })
  | clear (hcounter : sessions'.counterOf = sessions.counterOf) :
      Admits sessions sessions' id username .clear (.cleared id username)

/-- Everything that is known of a frame which has passed all its checks, read off branch by
branch. -/
theorem checkFrame_ok {sessions sessions' : UserSessionStore} {now : Instant} {id : Uuid}
    {username : String} {f : ClientFrame} {out : ServerFrame}
    (h : checkFrame sessions now id username f = (.ok out, sessions')) :
    Admits sessions sessions' id username f out := by
  unfold checkFrame at h
  split at h
  · cases h
  · cases h
  · rename_i ad ciphertext
    split at h
    · cases h
    · rename_i hfrom
      split at h
      · cases h
      · rename_i hname
        split at h
        · cases h
        · rename_i hlen
          split at h
          · cases h
          · rename_i s₁ hadvance
            obtain ⟨⟨last, hlast, hlt⟩, hcounter⟩ :=
              UserSessionStore.tryAdvanceCounter_true hadvance
            have hquota := s₁.counterOf_tryConsumeMessageQuota now id
            split at h
            · cases h
            · rename_i s₂ heq
              cases h
              rw [heq] at hquota
              exact .message ad ciphertext last (not_not.mp hfrom) (not_not.mp hname)
                (Nat.le_of_not_lt hlen) hlast hlt (hquota.trans hcounter)
  · have hclear := sessions.counterOf_tryConsumeClear now id
    split at h
    · cases h
    · rename_i s₁ heq
      cases h
      rw [heq] at hclear
      exact .clear hclear

/-- A frame that was rejected may still have used up its counter. -/
theorem checkFrame_error {sessions sessions' : UserSessionStore} {now : Instant} {id : Uuid}
    {username : String} {f : ClientFrame} {e : Error}
    (h : checkFrame sessions now id username f = (.error e, sessions')) :
    sessions'.counterOf = sessions.counterOf ∨
      ∃ last counter, sessions.counterOf id = some last ∧ last < counter ∧
        sessions'.counterOf = Function.update sessions.counterOf id (some counter) := by
  unfold checkFrame at h
  split at h
  · cases h
    exact .inl rfl
  · cases h
    exact .inl rfl
  · rename_i ad ciphertext
    split at h
    · cases h
      exact .inl rfl
    · split at h
      · cases h
        exact .inl rfl
      · split at h
        · cases h
          exact .inl rfl
        · split at h
          · rename_i s₁ hadvance
            cases h
            rw [UserSessionStore.tryAdvanceCounter_false hadvance]
            exact .inl rfl
          · -- the counter is spent before the rate is asked
            rename_i s₁ hadvance
            obtain ⟨⟨last, hlast, hlt⟩, hcounter⟩ :=
              UserSessionStore.tryAdvanceCounter_true hadvance
            have hquota := s₁.counterOf_tryConsumeMessageQuota now id
            split at h
            · rename_i s₂ heq
              cases h
              rw [heq] at hquota
              exact .inr ⟨last, ad.counter, hlast, hlt, hquota.trans hcounter⟩
            · cases h
  · have hclear := sessions.counterOf_tryConsumeClear now id
    split at h
    · rename_i s₁ heq
      cases h
      rw [heq] at hclear
      exact .inl hclear
    · cases h

/-! ## What the two updates leave alone -/

namespace World

section

variable (w : World) (id : Uuid) (phase : Phase) (o : Outbox)

@[simp] theorem goto_tasks : (w.goto id phase).tasks = Function.update w.tasks id (some phase) :=
  rfl
@[simp] theorem goto_messages : (w.goto id phase).messages = w.messages := rfl
@[simp] theorem goto_sessions : (w.goto id phase).sessions = w.sessions := rfl
@[simp] theorem goto_connections : (w.goto id phase).connections = w.connections := rfl
@[simp] theorem goto_outbox : (w.goto id phase).outbox = w.outbox := rfl
@[simp] theorem goto_sweeping : (w.goto id phase).sweeping = w.sweeping := rfl
@[simp] theorem setOutbox_tasks : (w.setOutbox id o).tasks = w.tasks := rfl
@[simp] theorem setOutbox_messages : (w.setOutbox id o).messages = w.messages := rfl
@[simp] theorem setOutbox_sessions : (w.setOutbox id o).sessions = w.sessions := rfl
@[simp] theorem setOutbox_connections : (w.setOutbox id o).connections = w.connections := rfl
@[simp] theorem setOutbox_outbox :
    (w.setOutbox id o).outbox = Function.update w.outbox id o := rfl
@[simp] theorem setOutbox_sweeping : (w.setOutbox id o).sweeping = w.sweeping := rfl

end

/-- After a step of one task another stands where it stood. -/
theorem goto_at {w : World} {id k : Uuid} {phase phase' : Phase}
    (h : (w.goto id phase).tasks k = some phase') :
    (k = id ∧ phase = phase') ∨ (k ≠ id ∧ w.tasks k = some phase') := by
  rw [goto_tasks] at h
  rcases eq_or_ne k id with rfl | hne
  · rw [Function.update_self, Option.some.injEq] at h
    exact .inl ⟨rfl, h⟩
  · rw [Function.update_of_ne hne] at h
    exact .inr ⟨hne, h⟩

end World

/-! ## Everything a step can do

`step` follows the source function by function; the proofs go by cases over its effects. The
constructors of `Step` list them, with the guard under which each happens. The phases before
the registration differ only in what the peer sent, so they are one case.
-/

/-- A username that passed the checks on the first frame. -/
structure ValidName (name : String) : Prop where
  nonempty : 1 ≤ strLen name
  short : strLen name ≤ MAX_USERNAME_LEN
  charset : isValidUsername name = true

/-- The task has not registered yet (it may not even have been accepted). -/
def Unregistered : Option Phase → Prop
  | some (.live _ _) => False
  | some (.returned _) => False
  | _ => True

/-- The task that a step moves. -/
def Label.actor : Label → Option Uuid
  | .accept id _ => some id
  | .act id _ => some id
  | _ => none

inductive Step (w : World) : Label → World → List Event → Prop
  | early (l : Label) (id : Uuid) (phase : Phase) (hbefore : Unregistered (w.tasks id))
      (hafter : Unregistered (some phase) ∨ ∃ result, phase = .returned result)
      (hname : ∀ username, phase = .registering username → ValidName username)
      (hactor : l.actor = some id) :
      Step w l (w.goto id phase) []
  | register (id : Uuid) (username : String)
      (hat : w.tasks id = some (.registering username)) :
      Step w (.act id .register)
        (({ w with sessions := w.sessions.insert w.now id username
                   connections := w.connections.insert id ⟨⟩ }.setOutbox id .new).goto id
          (.live username .snapshotting))
        [.registered id username]
  | snapshot (id : Uuid) (username : String)
      (hat : w.tasks id = some (.live username .snapshotting)) :
      Step w (.act id .snapshot)
        (w.goto id (.live username (.welcoming w.messages.history)))
        [.snapshotted id w.messages.history]
  | welcomed (id : Uuid) (username : String) (history : List RoomMessage)
      (hat : w.tasks id = some (.live username (.welcoming history))) :
      Step w (.act id (.sendWelcome (.ok ()))) (w.goto id (.live username .pumping)) []
  | unwelcomed (id : Uuid) (username : String) (history : List RoomMessage) (e : Error)
      (hat : w.tasks id = some (.live username (.welcoming history))) :
      Step w (.act id (.sendWelcome (.error e)))
        (w.goto id (.live username (.leaving (.error e)))) []
  | stops (id : Uuid) (username : String) (a : Act) (result : Result Unit)
      (hat : w.tasks id = some (.live username .pumping)) :
      Step w (.act id a) (w.goto id (.live username (.cleaning result))) []
  | delivers (id : Uuid) (username : String) (f : ServerFrame) (o : Outbox)
      (hat : w.tasks id = some (.live username .pumping))
      (hrecv : (w.outbox id).recv = some (f, o)) :
      Step w (.act id (.outgoing (.ok ()))) (w.setOutbox id o) [.delivered id f]
  | undelivered (id : Uuid) (username : String) (f : ServerFrame) (o : Outbox) (e : Error)
      (hat : w.tasks id = some (.live username .pumping))
      (hrecv : (w.outbox id).recv = some (f, o)) :
      Step w (.act id (.outgoing (.error e)))
        ((w.setOutbox id o).goto id (.live username (.cleaning (.error e)))) []
  | incoming (id : Uuid) (username : String) (f : ClientFrame)
      (hat : w.tasks id = some (.live username .pumping)) :
      Step w (.act id (.incoming (some (.ok f))))
        (w.goto id (.live username (.touching f))) [.incoming id f]
  | touch (id : Uuid) (username : String) (f : ClientFrame)
      (hat : w.tasks id = some (.live username (.touching f))) :
      Step w (.act id .touch)
        ({ w with sessions := w.sessions.touch w.now id }.goto id
          (.live username (.checking f))) []
  | rejects (id : Uuid) (username : String) (f : ClientFrame) (e : Error)
      (sessions : UserSessionStore)
      (hat : w.tasks id = some (.live username (.checking f)))
      (hcheck : checkFrame w.sessions w.now id username f = (.error e, sessions)) :
      Step w (.act id .check)
        ({ w with sessions := sessions }.goto id (.live username (.cleaning (.error e)))) []
  | accepts (id : Uuid) (username : String) (f : ClientFrame) (out : ServerFrame)
      (sessions : UserSessionStore)
      (hat : w.tasks id = some (.live username (.checking f)))
      (hcheck : checkFrame w.sessions w.now id username f = (.ok out, sessions)) :
      Step w (.act id .check)
        ({ w with sessions := sessions }.goto id (.live username (afterCheck out)))
        [.accepted out]
  | store (id : Uuid) (username : String) (f : ServerFrame)
      (hat : w.tasks id = some (.live username (.storing f))) :
      Step w (.act id .store)
        ({ w with messages := w.messages.store f }.goto id (.live username (.collecting f)))
        [.stored f]
  | collect (id : Uuid) (username : String) (f : ServerFrame) (order : List Uuid)
      (hat : w.tasks id = some (.live username (.collecting f)))
      (horder : order.Perm w.connections.snapshot) :
      Step w (.act id (.collect order)) (w.goto id (.live username (.sending f order []))) []
  | enqueues (id : Uuid) (username : String) (f : ServerFrame) (peer : Uuid)
      (rest dead : List Uuid) (o : Outbox)
      (hat : w.tasks id = some (.live username (.sending f (peer :: rest) dead)))
      (hsend : (w.outbox peer).trySend f = some o) :
      Step w (.act id .trySend)
        ((w.setOutbox peer o).goto id (.live username (.sending f rest dead)))
        [.enqueued peer f]
  | refused (id : Uuid) (username : String) (f : ServerFrame) (peer : Uuid)
      (rest dead : List Uuid)
      (hat : w.tasks id = some (.live username (.sending f (peer :: rest) dead)))
      (hsend : (w.outbox peer).trySend f = none) :
      Step w (.act id .trySend)
        (w.goto id (.live username (.sending f rest (dead ++ [peer])))) []
  | evict (id : Uuid) (username : String) (f : ServerFrame) (dead : List Uuid)
      (hat : w.tasks id = some (.live username (.sending f [] dead))) :
      Step w (.act id .evict)
        ({ w with connections := w.connections.removeAll dead }.goto id
          (.live username .pumping)) []
  | cleanup (id : Uuid) (username : String) (result : Result Unit)
      (hat : w.tasks id = some (.live username (.cleaning result))) :
      Step w (.act id .cleanup)
        ({ w with sessions := w.sessions.remove id
                  connections := w.connections.remove id }.goto id
          (.live username (.leaving result))) []
  | leave (id : Uuid) (username : String) (result : Result Unit)
      (hat : w.tasks id = some (.live username (.leaving result))) :
      Step w (.act id .leave)
        ((w.setOutbox id (w.outbox id).drop).goto id (.returned result)) []
  | elapse (d : Duration) : Step w (.elapse d) { w with now := w.now + d } []
  | scan : Step w .scan { w with sweeping := w.sessions.stale w.now } []
  | sweep :
      Step w .sweep
        { w with sessions := w.sweeping.foldl UserSessionStore.remove w.sessions
                 connections := w.connections.removeAll w.sweeping
                 sweeping := [] } []

/-- A username that `handle_connection` lets through is valid. -/
theorem validName_of_checks {name : String}
    (h : ¬ (name.isEmpty ∨ strLen name > MAX_USERNAME_LEN ∨ ¬ isValidUsername name)) :
    ValidName name := by
  rw [not_or, not_or, not_not] at h
  obtain ⟨hne, hshort, hchars⟩ := h
  refine ⟨?_, Nat.le_of_not_lt hshort, hchars⟩
  rw [Nat.one_le_iff_ne_zero]
  intro hzero
  apply hne
  rw [String.isEmpty_iff]
  apply strBytes_injective
  exact List.length_eq_zero_iff.mp hzero

/-- The checks of a name let every valid one through. -/
theorem checks_of_validName {name : String} (h : ValidName name) :
    ¬ (name.isEmpty ∨ strLen name > MAX_USERNAME_LEN ∨ ¬ isValidUsername name) := by
  rintro (hempty | hlong | hchars)
  · have hnonempty := h.nonempty
    rw [String.isEmpty_iff.mp hempty] at hnonempty
    exact absurd hnonempty (by decide)
  · exact Nat.not_lt.mpr h.short hlong
  · exact hchars h.charset

/-- Before the registration a task stays unregistered or returns, and only a valid name
registers. -/
theorem handshakeStep_inv {phase phase' : Phase} {a : Act}
    (h : handshakeStep phase a = some phase') :
    Unregistered (some phase) ∧ (Unregistered (some phase') ∨ ∃ result, phase' = .returned result)
      ∧ ∀ username, phase' = .registering username → ValidName username := by
  unfold handshakeStep at h
  split at h
  case h_1 =>
    split at h <;> cases h
    · exact ⟨trivial, .inr ⟨_, rfl⟩, nofun⟩
    · exact ⟨trivial, .inl trivial, nofun⟩
  case h_8 =>
    split at h
    · cases h
      exact ⟨trivial, .inr ⟨_, rfl⟩, nofun⟩
    · rename_i hname
      cases h
      refine ⟨trivial, .inl trivial, fun username heq => ?_⟩
      cases heq
      exact validName_of_checks hname
  -- the phases whose step looks at nothing but the outcome
  all_goals cases h
  all_goals first
    | exact ⟨trivial, .inl trivial, nofun⟩
    | exact ⟨trivial, .inr ⟨_, rfl⟩, nofun⟩

/-- The inversion of a registered task, one case for each branch of `liveStep`. -/
theorem liveStep_inv {w w' : World} {id : Uuid} {username : String} {pc : Pc} {a : Act}
    {evs : List Event} (hat : w.tasks id = some (.live username pc))
    (h : liveStep w id username pc a = some (w', evs)) : Step w (.act id a) w' evs := by
  unfold liveStep at h
  split at h
  case h_1 =>
    cases h
    exact .snapshot id username hat
  case h_2 history _ =>
    cases h
    exact .welcomed id username history hat
  case h_3 history e =>
    cases h
    -- the `?` leaves the function
    exact .unwelcomed id username history e hat
  case h_4 =>
    cases h
    exact .stops id username _ _ hat
  case h_5 r =>
    split at h
    · cases h
    · -- a frame from the outbox, and the write of it
      rename_i f o hrecv
      cases r with
      | ok _ =>
        cases h
        exact .delivers id username f o hat hrecv
      | error e =>
        cases h
        exact .undelivered id username f o e hat hrecv
  -- `pump` is left: over its queue, by its peer, or over an error
  case h_6 =>
    split at h
    · cases h
      exact .stops id username _ _ hat
    · cases h
  case h_7 =>
    cases h
    exact .stops id username _ _ hat
  case h_8 =>
    cases h
    exact .stops id username _ _ hat
  case h_9 f =>
    cases h
    exact .incoming id username f hat
  case h_10 f =>
    cases h
    exact .touch id username f hat
  case h_11 f =>
    split at h
    · -- a frame that fails its checks ends the connection
      rename_i e sessions hcheck
      cases h
      exact .rejects id username f e sessions hat hcheck
    · rename_i out sessions hcheck
      cases h
      exact .accepts id username f out sessions hat hcheck
  case h_12 f =>
    cases h
    exact .store id username f hat
  case h_13 f order =>
    split at h
    · rename_i horder
      cases h
      exact .collect id username f order hat horder
    · cases h
  case h_14 f peer rest dead =>
    split at h
    · -- `try_send` finds room in the queue, or not
      rename_i o hsend
      cases h
      exact .enqueues id username f peer rest dead o hat hsend
    · rename_i hsend
      cases h
      exact .refused id username f peer rest dead hat hsend
  case h_15 f dead =>
    cases h
    exact .evict id username f dead hat
  case h_16 result =>
    cases h
    exact .cleanup id username result hat
  case h_17 result =>
    cases h
    exact .leave id username result hat
  case h_18 => cases h

/-- The inversion of a task at any phase. -/
theorem actStep_inv {w w' : World} {id : Uuid} {phase : Phase} {a : Act} {evs : List Event}
    (hat : w.tasks id = some phase) (h : actStep w id phase a = some (w', evs)) :
    Step w (.act id a) w' evs := by
  unfold actStep at h
  split at h
  · cases h
    exact .register id _ hat
  · exact liveStep_inv hat h
  · rw [Option.map_eq_some_iff] at h
    obtain ⟨phase', hstep, heq⟩ := h
    cases heq
    obtain ⟨hbefore, hafter, hname⟩ := handshakeStep_inv hstep
    exact .early _ id phase' (hat ▸ hbefore) hafter hname rfl

/-- **Inversion.** Every step of the machine is one of the listed ones. -/
theorem step_inv {w w' : World} {l : Label} {evs : List Event}
    (h : step w l = some (w', evs)) : Step w l w' evs := by
  cases l with
  | accept id admitted =>
    simp only [step] at h
    split at h
    · cases h
    · rename_i hnone
      split at h <;> cases h
      · exact .early _ id _ (hnone ▸ trivial) (.inl trivial) nofun rfl
      · exact .early _ id _ (hnone ▸ trivial) (.inr ⟨_, rfl⟩) nofun rfl
  | act id a =>
    simp only [step] at h
    split at h
    · rename_i phase hat
      exact actStep_inv hat h
    · cases h
  | elapse d =>
    cases h
    exact .elapse d
  | scan =>
    simp only [step] at h
    split at h <;> cases h
    exact .scan
  | sweep =>
    simp only [step] at h
    split at h <;> cases h
    exact .sweep

/-- A step moves no task but the one that acts. -/
theorem Step.tasks_other {w w' : World} {l : Label} {evs : List Event} (h : Step w l w' evs)
    {k : Uuid} (hk : l.actor ≠ some k) : w'.tasks k = w.tasks k := by
  have moves {u : World} {id : Uuid} {phase : Phase} (hu : u.tasks = w.tasks)
      (hactor : l.actor = some id) : (u.goto id phase).tasks k = w.tasks k := by
    have hne : k ≠ id := by
      rintro rfl
      exact hk hactor
    rw [World.goto_tasks, Function.update_of_ne hne, hu]
  cases h with
  | early l id phase hbefore hafter hname hactor => exact moves rfl hactor
  | delivers => rfl
  | elapse => rfl
  | scan => rfl
  | sweep => rfl
  | _ => exact moves rfl rfl

section Runs

variable {G : Machine.Guard World Label Event} {P : Machine.Config World Event → Prop}

/-- The invariant rule of the room, over the listed effects. -/
@[elab_as_elim] theorem Reach.room_invariant (hinit : P room.start)
    (hstep : ∀ c l w evs, room.Reach G c → P c → G c l → Step c.state l w evs →
      P ⟨c.past ++ evs, w⟩)
    {c : Machine.Config World Event} (h : room.Reach G c) : P c :=
  Machine.Reach.invariant hinit
    (fun c l w evs hreach hP hG hs => hstep c l w evs hreach hP hG (step_inv hs)) h

/-- The same for the rest of a run. -/
@[elab_as_elim] theorem Run.room_invariant {c c' : Machine.Config World Event}
    (h : room.Run G c c') (h0 : P c)
    (hstep : ∀ d l w evs, room.Run G c d → P d → G d l → Step d.state l w evs →
      P ⟨d.past ++ evs, w⟩) : P c' :=
  Machine.Run.invariant h h0
    (fun d l w evs hrun hP hG hs => hstep d l w evs hrun hP hG (step_inv hs))

end Runs

/-! ## Pieces of runs

From these the concrete runs below are put together: what a well-behaved connection does, cut
where other tasks may come in between.
-/

namespace Cast

def alice : Uuid := List.Vector.replicate 16 1

def bob : Uuid := List.Vector.replicate 16 2

/-- Up to and including the registration. -/
def arrives (id : Uuid) (username : String) : List Label :=
  [.accept id true, .act id (.recvSelect (.ok (.roomSelect "main"))),
   .act id (.sendHello (.ok ())), .act id (.handshake (.ok ())),
   .act id (.recvHello (.ok (.hello username))), .act id .register]

def isWelcomed (id : Uuid) : List Label :=
  [.act id .snapshot, .act id (.sendWelcome (.ok ()))]

/-- A frame comes in and is checked. -/
def sends (id : Uuid) (f : ClientFrame) : List Label :=
  [.act id (.incoming (some (.ok f))), .act id .touch, .act id .check]

/-- The whole of `broadcast`, offered to the peers in the given order. -/
def broadcasts (id : Uuid) (order : List Uuid) : List Label :=
  .act id (.collect order) :: order.map (fun _ => .act id .trySend) ++ [.act id .evict]

/-- A message without text; the server does not look inside. -/
def note (id : Uuid) (username : String) (counter : UInt64) (ephemeral : Bool) : ClientFrame :=
  .message { fromId := id, username := username, counter := counter, timestampMs := 0,
             ephemeral := ephemeral } []

/-- The note as the room relays it. -/
def relayed (id : Uuid) (username : String) (counter : UInt64) (ephemeral : Bool) :
    RoomMessage where
  fromId := id
  username := username
  ad := { fromId := id, username := username, counter := counter, timestampMs := 0,
          ephemeral := ephemeral }
  ciphertext := []

end Cast

end ChatRs

import ChatRs.Chat
import ChatRs.Joining
import ChatRs.Lib.Lane
import ChatRs.Server.Welcome

/-!
# A conversation over a hostile network

The frames of a room travel as ciphertexts of `snow` over a network that anybody may control. It
decides which bytes a receiver gets and when: old ones again, in another order, changed or made up.
After the handshake each side seals its frames under the numbers 0, 1, 2 and so on with a key of
that direction, and opens what comes in under the number that is next; what does not open ends the
connection. So all the network can do is to hand the frames on or to break a connection, which is
the transport of `Chat`:

* **`opened`**, **`Held`**: a direction of a connection, and the frames on their way in it;
* **`Net`**, **`netStep`**: the room and the clients of `Chat` with the network between them;
* **`sent_fits`**, **`written_fits`**: neither side hands `snow` a frame that is too long;
* **`Awaited.step`**: the frames on their way to a task, across its phases;
* **`refined_step`**: a step is one of `Chat`, on queues that hold what is on its way;
* **`hostile_network`**: so every run is a run of `Chat`.
-/

namespace ChatRs

open Machine (Config Guard free)

open Client

/-! ## One direction of a connection -/

section

variable {F : Type} (cipher : Nat → List UInt8 → Option (List UInt8))
  (read : List UInt8 → Option F) (encode : F → List UInt8)

/-- `recv_encrypted` of what the network hands over: `snow` goes on to the next number when it
opens. -/
def opened (lane : Lane (List UInt8)) (ct : List UInt8) : Result F × Lane (List UInt8) :=
  match cipher lane.recvNonce ct with
  | none => (.error .noise, lane)
  | some plaintext =>
    match read plaintext with
    | none => (.error .postcard, lane.read)
    | some f => (.ok f, lane.read)

/-- What opens under a number was sealed under it. -/
def Sealed (lane : Lane (List UInt8)) (ct : List UInt8) : Prop :=
  ∀ plaintext, cipher lane.recvNonce ct = some plaintext →
    (lane.recvNonce, plaintext) ∈ lane.sealed

/-- The frames on their way, first to last. -/
structure Held (lane : Lane (List UInt8)) (queue : List F) : Prop where
  carries : lane.Carries (queue.map encode)
  readable : ∀ f ∈ queue, read (encode f) = some f

variable {cipher read encode} {lane : Lane (List UInt8)} {queue : List F}

theorem Held.new : Held read encode .new [] := ⟨.new, by simp⟩

/-- Frames that are sealed one after the other go to the end of the queue. -/
theorem Held.writeAll (h : Held read encode lane queue) {fs : List F}
    (hfs : ∀ f ∈ fs, read (encode f) = some f) :
    Held read encode (lane.writeAll (fs.map encode)) (queue ++ fs) := by
  constructor
  · rw [List.map_append]
    exact h.carries.writeAll (fs.map encode)
  · intro f hf
    rcases List.mem_append.mp hf with hf | hf
    · exact h.readable f hf
    · exact hfs f hf

/-- **What comes out is the next frame**, or the transport's error, and then nothing is taken. -/
theorem Held.opened (h : Held read encode lane queue) {ct : List UInt8}
    (hsealed : Sealed cipher lane ct) :
    opened cipher read lane ct = (.error .noise, lane)
      ∨ ∃ f rest, queue = f :: rest ∧ opened cipher read lane ct = (.ok f, lane.read)
        ∧ Held read encode lane.read rest := by
  unfold ChatRs.opened
  cases hopen : cipher lane.recvNonce ct with
  | none => exact .inl rfl
  | some plaintext =>
    obtain ⟨rest, hqueue, hrest⟩ := h.carries.read (hsealed plaintext hopen)
    obtain ⟨f, queue', rfl, rfl, rfl⟩ := List.map_eq_cons_iff.mp hqueue
    refine .inr ⟨f, queue', rfl, ?_, hrest, ?_⟩
    · simp only [h.readable f List.mem_cons_self]
    · exact fun g hg => h.readable g (List.mem_cons_of_mem f hg)

end

/-! ## The machine -/

structure Net where
  world : World
  client : Uuid → Seat
  toServer : Uuid → Lane (List UInt8)
  toClient : Uuid → Lane (List UInt8)

/-- What the ends of a connection open, by the number they have come to. -/
structure Ciphers where
  atServer : Uuid → Nat → List UInt8 → Option (List UInt8)
  atClient : Uuid → Nat → List UInt8 → Option (List UInt8)

inductive NetLabel where
  | server (l : Label)
  /-- The network hands `ct` to the task of `id`. -/
  | toServer (id : Uuid) (ct : List UInt8)
  /-- The network hands `ct` to the client, which waits for its Welcome. -/
  | join (id : Uuid) (clocks : Nat → Clock) (ct : List UInt8)
  /-- The network hands `ct` to the client in its loop. -/
  | toClient (id : Uuid) (clock : Clock) (ct : List UInt8)
  | turn (id : Uuid) (clock : Clock) (i : Input)

/-- Whose frame is taken in. -/
def Label.reads : Label → Option Uuid
  | .act id (.recvHello (.ok _)) => some id
  | .act id (.incoming (some (.ok _))) => some id
  | _ => none

/-- Whether a turn takes a frame in. -/
def Client.Input.reads : Input → Bool
  | .incoming (some (.ok _)) => true
  | _ => false

/-- The receive that the task waits in. -/
def receiving (id : Uuid) (r : Result ClientFrame) : Option Phase → Label
  | some .awaitingHello => .act id (.recvHello r)
  | _ => .act id (.incoming (some r))

section Code

variable (aead : Aead) (roomKey : Key) (roomName : String) (users : Uuid → Option String)
  (ciphers : Ciphers) (codec : Codec)

/-- What a client seals before it waits for its Welcome, unless its name is too long for that. -/
def introduction (id : Uuid) : List ClientFrame :=
  match users id with
  | none => []
  | some username =>
    if transportSealLen (encodeClientFrame (.hello username)) ≤ NOISE_BUF then [.hello username]
    else []

/-- The server takes a step and seals what it sends. -/
def serving (c : Net) (toServer : Uuid → Lane (List UInt8)) (l : Label) :
    Option (Net × List ChatEvent) :=
  match step c.world l with
  | none => none
  | some (w, evs) =>
    some ({ c with world := w
                   toServer := toServer
                   toClient := fun k => (c.toClient k).writeAll
                     ((welcomeOut c.world l k ++ deliveredTo k evs).map encodeServerFrame) },
      evs.map .room)

/-- A client takes a turn and seals what it sends. -/
def turning (c : Net) (id : Uuid) (toClient : Lane (List UInt8)) (clock : Clock) (i : Input) :
    Option (Net × List ChatEvent) :=
  match c.client id with
  | .running ui =>
    some ({ c with
            client := Function.update c.client id (.after (turn aead roomKey ui clock i))
            toServer := Function.update c.toServer id ((c.toServer id).writeAll
              ((written aead roomKey ui clock i).map encodeClientFrame))
            toClient := Function.update c.toClient id toClient },
      [.turned id clock i])
  | _ => none

-- a client that gets anything else than its Welcome gives up, which is no step here
def netStep (c : Net) : NetLabel → Option (Net × List ChatEvent)
  | .server l =>
    match l.reads.bind users with
    | none => serving c c.toServer l
    | some _ => none
  | .toServer id ct =>
    match users id, opened (ciphers.atServer id) codec.readClient (c.toServer id) ct with
    | some _, (r, lane) =>
      serving c (Function.update c.toServer id lane) (receiving id r (c.world.tasks id))
    | none, _ => none
  | .join id clocks ct =>
    match users id, c.client id,
      opened (ciphers.atClient id) codec.readServer (c.toClient id) ct with
    | some username, .waiting, (.ok (.welcome userId history), lane) =>
      let history := clocked clocks history
      some ({ c with
              client := Function.update c.client id
                (.running (welcomed aead roomKey username userId roomName history))
              toClient := Function.update c.toClient id lane },
        [.joined id history])
    | _, _, _ => none
  | .toClient id clock ct =>
    match users id, opened (ciphers.atClient id) codec.readServer (c.toClient id) ct with
    | some _, (r, lane) => turning aead roomKey c id lane clock (.incoming (some r))
    | none, _ => none
  | .turn id clock i =>
    if i.reads then none else turning aead roomKey c id (c.toClient id) clock i

def Net.init : Net where
  world := .init
  client _ := .waiting
  toServer id := Lane.new.writeAll ((introduction users id).map encodeClientFrame)
  toClient _ := .new

/-- The room, and a client for everyone that `users` names, with the network between them. -/
def net : Machine Net NetLabel ChatEvent :=
  ⟨.init users, netStep aead roomKey roomName users ciphers codec⟩

/-- **The one thing that the network cannot do** is to make up what opens: nobody else has the
keys. -/
def Unforged : Guard Net NetLabel ChatEvent
  | c, .toServer id ct => Sealed (ciphers.atServer id) (c.state.toServer id) ct
  | c, .join id _ ct => Sealed (ciphers.atClient id) (c.state.toClient id) ct
  | c, .toClient id _ ct => Sealed (ciphers.atClient id) (c.state.toClient id) ct
  | _, _ => True

end Code

/-! ## What is sent fits -/

section

variable {G : Guard World Label Event} {c : Config World Event}

/-- A message that was relayed had passed the limit on ciphertexts, so it fits into a transport
message. -/
theorem Relayed.message_fits {past : List Event} {m : RoomMessage} (h : Relayed past m) :
    FitsTransport (.message m) := by
  have hmax : 4236 ≤ NOISE_BUF ∧ 4236 ≤ MAX_FRAME_LEN := by decide
  have hsize := h.size_le
  have hle : transportSealLen (encodeServerFrame (.message m)) ≤ 4236 := by
    rw [transportSealLen, AEAD_TAG_LEN, encodeServerFrame, Postcard.length_variant (by omega)]
    omega
  exact ⟨hle.trans hmax.1, hle.trans hmax.2⟩

/-- The notice that a history was cleared fits into a message of the transport. -/
theorem ValidName.cleared_fits {username : String} (h : ValidName username) (id : Uuid) :
    FitsTransport (.cleared id username) := by
  have hmax : 67 ≤ NOISE_BUF ∧ 67 ≤ MAX_FRAME_LEN := by decide
  have huuid := length_encodeUuid id
  have hname := length_encodeString_le h.short
  have hle : transportSealLen (encodeServerFrame (.cleared id username)) ≤ 67 := by
    rw [transportSealLen, AEAD_TAG_LEN, encodeServerFrame, Postcard.length_variant (by omega),
      List.length_append]
    omega
  exact ⟨hle.trans hmax.1, hle.trans hmax.2⟩

/-- Everything that was accepted fits into a message of the transport. -/
theorem accepted_fits (h : room.Reach G c) : ∀ f ∈ acceptedIn c.past, FitsTransport f := by
  refine Reach.room_invariant ?_ ?_ h
  · intro f hf
    cases hf
  intro c l w evs hreach ih _ hs f hf
  replace hf : f ∈ acceptedIn c.past ++ acceptedIn evs := acceptedIn_append .. ▸ hf
  rcases List.mem_append.mp hf with hpast | hnew
  · exact ih f hpast
  -- only the checks accept
  cases hs with
  | accepts id username g out sessions hat hcheck =>
    obtain ⟨⟨hvalid, hregistered⟩, hheard⟩ := standing hreach id _ hat
    rw [List.mem_singleton.mp hnew]
    cases checkFrame_ok hcheck with
    | message ad ciphertext last hfrom hname hlen hlast hlt hcounter =>
      exact Relayed.message_fits ⟨hfrom, hname, hvalid, hlen, hregistered, hheard⟩
    | clear hcounter => exact hvalid.cleared_fits id
  | _ => cases hnew

/-- **Whatever a step sends fits the transport.** -/
theorem sent_fits (h : room.Reach G c) {l : Label} {w : World} {evs : List Event} (hG : G c l)
    (hs : step c.state l = some (w, evs)) (id : Uuid) :
    ∀ f ∈ welcomeOut c.state l id ++ deliveredTo id evs, FitsTransport f := by
  intro f hf
  rcases List.mem_append.mp hf with hwelcome | hdelivered
  · unfold welcomeOut at hwelcome
    split at hwelcome
    · split at hwelcome
      · rename_i heq
        subst heq
        split at hwelcome
        · rename_i hat
          rw [List.mem_singleton.mp hwelcome]
          exact snapshotted_fits h (standing h _ _ hat).2
        · cases hwelcome
      · cases hwelcome
    · cases hwelcome
  · -- what is delivered was enqueued, and so accepted
    have hnext : room.Reach G ⟨c.past ++ evs, w⟩ := h.tail (.mk l w evs hG hs)
    have hmem : f ∈ deliveredTo id (c.past ++ evs) := by
      rw [deliveredTo_append]
      exact List.mem_append_right _ hdelivered
    have henqueued := (delivered_begins hnext id).subset hmem
    exact accepted_fits hnext f (accepted_of_enqueued hnext id f henqueued)

end

/-- The loop goes on only when `snow` could take the frame. -/
theorem written_fits {aead : Aead} {roomKey : Key} {ui : UiState} {clock : Clock} {i : Input} :
    ∀ f ∈ written aead roomKey ui clock i, transportSealLen (encodeClientFrame f) ≤ NOISE_BUF := by
  intro f hf
  unfold written at hf
  split at hf
  swap
  · cases hf
  rename_i hgoes
  cases i with
  | key k random result =>
    simp only [turn] at hgoes
    simp only [producedIn] at hf
    split at hgoes
    · cases hgoes
    · rename_i g s heq
      rw [heq] at hf
      rw [List.mem_singleton.mp hf]
      by_cases hfits : transportSealLen (encodeClientFrame g) ≤ NOISE_BUF
      · exact hfits
      · rw [sendEncrypted, if_neg hfits] at hgoes
        cases hgoes
    · rename_i s heq
      rw [heq] at hf
      cases hf
  | _ => cases hf

/-! ## The two ends of a connection -/

section

variable {users : Uuid → Option String} {codec : Codec}

variable (users codec) in
/-- The frames on their way to the task: first what introduces its client, as long as it has not
taken this in. A task that has returned takes nothing. -/
def Awaited (id : Uuid) (queue : List ClientFrame) (lane : Lane (List UInt8)) :
    Option Phase → Prop
  | some (.returned _) => True
  | some (.registering _) => Held codec.readClient encodeClientFrame lane queue
  | some (.live _ _) => Held codec.readClient encodeClientFrame lane queue
  | _ => Held codec.readClient encodeClientFrame lane (introduction users id ++ queue)

variable {id : Uuid} {queue : List ClientFrame} {lane : Lane (List UInt8)}

/-- What a client seals adds to what the server is still to read from it. -/
theorem Awaited.writeAll {task : Option Phase} (h : Awaited users codec id queue lane task)
    {fs : List ClientFrame}
    (hfs : ∀ f ∈ fs, codec.readClient (encodeClientFrame f) = some f) :
    Awaited users codec id (queue ++ fs) (lane.writeAll (fs.map encodeClientFrame)) task := by
  have first (h : Held codec.readClient encodeClientFrame lane (introduction users id ++ queue)) :
      Held codec.readClient encodeClientFrame (lane.writeAll (fs.map encodeClientFrame))
        (introduction users id ++ (queue ++ fs)) := by
    rw [← List.append_assoc]
    exact h.writeAll hfs
  cases task with
  | none => exact first h
  | some phase =>
    cases phase with
    | returned => trivial
    | registering | live => exact Held.writeAll h hfs
    | _ => exact first h

/-- Before the registration nothing else has been taken in. -/
theorem awaited_unregistered {phase : Phase} (hnew : Unregistered (some phase))
    (hname : ∀ name, phase ≠ .registering name) :
    Awaited users codec id queue lane (some phase)
      ↔ Held codec.readClient encodeClientFrame lane (introduction users id ++ queue) := by
  cases phase with
  | registering name => exact absurd rfl (hname name)
  | live | returned => exact hnew.elim
  | _ => exact Iff.rfl

/-- A step of the handshake that takes no frame in. -/
theorem Awaited.handshake {phase phase' : Phase} {a : Act}
    (h : Awaited users codec id queue lane (some phase)) (hs : handshakeStep phase a = some phase')
    (hreads : (Label.act id a).reads ≠ some id) :
    Awaited users codec id queue lane (some phase') := by
  obtain ⟨hnew, hnext, -⟩ := handshakeStep_inv hs
  have hbefore : ∀ name, phase ≠ .registering name := by
    rintro name rfl
    cases hs
  have hafter : ∀ name, phase' ≠ .registering name := by
    rintro name rfl
    rw [handshakeStep_registering hs] at hreads
    exact hreads rfl
  rcases hnext with hnext | ⟨result, rfl⟩
  · rw [awaited_unregistered hnew hbefore] at h
    exact (awaited_unregistered hnext hafter).mpr h
  · trivial

/-- A registered task stays so. -/
theorem awaited_of_live {w w' : World} {l : Label} {evs : List Event} {name : String} {pc : Pc}
    (h : Held codec.readClient encodeClientFrame lane queue)
    (hat : w.tasks id = some (.live name pc)) (hs : Step w l w' evs) :
    Awaited users codec id queue lane (w'.tasks id) := by
  have hregistered := hs.unregistered (k := id)
  rw [hat] at hregistered
  cases hnext : w'.tasks id with
  | none =>
    rw [hnext] at hregistered
    exact (hregistered trivial).elim
  | some next =>
    rw [hnext] at hregistered
    cases next with
    | live => exact h
    | returned => trivial
    | _ => exact (hregistered trivial).elim

/-- **What a step of the server that takes no frame in leaves of it**, namely all. -/
theorem Awaited.step {w w' : World} {l : Label} {evs : List Event}
    (h : Awaited users codec id queue lane (w.tasks id)) (hs : step w l = some (w', evs))
    (hreads : l.reads ≠ some id) : Awaited users codec id queue lane (w'.tasks id) := by
  by_cases hactor : l.actor = some id
  swap
  · rw [(step_inv hs).tasks_other hactor]
    exact h
  cases l with
  -- where the task was not there, the Hello is awaited now
  | accept k admitted =>
    cases hactor
    simp only [ChatRs.step] at hs
    split at hs
    · cases hs
    · rename_i hnone
      rw [hnone] at h
      split at hs <;> cases hs <;> rw [World.goto_tasks, Function.update_self]
      · exact h
      · trivial
  | act k a =>
    cases hactor
    have hstep := step_inv hs
    simp only [ChatRs.step] at hs
    split at hs
    · rename_i phase hphase
      rw [hphase] at h
      unfold actStep at hs
      split at hs
      · cases hs
        rw [World.goto_tasks, Function.update_self]
        exact h
      · exact awaited_of_live h hphase hstep
      · -- before the registration, the only frame to come is the Hello
        rw [Option.map_eq_some_iff] at hs
        obtain ⟨next, hnext, heq⟩ := hs
        cases heq
        rw [World.goto_tasks, Function.update_self]
        exact h.handshake hnext hreads
    · cases hs
  | elapse | scan | sweep => cases hactor

/-- A frame is taken in while the task waits for its Hello, or by the pump. -/
theorem phase_of_receiving {w w' : World} {r : Result ClientFrame} {evs : List Event}
    (hs : step w (receiving id r (w.tasks id)) = some (w', evs)) :
    w.tasks id = some .awaitingHello ∨ ∃ name pc, w.tasks id = some (.live name pc) := by
  unfold receiving at hs
  split at hs
  · rename_i hat
    exact .inl hat
  rename_i hother
  simp only [ChatRs.step] at hs
  split at hs
  · rename_i phase hat
    cases phase with
    | live name pc => exact .inr ⟨name, pc, hat⟩
    | awaitingHello => exact absurd hat hother
    | _ => cases hs
  · cases hs

/-- The Hello is taken in. -/
theorem awaited_of_hello {w w' : World} {f : ClientFrame} {evs : List Event}
    (h : Held codec.readClient encodeClientFrame lane queue)
    (hat : w.tasks id = some .awaitingHello)
    (hs : step w (.act id (.recvHello (.ok f))) = some (w', evs)) :
    Awaited users codec id queue lane (w'.tasks id) := by
  have after {next : Phase}
      (hnext : handshakeStep .awaitingHello (.recvHello (.ok f)) = some next) :
      Awaited users codec id queue lane (some next) := by
    cases f with
    | hello username =>
      simp only [handshakeStep] at hnext
      split at hnext <;> cases hnext
      · trivial
      · exact h
    | _ =>
      cases hnext
      trivial
  simp only [ChatRs.step, hat] at hs
  obtain ⟨next, hnext, heq⟩ := Option.map_eq_some_iff.mp hs
  cases heq
  rw [World.goto_tasks, Function.update_self]
  exact after hnext

end

/-! ## Every run is a run over queues -/

/-- A net with queues in the place of the network. -/
def Net.plain (c : Net) (toServer : Uuid → List ClientFrame) (toClient : Uuid → List ServerFrame) :
    Chat := ⟨c.world, c.client, toServer, toClient⟩

section

variable (users : Uuid → Option String) (codec : Codec) in
/-- The queues have what is on its way. -/
structure Holds (c : Net) (toServer : Uuid → List ClientFrame)
    (toClient : Uuid → List ServerFrame) : Prop where
  toServer : ∀ id username, users id = some username →
    Awaited users codec id (toServer id) (c.toServer id) (c.world.tasks id)
  toClient : ∀ id username, users id = some username →
    Held codec.readServer encodeServerFrame (c.toClient id) (toClient id)

variable (aead : Aead) (roomKey : Key) (roomName : String) (users : Uuid → Option String)
  (codec : Codec) in
/-- Some queues do for the network. -/
def Refined (c : Config Net ChatEvent) : Prop :=
  ∃ toServer toClient,
    (chat aead roomKey roomName users).Reach free ⟨c.past, c.state.plain toServer toClient⟩
      ∧ Holds users codec c.state toServer toClient

variable {aead : Aead} {roomKey : Key} {roomName : String} {users : Uuid → Option String}
  {ciphers : Ciphers} {codec : Codec} {c : Config Net ChatEvent}
  {toServer : Uuid → List ClientFrame} {toClient : Uuid → List ServerFrame}

theorem readable_of_fits (hcodec : codec.Faithful) {f : ServerFrame} (h : FitsTransport f) :
    codec.readServer (encodeServerFrame f) = some f :=
  hcodec.server f (ServerFrame.fits_of_length (isUsize_of_sealed h.1))

/-- A frame that could be sealed can be decoded. -/
theorem readable_of_sealed (hcodec : codec.Faithful) {f : ClientFrame}
    (h : transportSealLen (encodeClientFrame f) ≤ NOISE_BUF) :
    codec.readClient (encodeClientFrame f) = some f :=
  hcodec.client f (ClientFrame.fits_of_length (isUsize_of_sealed h))

/-- The name of a client fits into a transport message. -/
theorem introduction_fits {id : Uuid} :
    ∀ f ∈ introduction users id, transportSealLen (encodeClientFrame f) ≤ NOISE_BUF := by
  intro f hf
  unfold introduction at hf
  split at hf
  · cases hf
  · split at hf
    · rw [List.mem_singleton.mp hf]
      assumption
    · cases hf

/-- Before the first step nothing is on its way, on either network. -/
theorem refined_init (hcodec : codec.Faithful) :
    Refined aead roomKey roomName users codec
      (net aead roomKey roomName users ciphers codec).start := by
  refine ⟨fun _ => [], fun _ => [], .refl, ?_, fun id _ _ => .new⟩
  intro id username _
  have hnew : Held codec.readClient encodeClientFrame .new [] := .new
  show Held codec.readClient encodeClientFrame
    (Lane.new.writeAll ((introduction users id).map encodeClientFrame))
    (introduction users id ++ [])
  rw [List.append_nil]
  exact hnew.writeAll fun f hf => readable_of_sealed hcodec (introduction_fits f hf)

/-- A step of the server. -/
theorem refined_serves (hcodec : codec.Faithful)
    (hreach : (chat aead roomKey roomName users).Reach free
      ⟨c.past, c.state.plain toServer toClient⟩)
    (hholds : Holds users codec c.state toServer toClient) {l : Label}
    {toServer' : Uuid → List ClientFrame} {lanes : Uuid → Lane (List UInt8)}
    (hunread : unread users (c.state.plain toServer toClient) l = some toServer')
    (hlanes : ∀ w evs, step c.state.world l = some (w, evs) → ∀ id username,
      users id = some username → Awaited users codec id (toServer' id) (lanes id) (w.tasks id))
    {s : Net} {evs : List ChatEvent} (hs : serving c.state lanes l = some (s, evs)) :
    Refined aead roomKey roomName users codec ⟨c.past ++ evs, s⟩ := by
  unfold serving at hs
  split at hs
  · cases hs
  rename_i w evs' hstep
  cases hs
  let toClient' := fun k =>
    toClient k ++ welcomeOut c.state.world l k ++ deliveredTo k evs'
  refine ⟨toServer', toClient', ?_, hlanes w evs' hstep, fun id username huser => ?_⟩
  · refine hreach.tail (.mk (ChatLabel.server l) _ (evs'.map ChatEvent.room) trivial ?_)
    show chatStep aead roomKey roomName users _ (.server l) = _
    simp only [chatStep, hunread]
    simp only [Net.plain, hstep]
    rfl
  · have hsent := sent_fits (chat_room hreach) trivial hstep id
    show Held codec.readServer encodeServerFrame _
      (toClient id ++ welcomeOut c.state.world l id ++ deliveredTo id evs')
    rw [List.append_assoc]
    exact (hholds.toClient id username huser).writeAll fun f hf =>
      readable_of_fits hcodec (hsent f hf)

/-- A turn of a client. -/
theorem refined_turns (hcodec : codec.Faithful)
    (hreach : (chat aead roomKey roomName users).Reach free
      ⟨c.past, c.state.plain toServer toClient⟩)
    (hholds : Holds users codec c.state toServer toClient) {id : Uuid} {clock : Clock} {i : Input}
    {rest : List ServerFrame} {lane : Lane (List UInt8)}
    (hunheard : unheard (toClient id) i = some rest)
    (hlane : ∀ username, users id = some username →
      Held codec.readServer encodeServerFrame lane rest)
    {s : Net} {evs : List ChatEvent}
    (hs : turning aead roomKey c.state id lane clock i = some (s, evs)) :
    Refined aead roomKey roomName users codec ⟨c.past ++ evs, s⟩ := by
  unfold turning at hs
  split at hs
  swap
  · cases hs
  rename_i ui hclient
  cases hs
  refine ⟨Function.update toServer id (toServer id ++ written aead roomKey ui clock i),
    Function.update toClient id rest, ?_, ?_, ?_⟩
  · refine hreach.tail (.mk (ChatLabel.turn id clock i) _ [ChatEvent.turned id clock i] trivial ?_)
    show chatStep aead roomKey roomName users _ (.turn id clock i) = _
    simp only [chatStep, Net.plain, hclient, hunheard]
  · intro k username huser
    -- what the turn wrote lies on the lane behind the rest
    have hheld := hholds.toServer k username huser
    rcases eq_or_ne k id with rfl | hne
    · simp only [Function.update_self]
      exact hheld.writeAll fun f hf => readable_of_sealed hcodec (written_fits f hf)
    · simp only [Function.update_of_ne hne]
      exact hheld
  · intro k username huser
    rcases eq_or_ne k id with rfl | hne
    · simp only [Function.update_self]
      exact hlane username huser
    · simp only [Function.update_of_ne hne]
      exact hholds.toClient k username huser

/-- The client starts its loop. -/
theorem refined_joins (hreach : (chat aead roomKey roomName users).Reach free
      ⟨c.past, c.state.plain toServer toClient⟩)
    (hholds : Holds users codec c.state toServer toClient) {id : Uuid} {clocks : Nat → Clock}
    {username : String} {userId : Uuid} {history : List RoomMessage} {rest : List ServerFrame}
    {lane : Lane (List UInt8)} (huser : users id = some username)
    (hclient : c.state.client id = .waiting)
    (hqueue : toClient id = .welcome userId history :: rest)
    (hlane : Held codec.readServer encodeServerFrame lane rest) :
    Refined aead roomKey roomName users codec
      ⟨c.past ++ [.joined id (clocked clocks history)],
        { c.state with
          client := Function.update c.state.client id (.running
            (welcomed aead roomKey username userId roomName (clocked clocks history)))
          toClient := Function.update c.state.toClient id lane }⟩ := by
  refine ⟨toServer, Function.update toClient id rest, ?_, hholds.toServer, ?_⟩
  · refine hreach.tail (.mk (ChatLabel.join id clocks) _ _ trivial ?_)
    show chatStep aead roomKey roomName users _ (.join id clocks) = _
    simp only [chatStep, Net.plain, huser, hclient, hqueue]
  · intro k name hname
    rcases eq_or_ne k id with rfl | hne
    · simp only [Function.update_self]
      exact hlane
    · simp only [Function.update_of_ne hne]
      exact hholds.toClient k name hname

/-- Before the task has taken the Hello in, there is nothing behind it. -/
theorem queue_of_awaitingHello (hreach : (chat aead roomKey roomName users).Reach free
      ⟨c.past, c.state.plain toServer toClient⟩) {id : Uuid} {username : String}
    (huser : users id = some username) (hat : c.state.world.tasks id = some .awaitingHello) :
    toServer id = [] := by
  cases connected hreach huser with
  | outside huntouched => exact huntouched.toServer
  | welcomed history huntouched => exact huntouched.toServer
  | talking history htalking =>
    have hgreeted : Greeted (c.state.world.tasks id) := htalking.greeted
    rw [hat] at hgreeted
    exact hgreeted.elim

/-- A step that takes in nothing of a client's. -/
theorem unread_of_reads {d : Chat} {l : Label} (h : l.reads.bind users = none) :
    unread users d l = some d.toServer := by
  unfold unread
  split
  · rename_i id f
    have hnobody : users id = none := h
    simp only [hnobody]
  · rename_i id f
    have hnobody : users id = none := h
    simp only [hnobody]
  · rfl

/-- A step of the server that reads nothing is the same over both networks. -/
theorem refined_quiet (hcodec : codec.Faithful)
    (hreach : (chat aead roomKey roomName users).Reach free
      ⟨c.past, c.state.plain toServer toClient⟩)
    (hholds : Holds users codec c.state toServer toClient) {l : Label}
    (hreads : l.reads.bind users = none) {s : Net} {evs : List ChatEvent}
    (hs : serving c.state c.state.toServer l = some (s, evs)) :
    Refined aead roomKey roomName users codec ⟨c.past ++ evs, s⟩ := by
  refine refined_serves hcodec hreach hholds (unread_of_reads hreads) ?_ hs
  intro w evs' hstep id username huser
  refine (hholds.toServer id username huser).step hstep fun heq => ?_
  rw [heq] at hreads
  have hnobody : users id = none := hreads
  rw [huser] at hnobody
  cases hnobody

/-- What the client's side of a connection opens first. -/
theorem hello_of_introduction {id : Uuid} {username : String} (huser : users id = some username)
    {f : ClientFrame} {rest : List ClientFrame} (h : introduction users id = f :: rest) :
    f = .hello username ∧ rest = [] := by
  simp only [introduction, huser] at h
  split at h <;> cases h
  exact ⟨rfl, rfl⟩

/-- The lane of one task changes with the task. -/
theorem Holds.take (hholds : Holds users codec c.state toServer toClient) {id : Uuid}
    {rest : List ClientFrame} {lane : Lane (List UInt8)} {w : World} {l : Label}
    {evs : List Event} (hactor : l.actor = some id) (hs : step c.state.world l = some (w, evs))
    (hself : Awaited users codec id rest lane (w.tasks id)) (k : Uuid) (username : String)
    (huser : users k = some username) :
    Awaited users codec k (Function.update toServer id rest k)
      (Function.update c.state.toServer id lane k) (w.tasks k) := by
  rcases eq_or_ne k id with rfl | hne
  · simp only [Function.update_self]
    exact hself
  · have hother : l.actor ≠ some k := by
      rw [hactor]
      exact fun heq => hne (Option.some.inj heq).symm
    simp only [Function.update_of_ne hne]
    rw [(step_inv hs).tasks_other hother]
    exact hholds.toServer k username huser

/-- **What the task takes in is the next frame**, first the Hello with its client's name. -/
theorem refined_takes (hcodec : codec.Faithful)
    (hreach : (chat aead roomKey roomName users).Reach free
      ⟨c.past, c.state.plain toServer toClient⟩)
    (hholds : Holds users codec c.state toServer toClient) {id : Uuid} {username : String}
    (huser : users id = some username) {ct : List UInt8}
    (hsealed : Sealed (ciphers.atServer id) (c.state.toServer id) ct) {r : Result ClientFrame}
    {lane : Lane (List UInt8)}
    (hopened : opened (ciphers.atServer id) codec.readClient (c.state.toServer id) ct = (r, lane))
    {s : Net} {evs : List ChatEvent}
    (hs : serving c.state (Function.update c.state.toServer id lane)
      (receiving id r (c.state.world.tasks id)) = some (s, evs)) :
    Refined aead roomKey roomName users codec ⟨c.past ++ evs, s⟩ := by
  have hawaited := hholds.toServer id username huser
  obtain ⟨w, sevs, hstep⟩ : ∃ w sevs,
      step c.state.world (receiving id r (c.state.world.tasks id)) = some (w, sevs) := by
    unfold serving at hs
    split at hs
    · cases hs
    · exact ⟨_, _, by assumption⟩
  rcases phase_of_receiving hstep with hat | ⟨name, pc, hat⟩
  · -- the first frame: nothing can be behind it before the Welcome
    rw [hat] at hawaited hs
    have hqueue := queue_of_awaitingHello hreach huser hat
    have hheld : Held codec.readClient encodeClientFrame (c.state.toServer id)
        (introduction users id ++ toServer id) := hawaited
    rw [hqueue, List.append_nil] at hheld
    -- what does not open is an error, and nothing is taken from the queue
    rcases hheld.opened hsealed with herror | ⟨f, rest, hfirst, hok, hrest⟩
    · cases hopened.symm.trans herror
      rw [Function.update_eq_self] at hs
      exact refined_quiet hcodec hreach hholds rfl hs
    · cases hopened.symm.trans hok
      obtain ⟨rfl, rfl⟩ := hello_of_introduction huser hfirst
      have hunread :
          unread users (c.state.plain toServer toClient)
              (.act id (.recvHello (.ok (.hello username))))
            = some (Function.update toServer id []) := by
        rw [← hqueue, Function.update_eq_self]
        simp only [unread, huser, Net.plain, if_true]
      exact refined_serves hcodec hreach hholds hunread
        (fun w evs hs => hholds.take rfl hs (awaited_of_hello hrest hat hs)) hs
  · -- the pump
    rw [hat] at hawaited hs
    have hheld : Held codec.readClient encodeClientFrame (c.state.toServer id) (toServer id) :=
      hawaited
    rcases hheld.opened hsealed with herror | ⟨f, rest, hqueue, hok, hrest⟩
    · cases hopened.symm.trans herror
      rw [Function.update_eq_self] at hs
      exact refined_quiet hcodec hreach hholds rfl hs
    · cases hopened.symm.trans hok
      refine refined_serves hcodec hreach hholds ?_
        (fun w evs hs => hholds.take rfl hs (awaited_of_live hrest hat (step_inv hs))) hs
      simp only [receiving, unread, huser, Net.plain, hqueue, if_true]

/-- **One step over the hostile network is at most one over the ordered queues**: what the attacker
does to a ciphertext in flight is none, and what is opened is the next frame of the queue. -/
theorem refined_step (hcodec : codec.Faithful) {l : NetLabel} (hunforged : Unforged ciphers c l)
    (ih : Refined aead roomKey roomName users codec c) {s : Net} {evs : List ChatEvent}
    (hs : netStep aead roomKey roomName users ciphers codec c.state l = some (s, evs)) :
    Refined aead roomKey roomName users codec ⟨c.past ++ evs, s⟩ := by
  obtain ⟨toServer, toClient, hreach, hholds⟩ := ih
  cases l with
  | server l =>
    simp only [netStep] at hs
    split at hs
    · -- the server does not read in this step
      rename_i hreads
      exact refined_quiet hcodec hreach hholds hreads hs
    · cases hs
  | toServer id ct =>
    simp only [netStep] at hs
    split at hs
    · rename_i username r lane huser hopened
      exact refined_takes hcodec hreach hholds huser hunforged hopened hs
    · cases hs
  | join id clocks ct =>
    simp only [netStep] at hs
    split at hs
    · rename_i username userId history lane huser hclient hopened
      cases hs
      -- the client does not join with what does not open
      rcases (hholds.toClient id username huser).opened hunforged with
        herror | ⟨f, rest, hqueue, hok, hrest⟩
      · cases hopened.symm.trans herror
      · cases hopened.symm.trans hok
        exact refined_joins hreach hholds huser hclient hqueue hrest
    · cases hs
  | toClient id clock ct =>
    simp only [netStep] at hs
    split at hs
    · rename_i username r lane huser hopened
      have hheld := hholds.toClient id username huser
      rcases hheld.opened hunforged with herror | ⟨f, rest, hqueue, hok, hrest⟩
      · cases hopened.symm.trans herror
        refine refined_turns hcodec hreach hholds ?_ (fun _ _ => hheld) hs
        rfl
      · cases hopened.symm.trans hok
        refine refined_turns hcodec hreach hholds ?_ (fun _ _ => hrest) hs
        simp only [unheard, hqueue, if_true]
    · cases hs
  | turn id clock i =>
    simp only [netStep] at hs
    split at hs
    · cases hs
    · rename_i hreads
      refine refined_turns hcodec hreach hholds ?_ (hholds.toClient id) hs
      unfold unheard
      split
      · exact absurd rfl hreads
      · rfl

variable (aead roomKey roomName) in
/-- Each side of a connection has taken in a beginning of what the other sent. -/
structure Undisturbed (past : List ChatEvent) (id : Uuid) (username : String) : Prop where
  silent : histories id past = [] → incomingFrom id (worldPast past) = []
  greeted : ∀ history ∈ histories id past,
    .snapshotted id (history.map Prod.snd) ∈ worldPast past
  toServer : ∀ history ∈ histories id past, incomingFrom id (worldPast past) <+:
    produced aead roomKey (welcomed aead roomKey username id roomName history) (inputsOf id past)
  toClient : ∀ history ∈ histories id past,
    (heard aead roomKey (welcomed aead roomKey username id roomName history)
      (inputsOf id past)).map Prod.snd <+: deliveredTo id (worldPast past)

/-- A connection of the ordered network is undisturbed: what was taken in and what was read are
beginnings of what was sent. -/
theorem Connected.undisturbed {d : Config Chat ChatEvent} {id : Uuid} {username : String}
    (h : Connected aead roomKey roomName d id username) :
    Undisturbed aead roomKey roomName d.past id username := by
  have untouched (h : Untouched d id) : Undisturbed aead roomKey roomName d.past id username := by
    have hnone : ∀ history, history ∉ histories id d.past := by
      rw [h.histories]
      exact fun history => List.not_mem_nil
    exact ⟨fun _ => h.incoming, fun x hx => (hnone x hx).elim, fun x hx => (hnone x hx).elim,
      fun x hx => (hnone x hx).elim⟩
  cases h with
  | outside huntouched => exact untouched huntouched
  | welcomed history huntouched => exact untouched huntouched
  | talking history htalking =>
    have hone : ∀ x ∈ histories id d.past, x = history := by
      rw [htalking.histories]
      exact fun x hx => List.mem_singleton.mp hx
    constructor
    · rw [htalking.histories]
      intro hnil
      cases hnil
    · intro x hx
      rw [hone x hx]
      exact htalking.snapshotted
    · intro x hx
      rw [hone x hx]
      exact (List.prefix_append _ _).trans htalking.sent
    · intro x hx
      rw [hone x hx, ← htalking.heard]
      exact List.prefix_append _ _

/-- **The network can only hand on or break.** Nothing opens under a number but what was sealed
under it. Then every run is, event for event, a run in which each connection has a queue for either
direction: whatever is replayed, reordered, changed or made up comes to an error of the one who gets
it. So along every run

* the server has taken a beginning of the client's frames, and nothing of a client before the
  client has read its Welcome;
* the client has taken a Welcome with a history of the server's, and then a beginning of what the
  server delivered to it. -/
theorem hostile_network (hcodec : codec.Faithful)
    (h : (net aead roomKey roomName users ciphers codec).Reach (Unforged ciphers) c) :
    (∃ toServer toClient, (chat aead roomKey roomName users).Reach free
        ⟨c.past, c.state.plain toServer toClient⟩ ∧ Holds users codec c.state toServer toClient)
      ∧ ∀ id username, users id = some username →
          Undisturbed aead roomKey roomName c.past id username := by
  have hrefined : Refined aead roomKey roomName users codec c :=
    Machine.Reach.invariant (P := fun c => Refined aead roomKey roomName users codec c)
      (refined_init hcodec)
      (fun c l s evs _ ih hunforged hs => refined_step hcodec hunforged ih hs) h
  refine ⟨hrefined, fun id username huser => ?_⟩
  obtain ⟨toServer, toClient, hreach, _⟩ := hrefined
  exact (connected hreach huser).undisturbed

end

namespace Knock

open Cast

/-- The number in front of the plaintext stands for the tag. -/
def numbered (n : Nat) : List UInt8 → Option (List UInt8)
  | [] => none
  | b :: plaintext => if b = UInt8.ofNat n then some plaintext else none

abbrev aliceNet : Machine Net NetLabel ChatEvent :=
  net Aead.tagging (draw 0) "main" (fun id => if id = alice then some "alice" else none)
    ⟨fun _ => numbered, fun _ => numbered⟩ quickCodec

/-- `Sealed` as a test. -/
def wasSealed (lane : Lane (List UInt8)) (ct : List UInt8) : Bool :=
  match numbered lane.recvNonce ct with
  | none => true
  | some plaintext => lane.sealed.contains (lane.recvNonce, plaintext)

theorem sealed_of_test {lane : Lane (List UInt8)} {ct : List UInt8}
    (h : wasSealed lane ct = true) : Sealed numbered lane ct := by
  intro plaintext hopen
  simp only [wasSealed, hopen, List.contains_iff_mem] at h
  exact h

def unforged (c : Config Net ChatEvent) : NetLabel → Bool
  | .toServer id ct => wasSealed (c.state.toServer id) ct
  | .join id _ ct => wasSealed (c.state.toClient id) ct
  | .toClient id _ ct => wasSealed (c.state.toClient id) ct
  | _ => true

theorem unforged_of_test (c : Config Net ChatEvent) (l : NetLabel) (h : unforged c l = true) :
    Unforged ⟨fun _ => numbered, fun _ => numbered⟩ c l := by
  cases l with
  | toServer | join | toClient => exact sealed_of_test h
  | server | turn => trivial

/-- The network hands the ciphertext of Alice's Hello on, and again when she is in the room. -/
def helloTwice : List NetLabel :=
  let hello := NetLabel.toServer alice (0 :: helloBytes)
  [.server (.accept alice true),
    .server (.act alice (.recvSelect (.ok (.roomSelect "main")))),
    .server (.act alice (.sendHello (.ok ()))), .server (.act alice (.handshake (.ok ()))), hello,
    .server (.act alice .register), .server (.act alice .snapshot),
    .server (.act alice (.sendWelcome (.ok ()))),
    .join alice (fun _ => ⟨0, 0⟩) (0 :: encodeServerFrame (.welcome alice [])), hello]

end Knock

open Knock Cast in
/-- A replayed Hello ends Alice's connection. -/
theorem hostile_network_alice :
    ∃ c, aliceNet.Reach (Unforged ⟨fun _ => numbered, fun _ => numbered⟩) c
      ∧ c.state.world.failing? alice = some ("alice", .noise)
      ∧ (histories alice c.past).length = 1
      ∧ Undisturbed Aead.tagging (draw 0) "main" c.past alice "alice" := by
  obtain ⟨c, hc, hends⟩ := Machine.exec_reach (M := aliceNet) unforged unforged_of_test
    (fun c => (c.state.world.failing? alice, (histories alice c.past).length))
    (some ("alice", .noise), 1) helloTwice (by decide)
  obtain ⟨hfails, hjoined⟩ := Prod.mk.inj hends
  exact ⟨c, hc, hfails, hjoined,
    (hostile_network quickCodec_faithful hc).2 alice "alice" (by decide)⟩

end ChatRs

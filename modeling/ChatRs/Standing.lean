import ChatRs.Link

/-!
# How a client and the server stand to each other (`client/mod.rs`, `server/mod.rs`)

The negotiation is half-duplex, so at every moment of it the two sides stand to each other in one of
a few ways: the stage of the connection, where `run` stands, and what is on the wire. In each of
them it is known what may still become of the call. The plan:

* **`Ends`**: what the client may end with, its verdict, or the end of the connection when the
  server has cut it off (**`CutOff`**): over the limit of its address, over the cap, or over a
  timer;
* **`Between`**, **`Stranded`**, **`InStep`**: the ways in which the two stand to each other;
* `dial_selects`, `dial_greeted`, `dial_finishes`, `dial_introduces`, `dial_hangs`: what the client
  does at each of its stages;
* **`client_stands`**: every step of the client leads from one of the ways to another.
-/

namespace ChatRs

open Machine (Config Guard free)

/-! ## How it ends -/

/-- All that the client sees is that the connection is gone. -/
def HungUp (o : Result Joined) : Prop := o = .error .closed ∨ o = .error .io

/-- Both ways in which the end of a connection reads are the same to the client. -/
theorem hungUp_lost (reset : Bool) : HungUp (.error (lost reset)) := by
  unfold lost
  split
  · exact .inr rfl
  · exact .inl rfl

/-- A connection that has ended is gone at the client's end, too. -/
theorem hungUp_of_gone {τ : Type} {door : Option Bool} {stage : Option (Stage τ)}
    (h : gone stage = true) : hungUp door stage = true := by
  cases stage with
  | none => cases h
  | some => exact h

/-- A write fails as a connection that is gone does. -/
theorem hungUp_of_outcome {fails : Bool} {e : Error} (h : outcome fails = .error e) :
    HungUp (.error e) := by
  unfold outcome at h
  split at h
  · cases h
    exact .inr rfl
  · cases h

/-- With what `handle_connection` returns when a timer goes off. -/
def timeouts : List String := ["room select timeout", "handshake timeout", "hello timeout"]

section

variable {τ : Type}

/-- The server has ended the client's connection for a reason of its own. -/
inductive CutOff : Option Bool → Option (Stage τ) → Prop
  /-- There were too many from its address: no task was spawned. -/
  | limited : CutOff (some false) none
  /-- There were too many at all. -/
  | turnedAway (door : Option Bool) :
      CutOff door (some (.returned (.error (.protocol "active-connection cap"))))
  /-- A timer went off. -/
  | timedOut (door : Option Bool) (why : String) (hwhy : why ∈ timeouts) :
      CutOff door (some (.returning (.error (.protocol why))))
  | timedOutBefore (door : Option Bool) (why : String) (hwhy : why ∈ timeouts) :
      CutOff door (some (.returned (.error (.protocol why))))

theorem CutOff.hungUp {door : Option Bool} {stage : Option (Stage τ)} (h : CutOff door stage) :
    hungUp door stage = true := by
  cases h <;> rfl

/-- The server has read nothing yet. -/
inductive Waits (door : Option Bool) : Option (Stage τ) → Prop
  | unaccepted (hdoor : door ≠ some false) : Waits door none
  | selecting : Waits door (some .selecting)
  | rollingBack : Waits door (some .rollingBack)

/-- A server that waits has not hung up. -/
theorem Waits.not_hungUp {door : Option Bool} {stage : Option (Stage τ)} (h : Waits door stage) :
    ChatRs.hungUp door stage = false := by
  cases h with
  | unaccepted hdoor => exact beq_eq_false_iff_ne.mpr hdoor
  | selecting => rfl
  | rollingBack => rfl

/-- A server that waits has not cut the client off. -/
theorem Waits.not_cutOff {door : Option Bool} {stage : Option (Stage τ)} (h : Waits door stage) :
    ¬ CutOff door stage := by
  intro hcut
  have hhung := hcut.hungUp
  rw [h.not_hungUp] at hhung
  cases hhung

/-- The server is still to find out that the client has gone. -/
inductive Left (door : Option Bool) : Option (Stage τ) → List (List UInt8) → Prop
  | waits {stage : Option (Stage τ)} (h : Waits door stage) : Left door stage []
  | handshaking (ref : RoomRef) (room : RoomState) : Left door (some (.handshaking ref room)) []
  | awaitingHello (ref : RoomRef) (room : RoomState) (t : τ) :
      Left door (some (.awaitingHello ref room t)) []
  | gone {stage : Option (Stage τ)} (queue : List (List UInt8)) (h : hungUp door stage = true) :
      Left door stage queue

end

section

variable {σ τ : Type} (N : Snow σ τ) (kdf : Kdf) (fill : Nat → Option Key) (hub : ServerHub)
  (caller : Caller)

/-- Where the caller is seated. -/
def Caller.ref : RoomRef := hub.place caller.room caller.id

/-- The client has ended as the verdict says. One that is admitted gets into the event loop, unless
its terminal does not open. -/
def Fulfils (past : List ServerEvent) (o : Result Joined) : Verdict → Prop
  | .fails e => o = .error e
  | .hangsUp => HungUp o
  | .admitted roomKey =>
    ∃ history, (o = .ok ⟨roomKey, caller.id, history⟩ ∨ o = .error .io)
      ∧ .room (caller.ref hub) (.registered caller.id caller.username) ∈ past
      ∧ .room (caller.ref hub) (.snapshotted caller.id history) ∈ past

/-- The verdict on the caller, for what was found under the name when it asked. -/
def Comes (v : Verdict) : Prop :=
  ∃ k, verdict kdf caller.room caller.username caller.password
    (hub.select fill caller.room k).1 = v

/-- The client has ended as it should: it was cut off, or as the verdict says. -/
def Ends (past : List ServerEvent) (door : Option Bool) (stage : Option (Stage τ))
    (o : Result Joined) : Prop :=
  (CutOff door stage ∧ HungUp o) ∨ ∃ v, Comes kdf fill hub caller v ∧ Fulfils hub caller past o v

/-- What a client that listens is going to make of the frames before the end of the connection. -/
inductive Tells : Dial σ τ → List (List UInt8) → Verdict → Prop
  | noHello : Tells .awaitingHello [] .hangsUp
  | noM1 (keys : DerivedKeys) (handshake : σ) : Tells (.awaitingM1 keys handshake) [] .hangsUp
  | badRoom :
      Tells .awaitingHello [encodeServerFrame (.error .badFrame)] (.fails (.server .badFrame))
  | badName (roomKey : Key) (t t' : τ) (hpaired : N.Paired t' t) :
      Tells (.awaitingWelcome roomKey t')
        [N.writeMessage t (encodeServerFrame (.error .badFrame))] (.fails (.server .badFrame))

/-- What is left to a client that was cut off: it goes on until it comes upon the end, or fails
before as the verdict has it. -/
inductive Stranded : Dial σ τ → List (List UInt8) → Prop
  | selecting : Stranded .selecting []
  | awaitingHello : Stranded .awaitingHello []
  | greeted (room : RoomState) (hid : room.roomId = caller.room)
      (hcomes : Comes kdf fill hub caller
        (roomVerdict kdf caller.username caller.password room)) :
      Stranded .awaitingHello [encodeServerFrame room.hello]
  | initiating (keys : DerivedKeys) (m0 : List UInt8) (handshake : σ) :
      Stranded (.initiating keys m0 handshake) []
  | awaitingM1 (keys : DerivedKeys) (handshake : σ) : Stranded (.awaitingM1 keys handshake) []
  | answered (keys : DerivedKeys) (handshake : σ) (m1 : List UInt8) (t' : τ)
      (hcomes : Comes kdf fill hub caller (nameVerdict caller.username keys.roomKey))
      (hfinish : N.finish handshake m1 = some t') : Stranded (.awaitingM1 keys handshake) [m1]
  | introducing (roomKey : Key) (t' : τ)
      (hcomes : Comes kdf fill hub caller (nameVerdict caller.username roomKey)) :
      Stranded (.introducing roomKey t') []
  | awaitingWelcome (roomKey : Key) (t' : τ) : Stranded (.awaitingWelcome roomKey t') []

/-- How the two sides stand to each other while they negotiate, with the frames on their way: the
stage of the connection, where `run` stands, the server's end of the transport, and the two
queues. -/
inductive Between (past : List ServerEvent) (task : RoomRef → Option Phase) :
    Stage τ → Dial σ τ → Option τ → List (List UInt8) → List (List UInt8) → Prop
  | greeting (room : RoomState) (hid : room.roomId = caller.room)
      (hcomes : Comes kdf fill hub caller
        (roomVerdict kdf caller.username caller.password room)) :
      Between past task (.greeting (caller.ref hub) room) .awaitingHello none [] []
  | greeted (room : RoomState) (hid : room.roomId = caller.room)
      (hcomes : Comes kdf fill hub caller
        (roomVerdict kdf caller.username caller.password room)) :
      Between past task (.handshaking (caller.ref hub) room) .awaitingHello none []
        [encodeServerFrame room.hello]
  | initiating (room : RoomState) (keys : DerivedKeys) (m0 : List UInt8) (handshake : σ)
      (ephemeral : Nat)
      (hcomes : Comes kdf fill hub caller
        (if keys.psk = room.psk then nameVerdict caller.username keys.roomKey else .hangsUp))
      (hinitiate : N.initiate ephemeral keys.psk room.prologue = some (m0, handshake)) :
      Between past task (.handshaking (caller.ref hub) room) (.initiating keys m0 handshake)
        none [] []
  | initiated (room : RoomState) (keys : DerivedKeys) (m0 : List UInt8) (handshake : σ)
      (ephemeral : Nat)
      (hcomes : Comes kdf fill hub caller
        (if keys.psk = room.psk then nameVerdict caller.username keys.roomKey else .hangsUp))
      (hinitiate : N.initiate ephemeral keys.psk room.prologue = some (m0, handshake)) :
      Between past task (.handshaking (caller.ref hub) room) (.awaitingM1 keys handshake)
        none [m0] []
  | answering (room : RoomState) (keys : DerivedKeys) (handshake : σ) (m1 : List UInt8) (t t' : τ)
      (hcomes : Comes kdf fill hub caller (nameVerdict caller.username keys.roomKey))
      (hfinish : N.finish handshake m1 = some t') (hpaired : N.Paired t' t) :
      Between past task (.answering (caller.ref hub) room m1 t) (.awaitingM1 keys handshake)
        (some t) [] []
  | answered (room : RoomState) (keys : DerivedKeys) (handshake : σ) (m1 : List UInt8) (t t' : τ)
      (hcomes : Comes kdf fill hub caller (nameVerdict caller.username keys.roomKey))
      (hfinish : N.finish handshake m1 = some t') (hpaired : N.Paired t' t) :
      Between past task (.awaitingHello (caller.ref hub) room t) (.awaitingM1 keys handshake)
        (some t) [] [m1]
  | introducing (room : RoomState) (roomKey : Key) (t t' : τ)
      (hcomes : Comes kdf fill hub caller (nameVerdict caller.username roomKey))
      (hpaired : N.Paired t' t) :
      Between past task (.awaitingHello (caller.ref hub) room t) (.introducing roomKey t')
        (some t) [] []
  | introduced (room : RoomState) (roomKey : Key) (t t' : τ)
      (hcomes : Comes kdf fill hub caller (nameVerdict caller.username roomKey))
      (hpaired : N.Paired t' t)
      (hsize : transportSealLen (encodeClientFrame (.hello caller.username)) ≤ NOISE_BUF) :
      Between past task (.awaitingHello (caller.ref hub) room t)
        (.awaitingWelcome roomKey t') (some t)
        [N.writeMessage t' (encodeClientFrame (.hello caller.username))] []
  | registering (roomKey : Key) (t t' : τ) (hcomes : Comes kdf fill hub caller (.admitted roomKey))
      (hpaired : N.Paired t' t) :
      Between past task (.registering (caller.ref hub) caller.username)
        (.awaitingWelcome roomKey t') (some t) [] []
  | snapshotting (roomKey : Key) (t t' : τ) (hcomes : Comes kdf fill hub caller (.admitted roomKey))
      (hpaired : N.Paired t' t)
      (hregistered : .room (caller.ref hub) (.registered caller.id caller.username) ∈ past)
      (htask : task (caller.ref hub) = some (.live caller.username .snapshotting)) :
      Between past task (.joined (caller.ref hub)) (.awaitingWelcome roomKey t') (some t) [] []
  | welcoming (roomKey : Key) (t t' : τ) (history : List RoomMessage)
      (hcomes : Comes kdf fill hub caller (.admitted roomKey)) (hpaired : N.Paired t' t)
      (hregistered : .room (caller.ref hub) (.registered caller.id caller.username) ∈ past)
      (hsnapshotted : .room (caller.ref hub) (.snapshotted caller.id history) ∈ past)
      (htask : task (caller.ref hub) = some (.live caller.username (.welcoming history))) :
      Between past task (.joined (caller.ref hub)) (.awaitingWelcome roomKey t') (some t) [] []

/-- How the two sides stand to each other, from the call to the event loop. -/
inductive InStep (past : List ServerEvent) (task : RoomRef → Option Phase) (door : Option Bool) :
    Option (Stage τ) → Dial σ τ → Option τ → List (List UInt8) → List (List UInt8) → Prop
  | calls {stage : Option (Stage τ)} (hwaits : Waits door stage) :
      InStep past task door stage .selecting none [] []
  | called {stage : Option (Stage τ)} (hwaits : Waits door stage)
      (hsize : (encodeClientFrame (.roomSelect caller.room)).length ≤ MAX_FRAME_LEN) :
      InStep past task door stage .awaitingHello none
        [encodeClientFrame (.roomSelect caller.room)] []
  | between {stage : Stage τ} {dial : Dial σ τ} {far : Option τ}
      {toServer toClient : List (List UInt8)}
      (hbetween : Between N kdf fill hub caller past task stage dial far toServer toClient) :
      InStep past task door (some stage) dial far toServer toClient
  | refused {stage : Option (Stage τ)} {dial : Dial σ τ} (far : Option τ)
      (toServer : List (List UInt8)) {toClient : List (List UInt8)} {v : Verdict}
      (hgone : gone stage = true) (htells : Tells N dial toClient v)
      (hcomes : Comes kdf fill hub caller v) :
      InStep past task door stage dial far toServer toClient
  | cutOff {stage : Option (Stage τ)} {dial : Dial σ τ} (far : Option τ)
      (toServer : List (List UInt8)) {toClient : List (List UInt8)} (hcut : CutOff door stage)
      (hstranded : Stranded N kdf fill hub caller dial toClient) :
      InStep past task door stage dial far toServer toClient
  | failed {stage : Option (Stage τ)} {e : Error} (far : Option τ) {toServer : List (List UInt8)}
      (toClient : List (List UInt8)) (hleft : Left door stage toServer)
      (hends : Ends kdf fill hub caller past door stage (.error e)) :
      InStep past task door stage (.ended (.error e)) far toServer toClient
  | welcomed {stage : Option (Stage τ)} (roomKey : Key) (t t' : τ) (history : List RoomMessage)
      (hcomes : Comes kdf fill hub caller (.admitted roomKey)) (hpaired : N.Paired t' t)
      (hregistered : .room (caller.ref hub) (.registered caller.id caller.username) ∈ past)
      (hsnapshotted : .room (caller.ref hub) (.snapshotted caller.id history) ∈ past)
      (hsize : transportSealLen (encodeServerFrame (.welcome caller.id history)) ≤ NOISE_BUF)
      (hfits : (ServerFrame.welcome caller.id history).Fits) (hlate : late task stage = true) :
      InStep past task door stage (.awaitingWelcome roomKey t') (some t) []
        [N.writeMessage t (encodeServerFrame (.welcome caller.id history))]
  | entering {stage : Option (Stage τ)} (far : Option τ) (toServer toClient : List (List UInt8))
      (roomKey : Key) (history : List RoomMessage)
      (hcomes : Comes kdf fill hub caller (.admitted roomKey))
      (hregistered : .room (caller.ref hub) (.registered caller.id caller.username) ∈ past)
      (hsnapshotted : .room (caller.ref hub) (.snapshotted caller.id history) ∈ past)
      (hlate : late task stage = true) :
      InStep past task door stage (.entering ⟨roomKey, caller.id, history⟩) far toServer toClient
  | inside {stage : Option (Stage τ)} (far : Option τ) (toServer toClient : List (List UInt8))
      {o : Result Joined} (hlate : late task stage = true)
      (hends : Ends kdf fill hub caller past door stage o) :
      InStep past task door stage (.ended o) far toServer toClient

end

/-! ## The two readings of each frame -/

section

variable {σ τ : Type} {N : Snow σ τ} {codec : Codec} {kdf : Kdf} {fill : Nat → Option Key}
  {hub : ServerHub} {caller : Caller} {past : List ServerEvent}

theorem client_recvPostcard (hcodec : codec.Faithful) {f : ServerFrame} (hfits : f.Fits) :
    Client.recvPostcard codec (.ok (encodeServerFrame f)) = .ok f := by
  simp only [Client.recvPostcard, Client.fromBytes, hcodec.server f hfits]

/-- The client opens a frame that the server has sealed for it. -/
theorem client_recvEncrypted (hcodec : codec.Faithful) {t t' : τ} (hpaired : N.Paired t' t)
    {f : ServerFrame} (hfits : f.Fits)
    (hsize : transportSealLen (encodeServerFrame f) ≤ NOISE_BUF) :
    Client.recvEncrypted N codec t' (.ok (N.writeMessage t (encodeServerFrame f))) = .ok f := by
  simp only [Client.recvEncrypted, transportOpen, (hpaired _ hsize).2, Client.fromBytes,
    hcodec.server f hfits]

/-- What was registered and snapshotted stays so. -/
theorem Fulfils.mono {o : Result Joined} {v : Verdict} (h : Fulfils hub caller past o v)
    (evs : List ServerEvent) : Fulfils hub caller (past ++ evs) o v := by
  cases v with
  | fails e => exact h
  | hangsUp => exact h
  | admitted roomKey =>
    obtain ⟨history, ho, hregistered, hsnapshotted⟩ := h
    exact ⟨history, ho, List.mem_append_left _ hregistered, List.mem_append_left _ hsnapshotted⟩

section

variable {door door' : Option Bool} {stage stage' : Option (Stage τ)} {o : Result Joined}

/-- A client that has come to its end keeps it, whatever happens on the server. -/
theorem Ends.mono (h : Ends kdf fill hub caller past door stage o) (evs : List ServerEvent) :
    Ends kdf fill hub caller (past ++ evs) door stage o := by
  rcases h with hcut | ⟨v, hcomes, hfulfils⟩
  · exact .inl hcut
  · exact .inr ⟨v, hcomes, hfulfils.mono evs⟩

/-- A client that has come to its end keeps it when the server goes on. -/
theorem Ends.goesOn (h : Ends kdf fill hub caller past door stage o)
    (hstage : CutOff door stage → CutOff door' stage') :
    Ends kdf fill hub caller past door' stage' o :=
  h.imp_left (And.imp_left hstage)

theorem Comes.fails {e : Error} (h : Comes kdf fill hub caller (.fails e)) :
    Ends kdf fill hub caller past door stage (.error e) :=
  .inr ⟨_, h, rfl⟩

theorem Comes.hangsUp (h : Comes kdf fill hub caller .hangsUp) (ho : HungUp o) :
    Ends kdf fill hub caller past door stage o :=
  .inr ⟨_, h, ho⟩

end

/-- In the middle of the negotiation the connection is there. -/
theorem Between.not_gone {stage : Stage τ} {task : RoomRef → Option Phase} {dial : Dial σ τ}
    {far : Option τ} {toServer toClient : List (List UInt8)}
    (h : Between N kdf fill hub caller past task stage dial far toServer toClient) :
    gone (some stage) = false := by
  cases h <;> rfl

/-! ## What the client does at each of its stages -/

/-- A frame that could be made is handed to the socket, which takes it or fails. -/
theorem of_sendThen {frame : Result (List UInt8)} {r : Result Unit} {next dial' : Dial σ τ}
    {sent : List (List UInt8)} (h : sendThen frame r next = (dial', sent)) :
    (∃ e, frame = .error e ∧ dial' = .ended (.error e) ∧ sent = [])
      ∨ ∃ bytes, frame = .ok bytes ∧ sent = [bytes]
        ∧ ((r = .ok () ∧ dial' = next) ∨ ∃ e, r = .error e ∧ dial' = .ended (.error e)) := by
  unfold sendThen at h
  split at h
  · rename_i e
    cases h
    exact .inl ⟨e, rfl, rfl, rfl⟩
  · rename_i bytes
    split at h
    · rename_i e
      cases h
      exact .inr ⟨bytes, rfl, rfl, .inr ⟨e, rfl, rfl⟩⟩
    · cases h
      exact .inr ⟨bytes, rfl, rfl, .inl ⟨rfl, rfl⟩⟩

section

variable {dial' : Dial σ τ} {sent : List (List UInt8)}

/-- The client asks for its room, if the name fits into a frame. -/
theorem dial_selects (fill : Nat → Option Key) (hub : ServerHub) {r : Result Unit}
    (h : dialStep N codec kdf caller.room caller.username caller.password .selecting
      (.sendSelect r) = some (dial', sent)) :
    (∃ e, Comes kdf fill hub caller (.fails e) ∧ dial' = .ended (.error e) ∧ sent = [])
      ∨ ((encodeClientFrame (.roomSelect caller.room)).length ≤ MAX_FRAME_LEN
        ∧ sent = [encodeClientFrame (.roomSelect caller.room)]
        ∧ ((r = .ok () ∧ dial' = .awaitingHello)
          ∨ ∃ e, r = .error e ∧ dial' = .ended (.error e))) := by
  by_cases hsize : (encodeClientFrame (.roomSelect caller.room)).length ≤ MAX_FRAME_LEN
  · rcases of_sendThen (Option.some.inj h) with ⟨e, hframe, _⟩ | ⟨bytes, hframe, hsent, hgoes⟩
    · rw [sendBytes, if_pos hsize] at hframe
      cases hframe
    · rw [sendBytes, if_pos hsize] at hframe
      cases hframe
      exact .inr ⟨hsize, hsent, hgoes⟩
  · rcases of_sendThen (Option.some.inj h) with ⟨e, hframe, hended, hsent⟩ | ⟨bytes, hframe, _⟩
    · rw [sendBytes, if_neg hsize] at hframe
      cases hframe
      exact .inl ⟨.io, ⟨0, if_pos (Nat.lt_of_not_le hsize)⟩, hended, hsent⟩
    · rw [sendBytes, if_neg hsize] at hframe
      cases hframe

/-- It reads the Hello of its room and derives its keys, if the KDF does not fail. -/
theorem dial_greeted (hlawful : N.Lawful) (hcodec : codec.Faithful) {room : RoomState}
    (hid : room.roomId = caller.room)
    (hcomes : Comes kdf fill hub caller (roomVerdict kdf caller.username caller.password room))
    {ephemeral : Nat} (h : dialStep N codec kdf caller.room caller.username caller.password
      .awaitingHello (.recvHello ephemeral (.ok (encodeServerFrame room.hello)))
        = some (dial', sent)) :
    sent = [] ∧ ((∃ e, Comes kdf fill hub caller (.fails e) ∧ dial' = .ended (.error e))
      ∨ ∃ keys m0 handshake,
        Comes kdf fill hub caller
            (if keys.psk = room.psk then nameVerdict caller.username keys.roomKey else .hangsUp)
          ∧ N.initiate ephemeral keys.psk room.prologue = some (m0, handshake)
          ∧ dial' = .initiating keys m0 handshake) := by
  simp only [dialStep, client_recvPostcard hcodec (f := room.hello) trivial] at h
  cases hkeys : deriveKeys kdf caller.password room.roomSalt with
  | error e =>
    simp only [roomVerdict, hkeys] at hcomes
    simp only [RoomState.hello, connect, readHello, ne_eq, not_true_eq_false, if_false, hkeys] at h
    cases h
    exact ⟨rfl, .inl ⟨e, hcomes, rfl⟩⟩
  | ok keys =>
    simp only [roomVerdict, hkeys] at hcomes
    rw [RoomState.hello, connect_of_hello hkeys] at h
    obtain ⟨⟨m0, handshake⟩, hinitiate⟩ := Option.isSome_iff_exists.mp
      (hlawful.initiates ephemeral keys.psk
        (buildPrologue caller.room room.roomSalt PROTOCOL_VERSION))
    simp only [hinitiate] at h
    cases h
    rw [← hid] at hinitiate
    exact ⟨rfl, .inr ⟨keys, m0, handshake, hcomes, hinitiate, rfl⟩⟩

/-- The client reads the server's half of the handshake. -/
theorem dial_finishes {keys : DerivedKeys} {handshake : σ} {m1 : List UInt8} {t' : τ}
    (hfinish : N.finish handshake m1 = some t')
    (h : dialStep N codec kdf caller.room caller.username caller.password
      (.awaitingM1 keys handshake) (.recvM1 (.ok m1)) = some (dial', sent)) :
    dial' = .introducing keys.roomKey t' ∧ sent = [] := by
  simp only [dialStep, hfinish] at h
  cases h
  exact ⟨rfl, rfl⟩

/-- The client says its name, if that fits into a message of the transport. -/
theorem dial_introduces {roomKey : Key} {t' : τ}
    (hcomes : Comes kdf fill hub caller (nameVerdict caller.username roomKey)) {r : Result Unit}
    (h : dialStep N codec kdf caller.room caller.username caller.password
      (.introducing roomKey t') (.sendHello r) = some (dial', sent)) :
    (∃ e, Comes kdf fill hub caller (.fails e) ∧ dial' = .ended (.error e) ∧ sent = [])
      ∨ (transportSealLen (encodeClientFrame (.hello caller.username)) ≤ NOISE_BUF
        ∧ sent = [N.writeMessage t' (encodeClientFrame (.hello caller.username))]
        ∧ ((r = .ok () ∧ dial' = .awaitingWelcome roomKey t')
          ∨ ∃ e, r = .error e ∧ dial' = .ended (.error e))) := by
  by_cases hsize : transportSealLen (encodeClientFrame (.hello caller.username)) ≤ NOISE_BUF
  · rcases of_sendThen (Option.some.inj h) with ⟨e, hframe, _⟩ | ⟨bytes, hframe, hsent, hgoes⟩
    · rw [transportSeal, if_pos hsize] at hframe
      cases hframe
    · rw [transportSeal, if_pos hsize] at hframe
      cases hframe
      exact .inr ⟨hsize, hsent, hgoes⟩
  · rcases of_sendThen (Option.some.inj h) with ⟨e, hframe, hended, hsent⟩ | ⟨bytes, hframe, _⟩
    · rw [transportSeal, if_neg hsize] at hframe
      cases hframe
      rw [nameVerdict, if_pos (Nat.lt_of_not_le hsize)] at hcomes
      exact .inl ⟨.noise, hcomes, hended, hsent⟩
    · rw [transportSeal, if_neg hsize] at hframe
      cases hframe

/-- The client comes upon the end of the connection in the middle of a read. -/
theorem dial_hangs {dial : Dial σ τ} {fails : Bool} {ephemeral : Nat} {a : DialAct}
    {rest : List (List UInt8)}
    (hdial : dial = .awaitingHello ∨ (∃ keys handshake, dial = .awaitingM1 keys handshake)
      ∨ ∃ roomKey t', dial = .awaitingWelcome roomKey t')
    (hawait : dial.await [] true fails ephemeral = some (a, rest))
    (h : dialStep N codec kdf caller.room caller.username caller.password dial a
      = some (dial', sent)) :
    dial' = .ended (.error (lost fails)) ∧ sent = [] := by
  rcases hdial with rfl | ⟨keys, handshake, rfl⟩ | ⟨roomKey, t', rfl⟩
  all_goals
    cases hawait
    cases h
    exact ⟨rfl, rfl⟩

end

end

/-! ## A step of the client -/

section

variable {σ τ : Type} {N : Snow σ τ} {codec : Codec} {kdf : Kdf} {fill : Nat → Option Key}
  {hub : ServerHub} {caller : Caller} {past : List ServerEvent} {task : RoomRef → Option Phase}
  {door : Option Bool} {dial dial' : Dial σ τ} {far : Option τ}
  {toServer toClient rest sent : List (List UInt8)} {fails : Bool} {ephemeral : Nat} {a : DialAct}

/-- A client that was cut off goes on to its end. -/
theorem stranded_stands (hlawful : N.Lawful) (hcodec : codec.Faithful)
    {stage : Option (Stage τ)} (hcut : CutOff door stage)
    (h : Stranded N kdf fill hub caller dial toClient)
    (hawait : dial.await toClient true fails ephemeral = some (a, rest))
    (hstep : dialStep N codec kdf caller.room caller.username caller.password dial a
      = some (dial', sent)) :
    InStep N kdf fill hub caller past task door stage dial' far (toServer ++ sent) rest := by
  -- it sees that the connection is gone
  have hangs {e : Error} (he : HungUp (.error e)) (hdial : dial' = .ended (.error e)) :
      InStep N kdf fill hub caller past task door stage dial' far (toServer ++ sent) rest := by
    subst hdial
    exact .failed far rest (.gone _ hcut.hungUp) (.inl ⟨hcut, he⟩)
  -- it fails before, as the verdict has it
  have ends {e : Error} (hcomes : Comes kdf fill hub caller (.fails e))
      (hdial : dial' = .ended (.error e)) :
      InStep N kdf fill hub caller past task door stage dial' far (toServer ++ sent) rest := by
    subst hdial
    exact .failed far rest (.gone _ hcut.hungUp) hcomes.fails
  cases h with
  | selecting =>
    cases hawait
    rcases dial_selects fill hub hstep with
      ⟨e, hcomes, hdial, _⟩ | ⟨_, _, ⟨_, rfl⟩ | ⟨e, he, hdial⟩⟩
    · exact ends hcomes hdial
    · exact .cutOff far _ hcut .awaitingHello
    · exact hangs (hungUp_of_outcome he) hdial
  | awaitingHello =>
    exact hangs (hungUp_lost fails) (dial_hangs (.inl rfl) hawait hstep).1
  | greeted room hid hcomes =>
    cases hawait
    obtain ⟨_, ⟨e, hfails, hdial⟩ | ⟨keys, m0, handshake, _, _, rfl⟩⟩ :=
      dial_greeted hlawful hcodec hid hcomes hstep
    · exact ends hfails hdial
    · exact .cutOff far _ hcut (.initiating keys m0 handshake)
  | initiating keys m0 handshake =>
    cases hawait
    rcases of_sendThen (Option.some.inj hstep) with ⟨_, hframe, _⟩ | ⟨_, _, _, hgoes⟩
    · cases hframe
    · rcases hgoes with ⟨_, rfl⟩ | ⟨e, he, hdial⟩
      · exact .cutOff far _ hcut (.awaitingM1 keys handshake)
      · exact hangs (hungUp_of_outcome he) hdial
  | awaitingM1 keys handshake =>
    exact hangs (hungUp_lost fails) (dial_hangs (.inr (.inl ⟨_, _, rfl⟩)) hawait hstep).1
  | answered keys handshake m1 t' hcomes hfinish =>
    cases hawait
    obtain ⟨rfl, _⟩ := dial_finishes hfinish hstep
    exact .cutOff far _ hcut (.introducing keys.roomKey t' hcomes)
  | introducing roomKey t' hcomes =>
    cases hawait
    rcases dial_introduces hcomes hstep with
      ⟨e, hfails, hdial, _⟩ | ⟨_, _, ⟨_, rfl⟩ | ⟨e, he, hdial⟩⟩
    · exact ends hfails hdial
    · exact .cutOff far _ hcut (.awaitingWelcome roomKey t')
    · exact hangs (hungUp_of_outcome he) hdial
  | awaitingWelcome roomKey t' =>
    exact hangs (hungUp_lost fails) (dial_hangs (.inr (.inr ⟨_, _, rfl⟩)) hawait hstep).1

/-- In the middle of the negotiation the client answers as the verdict has it, and what it puts on
the wire is what the server waits for. -/
theorem between_client (hlawful : N.Lawful) (hcodec : codec.Faithful) {stage : Stage τ}
    (h : Between N kdf fill hub caller past task stage dial far toServer toClient)
    (hawait : dial.await toClient false fails ephemeral = some (a, rest))
    (hstep : dialStep N codec kdf caller.room caller.username caller.password dial a
      = some (dial', sent)) :
    InStep N kdf fill hub caller past task door (some stage) dial' far (toServer ++ sent) rest := by
  cases h with
  | greeted room hid hcomes =>
    cases hawait
    obtain ⟨rfl, ⟨e, hfails, rfl⟩ | ⟨keys, m0, handshake, hnext, hinitiate, rfl⟩⟩ :=
      dial_greeted hlawful hcodec hid hcomes hstep
    · exact .failed none [] (.handshaking ..) hfails.fails
    · exact .between (.initiating room keys m0 handshake ephemeral hnext hinitiate)
  | initiating room keys m0 handshake ephemeral' hcomes hinitiate =>
    cases hawait
    cases hstep
    exact .between (.initiated room keys m0 handshake ephemeral' hcomes hinitiate)
  | answered room keys handshake m1 t t' hcomes hfinish hpaired =>
    cases hawait
    obtain ⟨rfl, rfl⟩ := dial_finishes hfinish hstep
    exact .between (.introducing room keys.roomKey t t' hcomes hpaired)
  | introducing room roomKey t t' hcomes hpaired =>
    cases hawait
    rcases dial_introduces hcomes hstep with
      ⟨e, hfails, rfl, rfl⟩ | ⟨hsize, rfl, ⟨_, rfl⟩ | ⟨e, he, _⟩⟩
    · exact .failed _ [] (.awaitingHello ..) hfails.fails
    · exact .between (.introduced room roomKey t t' hcomes hpaired hsize)
    · cases he
  -- the server's turn
  | greeting | initiated | answering | introduced | registering | snapshotting | welcoming =>
    cases hawait

/-- A client that is refused reads what the server has to say, or comes upon the end. -/
theorem refused_stands (hcodec : codec.Faithful) {stage : Option (Stage τ)}
    (hgone : gone stage = true) {v : Verdict} (htells : Tells N dial toClient v)
    (hcomes : Comes kdf fill hub caller v)
    (hawait : dial.await toClient true fails ephemeral = some (a, rest))
    (hstep : dialStep N codec kdf caller.room caller.username caller.password dial a
      = some (dial', sent)) :
    InStep N kdf fill hub caller past task door stage dial' far (toServer ++ sent) rest := by
  have hleft : Left door stage (toServer ++ sent) := .gone _ (hungUp_of_gone hgone)
  cases htells with
  | noHello =>
    obtain ⟨rfl, _⟩ := dial_hangs (.inl rfl) hawait hstep
    exact .failed far rest hleft (hcomes.hangsUp (hungUp_lost fails))
  | noM1 =>
    obtain ⟨rfl, _⟩ := dial_hangs (.inr (.inl ⟨_, _, rfl⟩)) hawait hstep
    exact .failed far rest hleft (hcomes.hangsUp (hungUp_lost fails))
  | badRoom =>
    cases hawait
    simp only [dialStep, client_recvPostcard hcodec (f := .error .badFrame) trivial] at hstep
    cases hstep
    exact .failed far [] hleft hcomes.fails
  | badName roomKey t t' hpaired =>
    cases hawait
    have hsmall : transportSealLen (encodeServerFrame (.error .badFrame)) ≤ NOISE_BUF := by decide
    simp only [dialStep, client_recvEncrypted hcodec hpaired (f := .error .badFrame) trivial
      hsmall] at hstep
    cases hstep
    exact .failed far [] hleft hcomes.fails

/-- **A step of the client.** -/
theorem client_stands (hlawful : N.Lawful) (hcodec : codec.Faithful) {stage : Option (Stage τ)}
    (h : InStep N kdf fill hub caller past task door stage dial far toServer toClient)
    (hawait : dial.await toClient (hungUp door stage) fails ephemeral = some (a, rest))
    (hstep : dialStep N codec kdf caller.room caller.username caller.password dial a
      = some (dial', sent)) :
    InStep N kdf fill hub caller past task door stage dial' far (toServer ++ sent) rest := by
  cases h with
  | calls hwaits =>
    rw [hwaits.not_hungUp] at hawait
    cases hawait
    rcases dial_selects fill hub hstep with
      ⟨e, hfails, rfl, rfl⟩ | ⟨hsize, rfl, ⟨_, rfl⟩ | ⟨e, he, _⟩⟩
    · exact .failed none [] (.waits hwaits) hfails.fails
    · exact .called hwaits hsize
    · cases he
  | called hwaits hsize =>
    rw [hwaits.not_hungUp] at hawait
    cases hawait
  -- between the accept and the verdict the two answer each other
  | between hbetween =>
    rw [hungUp_some, hbetween.not_gone] at hawait
    exact between_client hlawful hcodec hbetween hawait hstep
  | refused far toServer hgone htells hcomes =>
    rw [hungUp_of_gone hgone] at hawait
    exact refused_stands hcodec hgone htells hcomes hawait hstep
  | cutOff far toServer hcut hstranded =>
    rw [hcut.hungUp] at hawait
    exact stranded_stands hlawful hcodec hcut hstranded hawait hstep
  -- the Welcome is all that is left to read
  | welcomed roomKey t t' history hcomes hpaired hregistered hsnapshotted hsize hfits hlate =>
    cases hawait
    simp only [dialStep, client_recvEncrypted hcodec hpaired hfits hsize,
      Client.readWelcome] at hstep
    cases hstep
    exact .entering _ _ _ roomKey history hcomes hregistered hsnapshotted hlate
  | entering far toServer toClient roomKey history hcomes hregistered hsnapshotted hlate =>
    cases hawait
    -- the terminal may not be had; the verdict is given all the same
    cases fails with
    | true =>
      cases hstep
      exact .inside _ _ _ hlate
        (.inr ⟨_, hcomes, history, .inr rfl, hregistered, hsnapshotted⟩)
    | false =>
      cases hstep
      exact .inside _ _ _ hlate
        (.inr ⟨_, hcomes, history, .inl rfl, hregistered, hsnapshotted⟩)
  | failed | inside => cases hawait

end

end ChatRs

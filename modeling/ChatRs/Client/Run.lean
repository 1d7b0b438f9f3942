import ChatRs.Client.Session
import ChatRs.Decode
import ChatRs.Negotiation

/-!
# The client's way into a room (`client/mod.rs`)

`run` from the connected socket to the event loop, cut at its awaits like the tasks of the server:
a send or a receive carries its outcome, and what goes out are bytes. Of `snow` the initiator's
half joins the responder's half of `Server.Service`, and the decoders of both sides are
parameters.

* **`Dial`**, **`dialStep`**: where `run` stands, and its step function;
* **`Joined`**: what it takes into the event loop, which is modelled in `Client.Loop`;
* **`Verdict`**, `verdict`: what the negotiation comes to, as a table of its inputs alone.
-/

namespace ChatRs

/-- `snow` on both sides. The initiator's half: from its ephemeral key, the PSK and the prologue the
first message and the handshake state, from the second message the transport; and what a transport
makes of the first frame it seals. -/
structure Snow (σ τ : Type) extends Noise τ where
  initiate : Nat → Key → List UInt8 → Option (List UInt8 × σ)
  finish : σ → List UInt8 → Option τ
  writeMessage : τ → List UInt8 → List UInt8

/-- `postcard::from_bytes` on either side. -/
structure Codec where
  readClient : List UInt8 → Option ClientFrame
  readServer : List UInt8 → Option ServerFrame

def Codec.postcard : Codec where
  readClient := Postcard.fromBytes decodeClientFrame
  readServer := Postcard.fromBytes decodeServerFrame

/-- What `run` takes into `event_loop`. -/
structure Joined where
  roomKey : Key
  userId : Uuid
  history : List RoomMessage
deriving DecidableEq

/-- Where `run` stands. -/
inductive Dial (σ τ : Type) where
  | selecting
  | awaitingHello
  -- `handshake_initiator`
  | initiating (keys : DerivedKeys) (m0 : List UInt8) (handshake : σ)
  | awaitingM1 (keys : DerivedKeys) (handshake : σ)
  | introducing (roomKey : Key) (transport : τ)
  | awaitingWelcome (roomKey : Key) (transport : τ)
  -- the history is replayed, and `TerminalGuard::enter` is next
  | entering (joined : Joined)
  | ended (result : Result Joined)

inductive DialAct where
  | sendSelect (r : Result Unit)
  | recvHello (ephemeral : Nat) (r : Result (List UInt8))
  | sendM0 (r : Result Unit)
  | recvM1 (r : Result (List UInt8))
  | sendHello (r : Result Unit)
  | recvWelcome (r : Result (List UInt8))
  | enterTerminal (r : Result Unit)

/-! ## The code -/

/-- `send_bytes`, up to the socket: the codec refuses what is longer than its limit. -/
def sendBytes (payload : List UInt8) : Result (List UInt8) :=
  if payload.length ≤ MAX_FRAME_LEN then .ok payload else .error .io

section Code

variable {σ τ : Type} (N : Snow σ τ) (codec : Codec) (kdf : Kdf)

/-- `snow` refuses what does not fit into its longest message; what it does not refuse, the codec
does not refuse either. -/
def transportSeal (transport : τ) (plaintext : List UInt8) : Result (List UInt8) :=
  if transportSealLen plaintext ≤ NOISE_BUF then .ok (N.writeMessage transport plaintext)
  else .error .noise

def transportOpen (transport : τ) (ciphertext : List UInt8) : Result (List UInt8) :=
  match N.readMessage transport ciphertext with
  | some plaintext => .ok plaintext
  | none => .error .noise

namespace Client

def fromBytes (bytes : List UInt8) : Result ServerFrame :=
  match codec.readServer bytes with
  | some f => .ok f
  | none => .error .postcard

def recvPostcard : Result (List UInt8) → Result ServerFrame
  | .error e => .error e
  | .ok bytes => fromBytes codec bytes

def recvEncrypted (transport : τ) : Result (List UInt8) → Result ServerFrame
  | .error e => .error e
  | .ok bytes =>
    match transportOpen N transport bytes with
    | .error e => .error e
    | .ok plaintext => fromBytes codec plaintext

/-- The user id and the history that a server's first encrypted frame announces. -/
def readWelcome : Result ServerFrame → Result (Uuid × List RoomMessage)
  | .error e => .error e
  | .ok (.welcome userId history) => .ok (userId, history)
  | .ok (.error reason) => .error (.server reason)
  | .ok _ => .error (.protocol "expected ServerFrame::Welcome")

end Client

/-- A frame is handed to the socket, if it could be made: the stage after the send, and what went
out. -/
def sendThen (frame : Result (List UInt8)) (r : Result Unit) (next : Dial σ τ) :
    Dial σ τ × List (List UInt8) :=
  match frame with
  | .error e => (.ended (.error e), [])
  | .ok bytes =>
    match r with
    | .error e => (.ended (.error e), [bytes])
    | .ok _ => (next, [bytes])

/-- `run`, from `RoomSelect` to the event loop. -/
def dialStep (room username : String) (password : List UInt8) :
    Dial σ τ → DialAct → Option (Dial σ τ × List (List UInt8))
  | .selecting, .sendSelect r =>
    some (sendThen (sendBytes (encodeClientFrame (.roomSelect room))) r .awaitingHello)
  | .awaitingHello, .recvHello ephemeral r =>
    match connect kdf room password (Client.recvPostcard codec r) with
    | .error e => some (.ended (.error e), [])
    | .ok init =>
      match N.initiate ephemeral init.keys.psk init.prologue with
      | none => some (.ended (.error .noise), [])
      | some (m0, handshake) => some (.initiating init.keys m0 handshake, [])
  | .initiating keys m0 handshake, .sendM0 r =>
    some (sendThen (.ok m0) r (.awaitingM1 keys handshake))
  | .awaitingM1 _ _, .recvM1 (.error e) => some (.ended (.error e), [])
  | .awaitingM1 keys handshake, .recvM1 (.ok m1) =>
    match N.finish handshake m1 with
    | none => some (.ended (.error .noise), [])
    | some transport => some (.introducing keys.roomKey transport, [])
  | .introducing roomKey transport, .sendHello r =>
    some (sendThen (transportSeal N transport (encodeClientFrame (.hello username))) r
      (.awaitingWelcome roomKey transport))
  | .awaitingWelcome roomKey transport, .recvWelcome r =>
    match Client.readWelcome (Client.recvEncrypted N codec transport r) with
    | .error e => some (.ended (.error e), [])
    | .ok (userId, history) => some (.entering ⟨roomKey, userId, history⟩, [])
  | .entering _, .enterTerminal (.error _) => some (.ended (.error .io), [])
  | .entering joined, .enterTerminal (.ok _) => some (.ended (.ok joined), [])
  | _, _ => none

end Code

/-! ## What is to come of it -/

inductive Verdict where
  | fails (e : Error)
  /-- The server hangs up without a word. -/
  | hangsUp
  | admitted (roomKey : Key)

/-- Behind the handshake: what the server says to the name that the client brings. -/
def nameVerdict (username : String) (roomKey : Key) : Verdict :=
  if NOISE_BUF < transportSealLen (encodeClientFrame (.hello username)) then .fails .noise
  else if username.isEmpty ∨ strLen username > MAX_USERNAME_LEN ∨ ¬ isValidUsername username then
    .fails (.server .badFrame)
  else .admitted roomKey

/-- At the door of a room, known or made up: the password has to give the PSK of the room. -/
def roomVerdict (kdf : Kdf) (username : String) (password : List UInt8) (found : RoomState) :
    Verdict :=
  match deriveKeys kdf password found.roomSalt with
  | .error e => .fails e
  | .ok keys => if keys.psk = found.psk then nameVerdict username keys.roomKey else .hangsUp

/-- What a client comes to that asks for a room, from what the server finds under the name. -/
def verdict (kdf : Kdf) (room username : String) (password : List UInt8)
    (found : Result RoomState) : Verdict :=
  if MAX_FRAME_LEN < (encodeClientFrame (.roomSelect room)).length then .fails .io
  else if room.isEmpty ∨ strLen room > MAX_ROOM_ID_LEN then .fails (.server .badFrame)
  else
    match found with
    | .error _ => .hangsUp
    | .ok found => roomVerdict kdf username password found

/-! ## What the parameters are relied on for -/

/-- Both decoders read what the encoders write. -/
structure Codec.Faithful (codec : Codec) : Prop where
  client : ∀ f : ClientFrame, f.Fits → codec.readClient (encodeClientFrame f) = some f
  server : ∀ f : ServerFrame, f.Fits → codec.readServer (encodeServerFrame f) = some f

theorem Codec.postcard_faithful : Codec.postcard.Faithful where
  client f h := by
    have hread := (decodes_clientFrame h).fromBytes []
    rwa [List.append_nil] at hread
  server f h := by
    have hread := (decodes_serverFrame h).fromBytes []
    rwa [List.append_nil] at hread

/-- The two ends of a transport: what one seals, the other opens. -/
def Snow.Paired {σ τ : Type} (N : Snow σ τ) (t t' : τ) : Prop :=
  ∀ plaintext, transportSealLen plaintext ≤ NOISE_BUF →
    N.readMessage t' (N.writeMessage t plaintext) = some plaintext
      ∧ N.readMessage t (N.writeMessage t' plaintext) = some plaintext

/-- `Noise_NNpsk0`: the handshake completes between sides that hold the same PSK and the same
prologue. Otherwise the first message does not verify. -/
structure Snow.Lawful {σ τ : Type} (N : Snow σ τ) : Prop where
  initiates : ∀ ephemeral psk prologue, (N.initiate ephemeral psk prologue).isSome
  completes : ∀ {ephemeral psk prologue m0 handshake},
    N.initiate ephemeral psk prologue = some (m0, handshake) → ∀ ephemeral',
      ∃ m1 t t', N.respond ephemeral' psk prologue m0 = some (m1, t)
        ∧ N.finish handshake m1 = some t' ∧ N.Paired t' t
  rejects : ∀ {ephemeral psk prologue m0 handshake},
    N.initiate ephemeral psk prologue = some (m0, handshake) → ∀ ephemeral' psk' prologue',
      (psk', prologue') ≠ (psk, prologue) → N.respond ephemeral' psk' prologue' m0 = none

end ChatRs

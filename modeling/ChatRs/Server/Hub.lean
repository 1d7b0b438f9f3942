import ChatRs.Crypto.Noise
import ChatRs.Crypto.Password
import ChatRs.Server.Room

/-!
# The hub and the unauthenticated phase (`server/mod.rs`)

`ServerHub::new` draws a salt for every configured room; `handle_connection` looks the selected
room up, makes up one with `fake_room` when there is none, and sends its salt in the Hello
before the Noise handshake. Random draws are numbered: `fill i` is what the `i`-th call of
`getrandom::fill` delivers, and every function that draws hands on the number of the next draw.

The stores of a room are not touched before the handshake is complete; they are modelled in
`Server.Room`, whose phases abstract from what is computed here (`handleConnection_phases`).
-/

namespace ChatRs

/-- `rooms::RoomConfig`. -/
structure RoomConfig where
  name : String
  password : String

/-- The part of `RoomState` that is fixed when it is made. -/
structure RoomState where
  roomId : String
  roomSalt : Key
  psk : Key

/-- The limiter and the connection counter do not look at rooms: see `Probe.admitted`. -/
structure ServerHub where
  rooms : AList fun _ : String => RoomState

/-- One connection by a peer, as far as the handshake: what is received on it, and whether
what is sent gets out. A timeout is an error like any other. -/
structure Probe where
  /-- By the rate limiter and the cap on connections. -/
  admitted : Bool
  select : Result ClientFrame
  answered : Result Unit
  m0 : Result (List UInt8)
  finished : Result Unit

/-- What a peer sees. -/
inductive Sent where
  | frame (f : ServerFrame)
  | handshake (m1 : List UInt8)

/-- What a connection has come to at the end of the handshake. -/
structure Answer where
  sent : List Sent
  result : Result RoomState

section Code

variable (kdf : Kdf) (snow : Responder) (fill : Nat → Option Key)

def newRooms : List RoomConfig → (AList fun _ : String => RoomState) → Nat →
    Result (AList fun _ : String => RoomState) × Nat
  | [], rooms, drawn => (.ok rooms, drawn)
  | cfg :: configs, rooms, drawn =>
    match fill drawn with
    | none => (.error .random, drawn + 1)
    | some salt =>
      match deriveKeys kdf (strBytes cfg.password) salt with
      | .error e => (.error e, drawn + 1)
      | .ok keys =>
        newRooms configs
          (rooms.insert cfg.name { roomId := cfg.name, roomSalt := salt, psk := keys.psk })
          (drawn + 1)

/-- `ServerHub::new`. -/
def ServerHub.new (configs : List RoomConfig) : Result ServerHub × Nat :=
  match newRooms kdf fill configs ∅ 0 with
  | (.error e, drawn) => (.error e, drawn)
  | (.ok rooms, drawn) => (.ok { rooms := rooms }, drawn)

def fakeRoom (roomName : String) (drawn : Nat) : Result RoomState × Nat :=
  match fill drawn with
  | none => (.error .random, drawn + 1)
  | some salt =>
    match fill (drawn + 1) with
    | none => (.error .random, drawn + 2)
    | some psk => (.ok { roomId := roomName, roomSalt := salt, psk := psk }, drawn + 2)

/-- The room that a connection goes on with. -/
def ServerHub.select (hub : ServerHub) (roomName : String) (drawn : Nat) :
    Result RoomState × Nat :=
  match hub.rooms.lookup roomName with
  | some room => (.ok room, drawn)
  | none => fakeRoom fill roomName drawn

/-- A frame that is sent, if it gets out. -/
def Probe.sees (p : Probe) (f : ServerFrame) : List Sent :=
  match p.answered with
  | .ok _ => [.frame f]
  | .error _ => []

-- the Hello, and the handshake with the PSK of the room
def greet (room : RoomState) (p : Probe) : Answer :=
  let hello := ServerFrame.hello room.roomSalt PROTOCOL_VERSION
  match p.answered with
  | .error e => ⟨p.sees hello, .error e⟩
  | .ok _ =>
    match handshakeResponder snow room.psk
        (buildPrologue room.roomId room.roomSalt PROTOCOL_VERSION) p.m0 with
    | .error e => ⟨p.sees hello, .error e⟩
    | .ok m1 =>
      match p.finished with
      | .error e => ⟨p.sees hello, .error e⟩
      | .ok _ => ⟨p.sees hello ++ [.handshake m1], .ok room⟩

/-- `handle_connection`, up to the end of the handshake. -/
def ServerHub.handleConnection (hub : ServerHub) (p : Probe) (drawn : Nat) : Answer × Nat :=
  if ¬ p.admitted then (⟨[], .error (.protocol "active-connection cap")⟩, drawn)
  else
    match p.select with
    | .error e => (⟨[], .error e⟩, drawn)
    | .ok (.roomSelect roomName) =>
      if roomName.isEmpty ∨ strLen roomName > MAX_ROOM_ID_LEN then
        (⟨p.sees (.error .badFrame), .error (.protocol "invalid room name length")⟩, drawn)
      else
        match hub.select fill roomName drawn with
        | (.error e, drawn) => (⟨[], .error e⟩, drawn)
        | (.ok room, drawn) => (greet snow room p, drawn)
    | .ok _ => (⟨[], .error (.protocol "expected RoomSelect")⟩, drawn)

/-- Connections one after the other, with what each peer saw. -/
def ServerHub.serve (hub : ServerHub) : List Probe → Nat → List (Probe × List Sent)
  | [], _ => []
  | p :: probes, drawn =>
    let (answer, drawn) := hub.handleConnection snow fill p drawn
    (p, answer.sent) :: hub.serve probes drawn

end Code

/-! ## The rooms of the hub -/

section

variable {kdf : Kdf} {fill : Nat → Option Key}

/-- A room that is made gets a fresh salt, and its keys from its password. -/
theorem newRooms_cons_ok {cfg : RoomConfig} {configs : List RoomConfig}
    {rooms rooms' : AList fun _ : String => RoomState} {drawn drawn' : Nat}
    (h : newRooms kdf fill (cfg :: configs) rooms drawn = (.ok rooms', drawn')) :
    ∃ room keys, room.roomId = cfg.name
      ∧ deriveKeys kdf (strBytes cfg.password) room.roomSalt = .ok keys ∧ room.psk = keys.psk
      ∧ newRooms kdf fill configs (rooms.insert cfg.name room) (drawn + 1) = (.ok rooms', drawn')
      := by
  rw [newRooms] at h
  split at h
  · cases h
  · next salt _ =>
    split at h
    · cases h
    · next keys hkeys => exact ⟨⟨cfg.name, salt, keys.psk⟩, keys, rfl, hkeys, rfl, h⟩

/-- The rooms are those that were configured. -/
theorem mem_newRooms {configs : List RoomConfig} {rooms rooms' : AList fun _ : String => RoomState}
    {drawn drawn' : Nat} (h : newRooms kdf fill configs rooms drawn = (.ok rooms', drawn'))
    (name : String) :
    name ∈ rooms' ↔ name ∈ rooms ∨ name ∈ configs.map RoomConfig.name := by
  induction configs generalizing rooms drawn with
  | nil =>
    cases h
    simp
  | cons cfg configs ih =>
    obtain ⟨room, keys, -, -, -, h⟩ := newRooms_cons_ok h
    rw [ih h, AList.mem_insert, List.map_cons, List.mem_cons]
    tauto

/-- The hub has the configured rooms and no others. -/
theorem mem_rooms_new {configs : List RoomConfig} {hub : ServerHub} {drawn : Nat}
    (h : ServerHub.new kdf fill configs = (.ok hub, drawn)) (name : String) :
    name ∈ hub.rooms ↔ name ∈ configs.map RoomConfig.name := by
  rw [ServerHub.new] at h
  split at h
  · cases h
  · rename_i rooms drawn' hrooms
    cases h
    rw [mem_newRooms hrooms]
    simp

/-- Each is filed under its own name. -/
theorem roomId_newRooms {configs : List RoomConfig}
    {rooms rooms' : AList fun _ : String => RoomState} {drawn drawn' : Nat}
    (h : newRooms kdf fill configs rooms drawn = (.ok rooms', drawn'))
    (hrooms : ∀ name room, rooms.lookup name = some room → room.roomId = name) (name : String)
    (room : RoomState) (hroom : rooms'.lookup name = some room) : room.roomId = name := by
  induction configs generalizing rooms drawn with
  | nil =>
    cases h
    exact hrooms name room hroom
  | cons cfg configs ih =>
    obtain ⟨made, keys, hid, -, -, h⟩ := newRooms_cons_ok h
    refine ih h fun name room hlookup => ?_
    rw [lookup_insert_eq_update] at hlookup
    rcases eq_or_ne name cfg.name with rfl | hne
    · rw [Function.update_self] at hlookup
      cases hlookup
      exact hid
    · rw [Function.update_of_ne hne] at hlookup
      exact hrooms name room hlookup

/-- A configured room has the name it is found under. -/
theorem roomId_of_lookup {configs : List RoomConfig} {hub : ServerHub} {drawn : Nat}
    (h : ServerHub.new kdf fill configs = (.ok hub, drawn)) {name : String} {room : RoomState}
    (hroom : hub.rooms.lookup name = some room) : room.roomId = name := by
  rw [ServerHub.new] at h
  split at h
  · cases h
  · rename_i rooms drawn' hrooms
    cases h
    refine roomId_newRooms hrooms (fun name room hnone => ?_) name room hroom
    rw [AList.lookup_empty] at hnone
    cases hnone

/-- A room that is not configured stays as it was. -/
theorem lookup_newRooms_of_not_mem {configs : List RoomConfig}
    {rooms rooms' : AList fun _ : String => RoomState} {drawn drawn' : Nat}
    (h : newRooms kdf fill configs rooms drawn = (.ok rooms', drawn')) {name : String}
    (hname : name ∉ configs.map RoomConfig.name) : rooms'.lookup name = rooms.lookup name := by
  induction configs generalizing rooms drawn with
  | nil =>
    cases h
    rfl
  | cons cfg configs ih =>
    rw [List.map_cons, List.mem_cons, not_or] at hname
    obtain ⟨room, keys, -, -, -, h⟩ := newRooms_cons_ok h
    rw [ih h hname.2, AList.lookup_insert_ne hname.1]

/-- The keys of a room come from the password that was configured for it. -/
theorem deriveKeys_newRooms {configs : List RoomConfig}
    {rooms rooms' : AList fun _ : String => RoomState} {drawn drawn' : Nat}
    (h : newRooms kdf fill configs rooms drawn = (.ok rooms', drawn'))
    (hdistinct : (configs.map RoomConfig.name).Nodup) {cfg : RoomConfig} (hcfg : cfg ∈ configs) :
    ∃ room keys, rooms'.lookup cfg.name = some room
      ∧ deriveKeys kdf (strBytes cfg.password) room.roomSalt = .ok keys
      ∧ room.psk = keys.psk := by
  induction configs generalizing rooms drawn with
  | nil => exact absurd hcfg List.not_mem_nil
  | cons cfg' configs ih =>
    obtain ⟨hfirst, hdistinct⟩ := List.nodup_cons.mp hdistinct
    obtain ⟨room, keys, -, hkeys, hpsk, h⟩ := newRooms_cons_ok h
    rcases List.mem_cons.mp hcfg with rfl | hcfg
    · have hlookup := lookup_newRooms_of_not_mem h hfirst
      rw [AList.lookup_insert] at hlookup
      exact ⟨room, keys, hlookup, hkeys, hpsk⟩
    · exact ih h hdistinct hcfg

/-- A configured room has the PSK that its password gives with its salt. -/
theorem deriveKeys_of_mem {configs : List RoomConfig} {hub : ServerHub} {drawn : Nat}
    (h : ServerHub.new kdf fill configs = (.ok hub, drawn))
    (hdistinct : (configs.map RoomConfig.name).Nodup) {cfg : RoomConfig} (hcfg : cfg ∈ configs) :
    ∃ room keys, hub.rooms.lookup cfg.name = some room
      ∧ deriveKeys kdf (strBytes cfg.password) room.roomSalt = .ok keys
      ∧ room.psk = keys.psk := by
  rw [ServerHub.new] at h
  split at h
  · cases h
  · next rooms drawn' hrooms =>
    cases h
    exact deriveKeys_newRooms hrooms hdistinct hcfg

/-- The room that is selected, known or made up, has the name that was asked for. -/
theorem roomId_of_select {configs : List RoomConfig} {hub : ServerHub} {k : Nat}
    (h : ServerHub.new kdf fill configs = (.ok hub, k)) {name : String} {room : RoomState}
    {drawn drawn' : Nat} (hroom : hub.select fill name drawn = (.ok room, drawn')) :
    room.roomId = name := by
  rw [ServerHub.select] at hroom
  split at hroom
  · rename_i room' hlookup
    cases hroom
    exact roomId_of_lookup h hlookup
  · rw [fakeRoom] at hroom
    split at hroom
    · cases hroom
    · split at hroom
      · cases hroom
      · cases hroom
        rfl

end

/-! ## The room that a connection goes on with

Everything after the selection works on one room: the Hello names its salt, and the handshake
is bound to its prologue.
-/

def RoomState.hello (room : RoomState) : ServerFrame := .hello room.roomSalt PROTOCOL_VERSION

def RoomState.prologue (room : RoomState) : List UInt8 :=
  buildPrologue room.roomId room.roomSalt PROTOCOL_VERSION

/-- `handle_connection`, from the first frame to the room. -/
def ServerHub.enter (fill : Nat → Option Key) (hub : ServerHub) :
    Result ClientFrame → Nat → Result RoomState × Nat
  | .error e, drawn => (.error e, drawn)
  | .ok (.roomSelect roomName), drawn =>
    if roomName.isEmpty ∨ strLen roomName > MAX_ROOM_ID_LEN then
      (.error (.protocol "invalid room name length"), drawn)
    else hub.select fill roomName drawn
  | .ok _, drawn => (.error (.protocol "expected RoomSelect"), drawn)

/-- The connection goes on with the room it entered, or ends where it could not. -/
theorem handleConnection_enter (snow : Responder) (fill : Nat → Option Key) (hub : ServerHub)
    {p : Probe} (hadmitted : p.admitted = true) (drawn : Nat) :
    (∃ room drawn', hub.enter fill p.select drawn = (.ok room, drawn')
        ∧ hub.handleConnection snow fill p drawn = (greet snow room p, drawn'))
      ∨ ∃ e drawn', hub.enter fill p.select drawn = (.error e, drawn')
        ∧ (hub.handleConnection snow fill p drawn).1.result = .error e
        ∧ (hub.handleConnection snow fill p drawn).2 = drawn' := by
  rw [ServerHub.handleConnection, if_neg (not_not.mpr hadmitted)]
  cases p.select with
  | error e => exact .inr ⟨e, drawn, rfl, rfl, rfl⟩
  | ok f =>
    cases f with
    | roomSelect roomName =>
      rw [ServerHub.enter]
      dsimp only
      split
      · exact .inr ⟨_, drawn, rfl, rfl, rfl⟩
      · split
        · rename_i e drawn' hroom
          exact .inr ⟨e, drawn', hroom, rfl, rfl⟩
        · rename_i room drawn' hroom
          exact .inl ⟨room, drawn', hroom, rfl⟩
    | hello | message | clear => exact .inr ⟨_, drawn, rfl, rfl, rfl⟩

/-- A handshake that completes was made with the PSK and the prologue of the room. -/
theorem greet_ok {snow : Responder} {room room' : RoomState} {p : Probe}
    (h : (greet snow room p).result = .ok room') :
    room' = room ∧ ∃ m1, handshakeResponder snow room.psk room.prologue p.m0 = .ok m1
      ∧ (greet snow room p).sent = [.frame room.hello, .handshake m1] := by
  unfold greet at h ⊢
  dsimp only at h ⊢
  split at h
  · cases h
  · rename_i _ hanswered
    split at h
    · cases h
    · rename_i m1 hm1
      split at h
      · cases h
      · cases h
        refine ⟨rfl, m1, hm1, ?_⟩
        rw [Probe.sees, hanswered]
        rfl

/-! ## The phases of a connection -/

/-- A run of the handshake phases of `Server.Room`. -/
def handshakeRun : Phase → List Act → Option Phase
  | phase, [] => some phase
  | phase, a :: acts => (handshakeStep phase a).bind fun phase => handshakeRun phase acts

/-- Where the phases stand at the end of the handshake. -/
def Answer.phase (answer : Answer) : Phase :=
  match answer.result with
  | .ok _ => .awaitingHello
  | .error e => .returned (.error e)

/-- **The phases abstract from the code**: every admitted connection takes one of their paths,
to where its result says. -/
theorem handleConnection_phases (snow : Responder) (fill : Nat → Option Key) (hub : ServerHub)
    {p : Probe} (hadmitted : p.admitted = true) (drawn : Nat) :
    ∃ acts, handshakeRun .selecting acts
      = some (hub.handleConnection snow fill p drawn).1.phase := by
  rw [ServerHub.handleConnection, if_neg (not_not.mpr hadmitted)]
  split
  · rename_i e hselect
    exact ⟨[.recvSelect (.error e)], rfl⟩
  · rename_i roomName hselect
    by_cases hname : roomName.isEmpty ∨ strLen roomName > MAX_ROOM_ID_LEN
    · refine ⟨[.recvSelect (.ok (.roomSelect roomName))], ?_⟩
      simp only [handshakeRun, handshakeStep, if_pos hname]
      rfl
    · have hgreeting : handshakeStep .selecting (.recvSelect (.ok (.roomSelect roomName)))
          = some .greeting := by
        simp only [handshakeStep, if_neg hname]
      -- a connection whose `RoomSelect` is accepted begins with it
      have hpath (acts : List Act) {phase : Phase} (h : handshakeRun .greeting acts = some phase) :
          handshakeRun .selecting (.recvSelect (.ok (.roomSelect roomName)) :: acts)
            = some phase := by
        rw [handshakeRun, hgreeting]
        exact h
      rw [if_neg hname]
      split
      · rename_i e drawn' hroom
        exact ⟨_, hpath [.sendHello (.error e)] rfl⟩
      · rename_i room drawn' hroom
        unfold greet
        dsimp only
        split
        · rename_i e hanswered
          exact ⟨_, hpath [.sendHello (.error e)] rfl⟩
        · split
          · rename_i e hhandshake
            exact ⟨_, hpath [.sendHello (.ok ()), .handshake (.error e)] rfl⟩
          · split
            · rename_i e hfinished
              exact ⟨_, hpath [.sendHello (.ok ()), .handshake (.error e)] rfl⟩
            · exact ⟨_, hpath [.sendHello (.ok ()), .handshake (.ok ())] rfl⟩
  · rename_i f hother hselect
    refine ⟨[.recvSelect (.ok f)], ?_⟩
    cases f with
    | roomSelect roomName => exact absurd rfl (hother roomName)
    | _ => rfl

end ChatRs

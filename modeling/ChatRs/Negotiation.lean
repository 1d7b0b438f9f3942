import ChatRs.Server.Probe

/-!
# The negotiation and a man in the middle

Before the handshake the two sides exchange two frames in the clear: the client names a room,
the server answers with the salt of the room and its version. Whoever sits in between can
replace both. Each side then binds what it believes was negotiated into its prologue, the
client (`client/mod.rs`) what it asked for and received, the server (`server/mod.rs`) what it
received and sent.

* **`connect`**: the client, up to its prologue; the server's side is `ServerHub.enter`;
* **`Tampering`**: what the man in the middle makes of the two frames;
* **`prologue_binds_negotiation`**: the prologues agree exactly if he left both alone.
-/

namespace ChatRs

/-! ## The client's side -/

/-- What the client takes into the handshake. -/
structure Initiation where
  keys : DerivedKeys
  prologue : List UInt8

/-- The salt and the version that a server's first frame announces. -/
def readHello : Result ServerFrame → Result (Key × UInt16)
  | .error e => .error e
  | .ok (.hello roomSalt serverVersion) => .ok (roomSalt, serverVersion)
  | .ok (.error reason) => .error (.server reason)
  | .ok _ => .error (.protocol "expected ServerFrame::Hello")

/-- `run`, from the frame that answers `RoomSelect { room }` to the handshake. -/
def connect (kdf : Kdf) (room : String) (password : List UInt8) (hello : Result ServerFrame) :
    Result Initiation :=
  match readHello hello with
  | .error e => .error e
  | .ok (roomSalt, serverVersion) =>
    if serverVersion ≠ PROTOCOL_VERSION then .error (.unsupportedVersion serverVersion)
    else
      match deriveKeys kdf password roomSalt with
      | .error e => .error e
      | .ok keys =>
        .ok { keys := keys, prologue := buildPrologue room roomSalt serverVersion }

/-- The client takes a hello frame, and nothing else, for the hello. -/
theorem readHello_ok {hello : Result ServerFrame} {salt : Key} {version : UInt16} :
    readHello hello = .ok (salt, version) ↔ hello = .ok (.hello salt version) := by
  constructor
  · intro h
    unfold readHello at h
    split at h <;> cases h
    rfl
  · rintro rfl
    rfl

/-- A client that gets as far as the handshake was sent a Hello of its own version, and binds
its salt. -/
theorem connect_ok {kdf : Kdf} {room : String} {password : List UInt8}
    {hello : Result ServerFrame} {init : Initiation}
    (h : connect kdf room password hello = .ok init) :
    ∃ salt, hello = .ok (.hello salt PROTOCOL_VERSION)
      ∧ init.prologue = buildPrologue room salt PROTOCOL_VERSION
      ∧ deriveKeys kdf password salt = .ok init.keys := by
  unfold connect at h
  split at h
  · cases h
  · rename_i salt version hread
    split at h
    · cases h
    · rename_i hversion
      rw [not_not] at hversion
      subst hversion
      split at h
      · cases h
      · rename_i keys hkeys
        cases h
        exact ⟨salt, readHello_ok.mp hread, rfl, hkeys⟩

theorem connect_of_hello {kdf : Kdf} {room : String} {password : List UInt8} {salt : Key}
    {keys : DerivedKeys} (h : deriveKeys kdf password salt = .ok keys) :
    connect kdf room password (.ok (.hello salt PROTOCOL_VERSION)) =
      .ok { keys := keys, prologue := buildPrologue room salt PROTOCOL_VERSION } := by
  simp only [connect, readHello, ne_eq, not_true_eq_false, if_false, h]

/-! ## In between -/

/-- What arrives of the two frames that go over the wire in the clear; any of them may also
arrive as something that is no frame at all. -/
structure Tampering where
  onSelect : ClientFrame → Result ClientFrame
  onHello : ServerFrame → Result ServerFrame

/-- Name, salt and version arrive as they were sent. -/
structure Tampering.Unmodified (t : Tampering) (name : String) (sent : ServerFrame) : Prop where
  select : t.onSelect (.roomSelect name) = .ok (.roomSelect name)
  hello : t.onHello sent = .ok sent

/-- A server that gets as far as the Hello was named the room that it goes on with. -/
theorem enter_ok {kdf : Kdf} {fill : Nat → Option Key} {configs : List RoomConfig}
    {hub : ServerHub} {k : Nat} (hnew : ServerHub.new kdf fill configs = (.ok hub, k))
    {select : Result ClientFrame} {room : RoomState} {drawn drawn' : Nat}
    (h : hub.enter fill select drawn = (.ok room, drawn')) :
    select = .ok (.roomSelect room.roomId) := by
  unfold ServerHub.enter at h
  split at h
  · cases h
  · split at h
    · cases h
    · rw [roomId_of_select hnew h]
  · cases h

/-- **The prologue binds the negotiation.** Prologues are equal only if all they bind is. So
when the frames in the clear pass through a man in the middle and both sides still get as far
as the handshake, their prologues agree exactly if name, salt and version arrived unmodified. -/
theorem prologue_binds_negotiation :
    (∀ (name name' : String) (salt salt' : Key) (version version' : UInt16),
      buildPrologue name salt version = buildPrologue name' salt' version'
        ↔ name = name' ∧ salt = salt' ∧ version = version') ∧
    ∀ (kdf : Kdf) (fill : Nat → Option Key) (configs : List RoomConfig) (hub : ServerHub)
      (k : Nat), ServerHub.new kdf fill configs = (.ok hub, k) →
    ∀ (t : Tampering) (name : String) (password : List UInt8) (drawn drawn' : Nat)
      (room : RoomState) (init : Initiation),
      hub.enter fill (t.onSelect (.roomSelect name)) drawn = (.ok room, drawn') →
      connect kdf name password (t.onHello room.hello) = .ok init →
      (init.prologue = room.prologue ↔ t.Unmodified name room.hello) := by
  refine ⟨fun _ _ _ _ _ _ => buildPrologue_inj, ?_⟩
  intro kdf fill configs hub k hnew t name password drawn drawn' room init henter hconnect
  have hselect := enter_ok hnew henter
  obtain ⟨salt, hhello, hprologue, _⟩ := connect_ok hconnect
  rw [hprologue, RoomState.prologue, buildPrologue_inj]
  constructor
  · rintro ⟨hname, hsalt, _⟩
    subst hname hsalt
    exact ⟨hselect, hhello⟩
  · rintro ⟨hsent, hanswer⟩
    rw [hselect] at hsent
    rw [hhello] at hanswer
    cases hsent
    cases hanswer
    exact ⟨rfl, rfl, rfl⟩

namespace Knock

/-- He passes on the name and replaces the salt. -/
def saltSwap (salt : Key) : Tampering where
  onSelect f := .ok f
  onHello _ := .ok (.hello salt PROTOCOL_VERSION)

end Knock

open Knock in
/-- A swapped salt reaches both handshakes, and they do not agree on it. -/
theorem prologue_binds_salt :
    ∃ room init,
      (hubWith "main").enter stream ((saltSwap (draw 1)).onSelect (.roomSelect "main")) 1
          = (.ok room, 1)
        ∧ connect saltKdf "main" (strBytes "correct-horse")
            ((saltSwap (draw 1)).onHello room.hello) = .ok init
        ∧ init.prologue ≠ room.prologue := by
  let room : RoomState := ⟨"main", draw 0, draw 0⟩
  let init : Initiation := ⟨⟨draw 1, draw 1⟩, buildPrologue "main" (draw 1) PROTOCOL_VERSION⟩
  have henter : (hubWith "main").enter stream
      ((saltSwap (draw 1)).onSelect (.roomSelect "main")) 1 = (.ok room, 1) := rfl
  have hconnect : connect saltKdf "main" (strBytes "correct-horse")
      ((saltSwap (draw 1)).onHello room.hello) = .ok init := rfl
  refine ⟨room, init, henter, hconnect, fun hsame => ?_⟩
  have hunmodified := (prologue_binds_negotiation.2 saltKdf stream [config "main"]
    (hubWith "main") 1 (new_hubWith "main") (saltSwap (draw 1)) "main" _ 1 1 room init henter
    hconnect).mp hsame
  exact absurd hunmodified.hello (by decide)

end ChatRs

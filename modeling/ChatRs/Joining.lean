import ChatRs.Server.Shutdown
import ChatRs.Server.Welcome
import ChatRs.Standing

/-!
# A client joins (`client/mod.rs`, `server/mod.rs`)

What comes of a call, for every caller: somebody else's room, a wrong password, a name that is
refused, a server that has no time or no place for it, or the event loop. The client's steps are in
`Standing`; here are those of the server. The plan:

* **`Greets`**: what the connection does at each of its stages, and `registers_stands`,
  `snapshots_stands` and `welcomes_stands` in the room;
* **`task_stands`**, **`timeout_stands`**, **`beside_stands`**: every step of the connection, of its
  timer and of everybody else leads from one way of standing to another, `link_stands` over a run;
* **`join_outcome`**: so what the client ends with is what `verdict` says, unless it was cut off,
  and who is admitted is registered under its own name, with the history it is shown.
-/

namespace ChatRs

open Machine (Config Guard free)

/-! ## A step of the connection -/

section

variable {σ τ : Type} {N : Snow σ τ} {codec : Codec} {kdf : Kdf} {fill : Nat → Option Key}
  {hub : ServerHub} {caller : Caller} {past : List ServerEvent}

/-- The Hello goes out in the clear, and is short enough. -/
theorem outgoing_hello (room : RoomState) :
    outgoing N none room.hello = .ok (encodeServerFrame room.hello) := by
  have hversion : (encodeU16 PROTOCOL_VERSION).length = 1 := by decide
  have hsalt : room.roomSalt.toList.length = 32 := room.roomSalt.toList_length
  refine if_pos ?_
  rw [RoomState.hello, encodeServerFrame, Postcard.length_variant (by omega), List.length_append,
    hsalt, hversion]
  decide

theorem outgoing_sealed {t : τ} {f : ServerFrame}
    (hsize : transportSealLen (encodeServerFrame f) ≤ NOISE_BUF) :
    outgoing N (some t) f = .ok (N.writeMessage t (encodeServerFrame f)) := if_pos hsize

/-- A step of the greeting, as a step of the server. -/
theorem serverStep_greets {s : Service τ} {stage stage' : Stage τ} {a : ConnAct} {id : Uuid}
    {k : Nat} {evs : List ServerEvent} (hat : s.conns id = some stage)
    (hgreet : greetStep N.toNoise codec.readClient fill hub id s.drawn stage a
      = some (stage', k, evs)) :
    serverStep N.toNoise codec.readClient fill hub s (.conn id a)
      = some ({ s with drawn := k }.goto id stage', evs) := by
  simp only [serverStep, hat]
  unfold connStep
  split
  case h_5 =>
    rw [hgreet]
    rfl
  all_goals cases hgreet

/-- What a step of the greeting changes: where the connection stands, and nothing in a room. -/
theorem greets {s s' : Service τ} {stage stage' : Stage τ} {a : ConnAct} {id : Uuid} {k : Nat}
    {evs evs' : List ServerEvent} (hat : s.conns id = some stage)
    (hgreet : greetStep N.toNoise codec.readClient fill hub id s.drawn stage a
      = some (stage', k, evs'))
    (hstep : serverStep N.toNoise codec.readClient fill hub s (.conn id a) = some (s', evs)) :
    s'.conns id = some stage' ∧ s'.task id = s.task id ∧ evs = evs' := by
  rw [serverStep_greets hat hgreet] at hstep
  cases hstep
  exact ⟨Function.update_self .., rfl, rfl⟩

/-- A connection whose locals are dropped awaits nothing of the client. -/
theorem hears_of_gone {task : RoomRef → Option Phase} {stage : Stage τ} {id : Uuid}
    {far : Option τ} {queue : List (List UInt8)} {closed fails : Bool} {ephemeral : Nat}
    (h : gone (some stage) = true) :
    stage.hears N task id far queue closed fails ephemeral = none := by
  cases stage with
  | returning => rfl
  | returned => rfl
  | _ => cases h

/-- A connection behind its Welcome awaits nothing more of the negotiation. -/
theorem hears_of_late {task : RoomRef → Option Phase} {stage : Stage τ} {id : Uuid}
    {far : Option τ} {queue : List (List UInt8)} {closed fails : Bool} {ephemeral : Nat}
    (h : late task (some stage) = true) :
    stage.hears N task id far queue closed fails ephemeral = none := by
  cases stage with
  | joined ref =>
    rw [Stage.hears]
    split
    · rename_i heq
      simp only [late, heq] at h
      cases h
    · rename_i heq
      simp only [late, heq] at h
      cases h
    · rfl
  | returning => rfl
  | returned => rfl
  | _ => cases h

/-- A Welcome is within the limits of the transport and of memory. -/
theorem welcome_sends {ref : RoomRef} {id : Uuid} {history : List RoomMessage} {w : World}
    (hroom : room.Reach free ⟨roomPast ref past, w⟩)
    (hsnapshotted : .room ref (.snapshotted id history) ∈ past) :
    transportSealLen (encodeServerFrame (.welcome id history)) ≤ NOISE_BUF
      ∧ (ServerFrame.welcome id history).Fits := by
  have hmem : .snapshotted id history ∈ roomPast ref past :=
    List.mem_filterMap.mpr ⟨_, hsnapshotted, if_pos rfl⟩
  have hfits := snapshotted_fits hroom hmem
  exact ⟨hfits.1, ServerFrame.fits_of_length (isUsize_of_sealed hfits.1)⟩

/-- The connection takes a step of the greeting, to where the two sides stand to each other
again. -/
def Greets (N : Snow σ τ) (codec : Codec) (kdf : Kdf) (fill : Nat → Option Key) (hub : ServerHub)
    (caller : Caller) (stage : Stage τ) (a : ConnAct) (dial : Dial σ τ) (far : Option τ)
    (rest toClient : List (List UInt8)) : Prop :=
  ∀ drawn past task door, ∃ stage' k evs,
    greetStep N.toNoise codec.readClient fill hub caller.id drawn stage a = some (stage', k, evs)
      ∧ InStep N kdf fill hub caller (past ++ evs) task door (some stage') dial
          (farEnd far (some stage')) rest (toClient ++ wire N far evs)

/-- The server reads the name of a room. -/
theorem greets_select (hcodec : codec.Faithful) {configs : List RoomConfig} {k : Nat}
    (hnew : ServerHub.new kdf fill configs = (.ok hub, k))
    (hsize : (encodeClientFrame (.roomSelect caller.room)).length ≤ MAX_FRAME_LEN) :
    Greets N codec kdf fill hub caller .selecting
      (.recvSelect (some (.ok (encodeClientFrame (.roomSelect caller.room))))) .awaitingHello none
      [] [] := by
  intro drawn past task door
  have hmax : IsUsize MAX_FRAME_LEN := by
    show MAX_FRAME_LEN < 2 ^ 64
    decide
  have hfits : (ClientFrame.roomSelect caller.room).Fits :=
    ClientFrame.fits_of_length (hmax.of_le hsize)
  have hread : recvPostcard codec.readClient (.protocol "room select timeout")
      (some (.ok (encodeClientFrame (.roomSelect caller.room))))
        = .ok (.roomSelect caller.room) := by
    simp only [recvPostcard, fromBytes, hcodec.client (.roomSelect caller.room) hfits]
  have hlong : ¬ MAX_FRAME_LEN < (encodeClientFrame (.roomSelect caller.room)).length :=
    Nat.not_lt.mpr hsize
  simp only [greetStep, hread]
  -- each way in which this ends is a row of the table
  by_cases hname : caller.room.isEmpty ∨ strLen caller.room > MAX_ROOM_ID_LEN
  · rw [if_pos hname]
    refine ⟨_, _, _, rfl, .refused none [] rfl .badRoom ⟨0, ?_⟩⟩
    unfold verdict
    rw [if_neg hlong, if_pos hname]
  rw [if_neg hname]
  have hcomes {v : Verdict} (hv : verdict kdf caller.room caller.username caller.password
      (hub.select fill caller.room drawn).1 = v) : Comes kdf fill hub caller v := ⟨drawn, hv⟩
  unfold verdict at hcomes
  rw [if_neg hlong, if_neg hname] at hcomes
  rcases hselect : hub.select fill caller.room drawn with ⟨found, drawn'⟩
  rw [hselect] at hcomes
  cases found with
  | error e =>
    exact ⟨_, _, _, rfl, .refused none [] rfl .noHello (hcomes rfl)⟩
  | ok room =>
    refine ⟨_, _, _, rfl, ?_⟩
    -- the key that is made up for a fake room is no message
    have hquiet : wire N none (madeUp caller.id room (hub.place caller.room caller.id)) = [] := by
      cases hub.place caller.room caller.id <;> rfl
    rw [hquiet]
    exact .between (.greeting room (roomId_of_select hnew hselect) (hcomes rfl))

/-- The server says Hello. -/
theorem greets_sendHello {room : RoomState} (hid : room.roomId = caller.room)
    (hcomes : Comes kdf fill hub caller
      (roomVerdict kdf caller.username caller.password room)) :
    Greets N codec kdf fill hub caller (.greeting (caller.ref hub) room) (.sendHello (.ok ()))
      .awaitingHello none [] [] := by
  intro drawn past task door
  refine ⟨_, _, _, rfl, ?_⟩
  have hwire : wire N none [.sent caller.id room.hello] = [encodeServerFrame room.hello] := by
    simp only [wire, List.filterMap_cons, List.filterMap_nil, outgoing_hello]
    rfl
  rw [hwire]
  exact .between (.greeted room hid hcomes)

/-- The server reads the first message of the handshake. -/
theorem greets_m0 (hlawful : N.Lawful) {room : RoomState} {keys : DerivedKeys} {m0 : List UInt8}
    {handshake : σ} {ephemeral : Nat}
    (hcomes : Comes kdf fill hub caller
      (if keys.psk = room.psk then nameVerdict caller.username keys.roomKey else .hangsUp))
    (hinitiate : N.initiate ephemeral keys.psk room.prologue = some (m0, handshake))
    (ephemeral' : Nat) :
    Greets N codec kdf fill hub caller (.handshaking (caller.ref hub) room)
      (.recvM0 ephemeral' (some (.ok m0))) (.awaitingM1 keys handshake) none [] [] := by
  intro drawn past task door
  by_cases hpsk : keys.psk = room.psk
  · rw [if_pos hpsk] at hcomes
    obtain ⟨m1, t, t', hrespond, hfinish, hpaired⟩ := hlawful.completes hinitiate ephemeral'
    rw [hpsk] at hrespond
    simp only [greetStep, hrespond]
    exact ⟨_, _, _, rfl,
      .between (.answering room keys handshake m1 t t' hcomes hfinish hpaired)⟩
  · rw [if_neg hpsk] at hcomes
    have hrespond : N.respond ephemeral' room.psk room.prologue m0 = none :=
      hlawful.rejects hinitiate _ _ _ fun heq => hpsk (congrArg Prod.fst heq).symm
    simp only [greetStep, hrespond]
    exact ⟨_, _, _, rfl, .refused none [] rfl (.noM1 keys handshake) hcomes⟩

/-- The server sends its half of the handshake. -/
theorem greets_sendM1 {room : RoomState} {keys : DerivedKeys} {handshake : σ} {m1 : List UInt8}
    {t t' : τ} (hcomes : Comes kdf fill hub caller (nameVerdict caller.username keys.roomKey))
    (hfinish : N.finish handshake m1 = some t') (hpaired : N.Paired t' t) :
    Greets N codec kdf fill hub caller (.answering (caller.ref hub) room m1 t)
      (.sendM1 (some (.ok ()))) (.awaitingM1 keys handshake) (some t) [] [] := by
  intro drawn past task door
  exact ⟨_, _, _, rfl, .between (.answered room keys handshake m1 t t' hcomes hfinish hpaired)⟩

/-- The server reads the name of the client. -/
theorem greets_hello (hcodec : codec.Faithful) {room : RoomState} {roomKey : Key} {t t' : τ}
    (hcomes : Comes kdf fill hub caller (nameVerdict caller.username roomKey))
    (hpaired : N.Paired t' t)
    (hsize : transportSealLen (encodeClientFrame (.hello caller.username)) ≤ NOISE_BUF) :
    Greets N codec kdf fill hub caller (.awaitingHello (caller.ref hub) room t)
      (.recvFirst (some (.ok (N.writeMessage t' (encodeClientFrame (.hello caller.username))))))
      (.awaitingWelcome roomKey t') (some t) [] [] := by
  intro drawn past task door
  have hfits : (ClientFrame.hello caller.username).Fits :=
    ClientFrame.fits_of_length (isUsize_of_sealed hsize)
  have hread : recvEncrypted N.toNoise codec.readClient t (.protocol "hello timeout")
      (some (.ok (N.writeMessage t' (encodeClientFrame (.hello caller.username)))))
        = .ok (.hello caller.username) := by
    simp only [recvEncrypted, (hpaired _ hsize).1, fromBytes,
      hcodec.client (.hello caller.username) hfits]
  rw [nameVerdict, if_neg (Nat.not_lt.mpr hsize)] at hcomes
  simp only [greetStep, hread]
  by_cases hname : caller.username.isEmpty ∨ strLen caller.username > MAX_USERNAME_LEN
      ∨ ¬ isValidUsername caller.username
  · rw [if_pos hname] at hcomes
    rw [if_pos hname]
    refine ⟨_, _, _, rfl, ?_⟩
    have hwire : wire N (some t) [.opened caller.id (.hello caller.username),
        .sent caller.id (.error .badFrame)]
          = [N.writeMessage t (encodeServerFrame (.error .badFrame))] := by
      simp only [wire, List.filterMap_cons, List.filterMap_nil,
        outgoing_sealed (f := .error .badFrame) (by decide)]
      rfl
    rw [hwire]
    exact .refused _ [] rfl (.badName roomKey t t' hpaired) hcomes
  · rw [if_neg hname] at hcomes
    rw [if_neg hname]
    exact ⟨_, _, _, rfl, .between (.registering roomKey t t' hcomes hpaired)⟩

variable {s s' : Service τ} {stage : Stage τ} {dial : Dial σ τ} {far : Option τ}
  {toServer toClient rest : List (List UInt8)} {fails : Bool} {ephemeral : Nat} {a : ConnAct}
  {evs : List ServerEvent} {door : Option Bool}

/-- Where the two stand after a step of the connection. -/
def StandsAfter (N : Snow σ τ) (kdf : Kdf) (fill : Nat → Option Key) (hub : ServerHub)
    (caller : Caller) (past evs : List ServerEvent) (door : Option Bool) (s' : Service τ)
    (dial : Dial σ τ) (far : Option τ) (rest toClient : List (List UInt8)) : Prop :=
  InStep N kdf fill hub caller (past ++ evs) (s'.task caller.id) door (s'.conns caller.id) dial
    (farEnd far (s'.conns caller.id)) rest (toClient ++ wire N far evs)

/-- A step of the greeting, as a step of the server. -/
theorem Greets.stands (h : Greets N codec kdf fill hub caller stage a dial far rest toClient)
    (hat : s.conns caller.id = some stage)
    (hstep : serverStep N.toNoise codec.readClient fill hub s (.conn caller.id a)
      = some (s', evs)) :
    StandsAfter N kdf fill hub caller past evs door s' dial far rest toClient := by
  obtain ⟨stage', k, evs', hgreet, hstands⟩ := h s.drawn past (s.task caller.id) door
  obtain ⟨hconn, htask, rfl⟩ := greets hat hgreet hstep
  rw [StandsAfter, hconn, htask]
  exact hstands

/-- A connection over the cap is turned away. -/
theorem rollsBack (hat : s.conns caller.id = some .rollingBack)
    (hstep : serverStep N.toNoise codec.readClient fill hub s (.conn caller.id .rollBack)
      = some (s', evs)) :
    s'.conns caller.id = some (.returned (.error (.protocol "active-connection cap")))
      ∧ evs = [] := by
  simp only [serverStep, hat, connStep] at hstep
  cases hstep
  exact ⟨Function.update_self .., rfl⟩

/-- The connection is registered in the caller's room. -/
theorem registers_stands {roomKey : Key} {t t' : τ}
    (hcomes : Comes kdf fill hub caller (.admitted roomKey)) (hpaired : N.Paired t' t)
    (hat : s.conns caller.id = some (.registering (caller.ref hub) caller.username))
    (hstep : serverStep N.toNoise codec.readClient fill hub s (.conn caller.id .register)
      = some (s', evs)) :
    StandsAfter N kdf fill hub caller past evs door s' (.awaitingWelcome roomKey t') (some t)
      [] [] := by
  simp only [serverStep, hat, connStep, actStep, Option.map_some] at hstep
  cases hstep
  rw [StandsAfter, Service.goto_conns, Function.update_self]
  refine .between (.snapshotting roomKey t t' hcomes hpaired ?_ ?_)
  · exact List.mem_append_right _ (List.mem_singleton_self _)
  · rw [Service.task, Service.goto_stores, Service.setStore_stores, Function.update_self]
    exact Function.update_self ..

/-- The connection takes its snapshot of the history. -/
theorem snapshots_stands {roomKey : Key} {t t' : τ}
    (hcomes : Comes kdf fill hub caller (.admitted roomKey)) (hpaired : N.Paired t' t)
    (hregistered : .room (caller.ref hub) (.registered caller.id caller.username) ∈ past)
    (htask : s.task caller.id (caller.ref hub) = some (.live caller.username .snapshotting))
    (hat : s.conns caller.id = some (.joined (caller.ref hub)))
    (hstep : serverStep N.toNoise codec.readClient fill hub s (.conn caller.id (.live .snapshot))
      = some (s', evs)) :
    StandsAfter N kdf fill hub caller past evs door s' (.awaitingWelcome roomKey t') (some t)
      [] [] := by
  rw [Service.task] at htask
  simp only [serverStep, hat, connStep, htask, liveStep, Option.map_some, welcomes,
    List.nil_append] at hstep
  cases hstep
  let history := (s.stores (caller.ref hub)).messages.snapshot
  have hnext : ((s.stores (caller.ref hub)).goto caller.id
      (.live caller.username (.welcoming history))).tasks caller.id
        = some (.live caller.username (.welcoming history)) := Function.update_self ..
  rw [StandsAfter, Service.goto_conns, Function.update_self, hnext]
  refine .between (.welcoming roomKey t t' history hcomes hpaired
    (List.mem_append_left _ hregistered) ?_ ?_)
  · exact List.mem_append_right _ (List.mem_singleton_self _)
  · rw [Service.task, Service.goto_stores, Service.setStore_stores, Function.update_self]
    exact hnext

/-- The connection sends its Welcome. -/
theorem welcomes_stands {roomKey : Key} {t t' : τ} {history : List RoomMessage}
    (hroom : ∀ ref, room.Reach free ⟨roomPast ref past, s.stores ref⟩)
    (hcomes : Comes kdf fill hub caller (.admitted roomKey)) (hpaired : N.Paired t' t)
    (hregistered : .room (caller.ref hub) (.registered caller.id caller.username) ∈ past)
    (hsnapshotted : .room (caller.ref hub) (.snapshotted caller.id history) ∈ past)
    (htask : s.task caller.id (caller.ref hub)
      = some (.live caller.username (.welcoming history)))
    (hat : s.conns caller.id = some (.joined (caller.ref hub)))
    (hstep : serverStep N.toNoise codec.readClient fill hub s
      (.conn caller.id (.live (.sendWelcome (.ok ())))) = some (s', evs)) :
    StandsAfter N kdf fill hub caller past evs door s' (.awaitingWelcome roomKey t') (some t)
      [] [] := by
  obtain ⟨hsize, hfits⟩ := welcome_sends (hroom _) hsnapshotted
  rw [Service.task] at htask
  simp only [serverStep, hat, connStep, htask, liveStep, Option.map_some, welcomes, List.map_nil,
    List.append_nil] at hstep
  cases hstep
  have hnext : ((s.stores (caller.ref hub)).goto caller.id
      (.live caller.username .pumping)).tasks caller.id
        = some (.live caller.username .pumping) := Function.update_self ..
  rw [StandsAfter, Service.goto_conns, Function.update_self, hnext]
  -- the Welcome is all that goes out
  have hwire : wire N (some t) [.sent caller.id (.welcome caller.id history)]
      = [N.writeMessage t (encodeServerFrame (.welcome caller.id history))] := by
    simp only [wire, List.filterMap_cons, List.filterMap_nil, outgoing_sealed hsize]
    rfl
  rw [hwire]
  refine .welcomed roomKey t t' history hcomes hpaired (List.mem_append_left _ hregistered)
    (List.mem_append_left _ hsnapshotted) hsize hfits (late_joined ?_)
  rw [Service.task, Service.goto_stores, Service.setStore_stores, Function.update_self, hnext]
  rfl

/-- A connection whose client has gone finds that out. -/
theorem left_stands {e : Error} (hleft : Left door (some stage) toServer)
    (hends : Ends kdf fill hub caller past door (some stage) (.error e))
    (hat : s.conns caller.id = some stage)
    (hawait : stage.hears N (s.task caller.id) caller.id far toServer true fails ephemeral
      = some (a, rest))
    (hstep : serverStep N.toNoise codec.readClient fill hub s (.conn caller.id a)
      = some (s', evs)) :
    StandsAfter N kdf fill hub caller past evs door s' (.ended (.error e)) far rest toClient := by
  -- what it waits for does not come
  have leaves {stage₀ : Stage τ} {a₀ : ConnAct} {e₀ : Error} (hstage : stage = stage₀)
      (hcut : ¬ CutOff door (some stage₀)) (ha : a = a₀)
      (hgreet : ∀ drawn, greetStep N.toNoise codec.readClient fill hub caller.id drawn stage₀ a₀
        = some (.returning (.error e₀), drawn, [])) :
      StandsAfter N kdf fill hub caller past evs door s' (.ended (.error e)) far rest
        toClient := by
    subst hstage ha
    obtain ⟨hconn, _, _⟩ := greets hat (hgreet s.drawn) hstep
    rw [StandsAfter, hconn]
    exact .failed _ _ (.gone _ rfl) ((hends.mono evs).goesOn fun h => absurd h hcut)
  cases hleft with
  | waits hwaits =>
    cases hwaits with
    | selecting =>
      cases hawait
      exact leaves rfl (Waits.selecting.not_cutOff) rfl fun _ => rfl
    | rollingBack =>
      cases hawait
      obtain ⟨hconn, rfl⟩ := rollsBack hat hstep
      rw [StandsAfter, hconn]
      exact .failed _ _ (.gone _ rfl)
        ((hends.mono _).goesOn fun h => absurd h Waits.rollingBack.not_cutOff)
  | handshaking ref room =>
    cases hawait
    exact leaves rfl (by rintro ⟨⟩) rfl fun _ => rfl
  | awaitingHello ref room t =>
    cases hawait
    exact leaves rfl (by rintro ⟨⟩) rfl fun _ => rfl
  | gone _ hgone =>
    rw [hears_of_gone hgone] at hawait
    cases hawait

/-- In the middle of the negotiation the connection answers as the verdict has it, and what it puts
on the wire is what the client waits for. -/
theorem between_task (hlawful : N.Lawful) (hcodec : codec.Faithful)
    (hroom : ∀ ref, room.Reach free ⟨roomPast ref past, s.stores ref⟩)
    (h : Between N kdf fill hub caller past (s.task caller.id) stage dial far toServer toClient)
    (hat : s.conns caller.id = some stage)
    (hawait : stage.hears N (s.task caller.id) caller.id far toServer dial.gone fails ephemeral
      = some (a, rest))
    (hstep : serverStep N.toNoise codec.readClient fill hub s (.conn caller.id a)
      = some (s', evs)) :
    StandsAfter N kdf fill hub caller past evs door s' dial far rest toClient := by
  cases h with
  | greeting room hid hcomes =>
    simp only [Stage.hears, outgoing_hello] at hawait
    cases hawait
    exact (greets_sendHello hid hcomes).stands hat hstep
  | initiated room keys m0 handshake ephemeral' hcomes hinitiate =>
    cases hawait
    exact (greets_m0 hlawful hcomes hinitiate ephemeral).stands hat hstep
  | answering room keys handshake m1 t t' hcomes hfinish hpaired =>
    cases hawait
    exact (greets_sendM1 hcomes hfinish hpaired).stands hat hstep
  | introduced room roomKey t t' hcomes hpaired hsize =>
    cases hawait
    exact (greets_hello hcodec hcomes hpaired hsize).stands hat hstep
  | registering roomKey t t' hcomes hpaired =>
    cases hawait
    exact registers_stands hcomes hpaired hat hstep
  | snapshotting roomKey t t' hcomes hpaired hregistered htask =>
    simp only [Stage.hears, htask] at hawait
    cases hawait
    exact snapshots_stands hcomes hpaired hregistered htask hat hstep
  | welcoming roomKey t t' history hcomes hpaired hregistered hsnapshotted htask =>
    simp only [Stage.hears, htask,
      outgoing_sealed (welcome_sends (hroom _) hsnapshotted).1] at hawait
    cases hawait
    exact welcomes_stands hroom hcomes hpaired hregistered hsnapshotted htask hat hstep
  -- the client's turn
  | greeted | initiating | answered | introducing => cases hawait

/-- **A step of the connection.** -/
theorem task_stands (hlawful : N.Lawful) (hcodec : codec.Faithful) {configs : List RoomConfig}
    {k : Nat} (hnew : ServerHub.new kdf fill configs = (.ok hub, k))
    (hat : s.conns caller.id = some stage)
    (hroom : ∀ ref, room.Reach free ⟨roomPast ref past, s.stores ref⟩)
    (h : InStep N kdf fill hub caller past (s.task caller.id) door (some stage) dial far toServer
      toClient)
    (hawait : stage.hears N (s.task caller.id) caller.id far toServer dial.gone fails ephemeral
      = some (a, rest))
    (hstep : serverStep N.toNoise codec.readClient fill hub s (.conn caller.id a)
      = some (s', evs)) :
    StandsAfter N kdf fill hub caller past evs door s' dial far rest toClient := by
  -- the socket is dropped, or the Welcome has gone out: nothing is awaited
  have gone {P : Prop} (hgone : gone (some stage) = true) : P := by
    rw [hears_of_gone hgone] at hawait
    cases hawait
  have late {P : Prop} (hlate : late (s.task caller.id) (some stage) = true) : P := by
    rw [hears_of_late hlate] at hawait
    cases hawait
  cases h with
  | calls hwaits =>
    cases hwaits with
    | selecting => cases hawait
    | rollingBack =>
      cases hawait
      obtain ⟨hconn, rfl⟩ := rollsBack hat hstep
      rw [StandsAfter, hconn]
      exact .cutOff none [] (.turnedAway door) .selecting
  | called hwaits hsize =>
    cases hwaits with
    | selecting =>
      cases hawait
      exact (greets_select hcodec hnew hsize).stands hat hstep
    | rollingBack =>
      cases hawait
      obtain ⟨hconn, rfl⟩ := rollsBack hat hstep
      rw [StandsAfter, hconn]
      exact .cutOff none _ (.turnedAway door) .awaitingHello
  | between hbetween => exact between_task hlawful hcodec hroom hbetween hat hawait hstep
  | failed far toClient hleft hends => exact left_stands hleft hends hat hawait hstep
  | refused _ _ hgone => exact gone hgone
  | cutOff _ _ hcut => exact gone hcut.hungUp
  | welcomed _ _ _ _ _ _ _ _ _ _ hlate => exact late hlate
  | entering _ _ _ _ _ _ _ _ hlate => exact late hlate
  | inside _ _ _ hlate => exact late hlate

end

/-! ## A timer goes off -/

section

variable {σ τ : Type} {N : Snow σ τ} {codec : Codec} {kdf : Kdf} {fill : Nat → Option Key}
  {hub : ServerHub} {caller : Caller} {past : List ServerEvent} {s s' : Service τ}
  {stage : Stage τ} {dial : Dial σ τ} {far : Option τ} {toServer toClient : List (List UInt8)}
  {a : ConnAct} {evs : List ServerEvent} {door : Option Bool}

/-- The connection returns with the error of the timeout. Nothing is on the wire but what was being
sent. -/
theorem timedOut_step (far : Option τ) (htimed : stage.timedOut = some a)
    (hat : s.conns caller.id = some stage)
    (hstep : serverStep N.toNoise codec.readClient fill hub s (.conn caller.id a)
      = some (s', evs)) :
    (∃ why ∈ timeouts, s'.conns caller.id = some (.returning (.error (.protocol why))))
      ∧ s'.task caller.id = s.task caller.id
      ∧ ((∀ ref room m1 t, stage ≠ .answering ref room m1 t) → wire N far evs = [])
      ∧ ∀ ref room m1 t, stage = .answering ref room m1 t → wire N far evs = [m1] := by
  have ends {why : String} {evs₀ : List ServerEvent} (hwhy : why ∈ timeouts)
      (hgreet : greetStep N.toNoise codec.readClient fill hub caller.id s.drawn stage a
        = some (.returning (.error (.protocol why)), s.drawn, evs₀)) :
      (∃ why ∈ timeouts, s'.conns caller.id = some (.returning (.error (.protocol why))))
        ∧ s'.task caller.id = s.task caller.id ∧ evs = evs₀ := by
    obtain ⟨hconn, htask, hevs⟩ := greets hat hgreet hstep
    exact ⟨⟨why, hwhy, hconn⟩, htask, hevs⟩
  cases stage with
  | selecting | handshaking | awaitingHello =>
    cases htimed
    obtain ⟨hconn, htask, rfl⟩ := ends (by simp [timeouts]) rfl
    exact ⟨hconn, htask, fun _ => rfl, by simp⟩
  | answering ref room m1 t =>
    cases htimed
    obtain ⟨hconn, htask, rfl⟩ := ends (by simp [timeouts]) rfl
    refine ⟨hconn, htask, fun hother => absurd rfl (hother ref room m1 t), ?_⟩
    rintro _ _ _ _ ⟨⟩
    rfl
  | _ => cases htimed

/-- A connection that has ended has no timer. -/
theorem timedOut_of_gone (h : gone (some stage) = true) : stage.timedOut = none := by
  cases stage with
  | returning | returned => rfl
  | _ => cases h

/-- A connection behind its Welcome is under no timer. -/
theorem timedOut_of_late {task : RoomRef → Option Phase} (h : late task (some stage) = true) :
    stage.timedOut = none := by
  cases stage with
  | joined | returning | returned => rfl
  | _ => cases h

/-- **A timer goes off**: the client is cut off, wherever it stands. -/
theorem timeout_stands
    (hat : s.conns caller.id = some stage) (htimed : stage.timedOut = some a) (flushed : Bool)
    (h : InStep N kdf fill hub caller past (s.task caller.id) door (some stage) dial far toServer
      toClient)
    (hstep : serverStep N.toNoise codec.readClient fill hub s (.conn caller.id a)
      = some (s', evs)) :
    InStep N kdf fill hub caller (past ++ evs) (s'.task caller.id) door (s'.conns caller.id) dial
      far toServer (toClient ++ if flushed then wire N far evs else []) := by
  obtain ⟨⟨why, hwhy, hconn⟩, _, hquiet, hanswer⟩ := timedOut_step far htimed hat hstep
  rw [hconn]
  have hcut : CutOff door (some (.returning (.error (.protocol why)) : Stage τ)) :=
    .timedOut door why hwhy
  -- nothing was being sent
  have silent (hother : ∀ ref room m1 t, stage ≠ .answering ref room m1 t) :
      (toClient ++ if flushed then wire N far evs else []) = toClient := by
    rw [hquiet hother, ite_self, List.append_nil]
  cases h with
  -- the client has not sent its `RoomSelect` yet
  | calls hwaits =>
    cases hwaits with
    | selecting =>
      rw [silent (by simp)]
      exact .cutOff none [] hcut .selecting
    | rollingBack => cases htimed
  | called hwaits =>
    cases hwaits with
    | selecting =>
      rw [silent (by simp)]
      exact .cutOff none _ hcut .awaitingHello
    | rollingBack => cases htimed
  -- the client is gone already
  | failed far toClient hleft hends =>
    exact .failed far _ (.gone _ rfl) ((hends.mono evs).goesOn fun _ => hcut)
  | between hbetween =>
    cases hbetween with
    | greeted room hid hcomes =>
      rw [silent (by simp)]
      exact .cutOff _ _ hcut (.greeted room hid hcomes)
    | initiating room keys m0 handshake =>
      rw [silent (by simp)]
      exact .cutOff _ _ hcut (.initiating keys m0 handshake)
    | initiated room keys m0 handshake =>
      rw [silent (by simp)]
      exact .cutOff _ _ hcut (.awaitingM1 keys handshake)
    | answering room keys handshake m1 t t' hcomes hfinish hpaired =>
      -- its half of the handshake may have got out
      rw [hanswer _ _ _ _ rfl, List.nil_append]
      cases flushed with
      | true => exact .cutOff _ _ hcut (.answered keys handshake m1 t' hcomes hfinish)
      | false => exact .cutOff _ _ hcut (.awaitingM1 keys handshake)
    | answered room keys handshake m1 t t' hcomes hfinish hpaired =>
      rw [silent (by simp)]
      exact .cutOff _ _ hcut (.answered keys handshake m1 t' hcomes hfinish)
    | introducing room roomKey t t' hcomes hpaired =>
      rw [silent (by simp)]
      exact .cutOff _ _ hcut (.introducing roomKey t' hcomes)
    | introduced room roomKey t t' hcomes hpaired hsize =>
      rw [silent (by simp)]
      exact .cutOff _ _ hcut (.awaitingWelcome roomKey t')
    | greeting | registering | snapshotting | welcoming => cases htimed
  -- with the verdict given, or the room entered, there is no timer any more
  | refused _ _ hgone =>
    rw [timedOut_of_gone hgone] at htimed
    cases htimed
  | cutOff _ _ hgone =>
    rw [timedOut_of_gone hgone.hungUp] at htimed
    cases htimed
  | welcomed _ _ _ _ _ _ _ _ _ _ hlate | entering _ _ _ _ _ _ _ _ hlate | inside _ _ _ hlate =>
    rw [timedOut_of_late hlate] at htimed
    cases htimed

end

/-! ## What else happens -/

section

variable {σ τ : Type} {N : Snow σ τ} {codec : Codec} {kdf : Kdf} {fill : Nat → Option Key}
  {hub : ServerHub} {caller : Caller} {past : List ServerEvent}

/-- Where the two stand does not depend on what else happens. -/
theorem Between.mono {task : RoomRef → Option Phase} {stage : Stage τ} {dial : Dial σ τ}
    {far : Option τ} {toServer toClient : List (List UInt8)}
    (h : Between N kdf fill hub caller past task stage dial far toServer toClient)
    (evs : List ServerEvent) :
    Between N kdf fill hub caller (past ++ evs) task stage dial far toServer toClient := by
  cases h with
  | snapshotting roomKey t t' hcomes hpaired hregistered htask =>
    exact .snapshotting roomKey t t' hcomes hpaired (List.mem_append_left _ hregistered) htask
  | welcoming roomKey t t' history hcomes hpaired hregistered hsnapshotted htask =>
    exact .welcoming roomKey t t' history hcomes hpaired (List.mem_append_left _ hregistered)
      (List.mem_append_left _ hsnapshotted) htask
  | greeting room hid hcomes => exact .greeting room hid hcomes
  | greeted room hid hcomes => exact .greeted room hid hcomes
  | initiating room keys m0 handshake ephemeral hcomes hinitiate =>
    exact .initiating room keys m0 handshake ephemeral hcomes hinitiate
  | initiated room keys m0 handshake ephemeral hcomes hinitiate =>
    exact .initiated room keys m0 handshake ephemeral hcomes hinitiate
  | answering room keys handshake m1 t t' hcomes hfinish hpaired =>
    exact .answering room keys handshake m1 t t' hcomes hfinish hpaired
  | answered room keys handshake m1 t t' hcomes hfinish hpaired =>
    exact .answered room keys handshake m1 t t' hcomes hfinish hpaired
  | introducing room roomKey t t' hcomes hpaired =>
    exact .introducing room roomKey t t' hcomes hpaired
  | introduced room roomKey t t' hcomes hpaired hsize =>
    exact .introduced room roomKey t t' hcomes hpaired hsize
  | registering roomKey t t' hcomes hpaired => exact .registering roomKey t t' hcomes hpaired

/-- A longer past leaves the two in the way in which they stand to each other. -/
theorem InStep.mono {task : RoomRef → Option Phase} {door : Option Bool}
    {stage : Option (Stage τ)} {dial : Dial σ τ} {far : Option τ}
    {toServer toClient : List (List UInt8)}
    (h : InStep N kdf fill hub caller past task door stage dial far toServer toClient)
    (evs : List ServerEvent) :
    InStep N kdf fill hub caller (past ++ evs) task door stage dial far toServer toClient := by
  cases h with
  | calls hwaits => exact .calls hwaits
  | called hwaits hsize => exact .called hwaits hsize
  | between hbetween => exact .between (hbetween.mono evs)
  | refused far toServer hgone htells hcomes => exact .refused far toServer hgone htells hcomes
  | cutOff far toServer hcut hstranded => exact .cutOff far toServer hcut hstranded
  | failed far toClient hleft hends => exact .failed far toClient hleft (hends.mono evs)
  | welcomed roomKey t t' history hcomes hpaired hregistered hsnapshotted hsize hfits hlate =>
    exact .welcomed roomKey t t' history hcomes hpaired (List.mem_append_left _ hregistered)
      (List.mem_append_left _ hsnapshotted) hsize hfits hlate
  | entering far toServer toClient roomKey history hcomes hregistered hsnapshotted hlate =>
    exact .entering far toServer toClient roomKey history hcomes
      (List.mem_append_left _ hregistered) (List.mem_append_left _ hsnapshotted) hlate
  | inside far toServer toClient hlate hends =>
    exact .inside far toServer toClient hlate (hends.mono evs)

/-- A task that has sent the Welcome does not send another. -/
theorem beforeWelcome_step {w w' : World} {id : Uuid} {username : String} {pc : Pc} {a : Act}
    {wevs : List Event} (hat : w.tasks id = some (.live username pc))
    (h : liveStep w id username pc a = some (w', wevs))
    (hlate : beforeWelcome (w.tasks id) = false) : beforeWelcome (w'.tasks id) = false := by
  cases liveStep_inv hat h with
  | early l _ phase hbefore hafter hname hactor =>
    cases hactor
    rw [hat] at hbefore
    exact hbefore.elim
  | register _ _ hat' =>
    rw [hat] at hat'
    cases hat'
  | snapshot _ _ hat' | welcomed _ _ _ hat' | unwelcomed _ _ _ _ hat' =>
    rw [hat'] at hlate
    cases hlate
  | delivers => exact hlate
  | accepts _ _ f out =>
    rw [World.goto_tasks, Function.update_self]
    unfold afterCheck
    split
    · split
      · rfl
      · rfl
    · rfl
  | _ =>
    rw [World.goto_tasks, Function.update_self]
    rfl

section

variable {task task' : RoomRef → Option Phase} {door : Option Bool} {stage : Option (Stage τ)}
  {dial : Dial σ τ} {far : Option τ} {toServer toClient : List (List UInt8)}

/-- A client that has come to its end has ended as it should, in whatever way the two stand. -/
theorem InStep.ends {o : Result Joined}
    (h : InStep N kdf fill hub caller past task door stage (.ended o) far toServer toClient) :
    Ends kdf fill hub caller past door stage o := by
  cases h with
  | between hbetween => cases hbetween
  | refused _ _ _ htells => cases htells
  | cutOff _ _ _ hstranded => cases hstranded
  | failed _ _ _ hends => exact hends
  | inside _ _ _ _ hends => exact hends

/-- The limiter lets the client's socket pass, or has it dropped. -/
theorem InStep.connects
    (h : InStep N kdf fill hub caller past task none stage dial far toServer toClient)
    (allowed : Bool) :
    InStep N kdf fill hub caller past task (some allowed) stage dial far toServer toClient := by
  -- what is cut off stays so
  have hcut (hstage : CutOff none stage) : CutOff (some allowed) stage := by
    cases hstage with
    | turnedAway => exact .turnedAway _
    | timedOut _ why hwhy => exact .timedOut _ why hwhy
    | timedOutBefore _ why hwhy => exact .timedOutBefore _ why hwhy
  -- who waits goes on waiting, or is cut off
  have hwaits (h : Waits none stage) :
      Waits (some allowed) stage ∨ CutOff (some allowed) stage := by
    cases h with
    | unaccepted =>
      cases allowed with
      | true => exact .inl (.unaccepted (by simp))
      | false => exact .inr .limited
    | selecting => exact .inl .selecting
    | rollingBack => exact .inl .rollingBack
  cases h with
  | calls h =>
    rcases hwaits h with h | h
    · exact .calls h
    · exact .cutOff none [] h .selecting
  | called h hsize =>
    rcases hwaits h with h | h
    · exact .called h hsize
    · exact .cutOff none _ h .awaitingHello
  | between hbetween => exact .between hbetween
  | refused far toServer hgone htells hcomes => exact .refused far toServer hgone htells hcomes
  | cutOff far toServer h hstranded => exact .cutOff far toServer (hcut h) hstranded
  | failed far toClient hleft hends =>
    refine .failed far toClient ?_ (hends.goesOn hcut)
    cases hleft with
    | waits h =>
      rcases hwaits h with h | h
      · exact .waits h
      · exact .gone _ h.hungUp
    | handshaking ref room => exact .handshaking ref room
    | awaitingHello ref room t => exact .awaitingHello ref room t
    | gone _ hgone =>
      refine .gone _ ?_
      cases stage with
      | none => cases hgone
      | some => exact hgone
  | welcomed roomKey t t' history hcomes hpaired hregistered hsnapshotted hsize hfits hlate =>
    exact .welcomed roomKey t t' history hcomes hpaired hregistered hsnapshotted hsize hfits hlate
  | entering far toServer toClient roomKey history hcomes hregistered hsnapshotted hlate =>
    exact .entering far toServer toClient roomKey history hcomes hregistered hsnapshotted hlate
  | inside far toServer toClient hlate hends =>
    exact .inside far toServer toClient hlate (hends.goesOn hcut)

/-- The task of the client's connection starts. -/
theorem InStep.accepted
    (h : InStep N kdf fill hub caller past task (some true) none dial far toServer toClient)
    (hwaits : Waits (some true) stage) :
    InStep N kdf fill hub caller past task (some true) stage dial far toServer toClient := by
  have hnot : ¬ CutOff (some true) (none : Option (Stage τ)) := by
    rintro ⟨⟩
  cases h with
  | calls => exact .calls hwaits
  | called _ hsize => exact .called hwaits hsize
  | refused _ _ hgone => cases hgone
  | cutOff _ _ hcut => exact absurd hcut hnot
  | failed far toClient hleft hends =>
    cases hleft with
    | waits => exact .failed far toClient (.waits hwaits) (hends.goesOn fun h => absurd h hnot)
    | gone _ hgone => cases hgone
  | welcomed _ _ _ _ _ _ _ _ _ _ hlate | entering _ _ _ _ _ _ _ _ hlate | inside _ _ _ hlate =>
    cases hlate

/-- The connection has returned. -/
theorem InStep.returned {result : Result Unit}
    (h : InStep N kdf fill hub caller past task door (some (.returning result)) dial far toServer
      toClient) :
    InStep N kdf fill hub caller past task door (some (.returned result)) dial far toServer
      toClient := by
  have hcut (hstage : CutOff door (some (.returning result : Stage τ))) :
      CutOff door (some (.returned result : Stage τ)) := by
    cases hstage with
    | timedOut _ why hwhy => exact .timedOutBefore _ why hwhy
  cases h with
  | calls hwaits | called hwaits => cases hwaits
  | between hbetween => cases hbetween
  | refused far toServer _ htells hcomes => exact .refused far toServer rfl htells hcomes
  | cutOff far toServer h hstranded => exact .cutOff far toServer (hcut h) hstranded
  | failed far toClient _ hends => exact .failed far toClient (.gone _ rfl) (hends.goesOn hcut)
  | welcomed roomKey t t' history hcomes hpaired hregistered hsnapshotted hsize hfits _ =>
    exact .welcomed roomKey t t' history hcomes hpaired hregistered hsnapshotted hsize hfits rfl
  | entering far toServer toClient roomKey history hcomes hregistered hsnapshotted _ =>
    exact .entering far toServer toClient roomKey history hcomes hregistered hsnapshotted rfl
  | inside far toServer toClient _ hends =>
    exact .inside far toServer toClient rfl (hends.goesOn hcut)

/-- The connection goes on behind the Welcome. -/
theorem InStep.lives {ref : RoomRef}
    (h : InStep N kdf fill hub caller past task door (some (.joined ref)) dial far toServer
      toClient)
    (hbefore : beforeWelcome (task ref) = false) (hlate : late task' stage = true) :
    InStep N kdf fill hub caller past task' door stage dial far toServer toClient := by
  have hnot : ¬ CutOff door (some (.joined ref : Stage τ)) := by
    rintro ⟨⟩
  cases h with
  | calls hwaits | called hwaits => cases hwaits
  | between hbetween =>
    cases hbetween with
    | snapshotting _ _ _ _ _ _ htask | welcoming _ _ _ _ _ _ _ _ htask =>
      rw [htask] at hbefore
      cases hbefore
  | refused _ _ hgone => cases hgone
  | cutOff _ _ hcut => exact absurd hcut hnot
  | failed _ _ hleft =>
    cases hleft with
    | waits hwaits => cases hwaits
    | gone _ hgone => cases hgone
  | welcomed roomKey t t' history hcomes hpaired hregistered hsnapshotted hsize hfits _ =>
    exact .welcomed roomKey t t' history hcomes hpaired hregistered hsnapshotted hsize hfits hlate
  | entering far toServer toClient roomKey history hcomes hregistered hsnapshotted _ =>
    exact .entering far toServer toClient roomKey history hcomes hregistered hsnapshotted hlate
  | inside far toServer toClient _ hends =>
    exact .inside far toServer toClient hlate (hends.goesOn fun h => absurd h hnot)

end

/-- A step in the room behind the Welcome. -/
theorem late_of_live {s s' : Service τ} {id : Uuid} {ref : RoomRef} {a : Act}
    {evs : List ServerEvent} (hat : s.conns id = some (.joined ref))
    (hbefore : beforeWelcome (s.task id ref) = false)
    (hstep : serverStep N.toNoise codec.readClient fill hub s (.conn id (.live a))
      = some (s', evs)) : late (s'.task id) (s'.conns id) = true := by
  simp only [serverStep, hat, connStep] at hstep
  split at hstep
  · rename_i username pc htask
    obtain ⟨⟨w, wevs⟩, hlive, heq⟩ := Option.map_eq_some_iff.mp hstep
    cases heq
    rw [Service.goto_conns, Function.update_self]
    have hnext := beforeWelcome_step htask hlive hbefore
    rcases liveStep_task htask hlive with ⟨username', pc', hat'⟩ | ⟨result, hat'⟩
    · simp only [afterLive, hat']
      refine late_joined ?_
      rw [Service.task, Service.goto_stores, Service.setStore_stores, Function.update_self]
      exact hnext
    · simp only [afterLive, hat']
      rfl
  · cases hstep

/-- The last step of a connection. -/
theorem returns {s s' : Service τ} {id : Uuid} {evs : List ServerEvent}
    (hstep : serverStep N.toNoise codec.readClient fill hub s (.conn id .ret) = some (s', evs)) :
    ∃ result, s.conns id = some (.returning result) ∧ s'.conns id = some (.returned result)
      ∧ s'.task id = s.task id ∧ evs = [] := by
  simp only [serverStep] at hstep
  split at hstep
  · rename_i stage hat
    cases stage with
    | returning result =>
      cases hstep
      exact ⟨result, hat, Function.update_self .., rfl, rfl⟩
    | _ => cases hstep
  · cases hstep

/-- The steps of the listener and of the other connections leave the client's alone. -/
theorem listenerStep_other {s s' : Listener τ} {ll : ListenerLabel}
    {evs : List ListenerEvent} {id : Uuid} (hactor : ll.actor ≠ some id)
    (hstep : listenerStep N.toNoise codec.readClient fill hub s ll = some (s', evs)) :
    s'.sockets id = s.sockets id ∧ s'.service.conns id = s.service.conns id
      ∧ s'.service.task id = s.service.task id := by
  cases listenerStep_inv hstep with
  | connects k ip hnew =>
    refine ⟨Function.update_of_ne ?_ .., rfl, rfl⟩
    rintro rfl
    exact hactor rfl
  | cleans => exact ⟨rfl, rfl, rfl⟩
  | serves sl service sevs d hspawned hclock hserver =>
    have hs := serverStep_inv hserver
    exact ⟨rfl, hs.conns_other hactor, funext fun ref => hs.tasks_other hactor ref⟩

/-- Whatever the server does besides leaves the two where they stand to each other. -/
theorem beside_stands {l : Link σ τ} {label : LinkLabel} {ll : ListenerLabel} {s : Listener τ}
    {evs : List ListenerEvent}
    (h : InStep N kdf fill hub caller past (l.listener.service.task caller.id)
      (l.listener.sockets caller.id) (l.listener.service.conns caller.id) l.dial l.far l.toServer
      l.toClient)
    (hbeside : Beside l caller.id label ll)
    (hstep : listenerStep N.toNoise codec.readClient fill hub l.listener ll = some (s, evs)) :
    InStep N kdf fill hub caller (past ++ serverPast evs) (s.service.task caller.id)
      (s.sockets caller.id) (s.service.conns caller.id) l.dial l.far l.toServer l.toClient := by
  cases hbeside with
  | other _ hactor =>
    obtain ⟨hsocket, hconn, htask⟩ := listenerStep_other hactor hstep
    rw [hsocket, hconn, htask]
    exact h.mono _
  | connect ip =>
    cases listenerStep_inv hstep with
    | connects _ _ hnew =>
      rw [hnew] at h
      show InStep N kdf fill hub caller _ _ (Function.update l.listener.sockets caller.id
        (some (l.listener.ratelimit.check l.listener.now ip).1) caller.id) _ _ _ _ _
      rw [Function.update_self]
      exact (h.connects _).mono _
  | accept =>
    cases listenerStep_inv hstep with
    | serves _ service sevs d hspawned hclock hserver =>
      simp only [serverStep] at hserver
      split at hserver
      · cases hserver
      · rename_i hnew
        rw [hspawned _ rfl, hnew] at h
        cases hserver
        show InStep N kdf fill hub caller _ _ (l.listener.sockets caller.id) _ _ _ _ _
        rw [hspawned _ rfl, Service.goto_conns, Function.update_self]
        refine (h.accepted ?_).mono _
        split
        · -- over the cap, the add is taken back; below it, the greeting begins
          exact .rollingBack
        · exact .selecting
  | ret =>
    cases listenerStep_inv hstep with
    | serves _ service sevs d hspawned hclock hserver =>
      obtain ⟨result, hat, hconn, htask, rfl⟩ := returns hserver
      rw [hat] at h
      rw [hconn, htask]
      exact h.returned.mono _
  | live a ref hat hlate =>
    cases listenerStep_inv hstep with
    | serves _ service sevs d hspawned hclock hserver =>
      rw [hat] at h
      exact (h.lives hlate (late_of_live hat hlate hserver)).mono _

end

/-! ## Over a run -/

section

variable {σ τ : Type} {N : Snow σ τ} {codec : Codec} {kdf : Kdf} {fill : Nat → Option Key}
  {hub : ServerHub} {caller : Caller} {drawn : Nat} {G : Guard (Link σ τ) LinkLabel ServerEvent}
  {c : Config (Link σ τ) ServerEvent}

/-- **The two sides always stand to each other as the negotiation has it.** -/
theorem link_stands (hlawful : N.Lawful) (hcodec : codec.Faithful) {configs : List RoomConfig}
    {k : Nat} (hnew : ServerHub.new kdf fill configs = (.ok hub, k))
    (h : (link N codec kdf fill hub caller drawn).Reach G c) :
    InStep N kdf fill hub caller c.past (c.state.listener.service.task caller.id)
      (c.state.listener.sockets caller.id) (c.state.listener.service.conns caller.id) c.state.dial
      c.state.far c.state.toServer c.state.toClient := by
  have hdoor : (none : Option Bool) ≠ some false := by simp
  refine Machine.Reach.invariant (P := fun c => InStep N kdf fill hub caller c.past
    (c.state.listener.service.task caller.id) (c.state.listener.sockets caller.id)
    (c.state.listener.service.conns caller.id) c.state.dial c.state.far c.state.toServer
    c.state.toClient) (.calls (.unaccepted hdoor)) ?_ h
  intro c label l evs hreach ih _ hs
  cases linkStep_inv hs with
  | client ephemeral fails a rest sent dial hawait hstep =>
    rw [List.append_nil]
    exact client_stands hlawful hcodec ih hawait hstep
  | task ephemeral fails stage a rest s evs hat hawait hstep =>
    rw [hat] at ih
    exact task_stands hlawful hcodec hnew hat (server_room (link_server hreach)) ih hawait hstep
  | timeout flushed stage a s evs hat htimed hdue hstep =>
    rw [hat] at ih
    exact timeout_stands hat htimed flushed ih hstep
  | beside _ ll s evs armed hbeside hstep =>
    have hnext := beside_stands ih hbeside hstep
    exact hnext

end

/-! ## Alice calls -/

namespace Knock

open Cast

/-- `clearNoise` with the initiator's half. -/
def clearSnow : Snow Key Key where
  toNoise := clearNoise
  initiate _ psk prologue := some (psk.toList ++ prologue, psk)
  finish psk _ := some psk
  writeMessage psk plaintext := psk.toList ++ plaintext

/-- It keeps what is asked of `snow`: keys and prologues that agree complete, others do not. -/
theorem clearSnow_lawful : clearSnow.Lawful where
  initiates _ _ _ := rfl
  completes {_ psk prologue m0 handshake} h ephemeral' := by
    cases h
    refine ⟨[], psk, psk, if_pos rfl, rfl, fun plaintext _ => ?_⟩
    have hread : clearNoise.readMessage psk (psk.toList ++ plaintext) = some plaintext := by
      have htake : (psk.toList ++ plaintext).take 32 = psk.toList :=
        List.take_left' psk.toList_length
      have hdrop : (psk.toList ++ plaintext).drop 32 = plaintext :=
        List.drop_left' psk.toList_length
      simp only [clearNoise, htake, hdrop, if_true]
    exact ⟨hread, hread⟩
  rejects {_ psk prologue m0 handshake} h ephemeral' psk' prologue' hne := by
    cases h
    refine if_neg fun heq => hne ?_
    obtain ⟨hpsk, hprologue⟩ := List.append_inj heq (by rw [psk.toList_length, psk'.toList_length])
    rw [List.Vector.toList_injective hpsk, hprologue]

/-- The decoders, at hand for the frames below. -/
def quickCodec : Codec where
  readClient bytes := (decodeKnown bytes).or (Codec.postcard.readClient bytes)
  readServer bytes :=
    ([mainRoom.hello, .welcome alice []].find? fun f => encodeServerFrame f = bytes).or
      (Codec.postcard.readServer bytes)

/-- They read what the encoders write, the known frames by looking them up. -/
theorem quickCodec_faithful : quickCodec.Faithful where
  client f h := by
    simp only [quickCodec]
    cases hknown : decodeKnown (encodeClientFrame f) with
    | none => exact Codec.postcard_faithful.client f h
    | some g =>
      have heq : encodeClientFrame g = encodeClientFrame f := by
        simpa using List.find?_some hknown
      rw [encodeClientFrame_prefixFree.injective heq]
      rfl
  server f h := by
    simp only [quickCodec]
    cases hknown : [mainRoom.hello, .welcome alice []].find? fun g =>
        encodeServerFrame g = encodeServerFrame f with
    | none => exact Codec.postcard_faithful.server f h
    | some g =>
      have heq : encodeServerFrame g = encodeServerFrame f := by
        simpa using List.find?_some hknown
      rw [encodeServerFrame_prefixFree.injective heq]
      rfl

def aliceCalling : Caller where
  id := alice
  room := "main"
  username := "alice"
  password := strBytes "correct-horse"

def mainLink : Machine (Link Key Key) LinkLabel ServerEvent :=
  link clearSnow quickCodec saltKdf stream (hubWith "main") aliceCalling 1

def aliceAddr : IpAddr := .v4 (List.Vector.replicate 4 127)

/-- Both sides take turns, up to the event loop. -/
def aliceIsAdmitted : List LinkLabel :=
  [.client 0 false, .connect aliceAddr, .accept, .task 0 false, .task 0 false, .client 0 false,
   .client 0 false, .task 0 false, .task 0 false, .client 0 false, .client 0 false, .task 0 false,
   .task 0 false, .task 0 false, .task 0 false, .client 0 false, .client 0 false]

def Dial.joined? {σ τ : Type} : Dial σ τ → Option Joined
  | .ended (.ok j) => some j
  | _ => none

theorem ended_of_joined {σ τ : Type} {dial : Dial σ τ} {j : Joined}
    (h : Dial.joined? dial = some j) : dial = .ended (.ok j) := by
  unfold Dial.joined? at h
  split at h
  · cases h
    rfl
  · cases h

end Knock

namespace Knock

open Cast

/-- Alice dials, and says nothing for five seconds. -/
def aliceIsLate : List LinkLabel :=
  [.connect aliceAddr, .accept, .other (.server (.elapse HANDSHAKE_TIMEOUT)), .timeout false,
   .client 0 false, .client 0 false]

/-- She finds the connection closed. -/
example : (mainLink.exec (fun _ _ => true) mainLink.start aliceIsLate).map (fun c =>
    match c.state.dial with
    | .ended (.error e) => some e
    | _ => none) = some (some .closed) := by
  decide

end Knock

end ChatRs

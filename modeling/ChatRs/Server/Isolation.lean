import ChatRs.Lib.Projection
import ChatRs.Server.Listener

/-!
# Rooms do not see each other

Any run of the server behind its accept loop, and the same run without all that is not of one
room: what is left are the connections that have asked for the room and got that far, and the
sweeper in this room. The plan:

* **`ofRoom`**, **`seenInRoom`**: what of a run is left, and what of its events;
* **`Alike`**: how the two runs stand to each other at every point. Where the full run let a
  connection in, the other one does, whose limiter and counter have seen less;
* **`rooms_isolated`**: so the room goes through the same states in both.
-/

namespace ChatRs

open Machine (Config free execAll)
open SlidingWindow (recent)

section

variable {τ : Type}

/-- The room that a connection goes on with, or is in. -/
def Stage.room : Stage τ → Option RoomRef
  | .greeting ref _ | .handshaking ref _ | .answering ref _ _ _ | .awaitingHello ref _ _
  | .registering ref _ | .joined ref => some ref
  | _ => none

/-- A connection by itself says this. -/
def ServerEvent.Of (id : Uuid) : ServerEvent → Prop
  | .madeUp k _ | .sent k _ | .answered k _ | .opened k _ => k = id
  | .room _ _ => False

end

/-! ## What is left of a run -/

section

variable (decode : List UInt8 → Option ClientFrame)

/-- `id` asks for the room. -/
def selects (name : String) (id : Uuid) : ListenerLabel → Bool
  | .server (.conn k (.recvSelect r)) =>
    k = id && match recvPostcard decode (.protocol "room select timeout") r with
      | .ok (.roomSelect roomName) => roomName = name
      | _ => false
  | _ => false

/-- The connections that ask for the room in the course of a run. -/
def askers (name : String) (ls : List ListenerLabel) (id : Uuid) : Bool :=
  ls.any (selects decode name id)

/-- The steps of these connections, and of the sweeper in this room. -/
def ofRoom (name : String) (own : Uuid → Bool) : ListenerLabel → Bool
  | .connect id _ | .server (.accept id) | .server (.conn id _) => own id
  | .cleanup => false
  | .server (.elapse _) => true
  | .server (.scan n) | .server (.sweep n) => n = name

/-- What happens in the room, and to its connections. -/
def seenInRoom (name : String) (own : Uuid → Bool) : ListenerEvent → Bool
  | .checked id _ | .server (.madeUp id _) | .server (.sent id _) | .server (.answered id _)
  | .server (.opened id _) => own id
  | .server (.room ref _) => ref = .hub name

end

section

variable {τ : Type} {N : Noise τ} {decode : List UInt8 → Option ClientFrame}
  {fill : Nat → Option Key} {hub : ServerHub} {name : String} {own : Uuid → Bool}

/-! ## One connection on its way into a room -/

/-- A connection is seated in the room it has named. -/
theorem place_eq_hub {roomName : String} {id : Uuid} (h : hub.place roomName id = .hub name) :
    roomName = name := by
  unfold ServerHub.place at h
  split at h <;> cases h
  rfl

/-- On the way to the registration a connection speaks for itself, and comes to another room only
with its `RoomSelect`. -/
theorem greetStep_room {id : Uuid} {drawn drawn' : Nat} {stage stage' : Stage τ} {a : ConnAct}
    {evs : List ServerEvent}
    (h : greetStep N decode fill hub id drawn stage a = some (stage', drawn', evs)) :
    (∀ ev ∈ evs, ev.Of id)
      ∧ (stage'.room = none ∨ stage'.room = stage.room
        ∨ ∃ r roomName, stage = .selecting ∧ a = .recvSelect r
          ∧ recvPostcard decode (.protocol "room select timeout") r = .ok (.roomSelect roomName)
          ∧ stage'.room = some (hub.place roomName id)) := by
  have quiet : ∀ ev ∈ ([] : List ServerEvent), ev.Of id := nofun
  have single {ev : ServerEvent} (hev : ev.Of id) : ∀ x ∈ [ev], x.Of id :=
    List.forall_mem_singleton.mpr hev
  have double {ev ev' : ServerEvent} (hev : ev.Of id) (hev' : ev'.Of id) :
      ∀ x ∈ [ev, ev'], x.Of id :=
    List.forall_mem_cons.mpr ⟨hev, single hev'⟩
  unfold greetStep at h
  split at h
  case h_1 r =>
    split at h
    · cases h
      exact ⟨quiet, .inl rfl⟩
    · rename_i roomName hname
      split at h
      · cases h
        exact ⟨single rfl, .inl rfl⟩
      · split at h
        · cases h
          exact ⟨quiet, .inl rfl⟩
        · -- the only step that takes the connection to a room
          rename_i room drawn'' hroom
          cases h
          refine ⟨?_, .inr (.inr ⟨r, roomName, rfl, rfl, hname, rfl⟩)⟩
          cases hub.place roomName id with
          | hub => exact quiet
          | fake => exact single rfl
    · cases h
      exact ⟨quiet, .inl rfl⟩
  case h_2 =>
    cases h
    exact ⟨single rfl, .inl rfl⟩
  case h_3 =>
    cases h
    exact ⟨single rfl, .inr (.inl rfl)⟩
  case h_4 =>
    cases h
    exact ⟨quiet, .inl rfl⟩
  case h_5 =>
    cases h
    exact ⟨quiet, .inl rfl⟩
  case h_6 =>
    split at h
    · cases h
      exact ⟨quiet, .inl rfl⟩
    · cases h
      exact ⟨quiet, .inr (.inl rfl)⟩
  case h_7 =>
    cases h
    exact ⟨single rfl, .inl rfl⟩
  case h_8 =>
    cases h
    exact ⟨single rfl, .inl rfl⟩
  case h_9 =>
    cases h
    exact ⟨single rfl, .inr (.inl rfl)⟩
  case h_10 =>
    split at h
    · cases h
      exact ⟨quiet, .inl rfl⟩
    · split at h
      · cases h
        exact ⟨double rfl rfl, .inl rfl⟩
      · cases h
        exact ⟨single rfl, .inr (.inl rfl)⟩
    · cases h
      exact ⟨double rfl rfl, .inl rfl⟩
  case h_11 => cases h

/-- For a room of the hub nothing is drawn, so it is all the same how much was drawn before. -/
theorem greetStep_drawn {room : RoomState} (hroom : hub.rooms.lookup name = some room) {id : Uuid}
    {stage : Stage τ} {a : ConnAct}
    (hname : ∀ r roomName, stage = .selecting → a = .recvSelect r →
      recvPostcard decode (.protocol "room select timeout") r = .ok (.roomSelect roomName) →
      roomName = name) (drawn drawn' : Nat) :
    greetStep N decode fill hub id drawn' stage a
      = (greetStep N decode fill hub id drawn stage a).map fun (stage, _, evs) =>
          (stage, drawn', evs) := by
  unfold greetStep
  split
  case h_1 r =>
    cases hselect : recvPostcard decode (.protocol "room select timeout") r with
    | error e => rfl
    | ok f =>
      cases f with
      | roomSelect roomName =>
        obtain rfl := hname r roomName rfl rfl hselect
        dsimp only
        split
        · rfl
        · simp only [ServerHub.select, hroom, Option.map_some]
      | _ => rfl
  case h_6 ref room' ephemeral m0 =>
    cases hm0 : N.respond ephemeral room'.psk room'.prologue m0 <;> rfl
  case h_10 ref room' transport r =>
    cases hfirst : recvEncrypted N decode transport (.protocol "hello timeout") r with
    | error e => rfl
    | ok f =>
      cases f with
      | hello username =>
        dsimp only
        split <;> rfl
      | _ => rfl
  all_goals rfl

/-- A step of a connection stays with the connection and the room it is in. -/
theorem connStep_local {s t : Service τ} {id : Uuid} {stage : Stage τ} {a : ConnAct}
    {evs : List ServerEvent} (h : connStep N decode fill hub s id stage a = some (t, evs)) :
    (∀ ref, stage.room ≠ some ref → t.stores ref = s.stores ref)
      ∧ (∀ ev ∈ evs, ev.Of id ∨ ∃ ref e, stage.room = some ref ∧ ev = .room ref e)
      ∧ ∃ stage', t.conns = Function.update s.conns id (some stage')
        ∧ (stage'.room = none ∨ stage'.room = stage.room
          ∨ ∃ r roomName, stage = .selecting ∧ a = .recvSelect r
            ∧ recvPostcard decode (.protocol "room select timeout") r = .ok (.roomSelect roomName)
            ∧ stage'.room = some (hub.place roomName id)) := by
  have inRoom {ref : RoomRef} (hat : stage.room = some ref) (wevs : List Event) :
      ∀ ev ∈ wevs.map (ServerEvent.room ref),
        ev.Of id ∨ ∃ ref e, stage.room = some ref ∧ ev = .room ref e := by
    intro ev hev
    obtain ⟨e, _, rfl⟩ := List.mem_map.mp hev
    exact .inr ⟨ref, e, hat, rfl⟩
  unfold connStep at h
  split at h
  · cases h
    exact ⟨fun _ _ => rfl, nofun, _, rfl, .inl rfl⟩
  · -- the registration writes to the room that the connection has selected
    rename_i ref username
    obtain ⟨⟨w, wevs⟩, hregister, heq⟩ := Option.map_eq_some_iff.mp h
    cases heq
    refine ⟨fun ref' hne => Function.update_of_ne ?_ .., inRoom rfl wevs, _, rfl, .inr (.inl rfl)⟩
    rintro rfl
    exact hne rfl
  · rename_i ref a
    split at h
    · rename_i username pc htask
      obtain ⟨⟨w, wevs⟩, hlive, heq⟩ := Option.map_eq_some_iff.mp h
      cases heq
      refine ⟨fun ref' hne => Function.update_of_ne ?_ .., fun ev hev => ?_, _, rfl, ?_⟩
      · rintro rfl
        exact hne rfl
      · -- the Welcome is the connection's own, the rest is what happens in its room
        rcases List.mem_append.mp hev with hwelcome | hroom
        · unfold welcomes at hwelcome
          split at hwelcome
          · rw [List.mem_singleton.mp hwelcome]
            exact .inl rfl
          · cases hwelcome
        · exact inRoom rfl wevs ev hroom
      · unfold afterLive
        split
        · exact .inl rfl
        · exact .inr (.inl rfl)
    · cases h
  · cases h
    exact ⟨fun _ _ => rfl, nofun, _, rfl, .inl rfl⟩
  · -- the greeting touches no store
    obtain ⟨⟨stage', drawn, sevs⟩, hgreet, heq⟩ := Option.map_eq_some_iff.mp h
    cases heq
    obtain ⟨hevs, hstage⟩ := greetStep_room hgreet
    exact ⟨fun _ _ => rfl, fun ev hev => .inl (hevs ev hev), stage', rfl, hstage⟩

/-- What a connection of the room does depends on the room, and on nothing else. -/
theorem connStep_transfer {room : RoomState} (hroom : hub.rooms.lookup name = some room)
    {s s' t : Service τ} {id : Uuid} {stage : Stage τ} {a : ConnAct} {evs : List ServerEvent}
    (hstage : ∀ ref, stage.room = some ref → ref = .hub name)
    (hname : ∀ r roomName, stage = .selecting → a = .recvSelect r →
      recvPostcard decode (.protocol "room select timeout") r = .ok (.roomSelect roomName) →
      roomName = name)
    (hstores : s'.stores (.hub name) = s.stores (.hub name))
    (h : connStep N decode fill hub s id stage a = some (t, evs)) :
    ∃ t', connStep N decode fill hub s' id stage a = some (t', evs)
      ∧ t'.stores (.hub name) = t.stores (.hub name)
      ∧ t'.conns = Function.update s'.conns id (t.conns id) := by
  -- where it goes, and what it leaves in the room, does not depend on the rest
  have arrives (u : Service τ) (stage' : Stage τ) :
      Function.update s'.conns id (some stage')
        = Function.update s'.conns id ((u.goto id stage').conns id) := by
    rw [Service.goto_conns, Function.update_self]
  have stored (w : World) (stage' : Stage τ) :
      ((s'.setStore (.hub name) w).goto id stage').stores (.hub name)
        = ((s.setStore (.hub name) w).goto id stage').stores (.hub name) := by
    simp only [Service.goto_stores, Service.setStore_stores, Function.update_self]
  unfold connStep at h
  split at h
  · cases h
    exact ⟨_, rfl, hstores, arrives ..⟩
  · rename_i ref username
    obtain rfl := hstage ref rfl
    obtain ⟨⟨w, wevs⟩, hregister, heq⟩ := Option.map_eq_some_iff.mp h
    cases heq
    refine ⟨_, ?_, stored w _, arrives ..⟩
    rw [connStep, hstores, hregister, Option.map_some]
  · rename_i ref a
    obtain rfl := hstage ref rfl
    split at h
    · rename_i username pc htask
      obtain ⟨⟨w, wevs⟩, hlive, heq⟩ := Option.map_eq_some_iff.mp h
      cases heq
      refine ⟨_, ?_, stored w _, arrives ..⟩
      simp only [connStep, hstores, htask, hlive, Option.map_some]
    · cases h
  · cases h
    exact ⟨_, rfl, hstores, arrives ..⟩
  · obtain ⟨⟨stage', drawn, sevs⟩, hgreet, heq⟩ := Option.map_eq_some_iff.mp h
    cases heq
    -- the number of draws may differ, the answer does not: the room is a real one
    have hgreet' : greetStep N decode fill hub id s'.drawn stage a
        = (greetStep N decode fill hub id s.drawn stage a).map fun (stage, _, evs) =>
            (stage, s'.drawn, evs) := greetStep_drawn hroom hname s.drawn s'.drawn
    rw [hgreet, Option.map_some] at hgreet'
    refine ⟨s'.goto id stage', ?_, hstores, arrives ..⟩
    rw [connStep, hgreet', Option.map_some]
    all_goals first | rfl | assumption

/-! ## The service with and without the other rooms -/

/-- How a service stands to one with the connections of one room only. -/
structure SameRoom (name : String) (own : Uuid → Bool) (s s' : Service τ) : Prop where
  stores : s'.stores (.hub name) = s.stores (.hub name)
  conns : ∀ id, own id = true → s'.conns id = s.conns id
  others : ∀ id, own id = false → s'.conns id = none
  rooms : ∀ id stage ref, s.conns id = some stage → stage.room = some ref →
    (ref = .hub name ↔ own id = true)

namespace SameRoom

variable {s s' t : Service τ} {l : ServerLabel} {evs : List ServerEvent}

/-- What a connection says about itself, and what happens in a room, is told apart by whose it
is. -/
theorem seen_of_local {id : Uuid} {stage : Stage τ} (h : SameRoom name own s s')
    (hat : s.conns id = some stage)
    (hevs : ∀ ev ∈ evs, ev.Of id ∨ ∃ ref e, stage.room = some ref ∧ ev = .room ref e) :
    ∀ ev ∈ evs, seenInRoom name own (.server ev) = own id := by
  intro ev hev
  rcases hevs ev hev with hof | ⟨ref, e, href, rfl⟩
  · cases ev with
    | room => exact hof.elim
    | _ =>
      cases hof
      rfl
  · exact Bool.eq_iff_iff.mpr (decide_eq_true_iff.trans (h.rooms id stage ref hat href))

/-- A connection that came to another room says so with its name. -/
theorem rooms_of_local (h : SameRoom name own s s') {room : RoomState}
    (hroom : hub.rooms.lookup name = some room) {id : Uuid} {stage stage' : Stage τ} {a : ConnAct}
    (hat : s.conns id = some stage)
    (hstage : stage'.room = none ∨ stage'.room = stage.room
      ∨ ∃ r roomName, stage = .selecting ∧ a = .recvSelect r
        ∧ recvPostcard decode (.protocol "room select timeout") r = .ok (.roomSelect roomName)
        ∧ stage'.room = some (hub.place roomName id))
    (hname : ∀ r roomName, stage = .selecting → a = .recvSelect r →
      recvPostcard decode (.protocol "room select timeout") r = .ok (.roomSelect roomName) →
      (roomName = name ↔ own id = true))
    (hconns : t.conns = Function.update s.conns id (some stage')) :
    ∀ k stage ref, t.conns k = some stage → stage.room = some ref →
      (ref = .hub name ↔ own k = true) := by
  intro k stage'' ref hk href
  rw [hconns] at hk
  rcases eq_or_ne k id with rfl | hne
  · rw [Function.update_self] at hk
    cases hk
    rcases hstage with hnone | hsame | ⟨r, roomName, hselecting, hact, hselect, hplace⟩
    · cases hnone.symm.trans href
    · exact h.rooms k stage ref hat (hsame ▸ href)
    · cases hplace.symm.trans href
      rw [← hname r roomName hselecting hact hselect]
      refine ⟨place_eq_hub, ?_⟩
      rintro rfl
      simp only [ServerHub.place, hroom]
  · rw [Function.update_of_ne hne] at hk
    exact h.rooms k stage'' ref hk href

/-- A step of a connection of the room, in both. -/
theorem conn_own (h : SameRoom name own s s') {room : RoomState}
    (hroom : hub.rooms.lookup name = some room) {id : Uuid} {a : ConnAct} (hown : own id = true)
    (hname : ∀ r roomName, s.conns id = some .selecting → a = .recvSelect r →
      recvPostcard decode (.protocol "room select timeout") r = .ok (.roomSelect roomName) →
      roomName = name)
    (hs : serverStep N decode fill hub s (.conn id a) = some (t, evs)) :
    ∃ t', serverStep N decode fill hub s' (.conn id a) = some (t', evs)
      ∧ SameRoom name own t t' ∧ ∀ ev ∈ evs, seenInRoom name own (.server ev) = true := by
  simp only [serverStep] at hs
  split at hs
  case h_2 => cases hs
  rename_i stage hat
  obtain ⟨_, hevs, stage', hconns, hstage⟩ := connStep_local hs
  have hname' : ∀ r roomName, stage = .selecting → a = .recvSelect r →
      recvPostcard decode (.protocol "room select timeout") r = .ok (.roomSelect roomName) →
      roomName = name := fun r roomName hsel => hname r roomName (hsel ▸ hat)
  obtain ⟨t', hs', hstores', hconns'⟩ := connStep_transfer hroom
    (fun ref href => (h.rooms id stage ref hat href).mpr hown) hname' h.stores hs
  have hat' : s'.conns id = some stage := (h.conns id hown).trans hat
  refine ⟨t', ?_, ⟨hstores', fun k hk => ?_, fun k hk => ?_, ?_⟩, ?_⟩
  · simp only [serverStep, hat']
    exact hs'
  · rw [hconns']
    rcases eq_or_ne k id with rfl | hne
    · rw [Function.update_self]
    · rw [Function.update_of_ne hne, h.conns k hk, hconns, Function.update_of_ne hne]
  · have hne : k ≠ id := by
      rintro rfl
      cases hown.symm.trans hk
    rw [hconns', Function.update_of_ne hne]
    exact h.others k hk
  · refine h.rooms_of_local hroom hat hstage (fun r roomName hsel hact hselect => ?_) hconns
    exact iff_of_true (hname' r roomName hsel hact hselect) hown
  · rw [← hown]
    exact h.seen_of_local hat hevs

/-- A step of another connection, in the first only. -/
theorem conn_other (h : SameRoom name own s s') {room : RoomState}
    (hroom : hub.rooms.lookup name = some room) {id : Uuid} {a : ConnAct} (hown : own id = false)
    (hname : ∀ r roomName, a = .recvSelect r →
      recvPostcard decode (.protocol "room select timeout") r = .ok (.roomSelect roomName) →
      roomName ≠ name)
    (hs : serverStep N decode fill hub s (.conn id a) = some (t, evs)) :
    SameRoom name own t s' ∧ ∀ ev ∈ evs, seenInRoom name own (.server ev) = false := by
  simp only [serverStep] at hs
  split at hs
  case h_2 => cases hs
  rename_i stage hat
  obtain ⟨hstores, hevs, stage', hconns, hstage⟩ := connStep_local hs
  have hnot : ¬ own id = true := by rw [hown]; exact Bool.false_ne_true
  refine ⟨⟨?_, fun k hk => ?_, h.others, ?_⟩, ?_⟩
  · rw [hstores, h.stores]
    exact fun href => hnot ((h.rooms id stage _ hat href).mp rfl)
  · have hne : k ≠ id := by
      rintro rfl
      exact hnot hk
    rw [h.conns k hk, hconns, Function.update_of_ne hne]
  · refine h.rooms_of_local hroom hat hstage (fun r roomName _ hact hselect => ?_) hconns
    exact iff_of_false (hname r roomName hact hselect) hnot
  · rw [← hown]
    exact h.seen_of_local hat hevs

/-- A connection of the room that was let in. -/
theorem accept_own (h : SameRoom name own s s') {id : Uuid} (hown : own id = true)
    (hle : s'.activeConns ≤ s.activeConns)
    (hs : serverStep N decode fill hub s (.accept id) = some (t, evs))
    (hin : t.conns id = some .selecting) :
    ∃ t', serverStep N decode fill hub s' (.accept id) = some (t', evs)
      ∧ SameRoom name own t t' ∧ evs = [] := by
  simp only [serverStep] at hs
  split at hs
  case h_1 => cases hs
  rename_i hnew
  cases hs
  rw [Service.goto_conns, Function.update_self, Option.some.injEq] at hin
  -- there was room here, so there is there
  have hroom : ¬ s.activeConns ≥ MAX_ACTIVE_CONNS := by
    intro hfull
    rw [if_pos hfull] at hin
    cases hin
  have hroom' : ¬ s'.activeConns ≥ MAX_ACTIVE_CONNS := fun hfull => hroom (hfull.trans hle)
  have hnew' : s'.conns id = none := (h.conns id hown).trans hnew
  refine ⟨{ s' with activeConns := s'.activeConns + 1 }.goto id .selecting, ?_, ?_, rfl⟩
  · simp only [serverStep, hnew', if_neg hroom']
  rw [if_neg hroom]
  -- the new one stands alike on both sides, and the others where they stood
  refine ⟨h.stores, fun k hk => ?_, fun k hk => ?_, fun k stage ref hk href => ?_⟩
  · rcases eq_or_ne k id with rfl | hne
    · rw [Service.goto_conns, Service.goto_conns, Function.update_self, Function.update_self]
    · rw [Service.goto_conns, Service.goto_conns, Function.update_of_ne hne,
        Function.update_of_ne hne]
      exact h.conns k hk
  · have hne : k ≠ id := by
      rintro rfl
      cases hown.symm.trans hk
    rw [Service.goto_conns, Function.update_of_ne hne]
    exact h.others k hk
  · rw [Service.goto_conns] at hk
    rcases eq_or_ne k id with rfl | hne
    · rw [Function.update_self] at hk
      cases hk
      cases href
    · rw [Function.update_of_ne hne] at hk
      exact h.rooms k stage ref hk href

/-- Another connection comes, and is let in or not. -/
theorem accept_other (h : SameRoom name own s s') {id : Uuid} (hown : own id = false)
    (hs : serverStep N decode fill hub s (.accept id) = some (t, evs)) :
    SameRoom name own t s' ∧ evs = [] := by
  simp only [serverStep] at hs
  split at hs
  case h_1 => cases hs
  cases hs
  refine ⟨⟨h.stores, fun k hk => ?_, h.others, fun k stage ref hk href => ?_⟩, rfl⟩
  · have hne : k ≠ id := by
      rintro rfl
      cases hown.symm.trans hk
    rw [Service.goto_conns, Function.update_of_ne hne]
    exact h.conns k hk
  · rw [Service.goto_conns] at hk
    rcases eq_or_ne k id with rfl | hne
    · rw [Function.update_self] at hk
      split at hk <;> (cases hk; cases href)
    · rw [Function.update_of_ne hne] at hk
      exact h.rooms k stage ref hk href

/-- The same time passes in both runs. -/
theorem elapse (h : SameRoom name own s s') (d : Duration) :
    SameRoom name own
      { s with stores := fun ref => { s.stores ref with now := (s.stores ref).now + d } }
      { s' with stores := fun ref => { s'.stores ref with now := (s'.stores ref).now + d } } := by
  refine ⟨?_, h.conns, h.others, h.rooms⟩
  dsimp only
  rw [h.stores]

/-- The sweeper in the room. -/
theorem sweep_own (h : SameRoom name own s s') {lr : Label}
    (hs : sweeperStep hub s name lr = some (t, evs)) :
    ∃ t', sweeperStep hub s' name lr = some (t', evs) ∧ SameRoom name own t t'
      ∧ ∀ ev ∈ evs, seenInRoom name own (.server ev) = true := by
  unfold sweeperStep at hs ⊢
  split at hs
  case h_2 => cases hs
  obtain ⟨⟨w, wevs⟩, hstep, heq⟩ := Option.map_eq_some_iff.mp hs
  cases heq
  refine ⟨s'.setStore (.hub name) w, ?_, ⟨?_, h.conns, h.others, h.rooms⟩, fun ev hev => ?_⟩
  · simp only [h.stores, hstep, Option.map_some]
  · simp only [Service.setStore_stores, Function.update_self]
  · obtain ⟨e, _, rfl⟩ := List.mem_map.mp hev
    exact decide_eq_true rfl

/-- The sweeper in another one. -/
theorem sweep_other (h : SameRoom name own s s') {lr : Label} {other : String}
    (hne : other ≠ name) (hs : sweeperStep hub s other lr = some (t, evs)) :
    SameRoom name own t s' ∧ ∀ ev ∈ evs, seenInRoom name own (.server ev) = false := by
  obtain ⟨w, wevs, _, rfl, rfl⟩ := sweeperStep_inv hs
  have href : RoomRef.hub name ≠ .hub other := fun heq => hne (RoomRef.hub.inj heq).symm
  refine ⟨⟨?_, h.conns, h.others, h.rooms⟩, fun ev hev => ?_⟩
  · rw [Service.setStore_stores, Function.update_of_ne href]
    exact h.stores
  · obtain ⟨e, _, rfl⟩ := List.mem_map.mp hev
    exact decide_eq_false href.symm

/-- The fewer connections, the lower the counter. -/
theorem activeConns_le {drawn : Nat} {past past' : List ServerEvent}
    (h : SameRoom name own s s') (hs : (server N decode fill hub drawn).Reach free ⟨past, s⟩)
    (hs' : (server N decode fill hub drawn).Reach free ⟨past', s'⟩) :
    s'.activeConns ≤ s.activeConns := by
  have hsub : s'.inFlight ⊆ s.inFlight := by
    intro id hid
    show InFlight (s.conns id)
    cases hown : own id with
    | true =>
      rw [← h.conns id hown]
      exact hid
    | false =>
      have hflying : InFlight (s'.conns id) := hid
      rw [h.others id hown] at hflying
      exact hflying.elim
  have hle := Set.encard_le_encard hsub
  rw [activeConns_eq hs, activeConns_eq hs'] at hle
  exact_mod_cast hle

end SameRoom

/-! ## Who will ask -/

/-- The connection may still ask for a room. -/
def Undecided (s : Listener τ) (id : Uuid) : Prop :=
  s.sockets id = none ∨ (s.sockets id = some true
    ∧ (s.service.conns id = none ∨ s.service.conns id = some .selecting))

/-- A connection stands at its `RoomSelect` right behind the accept only. -/
theorem ServerStep.conn_moves {s s' : Service τ} {id : Uuid} {a : ConnAct}
    {evs : List ServerEvent} (h : ServerStep N hub s (.conn id a) s' evs) :
    s'.conns id ≠ none ∧ s'.conns id ≠ some .selecting := by
  have moved {u : Service τ} {stage : Stage τ} (hstage : stage ≠ .selecting) :
      (u.goto id stage).conns id ≠ none ∧ (u.goto id stage).conns id ≠ some .selecting := by
    rw [Service.goto_conns, Function.update_self]
    exact ⟨nofun, fun heq => hstage (Option.some.inj heq)⟩
  cases h with
  | proceeds _ a before after ref room evs hat hbefore hafter hevs =>
    refine moved ?_
    rintro rfl
    cases hafter
  | lives _ ref username pc a w evs hat htask hlive =>
    refine moved ?_
    unfold afterLive
    split <;> exact nofun
  | sweeps l name lr w evs hl hstep => cases (actor_of_sweep hl).1
  | _ => exact moved nofun

/-- Once it is decided what becomes of a connection, it stays so. -/
theorem undecided_before {s t : Listener τ} {l : ListenerLabel} {evs : List ListenerEvent}
    {id : Uuid} (hs : listenerStep N decode fill hub s l = some (t, evs)) (h : Undecided t id) :
    Undecided s id := by
  cases listenerStep_inv hs with
  | connects k ip hnew =>
    rcases eq_or_ne id k with rfl | hne
    · exact .inl hnew
    · have hsame : Function.update s.sockets k (some (s.ratelimit.check s.now ip).1) id
          = s.sockets id := Function.update_of_ne hne ..
      unfold Undecided at h
      dsimp only at h
      rw [hsame] at h
      exact h
  | cleans => exact h
  | serves l service sevs d hspawned hclock hstep =>
    refine h.imp_right fun ⟨hsocket, hconn⟩ => ⟨hsocket, ?_⟩
    by_cases hactor : l.actor = some id
    · cases l with
      | accept k =>
        cases hactor
        simp only [serverStep] at hstep
        split at hstep
        · cases hstep
        · exact .inl ‹_›
      | conn k a =>
        cases hactor
        obtain ⟨hsome, hmoved⟩ := (serverStep_inv hstep).conn_moves
        exact hconn.elim (fun hnone => absurd hnone hsome) fun hsel => absurd hsel hmoved
      | _ => cases hactor
    · rw [← (serverStep_inv hstep).conns_other hactor]
      exact hconn

/-- Only a connection at its `RoomSelect` can ask. -/
theorem recvSelect_inv {s t : Service τ} {id : Uuid} {r : Timed (List UInt8)}
    {evs : List ServerEvent}
    (hs : serverStep N decode fill hub s (.conn id (.recvSelect r)) = some (t, evs)) :
    s.conns id = some .selecting := by
  simp only [serverStep] at hs
  split at hs
  · rename_i stage hat
    cases stage with
    | selecting => exact hat
    | _ => cases hs
  · cases hs

/-- Whoever selects a room has named it in its first frame. -/
theorem selects_iff {id : Uuid} {l : ListenerLabel} :
    selects decode name id l = true ↔ ∃ r, l = .server (.conn id (.recvSelect r))
      ∧ recvPostcard decode (.protocol "room select timeout") r = .ok (.roomSelect name) := by
  constructor
  · intro h
    unfold selects at h
    split at h
    · rename_i k r
      obtain ⟨hid, hselect⟩ := Bool.and_eq_true_iff.mp h
      obtain rfl := of_decide_eq_true hid
      split at hselect
      · rename_i roomName hname
        obtain rfl := of_decide_eq_true hselect
        exact ⟨r, rfl, hname⟩
      · cases hselect
    · cases h
  · rintro ⟨r, rfl, hselect⟩
    simp only [selects, hselect, decide_true, Bool.and_self]

variable {drawn : Nat}

/-- To ask is to decide. -/
theorem undecided_of_selects {c : Config (Listener τ) ListenerEvent}
    (hreach : (listener N decode fill hub drawn).Reach free c) {t : Listener τ}
    {l : ListenerLabel} {evs : List ListenerEvent} {id : Uuid}
    (hs : listenerStep N decode fill hub c.state l = some (t, evs))
    (hl : selects decode name id l = true) : Undecided c.state id ∧ ¬ Undecided t id := by
  obtain ⟨r, rfl, _⟩ := selects_iff.mp hl
  cases listenerStep_inv hs with
  | serves l service sevs d hspawned hclock hstep =>
    have hat := recvSelect_inv hstep
    have hsocket := socket_of_conn hreach id (by rw [hat]; exact nofun)
    refine ⟨.inr ⟨hsocket, .inr hat⟩, ?_⟩
    obtain ⟨hsome, hmoved⟩ := (serverStep_inv hstep).conn_moves
    rintro (hnone | ⟨_, hnone | hsel⟩)
    · cases hsocket.symm.trans hnone
    · exact hsome hnone
    · exact hmoved hsel

/-- A connection that has decided on its room does not ask for one any more. -/
theorem selects_of_decided {ls : List ListenerLabel} {c d : Config (Listener τ) ListenerEvent}
    (hreach : (listener N decode fill hub drawn).Reach free c) {id : Uuid}
    (h : (listener N decode fill hub drawn).execAll c ls = some d)
    (hdecided : ¬ Undecided c.state id) : ∀ l ∈ ls, selects decode name id l = false := by
  induction ls generalizing c with
  | nil => exact nofun
  | cons l ls ih =>
    obtain ⟨s, evs, hs, hrest⟩ := Machine.exec_cons h
    have hnext := hreach.tail (.mk l s evs trivial hs)
    intro l' hl'
    rcases List.mem_cons.mp hl' with rfl | hl'
    · rw [Bool.eq_false_iff]
      exact fun hsel => hdecided (undecided_of_selects hreach hs hsel).1
    · exact ih hnext hrest (fun hund => hdecided (undecided_before hs hund)) l' hl'

/-! ## The two runs -/

/-- How a run stands to the one of the room alone, with `ls` still to come. -/
structure Alike (N : Noise τ) (decode : List UInt8 → Option ClientFrame)
    (fill : Nat → Option Key) (hub : ServerHub) (drawn : Nat) (name : String) (own : Uuid → Bool)
    (ls : List ListenerLabel) (c c' : Config (Listener τ) ListenerEvent) : Prop where
  reach : (listener N decode fill hub drawn).Reach free c
  reach' : (listener N decode fill hub drawn).Reach free c'
  same : SameRoom name own c.state.service c'.state.service
  now : c'.state.now = c.state.now
  sockets : ∀ id, own id = true → c'.state.sockets id = c.state.sockets id
  past : c'.past = c.past.filter (seenInRoom name own)
  asks : ∀ id, own id = true → Undecided c.state id →
    ∃ l ∈ ls, selects decode name id l = true
  asked : ∀ id, own id = false → ∀ l ∈ ls, selects decode name id l = false

namespace Alike

variable {l : ListenerLabel} {ls : List ListenerLabel} {c c' : Config (Listener τ) ListenerEvent}
  {s s' : Listener τ} {evs : List ListenerEvent} {id : Uuid} {ip : IpAddr} {a : ConnAct}

/-- Who may still ask, and has not asked now, will. -/
theorem asks_later (h : Alike N decode fill hub drawn name own (l :: ls) c c')
    (hs : listenerStep N decode fill hub c.state l = some (s, evs)) :
    ∀ id, own id = true → Undecided s id → ∃ l ∈ ls, selects decode name id l = true := by
  intro id hown hund
  obtain ⟨l', hl', hsel⟩ := h.asks id hown (undecided_before hs hund)
  rcases List.mem_cons.mp hl' with rfl | hl'
  · exact absurd hund (undecided_of_selects h.reach hs hsel).2
  · exact ⟨l', hl', hsel⟩

/-- **Foresight**: a connection that will ask has not been turned away. -/
theorem undecided_after (h : Alike N decode fill hub drawn name own (l :: ls) c c')
    (hs : listenerStep N decode fill hub c.state l = some (s, evs))
    (hrest : ∃ d, (listener N decode fill hub drawn).execAll ⟨c.past ++ evs, s⟩ ls = some d)
    (hown : own id = true) (hund : Undecided c.state id)
    (hl : selects decode name id l = false) : Undecided s id := by
  by_contra hdecided
  obtain ⟨l', hl', hsel⟩ := h.asks id hown hund
  obtain ⟨d, hrest⟩ := hrest
  rcases List.mem_cons.mp hl' with rfl | hl'
  · cases hl.symm.trans hsel
  · have hnext := h.reach.tail (.mk l s evs trivial hs)
    cases (selects_of_decided hnext hrest hdecided l' hl').symm.trans hsel

/-- A step of both. -/
theorem both (h : Alike N decode fill hub drawn name own (l :: ls) c c')
    (hs : listenerStep N decode fill hub c.state l = some (s, evs))
    (hs' : listenerStep N decode fill hub c'.state l = some (s', evs))
    (hsame : SameRoom name own s.service s'.service) (hnow : s'.now = s.now)
    (hsockets : ∀ id, own id = true → s'.sockets id = s.sockets id)
    (hevs : ∀ ev ∈ evs, seenInRoom name own ev = true) :
    ∃ s' evs', listenerStep N decode fill hub c'.state l = some (s', evs')
      ∧ Alike N decode fill hub drawn name own ls ⟨c.past ++ evs, s⟩ ⟨c'.past ++ evs', s'⟩ := by
  refine ⟨s', evs, hs', h.reach.tail (.mk l s evs trivial hs),
    h.reach'.tail (.mk l s' evs trivial hs'), hsame, hnow, hsockets, ?_, h.asks_later hs,
    fun id hown l' hl' => h.asked id hown l' (List.mem_cons_of_mem l hl')⟩
  rw [List.filter_append, List.filter_eq_self.mpr hevs, h.past]

/-- A step of the first only. -/
theorem first (h : Alike N decode fill hub drawn name own (l :: ls) c c')
    (hs : listenerStep N decode fill hub c.state l = some (s, evs))
    (hsame : SameRoom name own s.service c'.state.service) (hnow : s.now = c.state.now)
    (hsockets : ∀ id, own id = true → s.sockets id = c.state.sockets id)
    (hevs : ∀ ev ∈ evs, seenInRoom name own ev = false) :
    Alike N decode fill hub drawn name own ls ⟨c.past ++ evs, s⟩ c' := by
  refine ⟨h.reach.tail (.mk l s evs trivial hs), h.reach', hsame, h.now.trans hnow.symm,
    fun id hown => (h.sockets id hown).trans (hsockets id hown).symm, ?_, h.asks_later hs,
    fun id hown l' hl' => h.asked id hown l' (List.mem_cons_of_mem l hl')⟩
  have hnone : evs.filter (seenInRoom name own) = [] :=
    List.filter_eq_nil_iff.mpr fun ev hev => by rw [hevs ev hev]; exact Bool.false_ne_true
  rw [List.filter_append, hnone, List.append_nil, h.past]

/-- **Where the limiter let a connection in, it does so with fewer checks behind it.** -/
theorem check_allowed (h : Alike N decode fill hub drawn name own ls c c')
    (hallowed : (c.state.ratelimit.check c.state.now ip).1 = true) :
    (c'.state.ratelimit.check c'.state.now ip).1 = true := by
  rw [(listener_stands h.reach).check_fst] at hallowed
  rw [(listener_stands h.reach').check_fst, h.now]
  have hchecked : (checkedPast c'.past).Sublist (checkedPast c.past) := by
    rw [h.past]
    exact List.filter_sublist.filterMap _
  have hpassed : (passed ip (checkedPast c'.past)).Sublist (passed ip (checkedPast c.past)) :=
    hchecked.filterMap _
  exact Nat.lt_of_le_of_lt (hpassed.filter _).length_le hallowed

/-- Whose socket was not dropped. -/
theorem allowed (h : Alike N decode fill hub drawn name own (.connect id ip :: ls) c c')
    (hown : own id = true) (hnew : c.state.sockets id = none)
    (hs : listenerStep N decode fill hub c.state (.connect id ip) = some (s, evs))
    (hrest : ∃ d, (listener N decode fill hub drawn).execAll ⟨c.past ++ evs, s⟩ ls = some d) :
    (c.state.ratelimit.check c.state.now ip).1 = true := by
  have hund := h.undecided_after hs hrest hown (.inl hnew) rfl
  simp only [listenerStep, hnew] at hs
  cases hs
  unfold Undecided at hund
  dsimp only at hund
  rw [Function.update_self] at hund
  rcases hund with hnone | ⟨htrue, _⟩
  · cases hnone
  · exact Option.some.inj htrue

/-- Who got past the cap. -/
theorem let_in (h : Alike N decode fill hub drawn name own (.server (.accept id) :: ls) c c')
    (hown : own id = true) (hspawned : c.state.sockets id = some true)
    (hs : listenerStep N decode fill hub c.state (.server (.accept id)) = some (s, evs))
    (hrest : ∃ d, (listener N decode fill hub drawn).execAll ⟨c.past ++ evs, s⟩ ls = some d)
    {service : Service τ} {sevs : List ServerEvent} (hservice : s.service = service)
    (hsockets : s.sockets = c.state.sockets)
    (haccept : serverStep N decode fill hub c.state.service (.accept id) = some (service, sevs)) :
    service.conns id = some .selecting := by
  cases serverStep_inv haccept with
  | sweeps l name lr w evs hl hstep => cases (actor_of_sweep hl).1
  | accepts _ stage hnew hstage =>
    have hafter := h.undecided_after hs hrest hown (.inr ⟨hspawned, .inl hnew⟩) rfl
    unfold Undecided at hafter
    rw [hservice, hsockets] at hafter
    rcases hafter with hnone | ⟨_, hnone | hselecting⟩
    · cases hspawned.symm.trans hnone
    · rw [Service.goto_conns, Function.update_self] at hnone
      cases hnone
    · exact hselecting

/-- Whoever asks for the room does not ask for another one first. -/
theorem asks_name (h : Alike N decode fill hub drawn name own (.server (.conn id a) :: ls) c c')
    (hown : own id = true)
    (hs : listenerStep N decode fill hub c.state (.server (.conn id a)) = some (s, evs))
    (hrest : ∃ d, (listener N decode fill hub drawn).execAll ⟨c.past ++ evs, s⟩ ls = some d)
    {r : Timed (List UInt8)} {roomName : String}
    (hat : c.state.service.conns id = some .selecting) (ha : a = .recvSelect r)
    (hselect : recvPostcard decode (.protocol "room select timeout") r
      = .ok (.roomSelect roomName)) : roomName = name := by
  subst ha
  by_contra hne
  have hsocket := socket_of_conn h.reach id (by rw [hat]; exact nofun)
  have hother : selects decode name id (.server (.conn id (.recvSelect r))) = false := by
    simp only [selects, hselect, decide_true, decide_eq_false hne, Bool.and_false]
  have hund := h.undecided_after hs hrest hown (.inr ⟨hsocket, .inr hat⟩) hother
  cases listenerStep_inv hs with
  | serves l service sevs d hspawned hclock hstep =>
    obtain ⟨hsome, hmoved⟩ := (serverStep_inv hstep).conn_moves
    rcases hund with hnone | ⟨_, hnone | hselecting⟩
    · cases hsocket.symm.trans hnone
    · exact hsome hnone
    · exact hmoved hselecting

/-- A step that is left. -/
theorem kept (h : Alike N decode fill hub drawn name own (l :: ls) c c') {room : RoomState}
    (hroom : hub.rooms.lookup name = some room) (hkeep : ofRoom name own l = true)
    (hs : listenerStep N decode fill hub c.state l = some (s, evs))
    (hrest : ∃ d, (listener N decode fill hub drawn).execAll ⟨c.past ++ evs, s⟩ ls = some d) :
    ∃ s' evs', listenerStep N decode fill hub c'.state l = some (s', evs')
      ∧ Alike N decode fill hub drawn name own ls ⟨c.past ++ evs, s⟩ ⟨c'.past ++ evs', s'⟩ := by
  have hstep := hs
  -- a step of the server in both
  have served {service service' : Service τ} {sevs : List ServerEvent}
      (hs : listenerStep N decode fill hub c.state l
        = some ({ c.state with service := service }, sevs.map .server))
      (hs' : listenerStep N decode fill hub c'.state l
        = some ({ c'.state with service := service' }, sevs.map .server))
      (hsame : SameRoom name own service service')
      (hevs : ∀ ev ∈ sevs, seenInRoom name own (.server ev) = true) :
      ∃ s' evs', listenerStep N decode fill hub c'.state l = some (s', evs')
        ∧ Alike N decode fill hub drawn name own ls
          ⟨c.past ++ sevs.map .server, { c.state with service := service }⟩
          ⟨c'.past ++ evs', s'⟩ := by
    refine h.both hs hs' hsame h.now h.sockets fun ev hev => ?_
    obtain ⟨sev, hsev, rfl⟩ := List.mem_map.mp hev
    exact hevs sev hsev
  cases l with
  | connect id ip =>
    have hown : own id = true := hkeep
    simp only [listenerStep] at hs
    split at hs
    case h_1 => cases hs
    rename_i hnew
    cases hs
    -- an address that the limiter lets in here is let in there: fewer have asked
    have hallowed := h.allowed hown hnew hstep hrest
    have hallowed' := h.check_allowed hallowed
    rw [h.now] at hallowed'
    have hnew' : c'.state.sockets id = none := (h.sockets id hown).trans hnew
    have hstep' : listenerStep N decode fill hub c'.state (.connect id ip)
        = some ({ c'.state with
            ratelimit := (c'.state.ratelimit.check c.state.now ip).2
            sockets := Function.update c'.state.sockets id (some true) },
          [.checked id ⟨c.state.now, ip, (c.state.ratelimit.check c.state.now ip).1⟩]) := by
      simp only [listenerStep, hnew', hallowed, hallowed', h.now]
    refine h.both hstep hstep' h.same h.now ?_ ?_
    · intro k hk
      rcases eq_or_ne k id with rfl | hne
      · simp only [Function.update_self, hallowed]
      · simp only [Function.update_of_ne hne]
        exact h.sockets k hk
    · intro ev hev
      rw [List.mem_singleton.mp hev]
      exact hown
  | cleanup => cases hkeep
  | server l =>
    cases l with
    | accept id =>
      have hown : own id = true := hkeep
      obtain ⟨hspawned, hserve⟩ := Option.ite_none_right_eq_some.mp hs
      obtain ⟨⟨service, sevs⟩, haccept, heq⟩ := Option.map_eq_some_iff.mp hserve
      cases heq
      -- the same holds of the cap: fewer connections are in flight there
      have hin := h.let_in hown hspawned hstep hrest rfl rfl haccept
      have hle := h.same.activeConns_le (listener_server h.reach) (listener_server h.reach')
      obtain ⟨service', haccept', hsame, rfl⟩ := h.same.accept_own hown hle haccept hin
      refine served hstep ?_ hsame (List.forall_mem_nil _)
      have hspawned' : c'.state.sockets id = some true := (h.sockets id hown).trans hspawned
      simp only [listenerStep, if_pos hspawned', Listener.serve, haccept', Option.map_some]
    | conn id a =>
      have hown : own id = true := hkeep
      obtain ⟨⟨service, sevs⟩, hconn, heq⟩ := Option.map_eq_some_iff.mp hs
      cases heq
      -- the connection sees its own stage and its own room, and both are the same
      obtain ⟨service', hconn', hsame, hevs⟩ := h.same.conn_own hroom hown
        (fun _ _ hat ha hselect => h.asks_name hown hstep hrest hat ha hselect) hconn
      refine served hstep ?_ hsame hevs
      simp only [listenerStep, Listener.serve, hconn', Option.map_some]
    | elapse d =>
      cases hs
      -- the clock is shared, so that time passes in both
      refine h.both hstep rfl (h.same.elapse d) ?_ h.sockets (List.forall_mem_nil _)
      show c'.state.now + d = c.state.now + d
      rw [h.now]
    | scan n | sweep n =>
      obtain rfl : n = name := of_decide_eq_true hkeep
      obtain ⟨⟨service, sevs⟩, hsweep, heq⟩ := Option.map_eq_some_iff.mp hs
      cases heq
      obtain ⟨service', hsweep', hsame, hevs⟩ := h.same.sweep_own hsweep
      refine served hstep ?_ hsame hevs
      simp only [listenerStep, Listener.serve, serverStep, hsweep', Option.map_some]

/-- A step that is left out. -/
theorem dropped (h : Alike N decode fill hub drawn name own (l :: ls) c c') {room : RoomState}
    (hroom : hub.rooms.lookup name = some room) (hkeep : ofRoom name own l = false)
    (hs : listenerStep N decode fill hub c.state l = some (s, evs)) :
    Alike N decode fill hub drawn name own ls ⟨c.past ++ evs, s⟩ c' := by
  have hstep := hs
  have served {service : Service τ} {sevs : List ServerEvent}
      (hs : listenerStep N decode fill hub c.state l
        = some ({ c.state with service := service }, sevs.map .server))
      (hsame : SameRoom name own service c'.state.service)
      (hevs : ∀ ev ∈ sevs, seenInRoom name own (.server ev) = false) :
      Alike N decode fill hub drawn name own ls
        ⟨c.past ++ sevs.map .server, { c.state with service := service }⟩ c' := by
    refine h.first hs hsame rfl (fun _ _ => rfl) fun ev hev => ?_
    obtain ⟨sev, hsev, rfl⟩ := List.mem_map.mp hev
    exact hevs sev hsev
  cases l with
  | connect id ip =>
    have hown : own id = false := hkeep
    simp only [listenerStep] at hs
    split at hs
    case h_1 => cases hs
    cases hs
    refine h.first hstep h.same rfl (fun k hk => ?_) fun ev hev => ?_
    · -- the socket is of another connection
      have hne : k ≠ id := by
        rintro rfl
        cases hown.symm.trans hk
      exact Function.update_of_ne hne ..
    · rw [List.mem_singleton.mp hev]
      exact hown
  | cleanup =>
    cases hs
    exact h.first hstep h.same rfl (fun _ _ => rfl) (List.forall_mem_nil _)
  | server l =>
    cases l with
    | accept id =>
      obtain ⟨_, hserve⟩ := Option.ite_none_right_eq_some.mp hs
      obtain ⟨⟨service, sevs⟩, haccept, heq⟩ := Option.map_eq_some_iff.mp hserve
      cases heq
      obtain ⟨hsame, rfl⟩ := h.same.accept_other hkeep haccept
      exact served hstep hsame (List.forall_mem_nil _)
    | conn id a =>
      obtain ⟨⟨service, sevs⟩, hconn, heq⟩ := Option.map_eq_some_iff.mp hs
      cases heq
      -- it is not one of those who ask for the room
      have hname : ∀ r roomName, a = .recvSelect r →
          recvPostcard decode (.protocol "room select timeout") r = .ok (.roomSelect roomName) →
          roomName ≠ name := by
        rintro r roomName rfl hselect rfl
        have hnot := h.asked id hkeep _ List.mem_cons_self
        rw [selects_iff.mpr ⟨r, rfl, hselect⟩] at hnot
        cases hnot
      obtain ⟨hsame, hevs⟩ := h.same.conn_other hroom hkeep hname hconn
      exact served hstep hsame hevs
    -- time is never left out
    | elapse d => cases hkeep
    | scan n | sweep n =>
      have hne : n ≠ name := of_decide_eq_false hkeep
      obtain ⟨⟨service, sevs⟩, hsweep, heq⟩ := Option.map_eq_some_iff.mp hs
      cases heq
      obtain ⟨hsame, hevs⟩ := h.same.sweep_other hne hsweep
      exact served hstep hsame hevs

end Alike

/-- **Rooms are isolated.** Take any run of the server, with any rooms, connections and sweeps in
any order, and a room of the hub. The same run without all that is not of this room (the
connections that have not asked for it, or have not been let in, the sweeps of other rooms and
the cleanups of the limiter) goes through, and at every point of it:

* the room, with its history, its sessions, its outboxes and all its tasks, is in the same state;
* so is every connection that asks for the room in the course of the run;
* what has happened in the room and what was sent to these connections is the same, in the same
  order. -/
theorem rooms_isolated {room : RoomState} (hroom : hub.rooms.lookup name = some room)
    {ls : List ListenerLabel} {c : Config (Listener τ) ListenerEvent}
    (h : (listener N decode fill hub drawn).execAll (listener N decode fill hub drawn).start ls
      = some c) (k : Nat) :
    ∃ d d', (listener N decode fill hub drawn).execAll (listener N decode fill hub drawn).start
          (ls.take k) = some d
      ∧ (listener N decode fill hub drawn).execAll (listener N decode fill hub drawn).start
          ((ls.take k).filter (ofRoom name (askers decode name ls))) = some d'
      ∧ d'.state.service.stores (.hub name) = d.state.service.stores (.hub name)
      ∧ (∀ id, askers decode name ls id = true →
          d'.state.service.conns id = d.state.service.conns id)
      ∧ d'.past = d.past.filter (seenInRoom name (askers decode name ls)) := by
  have hstart : Alike N decode fill hub drawn name (askers decode name ls) ls
      (listener N decode fill hub drawn).start (listener N decode fill hub drawn).start := by
    refine ⟨.refl, .refl, ⟨rfl, fun _ _ => rfl, fun _ _ => rfl, nofun⟩, rfl, fun _ _ => rfl, rfl,
      fun id hown _ => List.any_eq_true.mp hown, fun id hown l hl => ?_⟩
    have hnone := List.any_eq_false.mp hown l hl
    exact Bool.eq_false_iff.mpr hnone
  obtain ⟨d, d', hd, hd', halike⟩ := Machine.exec_filter (M := listener N decode fill hub drawn)
    (ofRoom name (askers decode name ls))
    (Alike N decode fill hub drawn name (askers decode name ls))
    (fun l ls c c' s evs hR hkeep hs hrest => hR.kept hroom hkeep hs hrest)
    (fun l ls c c' s evs hR hkeep hs => hR.dropped hroom hkeep hs) h hstart k
  exact ⟨d, d', hd, hd', halike.same.stores, halike.same.conns, halike.past⟩

end

/-! ## A room, and a guest who asks for another -/

section

open Knock Cast

def localhost : IpAddr := .v4 (List.Vector.replicate 4 127)

/-- Eve asks for a room that does not exist and fails, while Alice joins. -/
def meanwhile : List ListenerLabel :=
  .connect eve localhost :: ((visits eve "attic" [] []).take 3).map .server
    ++ .connect alice localhost :: aliceJoins.map .server
    ++ [.cleanup, .server (.conn eve (.recvM0 0 (some (.ok [])))), .server (.conn eve .ret)]

/-- Alice's part of it, by itself: the room is the same, with her session in it. -/
theorem rooms_isolated_meanwhile :
    ∃ d d', (listener clearNoise decodeKnown stream (hubWith "main") 1).execAll
          (listener clearNoise decodeKnown stream (hubWith "main") 1).start meanwhile = some d
      ∧ (listener clearNoise decodeKnown stream (hubWith "main") 1).execAll
          (listener clearNoise decodeKnown stream (hubWith "main") 1).start
          (.connect alice localhost :: aliceJoins.map .server) = some d'
      ∧ d'.state.service.stores (.hub "main") = d.state.service.stores (.hub "main")
      ∧ (d'.state.service.stores (.hub "main")).sessions.counterOf alice = some 0
      ∧ (d.state.service.conns eve).isSome = true := by
  obtain ⟨c, hc, hend⟩ := Option.map_eq_some_iff.mp (show
    (((listener clearNoise decodeKnown stream (hubWith "main") 1).execAll
      (listener clearNoise decodeKnown stream (hubWith "main") 1).start meanwhile).map fun c =>
        ((c.state.service.stores (.hub "main")).sessions.counterOf alice,
          (c.state.service.conns eve).isSome)) = some (some 0, true) by decide)
  obtain ⟨hsession, heve⟩ := Prod.mk.inj hend
  have hroom : (hubWith "main").rooms.lookup "main" = some mainRoom := rfl
  obtain ⟨d, d', hd, hd', hstores, _⟩ := rooms_isolated hroom hc meanwhile.length
  rw [List.take_length] at hd hd'
  cases hd.symm.trans hc
  refine ⟨_, d', hd, ?_, hstores, ?_, heve⟩
  · rw [← hd']
    rfl
  · rw [hstores]
    exact hsession

end

end ChatRs

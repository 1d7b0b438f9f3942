import Mathlib.Data.Set.Card
import ChatRs.Server.Probe
import ChatRs.Server.Rooms
import ChatRs.Wire

/-!
# Peers without the key

What a connection can do to the rooms of the server before its peer has shown that it holds a
PSK. Of Noise it is assumed that the first transport frame opens only for such a peer
(`Authenticated`). The plan:

* **`Gated`**: a connection goes on with a room of the hub or with one that was made up for it,
  and is inside only if its peer holds the PSK of that room (`gated`);
* **`activeConns_eq`**: `active_conns` is the number of the connections that have not returned;
* **`registered_hello`**: a registration follows the opening of a `Hello` with its username;
* **`gate`**: so a peer that holds no configured PSK leaves the rooms of the hub alone.
-/

namespace ChatRs

open Machine (Config Guard free)

variable {τ : Type} {N : Noise τ} {decode : List UInt8 → Option ClientFrame}
  {fill : Nat → Option Key} {hub : ServerHub} {drawn : Nat}

/-- The peer of the connection `id` holds the keys `holds id`. The handshake with a PSK completes
and the first transport frame opens only if that PSK is among them. -/
def Authenticated (N : Noise τ) (holds : Uuid → Key → Prop) :
    Guard (Service τ) ServerLabel ServerEvent :=
  fun c l => ∀ id bytes, l = .conn id (.recvFirst (some (.ok bytes))) →
    ∀ ref room transport, c.state.conns id = some (.awaitingHello ref room transport) →
      (N.readMessage transport bytes).isSome → holds id room.psk

/-- A peer that holds the PSK of no configured room. -/
def Stranger (hub : ServerHub) (holds : Key → Prop) : Prop :=
  ∀ name room, hub.rooms.lookup name = some room → ¬ holds room.psk

/-! ## Who is inside -/

/-- The room that the connection `id` goes on with. -/
def Seated (hub : ServerHub) (past : List ServerEvent) (id : Uuid) (ref : RoomRef)
    (room : RoomState) : Prop :=
  (∃ name, ref = .hub name ∧ hub.rooms.lookup name = some room)
    ∨ (ref = .fake id ∧ .madeUp id room ∈ past)

/-- A connection keeps its room. -/
theorem Seated.append {past : List ServerEvent} {id : Uuid} {ref : RoomRef} {room : RoomState}
    (h : Seated hub past id ref room) (evs : List ServerEvent) :
    Seated hub (past ++ evs) id ref room :=
  h.imp_right fun ⟨href, hmade⟩ => ⟨href, List.mem_append_left evs hmade⟩

/-- The room that the connection is about to enter, or has entered. -/
def Stage.inside : Stage τ → Option RoomRef
  | .registering ref _ | .joined ref => some ref
  | _ => none

/-- The peer of `id` holds the PSK of a room, and may have this one. -/
def Keyed (hub : ServerHub) (holds : Uuid → Key → Prop) (past : List ServerEvent) (id : Uuid)
    (ref : RoomRef) : Prop :=
  ∃ room, Seated hub past id ref room ∧ holds id room.psk

/-- Whoever had shown the key still has when more has happened. -/
theorem Keyed.append {holds : Uuid → Key → Prop} {past : List ServerEvent} {id : Uuid}
    {ref : RoomRef} (h : Keyed hub holds past id ref) (evs : List ServerEvent) :
    Keyed hub holds (past ++ evs) id ref := by
  obtain ⟨room, hseated, hholds⟩ := h
  exact ⟨room, hseated.append evs, hholds⟩

/-- A stranger is in no room of the hub. -/
theorem Keyed.of_stranger {holds : Uuid → Key → Prop} {past : List ServerEvent} {id : Uuid}
    {ref : RoomRef} (h : Keyed hub holds past id ref) (hstranger : Stranger hub (holds id)) :
    ref = .fake id ∧ ∃ room, .madeUp id room ∈ past ∧ holds id room.psk := by
  obtain ⟨room, ⟨name, _, hlookup⟩ | ⟨href, hmade⟩, hholds⟩ := h
  · exact absurd hholds (hstranger name room hlookup)
  · exact ⟨href, room, hmade, hholds⟩

/-- What is known of one connection. -/
structure Gated (hub : ServerHub) (holds : Uuid → Key → Prop)
    (c : Config (Service τ) ServerEvent) (id : Uuid) : Prop where
  seat : ∀ stage ref room, c.state.conns id = some stage → stage.seat = some (ref, room) →
    Seated hub c.past id ref room
  inside : ∀ stage ref, c.state.conns id = some stage → stage.inside = some ref →
    Keyed hub holds c.past id ref
  welcome : ∀ userId history, .sent id (.welcome userId history) ∈ c.past →
    ∃ ref, Keyed hub holds c.past id ref

section

variable {holds : Uuid → Key → Prop} {c : Config (Service τ) ServerEvent}

/-- A connection that a step leaves where it is. -/
theorem Gated.stays {s : Service τ} {evs : List ServerEvent} {id : Uuid}
    (h : Gated hub holds c id) (hconns : s.conns id = c.state.conns id)
    (hevs : ∀ userId history, .sent id (.welcome userId history) ∉ evs) :
    Gated hub holds ⟨c.past ++ evs, s⟩ id := by
  constructor
  · intro stage ref room hat hseat
    exact (h.seat stage ref room (hconns ▸ hat) hseat).append evs
  · intro stage ref hat hinside
    exact (h.inside stage ref (hconns ▸ hat) hinside).append evs
  · intro userId history hsent
    have hpast := (List.mem_append.mp hsent).resolve_right (hevs userId history)
    obtain ⟨ref, hkeyed⟩ := h.welcome userId history hpast
    exact ⟨ref, hkeyed.append evs⟩

/-- A connection that moves on. -/
theorem Gated.moves {s : Service τ} {evs : List ServerEvent} {id : Uuid} {stage : Stage τ}
    (h : Gated hub holds c id) (hconns : s.conns id = some stage)
    (hseat : ∀ ref room, stage.seat = some (ref, room) →
      Seated hub (c.past ++ evs) id ref room)
    (hinside : ∀ ref, stage.inside = some ref → Keyed hub holds (c.past ++ evs) id ref)
    (hevs : ∀ userId history, .sent id (.welcome userId history) ∈ evs →
      ∃ ref, Keyed hub holds c.past id ref) :
    Gated hub holds ⟨c.past ++ evs, s⟩ id := by
  constructor
  · intro stage' ref room hat
    rw [hconns, Option.some.injEq] at hat
    subst hat
    exact hseat ref room
  · intro stage' ref hat
    rw [hconns, Option.some.injEq] at hat
    subst hat
    exact hinside ref
  · intro userId history hsent
    have hkeyed : ∃ ref, Keyed hub holds c.past id ref :=
      (List.mem_append.mp hsent).elim (h.welcome userId history) (hevs userId history)
    obtain ⟨ref, hkeyed⟩ := hkeyed
    exact ⟨ref, hkeyed.append evs⟩

/-- A Welcome leaves from a room only. -/
theorem ServerStep.welcome {s s' : Service τ} {l : ServerLabel} {evs : List ServerEvent}
    (h : ServerStep N hub s l s' evs) {id userId : Uuid} {history : List RoomMessage}
    (hsent : .sent id (.welcome userId history) ∈ evs) :
    ∃ ref, s.conns id = some (.joined ref) ∧ l.actor = some id := by
  have notRoom {ref : RoomRef} {wevs : List Event}
      (hmem : ServerEvent.sent id (.welcome userId history) ∈ wevs.map (.room ref)) : False := by
    obtain ⟨_, _, heq⟩ := List.mem_map.mp hmem
    cases heq
  cases h with
  | ends k a stage e drawn evs hat hearly hevs =>
    exact (hevs _ hsent).elim
  | selects k r ref room drawn evs hat hplace =>
    rcases hplace with ⟨_, _, _, rfl⟩ | ⟨_, rfl⟩
    · cases hsent
    · cases List.mem_singleton.mp hsent
  | proceeds k a before after ref room evs hat hbefore hafter hevs =>
    exact (hevs _ hsent).elim
  | opens => cases List.mem_singleton.mp hsent
  | registers => exact (notRoom hsent).elim
  | lives k ref username pc a w evs hat htask hlive =>
    rcases List.mem_append.mp hsent with hwelcome | hroom
    · unfold welcomes at hwelcome
      split at hwelcome
      · cases List.mem_singleton.mp hwelcome
        exact ⟨ref, hat, rfl⟩
      · cases hwelcome
    · exact (notRoom hroom).elim
  | sweeps => exact (notRoom hsent).elim
  | _ => cases hsent

/-- **The gate.** -/
theorem gated (h : (server N decode fill hub drawn).Reach (Authenticated N holds) c) :
    ∀ id, Gated hub holds c id := by
  refine Reach.server_invariant ?_ ?_ h
  · exact fun id => ⟨nofun, nofun, nofun⟩
  intro c l s evs _ ih hG hs k
  by_cases hactor : l.actor = some k
  · -- a Welcome leaves from inside the room, where the induction has it already
    have hwelcome (userId : Uuid) (history : List RoomMessage)
        (hsent : .sent k (.welcome userId history) ∈ evs) :
        ∃ ref, Keyed hub holds c.past k ref := by
      obtain ⟨ref, hat, _⟩ := hs.welcome hsent
      exact ⟨ref, (ih k).inside _ ref hat rfl⟩
    cases hs with
    | elapse => cases hactor
    | sweeps l name lr w evs hl hstep => cases (actor_of_sweep hl).1.symm.trans hactor
    | accepts id stage hnew hstage =>
      cases hactor
      rcases hstage with rfl | rfl <;>
        exact (ih k).moves (Function.update_self ..) nofun nofun hwelcome
    | selects id r ref room drawn evs hat hplace =>
      cases hactor
      refine (ih k).moves (Function.update_self ..) (fun ref' room' heq => ?_) nofun hwelcome
      cases heq
      -- the room exists, or its PSK was made up for this connection
      rcases hplace with ⟨name, href, hlookup, _⟩ | ⟨href, rfl⟩
      · exact .inl ⟨name, href, hlookup⟩
      · exact .inr ⟨href, List.mem_append_right _ (List.mem_singleton_self _)⟩
    | proceeds id a before after ref room evs hat hbefore hafter hevs =>
      cases hactor
      refine (ih k).moves (Function.update_self ..) (fun ref' room' heq => ?_) ?_ hwelcome
      · rw [hafter] at heq
        cases heq
        exact ((ih k).seat before ref room hat hbefore).append evs
      · intro ref' heq
        cases after with
        | registering | joined => cases hafter
        | _ => cases heq
    | opens id bytes ref room transport username hat hopens hname =>
      cases hactor
      refine (ih k).moves (Function.update_self ..) nofun (fun ref' heq => ?_) hwelcome
      cases heq
      -- here the peer has shown that it holds the PSK
      have hseated := (ih k).seat _ ref room hat rfl
      exact ⟨room, hseated.append _, hG k bytes rfl ref room transport hat hopens⟩
    | registers id ref username w evs hat hregister =>
      cases hactor
      refine (ih k).moves (Function.update_self ..) nofun (fun ref' heq => ?_) hwelcome
      cases heq
      exact ((ih k).inside _ ref hat rfl).append _
    | lives id ref username pc a w evs hat htask hlive =>
      cases hactor
      refine (ih k).moves (Function.update_self ..) ?_ (fun ref' heq => ?_) hwelcome
      · unfold afterLive
        split <;> exact nofun
      · have href : ref' = ref := by
          unfold afterLive at heq
          split at heq <;> cases heq
          rfl
        rw [href]
        exact ((ih k).inside _ ref hat rfl).append _
    | _ =>
      cases hactor
      exact (ih k).moves (Function.update_self ..) nofun nofun hwelcome
  · refine (ih k).stays (hs.conns_other hactor) fun userId history hsent => ?_
    obtain ⟨_, _, hmoved⟩ := hs.welcome hsent
    exact hactor hmoved

/-- What a connection does stays in the room it is in. -/
theorem ServerStep.stores_other {s s' : Service τ} {id : Uuid} {a : ConnAct}
    {evs : List ServerEvent} (h : ServerStep N hub s (.conn id a) s' evs) {ref : RoomRef}
    (href : ∀ stage, s.conns id = some stage → stage.inside ≠ some ref) :
    s'.stores ref = s.stores ref := by
  cases h with
  | registers _ ref' username w evs hat hregister =>
    have hne : ref ≠ ref' := fun heq => href _ hat (congrArg some heq.symm)
    exact Function.update_of_ne hne ..
  | lives _ ref' username pc a w evs hat htask hlive =>
    have hne : ref ≠ ref' := fun heq => href _ hat (congrArg some heq.symm)
    exact Function.update_of_ne hne ..
  | sweeps l name lr w evs hl hstep => cases (actor_of_sweep hl).1
  | _ => rfl

/-- Only connections of strangers take steps. -/
def ByStrangers (N : Noise τ) (hub : ServerHub) (holds : Uuid → Key → Prop) :
    Guard (Service τ) ServerLabel ServerEvent :=
  fun c l => Authenticated N holds c l
    ∧ ∃ id, Stranger hub (holds id) ∧ (l = .accept id ∨ ∃ a, l = .conn id a)

/-- **Strangers leave the rooms of the hub alone**, however many of them and in any order. -/
theorem rooms_of_strangers {c' : Config (Service τ) ServerEvent}
    (h : (server N decode fill hub drawn).Reach (Authenticated N holds) c)
    (hrun : (server N decode fill hub drawn).Run (ByStrangers N hub holds) c c') (name : String) :
    c'.state.stores (.hub name) = c.state.stores (.hub name) := by
  induction hrun with
  | refl => rfl
  | @tail d _ hbefore hnext ih =>
    obtain ⟨l, s, evs, ⟨_, id, hstranger, hl⟩, hs⟩ := hnext
    have hreach : (server N decode fill hub drawn).Reach (Authenticated N holds) d :=
      h.trans (Machine.Run.mono (fun _ _ hG => hG.1) hbefore)
    have hstep := serverStep_inv hs
    rcases hl with rfl | ⟨a, rfl⟩
    · cases hstep with
      | accepts => exact ih
      | sweeps l name lr w evs hl hstep => cases (actor_of_sweep hl).1
    · refine (hstep.stores_other fun stage hat hinside => ?_).trans ih
      obtain ⟨href, _⟩ := ((gated hreach id).inside stage _ hat hinside).of_stranger hstranger
      cases href

/-! ## The connection counter -/

/-- The connection has a slot: it was accepted and has not returned. -/
def InFlight : Option (Stage τ) → Prop
  | none | some (.returned _) => False
  | _ => True

/-- A connection with a room has not returned. -/
theorem inFlight_of_seat {stage : Stage τ} {x : RoomRef × RoomState} (h : stage.seat = some x) :
    InFlight (some stage) := by
  cases stage with
  | returned => cases h
  | _ => trivial

/-- A connection that is still in the handshake is in flight. -/
theorem inFlight_of_early {stage : Stage τ} (h : stage.Early) : InFlight (some stage) := by
  cases stage with
  | returned => exact h.elim
  | _ => trivial

def Service.inFlight (s : Service τ) : Set Uuid := {id | InFlight (s.conns id)}

/-- A connection that goes on is in flight, with all that were. -/
theorem inFlight_goto {s u : Service τ} {id : Uuid} {stage : Stage τ}
    (hconns : u.conns = s.conns) (hstage : InFlight (some stage)) :
    (u.goto id stage).inFlight = insert id s.inFlight := by
  ext k
  show InFlight ((u.goto id stage).conns k) ↔ k = id ∨ InFlight (s.conns k)
  rw [Service.goto_conns, hconns]
  rcases eq_or_ne k id with rfl | hne
  · rw [Function.update_self]
    exact iff_of_true hstage (.inl rfl)
  · rw [Function.update_of_ne hne, or_iff_right hne]

/-- One that returns is not, and the others are as before. -/
theorem inFlight_goto_returned {s u : Service τ} {id : Uuid} (result : Result Unit)
    (hconns : u.conns = s.conns) :
    (u.goto id (.returned result)).inFlight = s.inFlight \ {id} := by
  ext k
  show InFlight ((u.goto id (.returned result)).conns k) ↔ InFlight (s.conns k) ∧ k ≠ id
  rw [Service.goto_conns, hconns]
  rcases eq_or_ne k id with rfl | hne
  · rw [Function.update_self]
    exact iff_of_false not_false fun h => h.2 rfl
  · rw [Function.update_of_ne hne, and_iff_left hne]

/-- **`active_conns` counts the connections in flight**, the one that is over the cap for a
moment among them. -/
theorem activeConns_eq {G : Guard (Service τ) ServerLabel ServerEvent}
    (h : (server N decode fill hub drawn).Reach G c) :
    c.state.inFlight.encard = c.state.activeConns := by
  refine Reach.server_invariant ?_ ?_ h
  · exact Set.encard_eq_zero.mpr (Set.eq_empty_of_forall_notMem fun id => not_false)
  intro c l s evs _ ih _ hs
  have mem {id : Uuid} {stage : Stage τ} (hat : c.state.conns id = some stage)
      (hstage : InFlight (some stage)) : id ∈ c.state.inFlight := by
    show InFlight (c.state.conns id)
    rw [hat]
    exact hstage
  -- a connection that is in flight and stays so
  have moves {u : Service τ} {id : Uuid} {before stage : Stage τ}
      (hconns : u.conns = c.state.conns) (hactive : u.activeConns = c.state.activeConns)
      (hat : c.state.conns id = some before) (hbefore : InFlight (some before))
      (hstage : InFlight (some stage)) :
      (u.goto id stage).inFlight.encard = (u.goto id stage).activeConns := by
    rw [inFlight_goto hconns hstage, Set.insert_eq_of_mem (mem hat hbefore), ih,
      Service.goto_activeConns, hactive]
  -- a connection that returns, its guard dropped with it
  have leaves {u : Service τ} {id : Uuid} {before : Stage τ} {result : Result Unit}
      (hconns : u.conns = c.state.conns) (hactive : u.activeConns = c.state.activeConns - 1)
      (hat : c.state.conns id = some before) (hbefore : InFlight (some before)) :
      (u.goto id (.returned result)).inFlight.encard
        = (u.goto id (.returned result)).activeConns := by
    rw [inFlight_goto_returned result hconns,
      Set.encard_sdiff_singleton_of_mem (mem hat hbefore), ih, Service.goto_activeConns, hactive,
      ENat.natCast_sub, Nat.cast_one]
  cases hs with
  | accepts id stage hnew hstage =>
    have hnot : id ∉ c.state.inFlight := by
      show ¬ InFlight (c.state.conns id)
      rw [hnew]
      exact not_false
    -- it counts from the accept on, even if it is to be rolled back
    have hflying : InFlight (some stage) := by rcases hstage with rfl | rfl <;> trivial
    have hone : Service.inFlight _ = insert id c.state.inFlight :=
      inFlight_goto (u := { c.state with activeConns := c.state.activeConns + 1 }) rfl hflying
    show Set.encard (Service.inFlight _) = ((c.state.activeConns + 1 : Nat) : ℕ∞)
    rw [hone, Set.encard_insert_of_notMem hnot, ih, Nat.cast_add_one]
  | rollsBack id e hat => exact leaves rfl rfl hat trivial
  | ends id a stage e drawn evs hat hearly hevs =>
    exact moves rfl rfl hat (inFlight_of_early hearly) trivial
  | selects id r ref room drawn evs hat hplace => exact moves rfl rfl hat trivial trivial
  | proceeds id a before after ref room evs hat hbefore hafter hevs =>
    exact moves rfl rfl hat (inFlight_of_seat hbefore) (inFlight_of_seat hafter)
  | opens id bytes ref room transport username hat hopens hname =>
    exact moves rfl rfl hat trivial trivial
  | registers id ref username w evs hat hregister => exact moves rfl rfl hat trivial trivial
  | lives id ref username pc a w evs hat htask hlive =>
    refine moves rfl rfl hat trivial ?_
    unfold afterLive
    split <;> trivial
  | returns id result hat => exact leaves rfl rfl hat trivial
  | elapse d => exact ih
  | sweeps l name lr w evs hl hstep => exact ih

/-- What is in flight depends on nothing else, so a connection that has come and gone leaves the
counter as it found it, whatever the others did in the meantime, if as many of them as before
are in flight. -/
theorem activeConns_restored {G G' : Guard (Service τ) ServerLabel ServerEvent}
    {c c' : Config (Service τ) ServerEvent}
    (h : (server N decode fill hub drawn).Reach G c)
    (hrun : (server N decode fill hub drawn).Run G' c c') {id : Uuid} {result : Result Unit}
    (hnew : c.state.conns id = none) (hreturned : c'.state.conns id = some (.returned result))
    (hothers : ∀ k ≠ id, InFlight (c'.state.conns k) ↔ InFlight (c.state.conns k)) :
    c'.state.activeConns = c.state.activeConns := by
  have hsame : c'.state.inFlight = c.state.inFlight := by
    ext k
    show InFlight (c'.state.conns k) ↔ InFlight (c.state.conns k)
    rcases eq_or_ne k id with rfl | hne
    · rw [hnew, hreturned]
      exact Iff.rfl
    · exact hothers k hne
  have hbefore := activeConns_eq h
  have hafter := activeConns_eq (h.toFree.trans hrun.toFree)
  rw [hsame, hbefore] at hafter
  exact (ENat.natCast_inj.mp hafter).symm

/-! ## The name of a registration -/

/-- A registration is the step of a task that was about to register. -/
theorem Step.registered {w w' : World} {l : Label} {evs : List Event} (h : Step w l w' evs)
    {id : Uuid} {username : String} (hmem : .registered id username ∈ evs) :
    l = .act id .register ∧ w.tasks id = some (.registering username) := by
  cases h with
  | register k name hat =>
    cases List.mem_singleton.mp hmem
    exact ⟨rfl, hat⟩
  | snapshot | delivers | incoming | accepts | store | enqueues =>
    cases List.mem_singleton.mp hmem
  | _ => cases hmem

/-- Only a connection that stands before its registration is registered, and with the name and the
room it has there. -/
theorem ServerStep.registered {s s' : Service τ} {l : ServerLabel} {evs : List ServerEvent}
    (h : ServerStep N hub s l s' evs) {id : Uuid} {ref : RoomRef} {username : String}
    (hmem : .room ref (.registered id username) ∈ evs) :
    s.conns id = some (.registering ref username) := by
  have ofRoom {ref' : RoomRef} {wevs : List Event}
      (hmem : ServerEvent.room ref (.registered id username) ∈ wevs.map (.room ref')) :
      .registered id username ∈ wevs := by
    obtain ⟨e, he, heq⟩ := List.mem_map.mp hmem
    cases heq
    exact he
  cases h with
  | ends k a stage e drawn evs hat hearly hevs => exact (hevs _ hmem).elim
  | selects k r ref room drawn evs hat hplace =>
    rcases hplace with ⟨_, _, _, rfl⟩ | ⟨_, rfl⟩
    · cases hmem
    · cases List.mem_singleton.mp hmem
  | proceeds k a before after ref room evs hat hbefore hafter hevs => exact (hevs _ hmem).elim
  | opens => cases List.mem_singleton.mp hmem
  | registers k ref' name w wevs hat hregister =>
    cases hregister
    cases List.mem_singleton.mp hmem
    exact hat
  | lives k ref' name pc a w wevs hat htask hlive =>
    rcases List.mem_append.mp hmem with hwelcome | hroom
    · unfold welcomes at hwelcome
      split at hwelcome
      · cases List.mem_singleton.mp hwelcome
      · cases hwelcome
    · obtain ⟨hl, hat'⟩ := (liveStep_inv htask hlive).registered (ofRoom hroom)
      cases hl
      rw [htask] at hat'
      cases hat'
  | sweeps l name lr w wevs hl hstep =>
    obtain ⟨hlr, _⟩ := (step_inv hstep).registered (ofRoom hmem)
    rcases hl with ⟨_, rfl⟩ | ⟨_, rfl⟩ <;> cases hlr
  | _ => cases hmem

/-- **A registration follows a `Hello`** with its username, which has passed the checks. -/
theorem registered_hello {G : Guard (Service τ) ServerLabel ServerEvent}
    (h : (server N decode fill hub drawn).Reach G c) :
    ∀ before after ref id username,
      c.past = before ++ .room ref (.registered id username) :: after →
        ValidName username ∧ .opened id (.hello username) ∈ before := by
  refine Reach.server_invariant ?_ ?_ h
  · intro before after ref id username heq
    have hlen := congrArg List.length heq
    rw [List.length_append, List.length_cons] at hlen
    cases hlen
  intro c l s evs hreach ih _ hs before after ref id username heq
  have hlast (hmem : .room ref (.registered id username) ∈ evs) :
      ValidName username ∧ .opened id (.hello username) ∈ c.past :=
    registering_opened hreach id ref username (hs.registered hmem)
  rcases List.append_eq_append_iff.mp heq with ⟨rest, rfl, hevs⟩ | ⟨rest, hpast, hevs⟩
  · have hnow : .room ref (.registered id username) ∈ evs := by
      rw [hevs]
      exact List.mem_append_right _ List.mem_cons_self
    obtain ⟨hname, hopened⟩ := hlast hnow
    exact ⟨hname, List.mem_append_left rest hopened⟩
  · cases rest with
    | nil =>
      rw [List.nil_append] at hevs
      rw [List.append_nil] at hpast
      rw [← hpast]
      exact hlast (hevs ▸ List.mem_cons_self)
    | cons e rest =>
      rw [List.cons_append, List.cons.injEq] at hevs
      rw [← hevs.1] at hpast
      exact ih before rest ref id username hpast

/-- The characters that a username may have. -/
def usernameChars : String := "ABCDEFGHIJKLMNOPQRSTUVWXYZabcdefghijklmnopqrstuvwxyz0123456789_-"

/-- The bytes of the characters of a username, range by range. -/
theorem strBytes_usernameChars :
    strBytes usernameChars = (List.range' 0x41 26 ++ List.range' 0x61 26 ++ List.range' 0x30 10
      ++ [0x5F, 0x2D]).map UInt8.ofNat := by
  decide

/-- The test on one byte. -/
theorem isNameByte_iff_mem (b : UInt8) : isNameByte b = true ↔ b ∈ strBytes usernameChars := by
  have hmem : b ∈ strBytes usernameChars ↔ b.toNat ∈ List.range' 0x41 26 ++ List.range' 0x61 26
      ++ List.range' 0x30 10 ++ [0x5F, 0x2D] := by
    rw [strBytes_usernameChars, List.mem_map]
    constructor
    · rintro ⟨n, hn, rfl⟩
      have hlt : n < 256 := by
        simp only [List.mem_append, List.mem_range'_1, List.mem_cons, List.not_mem_nil,
          or_false] at hn
        omega
      rw [UInt8.toNat_ofNat', Nat.mod_eq_of_lt hlt]
      exact hn
    · exact fun hn => ⟨b.toNat, hn, UInt8.ofNat_toNat⟩
  have hdash : b = 0x5F ↔ b.toNat = 0x5F := UInt8.toNat_inj.symm
  have hline : b = 0x2D ↔ b.toNat = 0x2D := UInt8.toNat_inj.symm
  rw [hmem]
  simp only [isNameByte, isAsciiAlphanumeric, Bool.or_eq_true, Bool.and_eq_true, decide_eq_true_eq,
    UInt8.le_iff_toNat_le, List.mem_append, List.mem_range'_1, List.mem_cons, List.not_mem_nil,
    or_false, hdash, hline, UInt8.reduceToNat]
  omega

/-- `is_valid_username` allows these and no others. -/
theorem isValidUsername_iff (name : String) :
    isValidUsername name = true ↔ ∀ b ∈ strBytes name, b ∈ strBytes usernameChars := by
  unfold isValidUsername
  rw [List.all_eq_true]
  exact forall₂_congr fun b _ => isNameByte_iff_mem b

/-! ## The gate -/

/-- **Peers without a key change nothing.** In every run in which Noise lets only holders of a
PSK through:

* whatever connections of strangers do, and in any order, the rooms of the hub stay as they are;
* a stranger that did not guess the PSK of a made-up room is never sent a Welcome;
* a connection that has come and gone leaves `active_conns` as it found it: the counter is the
  number of the connections in flight;
* a session is registered only after the first transport frame was a `Hello` with its username,
  of 1 to `MAX_USERNAME_LEN` bytes out of `[A-Za-z0-9_-]`. -/
theorem gate (h : (server N decode fill hub drawn).Reach (Authenticated N holds) c) :
    (∀ c', (server N decode fill hub drawn).Run (ByStrangers N hub holds) c c' →
        ∀ name, c'.state.stores (.hub name) = c.state.stores (.hub name))
      ∧ (∀ id, Stranger hub (holds id) →
          (∀ room, .madeUp id room ∈ c.past → ¬ holds id room.psk) →
          ∀ userId history, .sent id (.welcome userId history) ∉ c.past)
      ∧ c.state.inFlight.encard = c.state.activeConns
      ∧ (∀ c', (server N decode fill hub drawn).Run (Authenticated N holds) c c' →
          ∀ id result, c.state.conns id = none → c'.state.conns id = some (.returned result) →
          (∀ k ≠ id, InFlight (c'.state.conns k) ↔ InFlight (c.state.conns k)) →
          c'.state.activeConns = c.state.activeConns)
      ∧ ∀ before after ref id username,
          c.past = before ++ .room ref (.registered id username) :: after →
            .opened id (.hello username) ∈ before
              ∧ 1 ≤ strLen username ∧ strLen username ≤ MAX_USERNAME_LEN
              ∧ ∀ b ∈ strBytes username, b ∈ strBytes usernameChars := by
  refine ⟨fun c' hrun => rooms_of_strangers h hrun,
    fun id hstranger hunguessed userId history hsent => ?_, activeConns_eq h,
    fun c' hrun id result hnew hreturned hothers => ?_,
    fun before after ref id username hpast => ?_⟩
  · obtain ⟨ref, hkeyed⟩ := (gated h id).welcome userId history hsent
    obtain ⟨_, room, hmade, hholds⟩ := hkeyed.of_stranger hstranger
    exact hunguessed room hmade hholds
  · exact activeConns_restored h hrun hnew hreturned hothers
  · obtain ⟨hname, hopened⟩ := registered_hello h before after ref id username hpast
    exact ⟨hopened, hname.nonempty, hname.short, (isValidUsername_iff username).mp hname.charset⟩

end

/-! ## A member, and a peer that replays what it has overheard -/

namespace Knock

open Cast

/-- The keys are told apart, and nothing is hidden. -/
def clearNoise : Noise Key where
  respond _ psk prologue m0 := if m0 = psk.toList ++ prologue then some ([], psk) else none
  readMessage psk bytes := if bytes.take 32 = psk.toList then some (bytes.drop 32) else none

/-- The decoder, on the frames below. -/
def decodeKnown (bytes : List UInt8) : Option ClientFrame :=
  [ClientFrame.roomSelect "main", .roomSelect "attic", .hello "alice"].find? fun f =>
    encodeClientFrame f = bytes

def mainRoom : RoomState := ⟨"main", draw 0, draw 0⟩

def eve : Uuid := List.Vector.replicate 16 3

/-- Up to the first transport frame. -/
def visits (id : Uuid) (name : String) (m0 first : List UInt8) : List ServerLabel :=
  [.accept id, .conn id (.recvSelect (some (.ok (encodeClientFrame (.roomSelect name))))),
   .conn id (.sendHello (.ok ())), .conn id (.recvM0 0 (some (.ok m0))),
   .conn id (.sendM1 (some (.ok ()))), .conn id (.recvFirst (some (.ok first)))]

def helloBytes : List UInt8 := encodeClientFrame (.hello "alice")

/-- What Alice sends to make the handshake. -/
def firstMessage : List UInt8 := mainRoom.psk.toList ++ mainRoom.prologue

def aliceJoins : List ServerLabel :=
  visits alice "main" firstMessage (mainRoom.psk.toList ++ helloBytes) ++ [.conn alice .register]

/-- Bob repeats Alice's first message, and does not know what comes then; Eve asks for a room that
does not exist. -/
def strangersCome : List ServerLabel :=
  visits bob "main" firstMessage helloBytes ++ [.conn bob .ret]
    ++ (visits eve "attic" [] []).take 4 ++ [.conn eve .ret]

def aliceHolds (id : Uuid) (key : Key) : Prop := id = alice ∧ key = mainRoom.psk

/-- The assumption on Noise, as a test. -/
def authentic (c : Config (Service Key) ServerEvent) : ServerLabel → Bool
  | .conn id (.recvFirst (some (.ok bytes))) =>
    match c.state.conns id with
    | some (.awaitingHello _ room transport) =>
      (clearNoise.readMessage transport bytes).isNone || (id = alice && room.psk = mainRoom.psk)
    | _ => true
  | _ => true

/-- The test implies the guard. -/
theorem authenticated_of_test (c : Config (Service Key) ServerEvent) (l : ServerLabel)
    (h : authentic c l = true) : Authenticated clearNoise aliceHolds c l := by
  rintro id bytes rfl ref room transport hat hopens
  simp only [authentic, hat, Bool.or_eq_true, Bool.and_eq_true, decide_eq_true_eq] at h
  rcases h with hclosed | hholds
  · rw [Option.isNone_iff_eq_none] at hclosed
    rw [hclosed] at hopens
    cases hopens
  · exact hholds

/-- Only Bob's and Eve's connections take steps. -/
def authenticStrangers (c : Config (Service Key) ServerEvent) (l : ServerLabel) : Bool :=
  authentic c l && match l with
    | .accept id | .conn id _ => id = bob || id = eve
    | _ => false

theorem stranger_of_ne {id : Uuid} (hid : id ≠ alice) :
    Stranger (hubWith "main") (aliceHolds id) := fun _ _ _ hholds => hid hholds.1

/-- A step that passes the test is one of strangers. -/
theorem byStrangers_of_test (c : Config (Service Key) ServerEvent) (l : ServerLabel)
    (h : authenticStrangers c l = true) :
    ByStrangers clearNoise (hubWith "main") aliceHolds c l := by
  obtain ⟨hauthentic, hl⟩ := Bool.and_eq_true_iff.mp h
  refine ⟨authenticated_of_test c l hauthentic, ?_⟩
  have hstranger {id : Uuid} (hid : (id = bob || id = eve) = true) :
      Stranger (hubWith "main") (aliceHolds id) := by
    apply stranger_of_ne
    rw [Bool.or_eq_true, decide_eq_true_eq, decide_eq_true_eq] at hid
    rcases hid with rfl | rfl <;> decide
  cases l with
  | accept id => exact ⟨id, hstranger hl, .inl rfl⟩
  | conn id a => exact ⟨id, hstranger hl, .inr ⟨a, rfl⟩⟩
  | _ => cases hl

/-- The handshake with `id` went through. -/
def wasAnswered (id : Uuid) (past : List ServerEvent) : Bool :=
  past.any fun ev => match ev with
    | .answered k _ => k = id
    | _ => false

end Knock

open Knock Cast in
/-- Alice joins. Bob's replay completes the handshake, and gets him no further. -/
theorem gate_replay :
    ∃ c c', (server clearNoise decodeKnown stream (hubWith "main") 1).Reach
        (Authenticated clearNoise aliceHolds) c
      ∧ (server clearNoise decodeKnown stream (hubWith "main") 1).Run
          (ByStrangers clearNoise (hubWith "main") aliceHolds) c c'
      ∧ wasAnswered bob c'.past = true
      ∧ (c'.state.stores (.hub "main")).sessions.counterOf alice = some 0
      ∧ c'.state.inFlight.encard = 1
      ∧ ∀ userId history, .sent bob (.welcome userId history) ∉ c'.past := by
  obtain ⟨c, c', hc, hc', hjoined, hend⟩ := Machine.exec_then
    (M := server clearNoise decodeKnown stream (hubWith "main") 1) authentic authenticStrangers
    aliceJoins strangersCome
    (fun c => (c.state.stores (.hub "main")).sessions.counterOf alice) (some 0)
    (fun c => (wasAnswered bob c.past, c.state.activeConns)) (true, 1) (by decide)
  obtain ⟨hanswered, hactive⟩ := Prod.mk.inj hend
  have hreach := Machine.exec_run authenticated_of_test hc
  have hrun := Machine.exec_run byStrangers_of_test hc'
  have hreach' := hreach.trans (Machine.Run.mono (fun _ _ hG => hG.1) hrun)
  have hrooms := (gate hreach).1 c' hrun "main"
  obtain ⟨_, hwelcome, hcount, _⟩ := gate hreach'
  refine ⟨c, c', hreach, hrun, hanswered, ?_, ?_, ?_⟩
  · rw [hrooms]
    exact hjoined
  · rw [hcount, hactive]
    rfl
  · have hbob : bob ≠ alice := by decide
    exact hwelcome bob (stranger_of_ne hbob) fun room _ hholds => hbob hholds.1

end ChatRs

import ChatRs.Server.Gate
import ChatRs.Server.RateLimit

/-!
# The accept loop (`server/mod.rs`)

`run` in front of the connections: an accepted socket first passes the rate limiter of the hub, or
is dropped; only then a task is spawned for it. The sweeper cleans the limiter up.

* **`listener`**: the server behind its limiter; a socket is named by the id of its connection;
* **`listener_server`**: the server part makes runs of `server`;
* **`listener_stands`**: the limiter stands for its successful checks, as in `Server.RateLimit`.
-/

namespace ChatRs

open Machine (Config Guard free)

def RATELIMIT_MAX : Nat := 60

def RATELIMIT_WINDOW : Duration := .fromSecs 60

structure Listener (τ : Type) where
  service : Service τ
  ratelimit : RateLimiter
  /-- Whether a task was spawned for the socket, or the socket dropped. -/
  sockets : Uuid → Option Bool
  now : Instant

inductive ListenerLabel where
  | connect (id : Uuid) (ip : IpAddr)
  | cleanup
  | server (l : ServerLabel)

inductive ListenerEvent where
  | checked (id : Uuid) (c : Checked)
  | server (ev : ServerEvent)

section Code

variable {τ : Type} (N : Noise τ) (decode : List UInt8 → Option ClientFrame)
  (fill : Nat → Option Key) (hub : ServerHub)

namespace Listener

def init (drawn : Nat) : Listener τ where
  service := .init drawn
  ratelimit := .new RATELIMIT_MAX RATELIMIT_WINDOW
  sockets _ := none
  now := 0

/-- A step of the server. -/
def serve (s : Listener τ) (l : ServerLabel) : Option (Listener τ × List ListenerEvent) :=
  (serverStep N decode fill hub s.service l).map fun (service, evs) =>
    ({ s with service := service }, evs.map .server)

end Listener

def listenerStep (s : Listener τ) : ListenerLabel → Option (Listener τ × List ListenerEvent)
  | .connect id ip =>
    match s.sockets id with
    | some _ => none
    | none =>
      let (allowed, ratelimit) := s.ratelimit.check s.now ip
      some ({ s with ratelimit := ratelimit
                     sockets := Function.update s.sockets id (some allowed) },
        [.checked id ⟨s.now, ip, allowed⟩])
  | .cleanup => some ({ s with ratelimit := s.ratelimit.cleanup s.now }, [])
  -- the spawned task starts
  | .server (.accept id) =>
    if s.sockets id = some true then s.serve N decode fill hub (.accept id) else none
  | .server (.elapse d) => { s with now := s.now + d }.serve N decode fill hub (.elapse d)
  | .server l => s.serve N decode fill hub l

/-- The server behind its accept loop. -/
def listener (drawn : Nat) : Machine (Listener τ) ListenerLabel ListenerEvent :=
  ⟨.init drawn, listenerStep N decode fill hub⟩

end Code

/-! ## What is behind the limiter, and the limiter itself -/

section

variable {τ : Type} {N : Noise τ} {decode : List UInt8 → Option ClientFrame}
  {fill : Nat → Option Key} {hub : ServerHub} {drawn : Nat}

def serverPast (past : List ListenerEvent) : List ServerEvent :=
  past.filterMap fun ev => match ev with
    | .checked _ _ => none
    | .server ev => some ev

/-- The checks of the limiter, and their answers. -/
def checkedPast (past : List ListenerEvent) : List Checked :=
  past.filterMap fun ev => match ev with
    | .checked _ c => some c
    | .server _ => none

theorem serverPast_map (evs : List ServerEvent) : serverPast (evs.map .server) = evs := by
  rw [serverPast, List.filterMap_map]
  exact List.filterMap_some

theorem checkedPast_map (evs : List ServerEvent) : checkedPast (evs.map .server) = [] := by
  rw [checkedPast, List.filterMap_map]
  exact List.filterMap_none ..

/-- Everything a step can do. -/
inductive ListenerStep (N : Noise τ) (decode : List UInt8 → Option ClientFrame)
    (fill : Nat → Option Key) (hub : ServerHub) (s : Listener τ) :
    ListenerLabel → Listener τ → List ListenerEvent → Prop
  | connects (id : Uuid) (ip : IpAddr) (hnew : s.sockets id = none) :
      ListenerStep N decode fill hub s (.connect id ip)
        { s with ratelimit := (s.ratelimit.check s.now ip).2
                 sockets := Function.update s.sockets id (some (s.ratelimit.check s.now ip).1) }
        [.checked id ⟨s.now, ip, (s.ratelimit.check s.now ip).1⟩]
  | cleans :
      ListenerStep N decode fill hub s .cleanup
        { s with ratelimit := s.ratelimit.cleanup s.now } []
  | serves (l : ServerLabel) (service : Service τ) (evs : List ServerEvent) (d : Duration)
      (hspawned : ∀ id, l = .accept id → s.sockets id = some true)
      (hclock : l = .elapse d ∨ ((∀ d', l ≠ .elapse d') ∧ d = 0))
      (hstep : serverStep N decode fill hub s.service l = some (service, evs)) :
      ListenerStep N decode fill hub s (.server l)
        { s with service := service, now := s.now + d } (evs.map .server)

/-- The inversion of a step: a check of the limiter, a cleanup, or a step of the server behind
it. -/
theorem listenerStep_inv {s s' : Listener τ} {l : ListenerLabel} {evs : List ListenerEvent}
    (h : listenerStep N decode fill hub s l = some (s', evs)) :
    ListenerStep N decode fill hub s l s' evs := by
  have served {u : Listener τ} {l : ServerLabel}
      (h : u.serve N decode fill hub l = some (s', evs)) :
      ∃ service sevs, serverStep N decode fill hub u.service l = some (service, sevs)
        ∧ s' = { u with service := service } ∧ evs = sevs.map .server := by
    obtain ⟨⟨service, sevs⟩, hstep, heq⟩ := Option.map_eq_some_iff.mp h
    cases heq
    exact ⟨service, sevs, hstep, rfl, rfl⟩
  cases l with
  | connect id ip =>
    simp only [listenerStep] at h
    split at h
    · cases h
    · rename_i hnew
      cases h
      exact .connects id ip hnew
  | cleanup =>
    cases h
    exact .cleans
  | server l =>
    cases l with
    | accept id =>
      obtain ⟨hspawned, h⟩ := Option.ite_none_right_eq_some.mp h
      obtain ⟨service, sevs, hstep, rfl, rfl⟩ := served h
      refine .serves _ service sevs 0 (fun k heq => ?_) (.inr ⟨nofun, rfl⟩) hstep
      cases heq
      exact hspawned
    | elapse d =>
      obtain ⟨service, sevs, hstep, rfl, rfl⟩ := served h
      exact .serves _ service sevs d nofun (.inl rfl) hstep
    | conn | scan | sweep =>
      obtain ⟨service, sevs, hstep, rfl, rfl⟩ := served h
      exact .serves _ service sevs 0 nofun (.inr ⟨nofun, rfl⟩) hstep

variable {G : Guard (Listener τ) ListenerLabel ListenerEvent}
  {c : Config (Listener τ) ListenerEvent}

/-- **What is behind the limiter is a run of the server.** -/
theorem listener_server (h : (listener N decode fill hub drawn).Reach G c) :
    (server N decode fill hub drawn).Reach free ⟨serverPast c.past, c.state.service⟩ := by
  have hstart : (server N decode fill hub drawn).Reach free
      (server N decode fill hub drawn).start := .refl
  refine Machine.Reach.simulates
    (fun c => (⟨serverPast c.past, c.state.service⟩ : Config (Service τ) ServerEvent)) hstart ?_ h
  intro c l s evs _ _ _ hs
  have hpast (evs : List ListenerEvent) :
      serverPast (c.past ++ evs) = serverPast c.past ++ serverPast evs := List.filterMap_append
  dsimp only
  rw [hpast]
  cases listenerStep_inv hs with
  | connects id ip hnew =>
    show (server N decode fill hub drawn).Run free _ ⟨serverPast c.past ++ [], _⟩
    rw [List.append_nil]
  | cleans =>
    show (server N decode fill hub drawn).Run free _ ⟨serverPast c.past ++ [], _⟩
    rw [List.append_nil]
  | serves l service evs d hspawned hclock hstep =>
    rw [serverPast_map]
    exact .single (.mk l service evs trivial hstep)

/-- **The limiter stands for its successful checks.** -/
theorem listener_stands (h : (listener N decode fill hub drawn).Reach G c) :
    Stands RATELIMIT_MAX RATELIMIT_WINDOW c.state.now
      (checkedPast c.past, c.state.ratelimit) := by
  refine Machine.Reach.invariant (P := fun c => Stands RATELIMIT_MAX RATELIMIT_WINDOW c.state.now
    (checkedPast c.past, c.state.ratelimit)) ⟨rfl, rfl, rfl, fun _ => .nil⟩ ?_ h
  intro c l s evs _ ih _ hs
  have hpast (evs : List ListenerEvent) :
      checkedPast (c.past ++ evs) = checkedPast c.past ++ checkedPast evs := List.filterMap_append
  dsimp only
  rw [hpast]
  cases listenerStep_inv hs with
  | connects id ip hnew => exact ih.step (.check ip)
  | cleans =>
    show Stands _ _ _ (checkedPast c.past ++ [], _)
    rw [List.append_nil]
    exact ih.step .cleanup
  | serves l service evs d hspawned hclock hstep =>
    rw [checkedPast_map, List.append_nil]
    exact ih.later (Nat.le_add_right _ _)

/-- A connection has a socket. -/
theorem socket_of_conn (h : (listener N decode fill hub drawn).Reach G c) :
    ∀ id, c.state.service.conns id ≠ none → c.state.sockets id = some true := by
  refine Machine.Reach.invariant (P := fun c => ∀ id, c.state.service.conns id ≠ none →
    c.state.sockets id = some true) (fun _ hconn => absurd rfl hconn) ?_ h
  intro c l s evs _ ih _ hs id hconn
  cases listenerStep_inv hs with
  | connects k ip hnew =>
    have hbefore := ih id hconn
    have hne : id ≠ k := by
      rintro rfl
      cases hnew.symm.trans hbefore
    exact (Function.update_of_ne hne ..).trans hbefore
  | cleans => exact ih id hconn
  | serves l service evs d hspawned hclock hstep =>
    by_cases hactor : l.actor = some id
    · cases l with
      | accept k =>
        cases hactor
        exact hspawned _ rfl
      | conn k a =>
        cases hactor
        refine ih id fun hnone => ?_
        simp only [serverStep, hnone] at hstep
        cases hstep
      | _ => cases hactor
    · refine ih id ?_
      rw [← (serverStep_inv hstep).conns_other hactor]
      exact hconn

end

end ChatRs

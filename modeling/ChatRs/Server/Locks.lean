import ChatRs.Lib.LockOrder
import ChatRs.Server.Gate

/-!
# The locks of the rooms (`server/mod.rs`)

The three mutexes of every room, between the tasks of the server: any number of connections and
the sweeper. In front of every critical section of `Server.Service` a task now takes its locks one
by one, in the order of the source, and waits where another task has one of them; afterwards it
gives them back one by one. What it does with them it does in one go when it has them all, which
is all the same to the others, who cannot look. The plan:

* **`Stage.locks`**, **`Service.locks`**: which locks a task is going to take, site by site;
* **`locking`**: the server with its locks (`locking_server`, `locking_covers`: the runs are those
  of the server);
* **`Disciplined`**: what is held and wanted is in the order of the locks, in every state;
* **`locks_deadlockFree`**: so nobody waits in a circle, and somebody can always go on.
-/

namespace ChatRs

open Machine (Config Guard free)
open LockOrder (Table)

inductive Mutex where
  | sessions
  | messages
  | connections
deriving DecidableEq

/-- `sessions → messages → connections`. -/
def Mutex.rank : Mutex → Fin 3
  | .sessions => 0
  | .messages => 1
  | .connections => 2

/-- A mutex of a room. -/
abbrev Lock := RoomRef × Mutex

inductive Task where
  | conn (id : Uuid)
  | sweeper
deriving DecidableEq

/-! ## Which locks are taken where -/

/-- Whether `handle_client_frame` gets as far as its second look at the sessions. -/
def reachesSessions (userId : Uuid) (username : String) : ClientFrame → Bool
  | .roomSelect _ | .hello _ => false
  | .message ad ciphertext =>
    ad.fromId = userId && ad.username = username && ciphertext.length ≤ MAX_CIPHERTEXT_LEN
  | .clear => true

/-- The locks of a registered connection on its next step. -/
def Pc.locks (userId : Uuid) (username : String) : Pc → List Mutex
  | .snapshotting => [.messages]
  | .touching _ => [.sessions]
  | .checking f => if reachesSessions userId username f then [.sessions] else []
  | .storing _ => [.messages]
  | .collecting _ => [.connections]
  -- `broadcast` locks again only to evict somebody
  | .sending _ [] dead => if dead = [] then [] else [.connections]
  | .cleaning _ => [.sessions, .connections]
  | _ => []

/-- Which of its critical sections a task is in: a connection is where it stands, the sweeper
looks for stale sessions or evicts them. -/
inductive Site where
  | next
  | scan (name : String)
  | sweep (name : String)

section Code

variable {τ : Type}

def Stage.locks (s : Service τ) (id : Uuid) : Stage τ → List Lock
  | .registering ref _ => [(ref, .sessions), (ref, .connections)]
  | .joined ref =>
    match (s.stores ref).tasks id with
    | some (.live username pc) => (pc.locks id username).map fun m => (ref, m)
    | _ => []
  | _ => []

def Service.locks (hub : ServerHub) (s : Service τ) : Task → Site → List Lock
  | .conn id, .next =>
    match s.conns id with
    | some stage => stage.locks s id
    | none => []
  | .sweeper, .scan name =>
    match hub.rooms.lookup name with
    | some _ => if (s.stores (.hub name)).sweeping = [] then [(.hub name, .sessions)] else []
    | none => []
  | .sweeper, .sweep name =>
    match hub.rooms.lookup name with
    | some _ =>
      if (s.stores (.hub name)).sweeping = [] then []
      else [(.hub name, .sessions), (.hub name, .connections)]
    | none => []
  | _, _ => []

/-- The work of a section is this step of the server. -/
def Site.does : Task → Site → ServerLabel → Bool
  | .conn id, .next, .conn k _ => k = id
  | .sweeper, .scan name, .scan n => n = name
  | .sweeper, .sweep name, .sweep n => n = name
  | _, _, _ => false

/-! ## The server with its locks -/

/-- A task between the first lock of a section and the last unlock. -/
structure Section where
  site : Site
  /-- Last taken first. -/
  held : List Lock
  wanted : List Lock
  done : Bool

structure Locking (τ : Type) where
  service : Service τ
  owner : Lock → Option Task
  sections : Task → Option Section

inductive LockLabel where
  | enter (t : Task) (site : Site)
  | lock (t : Task)
  | work (t : Task) (l : ServerLabel)
  | unlock (t : Task)
  /-- A step without locks. -/
  | free (l : ServerLabel)

/-- Who takes the step. -/
def LockLabel.task : LockLabel → Option Task
  | .enter t _ | .lock t | .work t _ | .unlock t => some t
  | .free l => l.actor.map .conn

namespace Locking

def init (drawn : Nat) : Locking τ := ⟨.init drawn, fun _ => none, fun _ => none⟩

def put (s : Locking τ) (t : Task) (sec : Option Section) : Locking τ :=
  { s with sections := Function.update s.sections t sec }

def setOwner (s : Locking τ) (l : Lock) (t : Option Task) : Locking τ :=
  { s with owner := Function.update s.owner l t }

/-- The actor of the step is in no section, and has none before it. -/
def unlocked (hub : ServerHub) (s : Locking τ) : ServerLabel → Bool
  | .accept id | .conn id _ =>
    (s.sections (.conn id)).isNone && (s.service.locks hub (.conn id) .next).isEmpty
  | .elapse _ => true
  | .scan _ | .sweep _ => false

end Locking

variable (N : Noise τ) (decode : List UInt8 → Option ClientFrame) (fill : Nat → Option Key)
  (hub : ServerHub)

def lockStep (s : Locking τ) : LockLabel → Option (Locking τ × List ServerEvent)
  | .enter t site =>
    match s.sections t, s.service.locks hub t site with
    | none, l :: wanted => some (s.put t (some ⟨site, [], l :: wanted, false⟩), [])
    | _, _ => none
  -- a mutex that is taken makes its task wait
  | .lock t =>
    match s.sections t with
    | some ⟨site, held, l :: wanted, false⟩ =>
      if s.owner l = none then
        some ((s.setOwner l (some t)).put t (some ⟨site, l :: held, wanted, false⟩), [])
      else none
    | _ => none
  | .work t l =>
    match s.sections t with
    | some ⟨site, held, [], false⟩ =>
      if site.does t l then
        (serverStep N decode fill hub s.service l).map fun (service, evs) =>
          ({ s with service := service }.put t (some ⟨site, held, [], true⟩), evs)
      else none
    | _ => none
  -- the guards are dropped in the reverse order
  | .unlock t =>
    match s.sections t with
    | some ⟨site, l :: held, wanted, true⟩ =>
      some ((s.setOwner l none).put t (some ⟨site, held, wanted, true⟩), [])
    | some ⟨_, [], _, true⟩ => some (s.put t none, [])
    | _ => none
  | .free l =>
    if s.unlocked hub l then
      (serverStep N decode fill hub s.service l).map fun (service, evs) =>
        ({ s with service := service }, evs)
    else none

/-- The server, lock by lock. -/
def locking (drawn : Nat) : Machine (Locking τ) LockLabel ServerEvent :=
  ⟨.init drawn, lockStep N decode fill hub⟩

end Code

/-! ## What the locks depend on -/

section

variable {τ : Type} {N : Noise τ} {decode : List UInt8 → Option ClientFrame}
  {fill : Nat → Option Key} {hub : ServerHub} {s s' : Service τ} {l : ServerLabel}
  {evs : List ServerEvent}

def Before (l l' : Lock) : Prop := l.2.rank < l'.2.rank

/-- A lock has its place in the order once. -/
theorem Before.irrefl (l : Lock) : ¬ Before l l := lt_irrefl l.2.rank

theorem Before.ne {l l' : Lock} (h : Before l l') : l ≠ l' := by
  rintro rfl
  exact Before.irrefl l h

/-- In a room the locks are taken in the order messages, sessions, connections. -/
theorem pcLocks_ordered (ref : RoomRef) (id : Uuid) (username : String) (pc : Pc) :
    ((pc.locks id username).map fun m => (ref, m)).Pairwise Before := by
  have pair : [(ref, Mutex.sessions), (ref, Mutex.connections)].Pairwise Before :=
    List.pairwise_pair.mpr (by decide : Mutex.sessions.rank < Mutex.connections.rank)
  unfold Pc.locks
  split
  case h_3 | h_6 =>
    split
    all_goals first | exact List.Pairwise.nil | exact List.pairwise_singleton ..
  case h_7 => exact pair
  case h_8 => exact List.Pairwise.nil
  all_goals exact List.pairwise_singleton ..

/-- **Every site takes its locks in order.** -/
theorem locks_ordered (t : Task) (site : Site) : (s.locks hub t site).Pairwise Before := by
  have pair (ref : RoomRef) : [(ref, Mutex.sessions), (ref, Mutex.connections)].Pairwise Before :=
    List.pairwise_pair.mpr (by decide : Mutex.sessions.rank < Mutex.connections.rank)
  unfold Service.locks
  split
  · split
    · unfold Stage.locks
      split
      · exact pair _
      · split
        · exact pcLocks_ordered ..
        · exact List.Pairwise.nil
      · exact List.Pairwise.nil
    · exact List.Pairwise.nil
  · split
    · split
      · exact List.pairwise_singleton ..
      · exact List.Pairwise.nil
    · exact List.Pairwise.nil
  · split
    · split
      · exact List.Pairwise.nil
      · exact pair _
    · exact List.Pairwise.nil
  · exact List.Pairwise.nil

/-- What a connection is going to lock depends on where it stands, and on nothing that others
do. -/
theorem locks_conn (h : ServerStep N hub s l s' evs) {id : Uuid} (hactor : l.actor ≠ some id)
    (site : Site) : s'.locks hub (.conn id) site = s.locks hub (.conn id) site := by
  cases site with
  | next =>
    simp only [Service.locks, h.conns_other hactor]
    cases s.conns id with
    | none => rfl
    | some stage =>
      cases stage with
      | joined ref => simp only [Stage.locks, h.tasks_other hactor]
      | _ => rfl
  | scan | sweep => rfl

/-- Connections do not touch what the sweeper has found. -/
theorem ServerStep.sweeping (h : ServerStep N hub s l s' evs)
    (hl : ∀ name, l ≠ .scan name ∧ l ≠ .sweep name) (ref : RoomRef) :
    (s'.stores ref).sweeping = (s.stores ref).sweeping := by
  have within {ref' : RoomRef} {w : World} (hw : w.sweeping = (s.stores ref').sweeping) :
      (Function.update s.stores ref' w ref).sweeping = (s.stores ref).sweeping := by
    rcases eq_or_ne ref ref' with rfl | hne
    · rw [Function.update_self, hw]
    · rw [Function.update_of_ne hne]
  cases h with
  | registers id ref' username w evs hat hregister =>
    cases hregister
    exact within rfl
  | lives id ref' username pc a w evs hat htask hlive =>
    refine within ?_
    cases liveStep_inv htask hlive <;> rfl
  | sweeps l name lr w evs hl' hstep =>
    rcases hl' with ⟨rfl, _⟩ | ⟨rfl, _⟩
    · exact absurd rfl (hl name).1
    · exact absurd rfl (hl name).2
  | _ => rfl

/-- What the sweeper holds changes with its own steps only. -/
theorem locks_sweeper (h : ServerStep N hub s l s' evs)
    (hl : ∀ name, l ≠ .scan name ∧ l ≠ .sweep name) (site : Site) :
    s'.locks hub .sweeper site = s.locks hub .sweeper site := by
  cases site with
  | next => rfl
  | scan | sweep => simp only [Service.locks, h.sweeping hl]

/-- Where there are locks to take there is work to do. -/
theorem work_of_locks {t : Task} {site : Site} (h : s.locks hub t site ≠ []) :
    ∃ l, site.does t l = true ∧ (serverStep N decode fill hub s l).isSome = true := by
  unfold Service.locks at h
  split at h
  case h_4 => exact absurd rfl h
  · -- a connection between two steps
    rename_i id
    split at h
    case h_2 => exact absurd rfl h
    rename_i stage hat
    have at_conn {a : ConnAct}
        (hstep : (connStep N decode fill hub s id stage a).isSome = true) :
        ∃ l, Site.next.does (.conn id) l = true
          ∧ (serverStep N decode fill hub s l).isSome = true := by
      refine ⟨.conn id a, decide_eq_true rfl, ?_⟩
      simp only [serverStep, hat]
      exact hstep
    unfold Stage.locks at h
    split at h
    · exact at_conn (a := .register) rfl
    · rename_i ref
      split at h
      case h_2 => exact absurd rfl h
      rename_i username pc htask
      -- inside its room, each place that takes a lock has a step of its own
      have live {a : Act}
          (hstep : (liveStep (s.stores ref) id username pc a).isSome = true) :
          (connStep N decode fill hub s id (.joined ref) (.live a)).isSome = true := by
        simp only [connStep, htask, Option.isSome_map]
        exact hstep
      cases pc with
      | snapshotting => exact at_conn (live (a := .snapshot) rfl)
      | touching f => exact at_conn (live (a := .touch) rfl)
      | checking f =>
        refine at_conn (live (a := .check) ?_)
        simp only [liveStep]
        split <;> rfl
      | storing f => exact at_conn (live (a := .store) rfl)
      | collecting f =>
        -- any order would do
        refine at_conn (live (a := .collect (s.stores ref).connections.snapshot) ?_)
        simp only [liveStep, if_pos (List.Perm.refl _)]
        rfl
      | sending f rest dead =>
        cases rest with
        | nil => exact at_conn (live (a := .evict) rfl)
        | cons => exact absurd rfl h
      | cleaning result => exact at_conn (live (a := .cleanup) rfl)
      | _ => exact absurd rfl h
    · exact absurd rfl h
  · -- the sweeper, about to draw up its list
    rename_i name
    split at h
    case h_2 => exact absurd rfl h
    rename_i room hroom
    split at h
    case isFalse => exact absurd rfl h
    rename_i hnone
    refine ⟨.scan name, decide_eq_true rfl, ?_⟩
    simp only [serverStep, sweeperStep, hroom, step, if_pos hnone]
    rfl
  · -- the sweeper, about to work it off
    rename_i name
    split at h
    case h_2 => exact absurd rfl h
    rename_i room hroom
    split at h
    case isTrue => exact absurd rfl h
    rename_i hsome
    refine ⟨.sweep name, decide_eq_true rfl, ?_⟩
    simp only [serverStep, sweeperStep, hroom, step, if_neg hsome]
    rfl

end

/-! ## The discipline -/

section

variable {τ : Type} {N : Noise τ} {decode : List UInt8 → Option ClientFrame}
  {fill : Nat → Option Key} {hub : ServerHub} {drawn : Nat}
  {G : Guard (Locking τ) LockLabel ServerEvent} {c : Config (Locking τ) ServerEvent}

/-- Everything a step can do. -/
inductive LockStep (N : Noise τ) (decode : List UInt8 → Option ClientFrame)
    (fill : Nat → Option Key) (hub : ServerHub) (s : Locking τ) :
    LockLabel → Locking τ → List ServerEvent → Prop
  | enters (t : Task) (site : Site) (hout : s.sections t = none) :
      LockStep N decode fill hub s (.enter t site)
        (s.put t (some ⟨site, [], s.service.locks hub t site, false⟩)) []
  | takes (t : Task) (site : Site) (held wanted : List Lock) (l : Lock)
      (hat : s.sections t = some ⟨site, held, l :: wanted, false⟩) (hfree : s.owner l = none) :
      LockStep N decode fill hub s (.lock t)
        ((s.setOwner l (some t)).put t (some ⟨site, l :: held, wanted, false⟩)) []
  | works (t : Task) (site : Site) (held : List Lock) (l : ServerLabel) (service : Service τ)
      (evs : List ServerEvent) (hat : s.sections t = some ⟨site, held, [], false⟩)
      (hl : site.does t l = true)
      (hstep : serverStep N decode fill hub s.service l = some (service, evs)) :
      LockStep N decode fill hub s (.work t l)
        ({ s with service := service }.put t (some ⟨site, held, [], true⟩)) evs
  | drops (t : Task) (site : Site) (l : Lock) (held wanted : List Lock)
      (hat : s.sections t = some ⟨site, l :: held, wanted, true⟩) :
      LockStep N decode fill hub s (.unlock t)
        ((s.setOwner l none).put t (some ⟨site, held, wanted, true⟩)) []
  | leaves (t : Task) (site : Site) (wanted : List Lock)
      (hat : s.sections t = some ⟨site, [], wanted, true⟩) :
      LockStep N decode fill hub s (.unlock t) (s.put t none) []
  | goes (l : ServerLabel) (service : Service τ) (evs : List ServerEvent)
      (hfree : s.unlocked hub l = true)
      (hstep : serverStep N decode fill hub s.service l = some (service, evs)) :
      LockStep N decode fill hub s (.free l) { s with service := service } evs

/-- The inversion of a step: a section begins, takes a lock, does its work, gives a lock back, or
ends. -/
theorem lockStep_inv {s s' : Locking τ} {l : LockLabel} {evs : List ServerEvent}
    (h : lockStep N decode fill hub s l = some (s', evs)) :
    LockStep N decode fill hub s l s' evs := by
  cases l with
  | enter t site =>
    simp only [lockStep] at h
    split at h
    · rename_i l wanted hout hlocks
      cases h
      rw [← hlocks]
      exact .enters t site hout
    · cases h
  | lock t =>
    simp only [lockStep] at h
    split at h
    · rename_i site held l wanted hat
      split at h
      · rename_i hfree
        cases h
        exact .takes t site held wanted l hat hfree
      · cases h
    · cases h
  | work t l =>
    simp only [lockStep] at h
    split at h
    · rename_i site held hat
      split at h
      · rename_i hl
        obtain ⟨⟨service, sevs⟩, hstep, heq⟩ := Option.map_eq_some_iff.mp h
        cases heq
        exact .works t site held l service sevs hat hl hstep
      · cases h
    · cases h
  | unlock t =>
    simp only [lockStep] at h
    split at h
    · rename_i site l held wanted hat
      cases h
      exact .drops t site l held wanted hat
    · rename_i site wanted hat
      cases h
      exact .leaves t site wanted hat
    · cases h
  -- a step that takes no lock
  | free l =>
    simp only [lockStep] at h
    split at h
    · rename_i hfree
      obtain ⟨⟨service, sevs⟩, hstep, heq⟩ := Option.map_eq_some_iff.mp h
      cases heq
      exact .goes l service sevs hfree hstep
    · cases h

/-- **With the locks taken away, this is the server.** -/
theorem locking_server (h : (locking N decode fill hub drawn).Reach G c) :
    (server N decode fill hub drawn).Reach free ⟨c.past, c.state.service⟩ := by
  have hstart : (server N decode fill hub drawn).Reach free
      (server N decode fill hub drawn).start := .refl
  refine Machine.Reach.simulates
    (fun c => (⟨c.past, c.state.service⟩ : Config (Service τ) ServerEvent)) hstart ?_ h
  intro c l s evs _ _ _ hs
  dsimp only
  cases lockStep_inv hs with
  | works t site held l service evs hat hl hstep => exact .single (.mk l service evs trivial hstep)
  | goes l service evs hfree hstep => exact .single (.mk l service evs trivial hstep)
  | _ =>
    rw [List.append_nil]
    exact .refl

/-- One task in a section, and no other. -/
def alone (service : Service τ) (t : Task) (site : Site) (held wanted : List Lock) (done : Bool) :
    Locking τ where
  service := service
  owner l := if l ∈ held then some t else none
  sections := Function.update (fun _ => none) t (some ⟨site, held, wanted, done⟩)

/-- Nobody in a section. -/
def unlockedAll (service : Service τ) : Locking τ := ⟨service, fun _ => none, fun _ => none⟩

section

variable {service : Service τ} {t : Task} {site : Site} {held wanted : List Lock}

theorem alone_at (done : Bool) : (alone service t site held wanted done).sections t
    = some ⟨site, held, wanted, done⟩ := by
  simp only [alone, Function.update_self]

/-- Alone, a section takes the next lock. -/
theorem alone_take (l : Lock) (wanted' : List Lock) :
    ((alone service t site held wanted false).setOwner l (some t)).put t
        (some ⟨site, l :: held, wanted', false⟩)
      = alone service t site (l :: held) wanted' false := by
  have howner : Function.update (fun m => if m ∈ held then some t else none) l (some t)
      = fun m => if m ∈ l :: held then some t else none := by
    funext m
    rcases eq_or_ne m l with rfl | hm
    · rw [Function.update_self, if_pos List.mem_cons_self]
    · rw [Function.update_of_ne hm]
      simp only [List.mem_cons, hm, false_or]
  simp only [alone, Locking.put, Locking.setOwner, howner, Function.update_idem]

/-- Alone, a section gives the lock back that it took last. -/
theorem alone_drop {l : Lock} (hnot : l ∉ held) :
    ((alone service t site (l :: held) [] true).setOwner l none).put t (some ⟨site, held, [], true⟩)
      = alone service t site held [] true := by
  have howner : Function.update (fun m => if m ∈ l :: held then some t else none) l none
      = fun m => if m ∈ held then some t else none := by
    funext m
    rcases eq_or_ne m l with rfl | hm
    · rw [Function.update_self, if_neg hnot]
    · rw [Function.update_of_ne hm]
      simp only [List.mem_cons, hm, false_or]
  simp only [alone, Locking.put, Locking.setOwner, howner, Function.update_idem]

/-- A step of a run that nobody sees. -/
theorem run_quiet {s s' : Locking τ} {l : LockLabel}
    (hs : (locking N decode fill hub drawn).step s l = some (s', [])) (past : List ServerEvent) :
    (locking N decode fill hub drawn).Next free ⟨past, s⟩ ⟨past, s'⟩ := by
  have hnext := Machine.Next.mk (G := free) (c := ⟨past, s⟩) l s' [] trivial hs
  rw [List.append_nil] at hnext
  exact hnext

/-- Alone, a section takes its locks one after the other. -/
theorem alone_locks (hnodup : (wanted ++ held).Nodup) (past : List ServerEvent) :
    (locking N decode fill hub drawn).Run free ⟨past, alone service t site held wanted false⟩
      ⟨past, alone service t site (wanted.reverse ++ held) [] false⟩ := by
  induction wanted generalizing held with
  | nil => exact .refl
  | cons l wanted ih =>
    have hfree : (alone service t site held (l :: wanted) false).owner l = none :=
      if_neg fun hmem => (List.nodup_cons.mp hnodup).1 (List.mem_append_right wanted hmem)
    have hnext : (locking N decode fill hub drawn).step
        (alone service t site held (l :: wanted) false) (.lock t)
          = some (alone service t site (l :: held) wanted false, []) := by
      simp only [locking, lockStep, alone_at, if_pos hfree, alone_take]
    rw [List.reverse_cons, List.append_assoc, List.singleton_append]
    exact .head (run_quiet hnext past) (ih (List.perm_middle.nodup_iff.mpr hnodup))

/-- Alone, a section gives its locks back, and leaves. -/
theorem alone_unlocks (hnodup : held.Nodup) (past : List ServerEvent) :
    (locking N decode fill hub drawn).Run free ⟨past, alone service t site held [] true⟩
      ⟨past, unlockedAll service⟩ := by
  induction held with
  | nil =>
    have hnext : (locking N decode fill hub drawn).step (alone service t site [] [] true)
        (.unlock t) = some (unlockedAll service, []) := by
      have hnobody : Function.update (fun _ : Task => (none : Option Section)) t none
          = fun _ => none := Function.update_eq_self t _
      simp only [locking, lockStep, alone_at]
      simp only [Locking.put, alone, unlockedAll, List.not_mem_nil, if_false,
        Function.update_idem, hnobody]
    exact .single (run_quiet hnext past)
  | cons l held ih =>
    obtain ⟨hnot, hrest⟩ := List.nodup_cons.mp hnodup
    have hnext : (locking N decode fill hub drawn).step (alone service t site (l :: held) [] true)
        (.unlock t) = some (alone service t site held [] true, []) := by
      simp only [locking, lockStep, alone_at, alone_drop hnot]
    exact .head (run_quiet hnext past) (ih hrest)

end

/-- A section from its first lock to its last unlock, with nobody else about. -/
theorem run_section {service service' : Service τ} {t : Task} {site : Site} {l : ServerLabel}
    {evs : List ServerEvent} (hlocks : service.locks hub t site ≠ []) (hl : site.does t l = true)
    (hstep : serverStep N decode fill hub service l = some (service', evs))
    (past : List ServerEvent) :
    (locking N decode fill hub drawn).Run free ⟨past, unlockedAll service⟩
      ⟨past ++ evs, unlockedAll service'⟩ := by
  have hnodup : (service.locks hub t site).Nodup := (locks_ordered t site).imp Before.ne
  have henter : (locking N decode fill hub drawn).step (unlockedAll service) (.enter t site)
      = some (alone service t site [] (service.locks hub t site) false, []) := by
    obtain ⟨m, wanted, hwanted⟩ := List.exists_cons_of_ne_nil hlocks
    simp only [locking, lockStep, unlockedAll, hwanted, Locking.put, alone, List.not_mem_nil,
      if_false]
  have hwork : (locking N decode fill hub drawn).step
      (alone service t site ((service.locks hub t site).reverse ++ []) [] false) (.work t l)
        = some (alone service' t site ((service.locks hub t site).reverse ++ []) [] true, evs) := by
    simp only [locking, lockStep, alone_at, if_pos hl]
    simp only [alone, hstep, Option.map_some, Locking.put, Function.update_idem]
  have hreverse : ((service.locks hub t site).reverse ++ []).Nodup := by
    rw [List.append_nil]
    exact List.nodup_reverse.mpr hnodup
  have hlocked : (locking N decode fill hub drawn).Run free
      ⟨past, alone service t site [] (service.locks hub t site) false⟩ ⟨past, _⟩ :=
    alone_locks (by rwa [List.append_nil]) past
  exact (Relation.ReflTransGen.head (run_quiet henter past) hlocked).trans
    (.head (.mk _ _ evs trivial hwork) (alone_unlocks hreverse _))

/-- **Every run of the server can be made lock by lock.** -/
theorem locking_covers {c : Config (Service τ) ServerEvent}
    (h : (server N decode fill hub drawn).Reach free c) :
    (locking N decode fill hub drawn).Reach free ⟨c.past, unlockedAll c.state⟩ := by
  have hstart : (locking N decode fill hub drawn).Reach free
      (locking N decode fill hub drawn).start := .refl
  refine Machine.Reach.simulates
    (fun c => (⟨c.past, unlockedAll c.state⟩ : Config (Locking τ) ServerEvent)) hstart ?_ h
  intro c l s evs _ _ _ hs
  have hstep : serverStep N decode fill hub c.state l = some (s, evs) := hs
  -- without locks the step is taken at once
  have goes (hfree : (unlockedAll c.state).unlocked hub l = true) :
      (locking N decode fill hub drawn).Run free ⟨c.past, unlockedAll c.state⟩
        ⟨c.past ++ evs, unlockedAll s⟩ := by
    have hnext : (locking N decode fill hub drawn).step (unlockedAll c.state) (.free l)
        = some (unlockedAll s, evs) := by
      simp only [locking, lockStep, if_pos hfree]
      simp only [unlockedAll, hstep, Option.map_some]
    exact .single (.mk _ _ evs trivial hnext)
  cases l with
  | accept id =>
    refine goes ?_
    cases serverStep_inv hstep with
    | accepts _ stage hnew hstage =>
      simp only [Locking.unlocked, unlockedAll, Service.locks, hnew]
      rfl
    | sweeps l name lr w evs hl hstep => cases (actor_of_sweep hl).1
  | conn id a =>
    by_cases hlocks : c.state.locks hub (.conn id) .next = []
    · refine goes ?_
      simp only [Locking.unlocked, unlockedAll, hlocks]
      rfl
    · -- else the section is run from its first lock to its last, with nobody beside
      have hdoes : Site.next.does (.conn id) (.conn id a) = true := decide_eq_true rfl
      exact run_section hlocks hdoes hstep c.past
  | elapse d => exact goes rfl
  | scan name =>
    have hdoes : (Site.scan name).does .sweeper (.scan name) = true := decide_eq_true rfl
    refine run_section ?_ hdoes hstep c.past
    simp only [serverStep, sweeperStep] at hstep
    split at hstep
    · rename_i room hroom
      obtain ⟨⟨w, wevs⟩, hscan, _⟩ := Option.map_eq_some_iff.mp hstep
      -- the sweeper has no list yet, so that it wants the locks of the scan
      obtain ⟨hnone, _⟩ := Option.ite_none_right_eq_some.mp hscan
      simp only [Service.locks, hroom, if_pos hnone]
      exact List.cons_ne_nil _ _
    · cases hstep
  | sweep name =>
    have hdoes : (Site.sweep name).does .sweeper (.sweep name) = true := decide_eq_true rfl
    refine run_section ?_ hdoes hstep c.past
    simp only [serverStep, sweeperStep] at hstep
    split at hstep
    · rename_i room hroom
      obtain ⟨⟨w, wevs⟩, hsweep, _⟩ := Option.map_eq_some_iff.mp hstep
      -- it has a list, so that it wants those of the removal
      obtain ⟨hsome, _⟩ := Option.ite_none_left_eq_some.mp hsweep
      simp only [Service.locks, hroom, if_neg hsome]
      exact List.cons_ne_nil _ _
    · cases hstep

/-- What a task in a section holds and wants, together, is in the order of the locks, and it is
what its site takes as long as the work is to be done. -/
structure Section.Sound (hub : ServerHub) (service : Service τ) (t : Task) (sec : Section) :
    Prop where
  ordered : (sec.held.reverse ++ sec.wanted).Pairwise Before
  planned : sec.done = false → sec.held.reverse ++ sec.wanted = service.locks hub t sec.site
  finished : sec.done = true → sec.wanted = []

/-- Every section is sound, and the mutexes know who holds them. -/
structure Disciplined (hub : ServerHub) (s : Locking τ) : Prop where
  owned : ∀ l t, s.owner l = some t ↔ ∃ sec, s.sections t = some sec ∧ l ∈ sec.held
  sound : ∀ t sec, s.sections t = some sec → sec.Sound hub s.service t

namespace Disciplined

variable {s : Locking τ} {t : Task} {site : Site} {held wanted : List Lock} {done : Bool}

/-- A task owns the locks that its section holds. -/
theorem owned_iff (h : Disciplined hub s) (hat : s.sections t = some ⟨site, held, wanted, done⟩)
    (l : Lock) : s.owner l = some t ↔ l ∈ held := by
  rw [h.owned, hat]
  simp only [Option.some.injEq, exists_eq_left']

/-- A task goes on, and the others stay as they are. -/
theorem put (h : Disciplined hub s) {service : Service τ} {owner : Lock → Option Task}
    {next : Option Section} (hself : ∀ l, owner l = some t ↔ ∃ sec, next = some sec ∧ l ∈ sec.held)
    (hothers : ∀ l, ∀ u ≠ t, (owner l = some u ↔ s.owner l = some u))
    (hnext : ∀ sec, next = some sec → sec.Sound hub service t)
    (hplans : ∀ u ≠ t, ∀ site, service.locks hub u site = s.service.locks hub u site) :
    Disciplined hub ⟨service, owner, Function.update s.sections t next⟩ := by
  constructor
  · intro l u
    dsimp only
    rcases eq_or_ne u t with rfl | hne
    · rw [Function.update_self]
      exact hself l
    · rw [Function.update_of_ne hne, hothers l u hne]
      exact h.owned l u
  · intro u sec hu
    dsimp only at hu
    rcases eq_or_ne u t with rfl | hne
    · rw [Function.update_self] at hu
      exact hnext sec hu
    · rw [Function.update_of_ne hne] at hu
      obtain ⟨hordered, hplanned, hfinished⟩ := h.sound u sec hu
      exact ⟨hordered, fun hdone => (hplans u hne sec.site).symm ▸ hplanned hdone, hfinished⟩

/-- The work of one task does not change the plans of another. -/
theorem locks_of_work {s s' : Service τ} {l : ServerLabel} {evs : List ServerEvent}
    (hstep : serverStep N decode fill hub s l = some (s', evs)) (hl : site.does t l = true) :
    ∀ u ≠ t, ∀ site, s'.locks hub u site = s.locks hub u site := by
  intro u hne site'
  have hinv := serverStep_inv hstep
  unfold Site.does at hl
  split at hl
  · rename_i id k a
    obtain rfl := of_decide_eq_true hl
    cases u with
    | conn id =>
      exact locks_conn hinv (fun heq => hne (congrArg _ (Option.some.inj heq).symm)) site'
    | sweeper => exact locks_sweeper hinv (fun _ => ⟨nofun, nofun⟩) site'
  · cases u with
    | conn id => exact locks_conn hinv nofun site'
    | sweeper => exact absurd rfl hne
  · cases u with
    | conn id => exact locks_conn hinv nofun site'
    | sweeper => exact absurd rfl hne
  · cases hl

end Disciplined

/-- **The discipline is kept.** -/
theorem disciplined (h : (locking N decode fill hub drawn).Reach G c) :
    Disciplined hub c.state := by
  refine Machine.Reach.invariant (P := fun c => Disciplined hub c.state) ?_ ?_ h
  · -- nobody holds a lock
    exact ⟨fun _ _ => iff_of_false nofun (fun ⟨_, hnone, _⟩ => nomatch hnone), nofun⟩
  intro c l s evs _ ih _ hs
  cases lockStep_inv hs with
  | enters t site hout =>
    refine ih.put (fun l => ?_) (fun _ _ _ => Iff.rfl) (fun sec hsec => ?_) fun _ _ _ => rfl
    · rw [ih.owned, hout]
      simp
    · cases hsec
      exact ⟨locks_ordered t site, fun _ => rfl, nofun⟩
  | takes t site held wanted l hat hfree =>
    obtain ⟨hordered, hplanned, _⟩ := ih.sound t _ hat
    -- the lock moves from the wanted ones to the held ones, and the order stays
    have hsame : (l :: held).reverse ++ wanted = held.reverse ++ l :: wanted := by
      rw [List.reverse_cons, List.append_assoc, List.singleton_append]
    refine ih.put (fun m => ?_) (fun m u hne => ?_) (fun sec hsec => ?_) fun _ _ _ => rfl
    · simp only [Locking.setOwner, Option.some.injEq, exists_eq_left', List.mem_cons]
      rcases eq_or_ne m l with rfl | hm
      · simp
      · rw [Function.update_of_ne hm, ih.owned_iff hat, or_iff_right hm]
    · simp only [Locking.setOwner]
      rcases eq_or_ne m l with rfl | hm
      · rw [Function.update_self, hfree]
        exact iff_of_false (fun heq => hne (Option.some.inj heq).symm) nofun
      · rw [Function.update_of_ne hm]
    · cases hsec
      exact ⟨hsame ▸ hordered, fun hdone => hsame ▸ hplanned hdone, nofun⟩
  | works t site held l service evs hat hl hstep =>
    obtain ⟨hordered, _, _⟩ := ih.sound t _ hat
    refine ih.put (fun m => ?_) (fun _ _ _ => Iff.rfl) (fun sec hsec => ?_)
      (Disciplined.locks_of_work hstep hl)
    · simp only [Option.some.injEq, exists_eq_left']
      exact ih.owned_iff hat m
    · cases hsec
      exact ⟨hordered, nofun, fun _ => rfl⟩
  | drops t site l held wanted hat =>
    obtain ⟨hordered, _, hfinished⟩ := ih.sound t _ hat
    have howned := ih.owned_iff hat
    rw [List.reverse_cons, List.append_assoc] at hordered
    -- no lock is taken twice, for the order is strict
    have hnot : l ∉ held := by
      intro hmem
      refine Before.irrefl l ((List.pairwise_append.mp hordered).2.2 l ?_ l ?_)
      · exact List.mem_reverse.mpr hmem
      · exact List.mem_append_left _ (List.mem_singleton_self l)
    refine ih.put (fun m => ?_) (fun m u hne => ?_) (fun sec hsec => ?_) fun _ _ _ => rfl
    · simp only [Locking.setOwner, Option.some.injEq, exists_eq_left']
      rcases eq_or_ne m l with rfl | hm
      · rw [Function.update_self]
        exact iff_of_false nofun hnot
      · rw [Function.update_of_ne hm, howned, List.mem_cons, or_iff_right hm]
    · simp only [Locking.setOwner]
      rcases eq_or_ne m l with rfl | hm
      · rw [Function.update_self, (howned m).mpr List.mem_cons_self]
        exact iff_of_false nofun fun heq => hne (Option.some.inj heq).symm
      · rw [Function.update_of_ne hm]
    · cases hsec
      refine ⟨hordered.sublist ?_, nofun, fun _ => hfinished rfl⟩
      exact (List.sublist_append_right [l] wanted).append_left _
  | leaves t site wanted hat =>
    refine ih.put (fun m => ?_) (fun _ _ _ => Iff.rfl) nofun fun _ _ _ => rfl
    rw [ih.owned_iff hat]
    exact iff_of_false nofun fun ⟨_, hnone, _⟩ => nomatch hnone
  | goes l service evs hfree hstep =>
    -- a step without locks takes nothing from the section that another task is in
    refine ⟨ih.owned, fun u sec hu => ?_⟩
    obtain ⟨hordered, hplanned, hfinished⟩ := ih.sound u sec hu
    have hinv := serverStep_inv hstep
    have hplan : service.locks hub u sec.site = c.state.service.locks hub u sec.site := by
      cases u with
      | conn id =>
        refine locks_conn hinv (fun hactor => ?_) sec.site
        -- the one that goes is in no section
        cases l with
        | accept k | conn k a =>
          cases hactor
          have hnone := (Bool.and_eq_true_iff.mp hfree).1
          rw [hu] at hnone
          cases hnone
        | _ => cases hactor
      | sweeper =>
        refine locks_sweeper hinv (fun name => ?_) sec.site
        cases l with
        | scan | sweep => cases hfree
        | _ => exact ⟨nofun, nofun⟩
    exact ⟨hordered, fun hdone => hplan ▸ hplanned hdone, hfinished⟩

/-! ## Nobody waits in a circle -/

/-- Who has which mutex, and who waits in front of which. -/
def Locking.table (s : Locking τ) : Table Task Lock where
  Holds t l := s.owner l = some t
  Wants t l := ∃ sec, s.sections t = some sec ∧ sec.wanted.head? = some l

/-- Under the discipline nobody waits for a lock below one that it holds. -/
theorem Disciplined.table_ordered {s : Locking τ} (h : Disciplined hub s) :
    s.table.Ordered fun l => l.2.rank := by
  rintro t held l hholds ⟨sec, hat, hhead⟩
  obtain ⟨sec', hat', hmem⟩ := (h.owned held t).mp hholds
  cases hat.symm.trans hat'
  refine (List.pairwise_append.mp (h.sound t sec hat).ordered).2.2 held ?_ l ?_
  · exact List.mem_reverse.mpr hmem
  · exact List.mem_of_mem_head? hhead

/-- A task that holds a lock and waits for none can take a step. -/
theorem Disciplined.runs {s : Locking τ} (h : Disciplined hub s) {t : Task} {l : Lock}
    (hholds : s.table.Holds t l) (hruns : ∀ u, ¬ s.table.WaitsFor t u) :
    ∃ label, label.task = some t ∧ (lockStep N decode fill hub s label).isSome = true := by
  obtain ⟨⟨site, held, wanted, done⟩, hat, hmem⟩ := (h.owned l t).mp hholds
  cases done with
  | true =>
    refine ⟨.unlock t, rfl, ?_⟩
    cases held with
    | nil => cases hmem
    | cons => simp only [lockStep, hat, Option.isSome_some]
  | false =>
    cases wanted with
    | nil =>
      -- all its locks are there, so that it can do its work
      have hplan := (h.sound t _ hat).planned rfl
      have hlocks : s.service.locks hub t site ≠ [] := by
        rw [← hplan]
        simp only [List.append_nil, ne_eq, List.reverse_eq_nil_iff]
        rintro rfl
        cases hmem
      obtain ⟨work, hdoes, hstep⟩ := work_of_locks (N := N) hlocks
      refine ⟨.work t work, rfl, ?_⟩
      simp only [lockStep, hat, if_pos hdoes, Option.isSome_map]
      exact hstep
    | cons m wanted =>
      -- nobody holds the next one, as it waits for nobody
      have hfree : s.owner m = none := by
        rw [Option.eq_none_iff_forall_not_mem]
        exact fun u howner => hruns u ⟨m, ⟨_, hat, rfl⟩, howner⟩
      refine ⟨.lock t, rfl, ?_⟩
      simp only [lockStep, hat, if_pos hfree, Option.isSome_some]

/-- **No deadlock.** With any number of rooms and connections, in every state that the server comes
to, lock by lock: no chain of tasks that wait for one another closes, and where a task waits for a
lock some task that holds one can take its next step. -/
theorem locks_deadlockFree (h : (locking N decode fill hub drawn).Reach G c) :
    (∀ t, ¬ Relation.TransGen c.state.table.WaitsFor t t)
      ∧ ∀ t u, c.state.table.WaitsFor t u →
        ∃ v l label, c.state.table.Holds v l ∧ label.task = some v
          ∧ ((locking N decode fill hub drawn).step c.state label).isSome = true := by
  have hdisciplined := disciplined h
  refine ⟨hdisciplined.table_ordered.not_waitsFor_self, fun t u hwaits => ?_⟩
  obtain ⟨v, l, hholds, hruns⟩ := hdisciplined.table_ordered.exists_running hwaits
  obtain ⟨label, htask, hstep⟩ :
      ∃ label, label.task = some v ∧ (lockStep N decode fill hub c.state label).isSome = true :=
    hdisciplined.runs hholds hruns
  exact ⟨v, l, label, hholds, htask, hstep⟩

end

/-! ## Two that register at once -/

section

open Knock Cast

/-- Alice and Bob are both about to register; she has her first lock and he wants it. -/
def crowded : List LockLabel :=
  (visits alice "main" firstMessage (mainRoom.psk.toList ++ helloBytes)
      ++ visits bob "main" firstMessage (mainRoom.psk.toList ++ helloBytes)).map .free
    ++ [.enter (.conn alice) .next, .lock (.conn alice), .enter (.conn bob) .next]

/-- Bob waits for a lock that Alice holds, and there is a holder that can go on. -/
theorem locks_deadlockFree_crowded :
    ∃ c, (locking clearNoise decodeKnown stream (hubWith "main") 1).Reach free c
      ∧ c.state.table.WaitsFor (.conn bob) (.conn alice)
      ∧ ∃ v l label, c.state.table.Holds v l ∧ label.task = some v
        ∧ ((locking clearNoise decodeKnown stream (hubWith "main") 1).step c.state label).isSome
          = true := by
  obtain ⟨c, hc, hend⟩ := Machine.exec_reach_free
    (M := locking clearNoise decodeKnown stream (hubWith "main") 1)
    (fun c => (c.state.owner (.hub "main", .sessions),
      (c.state.sections (.conn bob)).bind fun sec => sec.wanted.head?))
    (some (.conn alice), some (.hub "main", .sessions)) crowded (by decide)
  obtain ⟨howner, hwants⟩ := Prod.mk.inj hend
  obtain ⟨sec, hsec, hhead⟩ := Option.bind_eq_some_iff.mp hwants
  have hwaits : c.state.table.WaitsFor (.conn bob) (.conn alice) :=
    ⟨(.hub "main", .sessions), ⟨sec, hsec, hhead⟩, howner⟩
  exact ⟨c, hc, hwaits, (locks_deadlockFree hc).2 _ _ hwaits⟩

end

end ChatRs

import ChatRs.Server.Broadcast
import ChatRs.Server.Membership

/-!
# What the sweeper removes

The sweeper looks for stale sessions under the lock on the sessions, releases it, takes it
again and removes what it found. It does not look a second time, so a frame that comes in
between the two critical sections does not save its session. A monitor notes when the room last
heard of each session, and for every session that the sweeper removes how long that was ago:

* **`Noted`**: the session's `last_active` is not behind that time, unless the frame has been
  received and its `touch` is still to come (`noted`);
* **`World.overlooks`**: the frames that the sweeper does not see: one of a session on its list,
  and one that has not touched its session when the list is drawn up;
* **`evicts_idle_only`**: if there are none, only idle sessions are removed. What is on the list
  was idle when the sweeper looked (`idle_of_stale`) and has been since (`evicts_idle`);
* **`evicts_overlooked`**: and a session that is removed right after such a frame was not idle.
-/

namespace ChatRs

open Machine (Config Guard free)

/-! ## What is noted -/

/-- The session from which the room hears with this step. -/
def Label.hears : Label → Option Uuid
  | .act id .register => some id
  | .act id (.incoming (some (.ok _))) => some id
  | _ => none

structure Sightings where
  /-- When a session was registered, or a frame of it was received after that. -/
  heard : Uuid → Instant
  /-- The sessions that the sweeper removed, with the time since they were heard of. -/
  evicted : List (Uuid × Duration)

/-- The sessions that the sweeper removes with its next step. -/
def World.evicts (w : World) : List Uuid :=
  w.sweeping.filter fun id => (w.sessions.lastActiveOf id).isSome

def sightings : Monitor World Label Sightings where
  init := ⟨fun _ => 0, []⟩
  next w l _ s :=
    match l with
    | .sweep =>
      { s with evicted := s.evicted
                 ++ w.evicts.map fun id => (id, w.now.durationSince (s.heard id)) }
    | l =>
      match l.hears with
      | some id => { s with heard := Function.update s.heard id w.now }
      | none => s

/-- The sweeper takes away what is on its list and still there. -/
theorem mem_evicts {w : World} {id : Uuid} :
    id ∈ w.evicts ↔ id ∈ w.sweeping ∧ w.sessions.Present id := by
  rw [World.evicts, List.mem_filter, Option.isSome_iff_exists,
    UserSessionStore.present_iff_lastActive]

/-- These are the sessions that are there before the removal and not after it. -/
theorem evicts_removed {w w' : World} {evs : List Event} (h : step w .sweep = some (w', evs))
    (id : Uuid) : id ∈ w.evicts ↔ w.sessions.Present id ∧ ¬ w'.sessions.Present id := by
  rw [step] at h
  split at h
  · cases h
  · cases h
    rw [mem_evicts]
    show _ ↔ _ ∧ ¬ (w.sweeping.foldl UserSessionStore.remove w.sessions).Present id
    rw [UserSessionStore.present_removes]
    tauto

/-! ## What the checks leave alone -/

namespace UserSessionStore

@[simp] theorem timeout_touch (s : UserSessionStore) (now : Instant) (id : Uuid) :
    (s.touch now id).timeout = s.timeout := by
  unfold touch
  split <;> rfl

/-- The timeout of the sessions is set once: no check changes it. -/
theorem timeout_checkFrame {s s' : UserSessionStore} {now : Instant} {id : Uuid}
    {username : String} {f : ClientFrame} {result : Result ServerFrame}
    (h : checkFrame s now id username f = (result, s')) : s'.timeout = s.timeout := by
  have hkeeps := checkFrame_keeps timeout now id ?_ ?_ ?_ s username f
  · rw [h] at hkeeps
    exact hkeeps
  · intro s counter
    unfold tryAdvanceCounter
    split
    · split <;> rfl
    · rfl
  · intro s
    unfold tryConsumeMessageQuota
    split
    · rfl
    · dsimp only
      split <;> rfl
  · intro s
    unfold tryConsumeClear
    split
    · rfl
    · split <;> rfl

@[simp] theorem timeout_removes (s : UserSessionStore) (ids : List Uuid) :
    (ids.foldl remove s).timeout = s.timeout := by
  induction ids generalizing s with
  | nil => rfl
  | cons id ids ih => exact ih (s.remove id)

end UserSessionStore

/-! ## One step -/

/-- The timeout of the sessions is set once: no step changes it. -/
theorem Step.timeout {w w' : World} {l : Label} {evs : List Event} (h : Step w l w' evs) :
    w'.sessions.timeout = w.sessions.timeout := by
  cases h with
  | touch => exact UserSessionStore.timeout_touch ..
  | rejects id username f e sessions hat hcheck =>
    exact UserSessionStore.timeout_checkFrame hcheck
  | accepts id username f out sessions hat hcheck =>
    exact UserSessionStore.timeout_checkFrame hcheck
  | sweep => exact UserSessionStore.timeout_removes ..
  | _ => rfl

/-- The task has received a frame and has not touched its session yet. -/
def World.Touching (w : World) (id : Uuid) : Prop :=
  ∃ username f, w.tasks id = some (.live username (.touching f))

/-- That frame. -/
def World.received (w : World) (id : Uuid) : Option ClientFrame :=
  match w.tasks id with
  | some (.live _ (.touching f)) => some f
  | _ => none

theorem World.received_isSome (w : World) (id : Uuid) :
    (w.received id).isSome = true ↔ w.Touching id := by
  unfold World.received World.Touching
  split
  · rename_i username f hat
    exact iff_of_true rfl ⟨username, f, hat⟩
  · rename_i hother
    exact iff_of_false nofun fun ⟨username, f, hat⟩ => hother username f hat

instance (w : World) (id : Uuid) : Decidable (w.Touching id) :=
  decidable_of_iff _ (w.received_isSome id)

/-- A `last_active` is as it was, and its task still to touch it if it was before, or it is
written with the time of the step. -/
theorem Step.lastActive {w w' : World} {l : Label} {evs : List Event} (h : Step w l w' evs)
    {k : Uuid} {t : Instant} (hk : w'.sessions.lastActiveOf k = some t) :
    t = w.now ∨ (w.sessions.lastActiveOf k = some t ∧ (w.Touching k → w'.Touching k)) := by
  -- a step of a task that is not about to touch its session
  have moves {u : World} {id : Uuid} {phase : Phase} (hu : u.tasks = w.tasks)
      (hid : ¬ w.Touching id) (hlast : w.sessions.lastActiveOf k = some t) :
      t = w.now ∨ (w.sessions.lastActiveOf k = some t
        ∧ (w.Touching k → (u.goto id phase).Touching k)) := by
    refine .inr ⟨hlast, fun htouching => ?_⟩
    have hne : k ≠ id := by
      rintro rfl
      exact hid htouching
    unfold World.Touching
    rw [World.goto_tasks, Function.update_of_ne hne, hu]
    exact htouching
  have idle {id : Uuid} {username : String} {pc : Pc} (hat : w.tasks id = some (.live username pc))
      (hpc : ∀ f, pc ≠ .touching f) : ¬ w.Touching id := by
    rintro ⟨_, f, htouching⟩
    rw [hat] at htouching
    cases htouching
    exact hpc f rfl
  cases h with
  | early l id phase hbefore hafter hname hactor =>
    refine moves rfl ?_ hk
    rintro ⟨username, f, htouching⟩
    rw [htouching] at hbefore
    exact hbefore
  | register id username hat =>
    replace hk : (w.sessions.insert w.now id username).lastActiveOf k = some t := hk
    rw [UserSessionStore.lastActiveOf_insert] at hk
    rcases eq_or_ne k id with rfl | hne
    · rw [Function.update_self, Option.some.injEq] at hk
      exact .inl hk.symm
    · rw [Function.update_of_ne hne] at hk
      refine moves rfl ?_ hk
      rintro ⟨_, f, htouching⟩
      rw [hat] at htouching
      cases htouching
  | touch id username f hat =>
    rcases UserSessionStore.of_lastActiveOf_touch hk with ⟨_, hnow⟩ | ⟨hne, hlast⟩
    · exact .inl hnow
    · refine .inr ⟨hlast, fun htouching => ?_⟩
      unfold World.Touching
      rw [World.goto_tasks, Function.update_of_ne hne]
      exact htouching
  | rejects id username f e sessions hat hcheck =>
    have hsame := UserSessionStore.lastActiveOf_checkFrame hcheck
    exact moves rfl (idle hat nofun) (hsame ▸ hk)
  | accepts id username f out sessions hat hcheck =>
    have hsame := UserSessionStore.lastActiveOf_checkFrame hcheck
    exact moves rfl (idle hat nofun) (hsame ▸ hk)
  | cleanup id username result hat =>
    exact moves rfl (idle hat nofun) (UserSessionStore.of_lastActiveOf_remove hk)
  | sweep => exact .inr ⟨UserSessionStore.of_lastActiveOf_removes hk, fun htouching => htouching⟩
  | delivers | elapse | scan => exact .inr ⟨hk, fun htouching => htouching⟩
  | snapshot _ _ hat | welcomed _ _ _ hat | unwelcomed _ _ _ _ hat | stops _ _ _ _ hat
  | undelivered _ _ _ _ _ hat | incoming _ _ _ hat | store _ _ _ hat | collect _ _ _ _ hat
  | enqueues _ _ _ _ _ _ _ hat | refused _ _ _ _ _ _ hat | evict _ _ _ _ hat
  | leave _ _ _ hat => exact moves rfl (idle hat nofun) hk

/-- The clock of the room does not go back. -/
theorem Step.now_le {w w' : World} {l : Label} {evs : List Event} (h : Step w l w' evs) :
    w.now ≤ w'.now := by
  cases h with
  | elapse d => exact Nat.le_add_right w.now d
  | _ => exact Nat.le_refl w.now

/-- A frame that is received is not touched yet. -/
theorem step_incoming {w w' : World} {id : Uuid} {f : ClientFrame} {evs : List Event}
    (h : step w (.act id (.incoming (some (.ok f)))) = some (w', evs)) : w'.Touching id := by
  rw [step] at h
  split at h
  · rename_i phase hat
    cases phase with
    | live username pc =>
      cases pc with
      | pumping =>
        cases h
        exact ⟨username, f, Function.update_self ..⟩
      | sending _ rest _ => cases rest <;> cases h
      | _ => cases h
    | _ => cases h
  · cases h

/-! ## What is noted is what the sessions say -/

/-- What was noted of a session lies in the past, and the session says the same, or will. -/
structure Noted (w : World) (heard : Uuid → Instant) (id : Uuid) : Prop where
  past : heard id ≤ w.now
  said : ∀ t, w.sessions.lastActiveOf id = some t → heard id ≤ t ∨ w.Touching id

/-- A session from which the room did not hear. -/
theorem Noted.unheard {w w' : World} {l : Label} {evs : List Event} (h : Step w l w' evs)
    {heard : Uuid → Instant} {id : Uuid} (hnoted : Noted w heard id) : Noted w' heard id := by
  refine ⟨hnoted.past.trans h.now_le, fun t ht => ?_⟩
  rcases h.lastActive ht with rfl | ⟨hlast, htouching⟩
  · exact .inl hnoted.past
  · exact (hnoted.said t hlast).imp_right htouching

section

variable {c : Config (World × Sightings) Event}

/-- **The last sign of life.** -/
theorem noted {G : Guard (World × Sightings) Label Event}
    (h : (room.watch sightings).Reach G c) : ∀ id, Noted c.state.1 c.state.2.heard id := by
  refine Machine.Reach.watch_invariant
    (P := fun c s => ∀ id, Noted c.state s.heard id) ?_ ?_ h
  · refine fun id => ⟨Nat.le_refl 0, fun t ht => ?_⟩
    exact .inl (Nat.zero_le t)
  intro c s l w evs hreach ih _ hs id
  have hstep := step_inv hs
  -- the room hears from `k`
  have hears {k : Uuid} (hk : ∀ t, w.sessions.lastActiveOf k = some t →
      c.state.now ≤ t ∨ w.Touching k) : Noted w (Function.update s.heard k c.state.now) id := by
    rcases eq_or_ne id k with rfl | hne
    · constructor
      · rw [Function.update_self]
        exact hstep.now_le
      · rw [Function.update_self]
        exact hk
    · have hother := (ih id).unheard hstep
      constructor
      · rw [Function.update_of_ne hne]
        exact hother.past
      · rw [Function.update_of_ne hne]
        exact hother.said
  cases l with
  | act k a =>
    cases a with
    | register =>
      refine hears fun t ht => ?_
      rcases hstep.lastActive ht with rfl | ⟨hlast, _⟩
      · exact .inl (Nat.le_refl c.state.now)
      -- nobody registers twice
      · obtain ⟨username, hat, _⟩ := step_register hs
        have hpresent := (UserSessionStore.present_iff_lastActive ..).mpr ⟨t, hlast⟩
        refine absurd ?_ (present_registered hreach k hpresent)
        rw [hat]
        trivial
    | incoming r =>
      rcases r with _ | _ | f
      · exact (ih id).unheard hstep
      · exact (ih id).unheard hstep
      · exact hears fun t _ => .inr (step_incoming hs)
    | _ => exact (ih id).unheard hstep
  | _ => exact (ih id).unheard hstep

/-- So the sessions of a room are stale after `SESSION_TIMEOUT`, at every time. -/
theorem timeout_room {G : Guard World Label Event} {c : Config World Event}
    (h : room.Reach G c) : c.state.sessions.timeout = SESSION_TIMEOUT := by
  refine Reach.room_invariant ?_ ?_ h
  · rfl
  · exact fun c l w evs _ ih _ hs => hs.timeout.trans ih

end

/-! ## What the sweeper overlooks -/

/-- A step that the sweeper does not see. It draws up its list, and a frame of a session on it has
been received and has not touched the session yet; or it has its list, and a frame of a session on
it is received. -/
def World.overlooks (w : World) : Label → Bool
  | .scan => (w.sessions.stale w.now).any fun id => decide (w.Touching id)
  | .act id (.incoming (some (.ok _))) => w.evicts.any fun k => decide (k = id)
  | _ => false

/-- The sweeper overlooks nothing. -/
def OverlooksNothing : Guard (World × Sightings) Label Event :=
  fun c l => c.state.1.overlooks l = false

/-- A session the sweeper is about to remove: its task has registered, no frame of it is on its
way to the touch, and what was noted of it is longer ago than `SESSION_TIMEOUT`. -/
structure Idle (w : World) (id : Uuid) (heard : Instant) : Prop where
  registered : ¬ Unregistered (w.tasks id)
  untouched : ¬ w.Touching id
  long : SESSION_TIMEOUT < w.now.durationSince heard

/-- A step that is not the sweeper's leaves its list alone. -/
theorem Step.sweeping {w w' : World} {l : Label} {evs : List Event} (h : Step w l w' evs)
    (hscan : l ≠ .scan) (hsweep : l ≠ .sweep) : w'.sweeping = w.sweeping := by
  cases h with
  | scan => exact absurd rfl hscan
  | sweep => exact absurd rfl hsweep
  | _ => rfl

/-- Behind its checks a frame is not about to touch its session. -/
theorem afterCheck_ne_touching {out : ServerFrame} {username username' : String}
    {f : ClientFrame} : Phase.live username (afterCheck out) ≠ .live username' (.touching f) := by
  unfold afterCheck
  intro h
  cases out with
  | message m => dsimp only at h; split at h <;> cases h
  | _ => cases h

/-- Only the receipt of a frame brings a task to the touch. -/
theorem Step.touching {w w' : World} {l : Label} {evs : List Event} (h : Step w l w' evs)
    {id : Uuid} (htouching : w'.Touching id) :
    w.Touching id ∨ ∃ f, l = .act id (.incoming (some (.ok f))) := by
  -- the task that moves is not at the touch after the step
  have moves {u : World} {k : Uuid} {phase : Phase} (hu : u.tasks = w.tasks)
      (hphase : ∀ username f, phase ≠ .live username (.touching f))
      (hat : (u.goto k phase).Touching id) : w.Touching id := by
    obtain ⟨username, f, hat⟩ := hat
    rcases World.goto_at hat with ⟨_, hnext⟩ | ⟨_, hbefore⟩
    · exact absurd hnext (hphase username f)
    · rw [hu] at hbefore
      exact ⟨username, f, hbefore⟩
  cases h with
  | early l k phase hbefore hafter =>
    refine .inl (moves rfl ?_ htouching)
    rintro username f rfl
    rcases hafter with hafter | ⟨_, hafter⟩
    · exact hafter
    · cases hafter
  | incoming k username f hat =>
    rcases eq_or_ne id k with rfl | hne
    · exact .inr ⟨f, rfl⟩
    · obtain ⟨username', f', hat'⟩ := htouching
      rw [World.goto_tasks, Function.update_of_ne hne] at hat'
      exact .inl ⟨username', f', hat'⟩
  | accepts k username f out sessions =>
    exact .inl (moves rfl (fun _ _ => afterCheck_ne_touching) htouching)
  | elapse | scan | sweep | delivers => exact .inl htouching
  | _ => exact .inl (moves rfl (by simp) htouching)

/-- A session on the list that no step overlooks stays idle. -/
theorem Idle.step {w w' : World} {l : Label} {evs : List Event} (h : Step w l w' evs)
    {id : Uuid} {heard : Instant} (hidle : Idle w id heard)
    (hunheard : ∀ f, l ≠ .act id (.incoming (some (.ok f)))) : Idle w' id heard where
  registered hnew := hidle.registered (h.unregistered hnew)
  untouched htouching := by
    rcases h.touching htouching with hbefore | ⟨f, hl⟩
    · exact hidle.untouched hbefore
    · exact hunheard f hl
  long := hidle.long.trans_le (Nat.sub_le_sub_right h.now_le heard)

section

variable {c : Config (World × Sightings) Event}

/-- What is stale when the sweeper looks, and is not about to be touched, is idle. -/
theorem idle_of_stale {G : Guard World Label Event} {c : Config World Event}
    {heard : Uuid → Instant} {id : Uuid} (h : room.Reach G c) (hnoted : Noted c.state heard id)
    (hstale : id ∈ c.state.sessions.stale c.state.now) (huntouched : ¬ c.state.Touching id) :
    Idle c.state id (heard id) := by
  obtain ⟨t, hlast, hlong⟩ := UserSessionStore.mem_stale.mp hstale
  have hpresent := (UserSessionStore.present_iff_lastActive ..).mpr ⟨t, hlast⟩
  have hle : heard id ≤ t := (hnoted.said t hlast).resolve_right huntouched
  rw [timeout_room h] at hlong
  exact ⟨present_registered h id hpresent, huntouched,
    hlong.trans_le (Nat.sub_le_sub_left hle c.state.now)⟩

/-- What the room does not hear of is noted as before. -/
theorem heard_next {w w' : World} {l : Label} {s : Sightings} {id : Uuid}
    (h : l.hears ≠ some id) : (sightings.next w l w' s).heard id = s.heard id := by
  have other {k : Uuid} (hk : l.hears = some k) :
      Function.update s.heard k w.now id = s.heard id := by
    refine Function.update_of_ne ?_ ..
    rintro rfl
    exact h hk
  cases l with
  | act k a =>
    cases a with
    | register => exact other rfl
    | incoming r =>
      rcases r with _ | _ | f
      · rfl
      · rfl
      · exact other rfl
    | _ => rfl
  | _ => rfl

/-- The sessions on the sweeper's list are those of tasks that have registered. -/
theorem listed_registered {G : Guard World Label Event} {c : Config World Event}
    (h : room.Reach G c) : ∀ id ∈ c.state.sweeping, ¬ Unregistered (c.state.tasks id) := by
  refine Reach.room_invariant ?_ ?_ h
  · intro id hid
    cases hid
  intro c l w evs hreach ih _ hs id hid hnew
  have hbefore := hs.unregistered hnew
  cases hs with
  | scan =>
    obtain ⟨t, hlast, _⟩ := UserSessionStore.mem_stale.mp hid
    have hpresent := (UserSessionStore.present_iff_lastActive ..).mpr ⟨t, hlast⟩
    exact present_registered hreach id hpresent hbefore
  | sweep => cases hid
  | _ => exact ih id hid hbefore

/-- **What the sweeper is about to remove is idle.** It was when the list was drawn up, and since
then no frame of it has come in. -/
theorem evicts_idle (h : (room.watch sightings).Reach OverlooksNothing c) :
    ∀ id ∈ c.state.1.evicts, Idle c.state.1 id (c.state.2.heard id) := by
  refine Machine.Reach.invariant (M := room.watch sightings)
    (P := fun c => ∀ id ∈ c.state.1.evicts, Idle c.state.1 id (c.state.2.heard id)) ?_ ?_ h
  · intro id hid
    cases hid
  rintro d l ⟨w, seen⟩ evs hreach ih allowed hs id hid
  obtain ⟨hroom, hnoted⟩ := Machine.watch_step_iff.mp hs
  dsimp only at hroom hnoted hid ⊢
  subst hnoted
  have hstep := step_inv hroom
  obtain ⟨hlisted, hpresent⟩ := mem_evicts.mp hid
  by_cases hscan : l = .scan
  · -- the list is drawn up
    subst hscan
    have hstale : id ∈ d.state.1.sessions.stale d.state.1.now := by
      cases hstep with
      | scan => exact hlisted
      | early _ _ _ _ _ _ hactor => cases hactor
    have huntouched : ¬ d.state.1.Touching id :=
      fun h => List.any_eq_false.mp allowed id hstale (decide_eq_true h)
    exact (idle_of_stale hreach.forget (noted hreach id) hstale huntouched).step hstep (by simp)
  by_cases hsweep : l = .sweep
  · -- the list is worked off
    subst hsweep
    cases hstep with
    | sweep => cases hlisted
    | early _ _ _ _ _ _ hactor => cases hactor
  -- the list stays, and nothing new is on it
  rw [hstep.sweeping hscan hsweep] at hlisted
  -- who is on the list is registered, so it was on it before
  have hregistered := listed_registered hreach.forget id hlisted
  have hbefore : id ∈ d.state.1.evicts := by
    refine mem_evicts.mpr ⟨hlisted, (hstep.present hpresent).resolve_right ?_⟩
    exact fun hnew => hregistered hnew.1
  have hunheard : ∀ f, l ≠ .act id (.incoming (some (.ok f))) := by
    rintro f rfl
    exact List.any_eq_false.mp allowed id hbefore (decide_eq_true rfl)
  -- no frame of it comes in: the guard excludes that, and it does not register again
  have hsilent : l.hears ≠ some id := by
    intro hears
    cases l with
    | act k a =>
      cases a with
      | register =>
        cases hears
        obtain ⟨_, hat, _⟩ := step_register hroom
        exact hregistered (hat ▸ trivial)
      | incoming r =>
        rcases r with _ | _ | f
        · cases hears
        · cases hears
        · cases hears
          exact hunheard f rfl
      | _ => cases hears
    | _ => cases hears
  rw [heard_next hsilent]
  exact (ih id hbefore).step hstep hunheard

/-- **Only idle sessions are evicted.** In every run in which the sweeper overlooks no frame,
every session it removes has been without a client frame for more than `SESSION_TIMEOUT`. -/
theorem evicts_idle_only (h : (room.watch sightings).Reach OverlooksNothing c) :
    ∀ e ∈ c.state.2.evicted, SESSION_TIMEOUT < e.2 := by
  refine Machine.Reach.invariant (M := room.watch sightings)
    (P := fun c => ∀ e ∈ c.state.2.evicted, SESSION_TIMEOUT < e.2) ?_ ?_ h
  · intro e he
    cases he
  rintro d l ⟨w, seen⟩ evs hreach ih _ hs e he
  obtain ⟨_, hnoted⟩ := Machine.watch_step_iff.mp hs
  dsimp only at hnoted he
  subst hnoted
  -- only the removal writes to the list
  cases l with
  | sweep =>
    rcases List.mem_append.mp he with hpast | hnew
    · exact ih e hpast
    · obtain ⟨id, hid, rfl⟩ := List.mem_map.mp hnew
      exact (evicts_idle hreach id hid).long
  | act id a =>
    cases a with
    | incoming r => rcases r with _ | _ | f <;> exact ih e he
    | _ => exact ih e he
  | _ => exact ih e he

end

/-- A frame of a session on the list that the sweeper overlooks: if the removal comes next, the
room heard of the session in that very instant. -/
theorem evicts_overlooked {w w' w'' : World} {seen : Sightings} {id : Uuid} {f : ClientFrame}
    {evs : List Event} (hlisted : id ∈ w.evicts)
    (hs : step w (.act id (.incoming (some (.ok f)))) = some (w', evs)) :
    (id, 0) ∈ (sightings.next w' .sweep w''
      (sightings.next w (.act id (.incoming (some (.ok f)))) w' seen)).evicted := by
  have hstep := step_inv hs
  have hevicts : id ∈ w'.evicts := by
    obtain ⟨hsweeping, hpresent⟩ := mem_evicts.mp hlisted
    rw [mem_evicts, hstep.sweeping (by simp) (by simp)]
    refine ⟨hsweeping, ?_⟩
    cases hstep with
    | incoming => exact hpresent
    | early => exact hpresent
    | stops => exact hpresent
  have hnow : w'.now = w.now := by
    cases hstep with
    | incoming => rfl
    | early => rfl
    | stops => rfl
  refine List.mem_append_right _ (List.mem_map.mpr ⟨id, hevicts, ?_⟩)
  show (id, w'.now.durationSince (Function.update seen.heard id w.now id)) = (id, 0)
  rw [Function.update_self, hnow]
  exact congrArg (Prod.mk id) (Nat.sub_self w.now)

/-! ## A sweep in an idle room, and one past a frame -/

namespace Cast

/-- Alice is welcomed and then says nothing for longer than the timeout. -/
def fallsSilent : List Label :=
  arrives alice "alice" ++ isWelcomed alice ++ [.elapse (.fromSecs 3601), .scan]

/-- A frame of hers is received and touches her session. -/
def speaksUp : List Label :=
  [.act alice (.incoming (some (.ok (note alice "alice" 1 false)))), .act alice .touch]

end Cast

open Cast in
/-- Bob says something before the sweeper looks, Alice is on its list: she is removed, and what is
removed is idle. -/
theorem evicts_idle_only_silent :
    ∃ c, (room.watch sightings).Reach OverlooksNothing c
      ∧ c.state.2.evicted = [(alice, Duration.fromSecs 3601)]
      ∧ ∀ e ∈ c.state.2.evicted, SESSION_TIMEOUT < e.2 := by
  obtain ⟨c, hc, hevicted⟩ := Machine.exec_reach (M := room.watch sightings)
    (fun c l => !c.state.1.overlooks l) (fun c l hl => by simpa [OverlooksNothing] using hl)
    (fun c => c.state.2.evicted) [(alice, Duration.fromSecs 3601)]
    (arrives bob "bob" ++ isWelcomed bob ++ fallsSilent.dropLast ++
      [.act bob (.incoming (some (.ok (note bob "bob" 1 false)))), .act bob .touch, .scan, .sweep])
    (by decide)
  exact ⟨c, hc, hevicted, evicts_idle_only hc⟩

open Cast in
/-- Alice's frame comes between the two steps of the sweeper: her session is removed in the
instant in which she was heard of. -/
theorem evicts_active_session :
    ¬ ∀ c, (room.watch sightings).Reach free c →
        ∀ e ∈ c.state.2.evicted, SESSION_TIMEOUT < e.2 := by
  intro hall
  obtain ⟨c, hc, hevicted⟩ := Machine.exec_reach_free (M := room.watch sightings)
    (fun c => c.state.2.evicted) [(alice, 0)] (fallsSilent ++ speaksUp ++ [.sweep]) (by decide)
  have hlong := hall c hc (alice, 0) (hevicted ▸ List.mem_singleton_self _)
  exact absurd hlong (by decide)

end ChatRs

import ChatRs.Server.Cleanup
import ChatRs.Server.Sweeper

/-!
# A sweeper on time (`server/mod.rs`)

The ticker fires every `SWEEP_INTERVAL`, and a round takes its time: the locks have to be got, and
the other rooms come first. A monitor notes when the sweeper last looked at the room. In the runs
in which it looks once in every `period`, and removes what it found no later than `lag` after it
looked:

* **`OnTime`**: how much time may pass;
* **`Overdue`**: a session that was stale when the sweeper looked is on its list (`onTime`);
* **`session_short_lived`**: so no session outlives its last activity by more than
  `SESSION_TIMEOUT`, a period and a lag, whatever became of its connection.
-/

namespace ChatRs

open Machine (Config Guard free)

def SWEEP_INTERVAL : Duration := .fromSecs 300

/-- When the sweeper last looked. -/
def looks : Monitor World Label Instant where
  init := 0
  next w l _ looked :=
    match l with
    | .scan => w.now
    | _ => looked

/-- No time passes that would make the sweeper late. -/
def OnTime (period lag : Duration) : Guard (World × Instant) Label Event :=
  fun c l => ∀ d, l = .elapse d →
    c.state.1.now + d ≤ c.state.2 + period
      ∧ (c.state.1.sweeping ≠ [] → c.state.1.now + d ≤ c.state.2 + lag)

/-- A session that has not been active since `t` was not stale when the sweeper last looked, or it
is about to be removed and was not stale a period before. -/
def Overdue (w : World) (looked : Instant) (period : Duration) (id : Uuid) (t : Instant) : Prop :=
  looked ≤ t + SESSION_TIMEOUT ∨ (id ∈ w.sweeping ∧ looked ≤ t + SESSION_TIMEOUT + period)

/-- What holds of a sweeper that is on time. -/
structure Punctual (period lag : Duration) (w : World) (looked : Instant) : Prop where
  past : looked ≤ w.now
  due : w.now ≤ looked + period
  removes : w.sweeping ≠ [] → w.now ≤ looked + lag
  overdue : ∀ id t, w.sessions.lastActiveOf id = some t → Overdue w looked period id t

/-- A step takes no time, unless it is time that passes. -/
theorem Step.now_eq {w w' : World} {l : Label} {evs : List Event} (h : Step w l w' evs)
    (helapse : ∀ d, l ≠ .elapse d) : w'.now = w.now := by
  cases h with
  | elapse d => exact absurd rfl (helapse d)
  | _ => rfl

section

variable {period lag : Duration}

/-- What was not stale a period ago is stale now and found, or is not stale. -/
theorem overdue_of_scan {w : World} {looked t : Instant} {id : Uuid}
    (htimeout : w.sessions.timeout = SESSION_TIMEOUT) (h : Punctual period lag w looked)
    (hnone : w.sweeping = []) (ht : w.sessions.lastActiveOf id = some t) :
    Overdue { w with sweeping := w.sessions.stale w.now } w.now period id t := by
  have hbefore : looked ≤ t + SESSION_TIMEOUT := by
    refine (h.overdue id t ht).resolve_right fun hlisted => ?_
    rw [hnone] at hlisted
    exact absurd hlisted.1 List.not_mem_nil
  have hdue : w.now ≤ t + SESSION_TIMEOUT + period := calc
    w.now ≤ looked + period := h.due
    _ ≤ t + SESSION_TIMEOUT + period := Nat.add_le_add_right hbefore period
  rcases Nat.lt_or_ge SESSION_TIMEOUT (w.now - t) with hstale | hfresh
  · refine .inr ⟨UserSessionStore.mem_stale.mpr ⟨t, ht, ?_⟩, hdue⟩
    rw [htimeout]
    exact hstale
  · exact .inl (Nat.sub_le_iff_le_add'.mp hfresh)

/-- The bound. -/
theorem Punctual.short {w : World} {looked t : Instant} {id : Uuid}
    (h : Punctual period lag w looked) (ht : w.sessions.lastActiveOf id = some t) :
    w.now ≤ t + SESSION_TIMEOUT + period + lag := by
  rcases h.overdue id t ht with hfresh | ⟨hlisted, hlong⟩
  · calc w.now ≤ looked + period := h.due
      _ ≤ t + SESSION_TIMEOUT + period := Nat.add_le_add_right hfresh period
      _ ≤ t + SESSION_TIMEOUT + period + lag := Nat.le_add_right ..
  · calc w.now ≤ looked + lag := h.removes (List.ne_nil_of_mem hlisted)
      _ ≤ t + SESSION_TIMEOUT + period + lag := Nat.add_le_add_right hlong lag

variable {c : Config (World × Instant) Event}

/-- **On time.** -/
theorem punctual (h : (room.watch looks).Reach (OnTime period lag) c) :
    Punctual period lag c.state.1 c.state.2 := by
  refine Machine.Reach.watch_invariant (P := fun c looked => Punctual period lag c.state looked)
    ?_ ?_ h
  · refine ⟨Nat.le_refl 0, Nat.zero_le _, fun hnone => absurd rfl hnone, fun id t _ => ?_⟩
    exact .inl (Nat.zero_le _)
  intro c looked l w evs hreach ih hG hs
  have hstep := step_inv hs
  -- the sweeper does not look in this step
  have waits (hlooked : looks.next c.state l w looked = looked)
      (hlist : ∀ id t, id ∈ c.state.sweeping → w.sessions.lastActiveOf id = some t →
        id ∈ w.sweeping) (hshorter : w.sweeping ≠ [] → c.state.sweeping ≠ []) :
      Punctual period lag w (looks.next c.state l w looked) := by
    have hnow : w.now ≤ looked + period ∧ (w.sweeping ≠ [] → w.now ≤ looked + lag) := by
      by_cases helapse : ∃ d, l = .elapse d
      · obtain ⟨d, rfl⟩ := helapse
        cases hs
        exact hG d rfl
      · rw [hstep.now_eq fun d hd => helapse ⟨d, hd⟩]
        exact ⟨ih.due, fun hsome => ih.removes (hshorter hsome)⟩
    rw [hlooked]
    refine ⟨ih.past.trans hstep.now_le, hnow.1, hnow.2, fun id t ht => ?_⟩
    rcases hstep.lastActive ht with rfl | ⟨hlast, _⟩
    · -- active in this very instant
      exact .inl (ih.past.trans (Nat.le_add_right ..))
    · exact (ih.overdue id t hlast).imp_right fun h => ⟨hlist id t h.1 ht, h.2⟩
  have others (hscan : l ≠ .scan) (hsweep : l ≠ .sweep)
      (hlooked : looks.next c.state l w looked = looked) :
      Punctual period lag w (looks.next c.state l w looked) := by
    have hsame := hstep.sweeping hscan hsweep
    exact waits hlooked (fun id t hmem _ => hsame ▸ hmem) (hsame ▸ id)
  cases l with
  | scan =>
    simp only [room, step] at hs
    split at hs
    · rename_i hnone
      cases hs
      refine ⟨Nat.le_refl _, Nat.le_add_right .., fun _ => Nat.le_add_right .., fun id t ht => ?_⟩
      -- who is stale is on the list now, and who is not has been active since
      exact overdue_of_scan (timeout_room hreach) ih hnone ht
    · cases hs
  | sweep =>
    simp only [room, step] at hs
    split at hs
    · cases hs
    · cases hs
      -- the list is empty now
      refine waits rfl (fun id t hmem ht => ?_) fun hsome => absurd rfl hsome
      -- what is on the list has no session any more
      have hpresent : (c.state.sweeping.foldl UserSessionStore.remove c.state.sessions).Present
          id := (UserSessionStore.present_iff_lastActive ..).mpr ⟨t, ht⟩
      exact absurd hmem ((UserSessionStore.present_removes ..).mp hpresent).1
  | _ => exact others (by simp) (by simp) rfl

/-- **No session outlives its last activity by much.** In every run in which the sweeper is on
time, for a period and a lag of any length, every session in the room and every session behind a
sender has been active within `SESSION_TIMEOUT`, one period and one lag. -/
theorem session_short_lived (h : (room.watch looks).Reach (OnTime period lag) c) (id : Uuid)
    (hk : c.state.1.sessions.Present id ∨ c.state.1.connections.Connected id) :
    ∃ t, c.state.1.sessions.lastActiveOf id = some t
      ∧ c.state.1.now ≤ t + SESSION_TIMEOUT + period + lag := by
  have hpresent : c.state.1.sessions.Present id := hk.elim (fun h => h)
    (connected_present h.forget id)
  obtain ⟨t, ht⟩ := (UserSessionStore.present_iff_lastActive ..).mp hpresent
  exact ⟨t, ht, (punctual h).short ht⟩

end

/-! ## A session that its connection left behind -/

namespace Cast

/-- Alice hangs up before the Welcome, and her session stays. The sweeper comes by for an hour. -/
def leavesASession : List Label :=
  arrives alice "alice"
    ++ [.act alice .snapshot, .act alice (.sendWelcome (.error .io)), .act alice .leave]
    ++ (List.replicate 12 [.elapse SWEEP_INTERVAL, .scan]).flatten

/-- The sweeper is on time, to the second, as a test. -/
def onTime (c : Config (World × Instant) Event) : Label → Bool
  | .elapse d => c.state.1.now + d ≤ c.state.2 + SWEEP_INTERVAL
      ∧ (c.state.1.sweeping ≠ [] → c.state.1.now + d ≤ c.state.2 + Duration.fromSecs 1)
  | _ => true

theorem onTime_of_test (c : Config (World × Instant) Event) (l : Label) (h : onTime c l = true) :
    OnTime SWEEP_INTERVAL (.fromSecs 1) c l := by
  rintro d rfl
  exact of_decide_eq_true h

end Cast

open Cast in
/-- Alice's session is still there, and will not be for much longer. -/
theorem session_short_lived_alice :
    ∃ c, (room.watch looks).Reach (OnTime SWEEP_INTERVAL (.fromSecs 1)) c
      ∧ c.state.1.hasReturned alice = true ∧ c.state.1.now = Duration.fromSecs 3600
      ∧ ∃ t, c.state.1.sessions.lastActiveOf alice = some t
        ∧ c.state.1.now ≤ t + SESSION_TIMEOUT + SWEEP_INTERVAL + Duration.fromSecs 1 := by
  obtain ⟨c, hc, hend⟩ := Machine.exec_reach (M := room.watch looks) onTime onTime_of_test
    (fun c => ((c.state.1.hasReturned alice, c.state.1.now),
      c.state.1.connections.snapshot)) ((true, Duration.fromSecs 3600), [alice])
    leavesASession (by decide)
  obtain ⟨hat, hconnected⟩ := Prod.mk.inj hend
  obtain ⟨hreturned, hnow⟩ := Prod.mk.inj hat
  refine ⟨c, hc, hreturned, hnow, session_short_lived hc alice (.inr ?_)⟩
  refine (ConnectionManager.mem_snapshot ..).mp ?_
  rw [hconnected]
  exact List.mem_singleton_self alice

end ChatRs

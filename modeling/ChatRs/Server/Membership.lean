import ChatRs.Server.Relay

/-!
# Sessions and senders

Two maps say who is in the room: the sessions and the senders of the outboxes. A registration
inserts into both under one lock, the clean-up and the sweeper remove from both, a broadcast
removes a sender and leaves the session. So the second map never has a key that the first has
not (`connected_present`), at every point between two critical sections.

A session that is gone stays gone: user ids are drawn once, and no other operation of the store
writes to a session that is not there. What still comes in for it passes no check
(`Absent`).
-/

namespace ChatRs

open Machine (Config Guard free)

/-! ## Checks for a session that is not there -/

/-- No check that looks a session up succeeds for `id`. -/
structure UserSessionStore.Absent (s : UserSessionStore) (id : Uuid) : Prop where
  counter : ∀ counter, (s.tryAdvanceCounter id counter).1 = false
  quota : ∀ now, (s.tryConsumeMessageQuota now id).1 = false
  clear : ∀ now, (s.tryConsumeClear now id).1 = false

/-- A session that is not there has no counter, no quota and no cooldown. -/
theorem UserSessionStore.absent_of_not_present {s : UserSessionStore} {id : Uuid}
    (h : ¬ s.Present id) : s.Absent id := by
  have hnone : s.sessions.lookup id = none := AList.lookup_eq_none.mpr h
  constructor
  · intro counter
    simp only [tryAdvanceCounter, hnone]
  · intro now
    simp only [tryConsumeMessageQuota, hnone]
  · intro now
    simp only [tryConsumeClear, hnone]

/-- What passes the checks comes from a session that is there. -/
theorem present_of_checkFrame {sessions sessions' : UserSessionStore} {now : Instant} {id : Uuid}
    {username : String} {f : ClientFrame} {out : ServerFrame}
    (h : checkFrame sessions now id username f = (.ok out, sessions')) : sessions.Present id := by
  cases checkFrame_ok h with
  | message ad ciphertext last hfrom hname hlen hlast hlt hcounter =>
    rw [UserSessionStore.present_iff, hlast]
    exact Option.some_ne_none last
  | clear hcounter =>
    by_contra hgone
    have habsent := (UserSessionStore.absent_of_not_present hgone).clear now
    rw [checkFrame] at h
    split at h
    · cases h
    · rename_i s₁ htrue
      rw [htrue] at habsent
      cases habsent

namespace UserSessionStore

/-- What the three checks keep, `checkFrame` keeps. -/
theorem checkFrame_keeps {α : Type} (g : UserSessionStore → α) (now : Instant) (id : Uuid)
    (hadvance : ∀ (s : UserSessionStore) counter, g (s.tryAdvanceCounter id counter).2 = g s)
    (hquota : ∀ s : UserSessionStore, g (s.tryConsumeMessageQuota now id).2 = g s)
    (hclear : ∀ s : UserSessionStore, g (s.tryConsumeClear now id).2 = g s)
    (s : UserSessionStore) (username : String) (f : ClientFrame) :
    g (checkFrame s now id username f).2 = g s := by
  unfold checkFrame
  split
  · rfl
  · rfl
  · rename_i ad ciphertext
    split
    · rfl
    split
    · rfl
    split
    · rfl
    have hcounter := hadvance s ad.counter
    split
    · rename_i s₁ heq
      rw [heq] at hcounter
      exact hcounter
    · rename_i s₁ heq
      rw [heq] at hcounter
      have hwindow := hquota s₁
      split
      · rename_i s₂ heq₂
        rw [heq₂] at hwindow
        exact hwindow.trans hcounter
      · rename_i s₂ heq₂
        rw [heq₂] at hwindow
        exact hwindow.trans hcounter
  · have hcooldown := hclear s
    split
    · rename_i s₁ heq
      rw [heq] at hcooldown
      exact hcooldown
    · rename_i s₁ heq
      rw [heq] at hcooldown
      exact hcooldown

/-- The checks renew no session. -/
theorem lastActiveOf_checkFrame {s s' : UserSessionStore} {now : Instant} {id : Uuid}
    {username : String} {f : ClientFrame} {result : Result ServerFrame}
    (h : checkFrame s now id username f = (result, s')) : s'.lastActiveOf = s.lastActiveOf := by
  have hkeeps := checkFrame_keeps lastActiveOf now id (fun s => s.lastActiveOf_tryAdvanceCounter id)
    (fun s => s.lastActiveOf_tryConsumeMessageQuota now id)
    (fun s => s.lastActiveOf_tryConsumeClear now id) s username f
  rw [h] at hkeeps
  exact hkeeps

/-- The checks neither make nor remove a session. -/
theorem present_checkFrame {s s' : UserSessionStore} {now : Instant} {id : Uuid}
    {username : String} {f : ClientFrame} {result : Result ServerFrame}
    (h : checkFrame s now id username f = (result, s')) (k : Uuid) :
    s'.Present k ↔ s.Present k := by
  rw [present_iff_lastActive, present_iff_lastActive, lastActiveOf_checkFrame h]

end UserSessionStore

/-! ## What a step does to the sessions -/

/-- A session was there before, or is that of a task that registers with this step. -/
theorem Step.present {w w' : World} {l : Label} {evs : List Event} (h : Step w l w' evs)
    {k : Uuid} (hk : w'.sessions.Present k) :
    w.sessions.Present k
      ∨ (Unregistered (w.tasks k)
        ∧ ∃ username, w'.tasks k = some (.live username .snapshotting)) := by
  cases h with
  | register id username hat =>
    rcases (UserSessionStore.present_insert ..).mp hk with rfl | hk
    · exact .inr ⟨hat ▸ trivial, username, Function.update_self ..⟩
    · exact .inl hk
  | touch => exact .inl ((UserSessionStore.present_touch ..).mp hk)
  | rejects id username f e sessions hat hcheck =>
    exact .inl ((UserSessionStore.present_checkFrame hcheck k).mp hk)
  | accepts id username f out sessions hat hcheck =>
    exact .inl ((UserSessionStore.present_checkFrame hcheck k).mp hk)
  | cleanup => exact .inl ((UserSessionStore.present_remove ..).mp hk).2
  | sweep => exact .inl ((UserSessionStore.present_removes ..).mp hk).2
  | _ => exact .inl hk

section

variable {G : Guard World Label Event} {c c' : Config World Event}

/-- **Every sender belongs to a session.** -/
theorem connected_present (h : room.Reach G c) :
    ∀ id, c.state.connections.Connected id → c.state.sessions.Present id := by
  refine Reach.room_invariant ?_ ?_ h
  · exact fun id hk => absurd hk (ConnectionManager.not_connected_new id)
  intro c l w evs _ ih _ hs k hk
  cases hs with
  | register id username hat =>
    apply (UserSessionStore.present_insert ..).mpr
    exact ((ConnectionManager.connected_insert ..).mp hk).imp_right (ih k)
  | touch => exact (UserSessionStore.present_touch ..).mpr (ih k hk)
  | rejects id username f e sessions hat hcheck =>
    exact (UserSessionStore.present_checkFrame hcheck k).mpr (ih k hk)
  | accepts id username f out sessions hat hcheck =>
    exact (UserSessionStore.present_checkFrame hcheck k).mpr (ih k hk)
  | evict => exact ih k ((ConnectionManager.connected_removeAll ..).mp hk).2
  | cleanup =>
    obtain ⟨hne, hk⟩ := (ConnectionManager.connected_remove ..).mp hk
    exact (UserSessionStore.present_remove ..).mpr ⟨hne, ih k hk⟩
  | sweep =>
    obtain ⟨hkept, hk⟩ := (ConnectionManager.connected_removeAll ..).mp hk
    exact (UserSessionStore.present_removes ..).mpr ⟨hkept, ih k hk⟩
  | _ => exact ih k hk

/-- A session in the store is that of a task that has registered. -/
theorem present_registered (h : room.Reach G c) :
    ∀ id, c.state.sessions.Present id → ¬ Unregistered (c.state.tasks id) := by
  refine Reach.room_invariant ?_ ?_ h
  · intro id hk
    exact absurd (UserSessionStore.counterOf_new ..) ((UserSessionStore.present_iff ..).mp hk)
  intro c l w evs _ ih _ hs k hk hnew
  rcases hs.present hk with hbefore | ⟨_, username, hat⟩
  · exact ih k hbefore (hs.unregistered hnew)
  · rw [hat] at hnew
    exact hnew

/-! ## A session that is gone -/

/-- The task of `id` has registered, and its session has been removed. -/
structure World.Gone (w : World) (id : Uuid) : Prop where
  registered : ¬ Unregistered (w.tasks id)
  removed : ¬ w.sessions.Present id

/-- Nothing brings the session back, and nothing of it is accepted. -/
theorem Step.gone {w w' : World} {l : Label} {evs : List Event} (h : Step w l w' evs) {id : Uuid}
    (hgone : w.Gone id) : w'.Gone id ∧ byOrigin id (acceptedIn evs) = [] := by
  refine ⟨⟨fun hnew => hgone.registered (h.unregistered hnew), fun hk => ?_⟩, ?_⟩
  · rcases h.present hk with hbefore | ⟨hnew, _⟩
    · exact hgone.removed hbefore
    · exact hgone.registered hnew
  · cases h with
    | accepts k username f out sessions hat hcheck =>
      have hne : id ≠ k := by
        rintro rfl
        exact hgone.removed (present_of_checkFrame hcheck)
      exact byOrigin_other out (checkFrame_ok hcheck).origin hne
    | _ => rfl

/-- **A session that is gone stays gone**, in the rest of every run. -/
theorem gone_later (hrun : room.Run G c c') {id : Uuid} (hgone : c.state.Gone id) :
    c'.state.Gone id
      ∧ byOrigin id (acceptedIn c'.past) = byOrigin id (acceptedIn c.past) := by
  refine Run.room_invariant (P := fun d => d.state.Gone id
    ∧ byOrigin id (acceptedIn d.past) = byOrigin id (acceptedIn c.past)) hrun ⟨hgone, rfl⟩ ?_
  rintro d l w evs _ ⟨hd, hsame⟩ _ hs
  obtain ⟨hnext, hnone⟩ := hs.gone hd
  refine ⟨hnext, ?_⟩
  rw [acceptedIn_append, byOrigin_append, hnone, List.append_nil, hsame]

/-- **Who is in the room.** In every reachable state each key of the senders is a key of the
sessions. And once a session that was there has been removed, it is not there at any later
point, no check on its counter, its quota or its clears succeeds, and no frame of it is
accepted any more. -/
theorem membership (h : room.Reach free c) :
    (∀ id, c.state.connections.Connected id → c.state.sessions.Present id)
      ∧ ∀ id, c.state.sessions.Present id → ∀ c₁, room.Run free c c₁ →
          ¬ c₁.state.sessions.Present id → ∀ c₂, room.Run free c₁ c₂ →
          ¬ c₂.state.sessions.Present id ∧ c₂.state.sessions.Absent id
            ∧ byOrigin id (acceptedIn c₂.past) = byOrigin id (acceptedIn c₁.past) := by
  refine ⟨connected_present h, fun id hpresent c₁ hrun₁ hremoved c₂ hrun₂ => ?_⟩
  have hregistered : ¬ Unregistered (c₁.state.tasks id) := by
    refine Run.room_invariant (P := fun d => ¬ Unregistered (d.state.tasks id)) hrun₁
      (present_registered h id hpresent) ?_
    exact fun d l w evs _ hd _ hs hnew => hd (hs.unregistered hnew)
  obtain ⟨hgone, hsame⟩ := gone_later hrun₂ ⟨hregistered, hremoved⟩
  exact ⟨hgone.removed, UserSessionStore.absent_of_not_present hgone.removed, hsame⟩

end

open Cast in
/-- The sweeper removes Alice, and she still has something to say. -/
theorem membership_swept :
    ∃ c₁ c₂, room.Run free c₁ c₂ ∧ c₁.state.sessions.counterOf alice = none
      ∧ acceptedIn c₂.past = [] ∧ ¬ c₂.state.sessions.Present alice
      ∧ c₂.state.sessions.Absent alice := by
  obtain ⟨c, c₁, hc, hc₁, hpresent, hat⟩ := Machine.exec_then (M := room)
    (fun _ _ => true) (fun _ _ => true) (arrives alice "alice" ++ isWelcomed alice)
    [.elapse (.fromSecs 3601), .scan, .sweep]
    (fun c => c.state.sessions.counterOf alice) (some 0)
    (fun c => (c.state.sessions.counterOf alice,
      (room.exec (fun _ _ => true) c (sends alice (note alice "alice" 1 false))).map
        fun c => acceptedIn c.past))
    (none, some []) (by decide)
  obtain ⟨hremoved, hlater⟩ := Prod.mk.inj hat
  obtain ⟨c₂, hc₂, haccepted⟩ := Option.map_eq_some_iff.mp hlater
  have hreach : room.Reach free c := Machine.exec_run (fun _ _ _ => trivial) hc
  have hrun : room.Run free c₁ c₂ := Machine.exec_run (fun _ _ _ => trivial) hc₂
  have hbefore : c.state.sessions.Present alice := by
    rw [UserSessionStore.present_iff, hpresent]
    decide
  have hafter : ¬ c₁.state.sessions.Present alice := by
    rw [UserSessionStore.present_iff, hremoved]
    decide
  obtain ⟨hgone, habsent, _⟩ := (membership hreach).2 alice hbefore c₁
    (Machine.exec_run (fun _ _ _ => trivial) hc₁) hafter c₂ hrun
  exact ⟨c₁, c₂, hrun, hremoved, haccepted, hgone, habsent⟩

end ChatRs

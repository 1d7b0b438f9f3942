import ChatRs.Server.Relay

/-!
# The join-replay history

The history is the window of the last `HISTORY_LEN` messages stored since the last clear, at
every moment and in particular when a joiner takes its snapshot. What is stored is known from
the streams: of each sender everything that passed the checks and is not ephemeral, once and in
order. What passes the checks is spelled out as `Passes`.
-/

namespace ChatRs

open Machine (Config Guard)

/-- What storing a frame does to the history: a push (`some`) or a wipe (`none`). -/
def ServerFrame.historyOp : ServerFrame → Option (Option RoomMessage)
  | .message m => some (some m)
  | .cleared _ _ => some none
  | _ => none

def historyOps (past : List Event) : List (Option RoomMessage) :=
  (storedIn past).filterMap ServerFrame.historyOp

theorem historyOps_append (past evs : List Event) :
    historyOps (past ++ evs) = historyOps past ++ historyOps evs := by
  rw [historyOps, storedIn_append, List.filterMap_append]
  rfl

/-- Storing a frame is an operation on the ring: a push, or a wipe. -/
theorem store_history (s : MessageStore) (f : ServerFrame) :
    (s.store f).history
      = ([f].filterMap ServerFrame.historyOp).foldl (Ring.act HISTORY_LEN) s.history := by
  cases f <;> rfl

/-- A step changes the history only by storing a frame. -/
theorem Step.history {w w' : World} {l : Label} {evs : List Event} (h : Step w l w' evs) :
    w'.messages.history
      = (historyOps evs).foldl (Ring.act HISTORY_LEN) w.messages.history := by
  cases h with
  | store id username f hat => exact store_history w.messages f
  | _ => rfl

/-- The pushes are the messages that were stored. -/
theorem reduceOption_historyOps (past : List Event) :
    (historyOps past).reduceOption = messagesOf (storedIn past) := by
  rw [historyOps, List.reduceOption, List.filterMap_filterMap, messagesOf]
  refine List.filterMap_congr fun f _ => ?_
  cases f <;> rfl

section

variable {G : Guard World Label Event} {c : Config World Event}

/-- **The history is a window**: the last `HISTORY_LEN` of the messages stored since the last
clear. -/
theorem history_window (h : room.Reach G c) :
    c.state.messages.history = (Ring.sinceWipe (historyOps c.past)).rtake HISTORY_LEN := by
  have hcap : 0 < HISTORY_LEN := by decide
  rw [← Ring.foldl_act hcap]
  refine Reach.room_invariant (P := fun c => c.state.messages.history
    = (historyOps c.past).foldl (Ring.act HISTORY_LEN) []) rfl ?_ h
  intro c l w evs _ ih _ hs
  rw [hs.history, historyOps_append, List.foldl_append, ih]

/-- The history holds stored messages, in the order in which they were stored. -/
theorem history_sublist (h : room.Reach G c) :
    c.state.messages.history.Sublist (messagesOf (storedIn c.past)) := by
  rw [history_window h, ← reduceOption_historyOps]
  exact (List.drop_sublist _ _).trans (Ring.sinceWipe_sublist _)

/-- A stored frame is not an ephemeral message. -/
theorem stored_lasting (h : room.Reach G c) : ∀ f ∈ storedIn c.past, f.lasting = true := by
  intro f hf
  obtain ⟨id, horigin⟩ := accepted_origin h f (accepted_of_stored h f hf)
  have hmem : f ∈ (byOrigin id (acceptedIn c.past)).filter ServerFrame.lasting := by
    rw [← stream_to_history h id]
    exact List.mem_append_left _ (mem_byOrigin.mpr ⟨hf, horigin⟩)
  exact (List.mem_filter.mp hmem).2

/-- A joiner is shown the window at the moment of its snapshot. -/
theorem snapshot_window (h : room.Reach G c) :
    ∀ id history, .snapshotted id history ∈ c.past →
      ∃ before, before ++ [.snapshotted id history] <+: c.past
        ∧ history = (Ring.sinceWipe (historyOps before)).rtake HISTORY_LEN := by
  refine Reach.room_invariant ?_ ?_ h
  · intro id history hmem
    cases hmem
  intro c l w evs hreach ih _ hs id history hmem
  rcases List.mem_append.mp hmem with hpast | hnew
  · obtain ⟨before, hprefix, hwindow⟩ := ih id history hpast
    exact ⟨before, hprefix.trans (List.prefix_append _ _), hwindow⟩
  obtain ⟨rfl, rfl⟩ := hs.of_snapshotted hnew
  exact ⟨c.past, List.prefix_refl _, history_window hreach⟩

end

/-! ## What passes the checks -/

/-- All checks of `handle_client_frame` on a message, in a room `w` where its session has the
name `username`. -/
structure Passes (w : World) (id : Uuid) (username : String) (ad : MessageAd)
    (ciphertext : List UInt8) : Prop where
  sender : ad.fromId = id
  name : ad.username = username
  size : ciphertext.length ≤ MAX_CIPHERTEXT_LEN
  counter : ∃ last, w.sessions.counterOf id = some last ∧ last < ad.counter
  quota : (w.sessions.tryConsumeMessageQuota w.now id).1 = true

/-- **The checks accept exactly what passes all of them**, and hand on that very message. -/
theorem checkFrame_message_ok (w : World) (id : Uuid) (username : String) (ad : MessageAd)
    (ciphertext : List UInt8) (out : ServerFrame) :
    (checkFrame w.sessions w.now id username (.message ad ciphertext)).1 = .ok out
      ↔ Passes w id username ad ciphertext
        ∧ out = .message { fromId := id, username := username, ad := ad,
                           ciphertext := ciphertext } := by
  constructor
  · intro h
    rw [checkFrame] at h
    split at h
    · cases h
    · rename_i hfrom
      split at h
      · cases h
      · rename_i hname
        split at h
        · cases h
        · rename_i hlen
          split at h
          · cases h
          · rename_i s₁ hadvance
            have hcounter := (UserSessionStore.tryAdvanceCounter_fst ..).mp
              (congrArg Prod.fst hadvance)
            have hsame := UserSessionStore.quota_of_advance hadvance w.now
            split at h
            · cases h
            · rename_i s₂ hquota
              rw [hquota] at hsame
              cases h
              exact ⟨⟨not_not.mp hfrom, not_not.mp hname, Nat.le_of_not_lt hlen, hcounter,
                hsame.symm⟩, rfl⟩
  · rintro ⟨⟨hfrom, hname, hlen, hcounter, hquota⟩, rfl⟩
    have hadvance : w.sessions.tryAdvanceCounter id ad.counter
        = (true, (w.sessions.tryAdvanceCounter id ad.counter).2) :=
      Prod.ext ((UserSessionStore.tryAdvanceCounter_fst ..).mpr hcounter) rfl
    have hconsume : (w.sessions.tryAdvanceCounter id ad.counter).2.tryConsumeMessageQuota w.now id
        = (true, ((w.sessions.tryAdvanceCounter id ad.counter).2.tryConsumeMessageQuota
            w.now id).2) :=
      Prod.ext ((UserSessionStore.quota_of_advance hadvance w.now).trans hquota) rfl
    rw [checkFrame, if_neg (not_not.mpr hfrom), if_neg (not_not.mpr hname),
      if_neg (Nat.not_lt.mpr hlen), hadvance]
    simp only
    rw [hconsume]

/-- A step accepts a message exactly if it is the check of that message, in the handler of its
sender, and the message passes. -/
theorem step_accepts_iff {w w' : World} {l : Label} {evs : List Event}
    (hs : step w l = some (w', evs)) (m : RoomMessage) :
    .accepted (.message m) ∈ evs ↔
      l = .act m.fromId .check
        ∧ w.tasks m.fromId = some (.live m.username (.checking (.message m.ad m.ciphertext)))
        ∧ Passes w m.fromId m.username m.ad m.ciphertext := by
  constructor
  · intro hmem
    cases step_inv hs with
    | accepts id username f out sessions hat hcheck =>
      cases List.mem_singleton.mp hmem
      cases checkFrame_ok hcheck with
      | message ad ciphertext =>
        have hfst := congrArg Prod.fst hcheck
        exact ⟨rfl, hat, ((checkFrame_message_ok ..).mp hfst).1⟩
    -- the other events are no acceptance
    | register | snapshot | delivers | incoming | store | enqueues =>
      cases List.mem_singleton.mp hmem
    | _ => cases hmem
  · rintro ⟨rfl, hat, hpasses⟩
    have hok := (checkFrame_message_ok w m.fromId m.username m.ad m.ciphertext _).mpr
      ⟨hpasses, rfl⟩
    simp only [step, hat, actStep, liveStep] at hs
    split at hs
    · rename_i e sessions hcheck
      rw [hcheck] at hok
      cases hok
    · rename_i out sessions hcheck
      rw [hcheck] at hok
      cases hok
      cases hs
      exact List.mem_singleton_self _

/-! ## The refinement -/

/-- **Join-replay history is exact.** In every run: the history, and every history a joiner is
welcomed with, is the window of the last `HISTORY_LEN` messages stored since the last clear;
of each sender exactly the accepted messages that are not ephemeral are stored, once and in
order, but for the one that its handler is about to store; and a message is accepted exactly
when its handler checks it and it passes all checks. -/
theorem history_exact {c : Config World Event} (h : room.Reach Machine.free c) :
    c.state.messages.history = (Ring.sinceWipe (historyOps c.past)).rtake HISTORY_LEN
      ∧ (∀ id username history, c.state.tasks id = some (.live username (.welcoming history)) →
          ∃ before, before ++ [.snapshotted id history] <+: c.past
            ∧ history = (Ring.sinceWipe (historyOps before)).rtake HISTORY_LEN)
      ∧ (∀ id, byOrigin id (storedIn c.past) ++ (c.state.flight id).toStore
          = (byOrigin id (acceptedIn c.past)).filter ServerFrame.lasting)
      ∧ (∀ m ∈ c.state.messages.history,
          .message m ∈ acceptedIn c.past ∧ m.ad.ephemeral = false)
      ∧ ∀ l w evs, step c.state l = some (w, evs) → ∀ m, .accepted (.message m) ∈ evs ↔
          l = .act m.fromId .check
            ∧ c.state.tasks m.fromId
                = some (.live m.username (.checking (.message m.ad m.ciphertext)))
            ∧ Passes c.state m.fromId m.username m.ad m.ciphertext := by
  refine ⟨history_window h, fun id username history hat => ?_, stream_to_history h,
    fun m hm => ?_, fun l w evs hs m => step_accepts_iff hs m⟩
  · exact snapshot_window h id history (standing h id _ hat).2
  · have hstored := mem_messagesOf.mp ((history_sublist h).subset hm)
    have hlasting : (! m.ad.ephemeral) = true := stored_lasting h _ hstored
    exact ⟨accepted_of_stored h _ hstored, by simpa using hlasting⟩

open Cast in
/-- Alice sends a message and a secret one; the history holds the first. -/
theorem history_exact_secret :
    ∃ c, room.Reach Machine.free c
      ∧ c.state.messages.history = [relayed alice "alice" 1 false]
      ∧ c.state.messages.history = (Ring.sinceWipe (historyOps c.past)).rtake HISTORY_LEN := by
  obtain ⟨c, hc, hhistory⟩ := Machine.exec_reach_free (M := room)
    (fun c => c.state.messages.history) [relayed alice "alice" 1 false]
    (arrives alice "alice" ++ isWelcomed alice
      ++ sends alice (note alice "alice" 1 false) ++ [.act alice .store] ++ broadcasts alice [alice]
      ++ sends alice (note alice "alice" 2 true) ++ broadcasts alice [alice]) (by decide)
  exact ⟨c, hc, hhistory, (history_exact hc).1⟩

end ChatRs

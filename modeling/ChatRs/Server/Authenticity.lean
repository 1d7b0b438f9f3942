import ChatRs.Server.History

/-!
# Authenticity and order of everything the room hands out

The history, the histories of the Welcomes and the streams of the outboxes hold accepted
messages only, and the messages of one sender stand in them in the order in which they were
accepted. Each of these lists is free of repetitions for itself. Together they are not: a
message that was stored before a joiner registers and broadcast after is handed to the joiner
in its history and in its outbox, which is why the client seeds its replay filter from the
history.
-/

namespace ChatRs

open Machine (Config Guard)

/-- Messages that carry the identity of their session, in the order of its counters. -/
structure Authentic (past : List Event) (xs : List RoomMessage) : Prop where
  relayed : ∀ m ∈ xs, Relayed past m
  ordered : HighWater.ReplayFree RoomMessage.fromId RoomMessage.count xs

theorem Authentic.mono {past : List Event} {xs : List RoomMessage} (h : Authentic past xs)
    (evs : List Event) : Authentic (past ++ evs) xs :=
  ⟨fun m hm => (h.relayed m hm).mono evs, h.ordered⟩

section

variable {G : Guard World Label Event} {c : Config World Event}

/-- Frames whose stream of each sender is part of what was accepted of that sender. -/
theorem authentic_of_streams (h : room.Reach G c) {fs : List ServerFrame}
    (hmem : ∀ f ∈ fs, f ∈ acceptedIn c.past)
    (hstream : ∀ id, (byOrigin id fs).Sublist (byOrigin id (acceptedIn c.past))) :
    Authentic c.past (messagesOf fs) := by
  refine ⟨fun m hm => ?_, (HighWater.replayFree_iff _).mpr ?_⟩
  · exact accepted_relayed h m (mem_messagesOf.mpr (hmem _ (mem_messagesOf.mp hm)))
  · refine (counted h).increasing.of_filter_sublist fun id => ?_
    rw [← messagesOf_byOrigin, ← messagesOf_byOrigin]
    exact (hstream id).filterMap _

theorem Authentic.sublist {past : List Event} {xs ys : List RoomMessage}
    (h : Authentic past ys) (hsub : xs.Sublist ys) : Authentic past xs := by
  refine ⟨fun m hm => h.relayed m (hsub.subset hm), (HighWater.replayFree_iff _).mpr ?_⟩
  exact h.ordered.2.sublist hsub

theorem outbox_authentic (h : room.Reach G c) (peer : Uuid) :
    Authentic c.past (messagesOf (enqueuedTo peer c.past)) := by
  refine authentic_of_streams h (accepted_of_enqueued h peer) fun id => ?_
  exact (List.sublist_append_left _ _).trans (stream_to_peer h id peer)

/-- **The history is authentic**: a message in it carries the identity of its session. -/
theorem history_authentic (h : room.Reach G c) :
    Authentic c.past c.state.messages.history := by
  refine (authentic_of_streams h (accepted_of_stored h) fun id => ?_).sublist (history_sublist h)
  have hstream := stream_to_history h id
  have hleft : (byOrigin id (storedIn c.past)).Sublist
      ((byOrigin id (acceptedIn c.past)).filter ServerFrame.lasting) := by
    rw [← hstream]
    exact List.sublist_append_left _ _
  exact hleft.trans List.filter_sublist

/-- The history that goes out with a Welcome is authentic. -/
theorem welcome_authentic (h : room.Reach G c) :
    ∀ id history, .snapshotted id history ∈ c.past → Authentic c.past history := by
  refine Reach.room_invariant ?_ ?_ h
  · intro id history hmem
    cases hmem
  intro c l w evs hreach ih _ hs id history hmem
  show Authentic (c.past ++ evs) history
  rcases List.mem_append.mp hmem with hpast | hnew
  · exact (ih id history hpast).mono evs
  rw [(hs.of_snapshotted hnew).2]
  exact (history_authentic hreach).mono evs

/-- A session is registered once, under one name. -/
theorem registered_once (h : room.Reach G c) :
    ∀ id name, .registered id name ∈ c.past →
      ¬ Unregistered (c.state.tasks id)
        ∧ ∀ other, .registered id other ∈ c.past → other = name := by
  refine Reach.room_invariant ?_ ?_ h
  · intro id name hmem
    cases hmem
  intro c l w evs hreach ih _ hs id name hmem
  rcases List.mem_append.mp hmem with hpast | hnew
  · obtain ⟨hregistered, honce⟩ := ih id name hpast
    refine ⟨fun hk => hregistered (hs.unregistered hk), fun other hother => ?_⟩
    rcases List.mem_append.mp hother with hother | hother
    · exact honce other hother
    · exact absurd (hs.of_registered hother).2.1 hregistered
  · obtain ⟨hevs, hfresh, hregistered⟩ := hs.of_registered hnew
    refine ⟨hregistered, fun other hother => ?_⟩
    rcases List.mem_append.mp hother with hother | hother
    · exact absurd hfresh (ih id other hother).1
    · rw [hevs] at hother
      cases List.mem_singleton.mp hother
      rfl

/-- **Authenticity and order.** In every run the history, every history a joiner is welcomed
with and every stream of frames enqueued to an outbox hold messages of the session that sent
them only, under the one name it registered, each message once and those of one sender in the
order of their counters. -/
theorem relay_authentic {c : Config World Event} (h : room.Reach Machine.free c) :
    Authentic c.past c.state.messages.history
      ∧ (∀ id history, .snapshotted id history ∈ c.past → Authentic c.past history)
      ∧ (∀ peer, Authentic c.past (messagesOf (enqueuedTo peer c.past)))
      ∧ ∀ id name name', .registered id name ∈ c.past → .registered id name' ∈ c.past →
          name' = name :=
  ⟨history_authentic h, welcome_authentic h, outbox_authentic h,
    fun id name name' hname hname' => (registered_once h id name hname).2 name' hname'⟩

end

open Cast in
/-- Bob joins while Alice speaks: what both of them are handed is authentic. -/
theorem relay_authentic_join :
    ∃ c, room.Reach Machine.free c
      ∧ messagesOf (enqueuedTo bob c.past) = [relayed alice "alice" 1 false]
      ∧ Authentic c.past (messagesOf (enqueuedTo bob c.past)) := by
  obtain ⟨c, hc, henqueued⟩ := Machine.exec_reach_free (M := room)
    (fun c => messagesOf (enqueuedTo bob c.past)) [relayed alice "alice" 1 false]
    (arrives alice "alice" ++ isWelcomed alice ++ sends alice (note alice "alice" 1 false)
      ++ [.act alice .store] ++ arrives bob "bob" ++ broadcasts alice [bob, alice]) (by decide)
  exact ⟨c, hc, henqueued, (relay_authentic hc).2.2.1 bob⟩

/-! ## What one client is handed -/

/-- The history a client is welcomed with, and the messages enqueued for it. -/
def handedTo (id : Uuid) (past : List Event) : List RoomMessage :=
  (past.flatMap fun e => match e with
    | .snapshotted k history => if k = id then history else []
    | _ => []) ++ messagesOf (enqueuedTo id past)

open Cast in
/-- Bob joins between the storing and the broadcast of a message, and is handed it twice. -/
theorem handed_twice :
    ¬ ∀ c, room.Reach Machine.free c → ∀ id,
        ((handedTo id c.past).map fun m => (m.fromId, m.ad.counter)).Nodup := by
  intro hnodup
  obtain ⟨c, hc, hhanded⟩ := Machine.exec_reach_free (M := room)
    (fun c => (handedTo bob c.past).map fun m => (m.fromId, m.ad.counter))
    [(alice, 1), (alice, 1)]
    (arrives alice "alice" ++ isWelcomed alice ++ sends alice (note alice "alice" 1 false)
      ++ [.act alice .store] ++ arrives bob "bob" ++ broadcasts alice [bob, alice]
      ++ isWelcomed bob) (by decide)
  have hbob := hnodup c hc bob
  rw [hhanded] at hbob
  exact absurd hbob (by decide)

end ChatRs

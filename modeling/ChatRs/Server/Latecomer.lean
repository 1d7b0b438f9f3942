import ChatRs.Server.Broadcast
import ChatRs.Server.Join

/-!
# Who comes after an ephemeral message (`server/mod.rs`)

"Ephemeral messages are broadcast but never enter the join-replay history — late joiners must not
see them." A message is offered to the senders that its handler finds in the snapshot, and the
snapshot is taken some time after the message was accepted, so late is who registers after the
snapshot. The plan:

* **`passed_by`**: what no handler is still to offer to a peer never gets into its outbox;
* **`ephemeral_passes_by`**: for an ephemeral message there is no other way, whatever the joiner,
  its client and everybody else do from then on.
-/

namespace ChatRs

open Machine (Config Guard free)

/-- A handler has this frame in hand and has not looked yet whom to send it to. -/
def World.AboutToOffer (w : World) (f : ServerFrame) : Prop :=
  ∃ k, w.flight k = .storing f ∨ w.flight k = .collecting f

section

variable {c c' : Config World Event}

/-- What no handler is still to offer to a peer, and was accepted, does not get into its outbox any
more. -/
theorem passed_by (h : room.Reach free c) (hrun : room.Run free c c') {peer : Uuid}
    {m : RoomMessage} (hm : m ∈ messagesOf (acceptedIn c.past))
    (hpending : ∀ k, .message m ∉ (c.state.flight k).pending peer)
    (hnone : .message m ∉ enqueuedTo peer c.past) :
    (∀ k, .message m ∉ (c'.state.flight k).pending peer)
      ∧ .message m ∉ enqueuedTo peer c'.past := by
  refine Machine.Run.invariant (P := fun d => (∀ k, .message m ∉ (d.state.flight k).pending peer)
    ∧ .message m ∉ enqueuedTo peer d.past) hrun ⟨hpending, hnone⟩ ?_
  intro d l w evs hd ⟨ihpending, ihnone⟩ _ hs
  have hflow := (step_inv hs).flow
  have hnext : room.Reach free ⟨d.past ++ evs, w⟩ := (h.trans hd).tail (.mk l w evs trivial hs)
  constructor
  · intro k hk
    rcases hflow.pending hk with hbefore | hagain
    · exact ihpending k hbefore
    · exact accepted_once hnext (messagesOf_accepted_mono hd hm) hagain
  · intro hx
    replace hx : .message m ∈ enqueuedTo peer d.past ++ enqueuedTo peer evs :=
      enqueuedTo_append .. ▸ hx
    rcases List.mem_append.mp hx with hpast | hnew
    · exact ihnone hpast
    · obtain ⟨k, _, hk⟩ := hflow.enqueued hnew
      exact ihpending k hk

/-- A broadcast that has taken its snapshot passes by who has not registered. -/
theorem not_pending_of_unregistered (h : room.Reach free c) {peer : Uuid} {f : ServerFrame}
    (hnew : Unregistered (c.state.tasks peer)) (hlooked : ¬ c.state.AboutToOffer f) (k : Uuid) :
    f ∉ (c.state.flight k).pending peer := by
  intro hk
  cases hat : c.state.flight k with
  | idle =>
    rw [hat, Flight.pending_idle] at hk
    cases hk
  | storing g =>
    rw [hat] at hk
    rw [List.mem_singleton.mp hk] at hlooked
    exact hlooked ⟨k, .inl hat⟩
  | collecting g =>
    rw [hat] at hk
    rw [List.mem_singleton.mp hk] at hlooked
    exact hlooked ⟨k, .inr hat⟩
  | sending g rest =>
    have hrest : peer ∉ rest := fun hmem => offering_registered h k peer g rest hat hmem hnew
    rw [hat] at hk
    replace hk : f ∈ if peer ∈ rest then [g] else [] := hk
    rw [if_neg hrest] at hk
    cases hk

/-- No joiner is welcomed with an ephemeral message. -/
theorem snapshotted_lasting (h : room.Reach free c) :
    ∀ id history, .snapshotted id history ∈ c.past → ∀ m ∈ history, m.ad.ephemeral = false := by
  refine Reach.room_invariant ?_ ?_ h
  · intro id history hmem
    cases hmem
  intro c l w evs hreach ih _ hs id history hmem m hm
  rcases List.mem_append.mp hmem with hpast | hnew
  · exact ih id history hpast m hm
  rw [(hs.of_snapshotted hnew).2] at hm
  have hstored := mem_messagesOf.mp ((history_sublist hreach).subset hm)
  have hlasting : (! m.ad.ephemeral) = true := stored_lasting hreach _ hstored
  simpa using hlasting

/-- **Ephemeral messages pass late joiners by.** An ephemeral message was accepted, and its handler
has taken its snapshot of the senders, when a connection has not registered yet. Then in whatever
run follows, the message is not in the history that the joiner is welcomed with, is never put into
its outbox or sent to it, and no client that is welcomed with that history and hears any part of
what is sent to it ever displays it. -/
theorem ephemeral_passes_by (h : room.Reach free c) (hrun : room.Run free c c') {id : Uuid}
    {m : RoomMessage} (hephemeral : m.ad.ephemeral = true)
    (hm : .message m ∈ acceptedIn c.past) (hnew : Unregistered (c.state.tasks id))
    (hlooked : ¬ c.state.AboutToOffer (.message m)) :
    (∀ history, .snapshotted id history ∈ c'.past → m ∉ history)
      ∧ .message m ∉ enqueuedTo id c'.past
      ∧ .message m ∉ deliveredTo id c'.past
      ∧ ∀ (aead : Aead) (roomKey : Key) (username roomName : String) (history : List Received)
          (frames : List (Clock × ServerFrame)),
          .snapshotted id (history.map Prod.snd) ∈ c'.past →
          frames.map Prod.snd <+: deliveredTo id c'.past →
          ∀ clock, (clock, m) ∉ received
            (sessionLog aead roomKey username id roomName history frames) := by
  have hreach : room.Reach free c' := h.trans hrun
  -- an id that is not registered has been sent nothing
  have hempty : enqueuedTo id c.past = [] :=
    ((channel_iff_of_unregistered hnew).mp (channel h id)).2.1
  have hoffered := (passed_by h hrun (mem_messagesOf.mpr hm)
    (not_pending_of_unregistered h hnew hlooked) (by rw [hempty]; exact List.not_mem_nil)).2
  -- the history stores no ephemeral message
  have hhistory (history : List RoomMessage) (hsnap : .snapshotted id history ∈ c'.past) :
      m ∉ history := by
    intro hmem
    rw [snapshotted_lasting hreach id history hsnap m hmem] at hephemeral
    cases hephemeral
  have hdelivered : .message m ∉ deliveredTo id c'.past :=
    fun hd => hoffered ((delivered_begins hreach id).subset hd)
  refine ⟨hhistory, hoffered, hdelivered, ?_⟩
  intro aead roomKey username roomName history frames hsnap hheard clock hx
  rw [received_sessionLog, List.mem_append] at hx
  -- what is shown comes from the history or from the outbox
  rcases hx with hx | hx
  · exact hhistory _ hsnap (List.mem_map_of_mem (f := Prod.snd) hx)
  · have hlive := (HighWater.of_mem_admitted hx).1
    have horigin : ∀ f ∈ frames.map Prod.snd, ∃ k, f.origin = some k := fun f hf =>
      accepted_origin hreach f (accepted_of_enqueued hreach id f
        ((delivered_begins hreach id).subset (hheard.subset hf)))
    exact hdelivered (hheard.subset (mem_messagesOf.mp (mem_of_live horigin hlive)))

end

open Cast in
/-- Bob comes when Alice's ephemeral message has been offered to those who were there. -/
theorem ephemeral_passes_by_bob :
    ∃ c, room.Reach free c
      ∧ messagesOf (acceptedIn c.past)
        = [relayed alice "alice" 1 true, relayed alice "alice" 2 false]
      ∧ c.state.isDrained bob = true
      ∧ (∀ history, .snapshotted bob history ∈ c.past → relayed alice "alice" 1 true ∉ history)
      ∧ .message (relayed alice "alice" 1 true) ∉ enqueuedTo bob c.past := by
  obtain ⟨c, c', hc, hc', hat, hend⟩ := Machine.exec_then (M := room)
    (fun _ _ => true) (fun _ _ => true)
    (arrives alice "alice" ++ isWelcomed alice ++ sends alice (note alice "alice" 1 true)
      ++ broadcasts alice [alice])
    (sends alice (note alice "alice" 2 false) ++ [.act alice .store] ++ arrives bob "bob"
      ++ isWelcomed bob)
    (fun c => (acceptedIn c.past, ((c.state.flight alice).frames, (c.state.tasks bob).isNone)))
    ([.message (relayed alice "alice" 1 true)], ([], true))
    (fun c => (messagesOf (acceptedIn c.past), c.state.isDrained bob))
    ([relayed alice "alice" 1 true, relayed alice "alice" 2 false], true) (by decide)
  obtain ⟨haccepted, hat⟩ := Prod.mk.inj hat
  obtain ⟨hidle, hnone⟩ := Prod.mk.inj hat
  obtain ⟨hmessages, hdrained⟩ := Prod.mk.inj hend
  have hreach : room.Reach free c := Machine.exec_run (fun _ _ _ => trivial) hc
  have hrun : room.Run free c c' := Machine.exec_run (fun _ _ _ => trivial) hc'
  have hm : .message (relayed alice "alice" 1 true) ∈ acceptedIn c.past := by
    rw [haccepted]
    exact List.mem_singleton_self _
  have hnew : Unregistered (c.state.tasks bob) := by
    rw [Option.isNone_iff_eq_none.mp hnone]
    trivial
  have hlooked : ¬ c.state.AboutToOffer (.message (relayed alice "alice" 1 true)) := by
    rintro ⟨k, hk⟩
    have hflight : (c.state.flight k).frames = [.message (relayed alice "alice" 1 true)] := by
      rcases hk with hk | hk
      · rw [hk]
        rfl
      · rw [hk]
        rfl
    have hself : k = alice := (Option.some.inj (of_flight hreach rfl hflight).2).symm
    rw [hself, hidle] at hflight
    cases hflight
  have hpassed := ephemeral_passes_by hreach hrun rfl hm hnew hlooked
  exact ⟨c', hreach.trans hrun, hmessages, hdrained, hpassed.1, hpassed.2.1⟩

end ChatRs

import ChatRs.Admission
import ChatRs.Server.Clear

/-!
# False replay alarms

A client says "dropped replay" when a live message is not above what it has seen of the sender,
and the history of the Welcome counts as seen. The server takes that history, queues what it
broadcasts meanwhile, and stores and broadcasts in two steps, so an honest one can hand a
message to a joiner twice: a handler has stored it, and walks the senders after the joiner's
snapshot. The plan:

* **`Apart`**: at the snapshot nothing that waits or is still to be offered is in the history
  already, or behind it;
* **`Parted`**: from then on the outbox and the history share no message, and what is enqueued
  lies above the history (`parted_step`);
* **`no_false_alarm`**: so the client raises no alarm, whatever else happens to it.
-/

namespace ChatRs

open Machine (Config Guard free)

/-! ## The outbox and the history -/

/-- The outbox of `id` and a history have nothing in common and will not have. -/
structure Parted (c : Config World Event) (id : Uuid) (history : List RoomMessage) : Prop where
  accepted : ∀ y ∈ history, y ∈ messagesOf (acceptedIn c.past)
  above : ∀ x, .message x ∈ enqueuedTo id c.past →
    ∀ y ∈ history, y.fromId = x.fromId → y.count < x.count
  landed : ∀ y ∈ history, ∀ k, .message y ∉ (c.state.flight k).pending id

/-- Once the history was snapshotted for a session, what it still gets is apart from it: later
messages of a sender have later counters, and those that were on their way are not in it. -/
theorem parted_step {c : Config World Event} {w : World} {l : Label} {evs : List Event} {id : Uuid}
    {history : List RoomMessage} (h : room.Reach free c) (hs : step c.state l = some (w, evs))
    (hparted : Parted c id history) : Parted ⟨c.past ++ evs, w⟩ id history := by
  have hflow := (step_inv hs).flow
  have hnext : room.Reach free ⟨c.past ++ evs, w⟩ := h.tail (.mk l w evs trivial hs)
  refine ⟨fun y hy => ?_, fun x hx y hy hfrom => ?_, fun y hy k hk => ?_⟩
  · rw [acceptedIn_append, messagesOf_append]
    exact List.mem_append_left _ (hparted.accepted y hy)
  · replace hx : .message x ∈ enqueuedTo id c.past ++ enqueuedTo id evs :=
      enqueuedTo_append .. ▸ hx
    rcases List.mem_append.mp hx with hpast | hnew
    · exact hparted.above x hpast y hy hfrom
    -- the newest message of its sender, and not one of the history
    obtain ⟨k, hframes, hpending⟩ := hflow.enqueued hnew
    have hle := flight_newest h rfl hframes y (hparted.accepted y hy) hfrom
    refine lt_of_le_of_ne hle fun heq => hparted.landed y hy k ?_
    have hx' := mem_messagesOf.mpr (of_flight h rfl hframes).1
    rw [(counted h).increasing.eq_of_key_val (hparted.accepted y hy) hx' hfrom heq]
    exact hpending
  · rcases hflow.pending hk with hbefore | hagain
    · exact hparted.landed y hy k hbefore
    · exact accepted_once hnext (hparted.accepted y hy) hagain

/-! ## The snapshot -/

/-- What waits for the joiner lies above the history, and nothing in the history is still to be
offered to it. -/
structure Apart (w : World) (id : Uuid) : Prop where
  queued : ∀ x, .message x ∈ (w.outbox id).queue →
    ∀ y ∈ w.messages.history, y.fromId = x.fromId → y.count < x.count
  pending : ∀ y ∈ w.messages.history, ∀ k, .message y ∉ (w.flight k).pending id

/-- `id` takes its snapshot in such a state only. -/
def JoinsApart (id : Uuid) : Guard World Label Event :=
  fun c l => l = .act id .snapshot → Apart c.state id

section

variable {c : Config World Event} {id : Uuid}

/-- **From the snapshot on the history and the outbox are parted.** -/
theorem parted (h : room.Reach (JoinsApart id) c) :
    ∀ history, .snapshotted id history ∈ c.past → Parted c id history := by
  refine Machine.Reach.invariant (P := fun c => ∀ history, .snapshotted id history ∈ c.past →
    Parted c id history) ?_ ?_ h
  · intro history hmem
    cases hmem
  intro c l w evs hreach ih hG hs history hmem
  have hfree := hreach.toFree
  rcases List.mem_append.mp hmem with hpast | hnew
  · exact parted_step hfree hs (ih history hpast)
  refine parted_step hfree hs ?_
  cases step_inv hs with
  | snapshot k username hat =>
    cases List.mem_singleton.mp hnew
    obtain ⟨hqueued, hpending⟩ := hG rfl
    refine ⟨fun y hy => history_accepted hfree hy, fun x hx => hqueued x ?_, hpending⟩
    rw [← queue_of_joining hfree hat trivial trivial]
    exact hx
  | register | delivers | incoming | accepts | store | enqueues =>
    cases List.mem_singleton.mp hnew
  | _ => cases hnew

open Client in
/-- **No false alarm.** In every run in which `id` takes its snapshot apart from what is on its
way, the client that is welcomed with this snapshot and hears any part of what is delivered to
it, while it handles keys and ticks, raises no alarm; and no message of its history is
delivered to it. -/
theorem no_false_alarm (h : room.Reach (JoinsApart id) c) (aead : Aead) (roomKey : Key)
    (username roomName : String) (history : List Received) (inputs : List (Clock × Input))
    (hwelcome : .snapshotted id (history.map Prod.snd) ∈ c.past)
    (hheard : (heard aead roomKey (welcomed aead roomKey username id roomName history)
      inputs).map Prod.snd <+: deliveredTo id c.past) :
    alarms aead roomKey (welcomed aead roomKey username id roomName history) inputs = []
      ∧ ∀ m ∈ history.map Prod.snd, .message m ∉ deliveredTo id c.past := by
  have hfree := h.toFree
  have hparted := parted h _ hwelcome
  have hlevel : (welcomed aead roomKey username id roomName history).level = seeded history := by
    rw [welcomed, replayHistory_level, UiState.new_level, seeded]
  generalize welcomed aead roomKey username id roomName history = s₀ at *
  have hdelivered := delivered_begins hfree id
  have hsublist := (hheard.trans hdelivered).sublist
  have henqueued := hsublist.subset
  have horigin : ∀ f ∈ (heard aead roomKey s₀ inputs).map Prod.snd, ∃ k, f.origin = some k :=
    fun f hf => accepted_origin hfree f (accepted_of_enqueued hfree id f (henqueued hf))
  have hlive : Authentic c.past (messagesOf ((heard aead roomKey s₀ inputs).map Prod.snd)) :=
    (outbox_authentic hfree id).sublist (hsublist.filterMap _)
  constructor
  · -- what is heard lies above the counters that the history has seeded
    apply alarms_eq_nil
    · exact increasing_of_live horigin hlive
    · intro x hx
      have hx' := henqueued (mem_messagesOf.mp (mem_of_live horigin hx))
      have hpositive : 0 < x.2.count :=
        (counted hfree).positive x.2 (mem_messagesOf.mpr (accepted_of_enqueued hfree id _ hx'))
      rw [hlevel, sender_of_live horigin hlive hx]
      exact (seeded_lt_iff (welcome_authentic hfree _ _ hwelcome) x.2.fromId hpositive).mpr
        (hparted.above x.2 hx')
  · intro m hm hd
    -- a message below its own counter cannot be
    have hlt := hparted.above m (hdelivered.subset hd) m hm rfl
    omega

end

/-! ## A join between two messages, and one in the middle of a message -/

namespace Cast

/-- What Alice's client sends when the letter a is typed. -/
def letter : ClientFrame := .message ad (sealedLetters 1)

/-- The letter as the room relays it. -/
def relayedLetter : RoomMessage where
  fromId := alice
  username := "alice"
  ad := ad
  ciphertext := sealedLetters 1

def hears (m : RoomMessage) : Clock × Client.Input := (clock, .incoming (some (.ok (.message m))))

def notYet : Label → Bool
  | .act k .snapshot => k != bob
  | _ => true

/-- Alice's message has been broadcast when Bob registers. -/
def bobComesAfter : List Label :=
  arrives alice "alice" ++ isWelcomed alice ++ sends alice letter ++ [.act alice .store]
    ++ broadcasts alice [alice] ++ arrives bob "bob"

/-- He is welcomed, and Alice sends another one. -/
def aliceGoesOn : List Label :=
  [.act bob (.sendWelcome (.ok ()))] ++ sends alice (note alice "alice" 2 false)
    ++ [.act alice .store] ++ broadcasts alice [bob, alice] ++ [receives bob]

/-- Alice's message is stored, and then Bob registers. -/
def bobComesBetween : List Label :=
  arrives alice "alice" ++ isWelcomed alice ++ sends alice letter ++ [.act alice .store]
    ++ arrives bob "bob" ++ isWelcomed bob ++ broadcasts alice [bob, alice] ++ [receives bob]

/-- A snapshot that is looked for in what has happened. -/
def tookSnapshot (id : Uuid) (history : List RoomMessage) (past : List Event) : Bool :=
  past.any fun e => match e with
    | .snapshotted k h => k = id && h = history
    | _ => false

/-- The test finds the snapshot. -/
theorem snapshotted_of_test {id : Uuid} {history : List RoomMessage} {past : List Event}
    (h : tookSnapshot id history past = true) : .snapshotted id history ∈ past := by
  obtain ⟨e, he, htest⟩ := List.any_eq_true.mp h
  cases e with
  | snapshotted k h =>
    rw [Bool.and_eq_true, decide_eq_true_eq, decide_eq_true_eq] at htest
    rw [← htest.1, ← htest.2]
    exact he
  | _ => cases htest

end Cast

open Cast Client in
/-- Bob comes between two messages of Alice's: he gets one in the history and one live. -/
theorem no_false_alarm_between :
    ∃ c, room.Reach (JoinsApart bob) c
      ∧ deliveredTo bob c.past = [.message (relayed alice "alice" 2 false)]
      ∧ alarms Aead.tagging roomKey
          (welcomed Aead.tagging roomKey "bob" bob "main" [(clock, relayedLetter)])
          [hears (relayed alice "alice" 2 false)] = [] := by
  obtain ⟨d, c, hd, hc, hat, hend⟩ := Machine.exec_then (M := room)
    (fun _ _ => true) (fun _ _ => true) bobComesAfter (.act bob .snapshot :: aliceGoesOn)
    (fun d => ((d.state.messages.history, (d.state.outbox bob).queue),
      ((d.state.flight alice).frames, (d.state.flight bob).frames)))
    (([relayedLetter], []), ([], []))
    (fun c => (deliveredTo bob c.past, tookSnapshot bob [relayedLetter] c.past))
    ([.message (relayed alice "alice" 2 false)], true) (by decide)
  obtain ⟨hstores, hflights⟩ := Prod.mk.inj hat
  obtain ⟨halice, hbob⟩ := Prod.mk.inj hflights
  obtain ⟨hdelivered, hsnapshot⟩ := Prod.mk.inj hend
  obtain ⟨w, evs, hstep, hrest⟩ := Machine.exec_cons hc
  have hidle : ∀ k, d.state.flight k = .idle :=
    idle_of_both (fun k hna hnb => tasks_none hd (by decide) hna hnb rfl)
      (Flight.idle_of_frames halice) (Flight.idle_of_frames hbob)
  have hapart : Apart d.state bob := by
    constructor
    · rw [(Prod.mk.inj hstores).2]
      exact fun x hx => absurd hx List.not_mem_nil
    · intro y _ k
      rw [hidle k, Flight.pending_idle]
      exact List.not_mem_nil
  -- no other step takes Bob's snapshot
  have hothers (l : Label) (hl : notYet l = true) (d : Config World Event) :
      JoinsApart bob d l := by
    rintro rfl
    cases hl
  have hbefore : room.Reach (JoinsApart bob) d :=
    Machine.exec_run_of_labels hd fun l hl => hothers l ((by decide :
      ∀ l ∈ bobComesAfter, notYet l = true) l hl)
  have hafter : room.Run (JoinsApart bob) ⟨d.past ++ evs, w⟩ c :=
    Machine.exec_run_of_labels hrest fun l hl => hothers l ((by decide :
      ∀ l ∈ aliceGoesOn, notYet l = true) l hl)
  have hreach : room.Reach (JoinsApart bob) c :=
    (hbefore.tail (.mk _ w evs (fun _ => hapart) hstep)).trans hafter
  refine ⟨c, hreach, hdelivered, ?_⟩
  refine (no_false_alarm hreach Aead.tagging roomKey "bob" "main" [(clock, relayedLetter)]
    [hears (relayed alice "alice" 2 false)] (snapshotted_of_test hsnapshot) ?_).1
  rw [hdelivered]
  exact List.prefix_rfl

open Cast Client in
/-- Bob comes between the storing and the broadcast of a message: his client takes the honest
server for a replaying one. -/
theorem alarm_over_honest_message :
    ¬ ∀ (c : Config World Event) (id : Uuid), room.Reach free c →
        ∀ (aead : Aead) (roomKey : Key) (username roomName : String) (history : List Received)
          (inputs : List (Clock × Input)), aead.Correct →
          .snapshotted id (history.map Prod.snd) ∈ c.past →
          (heard aead roomKey (welcomed aead roomKey username id roomName history)
            inputs).map Prod.snd <+: deliveredTo id c.past →
          alarms aead roomKey (welcomed aead roomKey username id roomName history) inputs = [] := by
  intro hall
  obtain ⟨c, hc, hat⟩ := Machine.exec_reach_free (M := room)
    (fun c => (deliveredTo bob c.past, tookSnapshot bob [relayedLetter] c.past))
    ([.message relayedLetter], true) bobComesBetween (by decide)
  obtain ⟨hdelivered, hsnapshot⟩ := Prod.mk.inj hat
  have hnone := hall c bob hc Aead.tagging roomKey "bob" "main" [(clock, relayedLetter)]
    [hears relayedLetter] Aead.tagging_correct (snapshotted_of_test hsnapshot)
    (by rw [hdelivered]; exact List.prefix_rfl)
  have hone : alarms Aead.tagging roomKey
      (welcomed Aead.tagging roomKey "bob" bob "main" [(clock, relayedLetter)])
      [hears relayedLetter] = [(clock, relayedLetter)] := rfl
  rw [hone] at hnone
  cases hnone

end ChatRs

import ChatRs.Conversation
import ChatRs.Server.Clear

/-!
# Nothing is lost between two members

`Conversation` says that what a member reads was typed. Here is the other direction: once a
member's client is in its loop, and as long as the server keeps its connection, whatever another
member's client sends is read. The plan, from the sender to the reader:

* **`Admitted`**: a connection that is still served has had all its frames accepted;
* **`offered_since`**: what was accepted since the reader registered is sent to it, or still to be
  offered;
* a message that was accepted after the reader's snapshot is above the history, so the filter lets
  it pass (`taken_of_accepted`);
* **`delivery`**: so when nothing is under way any more, the reader has read exactly what was typed;
* **`loop_unbroken`**: and a client stays for as long as its user, its screen and the connection do,
  whatever the server sends.
-/

namespace ChatRs

open Machine (Config Guard free)

open Client

/-! ## What a served connection sent was accepted -/

/-- What a frame of `id` is relayed as. -/
def ClientFrame.relay? (id : Uuid) (username : String) : ClientFrame → Option ServerFrame
  | .message ad ct =>
    some (.message { fromId := id, username := username, ad := ad, ciphertext := ct })
  | .clear => some (.cleared id username)
  | _ => none

/-- The connection goes on, so none of its frames was refused. -/
def Pc.Serving : Pc → Prop
  | .cleaning _ | .leaving _ => False
  | _ => True

/-- Of a connection that goes on all frames that came in have been accepted, but for the one whose
checks are to come. -/
def Admitted (past : List Event) (id : Uuid) : Option Phase → Prop
  | some (.live username pc) => pc.Serving → ∀ f ∈ incomingFrom id past,
    f ∈ (Phase.live username pc).unchecked
      ∨ ∃ out, f.relay? id username = some out ∧ out ∈ acceptedIn past
  | some (.returned _) => True
  | _ => incomingFrom id past = []

/-- What the checks let through is the frame as it is relayed. -/
theorem Admits.relay? {sessions sessions' : UserSessionStore} {id : Uuid} {username : String}
    {f : ClientFrame} {out : ServerFrame} (h : Admits sessions sessions' id username f out) :
    f.relay? id username = some out := by
  cases h <;> rfl

/-- Nothing of a connection comes in with a step of another. -/
theorem incomingFrom_of_actor {w w' : World} {l : Label} {evs : List Event} (h : Step w l w' evs)
    {k : Uuid} (hk : l.actor ≠ some k) : incomingFrom k evs = [] := by
  cases h with
  | incoming id name f hat =>
    refine incomingFrom_other f ?_
    rintro rfl
    exact hk rfl
  | _ => rfl

/-- A task with nothing new from its peer is where it was. -/
theorem Admitted.mono {past evs : List Event} {id : Uuid} {t : Option Phase}
    (h : Admitted past id t) (hnone : incomingFrom id evs = []) : Admitted (past ++ evs) id t := by
  have hsame : incomingFrom id (past ++ evs) = incomingFrom id past := by
    rw [incomingFrom_append, hnone, List.append_nil]
  unfold Admitted at h ⊢
  split at h
  · intro hserving f hf
    rw [hsame] at hf
    refine (h hserving f hf).imp_right fun hout => ?_
    obtain ⟨out, hrelay, hmem⟩ := hout
    refine ⟨out, hrelay, ?_⟩
    rw [acceptedIn_append]
    exact List.mem_append_left _ hmem
  · trivial
  · exact hsame.trans h

/-- A registered task moves on, with the same frame in hand. -/
theorem Admitted.move {past : List Event} {id : Uuid} {username : String} {pc pc' : Pc}
    (h : Admitted past id (some (.live username pc))) (hserving : pc'.Serving → pc.Serving)
    (hsame : (Phase.live username pc').unchecked = (Phase.live username pc).unchecked) :
    Admitted past id (some (.live username pc')) := by
  intro hs f hf
  rw [hsame]
  exact h (hserving hs) f hf

section

variable {G : Guard World Label Event} {c : Config World Event}

/-- **What a connection sent and what was accepted of it**: as long as the server has not dropped
it, every frame that came in was accepted, but for the one in hand. The induction is over the run;
the cases are those in which the task takes a frame in, is done with its checks, or leaves. -/
theorem admitted (h : room.Reach G c) : ∀ k, Admitted c.past k (c.state.tasks k) := by
  refine Reach.room_invariant ?_ ?_ h
  · exact fun _ => rfl
  intro c l w evs _ ih _ hs k
  show Admitted (c.past ++ evs) k (w.tasks k)
  by_cases hactor : l.actor = some k
  swap
  · rw [hs.tasks_other hactor]
    exact (ih k).mono (incomingFrom_of_actor hs hactor)
  have hk := ih k
  -- where the task itself steps, only the phase that it goes to counts
  have own {u : World} {next : Phase} (hnext : Admitted (c.past ++ evs) k (some next)) :
      Admitted (c.past ++ evs) k ((u.goto k next).tasks k) := by
    rw [World.goto_tasks, Function.update_self]
    exact hnext
  cases hs with
  | early l id phase hbefore hafter _ hid =>
    cases hactor.symm.trans hid
    refine own ?_
    -- before the registration no frame has come in
    have hnone : incomingFrom k c.past = [] := by
      generalize c.state.tasks k = task at hk hbefore
      cases task with
      | none => exact hk
      | some phase =>
        cases phase with
        | live | returned => exact hbefore.elim
        | _ => exact hk
    have hnone' : incomingFrom k (c.past ++ []) = [] := by
      rw [List.append_nil]
      exact hnone
    rcases hafter with hafter | ⟨result, rfl⟩
    · cases phase with
      | live => exact hafter.elim
      | returned => exact hafter.elim
      | _ => exact hnone'
    · trivial
  | register id username hat =>
    cases hactor
    rw [hat] at hk
    refine own fun _ f hf => ?_
    rw [incomingFrom_append, show incomingFrom k c.past = [] from hk] at hf
    cases hf
  | incoming id username f hat =>
    cases hactor
    rw [hat] at hk
    refine own fun _ g hg => ?_
    rw [incomingFrom_append, incomingFrom_self, List.mem_append] at hg
    -- the new frame is the one in hand; what was in hand before is none, as the task was pumping
    rcases hg with hpast | hnew
    · rcases hk trivial g hpast with hin | ⟨out, hrelay, hmem⟩
      · cases hin
      · refine .inr ⟨out, hrelay, ?_⟩
        rw [acceptedIn_append]
        exact List.mem_append_left _ hmem
    · exact .inl hnew
  | touch id username f hat =>
    cases hactor
    rw [hat] at hk
    exact own ((hk.move (fun _ => trivial) rfl).mono rfl)
  | accepts id username f out sessions hat hcheck =>
    cases hactor
    rw [hat] at hk
    refine own fun _ g hg => ?_
    rw [incomingFrom_append, List.mem_append] at hg
    rw [acceptedIn_append]
    -- the frame in hand has been accepted, as what `checkFrame` makes of it
    rcases hg with hpast | hnone
    · rcases hk trivial g hpast with hin | ⟨out', hrelay, hmem⟩
      · obtain rfl := List.mem_singleton.mp hin
        refine .inr ⟨out, (checkFrame_ok hcheck).relay?, ?_⟩
        exact List.mem_append_right _ (List.mem_singleton_self _)
      · exact .inr ⟨out', hrelay, List.mem_append_left _ hmem⟩
    · cases hnone
  -- in the other places the same frame stays in hand
  | snapshot id username hat | welcomed id username history hat | store id username f hat
  | collect id username f order hat | enqueues id username f peer rest dead o hat
  | refused id username f peer rest dead hat | evict id username f dead hat =>
    cases hactor
    rw [hat] at hk
    exact own ((hk.move (fun _ => trivial) rfl).mono rfl)
  -- from here on the server has dropped the connection, and nothing is claimed of it
  | unwelcomed | stops | undelivered | rejects | cleanup =>
    cases hactor
    exact own fun hserving => hserving.elim
  | leave =>
    cases hactor
    exact own trivial
  | delivers id username f o hat =>
    exact hk.mono rfl
  | elapse | scan | sweep => cases hactor

/-! ## What was accepted is sent -/

/-- A frame that a peer is still to get is the one in flight. -/
theorem frames_of_pending {flight : Flight} {peer : Uuid} {f : ServerFrame}
    (h : f ∈ flight.pending peer) : flight.frames = [f] := by
  cases flight with
  | idle => cases h
  | storing g | collecting g =>
    obtain rfl := List.mem_singleton.mp h
    rfl
  | sending g rest =>
    replace h : f ∈ if peer ∈ rest then [g] else [] := h
    split at h
    · obtain rfl := List.mem_singleton.mp h
      rfl
    · cases h

section

variable {c₀ : Config World Event} {id : Uuid}

/-- **Everything that was accepted since is sent to a peer that is kept**, or is still to be offered
to it. -/
theorem offered_since (hregistered : ¬ Unregistered (c₀.state.tasks id))
    (hrun : room.Run free c₀ c) :
    ¬ Unregistered (c.state.tasks id) ∧ (c.state.Kept id → ∀ f ∈ acceptedIn c.past,
      f ∈ acceptedIn c₀.past ∨ f ∈ enqueuedTo id c.past
        ∨ ∃ k, f ∈ (c.state.flight k).pending id) := by
  refine Run.room_invariant (P := fun c => ¬ Unregistered (c.state.tasks id)
    ∧ (c.state.Kept id → ∀ f ∈ acceptedIn c.past, f ∈ acceptedIn c₀.past
      ∨ f ∈ enqueuedTo id c.past ∨ ∃ k, f ∈ (c.state.flight k).pending id)) hrun ?_ ?_
  · exact ⟨hregistered, fun _ f hf => .inl hf⟩
  intro d l w evs hd ih _ hs
  obtain ⟨hbefore, hoffered⟩ := ih
  refine ⟨fun hnew => hbefore (hs.unregistered hnew), fun hkept f hf => ?_⟩
  have hkept' := hs.kept hbefore hkept
  show f ∈ acceptedIn c₀.past ∨ f ∈ enqueuedTo id (d.past ++ evs)
    ∨ ∃ k, f ∈ (w.flight k).pending id
  rw [enqueuedTo_append, List.mem_append]
  -- a frame whose flight is another one, or goes on with the peer in it
  have stays {i : Uuid} {a b : Flight} (hat : d.state.flight i = a)
      (hflight : w.flight = Function.update d.state.flight i b) (hpast : f ∈ acceptedIn d.past)
      (hgoes : f ∈ a.pending id → f ∈ b.pending id ∨ f ∈ enqueuedTo id evs) :
      f ∈ acceptedIn c₀.past ∨ (f ∈ enqueuedTo id d.past ∨ f ∈ enqueuedTo id evs)
        ∨ ∃ k, f ∈ (w.flight k).pending id := by
    rcases hoffered hkept' f hpast with hold | hsent | ⟨k, hk⟩
    · exact .inl hold
    · exact .inr (.inl (.inl hsent))
    · rcases eq_or_ne k i with rfl | hne
      · rw [hat] at hk
        rcases hgoes hk with hk | hsent
        · refine .inr (.inr ⟨k, ?_⟩)
          rw [hflight, Function.update_self]
          exact hk
        · exact .inr (.inl (.inr hsent))
      · refine .inr (.inr ⟨k, ?_⟩)
        rw [hflight, Function.update_of_ne hne]
        exact hk
  have hf' : f ∈ acceptedIn d.past ∨ f ∈ acceptedIn evs := by
    rw [← List.mem_append, ← acceptedIn_append]
    exact hf
  cases hs.flow with
  | quiet _ hflight haccepted _ henqueued =>
    rw [haccepted] at hf'
    have hpast := hf'.resolve_right List.not_mem_nil
    rw [hflight]
    exact (hoffered hkept' f hpast).imp_right (.imp_left .inl)
  | accepts i g hat horigin hflight =>
    rcases hf' with hpast | hnew
    · refine stays hat hflight hpast fun hk => ?_
      cases hk
    · -- the frame that is accepted just now is in flight
      obtain rfl := List.mem_singleton.mp hnew
      refine .inr (.inr ⟨i, ?_⟩)
      rw [hflight, Function.update_self, Flight.pending_start]
      exact List.mem_singleton_self _
  | stores i g hat hflight =>
    exact stays hat hflight (hf'.resolve_right List.not_mem_nil) fun hk => .inl hk
  | collects i g order hat hnodup hflight hpeers =>
    -- a peer that is kept has its sender, so that every snapshot has it
    refine stays hat hflight (hf'.resolve_right List.not_mem_nil) fun hk => .inl ?_
    show f ∈ if id ∈ order then [g] else []
    rw [if_pos ((hpeers id).mpr hkept'.1)]
    exact hk
  | enqueues i g peer rest hat hflight =>
    refine stays hat hflight (hf'.resolve_right List.not_mem_nil) fun hk => ?_
    rcases eq_or_ne id peer with rfl | hne
    · -- it is sent to this very peer
      right
      rw [enqueuedTo_self]
      replace hk : f ∈ if id ∈ id :: rest then [g] else [] := hk
      rw [if_pos List.mem_cons_self] at hk
      exact hk
    · left
      simpa [Flight.pending, hne] using hk
  | refused i g peer rest hat hflight hdead =>
    refine stays hat hflight (hf'.resolve_right List.not_mem_nil) fun hk => .inl ?_
    -- who is refused is not kept
    have hne : id ≠ peer := by
      rintro rfl
      exact hkept.2 i hdead
    simpa [Flight.pending, hne] using hk
  | lands i g hat hflight =>
    refine stays hat hflight (hf'.resolve_right List.not_mem_nil) fun hk => ?_
    cases hk

end

end

/-! ## Logs that grow -/

namespace Client

/-- A log begins with that of a shorter run. -/
theorem along_begins {α : Type} {aead : Aead} {roomKey : Key}
    (log : UiState → Clock → Input → List α) (s : UiState) (a b : List (Clock × Input)) :
    along aead roomKey log s a <+: along aead roomKey log s (a ++ b) := by
  induction a generalizing s with
  | nil => exact List.nil_prefix
  | cons x a ih =>
    obtain ⟨clock, i⟩ := x
    rw [List.cons_append, along, along, List.prefix_append_right_inj]
    split
    · exact List.prefix_rfl
    · exact ih _

end Client

section

variable {aead : Aead} {roomKey : Key} {roomName : String} {users : Uuid → Option String}
  {G : Guard Chat ChatLabel ChatEvent} {c₀ c : Config Chat ChatEvent} {id : Uuid}
  {username : String}

/-- A client starts once. -/
theorem histories_later (hrun : (chat aead roomKey roomName users).Run G c₀ c)
    {history history' : List Received} (h₀ : histories id c₀.past = [history])
    (h : histories id c.past = [history']) : history' = history := by
  obtain ⟨evs, hevs⟩ := hrun.past_prefix
  rw [← hevs, histories_append, h₀] at h
  exact (List.cons.inj h).1.symm

/-- The letters of a member only grow. -/
theorem letters_begin (hrun : (chat aead roomKey roomName users).Run G c₀ c)
    (h₀ : Connected aead roomKey roomName c₀ id username)
    (h : Connected aead roomKey roomName c id username) :
    lettersOf aead roomKey roomName id username c₀.past
      <+: lettersOf aead roomKey roomName id username c.past := by
  by_cases hsome : histories id c₀.past = []
  · rw [lettersOf, typedBy, hsome]
    exact List.nil_prefix
  obtain ⟨history, htalking₀⟩ := talking_of_histories h₀ hsome
  obtain ⟨evs, hevs⟩ := hrun.past_prefix
  have hsome' : histories id c.past ≠ [] := by
    rw [← hevs, histories_append, htalking₀.histories]
    exact List.cons_ne_nil _ _
  obtain ⟨history', htalking⟩ := talking_of_histories h hsome'
  obtain rfl := histories_later hrun htalking₀.histories htalking.histories
  rw [lettersOf, lettersOf, typedBy_of_talking htalking₀, typedBy_of_talking htalking, ← hevs,
    inputsOf_append]
  exact (along_begins _ _ _ _).filterMap _

end

/-! ## From the sender to the reader -/

/-- Nothing is on its way from the writer to the reader, and the server still serves both. -/
structure Settled (w : Chat) (writer reader : Uuid) : Prop where
  runs : ∃ ui, w.client writer = .running ui
  sent : w.toServer writer = []
  served : ∃ name, w.world.tasks writer = some (.live name .pumping)
  kept : w.world.Kept reader
  drained : Drained w.world reader
  read : w.toClient reader = []

section

variable {aead : Aead} {roomKey : Key} {roomName : String} {users : Uuid → Option String}
  {c₀ c : Config Chat ChatEvent} {writer reader : Uuid} {name name' : String}

/-- **All that was typed has been accepted**, once nothing is on its way to the server. -/
theorem letters_accepted (h : (chat aead roomKey roomName users).Reach free c)
    (hwriter : users writer = some name) (hsettled : Settled c.state writer reader)
    {m : RoomMessage} (hm : m ∈ lettersOf aead roomKey roomName writer name c.past) :
    m.fromId = writer ∧ .message m ∈ acceptedIn (worldPast c.past) := by
  obtain ⟨ui, hui⟩ := hsettled.runs
  obtain ⟨name₁, hat⟩ := hsettled.served
  have hroom := chat_room h
  obtain ⟨t, ht, hletter⟩ := List.mem_filterMap.mp hm
  unfold Typed.letter? at hletter
  split at hletter
  swap
  · cases hletter
  rename_i body ad ct
  cases hletter
  refine ⟨rfl, ?_⟩
  cases connected h hwriter with
  | outside huntouched | welcomed _ huntouched =>
    rw [huntouched.client] at hui
    cases hui
  | talking history htalking =>
    have hall := htalking.allSent ui hui
    rw [hsettled.sent, List.append_nil, produced_eq, ← typedBy_of_talking htalking] at hall
    have hincoming : .message ad ct ∈ incomingFrom writer (worldPast c.past) := by
      rw [hall]
      exact List.mem_filterMap.mpr ⟨_, ht, rfl⟩
    -- a connection that is served has had it accepted
    have hadmitted := admitted hroom writer
    rw [hat] at hadmitted
    rcases hadmitted trivial _ hincoming with hnone | ⟨out, hrelay, hmem⟩
    · cases hnone
    · obtain rfl := (named h hwriter).2 name₁ (standing hroom writer _ hat).1.2
      cases hrelay
      exact hmem

/-- **What was typed after the reader had come in has been read.** -/
theorem taken_of_accepted (h₀ : (chat aead roomKey roomName users).Reach free c₀)
    (hrun : (chat aead roomKey roomName users).Run free c₀ c)
    (hwriter : users writer = some name) (hreader : users reader = some name')
    (hfew : ((typedBy aead roomKey roomName writer name c.past).filterMap Typed.ad?).length
      < 2 ^ 64 - 1)
    (hjoined : histories reader c₀.past ≠ []) (hsettled : Settled c.state writer reader)
    {new : List RoomMessage}
    (hnew : lettersOf aead roomKey roomName writer name c.past
      = lettersOf aead roomKey roomName writer name c₀.past ++ new)
    {m : RoomMessage} (hm : m ∈ new) :
    ∃ x ∈ receivedBy aead roomKey roomName reader name' c.past, x.sender = writer ∧ x.2 = m := by
  have h := h₀.trans hrun
  have hroom₀ := chat_room h₀
  have hroom := chat_room h
  -- the letters from before are older
  have hordered := letters_increasing (connected h hwriter) hfew
  rw [hnew] at hordered
  have holder := (List.pairwise_append.mp hordered).2.2
  have hm' : m ∈ lettersOf aead roomKey roomName writer name c.past := by
    rw [hnew]
    exact List.mem_append_right _ hm
  -- the server has accepted it: with nothing on its way any more, what was written came in
  obtain ⟨hfrom, haccepted⟩ := letters_accepted h hwriter hsettled hm'
  -- the reader has one Welcome, the same then and now
  obtain ⟨history, htalking₀⟩ := talking_of_histories (connected h₀ hreader) hjoined
  have hjoined' : histories reader c.past ≠ [] := by
    obtain ⟨evs, hevs⟩ := hrun.past_prefix
    rw [← hevs, histories_append, htalking₀.histories]
    exact List.cons_ne_nil _ _
  obtain ⟨history', htalking⟩ := talking_of_histories (connected h hreader) hjoined'
  obtain rfl := histories_later hrun htalking₀.histories htalking.histories
  -- it was sent after the Welcome, hence to a peer that had registered
  have hregistered : ¬ Unregistered (c₀.state.world.tasks reader) := by
    intro hunregistered
    have hgreeted := htalking₀.greeted
    generalize c₀.state.world.tasks reader = task at hunregistered hgreeted
    cases task with
    | none => exact hgreeted
    | some phase =>
      cases phase with
      | live | returned => exact hunregistered
      | _ => exact hgreeted
  have hsent : .message m ∈ enqueuedTo reader (worldPast c.past) := by
    rcases (offered_since hregistered (chat_run hrun)).2 hsettled.kept _ haccepted
      with hold | hsent | ⟨k, hk⟩
    · -- a letter from before
      have hrelayed := accepted_relayed hroom₀ m (mem_messagesOf.mpr hold)
      have hmem := mem_lettersOf (letter_of_relayed h₀ hwriter hrelayed hfrom) hfrom
      exact absurd (holder m hmem m hm) (Nat.lt_irrefl _)
    · exact hsent
    · -- the writer's task is at rest
      obtain ⟨name₁, hat⟩ := hsettled.served
      have hidle : c.state.world.flight writer = .idle := World.flight_of_at hat
      have horigin := (of_flight hroom rfl (frames_of_pending hk)).2
      rw [ServerFrame.origin, Option.some.injEq, hfrom] at horigin
      subst horigin
      rw [hidle] at hk
      cases hk
  -- the outbox is drained and the client has read it all, so that it was heard
  rw [← hsettled.drained.delivered hroom, ← htalking.heard, hsettled.read, List.append_nil]
    at hsent
  obtain ⟨horigin, hauthentic⟩ := heard_authentic h htalking
  have hwelcome := welcome_authentic hroom₀ _ _ htalking₀.snapshotted
  have hpositive : 0 < m.count := (counted hroom).positive m (mem_messagesOf.mpr haccepted)
  have hlive := mem_messagesOf.mpr hsent
  rw [← liveMessages_of_origin horigin] at hlive
  obtain ⟨x, hx, rfl⟩ := List.mem_map.mp hlive
  have hsender : Received.sender x = x.2.fromId := sender_of_live horigin hauthentic hx
  refine ⟨x, ?_, hsender.trans hfrom, rfl⟩
  -- and it was shown: its counter is above what the history had seeded
  rw [receivedBy_of_talking htalking]
  refine List.mem_append_right _ ?_
  rw [accepted, HighWater.admitted_eq_filter _ (increasing_of_live horigin hauthentic)]
  refine List.mem_filter.mpr ⟨hx, decide_eq_true ?_⟩
  rw [hsender]
  refine (seeded_lt_iff hwelcome x.2.fromId hpositive).mpr fun y hy hyfrom => ?_
  have hrelayed := hwelcome.relayed y hy
  have hyfrom' : y.fromId = writer := hyfrom.trans hfrom
  exact holder y (mem_lettersOf (letter_of_relayed h₀ hwriter hrelayed hyfrom') hyfrom') x.2 hm

/-- **Nothing is lost, and nothing else is added.** The clients of a writer and of a reader are any
two of a room. The reader's client is in its loop at some moment of a run, and at a later moment
nothing is on its way from the writer to the reader, and the server has dropped neither of them.
Then what the reader's client has displayed of the writer is a part of what the writer typed before
the first moment, followed by exactly what it typed after, in the order in which it was typed. -/
theorem delivery (h₀ : (chat aead roomKey roomName users).Reach free c₀)
    (hrun : (chat aead roomKey roomName users).Run free c₀ c)
    (hwriter : users writer = some name) (hreader : users reader = some name')
    (hfew : ((typedBy aead roomKey roomName writer name c.past).filterMap Typed.ad?).length
      < 2 ^ 64 - 1)
    (hjoined : histories reader c₀.past ≠ []) (hsettled : Settled c.state writer reader) :
    ∃ old new, lettersOf aead roomKey roomName writer name c.past
        = lettersOf aead roomKey roomName writer name c₀.past ++ new
      ∧ old.Sublist (lettersOf aead roomKey roomName writer name c₀.past)
      ∧ ((receivedBy aead roomKey roomName reader name' c.past).filter
          fun x => x.sender = writer).map Prod.snd = old ++ new := by
  have h := h₀.trans hrun
  obtain ⟨new, hnew⟩ := letters_begin hrun (connected h₀ hwriter) (connected h hwriter)
  have hordered := letters_increasing (connected h hwriter) hfew
  have hread := received_letters h hwriter hreader hfew
  rw [← hnew] at hordered hread
  obtain ⟨old, later, hsplit, hold, hlater⟩ := List.sublist_append_iff.mp hread
  obtain ⟨_, hnewer, holder⟩ := List.pairwise_append.mp hordered
  refine ⟨old, new, hnew.symm, hold, ?_⟩
  rw [hsplit]
  congr 1
  -- all of the new letters were read, and none of them is an old one
  refine hlater.antisymm
    (HighWater.sublist_of_ordered RoomMessage.count hnewer (hnewer.sublist hlater) fun m hm => ?_)
  obtain ⟨x, hx, hfrom, rfl⟩ :=
    taken_of_accepted h₀ hrun hwriter hreader hfew hjoined hsettled hnew.symm hm
  have hmem : x.2 ∈ ((receivedBy aead roomKey roomName reader name' c.past).filter
      fun x => x.sender = writer).map Prod.snd :=
    List.mem_map_of_mem (List.mem_filter.mpr ⟨hx, decide_eq_true hfrom⟩)
  rw [hsplit, List.mem_append] at hmem
  refine hmem.resolve_left fun hmem => ?_
  exact absurd (holder x.2 (hold.subset hmem) x.2 hm) (Nat.lt_irrefl _)

end

/-! ## Bob reads what Alice types -/

def Seat.isRunning : Seat → Bool
  | .running _ => true
  | _ => false

theorem Seat.isRunning_iff {seat : Seat} : seat.isRunning = true ↔ ∃ ui, seat = .running ui := by
  cases seat <;> simp [Seat.isRunning]

namespace Cast

/-- Nothing happens but to Alice's and Bob's connections. -/
def twoChat : ChatLabel → Bool
  | .server l => alone l
  | _ => true

/-- Nobody but Alice and Bob ever comes into their room. -/
theorem chat_tasks_none {c c' : Config Chat ChatEvent} {ls : List ChatLabel}
    (h : chatters.exec (fun _ _ => true) c ls = some c') (hls : ∀ l ∈ ls, twoChat l = true)
    {k : Uuid} (halice : k ≠ alice) (hbob : k ≠ bob) (hnone : c.state.world.tasks k = none) :
    c'.state.world.tasks k = none := by
  refine Machine.exec_invariant (P := fun c => c.state.world.tasks k = none) h hnone ?_
  intro d l s evs hl hd hs
  cases chatStep_inv hs with
  | serves l toServer w evs hunread hstep =>
    have hactor : l.actor ≠ some k := by
      intro hk
      have halone : alone l = true := hls _ hl
      rw [alone, hk, Bool.or_eq_true, beq_iff_eq, beq_iff_eq] at halone
      rcases halone with heq | heq
      · exact halice (Option.some.inj heq)
      · exact hbob (Option.some.inj heq)
    exact ((step_inv hstep).tasks_other hactor).trans hd
  | joins | turns => exact hd

def aliceTypes : List ChatLabel :=
  (types 1).map (fun x => .turn alice x.1 x.2)
    ++ serves (sends alice (.message ad (sealedLetters 1)) ++ [.act alice .store]
      ++ broadcasts alice [alice, bob] ++ [.act bob (.outgoing (.ok ()))])
    ++ [.turn bob clock (.incoming (some (.ok (.message typedLetter))))]

end Cast

open Cast in
/-- Bob comes in, and then reads all that Alice types. -/
theorem delivery_alice_bob :
    ∃ c, chatters.Reach free c
      ∧ ((receivedBy Aead.tagging roomKey "main" bob "bob" c.past).filter
          fun x => x.sender = alice).map Prod.snd
        = lettersOf Aead.tagging roomKey "main" alice "alice" c.past := by
  obtain ⟨c₀, c, h₀, hc, hjoined, hat⟩ := Machine.exec_then (M := chatters)
    (fun _ _ => true) (fun _ _ => true) (enters alice "alice" ++ enters bob "bob") aliceTypes
    (fun d => ((histories bob d.past).isEmpty,
      (lettersOf Aead.tagging roomKey "main" alice "alice" d.past).isEmpty)) (false, true)
    (fun c => ((c.state.client alice).isRunning && c.state.world.isDrained bob
        && (c.state.toServer alice).isEmpty && (c.state.toClient bob).isEmpty
        && c.state.world.pumping? alice == some "alice"
        && c.state.world.connections.snapshot == [bob, alice],
      ((typedBy Aead.tagging roomKey "main" alice "alice" c.past).filterMap Typed.ad?).length))
    (true, 1) (by decide)
  obtain ⟨hjoined, hempty⟩ := Prod.mk.inj hjoined
  obtain ⟨htests, hfew⟩ := Prod.mk.inj hat
  simp only [Bool.and_eq_true, List.isEmpty_iff, beq_iff_eq] at htests
  obtain ⟨⟨⟨⟨⟨hruns, hdrained⟩, hsent⟩, hread⟩, hpumping⟩, hsnapshot⟩ := htests
  have hreach : chatters.Reach free c₀ := Machine.exec_run (fun _ _ _ => trivial) h₀
  have hrun : chatters.Run free c₀ c := Machine.exec_run (fun _ _ _ => trivial) hc
  have hnone : ∀ k, k ≠ alice → k ≠ bob → c.state.world.tasks k = none := fun k hna hnb =>
    chat_tasks_none hc (by decide) hna hnb (chat_tasks_none h₀ (by decide) hna hnb rfl)
  have hserved := World.pumping?_eq_some hpumping
  have hidle : ∀ k, c.state.world.flight k = .idle :=
    idle_of_both hnone (World.flight_of_at hserved) (idle_of_test hdrained)
  have hsettled : Settled c.state alice bob :=
    { runs := Seat.isRunning_iff.mp hruns
      sent := hsent
      served := ⟨_, hserved⟩
      kept := ⟨(connected_both hsnapshot bob).mpr (.inl rfl),
        fun k hdead => by rw [World.dead_of_idle (hidle k)] at hdead; cases hdead⟩
      drained := drained_of_test hdrained
      read := hread }
  obtain ⟨old, new, hletters, hold, hreceived⟩ := delivery hreach hrun
    (show users alice = some "alice" from rfl) (show users bob = some "bob" from rfl)
    (by rw [hfew]; decide) (List.isEmpty_eq_false_iff.mp hjoined) hsettled
  refine ⟨c, hreach.trans hrun, ?_⟩
  rw [List.isEmpty_iff.mp hempty] at hletters hold
  rw [hreceived, hletters, List.sublist_nil.mp hold]

/-! ## What ends a loop -/

/-- A turn in which a loop returns with a result: nothing here is a frame of the server. -/
inductive Ending : Input → Result Unit → Prop
  /-- The screen could not be drawn. -/
  | drawFailed : Ending .drawFailed (.error .io)
  | quit (k : KeyEvent) (random : Option Nonce) (written : Result Unit) :
      Ending (.key k random written) (.ok ())
  /-- What was typed could not be sealed or written. -/
  | unsent (k : KeyEvent) (random : Option Nonce) (written : Result Unit) (e : Error)
      (hwhy : e = .noise ∨ written = .error e) : Ending (.key k random written) (.error e)
  | eventError : Ending .eventError (.error .io)
  | eventsEnded : Ending .eventsEnded (.ok ())
  | closed : Ending (.incoming none) (.ok ())
  | broken (e : Error) : Ending (.incoming (some (.error e))) (.error e)

section

variable {aead : Aead} {roomKey : Key}

/-- A send fails on the limit of the transport, or with the write. -/
theorem sendEncrypted_eq_error {f : ClientFrame} {written : Result Unit} {e : Error}
    (h : sendEncrypted f written = .error e) : e = .noise ∨ written = .error e := by
  unfold sendEncrypted at h
  split at h
  · exact .inr h
  · cases h
    exact .inl rfl

/-- What returns is an ending, or a frame that the client does not take. -/
theorem turn_ending {ui s : UiState} {clock : Clock} {i : Input} {result : Result Unit}
    (h : turn aead roomKey ui clock i = (some result, s)) :
    Ending i result ∨ ∃ f, i = .incoming (some (.ok f))
      ∧ (handleServerFrame aead roomKey ui clock f).1 ≠ none := by
  cases i with
  | key k random written =>
    simp only [turn] at h
    split at h
    · cases h
      exact .inl (.quit k random written)
    · split at h
      · cases h
      · rename_i e heq
        cases h
        exact .inl (.unsent k random written e (sendEncrypted_eq_error heq))
    · cases h
  | otherEvent | tick => cases h
  | drawFailed =>
    cases h
    exact .inl .drawFailed
  | eventError =>
    cases h
    exact .inl .eventError
  | eventsEnded =>
    cases h
    exact .inl .eventsEnded
  | incoming r =>
    cases r with
    | none =>
      cases h
      exact .inl .closed
    | some r =>
      cases r with
      | error e =>
        cases h
        exact .inl (.broken e)
      | ok f =>
        -- a frame that is taken does not end the loop
        refine .inr ⟨f, rfl, fun htaken => ?_⟩
        rw [turn_handled aead roomKey ui clock htaken] at h
        cases h

/-- A client takes whatever comes from a session. -/
theorem handleServerFrame_origin (ui : UiState) (clock : Clock) {f : ServerFrame} {k : Uuid}
    (h : f.origin = some k) : (handleServerFrame aead roomKey ui clock f).1 = none := by
  cases f with
  | message m => exact handleServerFrame_message_fst ..
  | cleared by_ username => rfl
  | hello | welcome | error => cases h

variable {roomName : String} {users : Uuid → Option String} {G : Guard Chat ChatLabel ChatEvent}
  {c : Config Chat ChatEvent} {id : Uuid} {username : String}

/-- What is on its way to a client in its loop comes from a session. -/
theorem origin_of_queued (h : (chat aead roomKey roomName users).Reach G c)
    (huser : users id = some username) {ui : UiState} (hclient : c.state.client id = .running ui) :
    ∀ f ∈ c.state.toClient id, ∃ k, f.origin = some k := by
  intro f hf
  have hdelivered : f ∈ deliveredTo id (worldPast c.past) := by
    cases connected h huser with
    | outside huntouched | welcomed _ huntouched =>
      rw [huntouched.client] at hclient
      cases hclient
    | talking history htalking =>
      rw [← htalking.heard]
      exact List.mem_append_right _ hf
  have hroom := chat_room h
  have henqueued := (delivered_begins hroom id).subset hdelivered
  exact accepted_origin hroom f (accepted_of_enqueued hroom id f henqueued)

/-- **Nothing that the server sends ends a client's loop.** Along every run, a loop that has
returned did so over its own screen, its keyboard, its terminal or the connection, and with the
result that this has: in its last turn the draw failed, or that is what the turn was given. -/
theorem loop_unbroken (h : (chat aead roomKey roomName users).Reach G c)
    (huser : users id = some username) {result : Result Unit}
    (hended : c.state.client id = .ended result) :
    ∃ before clock i, inputsOf id c.past = before ++ [(clock, i)] ∧ Ending i result := by
  have hall : ∀ result, c.state.client id = .ended result →
      ∃ before clock i, inputsOf id c.past = before ++ [(clock, i)] ∧ Ending i result := by
    refine Machine.Reach.invariant (P := fun c => ∀ result, c.state.client id = .ended result →
      ∃ before clock i, inputsOf id c.past = before ++ [(clock, i)] ∧ Ending i result) ?_ ?_ h
    · intro result hat
      cases hat
    intro c l s evs hreach ih _ hs result hat
    cases chatStep_inv hs with
    | serves l toServer w evs hunread hstep =>
      rw [inputsOf_append, inputsOf_room, List.append_nil]
      exact ih result hat
    -- a client that joins has a running loop
    | joins k clocks name userId history rest hname hclient hqueue =>
      rcases eq_or_ne id k with rfl | hne
      · have hrunning := (Function.update_self ..).symm.trans hat
        cases hrunning
      · have hsame := (Function.update_of_ne hne ..).symm.trans hat
        rw [inputsOf_append]
        show ∃ before clock i, inputsOf id c.past ++ [] = before ++ [(clock, i)] ∧ Ending i result
        rw [List.append_nil]
        exact ih result hsame
    | turns k clock i ui rest hclient hqueue =>
      rw [inputsOf_append]
      rcases eq_or_ne id k with rfl | hne
      · rw [inputsOf_self]
        refine ⟨inputsOf id c.past, clock, i, rfl, ?_⟩
        replace hat : Seat.after (turn aead roomKey ui clock i) = .ended result :=
          (Function.update_self ..).symm.trans hat
        rcases hturn : turn aead roomKey ui clock i with ⟨_ | r, s⟩
        · rw [hturn] at hat
          cases hat
        rw [hturn] at hat
        cases hat
        -- the turn ends by its draw or its input, or by a frame that has no origin
        rcases turn_ending hturn with hending | ⟨f, rfl, hrefused⟩
        · exact hending
        -- the frame was the next one on its way, so it comes from a session
        have hfirst : c.state.toClient id = f :: rest := by
          simp only [unheard] at hqueue
          split at hqueue
          · cases hqueue
          · split at hqueue <;> cases hqueue
            rename_i hnext heq
            rw [hnext, heq]
        obtain ⟨k, horigin⟩ := origin_of_queued hreach huser hclient f
          (by rw [hfirst]; exact List.mem_cons_self)
        exact absurd (handleServerFrame_origin ui clock horigin) hrefused
      · have hsame := (Function.update_of_ne hne ..).symm.trans hat
        rw [inputsOf_other _ _ _ hne, List.append_nil]
        exact ih result hsame
  exact hall result hended

end

/-- The user has left. -/
def Seat.hasQuit : Seat → Bool
  | .ended (.ok _) => true
  | _ => false

theorem ended_of_hasQuit {seat : Seat} (h : seat.hasQuit = true) : seat = .ended (.ok ()) := by
  unfold Seat.hasQuit at h
  split at h
  · rfl
  · cases h

open Cast in
/-- Alice types `/q`. -/
theorem loop_unbroken_alice :
    ∃ c, chatters.Reach free c ∧ (inputsOf alice c.past).length = 4
      ∧ ∃ before clock i, inputsOf alice c.past = before ++ [(clock, i)] ∧ Ending i (.ok ()) := by
  let quits := [press (.char '/'), press (.char 'q'), press .enter]
  obtain ⟨c, hc, hat⟩ := Machine.exec_reach_free (M := chatters)
    (fun c => ((c.state.client alice).hasQuit, (inputsOf alice c.past).length)) (true, 4)
    (enters alice "alice" ++ ((clock, .tick) :: quits).map fun x => .turn alice x.1 x.2)
    (by decide)
  obtain ⟨hquit, hlen⟩ := Prod.mk.inj hat
  exact ⟨c, hc, hlen, loop_unbroken hc rfl (ended_of_hasQuit hquit)⟩

end ChatRs

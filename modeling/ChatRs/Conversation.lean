import ChatRs.Admission
import ChatRs.Chat
import ChatRs.Client.Ephemeral
import ChatRs.Lossy

/-!
# What members read of each other

A member with this client types a line. It is sealed, sent, checked, stored, broadcast, delivered,
filtered and opened, while other members, with this client or with any other, do as they please.
Each stage hands on a part of what it gets, in the order of the sender, so what a member with this
client reads of another is part of what that one typed:

* **`taken_eq`**: what a client displays live is what its filter admits of what it heard;
* **`pane_entry`**: nothing else is in its pane, up to notices;
* **`received_relayed`**, **`received_increasing`**: it was relayed, and comes in order;
* **`letter_of_relayed`**: so it is a letter of the sender's, with the text that was typed;
* **`conversation`**: the parts together.
-/

namespace ChatRs

open Machine (Config Guard free)

/-! ## What a client displays -/

namespace Client

section

variable (aead : Aead) (roomKey : Key)

/-- The message that is displayed in one turn. -/
def takenIn (s : UiState) (clock : Clock) : Input → List Received
  | .incoming (some (.ok (.message m))) =>
    if (s.tryAcceptCounter m.ad.fromId m.ad.counter).1 then [(clock, m)] else []
  | _ => []

def taken : UiState → List (Clock × Input) → List Received :=
  along aead roomKey (takenIn)

/-- **The loop is the filter**, whatever keys and ticks come in between. -/
theorem taken_eq (s : UiState) (inputs : List (Clock × Input)) :
    taken aead roomKey s inputs = accepted s.level (heard aead roomKey s inputs) := by
  unfold taken heard accepted
  induction inputs generalizing s with
  | nil => rfl
  | cons x inputs ih =>
    obtain ⟨clock, i⟩ := x
    rw [along, along]
    by_cases hi : ∃ f, i = .incoming (some (.ok f))
    · obtain ⟨f, rfl⟩ := hi
      cases f with
      | message m =>
        rw [turn_handled aead roomKey s clock (handleServerFrame_message_fst ..)]
        show (if (s.tryAcceptCounter m.ad.fromId m.ad.counter).1 then [(clock, m)] else [])
            ++ along aead roomKey takenIn _ inputs
          = if s.level m.ad.fromId < m.ad.counter.toNat then _ else _
        rw [ih, handleServerFrame_message_level, UiState.tryAcceptCounter_fst]
        -- the loop takes the message exactly if the filter does
        by_cases hlt : s.level m.ad.fromId < m.ad.counter.toNat
        · rw [if_pos hlt, if_pos (decide_eq_true hlt)]
          rfl
        · rw [if_neg hlt, if_neg (by rw [decide_eq_false hlt]; decide)]
          rfl
      | cleared by_ username =>
        rw [turn_handled aead roomKey s clock rfl]
        show along aead roomKey takenIn _ inputs = HighWater.admitted _ _ _ (liveMessages _)
        rw [ih, handleServerFrame_cleared_level]
        rfl
      | hello | welcome | error => rfl
    · -- no other input brings a message
      have hquiet : takenIn s clock i = [] := by
        unfold takenIn
        split
        · rename_i m
          exact absurd ⟨_, rfl⟩ hi
        · rfl
      have hheard := (quiet_turn s clock i fun f hf => hi ⟨f, hf⟩).1
      have hlevel := turn_level aead roomKey s clock i fun f hf => hi ⟨f, hf⟩
      rw [hquiet, hheard, List.nil_append, List.nil_append]
      split
      · rfl
      · rename_i s' heq
        rw [heq] at hlevel
        rw [ih, hlevel]

/-- **What is made of the messages that are composed is numbered**, one by one. -/
theorem made_increasing {α : Type} {g : Typed → Option α} (ad : α → MessageAd)
    (hg : ∀ t x, g t = some x → t.ad? = some (ad x)) (s : UiState) (inputs : List (Clock × Input))
    (hfew : s.author.nextCounter.toNat
      + ((typed aead roomKey s inputs).filterMap Typed.ad?).length < 2 ^ 64) :
    ((typed aead roomKey s inputs).filterMap g).Pairwise
      fun x y => (ad x).counter.toNat < (ad y).counter.toNat := by
  have hordered := (composed_writes aead roomKey s inputs).increasing hfew
  have hads : (((typed aead roomKey s inputs).filterMap g).map ad).Sublist
      (composed aead roomKey s inputs) := by
    unfold composed
    induction typed aead roomKey s inputs with
    | nil => exact List.Sublist.refl _
    | cons t ts ih =>
      cases hmade : g t with
      | none =>
        rw [List.filterMap_cons_none hmade]
        refine ih.trans ?_
        rw [← List.singleton_append, List.filterMap_append]
        exact List.sublist_append_right _ _
      | some x =>
        rw [List.filterMap_cons_some hmade, List.filterMap_cons_some (hg t x hmade)]
        exact ih.cons_cons (ad x)
  have hmade := List.pairwise_map.mp (hordered.sublist hads)
  exact hmade

/-- The pane of a loop is what the turns make of it. -/
theorem eventLoop_showing (s : UiState) (inputs : List (Clock × Input)) :
    (Client.eventLoop aead roomKey s inputs).2.messages
      = showing s.messages (along aead roomKey (turnEvents aead roomKey) s inputs) := by
  induction inputs generalizing s with
  | nil => rfl
  | cons x inputs ih =>
    obtain ⟨clock, i⟩ := x
    have hturn := turn_messages aead roomKey s clock i
    rw [Client.eventLoop, along, showing_append, ← hturn]
    split
    · rename_i heq
      rw [heq]
      rfl
    · rename_i heq
      rw [heq]
      exact ih _

/-- The history arrives on the screen before the loop begins. -/
theorem replayHistory_showing (s : UiState) (history : List Received) :
    (replayHistory aead roomKey s history).messages
      = showing s.messages
          (history.map fun x => .arrived (decryptToDisplay aead roomKey x.1 x.2)) := by
  induction history generalizing s with
  | nil => rfl
  | cons x history ih =>
    rw [replayHistory, ih, UiState.push_messages, UiState.tryAcceptCounter_messages]
    rfl

/-- What arrives with a frame is a notice, or the message that is displayed. -/
theorem arrived_of_frame {s : UiState} {clock : Clock} {f : ServerFrame} {entry : DisplayMsg}
    (h : .arrived entry ∈ (frameLog s clock f).map (Shown.event aead roomKey)) :
    (∃ text, entry = systemMsg clock text)
      ∨ ∃ x ∈ takenIn s clock (.incoming (some (.ok f))),
          entry = decryptToDisplay aead roomKey x.1 x.2 := by
  cases f with
  | message m =>
    simp only [frameLog] at h
    simp only [takenIn]
    split at h
    · rename_i hnew
      rw [if_pos hnew]
      cases List.mem_singleton.mp h
      exact .inr ⟨_, List.mem_singleton_self _, rfl⟩
    · cases List.mem_singleton.mp h
      exact .inl ⟨_, rfl⟩
  | cleared by_ username =>
    rcases List.mem_cons.mp h with h | h
    · cases h
    · cases List.mem_singleton.mp h
      exact .inl ⟨_, rfl⟩
  | hello | welcome | error => cases h

/-- What arrives in a turn is a notice, or the message that is displayed. -/
theorem arrived_of_turn {s : UiState} {clock : Clock} {i : Input} {entry : DisplayMsg}
    (h : .arrived entry ∈ turnEvents aead roomKey s clock i) :
    (∃ text, entry = systemMsg clock text)
      ∨ ∃ x ∈ takenIn s clock i, entry = decryptToDisplay aead roomKey x.1 x.2 := by
  cases i with
  | key k random written =>
    simp only [turnEvents, keyEvents] at h
    split at h
    · cases List.mem_singleton.mp h
    · obtain ⟨t, _, ht⟩ := List.mem_filterMap.mp h
      unfold Typed.notice? at ht
      split at ht
      · cases ht
        exact .inl ⟨_, rfl⟩
      · cases ht
  | incoming r =>
    cases r with
    | none => cases h
    | some r =>
      cases r with
      | error e => cases h
      | ok f => exact arrived_of_frame aead roomKey h
  | tick => cases List.mem_singleton.mp h
  | drawFailed | otherEvent | eventError | eventsEnded => cases h

/-- What one log says of an entry of another one, turn by turn. -/
theorem mem_along_of {α β : Type} {log : UiState → Clock → Input → List α}
    (log' : UiState → Clock → Input → List β) {x : α} {P : Prop} {Q : β → Prop}
    (hlog : ∀ s clock i, x ∈ log s clock i → P ∨ ∃ y ∈ log' s clock i, Q y) (s : UiState)
    {inputs : List (Clock × Input)} (h : x ∈ along aead roomKey log s inputs) :
    P ∨ ∃ y ∈ along aead roomKey log' s inputs, Q y := by
  induction inputs generalizing s with
  | nil => cases h
  | cons x' inputs ih =>
    obtain ⟨clock, i⟩ := x'
    rw [along, List.mem_append] at h
    rw [along]
    rcases h with hnow | hlater
    · refine (hlog s clock i hnow).imp_right fun hy => ?_
      obtain ⟨y, hmem, hq⟩ := hy
      exact ⟨y, List.mem_append_left _ hmem, hq⟩
    · split at hlater
      · cases hlater
      · rename_i s' heq
        refine (ih s' hlater).imp_right fun hy => ?_
        obtain ⟨y, hmem, hq⟩ := hy
        exact ⟨y, List.mem_append_right _ hmem, hq⟩

/-- **Only notices and what was taken are in the pane.** -/
theorem pane_entry {username roomName : String} {userId : Uuid} {history : List Received}
    {inputs : List (Clock × Input)} {entry : DisplayMsg}
    (h : entry ∈ (Client.eventLoop aead roomKey
      (welcomed aead roomKey username userId roomName history) inputs).2.messages) :
    (∃ text, entry.kind = .system text)
      ∨ ∃ x ∈ history ++ taken aead roomKey
          (welcomed aead roomKey username userId roomName history) inputs,
        SameMessage (decryptToDisplay aead roomKey x.1 x.2) entry := by
  rw [eventLoop_showing, welcomed, replayHistory_showing, ← showing_append, ← welcomed] at h
  rw [show (UiState.new username userId roomName).messages = [] from rfl, ← entries_map_snd] at h
  obtain ⟨⟨n, m⟩, hmem, rfl⟩ := List.mem_map.mp h
  obtain ⟨m₀, harrived, hsame⟩ := arrived_of_mem_entries hmem
  rcases List.mem_append.mp (List.mem_of_getElem? harrived) with hhistory | hlive
  · obtain ⟨x, hx, heq⟩ := List.mem_map.mp hhistory
    cases heq
    exact .inr ⟨x, List.mem_append_left _ hx, hsame⟩
  · have htaken := mem_along_of aead roomKey (fun s clock i => takenIn s clock i)
      (P := ∃ text, m.kind = .system text)
      (Q := fun x => SameMessage (decryptToDisplay aead roomKey x.1 x.2) m)
      (fun s clock i hi => ?_) _ hlive
    · refine htaken.imp_right fun hx => ?_
      obtain ⟨x, hmem, hx⟩ := hx
      exact ⟨x, List.mem_append_right _ hmem, hx⟩
    rcases arrived_of_turn aead roomKey hi with ⟨text, rfl⟩ | ⟨x, hx, rfl⟩
    · exact .inl ⟨text, hsame.kind⟩
    · exact .inr ⟨x, hx, hsame⟩

end

end Client

/-! ## What a member typed and what another one reads -/

open Client

/-- A message as it is relayed when `id` typed it under its name. -/
def Typed.letter? (id : Uuid) (username : String) : Typed → Option RoomMessage
  | .message _ ad (.ok ct) =>
    some { fromId := id, username := username, ad := ad, ciphertext := ct }
  | _ => none

section

variable (aead : Aead) (roomKey : Key) (roomName : String) (id : Uuid) (username : String)
  (past : List ChatEvent)

def typedBy : List Typed :=
  (histories id past).flatMap fun history =>
    typed aead roomKey (welcomed aead roomKey username id roomName history) (inputsOf id past)

/-- The messages a member typed that could be sealed. -/
def lettersOf : List RoomMessage :=
  (typedBy aead roomKey roomName id username past).filterMap (Typed.letter? id username)

/-- What a member's client displayed, history and live. -/
def receivedBy : List Received :=
  (histories id past).flatMap fun history =>
    history ++ taken aead roomKey (welcomed aead roomKey username id roomName history)
      (inputsOf id past)

end

section

variable {aead : Aead} {roomKey : Key} {roomName : String} {users : Uuid → Option String}
  {G : Guard Chat ChatLabel ChatEvent} {c : Config Chat ChatEvent} {id : Uuid} {username : String}

/-- What a member has typed, from its welcome on. -/
theorem typedBy_of_talking {history : List Received}
    (h : Talking aead roomKey roomName c id username history) :
    typedBy aead roomKey roomName id username c.past
      = typed aead roomKey (welcomed aead roomKey username id roomName history)
          (inputsOf id c.past) := by
  rw [typedBy, h.histories, List.flatMap_singleton]

/-- What it has read: its history, and what came live with new counters. -/
theorem receivedBy_of_talking {history : List Received}
    (h : Talking aead roomKey roomName c id username history) :
    receivedBy aead roomKey roomName id username c.past
      = history ++ accepted (seeded history) (heard aead roomKey
          (welcomed aead roomKey username id roomName history) (inputsOf id c.past)) := by
  have hlevel : (welcomed aead roomKey username id roomName history).level = seeded history := by
    rw [welcomed, replayHistory_level, UiState.new_level, seeded]
  rw [receivedBy, h.histories, List.flatMap_singleton, taken_eq, hlevel]

/-- A client that has received or typed anything is in its loop. -/
theorem talking_of_histories (h : Connected aead roomKey roomName c id username)
    (hsome : histories id c.past ≠ []) :
    ∃ history, Talking aead roomKey roomName c id username history := by
  cases h with
  | outside huntouched | welcomed _ huntouched => exact absurd huntouched.histories hsome
  | talking history htalking => exact ⟨history, htalking⟩

/-! ## The reader -/

/-- What the client heard was relayed, in order. -/
theorem heard_authentic (h : (chat aead roomKey roomName users).Reach G c)
    {history : List Received} (htalking : Talking aead roomKey roomName c id username history) :
    (∀ f ∈ (heard aead roomKey (welcomed aead roomKey username id roomName history)
        (inputsOf id c.past)).map Prod.snd, ∃ k, f.origin = some k)
      ∧ Authentic (worldPast c.past) (messagesOf ((heard aead roomKey
        (welcomed aead roomKey username id roomName history) (inputsOf id c.past)).map
          Prod.snd)) := by
  have hroom := chat_room h
  have hheard : (heard aead roomKey (welcomed aead roomKey username id roomName history)
      (inputsOf id c.past)).map Prod.snd <+: deliveredTo id (worldPast c.past) :=
    ⟨_, htalking.heard⟩
  have hsublist := (hheard.trans (delivered_begins hroom id)).sublist
  refine ⟨fun f hf => ?_, (outbox_authentic hroom id).sublist (hsublist.filterMap _)⟩
  exact accepted_origin hroom f (accepted_of_enqueued hroom id f (hsublist.subset hf))

/-- **What a member reads was relayed**, from the history or live. -/
theorem received_relayed (h : (chat aead roomKey roomName users).Reach G c)
    (huser : users id = some username) :
    ∀ x ∈ receivedBy aead roomKey roomName id username c.past,
      Relayed (worldPast c.past) x.2 := by
  intro x hx
  have hsome : histories id c.past ≠ [] := by
    intro hnone
    rw [receivedBy, hnone] at hx
    cases hx
  obtain ⟨history, htalking⟩ := talking_of_histories (connected h huser) hsome
  rw [receivedBy_of_talking htalking] at hx
  rcases List.mem_append.mp hx with hhistory | hlive
  · exact (welcome_authentic (chat_room h) _ _ htalking.snapshotted).relayed x.2
      (List.mem_map_of_mem hhistory)
  · obtain ⟨horigin, hauthentic⟩ := heard_authentic h htalking
    exact hauthentic.relayed x.2 (mem_of_live horigin (HighWater.of_mem_admitted hlive).1)

/-- **And each sender's messages come in order**, each once. -/
theorem received_increasing (h : (chat aead roomKey roomName users).Reach G c)
    (huser : users id = some username) :
    HighWater.Increasing Received.sender Received.counter
      (receivedBy aead roomKey roomName id username c.past) := by
  by_cases hsome : histories id c.past = []
  · rw [receivedBy, hsome]
    exact List.Pairwise.nil
  obtain ⟨history, htalking⟩ := talking_of_histories (connected h huser) hsome
  have hwelcome := welcome_authentic (chat_room h) _ _ htalking.snapshotted
  rw [receivedBy_of_talking htalking]
  refine List.pairwise_append.mpr ⟨?_, HighWater.admitted_increasing _ _, fun x hx y hy hk => ?_⟩
  · refine (List.pairwise_map.mp hwelcome.ordered.2).imp_of_mem fun {x y} hx hy hlt hk => hlt ?_
    have hsender (z : Received) (hz : z ∈ history) : z.sender = z.2.fromId :=
      (hwelcome.relayed _ (List.mem_map_of_mem hz)).fromId
    rw [← hsender x hx, ← hsender y hy, hk]
  · exact HighWater.admitted_above _ hx hy hk

/-! ## The writer -/

/-- **What was relayed of a member is a letter of its.** -/
theorem letter_of_relayed (h : (chat aead roomKey roomName users).Reach G c)
    (huser : users id = some username) {m : RoomMessage} (hm : Relayed (worldPast c.past) m)
    (hfrom : m.fromId = id) :
    m.username = username ∧ ∃ body, .message body m.ad (.ok m.ciphertext)
      ∈ typedBy aead roomKey roomName id username c.past := by
  subst hfrom
  refine ⟨(named h huser).2 _ hm.registered, ?_⟩
  have hincoming : .message m.ad m.ciphertext ∈ incomingFrom m.fromId (worldPast c.past) :=
    List.mem_filterMap.mpr ⟨_, hm.incoming, if_pos rfl⟩
  cases connected h huser with
  | outside huntouched | welcomed _ huntouched =>
    rw [huntouched.incoming] at hincoming
    cases hincoming
  | talking history htalking =>
    have hproduced := htalking.sent.subset (List.mem_append_left _ hincoming)
    rw [produced_eq, ← typedBy_of_talking htalking] at hproduced
    obtain ⟨t, ht, hframe⟩ := List.mem_filterMap.mp hproduced
    unfold Typed.frame? at hframe
    split at hframe
    · cases hframe
    · rename_i body ad ct
      cases hframe
      exact ⟨body, ht⟩
    · cases hframe

/-- A message with its name and a body it typed is a letter of the member. -/
theorem mem_lettersOf {m : RoomMessage} (h : m.username = username ∧ ∃ body,
      .message body m.ad (.ok m.ciphertext) ∈ typedBy aead roomKey roomName id username c.past)
    (hfrom : m.fromId = id) : m ∈ lettersOf aead roomKey roomName id username c.past := by
  obtain ⟨hname, body, htyped⟩ := h
  refine List.mem_filterMap.mpr ⟨_, htyped, ?_⟩
  rw [Typed.letter?, ← hfrom, ← hname]

/-- **The letters of a member are numbered.** -/
theorem letters_increasing (h : Connected aead roomKey roomName c id username)
    (hfew : ((typedBy aead roomKey roomName id username c.past).filterMap Typed.ad?).length
      < 2 ^ 64 - 1) :
    (lettersOf aead roomKey roomName id username c.past).Pairwise
      fun m m' => m.count < m'.count := by
  by_cases hsome : histories id c.past = []
  · rw [lettersOf, typedBy, hsome]
    exact List.Pairwise.nil
  obtain ⟨history, htalking⟩ := talking_of_histories h hsome
  have hauthor : (welcomed aead roomKey username id roomName history).author = ⟨id, username, 1⟩ :=
    replayHistory_author aead roomKey _ history
  rw [typedBy_of_talking htalking] at hfew
  rw [lettersOf, typedBy_of_talking htalking]
  refine made_increasing aead roomKey RoomMessage.ad (fun t m hm => ?_) _ _ ?_
  · unfold Typed.letter? at hm
    split at hm
    · cases hm
      rfl
    · cases hm
  · rw [hauthor]
    show (1 : UInt64).toNat + _ < 2 ^ 64
    have hone : (1 : UInt64).toNat = 1 := rfl
    omega

/-- A letter opens, and displays what was typed. -/
theorem display_of_typed (hcorrect : aead.Correct)
    (h : Connected aead roomKey roomName c id username) {body : String} {m : RoomMessage}
    (htyped : .message body m.ad (.ok m.ciphertext)
      ∈ typedBy aead roomKey roomName id username c.past) (clock : Clock) :
    decryptToDisplay aead roomKey clock m
      = { tsMs := m.ad.timestampMs
          kind := .message m.username body
          ephemeral := if m.ad.ephemeral then some ⟨clock.now, none⟩ else none } := by
  have hsome : histories id c.past ≠ [] := by
    intro hnone
    rw [typedBy, hnone] at htyped
    cases htyped
  obtain ⟨history, htalking⟩ := talking_of_histories h hsome
  rw [typedBy_of_talking htalking] at htyped
  obtain ⟨random, hseal⟩ := typed_sealed aead roomKey htyped
  cases random with
  | none => cases hseal
  | some nonce =>
    rw [decryptToDisplay, hcorrect.open_seal hseal]
    simp only [fromUtf8Lossy_strBytes]

end

/-! ## The two of them -/

section

variable {aead : Aead} {roomKey : Key} {roomName : String} {users : Uuid → Option String}
  {c : Config Chat ChatEvent} {writer reader : Uuid} {name name' : String}

/-- **A member reads a part of what another one typed**, in order. -/
theorem received_letters (h : (chat aead roomKey roomName users).Reach free c)
    (hwriter : users writer = some name) (hreader : users reader = some name')
    (hfew : ((typedBy aead roomKey roomName writer name c.past).filterMap Typed.ad?).length
      < 2 ^ 64 - 1) :
    (((receivedBy aead roomKey roomName reader name' c.past).filter
      fun x => x.sender = writer).map Prod.snd).Sublist
        (lettersOf aead roomKey roomName writer name c.past) := by
  apply HighWater.sublist_of_ordered RoomMessage.count
  · refine List.pairwise_map.mpr ?_
    exact (HighWater.increasing_iff_filter _).mp (received_increasing h hreader) writer
  · exact letters_increasing (connected h hwriter) hfew
  · intro m hm
    obtain ⟨x, hx, rfl⟩ := List.mem_map.mp hm
    obtain ⟨hx, hfrom⟩ := List.mem_filter.mp hx
    have hrelayed := received_relayed h hreader x hx
    have hsender : x.2.fromId = writer := hrelayed.fromId.symm.trans (of_decide_eq_true hfrom)
    exact mem_lettersOf (letter_of_relayed h hwriter hrelayed hsender) hsender

/-- **What members read of each other is what they typed.** Two connections have this client
behind them; everybody else in the room, the network and all the timing are arbitrary. At any moment
of a run

* the messages that the reader's client has displayed of the writer are some of those that were
  typed at the writer's, each once and in the order in which they were typed;
* each of them was displayed with the text that was typed, under the writer's name, with its time,
  and as ephemeral when it was a secret;
* what stands in the reader's pane are these displays, notices, and displays of other members'
  messages. -/
theorem conversation (h : (chat aead roomKey roomName users).Reach free c)
    (hcorrect : aead.Correct) (hwriter : users writer = some name)
    (hreader : users reader = some name')
    (hfew : ((typedBy aead roomKey roomName writer name c.past).filterMap Typed.ad?).length
      < 2 ^ 64 - 1) :
    (((receivedBy aead roomKey roomName reader name' c.past).filter
        fun x => x.sender = writer).map Prod.snd).Sublist
          (lettersOf aead roomKey roomName writer name c.past)
      ∧ (∀ x ∈ receivedBy aead roomKey roomName reader name' c.past, x.sender = writer →
        ∃ body, .message body x.2.ad (.ok x.2.ciphertext)
            ∈ typedBy aead roomKey roomName writer name c.past
          ∧ decryptToDisplay aead roomKey x.1 x.2
            = { tsMs := x.2.ad.timestampMs
                kind := .message name body
                ephemeral := if x.2.ad.ephemeral then some ⟨x.1.now, none⟩ else none })
      ∧ ∀ ui, c.state.client reader = .running ui → ∀ entry ∈ ui.messages,
        (∃ text, entry.kind = .system text)
          ∨ ∃ x ∈ receivedBy aead roomKey roomName reader name' c.past,
            SameMessage (decryptToDisplay aead roomKey x.1 x.2) entry := by
  refine ⟨received_letters h hwriter hreader hfew, fun x hx hfrom => ?_,
    fun ui hui entry hentry => ?_⟩
  · -- what the reader shows of the writer has been typed there
    have hrelayed := received_relayed h hreader x hx
    obtain ⟨hname, body, htyped⟩ := letter_of_relayed h hwriter hrelayed
      (hrelayed.fromId.symm.trans hfrom)
    refine ⟨body, htyped, ?_⟩
    rw [display_of_typed hcorrect (connected h hwriter) htyped, hname]
  · -- a running loop has read its Welcome
    have hsome : histories reader c.past ≠ [] := by
      intro hnone
      cases connected h hreader with
      | outside huntouched | welcomed _ huntouched =>
        rw [huntouched.client] at hui
        cases hui
      | talking _ htalking =>
        rw [htalking.histories] at hnone
        cases hnone
    obtain ⟨history, htalking⟩ := talking_of_histories (connected h hreader) hsome
    have hloop := Seat.after_eq_running (htalking.loop.symm.trans hui)
    rw [receivedBy, htalking.histories, List.flatMap_singleton]
    refine pane_entry aead roomKey ?_
    rw [hloop]
    exact hentry

end

/-! ## Alice writes to Bob -/

namespace Cast

def users (id : Uuid) : Option String :=
  if id = alice then some "alice" else if id = bob then some "bob" else none

abbrev chatters : Machine Chat ChatLabel ChatEvent := chat Aead.tagging roomKey "main" users

def serves (ls : List Label) : List ChatLabel := ls.map .server

def enters (id : Uuid) (username : String) : List ChatLabel :=
  serves (arrives id username ++ isWelcomed id) ++ [.join id fun _ => clock]

/-- What Alice types, as it is relayed. -/
def typedLetter : RoomMessage := ⟨alice, "alice", ad, sealedLetters 1⟩

/-- Alice types a line, and the server hands it on to Bob. -/
def aliceWrites : List ChatLabel :=
  enters alice "alice" ++ enters bob "bob" ++ (types 1).map (fun x => .turn alice x.1 x.2)
    ++ serves (sends alice (.message ad (sealedLetters 1)) ++ [.act alice .store]
      ++ broadcasts alice [alice, bob] ++ [.act bob (.outgoing (.ok ()))])

def bobReads : List ChatLabel :=
  aliceWrites ++ [.turn bob clock (.incoming (some (.ok (.message typedLetter))))]

end Cast

open Cast in
/-- Bob reads what Alice typed. -/
theorem conversation_alice_bob :
    ∃ c, chatters.Reach free c
      ∧ ((receivedBy Aead.tagging roomKey "main" bob "bob" c.past).filter
          fun x => x.sender = alice).map Prod.snd = [typedLetter]
      ∧ [typedLetter].Sublist (lettersOf Aead.tagging roomKey "main" alice "alice" c.past) := by
  obtain ⟨c, hc, hat⟩ := Machine.exec_reach_free (M := chatters)
    (fun c => (((receivedBy Aead.tagging roomKey "main" bob "bob" c.past).filter
        fun x => x.sender = alice).map Prod.snd,
      ((typedBy Aead.tagging roomKey "main" alice "alice" c.past).filterMap Typed.ad?).length))
    ([typedLetter], 1) bobReads (by decide)
  obtain ⟨hreceived, htyped⟩ := Prod.mk.inj hat
  have hall := conversation hc Aead.tagging_correct (show users alice = some "alice" from rfl)
    (show users bob = some "bob" from rfl) (by rw [htyped]; decide)
  refine ⟨c, hc, hreceived, ?_⟩
  rw [← hreceived]
  exact hall.1

end ChatRs

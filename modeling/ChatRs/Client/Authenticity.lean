import ChatRs.Client.Session

/-!
# Whose message a display entry is

Under an ideal AEAD a message that opens was sealed by a holder of the room key with exactly
the `ad` it carries. `decryptToDisplay` takes timestamp, ephemerality and text from what was
opened, but the name from the outer copy, which nothing authenticates: the display is genuine
in the runs in which every message that is decrypted and opens carries its sealed name outside
too, and a server that relabels one message breaks it, since whatever is decrypted gets on the
display (`shown_visited`).
-/

namespace ChatRs

/-- The states a session goes through: while the history is replayed, then in the event
loop. -/
inductive Visits (aead : Aead) (roomKey : Key) (username : String) (userId : Uuid)
    (room : String) (history : List Received) (frames : List (Clock × ServerFrame)) :
    UiState → Prop
  | replaying (done rest : List Received) (h : history = done ++ rest) :
      Visits aead roomKey username userId room history frames
        (replayHistory aead roomKey (UiState.new username userId room) done)
  | live (done rest : List (Clock × ServerFrame)) (h : frames = done ++ rest) :
      Visits aead roomKey username userId room history frames
        (session aead roomKey username userId room history done).2

/-- What a message entry shows is what one of the calls sealed. -/
def Genuine (calls : List SealCall) (entry : DisplayMsg) : Prop :=
  ∀ name text, entry.kind = .message name text →
    ∃ call ∈ calls, call.ad.username = name ∧ call.ad.timestampMs = entry.tsMs
      ∧ call.ad.ephemeral = entry.ephemeral.isSome ∧ fromUtf8Lossy call.plaintext = text

/-- Every message that is decrypted for display and opens has its sealed name outside too. -/
def NamesAgree (aead : Aead) (roomKey : Key) (history : List Received)
    (frames : List (Clock × ServerFrame)) : Prop :=
  ∀ x ∈ history ++ accepted (seeded history) frames,
    opens aead roomKey x.2 = true → x.2.username = x.2.ad.username

section

variable {aead : Aead} {roomKey : Key}

/-- What the client says itself claims no sender. -/
theorem systemMsg_genuine (calls : List SealCall) (clock : Clock) (text : String) :
    Genuine calls (systemMsg clock text) := by
  intro name body hkind
  cases hkind

/-- One message: the entry is genuine when the outer name is the sealed one. -/
theorem decryptToDisplay_genuine {calls : List SealCall} (hideal : aead.Ideal roomKey calls)
    (clock : Clock) {m : RoomMessage}
    (hname : opens aead roomKey m = true → m.username = m.ad.username) :
    Genuine calls (decryptToDisplay aead roomKey clock m) := by
  intro name text hkind
  unfold opens at hname
  unfold decryptToDisplay at hkind ⊢
  cases hopen : roomOpen aead roomKey m.ciphertext m.ad with
  | error e =>
    rw [hopen] at hkind
    cases hkind
  | ok pt =>
    rw [hopen] at hkind hname
    cases hkind
    obtain ⟨call, hcall, had, hpt⟩ := hideal.of_open hopen
    refine ⟨call, hcall, ?_, ?_, ?_, ?_⟩
    · rw [had, hname rfl]
    · rw [had]
    · rw [had]
      cases m.ad.ephemeral <;> rfl
    · rw [hpt]

/-- Where the entries of the display come from. -/
theorem session_entry {username : String} {userId : Uuid} {room : String}
    {history : List Received} {frames : List (Clock × ServerFrame)} {entry : DisplayMsg}
    (h : entry ∈ (session aead roomKey username userId room history frames).2.messages) :
    (∃ clock text, entry = systemMsg clock text) ∨
      ∃ x ∈ history ++ accepted (seeded history) frames,
        entry = decryptToDisplay aead roomKey x.1 x.2 := by
  rw [session_messages] at h
  have hlog := Ring.mem_of_mem_sinceWipe (List.mem_of_mem_drop h)
  obtain ⟨shown, hshown, hentry⟩ := List.mem_map.mp hlog
  cases shown with
  | received x =>
    right
    refine ⟨x, ?_, (Option.some.inj hentry).symm⟩
    rw [← received_sessionLog aead roomKey username userId room]
    exact List.mem_filterMap.mpr ⟨_, hshown, rfl⟩
  | notice clock text => exact .inl ⟨clock, text, (Option.some.inj hentry).symm⟩
  | wiped => cases hentry

/-! Both parts of a run only add to what reaches `decryptToDisplay`. -/

/-- The live messages of a longer session begin with those of a shorter one. -/
theorem liveMessages_prefix (done rest : List (Clock × ServerFrame)) :
    liveMessages done <+: liveMessages (done ++ rest) := by
  induction done with
  | nil => exact List.nil_prefix
  | cons x done ih =>
    obtain ⟨clock, f⟩ := x
    cases f with
    | message m => exact List.cons_prefix_cons.mpr ⟨rfl, ih⟩
    | cleared _ _ => exact ih
    | error _ => exact List.prefix_rfl
    | hello _ _ => exact List.prefix_rfl
    | welcome _ _ => exact List.prefix_rfl

/-- What was accepted stays so when more frames come. -/
theorem accepted_subset (level : Uuid → Nat) (done rest : List (Clock × ServerFrame)) :
    accepted level done ⊆ accepted level (done ++ rest) := by
  obtain ⟨later, hlater⟩ := liveMessages_prefix done rest
  rw [accepted, accepted, ← hlater, HighWater.admitted_append]
  exact List.subset_append_left _ _

/-- Where the names agree over the session, they agree over a beginning of the history. -/
theorem NamesAgree.of_history {done rest : List Received} {frames : List (Clock × ServerFrame)}
    (h : NamesAgree aead roomKey (done ++ rest) frames) : NamesAgree aead roomKey done [] := by
  intro x hx
  have hdone : x ∈ done := by simpa [accepted, liveMessages, HighWater.admitted] using hx
  exact h x (List.mem_append_left _ (List.mem_append_left _ hdone))

/-- Names that agree over a list of frames agree over a beginning of it. -/
theorem NamesAgree.of_frames {history : List Received} {done rest : List (Clock × ServerFrame)}
    (h : NamesAgree aead roomKey history (done ++ rest)) :
    NamesAgree aead roomKey history done := by
  intro x hx
  apply h x
  rcases List.mem_append.mp hx with hhistory | hlive
  · exact List.mem_append_left _ hhistory
  · exact List.mem_append_right _ (accepted_subset (seeded history) done rest hlive)

/-- Every entry on the screen is then what its sender sealed: from the ideal AEAD what opens was
sealed, and from the names who it is shown for. -/
theorem session_genuine {calls : List SealCall} (hideal : aead.Ideal roomKey calls)
    {username : String} {userId : Uuid} {room : String} {history : List Received}
    {frames : List (Clock × ServerFrame)} (hnames : NamesAgree aead roomKey history frames) :
    ∀ entry ∈ (session aead roomKey username userId room history frames).2.messages,
      Genuine calls entry := by
  intro entry hentry
  obtain ⟨clock, text, rfl⟩ | ⟨x, hx, rfl⟩ := session_entry hentry
  · exact systemMsg_genuine calls clock text
  · exact decryptToDisplay_genuine hideal x.1 (hnames x hx)

/-! ## Nothing that opens stays off the display

A message is on display as soon as it has gone through `decryptToDisplay`, so a run in which
every visited state is genuine leaves no room for a relabelled one.
-/

/-- What the event loop decrypts is the last log entry of a shorter run. -/
theorem loopLog_split {x : Received} {frames : List (Clock × ServerFrame)} (s : UiState)
    (h : x ∈ received (loopLog aead roomKey s frames)) :
    ∃ done rest log, frames = done ++ rest
      ∧ loopLog aead roomKey s done = log ++ [.received x] := by
  induction frames generalizing s with
  | nil => cases h
  | cons y frames ih =>
    obtain ⟨clock, f⟩ := y
    cases f with
    | message m =>
      rw [loopLog_message, received_append, List.mem_append] at h
      -- it is the frame at hand, if that is above its level, or a later one
      rcases h with hnow | hlater
      · rw [received_frameLog] at hnow
        split at hnow
        · rename_i hlt
          obtain rfl := List.mem_singleton.mp hnow
          refine ⟨[(clock, .message m)], frames, [], rfl, ?_⟩
          rw [loopLog_message, frameLog, UiState.tryAcceptCounter_fst,
            if_pos (decide_eq_true hlt)]
          rfl
        · cases hnow
      · obtain ⟨done, rest, log, rfl, hlog⟩ := ih _ hlater
        refine ⟨(clock, .message m) :: done, rest, frameLog s clock (.message m) ++ log, rfl, ?_⟩
        rw [loopLog_message, hlog, List.append_assoc]
    | cleared by_ username =>
      let s' := (handleServerFrame aead roomKey s clock (.cleared by_ username)).2
      have hlater : x ∈ received (loopLog aead roomKey s' frames) := h
      obtain ⟨done, rest, log, rfl, hlog⟩ := ih s' hlater
      refine ⟨(clock, .cleared by_ username) :: done, rest,
        frameLog s clock (.cleared by_ username) ++ log, rfl, ?_⟩
      show frameLog s clock (.cleared by_ username) ++ loopLog aead roomKey s' done = _
      rw [hlog, List.append_assoc]
    | error _ => cases h
    | hello _ _ => cases h
    | welcome _ _ => cases h

/-- The last entry of the log is on display. -/
theorem shown_of_log {username : String} {userId : Uuid} {room : String}
    {history : List Received} {frames : List (Clock × ServerFrame)} {log : List Shown}
    {x : Received}
    (h : sessionLog aead roomKey username userId room history frames = log ++ [.received x]) :
    decryptToDisplay aead roomKey x.1 x.2
      ∈ (session aead roomKey username userId room history frames).2.messages := by
  have hcap : 0 < HISTORY_CAP := by decide
  rw [session_messages, h, List.map_append]
  show _ ∈ (Ring.sinceWipe (log.map _ ++ [some (decryptToDisplay aead roomKey x.1 x.2)])).rtake _
  rw [Ring.sinceWipe_push, ← Ring.push_rtake hcap]
  exact List.mem_append_right _ (List.mem_singleton_self _)

/-- **Every message that is decrypted gets on the display.** -/
theorem shown_visited {username : String} {userId : Uuid} {room : String}
    {history : List Received} {frames : List (Clock × ServerFrame)} {x : Received}
    (hx : x ∈ history ++ accepted (seeded history) frames) :
    ∃ s, Visits aead roomKey username userId room history frames s
      ∧ decryptToDisplay aead roomKey x.1 x.2 ∈ s.messages := by
  rcases List.mem_append.mp hx with hhistory | hlive
  · obtain ⟨done, rest, hsplit⟩ := List.append_of_mem hhistory
    refine ⟨_, .replaying (done ++ [x]) rest (by simp [hsplit]), ?_⟩
    show _ ∈ (session aead roomKey username userId room (done ++ [x]) []).2.messages
    have hlog : sessionLog aead roomKey username userId room (done ++ [x]) []
        = done.map .received ++ [.received x] := by
      rw [sessionLog, List.map_append, loopLog, List.append_nil]
      rfl
    exact shown_of_log hlog
  · let s := replayHistory aead roomKey (UiState.new username userId room) history
    have hlevel : s.level = seeded history := by
      rw [replayHistory_level, UiState.new_level, seeded]
    rw [← hlevel, ← received_loopLog] at hlive
    obtain ⟨done, rest, log, hsplit, hloop⟩ := loopLog_split s hlive
    refine ⟨_, .live done rest hsplit, ?_⟩
    have hlog : sessionLog aead roomKey username userId room history done
        = (history.map .received ++ log) ++ [.received x] := by
      rw [sessionLog, hloop, List.append_assoc]
    exact shown_of_log hlog

/-- No two seal calls that differ in the name agree in everything else that is displayed. -/
def NamesDetermined (calls : List SealCall) : Prop :=
  ∀ c ∈ calls, ∀ d ∈ calls, c.ad.timestampMs = d.ad.timestampMs →
    c.ad.ephemeral = d.ad.ephemeral → fromUtf8Lossy c.plaintext = fromUtf8Lossy d.plaintext →
    c.ad.username = d.ad.username

/-- One message: a genuine entry has the sealed name, when the rest of the entry tells it. -/
theorem name_of_genuine {calls : List SealCall} (hideal : aead.Ideal roomKey calls)
    (hdetermined : NamesDetermined calls) {clock : Clock} {m : RoomMessage}
    (hopens : opens aead roomKey m = true)
    (hgenuine : Genuine calls (decryptToDisplay aead roomKey clock m)) :
    m.username = m.ad.username := by
  unfold opens at hopens
  unfold decryptToDisplay at hgenuine
  cases hopen : roomOpen aead roomKey m.ciphertext m.ad with
  | error e =>
    rw [hopen] at hopens
    cases hopens
  | ok pt =>
    rw [hopen] at hgenuine
    obtain ⟨call, hcall, had, hpt⟩ := hideal.of_open hopen
    obtain ⟨shown, hshown, hname, htime, heph, htext⟩ := hgenuine _ _ rfl
    have hephemeral : shown.ad.ephemeral = call.ad.ephemeral := by
      rw [heph, had]
      cases m.ad.ephemeral <;> rfl
    have hsame := hdetermined shown hshown call hcall (by rw [htime, had]) hephemeral
      (by rw [htext, hpt])
    rw [← hname, hsame, had]

/-- **Display authenticity.** In every session whose decrypted messages carry their sealed
names outside, every message entry that is ever on the display is one that was sealed under
the room key. Unless the same text was sealed under two names at one time, these are the only
sessions. -/
theorem display_genuine {calls : List SealCall} (hideal : aead.Ideal roomKey calls)
    (username : String) (userId : Uuid) (room : String) (history : List Received)
    (frames : List (Clock × ServerFrame)) :
    (NamesAgree aead roomKey history frames →
        ∀ s, Visits aead roomKey username userId room history frames s →
          ∀ entry ∈ s.messages, Genuine calls entry)
      ∧ (NamesDetermined calls →
        (∀ s, Visits aead roomKey username userId room history frames s →
          ∀ entry ∈ s.messages, Genuine calls entry) →
        NamesAgree aead roomKey history frames) := by
  constructor
  · intro hnames s hs
    cases hs with
    | replaying done rest h =>
      subst h
      show ∀ entry ∈ (session aead roomKey username userId room done []).2.messages, _
      exact session_genuine hideal hnames.of_history
    | live done rest h =>
      subst h
      exact session_genuine hideal hnames.of_frames
  · intro hdetermined hgenuine x hx hopens
    obtain ⟨s, hs, hentry⟩ := shown_visited hx
    exact name_of_genuine hideal hdetermined hopens (hgenuine s hs _ hentry)

end

/-! ## A relabelled message

Alice seals one message. The server hands it on under its own name, or under another one.
-/

namespace Relabel

def alice : Uuid := List.Vector.replicate 16 1

def bob : Uuid := List.Vector.replicate 16 2

def roomKey : Key := List.Vector.replicate 32 7

def clock : Clock := ⟨0, 0⟩

def call : SealCall where
  nonce := List.Vector.replicate NONCE_LEN 0
  plaintext := [0x68, 0x69]
  ad := { fromId := alice, username := "alice", counter := 1, timestampMs := 1000,
          ephemeral := false }

/-- The sealed message with an outer name of the server's choice. -/
def named (username : String) : RoomMessage where
  fromId := alice
  username := username
  ad := call.ad
  ciphertext := call.sealed

/-- A name outside the header is what is shown. -/
theorem display_named (username : String) :
    decryptToDisplay call.aead roomKey clock (named username)
      = { tsMs := 1000, kind := .message username "hi", ephemeral := none } := by
  have hopen : roomOpen call.aead roomKey (named username).ciphertext (named username).ad
      = .ok call.plaintext := call.open_sealed roomKey
  have htext : fromUtf8Lossy call.plaintext = "hi" := by decide
  rw [decryptToDisplay, hopen]
  simp only [htext]
  rfl

theorem visited (username : String) (history : List Received)
    (frames : List (Clock × ServerFrame)) :
    Visits call.aead roomKey username bob "main" history frames
      (session call.aead roomKey username bob "main" history frames).2 :=
  .live frames [] (List.append_nil frames).symm

end Relabel

open Relabel in
/-- Under its own name the message is on display, and genuine. -/
theorem display_genuine_alice :
    decryptToDisplay call.aead roomKey clock (named "alice") ∈
        (session call.aead roomKey "bob" bob "main" [(clock, named "alice")] []).2.messages
      ∧ ∀ entry ∈
          (session call.aead roomKey "bob" bob "main" [(clock, named "alice")] []).2.messages,
        Genuine [call] entry := by
  refine ⟨List.mem_singleton_self _, ?_⟩
  have hall := (display_genuine (call.aead_ideal roomKey) "bob" bob "main"
    [(clock, named "alice")] []).1
  refine hall (fun x hx _ => ?_) _ (visited "bob" _ [])
  have hx : x = (clock, named "alice") := by
    simpa [accepted, liveMessages, HighWater.admitted] using hx
  rw [hx]
  rfl

open Relabel in
/-- Under another name it is displayed as that one's: no seal call has it. -/
theorem relabelled_not_genuine :
    ¬ ∀ (aead : Aead) (key : Key) (calls : List SealCall) (username : String) (userId : Uuid)
        (room : String) (history : List Received) (frames : List (Clock × ServerFrame))
        (s : UiState), aead.Ideal key calls →
        Visits aead key username userId room history frames s →
        ∀ entry ∈ s.messages, Genuine calls entry := by
  intro h
  have hgenuine := h call.aead roomKey [call] "bob" bob "main" [(clock, named "mallory")] [] _
    (call.aead_ideal roomKey) (visited "bob" _ []) _ (List.mem_singleton_self _)
  obtain ⟨c, hc, hname, _⟩ := hgenuine "mallory" "hi" (by rw [display_named])
  rw [List.mem_singleton.mp hc] at hname
  exact absurd hname (by decide)

end ChatRs

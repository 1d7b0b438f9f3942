import ChatRs.Client.Authenticity
import ChatRs.Conversation

/-!
# A conversation over a server that is not trusted

The room key never reaches the server. Several clients hold it, and a server deals with each of
them as it likes: it chooses their connection ids, the histories of their Welcomes and all frames
they get, in any order and number. An ideal AEAD, and a key that nobody but these clients has,
bind what one of them reads of another to what the other typed:

* **`line_typed`**: a received message that opens is a line of the client whose id is in its header;
* **`Member.lines_increasing`**: the lines of a client are numbered;
* **`untrusted_server`**: so what is read live is, in order and without repetition, part of what was
  typed after everything that the history has of the writer, and every message on display is some
  client's line, with the text and the time it was typed with.

Some things stay the server's. It leaves out what it likes, it chooses the order of the history, a
`Cleared` of its own wipes the pane, and the name that is displayed is the outer one, which nothing
authenticates: it is the writer's if no message that opens was relabelled (`Member.Named`).
-/

namespace ChatRs

open Client

/-- A client that has come to its loop: what it was welcomed with, and what its loop got since. -/
structure Member where
  username : String
  userId : Uuid
  roomName : String
  history : List Received
  inputs : List (Clock × Input)

/-- The line that was typed and could be sealed, under its header. -/
def Typed.line? : Typed → Option (MessageAd × String)
  | .message body ad (.ok _) => some (ad, body)
  | _ => none

section

variable (aead : Aead) (roomKey : Key)

/-- What a received message says, if it opens. -/
def readLine (m : RoomMessage) : Option (MessageAd × String) :=
  match roomOpen aead roomKey m.ciphertext m.ad with
  | .ok pt => some (m.ad, fromUtf8Lossy pt)
  | .error _ => none

namespace Member

def start (p : Member) : UiState := welcomed aead roomKey p.username p.userId p.roomName p.history

def typed (p : Member) : List Typed := Client.typed aead roomKey (p.start aead roomKey) p.inputs

/-- What was typed and went out. -/
def lines (p : Member) : List (MessageAd × String) := (p.typed aead roomKey).filterMap Typed.line?

/-- What was displayed since the Welcome. -/
def live (p : Member) : List Received := taken aead roomKey (p.start aead roomKey) p.inputs

/-- What was displayed since the Welcome under the id of `writer` and says something. -/
def reads (p writer : Member) : List (MessageAd × String) :=
  ((p.live aead roomKey).filter fun x => x.sender = writer.userId).filterMap
    fun x => readLine aead roomKey x.2

/-- No message that was decrypted and opened came under another name than the sealed one. -/
def Named (p : Member) : Prop :=
  NamesAgree aead roomKey p.history (heard aead roomKey (p.start aead roomKey) p.inputs)

/-- The message pane. -/
def pane (p : Member) : List DisplayMsg :=
  (Client.eventLoop aead roomKey (p.start aead roomKey) p.inputs).2.messages

end Member

/-- Nobody else has the room key: what is sealed under it is a line that a client typed. -/
def SealedBy (members : List Member) (calls : List SealCall) : Prop :=
  ∀ call ∈ calls, ∃ p ∈ members, ∃ body,
    (call.ad, body) ∈ p.lines aead roomKey ∧ call.plaintext = strBytes body

end

section

variable {aead : Aead} {roomKey : Key} {members : List Member} {calls : List SealCall}

/-- The header of a line is that of the frame it was typed into. -/
theorem ad_of_line {t : Typed} {l : MessageAd × String} (h : t.line? = some l) :
    t.ad? = some l.1 := by
  unfold Typed.line? at h
  split at h
  · cases h
    rfl
  · cases h

/-- A line is read from a message that opens. -/
theorem readLine_eq_some {m : RoomMessage} {l : MessageAd × String} :
    readLine aead roomKey m = some l
      ↔ ∃ pt, roomOpen aead roomKey m.ciphertext m.ad = .ok pt ∧ l = (m.ad, fromUtf8Lossy pt) := by
  unfold readLine
  cases roomOpen aead roomKey m.ciphertext m.ad with
  | ok pt => simp [eq_comm]
  | error e => simp

/-- The header of a line that is read is the one the message was sealed with. -/
theorem ad_of_readLine {m : RoomMessage} {l : MessageAd × String}
    (h : readLine aead roomKey m = some l) : l.1 = m.ad := by
  obtain ⟨pt, _, rfl⟩ := readLine_eq_some.mp h
  rfl

namespace Member

variable (aead roomKey)

theorem start_author (p : Member) : (p.start aead roomKey).author = ⟨p.userId, p.username, 1⟩ :=
  replayHistory_author aead roomKey _ p.history

theorem start_level (p : Member) : (p.start aead roomKey).level = seeded p.history := by
  rw [start, welcomed, replayHistory_level, UiState.new_level, seeded]

/-- What was displayed since the Welcome is what the filter of the reader let through. -/
theorem live_eq (p : Member) :
    p.live aead roomKey
      = accepted (seeded p.history) (heard aead roomKey (p.start aead roomKey) p.inputs) := by
  rw [live, taken_eq, start_level]

variable {aead roomKey}

/-- A reader to whom nothing was relabelled saw every message under its sealed name. -/
theorem Named.sealed {p : Member} (h : p.Named aead roomKey) {x : Received}
    (hx : x ∈ p.history ++ p.live aead roomKey) (hopens : opens aead roomKey x.2 = true) :
    x.2.username = x.2.ad.username := by
  rw [live_eq] at hx
  exact h x hx hopens

/-- The header of a line names the client it was typed at. -/
theorem signed_of_mem {p : Member} {l : MessageAd × String} (h : l ∈ p.lines aead roomKey) :
    l.1.fromId = p.userId ∧ l.1.username = p.username := by
  obtain ⟨t, ht, hline⟩ := List.mem_filterMap.mp h
  have hwrites := composed_writes aead roomKey (p.start aead roomKey) p.inputs
  have hsigned := hwrites.signed l.1 (List.mem_filterMap.mpr ⟨t, ht, ad_of_line hline⟩)
  rw [start_author] at hsigned
  exact hsigned

/-- **The lines of a client are numbered.** -/
theorem lines_increasing {p : Member}
    (hfew : ((p.typed aead roomKey).filterMap Typed.ad?).length < 2 ^ 64 - 1) :
    (p.lines aead roomKey).Pairwise fun l l' => l.1.counter.toNat < l'.1.counter.toNat := by
  refine made_increasing aead roomKey Prod.fst (fun t l => ad_of_line) _ _ ?_
  rw [start_author]
  show (1 : UInt64).toNat + ((p.typed aead roomKey).filterMap Typed.ad?).length < 2 ^ 64
  have hone : (1 : UInt64).toNat = 1 := rfl
  omega

/-- What is read is numbered as well, in whatever order it came. -/
theorem reads_increasing (p writer : Member) :
    (p.reads aead roomKey writer).Pairwise
      fun l l' => l.1.counter.toNat < l'.1.counter.toNat := by
  have htaken : HighWater.Increasing Received.sender Received.counter (p.live aead roomKey) := by
    rw [live_eq]
    exact HighWater.admitted_increasing _ _
  have hof := (HighWater.increasing_iff_filter _).mp htaken writer.userId
  refine List.pairwise_filterMap.mpr (hof.imp fun {x y} hlt l hl l' hl' => ?_)
  rw [ad_of_readLine hl, ad_of_readLine hl']
  exact hlt

end Member

/-- **What opens is a line**, of the client whose id and name are in the header. -/
theorem line_typed (hideal : aead.Ideal roomKey calls)
    (honly : SealedBy aead roomKey members calls) {m : RoomMessage} {l : MessageAd × String}
    (h : readLine aead roomKey m = some l) :
    ∃ p ∈ members, p.userId = m.ad.fromId ∧ p.username = m.ad.username
      ∧ l ∈ p.lines aead roomKey := by
  obtain ⟨pt, hopen, rfl⟩ := readLine_eq_some.mp h
  obtain ⟨call, hcall, had, hpt⟩ := hideal.of_open hopen
  obtain ⟨p, hp, body, hline, hbody⟩ := honly call hcall
  rw [had] at hline
  have hsigned := Member.signed_of_mem hline
  refine ⟨p, hp, hsigned.1.symm, hsigned.2.symm, ?_⟩
  rw [← hpt, hbody, fromUtf8Lossy_strBytes]
  exact hline

/-- What opens under an id that one client has is a line of that client. -/
theorem line_of_writer (hideal : aead.Ideal roomKey calls)
    (honly : SealedBy aead roomKey members calls) {writer : Member}
    (hwriter : ∀ p ∈ members, p.userId = writer.userId → p = writer) {m : RoomMessage}
    (hfrom : m.ad.fromId = writer.userId) {l : MessageAd × String}
    (h : readLine aead roomKey m = some l) : l ∈ writer.lines aead roomKey := by
  obtain ⟨p, hp, hid, _, hline⟩ := line_typed hideal honly h
  rw [← hwriter p hp (hid.trans hfrom)]
  exact hline

/-- **A message on display is some client's line**, with its time and ephemerality, and with its
name if no message was relabelled. -/
theorem pane_typed (hideal : aead.Ideal roomKey calls)
    (honly : SealedBy aead roomKey members calls) {reader : Member} {entry : DisplayMsg}
    (hentry : entry ∈ reader.pane aead roomKey) {name text : String}
    (hkind : entry.kind = .message name text) :
    ∃ p ∈ members, (∃ ad, (ad, text) ∈ p.lines aead roomKey ∧ ad.timestampMs = entry.tsMs
        ∧ ad.ephemeral = entry.ephemeral.isSome)
      ∧ (reader.Named aead roomKey → p.username = name) := by
  rcases pane_entry aead roomKey hentry with ⟨notice, hnotice⟩ | ⟨x, hx, hsame⟩
  · rw [hnotice] at hkind
    cases hkind
  have hshown := hsame.kind.symm.trans hkind
  have hephemeral : entry.ephemeral.isSome
      = (decryptToDisplay aead roomKey x.1 x.2).ephemeral.isSome := by
    have hsome := congrArg Option.isSome hsame.receivedAt
    rw [Option.isSome_map, Option.isSome_map] at hsome
    exact hsome
  have hts := hsame.tsMs
  -- a text on display has been opened, and what opens was sealed by a member
  unfold decryptToDisplay at hshown hephemeral hts
  cases hopen : roomOpen aead roomKey x.2.ciphertext x.2.ad with
  | error e =>
    rw [hopen] at hshown
    cases hshown
  | ok pt =>
    rw [hopen] at hshown hephemeral hts
    cases hshown
    obtain ⟨p, hp, _, hname, hline⟩ :=
      line_typed hideal honly (readLine_eq_some.mpr ⟨pt, hopen, rfl⟩)
    refine ⟨p, hp, ⟨x.2.ad, hline, hts.symm, ?_⟩, fun hnamed => ?_⟩
    · rw [hephemeral]
      cases x.2.ad.ephemeral <;> rfl
    · -- the name on display is that of the frame, not the sealed one
      have hopens : opens aead roomKey x.2 = true := by
        rw [opens, hopen]
        rfl
      exact hname.trans (hnamed.sealed hx hopens).symm

/-- **What an untrusted server cannot do.** The AEAD is ideal, only these clients have the room key,
and no other of them was given the writer's id. Then what the writer typed falls into two parts,
such that

* what the history of the reader's Welcome says under the writer's id is in the first part;
* what the reader's client displayed live under it is part of the second one, in order and without
  repetition, text, time and ephemerality as they were typed;
* and every message in the reader's pane is some client's line, with its text, time and
  ephemerality, and under that client's name if no message was relabelled to the reader. -/
theorem untrusted_server (hideal : aead.Ideal roomKey calls)
    (honly : SealedBy aead roomKey members calls) {writer : Member}
    (hwriter : ∀ p ∈ members, p.userId = writer.userId → p = writer) (reader : Member)
    (hfew : ((writer.typed aead roomKey).filterMap Typed.ad?).length < 2 ^ 64 - 1) :
    (∃ before after, writer.lines aead roomKey = before ++ after
      ∧ (∀ x ∈ reader.history, x.sender = writer.userId → ∀ l,
          readLine aead roomKey x.2 = some l → l ∈ before)
      ∧ (reader.reads aead roomKey writer).Sublist after)
    ∧ ∀ entry ∈ reader.pane aead roomKey, ∀ name text, entry.kind = .message name text →
        ∃ p ∈ members, (∃ ad, (ad, text) ∈ p.lines aead roomKey ∧ ad.timestampMs = entry.tsMs
            ∧ ad.ephemeral = entry.ephemeral.isSome)
          ∧ (reader.Named aead roomKey → p.username = name) := by
  refine ⟨?_, fun entry hentry name text hkind => pane_typed hideal honly hentry hkind⟩
  have hlines := Member.lines_increasing hfew
  -- the history has raised the reader's level of the writer's id to this
  obtain ⟨before, after, hsplit, hbefore, hafter⟩ :=
    HighWater.split_at_level (fun l : MessageAd × String => l.1.counter.toNat) hlines
      (seeded reader.history writer.userId)
  refine ⟨before, after, hsplit, fun x hx hfrom l hl => ?_, ?_⟩
  · have hline := line_of_writer hideal honly hwriter hfrom hl
    rw [hsplit] at hline
    refine (List.mem_append.mp hline).resolve_right fun hlate => ?_
    have hlevel : x.counter ≤ seeded reader.history writer.userId := by
      rw [← hfrom]
      exact HighWater.val_le_levels _ hx
    have habove := hafter l hlate
    rw [ad_of_readLine hl] at habove
    exact absurd hlevel (Nat.not_le.mpr habove)
  · rw [hsplit] at hlines
    refine HighWater.sublist_of_ordered (fun l : MessageAd × String => l.1.counter.toNat)
      (Member.reads_increasing reader writer) (List.pairwise_append.mp hlines).2.1 fun l hl => ?_
    obtain ⟨x, hx, hread⟩ := List.mem_filterMap.mp hl
    obtain ⟨hlive, hfrom⟩ := List.mem_filter.mp hx
    have hfrom : x.sender = writer.userId := of_decide_eq_true hfrom
    rw [Member.live_eq] at hlive
    have habove := (HighWater.of_mem_admitted hlive).2
    have hline := line_of_writer hideal honly hwriter hfrom hread
    rw [hsplit] at hline
    refine (List.mem_append.mp hline).resolve_left fun hearly => ?_
    have hlevel := hbefore l hearly
    rw [ad_of_readLine hread, ← hfrom] at hlevel
    exact absurd hlevel (Nat.not_le.mpr habove)

end

/-! ## The server shows Bob a letter of Alice's twice -/

namespace Cast

/-- The only call with the room key. -/
def letterCall : SealCall := ⟨List.Vector.replicate NONCE_LEN 0, strBytes (letters 1), ad⟩

def aliceTyping : Member := ⟨"alice", alice, "main", [], types 1⟩

/-- Bob's client gets what Alice typed, under another name, and then once more. -/
def bobReading : Member :=
  let relayed (name : String) : Clock × Input :=
    (clock, .incoming (some (.ok (.message { typedLetter with username := name }))))
  ⟨"bob", bob, "main", [], [relayed "mallory", relayed "alice"]⟩

theorem aliceTyping_lines : aliceTyping.lines letterCall.aead roomKey = [(ad, letters 1)] := by
  decide

end Cast

open Cast in
/-- Bob reads it once, word for word, under the name that the server chose; the replay shows as
dropped. -/
theorem untrusted_server_alice_bob :
    bobReading.reads letterCall.aead roomKey aliceTyping = [(ad, letters 1)]
      ∧ (bobReading.pane letterCall.aead roomKey).map DisplayMsg.kind
          = [.message "mallory" (letters 1), .system "dropped replay from alice"]
      ∧ ∃ before after, aliceTyping.lines letterCall.aead roomKey = before ++ after
        ∧ (bobReading.reads letterCall.aead roomKey aliceTyping).Sublist after := by
  have honly : SealedBy letterCall.aead roomKey [aliceTyping, bobReading] [letterCall] := by
    intro call hcall
    rw [List.mem_singleton.mp hcall]
    refine ⟨aliceTyping, by simp, letters 1, ?_, rfl⟩
    rw [aliceTyping_lines]
    exact List.mem_singleton_self _
  have hwriter : ∀ p ∈ [aliceTyping, bobReading], p.userId = aliceTyping.userId
      → p = aliceTyping := by
    intro p hp hid
    rcases List.mem_cons.mp hp with rfl | hp
    · rfl
    · rw [List.mem_singleton.mp hp] at hid
      exact absurd hid (by decide)
  obtain ⟨⟨before, after, hsplit, _, hreads⟩, _⟩ :=
    untrusted_server (SealCall.aead_ideal letterCall roomKey) honly hwriter bobReading (by decide)
  exact ⟨by decide, by decide, before, after, hsplit, hreads⟩

end ChatRs

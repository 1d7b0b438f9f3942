import ChatRs.Client.Keys
import ChatRs.Crypto.Noise

/-!
# The client's event loop (`client/mod.rs`)

All arms of `event_loop`: keys, frames of the server and the tick, in any order, and the draw that
each turn begins with, which may fail. Both sides of the network are arbitrary, so an input carries
what was read and whether a write succeeded; the server's frames may be any. A run is a list of
inputs with the clocks they are processed at.

* **`turn`**: one turn of the loop; `eventLoop` repeats it until it returns;
* **`along`**: what a run adds to a log, up to the turn that returns;
* **`composed_writes`**: what a run composes is what its author `Writes`, under consecutive
  counters (`Writes.counters`);
* **`alarms_eq_nil`**: no alarm is raised over messages that lie above what was seen of their
  sender and increase.
-/

namespace ChatRs

def ClientFrame.ad? : ClientFrame → Option MessageAd
  | .message ad _ => some ad
  | _ => none

namespace Client

/-- How a turn of `event_loop` begins: the draw at its top fails, or it succeeds and the `select!`
delivers something. -/
inductive Input where
  | drawFailed
  /-- `written` tells whether a frame that the key leads to can be written to the network. -/
  | key (k : KeyEvent) (random : Option Nonce) (written : Result Unit)
  | otherEvent
  | eventError
  | eventsEnded
  | incoming (r : Option (Result ServerFrame))
  | tick

/-- `send_encrypted`: what `snow` would have to write in more than its longest message is
refused. -/
def sendEncrypted (f : ClientFrame) (written : Result Unit) : Result Unit :=
  if transportSealLen (encodeClientFrame f) ≤ NOISE_BUF then written else .error .noise

section Code

variable (aead : Aead) (roomKey : Key)

/-- One turn of the loop: what it returns with, `none` to go on, and the state. -/
def turn (s : UiState) (clock : Clock) : Input → Option (Result Unit) × UiState
  | .drawFailed => (some (.error .io), s)
  | .key k random written =>
    match handleKey aead roomKey s clock random k with
    | (.quit, s) => (some (.ok ()), s)
    | (.send f, s) =>
      match sendEncrypted f written with
      | .ok _ => (none, s)
      | .error e => (some (.error e), s)
    | (.none, s) => (none, s)
  | .otherEvent => (none, s)
  | .eventError => (some (.error .io), s)
  | .eventsEnded => (some (.ok ()), s)
  | .incoming none => (some (.ok ()), s)
  | .incoming (some (.error e)) => (some (.error e), s)
  | .incoming (some (.ok f)) =>
    match handleServerFrame aead roomKey s clock f with
    | (some err, s) => (some (.error err), s)
    | (none, s) => (none, s)
  | .tick => (none, s.tickExpireEphemerals clock)

def eventLoop : UiState → List (Clock × Input) → Option (Result Unit) × UiState
  | s, [] => (none, s)
  | s, (clock, i) :: rest =>
    match turn aead roomKey s clock i with
    | (some result, s) => (some result, s)
    | (none, s) => eventLoop s rest

/-- The state after the Welcome, when the loop starts. -/
def welcomed (username : String) (userId : Uuid) (room : String) (history : List Received) :
    UiState :=
  replayHistory aead roomKey (UiState.new username userId room) history

/-! ## Logs of a run -/

/-- What the turns of a run add to a log, the returning one included. -/
def along {α : Type} (log : UiState → Clock → Input → List α) :
    UiState → List (Clock × Input) → List α
  | _, [] => []
  | s, (clock, i) :: rest =>
    log s clock i ++
      match turn aead roomKey s clock i with
      | (some _, _) => []
      | (none, s) => along log s rest

/-- The frame that is handed to `send_encrypted` in one turn. -/
def producedIn (s : UiState) (clock : Clock) : Input → List ClientFrame
  | .key k random _ => (handleKey aead roomKey s clock random k).1.frame?.toList
  | _ => []

/-- What is composed in one turn. -/
def typedIn (s : UiState) (clock : Clock) : Input → List Typed
  | .key k random _ => keyLog aead roomKey s clock random k
  | _ => []

/-- The frame of the server that is handled in one turn. -/
def heardIn (clock : Clock) : Input → List (Clock × ServerFrame)
  | .incoming (some (.ok f)) => [(clock, f)]
  | _ => []

/-- The message over which `handle_server_frame` says "dropped replay". -/
def alarmsIn (s : UiState) (clock : Clock) : Input → List Received
  | .incoming (some (.ok (.message m))) =>
    if (s.tryAcceptCounter m.ad.fromId m.ad.counter).1 then [] else [(clock, m)]
  | _ => []

def produced : UiState → List (Clock × Input) → List ClientFrame :=
  along aead roomKey (producedIn aead roomKey)

def typed : UiState → List (Clock × Input) → List Typed :=
  along aead roomKey (typedIn aead roomKey)

def heard : UiState → List (Clock × Input) → List (Clock × ServerFrame) :=
  along aead roomKey fun _ => heardIn

def alarms : UiState → List (Clock × Input) → List Received := along aead roomKey alarmsIn

/-- The messages composed, sealed or not. -/
def composed (s : UiState) (inputs : List (Clock × Input)) : List MessageAd :=
  (typed aead roomKey s inputs).filterMap Typed.ad?

end Code

/-! ## The author along a run -/

/-- The list is what an author writes, message after message. -/
inductive Writes : Author → List MessageAd → Prop
  | nil (a : Author) : Writes a []
  | cons {a : Author} {ad : MessageAd} {ads : List MessageAd} (hsigns : a.Signs ad)
      (hrest : Writes a.next ads) : Writes a (ad :: ads)

namespace Writes

variable {a : Author} {ads : List MessageAd}

/-- Everything that an author writes has its id and its name. -/
theorem signed (h : Writes a ads) :
    ∀ ad ∈ ads, ad.fromId = a.userId ∧ ad.username = a.username := by
  induction h with
  | nil => exact fun ad hmem => absurd hmem List.not_mem_nil
  | cons hsigns _ ih =>
    intro ad hmem
    rcases List.mem_cons.mp hmem with heq | hmem
    · rw [heq]
      exact ⟨hsigns.fromId, hsigns.username⟩
    · exact ih ad hmem

/-- **The counters are consecutive**, as long as they do not saturate. -/
theorem counters (h : Writes a ads) (hfew : a.nextCounter.toNat + ads.length < 2 ^ 64) :
    ads.map (fun ad => ad.counter.toNat) = List.range' a.nextCounter.toNat ads.length := by
  induction h with
  | nil => rfl
  | @cons a ad ads hsigns _ ih =>
    rw [List.length_cons] at hfew
    have hnext : a.next.nextCounter.toNat = a.nextCounter.toNat + 1 :=
      Author.next_nextCounter (by omega)
    rw [List.map_cons, ih (by omega), hnext, hsigns.counter, List.length_cons,
      List.range'_succ]

/-- What is written has counters that go up, before they wrap. -/
theorem increasing (h : Writes a ads) (hfew : a.nextCounter.toNat + ads.length < 2 ^ 64) :
    ads.Pairwise fun ad ad' => ad.counter.toNat < ad'.counter.toNat := by
  have hmap := h.counters hfew
  apply List.pairwise_map.mp
  rw [hmap]
  exact List.pairwise_lt_range'

/-- None of them below the counter it started with. -/
theorem above (h : Writes a ads) (hfew : a.nextCounter.toNat + ads.length < 2 ^ 64) :
    ∀ ad ∈ ads, a.nextCounter.toNat ≤ ad.counter.toNat := by
  intro ad hmem
  have hcounter := List.mem_map_of_mem (f := fun ad : MessageAd => ad.counter.toNat) hmem
  rw [h.counters hfew, List.mem_range'_1] at hcounter
  exact hcounter.1

end Writes

section

variable (aead : Aead) (roomKey : Key)

/-- No frame of the server changes who writes, or the next counter. -/
theorem handleServerFrame_author (s : UiState) (clock : Clock) (f : ServerFrame) :
    (handleServerFrame aead roomKey s clock f).2.author = s.author := by
  cases f with
  | message m =>
    have hsame := s.tryAcceptCounter_author m.ad.fromId m.ad.counter
    simp only [handleServerFrame]
    split
    · rename_i s' heq
      rw [heq] at hsame
      rw [UiState.pushSystem_author, hsame]
    · rename_i s' heq
      rw [heq] at hsame
      rw [UiState.push_author, hsame]
  | cleared by_ username =>
    rw [handleServerFrame, UiState.pushSystem_author]
    rfl
  | hello | welcome | error => rfl

/-- The replay of the history leaves the author alone. -/
theorem replayHistory_author (s : UiState) (history : List Received) :
    (replayHistory aead roomKey s history).author = s.author := by
  induction history generalizing s with
  | nil => rfl
  | cons x history ih =>
    rw [replayHistory, ih, UiState.push_author, UiState.tryAcceptCounter_author]

/-- The state of a turn that handles a key is the one `handleKey` leaves. -/
theorem turn_key (s : UiState) (clock : Clock) (k : KeyEvent) (random : Option Nonce)
    (written : Result Unit) :
    (turn aead roomKey s clock (.key k random written)).2
      = (handleKey aead roomKey s clock random k).2 := by
  simp only [turn]
  split
  · rename_i heq
    rw [heq]
  · rename_i heq
    rw [heq]
    split <;> rfl
  · rename_i heq
    rw [heq]

/-- A turn with a frame does with it what `handle_server_frame` does. -/
theorem turn_incoming (s : UiState) (clock : Clock) (f : ServerFrame) :
    (turn aead roomKey s clock (.incoming (some (.ok f)))).2
      = (handleServerFrame aead roomKey s clock f).2 := by
  simp only [turn]
  split <;> (rename_i heq; rw [heq])

/-- A frame that is no error lets the loop go on. -/
theorem turn_handled (s : UiState) (clock : Clock) {f : ServerFrame}
    (h : (handleServerFrame aead roomKey s clock f).1 = none) :
    turn aead roomKey s clock (.incoming (some (.ok f)))
      = (none, (handleServerFrame aead roomKey s clock f).2) := by
  simp only [turn]
  split
  · rename_i heq
    rw [heq] at h
    cases h
  · rename_i heq
    rw [heq]

/-- A turn composes nothing, or one message, which the author signs. -/
theorem turn_author (s : UiState) (clock : Clock) (i : Input) :
    ((typedIn aead roomKey s clock i).filterMap Typed.ad? = []
        ∧ (turn aead roomKey s clock i).2.author = s.author)
      ∨ ∃ ad, (typedIn aead roomKey s clock i).filterMap Typed.ad? = [ad] ∧ s.author.Signs ad
        ∧ (turn aead roomKey s clock i).2.author = s.author.next := by
  cases i with
  | key k random written =>
    rw [turn_key]
    exact (handleKey_step aead roomKey s clock random k).composes
  | incoming r =>
    refine .inl ⟨rfl, ?_⟩
    match r with
    | none => rfl
    | some (.error e) => rfl
    | some (.ok f) => rw [turn_incoming, handleServerFrame_author]
  | tick => exact .inl ⟨rfl, s.tickExpireEphemerals_author clock⟩
  | drawFailed | otherEvent | eventError | eventsEnded => exact .inl ⟨rfl, rfl⟩

/-- **What a run composes is what its author writes.** -/
theorem composed_writes (s : UiState) (inputs : List (Clock × Input)) :
    Writes s.author (composed aead roomKey s inputs) := by
  unfold composed typed
  induction inputs generalizing s with
  | nil => exact .nil _
  | cons x inputs ih =>
    obtain ⟨clock, i⟩ := x
    rw [along, List.filterMap_append]
    have hrest : Writes (turn aead roomKey s clock i).2.author
        (List.filterMap Typed.ad? (match turn aead roomKey s clock i with
          | (some _, _) => []
          | (none, s) => along aead roomKey (typedIn aead roomKey) s inputs)) := by
      split
      · exact .nil _
      · rename_i s' heq
        rw [heq]
        exact ih s'
    rcases turn_author aead roomKey s clock i with ⟨hnone, hsame⟩ | ⟨ad, hone, hsigns, hnext⟩
    · rw [hnone, List.nil_append, ← hsame]
      exact hrest
    · rw [hone]
      refine .cons hsigns ?_
      rw [← hnext]
      exact hrest

/-- A log read off another one, turn by turn. -/
theorem along_filterMap {α β : Type} {log : UiState → Clock → Input → List α}
    {log' : UiState → Clock → Input → List β} {g : α → Option β}
    (h : ∀ s clock i, log' s clock i = (log s clock i).filterMap g) (s : UiState)
    (inputs : List (Clock × Input)) :
    along aead roomKey log' s inputs = (along aead roomKey log s inputs).filterMap g := by
  induction inputs generalizing s with
  | nil => rfl
  | cons x inputs ih =>
    obtain ⟨clock, i⟩ := x
    rw [along, along, List.filterMap_append, h]
    congr 1
    split
    · rfl
    · exact ih _

/-- **What goes out is what was composed and could be sealed**, in this order. -/
theorem produced_eq (s : UiState) (inputs : List (Clock × Input)) :
    produced aead roomKey s inputs = (typed aead roomKey s inputs).filterMap Typed.frame? := by
  apply along_filterMap
  intro s clock i
  cases i with
  | key k random written => exact (handleKey_step aead roomKey s clock random k).frames.symm
  | drawFailed | otherEvent | eventError | eventsEnded | incoming | tick => rfl

/-- An entry of a log was written in one of the turns. -/
theorem mem_along {α : Type} {log : UiState → Clock → Input → List α} {x : α} (s : UiState)
    {inputs : List (Clock × Input)} (h : x ∈ along aead roomKey log s inputs) :
    ∃ s' clock i, x ∈ log s' clock i := by
  induction inputs generalizing s with
  | nil => cases h
  | cons y inputs ih =>
    obtain ⟨clock, i⟩ := y
    rw [along, List.mem_append] at h
    rcases h with h | h
    · exact ⟨s, clock, i, h⟩
    · split at h
      · cases h
      · rename_i s' heq
        exact ih s' h

/-- What went out under `ad` is a sealing of the body. -/
theorem typed_sealed {s : UiState} {inputs : List (Clock × Input)} {body : String}
    {ad : MessageAd} {ct : List UInt8}
    (h : .message body ad (.ok ct) ∈ typed aead roomKey s inputs) :
    ∃ random, roomSeal aead random roomKey (strBytes body) ad = .ok ct := by
  obtain ⟨s', clock, i, hi⟩ := mem_along aead roomKey s h
  cases i with
  | key k random written =>
    exact (handleKey_step aead roomKey s' clock random k).sealed_of_mem hi
  | drawFailed | otherEvent | eventError | eventsEnded | incoming | tick => cases hi

/-- The messages that go out are among those that are composed, in the same order. -/
theorem produced_sublist (s : UiState) (inputs : List (Clock × Input)) :
    ((produced aead roomKey s inputs).filterMap ClientFrame.ad?).Sublist
      (composed aead roomKey s inputs) := by
  rw [produced_eq]
  unfold composed
  induction typed aead roomKey s inputs with
  | nil => exact List.Sublist.refl _
  | cons t ts ih =>
    match t with
    | .clear => exact ih
    | .message body ad (.ok ct) => exact ih.cons_cons ad
    | .message body ad (.error e) => exact ih.cons ad

/-! ## Alarms -/

/-- A turn that handles no frame of the server leaves the levels alone. -/
theorem turn_level (s : UiState) (clock : Clock) (i : Input)
    (h : ∀ f, i ≠ .incoming (some (.ok f))) : (turn aead roomKey s clock i).2.level = s.level := by
  cases i with
  | key k random written =>
    rw [turn_key]
    exact UiState.level_of_seenCounters (handleKey_step aead roomKey s clock random k).seenCounters
  | incoming r =>
    match r with
    | none => rfl
    | some (.error e) => rfl
    | some (.ok f) => exact absurd rfl (h f)
  | tick => exact UiState.level_of_seenCounters (s.tickExpireEphemerals_seenCounters clock)
  | drawFailed | otherEvent | eventError | eventsEnded => rfl

/-- Such a turn is neither heard nor a reason for an alarm. -/
theorem quiet_turn (s : UiState) (clock : Clock) (i : Input)
    (h : ∀ f, i ≠ .incoming (some (.ok f))) : heardIn clock i = [] ∧ alarmsIn s clock i = [] := by
  cases i with
  | incoming r =>
    match r with
    | none => exact ⟨rfl, rfl⟩
    | some (.error e) => exact ⟨rfl, rfl⟩
    | some (.ok f) => exact absurd rfl (h f)
  | drawFailed | key | otherEvent | eventError | eventsEnded | tick => exact ⟨rfl, rfl⟩

/-- **No alarm over what is new and in order**: the messages heard lie above the levels at the
start and increase. -/
theorem alarms_eq_nil (s : UiState) (inputs : List (Clock × Input))
    (hincreasing : HighWater.Increasing Received.sender Received.counter
      (liveMessages (heard aead roomKey s inputs)))
    (habove : ∀ x ∈ liveMessages (heard aead roomKey s inputs), s.level x.sender < x.counter) :
    alarms aead roomKey s inputs = [] := by
  unfold heard at hincreasing habove
  unfold alarms
  induction inputs generalizing s with
  | nil => rfl
  | cons x inputs ih =>
    obtain ⟨clock, i⟩ := x
    rw [along] at hincreasing habove ⊢
    by_cases hi : ∃ f, i = .incoming (some (.ok f))
    · obtain ⟨f, rfl⟩ := hi
      cases f with
      | message m =>
        rw [turn_handled aead roomKey s clock (handleServerFrame_message_fst ..)]
          at hincreasing habove ⊢
        obtain ⟨hhead, hrest⟩ := List.pairwise_cons.mp hincreasing
        -- the message is new, so that it raises no alarm
        have hnew : s.level m.ad.fromId < m.ad.counter.toNat := habove (clock, m) List.mem_cons_self
        have hnone : alarmsIn s clock (.incoming (some (.ok (.message m)))) = [] := by
          rw [alarmsIn, UiState.tryAcceptCounter_fst]
          exact if_pos (decide_eq_true hnew)
        rw [hnone]
        refine ih _ hrest fun x hx => ?_
        rw [handleServerFrame_message_level]
        rcases eq_or_ne x.sender m.ad.fromId with heq | hne
        · -- the level is the message's counter now, and the next of its sender lies above that
          have hlt : m.ad.counter.toNat < x.counter := hhead x hx heq.symm
          rw [heq, HighWater.raise_self, max_eq_right (le_of_lt hnew)]
          exact hlt
        · rw [HighWater.raise_of_ne _ _ hne]
          exact habove x (List.mem_cons_of_mem _ hx)
      | cleared by_ username =>
        rw [turn_handled aead roomKey s clock rfl] at hincreasing habove ⊢
        -- a wipe leaves the counters alone
        refine ih _ hincreasing fun x hx => ?_
        rw [handleServerFrame_cleared_level]
        exact habove x hx
      | hello | welcome | error => rfl
    · -- no other input is heard, raises an alarm or moves a counter
      have hquiet := quiet_turn s clock i fun f hf => hi ⟨f, hf⟩
      have hlevel := turn_level aead roomKey s clock i fun f hf => hi ⟨f, hf⟩
      rw [hquiet.2, List.nil_append]
      rw [hquiet.1, List.nil_append] at hincreasing habove
      split
      · rfl
      · rename_i s' heq
        rw [heq] at hincreasing habove hlevel
        exact ih s' hincreasing fun x hx => by rw [hlevel]; exact habove x hx

end

end Client

end ChatRs

import ChatRs.Client.Session

/-!
# Keys (`client/ui.rs`)

What the client makes of the keyboard: `handleKey` edits the input line, scrolls, and on Enter
turns the line into a frame. The parts of it that have a meaning of their own are named:

* **`parseLine`**: what a submitted line asks for;
* **`submit`**: the next counter is taken, the body is sealed under it;
* **`typed`**: what was composed, recorded along the branches of the code;
* **`handleKey_step`**: a key is a `KeyStep`, so who the client is and what it has seen do not
  change.
-/

namespace ChatRs

inductive KeyCode where
  | backspace
  | enter
  | up
  | down
  | pageUp
  | pageDown
  | home
  | end_
  | char (c : Char)
  -- the keys that are ignored
  | other
deriving DecidableEq

inductive KeyEventKind where
  | press
  | repeat_
  | release
deriving DecidableEq

/-- Of the modifiers only `KeyModifiers::CONTROL` is looked at. -/
structure KeyEvent where
  code : KeyCode
  control : Bool
  kind : KeyEventKind

inductive KeyAction where
  | none
  | send (f : ClientFrame)
  | quit

def KeyAction.frame? : KeyAction → Option ClientFrame
  | .send f => some f
  | _ => Option.none

namespace UiState

/-! ## The display under the keys -/

def revealEphemerals (s : UiState) (clock : Clock) : UiState :=
  let until_ := clock.now + Duration.fromMillis EPHEMERAL_REVEAL_MS
  { s with messages := s.messages.map fun m =>
      { m with ephemeral := m.ephemeral.map fun e => { e with revealedUntil := some until_ } } }

-- the saturating addition does not matter: the sum is clamped
def scrollUp (s : UiState) (n : Nat) : UiState := { s with scroll := s.scroll + n }.clampScroll

def scrollDown (s : UiState) (n : Nat) : UiState := { s with scroll := s.scroll - n }

def scrollToLatest (s : UiState) : UiState := { s with scroll := 0 }

def scrollToOldest (s : UiState) : UiState :=
  { s with scroll := s.messages.length - max s.lastInnerH 1 }

/-- Drops the ephemeral messages whose time is over, and masks the revealed ones again. -/
def tickExpireEphemerals (s : UiState) (clock : Clock) : UiState :=
  let ttl := Duration.fromMillis EPHEMERAL_TTL_MS
  let kept := s.messages.filter fun m =>
    match m.ephemeral with
    | some e => clock.now.durationSince e.receivedAt < ttl
    | none => true
  let dropped : Bool := kept.length < s.messages.length
  let s := { s with messages := kept }
  let s := if dropped then s.clampScroll else s
  { s with messages := s.messages.map fun m =>
      { m with ephemeral := m.ephemeral.map fun e =>
          match e.revealedUntil with
          | some until_ => if clock.now ≥ until_ then { e with revealedUntil := none } else e
          | none => e } }

end UiState

/-! ## A submitted line -/

inductive Command where
  | nothing
  | clear
  | quit
  | message (body : String) (ephemeral : Bool)
deriving DecidableEq

-- a bare "/s" is no prefix "/s " any more once the line is trimmed: it goes out as a message
def parseLine (line : String) : Command :=
  let trimmed := trimEnd line
  if trimmed.isEmpty then .nothing
  else if trimmed = "/c" ∨ trimmed = "/clear" then .clear
  else if trimmed = "/q" ∨ trimmed = "/quit" then .quit
  else
    match (stripPrefix trimmed "/s ").or (stripPrefix trimmed "/secret ") with
    | some rest =>
      let rest := trim rest
      if rest.isEmpty then .nothing else .message rest true
    | none => .message trimmed false

/-- The additional data of the next message. -/
def UiState.nextAd (s : UiState) (clock : Clock) (ephemeral : Bool) : MessageAd where
  fromId := s.userId
  username := s.username
  counter := s.nextCounter
  timestampMs := clock.nowMs
  ephemeral := ephemeral

section Code

variable (aead : Aead) (roomKey : Key)

-- the counter is used up whether or not the sealing succeeds
def submit (s : UiState) (clock : Clock) (random : Option Nonce) (body : String)
    (ephemeral : Bool) : KeyAction × UiState :=
  let ad := s.nextAd clock ephemeral
  let s := { s with nextCounter := saturatingAdd s.nextCounter 1 }
  match roomSeal aead random roomKey (strBytes body) ad with
  | .ok ct => (.send (.message ad ct), s)
  | .error _ => (.none, s.pushSystem clock "encryption failed")

-- the `KeyCode::Enter` arm of `handle_key`; `random` is what `getrandom::fill` delivers if the
-- line leads to a sealing
def enter (s : UiState) (clock : Clock) (random : Option Nonce) : KeyAction × UiState :=
  let line := s.input
  let s := { s with input := "" }
  match parseLine line with
  | .nothing => (.none, s)
  | .clear => (.send .clear, s)
  | .quit => (.quit, s)
  | .message body ephemeral => submit aead roomKey s clock random body ephemeral

def handleKey (s : UiState) (clock : Clock) (random : Option Nonce) (key : KeyEvent) :
    KeyAction × UiState :=
  if key.kind ≠ .press then (.none, s)
  else if key.control ∧ key.code = .char 'c' then (.quit, s)
  else if key.control ∧ key.code = .char 'r' then (.none, s.revealEphemerals clock)
  else
    match key.code with
    | .enter => enter aead roomKey s clock random
    | .backspace => (.none, { s with input := dropLastChar s.input })
    | .up => (.none, s.scrollUp 1)
    | .down => (.none, s.scrollDown 1)
    | .pageUp => (.none, s.scrollUp (max (s.lastInnerH - 1) 1))
    | .pageDown => (.none, s.scrollDown (max (s.lastInnerH - 1) 1))
    | .home => (.none, s.scrollToOldest)
    | .end_ => (.none, s.scrollToLatest)
    | .char c => (.none, { s with input := s.input.push c })
    | .other => (.none, s)

end Code

-- a line goes out without the blanks at its end, a secret one without those at its start too
example : parseLine "/s  hi " = .message "hi" true ∧ parseLine "/s " = .message "/s" false := by
  decide

/-! ## What was composed -/

/-- What a submitted line came to. -/
inductive Typed where
  | clear
  | message (body : String) (ad : MessageAd) (ciphertext : Result (List UInt8))

namespace Typed

/-- The frame that goes out, `none` for a message that could not be sealed. -/
def frame? : Typed → Option ClientFrame
  | clear => some .clear
  | message _ ad (.ok ct) => some (.message ad ct)
  | message _ _ (.error _) => none

def ad? : Typed → Option MessageAd
  | clear => none
  | message _ ad _ => some ad

end Typed

/-- The log of `enter`, along its branches. -/
def enterLog (aead : Aead) (roomKey : Key) (s : UiState) (clock : Clock)
    (random : Option Nonce) : List Typed :=
  match parseLine s.input with
  | .nothing => []
  | .clear => [.clear]
  | .quit => []
  | .message body ephemeral =>
    let ad := s.nextAd clock ephemeral
    [.message body ad (roomSeal aead random roomKey (strBytes body) ad)]

/-- The log of `handleKey`. -/
def keyLog (aead : Aead) (roomKey : Key) (s : UiState) (clock : Clock) (random : Option Nonce)
    (key : KeyEvent) : List Typed :=
  if key.kind = .press ∧ key.code = .enter then enterLog aead roomKey s clock random else []

/-! ## What a key does

The part of the state that outgoing messages are made from is the author; the part that
incoming messages are filtered by is the seen counters. A key changes the first only by
composing a message, and never the second.
-/

/-- Who writes, and the counter of the next message. -/
structure Author where
  userId : Uuid
  username : String
  nextCounter : UInt64

namespace Author

def next (a : Author) : Author := { a with nextCounter := saturatingAdd a.nextCounter 1 }

/-- The additional data is the author's, with the next counter. -/
structure Signs (a : Author) (ad : MessageAd) : Prop where
  fromId : ad.fromId = a.userId
  username : ad.username = a.username
  counter : ad.counter = a.nextCounter

@[simp] theorem next_userId (a : Author) : a.next.userId = a.userId := rfl

@[simp] theorem next_username (a : Author) : a.next.username = a.username := rfl

theorem next_nextCounter {a : Author} (h : a.nextCounter.toNat + 1 < 2 ^ 64) :
    a.next.nextCounter.toNat = a.nextCounter.toNat + 1 := saturatingAdd_toNat h

end Author

namespace UiState

def author (s : UiState) : Author := ⟨s.userId, s.username, s.nextCounter⟩

theorem nextAd_signs (s : UiState) (clock : Clock) (ephemeral : Bool) :
    s.author.Signs (s.nextAd clock ephemeral) := ⟨rfl, rfl, rfl⟩

/-- The replay levels depend on the counters that were seen, and on nothing else of the state. -/
theorem level_of_seenCounters {s s' : UiState} (h : s'.seenCounters = s.seenCounters) :
    s'.level = s.level := by
  funext sender
  rw [level, level, h]

@[simp] theorem clampScroll_author (s : UiState) : s.clampScroll.author = s.author := by
  simp only [clampScroll]
  split <;> rfl

@[simp] theorem push_author (s : UiState) (msg : DisplayMsg) : (s.push msg).author = s.author := by
  simp only [push, clampScroll_author]
  split <;> rfl

@[simp] theorem pushSystem_author (s : UiState) (clock : Clock) (text : String) :
    (s.pushSystem clock text).author = s.author := push_author s _

@[simp] theorem tryAcceptCounter_author (s : UiState) (sender : Uuid) (counter : UInt64) :
    (s.tryAcceptCounter sender counter).2.author = s.author := by
  unfold tryAcceptCounter
  simp only
  split <;> rfl

@[simp] theorem scrollUp_author (s : UiState) (n : Nat) : (s.scrollUp n).author = s.author := by
  rw [scrollUp, clampScroll_author]
  rfl

@[simp] theorem scrollUp_seenCounters (s : UiState) (n : Nat) :
    (s.scrollUp n).seenCounters = s.seenCounters := by
  rw [scrollUp, clampScroll_seenCounters]

@[simp] theorem tickExpireEphemerals_author (s : UiState) (clock : Clock) :
    (s.tickExpireEphemerals clock).author = s.author := by
  unfold tickExpireEphemerals
  simp only
  split
  · exact clampScroll_author _
  · rfl

/-- A tick forgets no counter. -/
@[simp] theorem tickExpireEphemerals_seenCounters (s : UiState) (clock : Clock) :
    (s.tickExpireEphemerals clock).seenCounters = s.seenCounters := by
  unfold tickExpireEphemerals
  simp only
  split
  · exact clampScroll_seenCounters _
  · rfl

end UiState

/-- What a key can do, with what it adds to the log. -/
inductive KeyStep (aead : Aead) (roomKey : Key) (s : UiState) :
    KeyAction → UiState → List Typed → Prop
  | edits (a : KeyAction) (s' : UiState) (hnothing : ∀ f, a ≠ .send f)
      (hauthor : s'.author = s.author) (hseen : s'.seenCounters = s.seenCounters) :
      KeyStep aead roomKey s a s' []
  | clears (s' : UiState) (hauthor : s'.author = s.author)
      (hseen : s'.seenCounters = s.seenCounters) :
      KeyStep aead roomKey s (.send .clear) s' [.clear]
  | sends (random : Option Nonce) (body : String) (ad : MessageAd) (ct : List UInt8) (s' : UiState)
      (hsigns : s.author.Signs ad)
      (hseal : roomSeal aead random roomKey (strBytes body) ad = .ok ct)
      (hauthor : s'.author = s.author.next) (hseen : s'.seenCounters = s.seenCounters) :
      KeyStep aead roomKey s (.send (.message ad ct)) s' [.message body ad (.ok ct)]
  | fails (body : String) (ad : MessageAd) (e : Error) (s' : UiState)
      (hsigns : s.author.Signs ad) (hauthor : s'.author = s.author.next)
      (hseen : s'.seenCounters = s.seenCounters) :
      KeyStep aead roomKey s .none s' [.message body ad (.error e)]

namespace KeyStep

variable {aead : Aead} {roomKey : Key} {s s' : UiState} {a : KeyAction} {log : List Typed}

/-- A key composes nothing, or one message, which the author signs. -/
theorem composes (h : KeyStep aead roomKey s a s' log) :
    (log.filterMap Typed.ad? = [] ∧ s'.author = s.author)
      ∨ ∃ ad, log.filterMap Typed.ad? = [ad] ∧ s.author.Signs ad ∧ s'.author = s.author.next := by
  cases h with
  | edits _ _ hnothing hauthor => exact .inl ⟨rfl, hauthor⟩
  | clears _ hauthor => exact .inl ⟨rfl, hauthor⟩
  | sends random body ad ct _ hsigns hseal hauthor => exact .inr ⟨ad, rfl, hsigns, hauthor⟩
  | fails body ad e _ hsigns hauthor => exact .inr ⟨ad, rfl, hsigns, hauthor⟩

theorem seenCounters (h : KeyStep aead roomKey s a s' log) : s'.seenCounters = s.seenCounters := by
  cases h <;> assumption

/-- What went out under `ad` is a sealing of the body. -/
theorem sealed_of_mem (h : KeyStep aead roomKey s a s' log) {body : String} {ad : MessageAd}
    {ct : List UInt8} (hmem : .message body ad (.ok ct) ∈ log) :
    ∃ random, roomSeal aead random roomKey (strBytes body) ad = .ok ct := by
  cases h with
  | edits => cases hmem
  | sends random body ad ct _ hsigns hseal =>
    cases List.mem_singleton.mp hmem
    exact ⟨random, hseal⟩
  | clears | fails => cases List.mem_singleton.mp hmem

/-- The log holds just the frame that is to be sent. -/
theorem frames (h : KeyStep aead roomKey s a s' log) :
    log.filterMap Typed.frame? = a.frame?.toList := by
  cases h with
  | edits _ _ hnothing =>
    cases a with
    | send f => exact absurd rfl (hnothing f)
    | none | quit => rfl
  | clears | sends | fails => rfl

end KeyStep

/-- Everything that Enter can do: it composes a frame with the next counter, says that it could not
be sealed, or takes no counter at all. -/
theorem enter_step (aead : Aead) (roomKey : Key) (s : UiState) (clock : Clock)
    (random : Option Nonce) :
    KeyStep aead roomKey s (enter aead roomKey s clock random).1
      (enter aead roomKey s clock random).2 (enterLog aead roomKey s clock random) := by
  simp only [enter, enterLog]
  cases parseLine s.input with
  | nothing => exact .edits .none _ nofun rfl rfl
  | clear => exact .clears _ rfl rfl
  | quit => exact .edits .quit _ nofun rfl rfl
  | message body ephemeral =>
    have hsigns := s.nextAd_signs clock ephemeral
    have hsame : ({ s with input := "" } : UiState).nextAd clock ephemeral
        = s.nextAd clock ephemeral := rfl
    simp only [submit, hsame]
    cases hseal : roomSeal aead random roomKey (strBytes body) (s.nextAd clock ephemeral) with
    | ok ct => exact .sends random body _ ct _ hsigns hseal rfl rfl
    | error e =>
      refine .fails body _ e _ hsigns ?_ ?_
      · rw [UiState.pushSystem_author]
        rfl
      · rw [UiState.pushSystem, UiState.push_seenCounters]

/-- **Inversion.** Every key does one of the listed things, and the log says which. -/
theorem handleKey_step (aead : Aead) (roomKey : Key) (s : UiState) (clock : Clock)
    (random : Option Nonce) (key : KeyEvent) :
    KeyStep aead roomKey s (handleKey aead roomKey s clock random key).1
      (handleKey aead roomKey s clock random key).2 (keyLog aead roomKey s clock random key) := by
  have hnothing (h : key.code ≠ .enter) : keyLog aead roomKey s clock random key = [] :=
    if_neg fun hboth => h hboth.2
  unfold handleKey
  split
  · -- a release or a repeat does nothing
    rename_i hkind
    rw [show keyLog aead roomKey s clock random key = [] from if_neg fun h => hkind h.1]
    exact .edits .none s nofun rfl rfl
  rename_i hkind
  split
  · rename_i hquit
    rw [hnothing (by rw [hquit.2]; exact nofun)]
    exact .edits .quit s nofun rfl rfl
  split
  · rename_i hreveal
    rw [hnothing (by rw [hreveal.2]; exact nofun)]
    exact .edits .none _ nofun rfl rfl
  cases hcode : key.code with
  -- the only key that is logged
  | enter =>
    rw [keyLog, if_pos ⟨not_not.mp hkind, hcode⟩]
    exact enter_step aead roomKey s clock random
  | up | pageUp =>
    rw [hnothing (by rw [hcode]; exact nofun)]
    exact .edits .none _ nofun (s.scrollUp_author _) (s.scrollUp_seenCounters _)
  | backspace | down | pageDown | home | end_ | char | other =>
    rw [hnothing (by rw [hcode]; exact nofun)]
    exact .edits .none _ nofun rfl rfl

end ChatRs

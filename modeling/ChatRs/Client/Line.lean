import ChatRs.Client.Ui

/-!
# A line of the room pane (`client/ui.rs`)

`formatLine` makes styled spans of a message at the instant it is drawn: the time of day, the
sender in a colour of its own, and the body. Of an ephemeral message the body is the mask, unless
it is revealed at that instant, and the sender is followed by the seconds that are left.

* **`formatLine_ephemeral`**: a line over an ephemeral message is a head in which the text has no
  part, and the mask or the text;
* **`isMasked_eq_false_iff`**: it is the text as long as a reveal lasts.
-/

namespace ChatRs

inductive Color where
  | cyan
  | green
  | magenta
  | yellow
  | blue
  | lightCyan
  | lightGreen
  | lightMagenta
  | lightYellow
  | darkGray
deriving DecidableEq

/-- `ratatui::style::Style`, as far as a line uses it. -/
structure Style where
  fg : Option Color
  bold : Bool
  italic : Bool
deriving DecidableEq

def Style.default : Style := ⟨none, false, false⟩

structure Span where
  content : String
  style : Style
deriving DecidableEq

abbrev Line := List Span

/-- `{n:02}`. -/
def twoDigits (n : Nat) : String := if n < 10 then "0" ++ toString n else toString n

def fmtTs (ms : UInt64) : String :=
  let secs := ms.toNat / 1000
  let h := secs / 3600 % 24
  let m := secs / 60 % 60
  let s := secs % 60
  twoDigits h ++ ":" ++ twoDigits m ++ ":" ++ twoDigits s

def PALETTE : List Color :=
  [.cyan, .green, .magenta, .yellow, .blue, .lightCyan, .lightGreen, .lightMagenta, .lightYellow]

def colorFor (username : String) : Color :=
  let h := (strBytes username).foldl (fun (h : UInt32) b => h * 31 + b.toUInt32) 0
  PALETTE.get ⟨h.toNat % PALETTE.length, Nat.mod_lt _ (by decide)⟩

/-- The whole seconds until an ephemeral message expires, rounded up. -/
def ephemeralSecsLeft (receivedAt now : Instant) : Nat :=
  let elapsedMs := now.durationSince receivedAt / 1000000 % 2 ^ 64
  (EPHEMERAL_TTL_MS - elapsedMs + 999) / 1000

-- full at arrival and in the first second, never zero before the end
example : ephemeralSecsLeft 0 0 = 30 ∧ ephemeralSecsLeft 0 (Duration.fromMillis 1) = 30
    ∧ ephemeralSecsLeft 0 (Duration.fromMillis 29999) = 1 := ⟨rfl, rfl, rfl⟩

/-- `e.revealed_until.is_none_or(|t| now >= t)`. -/
def EphemeralState.isMasked (e : EphemeralState) (now : Instant) : Bool :=
  match e.revealedUntil with
  | none => true
  | some until_ => now ≥ until_

def formatLine (m : DisplayMsg) (now : Instant) : Line :=
  let ts := fmtTs m.tsMs
  match m.kind with
  | .message username text =>
    let body : Span :=
      match m.ephemeral with
      | some e =>
        if e.isMasked now then ⟨EPHEMERAL_MASK, { Style.default with fg := some .darkGray }⟩
        else ⟨text, { Style.default with fg := some .lightYellow, italic := true }⟩
      | none => ⟨text, Style.default⟩
    let header : String :=
      match m.ephemeral with
      | some e => username ++ " (" ++ toString (ephemeralSecsLeft e.receivedAt now) ++ "): "
      | none => username ++ ": "
    [⟨"[" ++ ts ++ "] ", { Style.default with fg := some .darkGray }⟩,
      ⟨header, { Style.default with fg := some (colorFor username), bold := true }⟩,
      body]
  | .system text =>
    [⟨"[" ++ ts ++ "] ", { Style.default with fg := some .darkGray }⟩,
      ⟨text, { Style.default with fg := some .yellow, italic := true }⟩]

/-! ## Ephemeral messages -/

def maskSpan : Span := ⟨EPHEMERAL_MASK, { Style.default with fg := some .darkGray }⟩

def cleartextSpan (text : String) : Span :=
  ⟨text, { Style.default with fg := some .lightYellow, italic := true }⟩

/-- What stands in front of the body: the time, the sender and the seconds left. -/
def ephemeralHead (tsMs : UInt64) (username : String) (receivedAt now : Instant) : Line :=
  [⟨"[" ++ fmtTs tsMs ++ "] ", { Style.default with fg := some .darkGray }⟩,
    ⟨username ++ " (" ++ toString (ephemeralSecsLeft receivedAt now) ++ "): ",
      { Style.default with fg := some (colorFor username), bold := true }⟩]

/-- **The line of an ephemeral message**: a head that the text has no part in, and the mask or the
text. -/
theorem formatLine_ephemeral (tsMs : UInt64) (username text : String) (e : EphemeralState)
    (now : Instant) :
    formatLine ⟨tsMs, .message username text, some e⟩ now
      = ephemeralHead tsMs username e.receivedAt now
          ++ [if e.isMasked now then maskSpan else cleartextSpan text] := by
  simp only [formatLine, ephemeralHead, maskSpan, cleartextSpan, List.cons_append, List.nil_append]

theorem maskSpan_ne_cleartextSpan (text : String) : maskSpan ≠ cleartextSpan text := by
  intro h
  cases congrArg (fun span => span.style.italic) h

namespace EphemeralState

/-- An ephemeral message is masked unless a reveal lasts. -/
theorem isMasked_eq_false_iff {e : EphemeralState} {now : Instant} :
    e.isMasked now = false ↔ ∃ until_, e.revealedUntil = some until_ ∧ now < until_ := by
  unfold isMasked
  cases e.revealedUntil with
  | none => simp
  | some until_ => simp

end EphemeralState

end ChatRs

import ChatRs.Client.Viewport

/-!
# The cursor (`client/ui.rs`)

`render` puts the cursor behind the input, in `u16` columns: the column where the input box starts,
one for its border, and the number of characters that were typed, cut to sixteen bits. No key
bounds the input, so the sum goes beyond `u16::MAX` for some lengths.

* **`cursorX`**: the column, with the overflow checks of a debug build;
* **`typedLength`**: how long the input is, by the keys alone (`length_input`);
* **`cursor_fits_iff`**: the lengths for which the column fits.
-/

namespace ChatRs

open Client

/-- `+` on `u16`, `none` where it overflows. -/
def checkedAdd (a b : UInt16) : Option UInt16 :=
  if a.toNat + b.toNat < 2 ^ 16 then some (a + b) else none

/-- `cursor_x` in `render`, of an input box that starts at column `x`. -/
def UiState.cursorX (s : UiState) (x : UInt16) : Option UInt16 :=
  (checkedAdd x 1).bind fun y => checkedAdd y (UInt16.ofNat s.input.length)

/-- The sum of two columns is there if it does not overflow. -/
theorem checkedAdd_eq_some_iff {a b c : UInt16} :
    checkedAdd a b = some c ↔ c.toNat = a.toNat + b.toNat := by
  have hc : c.toNat < 2 ^ 16 := c.toNat_lt
  rw [checkedAdd]
  split
  · rename_i hfits
    rw [Option.some.injEq, ← UInt16.toNat_inj, UInt16.toNat_add]
    omega
  · simp only [reduceCtorEq, false_iff]
    omega

/-- The column is a sum of numbers, where there is one. -/
theorem UiState.cursorX_eq_some_iff {s : UiState} {x c : UInt16} :
    s.cursorX x = some c ↔ c.toNat = x.toNat + 1 + s.input.length % 2 ^ 16 := by
  simp only [UiState.cursorX, Option.bind_eq_some_iff, checkedAdd_eq_some_iff,
    UInt16.toNat_ofNat']
  constructor
  · rintro ⟨y, hy, hc⟩
    rw [hc, hy]
    rfl
  · intro hc
    have hlt : c.toNat < 2 ^ 16 := c.toNat_lt
    refine ⟨UInt16.ofNat (x.toNat + 1), ?_, ?_⟩
    · show (UInt16.ofNat (x.toNat + 1)).toNat = x.toNat + 1
      rw [UInt16.toNat_ofNat']
      omega
    · rw [UInt16.toNat_ofNat', hc]
      omega

/-- The cursor has a column if the line, cut to sixteen bits, still fits behind the pane's own. -/
theorem UiState.cursorX_isSome_iff {s : UiState} {x : UInt16} :
    (s.cursorX x).isSome ↔ x.toNat + 1 + s.input.length % 2 ^ 16 < 2 ^ 16 := by
  rw [Option.isSome_iff_exists]
  simp only [UiState.cursorX_eq_some_iff]
  constructor
  · rintro ⟨c, hc⟩
    rw [← hc]
    exact c.toNat_lt
  · intro hlt
    refine ⟨UInt16.ofNat (x.toNat + 1 + s.input.length % 2 ^ 16), ?_⟩
    rw [UInt16.toNat_ofNat', Nat.mod_eq_of_lt hlt]

/-! ## The length of the input -/

/-- What a key makes of the length of the input. -/
def lengthTyped (n : Nat) (key : KeyEvent) : Nat :=
  if key.kind ≠ .press then n
  else if key.control ∧ (key.code = .char 'c' ∨ key.code = .char 'r') then n
  else
    match key.code with
    | .enter => 0
    | .backspace => n - 1
    | .char _ => n + 1
    | _ => n

/-- Only keys change it. -/
def lengthAfter (n : Nat) : UiOp → Nat
  | .handleKey _ _ key => lengthTyped n key
  | _ => n

/-- How many characters were typed since the last Enter and not taken back. -/
def typedLength (ops : List UiOp) : Nat := ops.foldl lengthAfter 0

theorem length_dropLastChar (s : String) : (dropLastChar s).length = s.length - 1 := by
  rw [dropLastChar, String.length_ofList, List.length_dropLast, String.length_toList]

namespace UiState

@[simp] theorem clampScroll_input (s : UiState) : s.clampScroll.input = s.input := by
  simp only [clampScroll]
  split <;> rfl

@[simp] theorem push_input (s : UiState) (msg : DisplayMsg) : (s.push msg).input = s.input := by
  simp only [push, clampScroll_input]
  split <;> rfl

@[simp] theorem pushSystem_input (s : UiState) (clock : Clock) (text : String) :
    (s.pushSystem clock text).input = s.input := push_input s _

@[simp] theorem tryAcceptCounter_input (s : UiState) (sender : Uuid) (counter : UInt64) :
    (s.tryAcceptCounter sender counter).2.input = s.input := by
  simp only [tryAcceptCounter]
  split <;> rfl

/-- A tick leaves the line that is typed alone. -/
@[simp] theorem tickExpireEphemerals_input (s : UiState) (clock : Clock) :
    (s.tickExpireEphemerals clock).input = s.input := by
  simp only [tickExpireEphemerals]
  split
  · exact clampScroll_input _
  · rfl

@[simp] theorem scrollUp_input (s : UiState) (n : Nat) : (s.scrollUp n).input = s.input :=
  clampScroll_input _

@[simp] theorem render_input (s : UiState) (innerH : Nat) : (s.render innerH).input = s.input :=
  clampScroll_input _

end UiState

section

variable (aead : Aead) (roomKey : Key)

/-- Enter empties the line, whatever it does with it. -/
theorem enter_input (s : UiState) (clock : Clock) (random : Option Nonce) :
    (enter aead roomKey s clock random).2.input = "" := by
  simp only [enter]
  cases parseLine s.input with
  | nothing | clear | quit => rfl
  | message body ephemeral =>
    simp only [submit]
    split
    · rfl
    · exact UiState.pushSystem_input _ _ _

/-- No frame of the server changes the line. -/
theorem handleServerFrame_input (s : UiState) (clock : Clock) (f : ServerFrame) :
    (handleServerFrame aead roomKey s clock f).2.input = s.input := by
  cases f with
  | message m =>
    have hsame := s.tryAcceptCounter_input m.ad.fromId m.ad.counter
    simp only [handleServerFrame]
    split
    · rename_i hreplay
      rw [hreplay] at hsame
      rw [UiState.pushSystem_input, hsame]
    · rename_i haccepted
      rw [haccepted] at hsame
      rw [UiState.push_input, hsame]
  | cleared by_ username => exact UiState.pushSystem_input _ _ _
  | error | hello | welcome => rfl

/-- The length of the line after a key depends on the key and on the length before, and on nothing
else of the state. -/
theorem length_input_handleKey (s : UiState) (clock : Clock) (random : Option Nonce)
    (key : KeyEvent) :
    (handleKey aead roomKey s clock random key).2.input.length
      = lengthTyped s.input.length key := by
  unfold handleKey lengthTyped
  split
  · rfl
  split
  · rename_i hquit
    rw [if_pos ⟨hquit.1, .inl hquit.2⟩]
  rename_i hquit
  split
  · rename_i hreveal
    rw [if_pos ⟨hreveal.1, .inr hreveal.2⟩]
    rfl
  rename_i hreveal
  -- with Ctrl, only the two chords leave the line alone
  have hneither : ¬ (key.control ∧ (key.code = .char 'c' ∨ key.code = .char 'r')) := by
    rintro ⟨hcontrol, hcode | hcode⟩
    · exact hquit ⟨hcontrol, hcode⟩
    · exact hreveal ⟨hcontrol, hcode⟩
  rw [if_neg hneither]
  cases key.code with
  | enter =>
    show (enter aead roomKey s clock random).2.input.length = 0
    rw [enter_input]
    rfl
  | backspace => exact length_dropLastChar s.input
  | char c => exact String.length_push c
  | up | pageUp =>
    exact congrArg String.length (UiState.scrollUp_input s _)
  | down | pageDown | home | end_ | other => rfl

/-- **The length of the input goes by the keys.** -/
theorem length_input_perform (s : UiState) (op : UiOp) :
    (s.perform aead roomKey op).input.length = lengthAfter s.input.length op := by
  cases op with
  | handleKey clock random key => exact length_input_handleKey aead roomKey s clock random key
  | handleServerFrame clock f =>
    exact congrArg String.length (handleServerFrame_input aead roomKey s clock f)
  | _ => simp [UiState.perform, lengthAfter, UiState.clearMessages, UiState.revealEphemerals,
      UiState.scrollDown, UiState.scrollToLatest, UiState.scrollToOldest]

/-- So it can be followed through any sequence of operations without the state. -/
theorem length_input_foldl (s : UiState) (ops : List UiOp) :
    (ops.foldl (UiState.perform aead roomKey) s).input.length
      = ops.foldl lengthAfter s.input.length := by
  induction ops generalizing s with
  | nil => rfl
  | cons op ops ih =>
    rw [List.foldl_cons, List.foldl_cons, ih, length_input_perform]

variable {aead roomKey} {username : String} {userId : Uuid} {room : String}

theorem length_input (ops : List UiOp) :
    (afterOps aead roomKey username userId room ops).input.length = typedLength ops :=
  length_input_foldl aead roomKey _ ops

/-- **The cursor column fits** into `u16`, in a `render` after any operations and for an input box
anywhere, if and only if the input is not of a length that comes up to the end, counted modulo
`2 ^ 16`. -/
theorem cursor_fits_iff (ops : List UiOp) (innerH : Nat) (x : UInt16) :
    (((afterOps aead roomKey username userId room ops).render innerH).cursorX x).isSome
      ↔ typedLength ops % 2 ^ 16 + x.toNat < 65535 := by
  rw [UiState.cursorX_isSome_iff, UiState.render_input, length_input]
  omega

end

/-! ## A long line -/

/-- Bob holds a key down: a draw, a character, a draw, and so on. -/
def holdsDown : Nat → List UiOp
  | 0 => []
  | n + 1 =>
    holdsDown n ++ [.render 10, .handleKey ⟨0, 1000⟩ none ⟨.char 'a', false, .press⟩]

/-- A key that is held down makes the line as long as one likes. -/
theorem typedLength_holdsDown (n : Nat) : typedLength (holdsDown n) = n := by
  induction n with
  | zero => rfl
  | succ n ih =>
    have hbefore : (holdsDown n).foldl lengthAfter 0 = n := ih
    rw [holdsDown, typedLength, List.foldl_append, hbefore]
    rfl

open Pane in
/-- With 65535 characters in the line the column does not fit, at the left end of the terminal. -/
theorem cursor_overflows :
    ((afterOps Aead.tagging roomKey "bob" bob "main" (holdsDown 65535)).render 10).cursorX 0
      = none := by
  have hlength (n : Nat) :
      ((afterOps Aead.tagging roomKey "bob" bob "main" (holdsDown n)).render 10).input.length
        = n := by
    rw [UiState.render_input, length_input, typedLength_holdsDown]
  rw [← Option.not_isSome_iff_eq_none, UiState.cursorX_isSome_iff, hlength]
  decide

end ChatRs

import ChatRs.Client.Keys

/-!
# The grammar of a submitted line (`client/ui.rs`)

Enter takes the line without the blanks at its end. What it should make of it goes by the first
word: `/s` and `/secret` ask for an ephemeral message with the rest as its body, and a bare one
asks for nothing. `parseLine` goes by the prefixes `"/s "` and `"/secret "` instead.

* **`firstWord`, `afterFirstWord`**: the line as words, over all of Unicode's whitespace;
* **`meant`**: what a line asks for, by its first word;
* **`Does`**: what Enter has to do for that, with the counter and the input line;
* **`enter_grammar_iff`**: Enter does what is meant, unless the first word is one of the two and is
  not at the very start, with a space after it.
-/

namespace ChatRs

/-! ## Words -/

/-- The first run of characters that are not whitespace. -/
def firstWord (s : String) : String :=
  String.ofList ((s.toList.dropWhile isWhitespace).takeWhile fun c => !isWhitespace c)

/-- What comes after the first word. -/
def afterFirstWord (s : String) : String :=
  String.ofList ((s.toList.dropWhile isWhitespace).dropWhile fun c => !isWhitespace c)

def AsksForSecret (t : String) : Prop := firstWord t = "/s" ∨ firstWord t = "/secret"

instance (t : String) : Decidable (AsksForSecret t) := instDecidableOr

/-- The line starts with the command and a space. -/
def Spaced (t : String) : Prop := "/s ".toList <+: t.toList ∨ "/secret ".toList <+: t.toList

instance (t : String) : Decidable (Spaced t) := instDecidableOr

/-- A prefix is stripped if the text begins with it. -/
theorem stripPrefix_eq_some_iff {s lead rest : String} :
    stripPrefix s lead = some rest ↔ s.toList = lead.toList ++ rest.toList := by
  simp only [stripPrefix]
  constructor
  · intro h
    split at h
    · rename_i hprefix
      cases h
      rw [String.toList_ofList]
      exact (List.prefix_iff_eq_append.mp (List.isPrefixOf_iff_prefix.mp hprefix)).symm
    · cases h
  · intro h
    rw [h, if_pos (List.isPrefixOf_iff_prefix.mpr (List.prefix_append _ _)), List.drop_left,
      String.ofList_toList]

/-- A prefix can be stripped if and only if the text begins with it. -/
theorem stripPrefix_isSome_iff {s lead : String} :
    (stripPrefix s lead).isSome = true ↔ lead.toList <+: s.toList := by
  rw [stripPrefix, ← List.isPrefixOf_iff_prefix]
  split <;> simp_all

/-- A blank in front of what is trimmed does not matter. -/
theorem trim_cons {c : Char} (hc : isWhitespace c = true) (cs : List Char) :
    trim (String.ofList (c :: cs)) = trim (String.ofList cs) := by
  simp only [trim, String.toList_ofList, List.rdropWhile, List.reverse_cons]
  rw [List.dropWhile_append]
  split
  · rename_i hnil
    rw [List.isEmpty_iff] at hnil
    rw [hnil, List.dropWhile_cons_of_pos hc]
    rfl
  · rw [List.reverse_append, List.reverse_singleton, List.singleton_append,
      List.dropWhile_cons_of_pos hc]

/-- Behind a word and a space the line is split as `strip_prefix` splits it, up to the blanks that
are trimmed. -/
theorem firstWord_of_stripPrefix {t lead rest : String} {c : Char} {w : List Char}
    (hlead : lead.toList = c :: w ++ [' '])
    (hword : (c :: w).all (fun d => !isWhitespace d) = true)
    (h : stripPrefix t lead = some rest) :
    firstWord t = String.ofList (c :: w) ∧ trim (afterFirstWord t) = trim rest := by
  have hsplit : t.toList = (c :: w) ++ ' ' :: rest.toList := by
    rw [stripPrefix_eq_some_iff.mp h, hlead, List.append_assoc, List.singleton_append]
  have hall : ∀ d ∈ c :: w, (!isWhitespace d) = true := List.all_eq_true.mp hword
  have hskip : t.toList.dropWhile isWhitespace = (c :: w) ++ ' ' :: rest.toList := by
    rw [hsplit, List.cons_append, List.dropWhile_cons_of_neg]
    have hhead := hall c List.mem_cons_self
    rw [Bool.not_eq_true'] at hhead
    rw [hhead]
    exact Bool.false_ne_true
  constructor
  · rw [firstWord, hskip, List.takeWhile_append_of_pos hall,
      List.takeWhile_cons_of_neg (by decide), List.append_nil]
  · rw [afterFirstWord, hskip, List.dropWhile_append_of_pos hall,
      List.dropWhile_cons_of_neg (by decide), trim_cons (by decide), String.ofList_toList]

/-- The first word of a spaced secret is the command, and its body is the rest. -/
theorem Spaced.asksForSecret {t : String} (h : Spaced t) :
    AsksForSecret t ∧ ∃ rest, (stripPrefix t "/s ").or (stripPrefix t "/secret ") = some rest
      ∧ trim (afterFirstWord t) = trim rest := by
  cases hs : stripPrefix t "/s " with
  | some rest =>
    obtain ⟨hfirst, hrest⟩ :=
      firstWord_of_stripPrefix (c := '/') (w := ['s']) (by decide) (by decide) hs
    exact ⟨.inl hfirst, rest, rfl, hrest⟩
  | none =>
    have hsecret : (stripPrefix t "/secret ").isSome = true := by
      rw [stripPrefix_isSome_iff]
      refine h.resolve_left fun hprefix => ?_
      rw [← stripPrefix_isSome_iff, hs] at hprefix
      cases hprefix
    obtain ⟨rest, hrest⟩ := Option.isSome_iff_exists.mp hsecret
    obtain ⟨hfirst, hafter⟩ := firstWord_of_stripPrefix (c := '/')
      (w := ['s', 'e', 'c', 'r', 'e', 't']) (by decide) (by decide) hrest
    exact ⟨.inr hfirst, rest, hrest, hafter⟩

/-- Without the space there is no prefix to strip. -/
theorem stripPrefix_of_not_spaced {t : String} (h : ¬ Spaced t) :
    (stripPrefix t "/s ").or (stripPrefix t "/secret ") = none := by
  rw [Option.or_eq_none_iff, ← Option.not_isSome_iff_eq_none, ← Option.not_isSome_iff_eq_none,
    stripPrefix_isSome_iff, stripPrefix_isSome_iff]
  exact not_or.mp h

/-! ## What a line means, and what is made of it -/

/-- What the line asks for, by its first word. -/
def meant (line : String) : Command :=
  let t := trimEnd line
  if t.isEmpty then .nothing
  else if t = "/c" ∨ t = "/clear" then .clear
  else if t = "/q" ∨ t = "/quit" then .quit
  else if AsksForSecret t then
    let rest := trim (afterFirstWord t)
    if rest.isEmpty then .nothing else .message rest true
  else .message t false

/-- A line with a blank behind its command is read as it is meant. -/
theorem parseLine_eq_meant {line : String}
    (h : AsksForSecret (trimEnd line) → Spaced (trimEnd line)) : parseLine line = meant line := by
  by_cases hspaced : Spaced (trimEnd line)
  · obtain ⟨hasks, rest, hstrip, hbody⟩ := hspaced.asksForSecret
    simp only [parseLine, meant, hstrip, if_pos hasks, hbody]
  · have hasks : ¬ AsksForSecret (trimEnd line) := fun hasks => hspaced (h hasks)
    simp only [parseLine, meant, stripPrefix_of_not_spaced hspaced, if_neg hasks]

/-- A line that asks for a secret is neither empty nor one of the other commands. -/
theorem AsksForSecret.not_command {t : String} (h : AsksForSecret t) :
    t.isEmpty = false ∧ ¬ (t = "/c" ∨ t = "/clear") ∧ ¬ (t = "/q" ∨ t = "/quit") := by
  refine ⟨?_, ?_, ?_⟩
  · by_contra hempty
    rw [Bool.not_eq_false, String.isEmpty_iff] at hempty
    rw [hempty] at h
    revert h
    decide
  · rintro (rfl | rfl) <;> (revert h; decide)
  · rintro (rfl | rfl) <;> (revert h; decide)

/-- **Without the space the whole line goes out**, readable in the history. -/
theorem parseLine_of_not_spaced {line : String} (hasks : AsksForSecret (trimEnd line))
    (hspaced : ¬ Spaced (trimEnd line)) : parseLine line = .message (trimEnd line) false := by
  obtain ⟨hempty, hclear, hquit⟩ := hasks.not_command
  simp only [parseLine, hempty, if_neg hclear, if_neg hquit, stripPrefix_of_not_spaced hspaced,
    Bool.false_eq_true, if_false]

/-- A line that asks for a secret message is one, or nothing. -/
theorem meant_of_asks {line : String} (hasks : AsksForSecret (trimEnd line)) :
    meant line = .nothing ∨ ∃ rest, meant line = .message rest true := by
  obtain ⟨hempty, hclear, hquit⟩ := hasks.not_command
  simp only [meant, hempty, if_neg hclear, if_neg hquit, if_pos hasks, Bool.false_eq_true, if_false]
  split
  · exact .inl rfl
  · exact .inr ⟨_, rfl⟩

/-! ## Enter -/

section

variable (aead : Aead) (roomKey : Key) (random : Option Nonce) (s : UiState)

/-- Enter has done what the command says, and taken the line. A message takes the next counter,
anything else leaves it. -/
inductive Does (out : KeyAction × UiState) : Command → Prop
  | nothing (hout : out = (.none, { s with input := "" })) : Does out .nothing
  | clear (hout : out = (.send .clear, { s with input := "" })) : Does out .clear
  | quit (hout : out = (.quit, { s with input := "" })) : Does out .quit
  | message (body : String) (ad : MessageAd) (ct : List UInt8)
      (hsends : out.1 = .send (.message ad ct))
      (hseal : roomSeal aead random roomKey (strBytes body) ad = .ok ct)
      (hcounter : ad.counter = s.nextCounter) (htaken : out.2.input = "")
      (hnext : s.nextCounter.toNat + 1 < 2 ^ 64 →
        out.2.nextCounter.toNat = s.nextCounter.toNat + 1) :
      Does out (.message body ad.ephemeral)

variable {aead roomKey random s}

theorem handleKey_enter (clock : Clock) (control : Bool) :
    handleKey aead roomKey s clock random ⟨.enter, control, .press⟩
      = enter aead roomKey s clock random := by
  simp [handleKey]

/-- Enter does what `parseLine` says. -/
theorem enter_does {clock : Clock}
    (hseals : ∀ body ephemeral, parseLine s.input = .message body ephemeral →
      ∃ ct, roomSeal aead random roomKey (strBytes body) (s.nextAd clock ephemeral) = .ok ct) :
    Does aead roomKey random s (enter aead roomKey s clock random) (parseLine s.input) := by
  simp only [enter]
  cases hline : parseLine s.input with
  | nothing => exact .nothing rfl
  | clear => exact .clear rfl
  | quit => exact .quit rfl
  | message body ephemeral =>
    obtain ⟨ct, hseal⟩ := hseals body ephemeral hline
    have hsame : ({ s with input := "" } : UiState).nextAd clock ephemeral
        = s.nextAd clock ephemeral := rfl
    simp only [submit, hsame, hseal]
    exact .message body (s.nextAd clock ephemeral) ct rfl hseal rfl rfl
      fun hfew => saturatingAdd_toNat hfew

/-- What went out as a message was meant as one, ephemeral or not. -/
theorem Does.message_ephemeral {out : KeyAction × UiState} {body : String} {ephemeral : Bool}
    (h : Does aead roomKey random s out (.message body ephemeral)) {c : Command}
    (h' : Does aead roomKey random s out c) : ∃ body', c = .message body' ephemeral := by
  cases h with
  | message _ ad ct hsends =>
    cases h' with
    | nothing hout | clear hout | quit hout =>
      rw [hout] at hsends
      cases hsends
    | message body' ad' ct' hsends' =>
      cases hsends.symm.trans hsends'
      exact ⟨body', rfl⟩

/-- A secret without the space is not kept: the whole line goes out as an ordinary message. -/
theorem enter_not_spaced {clock : Clock}
    (hseals : ∀ body ephemeral, parseLine s.input = .message body ephemeral →
      ∃ ct, roomSeal aead random roomKey (strBytes body) (s.nextAd clock ephemeral) = .ok ct)
    (hasks : AsksForSecret (trimEnd s.input)) (hspaced : ¬ Spaced (trimEnd s.input)) :
    ¬ Does aead roomKey random s (enter aead roomKey s clock random) (meant s.input) := by
  intro hmeant
  have hdoes := enter_does hseals
  rw [parseLine_of_not_spaced hasks hspaced] at hdoes
  obtain ⟨body, hbody⟩ := hdoes.message_ephemeral hmeant
  rcases meant_of_asks hasks with hnothing | ⟨rest, hrest⟩
  · rw [hnothing] at hbody
    cases hbody
  · rw [hrest] at hbody
    cases hbody

/-- **What Enter makes of a line is what the line asks for**, unless its first word is `/s` or
`/secret` and it does not start with that word and a space. -/
theorem enter_grammar_iff (clock : Clock) (control : Bool)
    (hseals : ∀ body ephemeral, parseLine s.input = .message body ephemeral →
      ∃ ct, roomSeal aead random roomKey (strBytes body) (s.nextAd clock ephemeral) = .ok ct) :
    Does aead roomKey random s
        (handleKey aead roomKey s clock random ⟨.enter, control, .press⟩) (meant s.input)
      ↔ (AsksForSecret (trimEnd s.input) → Spaced (trimEnd s.input)) := by
  rw [handleKey_enter]
  constructor
  · intro hmeant hasks
    by_contra hspaced
    exact enter_not_spaced hseals hasks hspaced hmeant
  · intro hspaced
    rw [← parseLine_eq_meant hspaced]
    exact enter_does hseals

end

/-! ## Lines at a keyboard -/

namespace Typing

def clock : Clock := ⟨0, 1000⟩

def roomKey : Key := List.Vector.replicate 32 7

def nonce : Nonce := List.Vector.replicate NONCE_LEN 1

/-- Alice has typed a line. -/
def withLine (line : String) : UiState :=
  { UiState.new "alice" (List.Vector.replicate 16 1) "main" with input := line }

theorem seals (s : UiState) (body : String) (ephemeral : Bool) :
    ∃ ct, roomSeal Aead.tagging (some nonce) roomKey (strBytes body) (s.nextAd clock ephemeral)
      = .ok ct := ⟨_, rfl⟩

end Typing

open Typing in
/-- A line with a command, two blanks and one at its end is a secret of the rest. -/
theorem enter_grammar_iff_secret :
    Does Aead.tagging roomKey (some nonce) (withLine "/secret  at noon ")
        (handleKey Aead.tagging roomKey (withLine "/secret  at noon ") clock (some nonce)
          ⟨.enter, false, .press⟩)
        (.message "at noon" true) := by
  have hmeant : meant "/secret  at noon " = .message "at noon" true := by decide
  have hspaced : Spaced (trimEnd "/secret  at noon ") := by decide
  have hdoes := (enter_grammar_iff (s := withLine "/secret  at noon ") clock false
    fun body ephemeral _ => seals _ body ephemeral).mpr fun _ => hspaced
  exact hmeant ▸ hdoes

open Typing in
/-- A bare `/s` goes out, and so does a secret with a blank in front of it. -/
theorem enter_publishes :
    ¬ Does Aead.tagging roomKey (some nonce) (withLine "/s")
        (handleKey Aead.tagging roomKey (withLine "/s") clock (some nonce)
          ⟨.enter, false, .press⟩) (meant "/s")
      ∧ ¬ Does Aead.tagging roomKey (some nonce) (withLine " /s at noon")
        (handleKey Aead.tagging roomKey (withLine " /s at noon") clock (some nonce)
          ⟨.enter, false, .press⟩) (meant " /s at noon") := by
  rw [handleKey_enter, handleKey_enter]
  constructor
  · exact enter_not_spaced (fun body ephemeral _ => seals _ body ephemeral) (by decide) (by decide)
  · exact enter_not_spaced (fun body ephemeral _ => seals _ body ephemeral) (by decide) (by decide)

end ChatRs

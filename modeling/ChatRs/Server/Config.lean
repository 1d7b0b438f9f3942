import ChatRs.Server.Hub

/-!
# The rooms config (`server/rooms.rs`)

A text with one room a line, `name = password`. What a config is (`IsConfigs`) and how it may be
written (`Writes`) is said on characters, where `parse` works on bytes, on what is left after
trimming and with what it has seen so far. **`parse_eq_ok_iff`**: `parse` reads back every config
from every text that writes it, and accepts nothing else.
-/

namespace ChatRs

namespace Rooms

/-! ## The code -/

/-- Same floor as `cli::MIN_PW_LEN`. -/
def MIN_PW_LEN : Nat := 12

def validateName (name : String) : Result Unit :=
  if name.isEmpty ∨ strLen name > MAX_ROOM_ID_LEN then
    .error (.protocol "invalid room name length")
  else if ¬ (strBytes name).all isNameByte then
    .error (.protocol "room name must match [A-Za-z0-9_-]")
  else .ok ()

/-- The body of the loop in `parse`, before it looks at the names seen so far: nothing for the
lines that are skipped. -/
def readLine (line : String) : Result (Option RoomConfig) :=
  let line := trim line
  if line.isEmpty ∨ line.toList.head? = some '#' then .ok none
  else
    match splitOnce line '=' with
    | none => .error (.protocol "rooms config: line missing '='")
    | some (name, password) =>
      let name := trim name
      let password := trim password
      match validateName name with
      | .error e => .error e
      | .ok _ =>
        if strLen password < MIN_PW_LEN then
          .error (.protocol "rooms config: password too short")
        else .ok (some { name := name, password := password })

/-- The loop itself. -/
def readLines : List String → List RoomConfig → List String → Result (List RoomConfig)
  | [], rooms, _ => .ok rooms
  | line :: rest, rooms, seen =>
    match readLine line with
    | .error e => .error e
    | .ok none => readLines rest rooms seen
    | .ok (some cfg) =>
      if cfg.name ∈ seen then .error (.protocol "rooms config: duplicate room name")
      else readLines rest (rooms ++ [cfg]) (cfg.name :: seen)

def parse (text : String) : Result (List RoomConfig) :=
  match readLines (lines text) [] [] with
  | .error e => .error e
  | .ok rooms => if rooms.isEmpty then .error (.protocol "rooms config: no rooms") else .ok rooms

/-! ## The format -/

def IsNameChar (c : Char) : Prop := c.isAlphanum = true ∨ c = '_' ∨ c = '-'

/-- `[A-Za-z0-9_-]{1,32}`. -/
structure IsName (name : String) : Prop where
  nonempty : name.toList ≠ []
  short : name.toList.length ≤ MAX_ROOM_ID_LEN
  chars : ∀ c ∈ name.toList, IsNameChar c

/-- The passwords that a line can hold. -/
structure IsPassword (password : String) : Prop where
  long : MIN_PW_LEN ≤ strLen password
  oneLine : '\n' ∉ password.toList
  trimmed : Text.Trimmed isWhitespace password.toList

structure IsConfigs (configs : List RoomConfig) : Prop where
  nonempty : configs ≠ []
  distinct : (configs.map RoomConfig.name).Nodup
  names : ∀ cfg ∈ configs, IsName cfg.name
  passwords : ∀ cfg ∈ configs, IsPassword cfg.password

/-- The ways to write one line, and the room it stands for, if any. -/
inductive IsLine : List Char → Option RoomConfig → Prop
  | blank {a : List Char} (ha : Text.Blank isWhitespace a) : IsLine a none
  | comment {a : List Char} (rest : List Char) (ha : Text.Blank isWhitespace a) :
      IsLine (a ++ '#' :: rest) none
  | room {a b c d : List Char} (cfg : RoomConfig) (ha : Text.Blank isWhitespace a)
      (hb : Text.Blank isWhitespace b) (hc : Text.Blank isWhitespace c)
      (hd : Text.Blank isWhitespace d) :
      IsLine (a ++ cfg.name.toList ++ b ++ '=' :: (c ++ cfg.password.toList ++ d)) (some cfg)

/-- One room a line and in order, among blank lines and comments. -/
def Writes (text : String) (configs : List RoomConfig) : Prop :=
  ∃ ls items, Text.Written '\n' '\r' text.toList ls ∧ List.Forall₂ IsLine ls items
    ∧ items.reduceOption = configs

/-! ## Names -/

section

variable {name : String} {c : Char}

instance : DecidablePred IsNameChar := fun _ => inferInstanceAs (Decidable (_ ∨ _))

/-- The characters of a name are ASCII, so that each is one byte. -/
theorem IsNameChar.ascii (h : IsNameChar c) : c.toNat < 0x80 := by
  rcases h with h | rfl | rfl
  · have hZ : 'Z'.val.toNat = 90 := rfl
    have hz : 'z'.val.toNat = 122 := rfl
    have h9 : '9'.val.toNat = 57 := rfl
    delta Char.isAlphanum Char.isAlpha Char.isUpper Char.isLower Char.isDigit at h
    simp only [Bool.or_eq_true, Bool.and_eq_true, decide_eq_true_eq, UInt32.le_iff_toNat_le,
      ge_iff_le, hZ, hz, h9] at h
    show c.val.toNat < 0x80
    omega
  · decide
  · decide

theorem isNameByte_ofNat (hc : c.toNat < 0x80) :
    isNameByte (UInt8.ofNat c.toNat) = true ↔ IsNameChar c :=
  forall_ascii (P := fun c => isNameByte (UInt8.ofNat c.toNat) = true ↔ IsNameChar c)
    (by decide +kernel) c hc

/-- No character of a name means anything else to `readLine`. -/
theorem IsNameChar.plain (h : IsNameChar c) : isWhitespace c = false ∧ c ≠ '=' ∧ c ≠ '#' :=
  forall_ascii (P := fun c => IsNameChar c → isWhitespace c = false ∧ c ≠ '=' ∧ c ≠ '#')
    (by decide +kernel) c h.ascii h

theorem isNameByte_lt {b : UInt8} (h : isNameByte b = true) : b.toNat < 0x80 := by
  have hline : b = 0x5F ↔ b.toNat = 0x5F := UInt8.toNat_inj.symm
  have hdash : b = 0x2D ↔ b.toNat = 0x2D := UInt8.toNat_inj.symm
  simp only [isNameByte, isAsciiAlphanumeric, Bool.or_eq_true, Bool.and_eq_true,
    decide_eq_true_eq, UInt8.le_iff_toNat_le, hline, hdash, UInt8.reduceToNat] at h
  omega

/-- Only the characters of a name have no other bytes. -/
theorem forall_isNameByte_iff :
    (∀ b ∈ String.utf8EncodeChar c, isNameByte b = true) ↔ IsNameChar c := by
  rcases lt_or_ge c.toNat 0x80 with hc | hc
  · rw [utf8EncodeChar_of_ascii hc, List.forall_mem_singleton, isNameByte_ofNat hc]
  · obtain ⟨b, hb, hhigh⟩ := exists_high_byte hc
    constructor
    · intro h
      exact absurd (isNameByte_lt (h b hb)) (Nat.not_lt.mpr hhigh)
    · intro h
      exact absurd h.ascii (Nat.not_lt.mpr hc)

/-- A name has as many bytes as characters. -/
theorem strLen_of_chars (h : ∀ c ∈ name.toList, IsNameChar c) :
    strLen name = name.toList.length := by
  have hone : ∀ c ∈ name.toList, (String.utf8EncodeChar c).length = 1 := by
    intro c hc
    rw [utf8EncodeChar_of_ascii (h c hc).ascii]
    rfl
  rw [strLen, strBytes_eq_flatMap, List.length_flatMap, List.map_congr_left hone,
    List.map_const', List.sum_replicate_nat, Nat.mul_one]

/-- **`validate_name`, which looks at bytes, accepts the names.** -/
theorem validateName_eq_ok_iff : validateName name = .ok () ↔ IsName name := by
  have hchars : (strBytes name).all isNameByte = true ↔ ∀ c ∈ name.toList, IsNameChar c := by
    rw [strBytes_eq_flatMap, List.all_eq_true]
    simp only [List.forall_mem_flatMap, forall_isNameByte_iff]
  have hempty : name.isEmpty = true ↔ name.toList = [] := by
    rw [String.isEmpty_iff, ← String.toList_inj, String.toList_empty]
  rw [validateName]
  constructor
  · intro h
    split_ifs at h with hlength hbytes
    rw [hchars] at hbytes
    rw [not_or, hempty, Nat.not_lt, strLen_of_chars hbytes] at hlength
    exact { nonempty := hlength.1, short := hlength.2, chars := hbytes }
  · intro h
    rw [if_neg, if_neg]
    · exact not_not.mpr (hchars.mpr h.chars)
    · rw [not_or, hempty, Nat.not_lt, strLen_of_chars h.chars]
      exact ⟨h.nonempty, h.short⟩

end

/-! ## One line -/

section

variable {l : List Char} {line : String} {item : Option RoomConfig} {cfg : RoomConfig}

theorem toList_trim (s : String) : (trim s).toList = Text.trim isWhitespace s.toList :=
  String.toList_ofList

/-- What is written between whitespace is what is read. -/
theorem trim_eq_of_toList {s t : String} {a b : List Char} (ha : Text.Blank isWhitespace a)
    (ht : Text.Trimmed isWhitespace t.toList) (hb : Text.Blank isWhitespace b)
    (hs : s.toList = a ++ t.toList ++ b) : trim s = t := by
  rw [← String.toList_inj, toList_trim, hs]
  exact Text.trim_append ha ht hb

/-- A text is split at the first place where the delimiter stands. -/
theorem splitOnce_eq_some_iff {s a b : String} {delimiter : Char} :
    splitOnce s delimiter = some (a, b) ↔
      s.toList = a.toList ++ delimiter :: b.toList ∧ delimiter ∉ a.toList := by
  rw [← Text.splitOnce_eq_some_iff, splitOnce, Option.map_eq_some_iff]
  constructor
  · rintro ⟨⟨a', b'⟩, hsplit, heq⟩
    cases heq
    rw [String.toList_ofList, String.toList_ofList, hsplit]
  · intro hsplit
    refine ⟨_, hsplit, ?_⟩
    rw [String.ofList_toList, String.ofList_toList]

theorem IsName.trimmed {name : String} (h : IsName name) :
    Text.Trimmed isWhitespace name.toList := by
  constructor
  · exact fun c hc => (h.chars c (List.mem_of_head? hc)).plain.1
  · exact fun c hc => (h.chars c (List.mem_of_getLast? hc)).plain.1

/-- All that `readLine` can accept. -/
theorem readLine_cases (h : readLine line = .ok item) :
    ((trim line).isEmpty = true ∨ (trim line).toList.head? = some '#') ∧ item = none
      ∨ ∃ name password, splitOnce (trim line) '=' = some (name, password)
          ∧ IsName (trim name) ∧ MIN_PW_LEN ≤ strLen (trim password)
          ∧ item = some { name := trim name, password := trim password } := by
  rw [readLine] at h
  split_ifs at h with hskip
  · cases h
    exact .inl ⟨hskip, rfl⟩
  · split at h
    · cases h
    · next name password hsplit =>
      dsimp only at h
      split at h
      · cases h
      · next hname =>
        split_ifs at h with hshort
        cases h
        exact .inr ⟨name, password, hsplit, validateName_eq_ok_iff.mp hname,
          Nat.not_lt.mp hshort, rfl⟩

/-- What a line is read as is one of the ways to write it. -/
theorem isLine_of_readLine (h : readLine line = .ok item) : IsLine line.toList item := by
  obtain ⟨a, d, ha, hd, hline⟩ := Text.exists_trim isWhitespace line.toList
  rw [← toList_trim] at hline
  rcases readLine_cases h with ⟨hempty | hcomment, rfl⟩ | ⟨name, password, hsplit, -, -, rfl⟩
  · rw [String.isEmpty_iff] at hempty
    rw [hempty, String.toList_empty, List.append_nil] at hline
    exact .blank (hline ▸ ha.append hd)
  · obtain ⟨rest, hrest⟩ := List.head?_eq_some_iff.mp hcomment
    rw [hrest, List.append_assoc, List.cons_append] at hline
    exact hline ▸ .comment _ ha
  · obtain ⟨a', b, ha', hb, hname⟩ := Text.exists_trim isWhitespace name.toList
    obtain ⟨c, d', hc, hd', hpassword⟩ := Text.exists_trim isWhitespace password.toList
    rw [← toList_trim] at hname hpassword
    have hwritten : line.toList = (a ++ a') ++ (trim name).toList ++ b
        ++ '=' :: (c ++ (trim password).toList ++ (d' ++ d)) := by
      rw [hline, (splitOnce_eq_some_iff.mp hsplit).1, hname, hpassword]
      simp only [List.append_assoc, List.cons_append]
    exact hwritten ▸ .room { name := trim name, password := trim password } (ha.append ha') hb hc
      (hd'.append hd)

/-- A line that writes a room of a config is read as that room. -/
theorem readLine_of_room {a b c d : List Char} (hname : IsName cfg.name)
    (hpassword : IsPassword cfg.password) (ha : Text.Blank isWhitespace a)
    (hb : Text.Blank isWhitespace b) (hc : Text.Blank isWhitespace c)
    (hd : Text.Blank isWhitespace d)
    (hline : line.toList =
      a ++ cfg.name.toList ++ b ++ '=' :: (c ++ cfg.password.toList ++ d)) :
    readLine line = .ok (some cfg) := by
  have hname' : cfg.name.toList ≠ [] := hname.nonempty
  have hpassword' : cfg.password.toList ≠ [] := by
    intro hnil
    have hlen := hpassword.long
    rw [String.toList_eq_nil_iff.mp hnil] at hlen
    exact absurd hlen (by decide)
  -- the blanks around the line are gone
  have htrim : (trim line).toList =
      cfg.name.toList ++ b ++ '=' :: (c ++ cfg.password.toList) := by
    have hm : Text.Trimmed isWhitespace
        (cfg.name.toList ++ ((b ++ '=' :: c) ++ cfg.password.toList)) :=
      hname.trimmed.append hpassword.trimmed hname' hpassword'
    rw [toList_trim, hline]
    simpa only [List.append_assoc, List.cons_append] using Text.trim_append ha hm hd
  -- it is neither empty nor a comment: the name has a first character, and that is no `#`
  have hskip : ¬ ((trim line).isEmpty = true ∨ (trim line).toList.head? = some '#') := by
    rw [String.isEmpty_iff, ← String.toList_eq_nil_iff, htrim, List.append_assoc,
      List.head?_append_of_ne_nil _ hname', not_or]
    refine ⟨List.append_ne_nil_of_left_ne_nil hname' _, fun hhash => ?_⟩
    exact (hname.chars _ (List.mem_of_head? hhash)).plain.2.2 rfl
  have hsep : '=' ∉ cfg.name.toList ++ b := by
    rw [List.mem_append, not_or]
    refine ⟨fun hmem => (hname.chars _ hmem).plain.2.1 rfl, fun hmem => ?_⟩
    exact absurd (hb _ hmem) (by decide)
  -- the first `=` is the separator, since the name has none; the password may
  have hsplit : splitOnce (trim line) '=' =
      some (String.ofList (cfg.name.toList ++ b), String.ofList (c ++ cfg.password.toList)) := by
    rw [splitOnce_eq_some_iff, String.toList_ofList, String.toList_ofList]
    exact ⟨htrim, hsep⟩
  have hreadName : trim (String.ofList (cfg.name.toList ++ b)) = cfg.name :=
    trim_eq_of_toList (List.forall_mem_nil _) hname.trimmed hb String.toList_ofList
  have hreadPassword : trim (String.ofList (c ++ cfg.password.toList)) = cfg.password := by
    apply trim_eq_of_toList hc hpassword.trimmed (List.forall_mem_nil _)
    rw [String.toList_ofList, List.append_nil]
  rw [readLine, if_neg hskip, hsplit]
  simp only [hreadName, hreadPassword, validateName_eq_ok_iff.mpr hname]
  rw [if_neg (Nat.not_lt.mpr hpassword.long)]

/-- **One line.** It is read as what it was written for, when that is a room of a config. -/
theorem readLine_eq_ok_iff (hl : '\n' ∉ line.toList) :
    readLine line = .ok item ↔
      IsLine line.toList item ∧ ∀ cfg ∈ item, IsName cfg.name ∧ IsPassword cfg.password := by
  constructor
  · intro h
    refine ⟨isLine_of_readLine h, ?_⟩
    rcases readLine_cases h with ⟨-, rfl⟩ | ⟨name, password, hsplit, hname, hlong, rfl⟩
    · intro cfg hcfg
      cases hcfg
    · intro cfg hcfg
      cases hcfg
      refine ⟨hname, hlong, ?_, ?_⟩
      · -- a password is part of its line
        intro hmem
        have hpassword : '\n' ∈ password.toList := Text.mem_of_mem_trim (toList_trim _ ▸ hmem)
        have htrim : '\n' ∈ (trim line).toList := by
          rw [(splitOnce_eq_some_iff.mp hsplit).1]
          exact List.mem_append_right _ (List.mem_cons_of_mem _ hpassword)
        exact hl (Text.mem_of_mem_trim (toList_trim _ ▸ htrim))
      · rw [toList_trim]
        exact Text.trimmed_trim _ _
  · rintro ⟨hwritten, hitem⟩
    generalize hline : line.toList = l at hwritten
    cases hwritten with
    | blank ha =>
      have hempty : trim line = "" := by
        rw [← String.toList_inj, toList_trim, hline, Text.trim_eq_nil_iff.mpr ha,
          String.toList_empty]
      rw [readLine, if_pos (.inl (String.isEmpty_iff.mpr hempty))]
    | comment rest ha =>
      have hhash : (trim line).toList.head? = some '#' := by
        rw [toList_trim, hline, Text.head?_trim ha (by decide)]
      rw [readLine, if_pos (.inr hhash)]
    | room cfg ha hb hc hd =>
      obtain ⟨hname, hpassword⟩ := hitem cfg rfl
      exact readLine_of_room hname hpassword ha hb hc hd hline

end

/-! ## All lines -/

section

variable {rest : List String} {rooms configs : List RoomConfig} {seen : List String}

/-- The loop appends the rooms that it reads, and stops at a name that it has seen. -/
theorem readLines_eq_ok_iff :
    readLines rest rooms seen = .ok configs ↔
      ∃ items, List.Forall₂ (fun line item => readLine line = .ok item) rest items
        ∧ (items.reduceOption.map RoomConfig.name).Nodup
        ∧ (∀ cfg ∈ items.reduceOption, cfg.name ∉ seen)
        ∧ configs = rooms ++ items.reduceOption := by
  induction rest generalizing rooms seen with
  | nil =>
    rw [readLines]
    constructor
    · intro h
      cases h
      exact ⟨[], .nil, List.nodup_nil, List.forall_mem_nil _, (List.append_nil _).symm⟩
    · rintro ⟨items, hread, -, -, rfl⟩
      cases hread
      rw [List.reduceOption_nil, List.append_nil]
  | cons line rest ih =>
    rw [readLines]
    constructor
    · intro h
      split at h
      · cases h
      · -- a blank line or a comment
        next hline =>
        obtain ⟨items, hread, hnodup, hseen, hconfigs⟩ := ih.mp h
        exact ⟨none :: items, .cons hline hread, hnodup, hseen, hconfigs⟩
      · -- a room, whose name is not to come again
        next cfg hline =>
        split_ifs at h with hnew
        obtain ⟨items, hread, hnodup, hseen, hconfigs⟩ := ih.mp h
        refine ⟨some cfg :: items, .cons hline hread, ?_, ?_, ?_⟩
        · rw [List.reduceOption_cons_of_some, List.map_cons, List.nodup_cons]
          refine ⟨fun hmem => ?_, hnodup⟩
          obtain ⟨cfg', hcfg', hname⟩ := List.mem_map.mp hmem
          exact hseen cfg' hcfg' (hname ▸ List.mem_cons_self)
        · rw [List.reduceOption_cons_of_some, List.forall_mem_cons]
          exact ⟨hnew, fun cfg' hcfg' hmem => hseen cfg' hcfg' (List.mem_cons_of_mem _ hmem)⟩
        · rw [hconfigs, List.reduceOption_cons_of_some, List.append_assoc, List.singleton_append]
    · rintro ⟨items, hread, hnodup, hseen, hconfigs⟩
      cases hread with
      | @cons _ item _ items hline hread =>
        rw [hline]
        cases item with
        | none => exact ih.mpr ⟨items, hread, hnodup, hseen, hconfigs⟩
        | some cfg =>
          rw [List.reduceOption_cons_of_some, List.map_cons, List.nodup_cons] at hnodup
          rw [List.reduceOption_cons_of_some, List.forall_mem_cons] at hseen
          show (if cfg.name ∈ seen then _ else _) = _
          rw [if_neg hseen.1]
          refine ih.mpr ⟨items, hread, hnodup.2, fun cfg' hcfg' hmem => ?_, ?_⟩
          · rcases List.mem_cons.mp hmem with hname | hmem
            · exact hnodup.1 (hname ▸ List.mem_map_of_mem hcfg')
            · exact hseen.2 cfg' hcfg' hmem
          · rw [hconfigs, List.reduceOption_cons_of_some, List.append_assoc,
              List.singleton_append]

end

/-! ## The whole text -/

section

variable {ls ls' : List (List Char)} {items : List (Option RoomConfig)}

/-- The lines that are read as `items`. -/
def Reads (ls : List (List Char)) (items : List (Option RoomConfig)) : Prop :=
  List.Forall₂ (fun l item => readLine (String.ofList l) = .ok item) ls items

/-- **Line by line**: the lines are read as the items exactly if each is written for its item and
the rooms among them are valid. -/
theorem reads_iff (hls : ∀ l ∈ ls, '\n' ∉ l) :
    Reads ls items ↔ List.Forall₂ IsLine ls items
      ∧ ∀ cfg ∈ items.reduceOption, IsName cfg.name ∧ IsPassword cfg.password := by
  have hline {l : List Char} {item : Option RoomConfig} (hl : '\n' ∉ l) :
      readLine (String.ofList l) = .ok item ↔
        IsLine l item ∧ ∀ cfg ∈ item, IsName cfg.name ∧ IsPassword cfg.password := by
    rw [readLine_eq_ok_iff (by rwa [String.toList_ofList]), String.toList_ofList]
  simp only [List.reduceOption_mem_iff]
  induction ls generalizing items with
  | nil =>
    rw [Reads, List.forall₂_nil_left_iff, List.forall₂_nil_left_iff]
    constructor
    · intro h
      rw [h]
      exact ⟨rfl, fun cfg hcfg => absurd hcfg List.not_mem_nil⟩
    · exact fun h => h.1
  | cons l ls ih =>
    obtain ⟨hl, hls⟩ := List.forall_mem_cons.mp hls
    constructor
    · intro h
      obtain ⟨item, items, hread, hreads, rfl⟩ := List.forall₂_cons_left_iff.mp h
      obtain ⟨hwritten, hvalid⟩ := (hline hl).mp hread
      obtain ⟨hwritten', hvalid'⟩ := (ih hls).mp hreads
      refine ⟨.cons hwritten hwritten', fun cfg hcfg => ?_⟩
      rcases List.mem_cons.mp hcfg with hcfg | hcfg
      · exact hvalid cfg hcfg.symm
      · exact hvalid' cfg hcfg
    · rintro ⟨h, hvalid⟩
      obtain ⟨item, items, hwritten, hwritten', rfl⟩ := List.forall₂_cons_left_iff.mp h
      refine .cons ((hline hl).mpr ⟨hwritten, fun cfg hcfg => ?_⟩)
        ((ih hls).mpr ⟨hwritten', fun cfg hcfg => hvalid cfg (List.mem_cons_of_mem _ hcfg)⟩)
      rw [Option.mem_def] at hcfg
      exact hvalid cfg (hcfg ▸ List.mem_cons_self)

theorem readLine_trim (l : List Char) :
    readLine (String.ofList (Text.trim isWhitespace l)) = readLine (String.ofList l) := by
  have htrim : trim (String.ofList (Text.trim isWhitespace l)) = trim (String.ofList l) := by
    rw [← String.toList_inj, toList_trim, toList_trim, String.toList_ofList, String.toList_ofList,
      Text.trim_of_trimmed (Text.trimmed_trim _ _)]
  rw [readLine, htrim, ← readLine]

/-- Whitespace at the ends of the lines does not matter. -/
theorem Reads.congr (hls : ls.map (Text.trim isWhitespace) = ls'.map (Text.trim isWhitespace))
    (h : Reads ls items) : Reads ls' items := by
  have htrim (ls : List (List Char)) :
      Reads (ls.map (Text.trim isWhitespace)) items ↔ Reads ls items := by
    rw [Reads, List.forall₂_map_left_iff]
    simp only [readLine_trim, Reads]
  rwa [← htrim, ← hls, htrim]

/-- What `parse` needs of the lines. -/
theorem parse_eq_ok_iff_reads {text : String} {configs : List RoomConfig} :
    parse text = .ok configs ↔ ∃ items, Reads (Text.lines '\n' '\r' text.toList) items
      ∧ items.reduceOption = configs ∧ configs ≠ [] ∧ (configs.map RoomConfig.name).Nodup := by
  have hloop (rooms : List RoomConfig) : readLines (lines text) [] [] = .ok rooms ↔
      ∃ items, Reads (Text.lines '\n' '\r' text.toList) items
        ∧ (items.reduceOption.map RoomConfig.name).Nodup ∧ rooms = items.reduceOption := by
    rw [readLines_eq_ok_iff, lines]
    simp only [List.forall₂_map_left_iff, List.not_mem_nil, not_false_eq_true, implies_true,
      true_and, List.nil_append, Reads]
  rw [parse]
  constructor
  · intro h
    split at h
    · cases h
    · next rooms hrooms =>
      obtain ⟨items, hreads, hnodup, rfl⟩ := (hloop rooms).mp hrooms
      split_ifs at h with hempty
      cases h
      exact ⟨items, hreads, rfl, fun hnil => hempty (List.isEmpty_iff.mpr hnil), hnodup⟩
  · rintro ⟨items, hreads, rfl, hne, hnodup⟩
    rw [(hloop _).mpr ⟨items, hreads, hnodup, rfl⟩]
    show (if items.reduceOption.isEmpty then _ else _) = _
    rw [if_neg (mt List.isEmpty_iff.mp hne)]

/-- A text that writes a config is read as that config. -/
theorem parse_of_writes {text : String} {configs : List RoomConfig}
    (hconfigs : IsConfigs configs) (h : Writes text configs) : parse text = .ok configs := by
  obtain ⟨ls, items, hwritten, hlines, rfl⟩ := h
  have hreads : Reads ls items := (reads_iff hwritten.not_mem).mpr
    ⟨hlines, fun cfg hcfg => ⟨hconfigs.names cfg hcfg, hconfigs.passwords cfg hcfg⟩⟩
  have hsame := hwritten.map_trim_lines (p := isWhitespace) (by decide) (by decide)
  exact parse_eq_ok_iff_reads.mpr
    ⟨items, hreads.congr hsame.symm, rfl, hconfigs.nonempty, hconfigs.distinct⟩

/-- A text is read as what its own lines write. -/
theorem writes_of_parse {text : String} {configs : List RoomConfig}
    (h : parse text = .ok configs) : IsConfigs configs ∧ Writes text configs := by
  obtain ⟨items, hreads, rfl, hnonempty, hdistinct⟩ := parse_eq_ok_iff_reads.mp h
  have hwritten := Text.written_lines '\n' '\r' text.toList
  obtain ⟨hlines, hvalid⟩ := (reads_iff hwritten.not_mem).mp hreads
  refine ⟨?_, _, items, hwritten, hlines, rfl⟩
  exact {
    nonempty := hnonempty
    distinct := hdistinct
    names := fun cfg hcfg => (hvalid cfg hcfg).1
    passwords := fun cfg hcfg => (hvalid cfg hcfg).2 }

end

end Rooms

/-- **The rooms config.** `parse` accepts exactly the texts that write a config, with any
whitespace, comments and line endings, and returns what they write. -/
theorem parse_eq_ok_iff (text : String) (configs : List RoomConfig) :
    Rooms.parse text = .ok configs ↔ Rooms.IsConfigs configs ∧ Rooms.Writes text configs := by
  constructor
  · exact Rooms.writes_of_parse
  · rintro ⟨hconfigs, hwrites⟩
    exact Rooms.parse_of_writes hconfigs hwrites

-- whitespace, a comment, both line endings, and a password with the other marks in it
example : Rooms.parse "# dev\r\n dev = changeme-12c\r\n\nops=a = b # another" =
    .ok [{ name := "dev", password := "changeme-12c" },
      { name := "ops", password := "a = b # another" }] := by rfl

end ChatRs

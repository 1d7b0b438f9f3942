import Mathlib.Data.List.DropRight
import Mathlib.Data.List.Forall2

/-!
# Texts in lines

Texts over any alphabet: cut into lines, at a separator, or at their blank ends. Each of the three
functions has an equation that says how its result was written, and one that reads it off what was
written.

* **`trim`**: `trim_append` and `exists_trim`;
* **`splitOnce`**: `splitOnce_eq_some_iff`;
* **`lines`**, **`Written`**: a text is written in its own lines (`written_lines`), and read back
  from any lines that it was written in, up to blank ends (`map_trim_lines`).
-/

namespace Text

variable {α : Type}

/-! ## Blank ends -/

section

variable {p : α → Bool} {l m n a b : List α}

def Blank (p : α → Bool) (l : List α) : Prop := ∀ x ∈ l, p x = true

/-- Neither end is blank. -/
def Trimmed (p : α → Bool) (l : List α) : Prop :=
  (∀ x ∈ l.head?, p x = false) ∧ ∀ x ∈ l.getLast?, p x = false

instance : Decidable (Trimmed p l) := inferInstanceAs (Decidable (_ ∧ _))

def trim (p : α → Bool) (l : List α) : List α := (l.rdropWhile p).dropWhile p

theorem Blank.append (ha : Blank p a) (hb : Blank p b) : Blank p (a ++ b) := by
  intro x hx
  rcases List.mem_append.mp hx with hx | hx
  · exact ha x hx
  · exact hb x hx

theorem blank_singleton {x : α} : Blank p [x] ↔ p x = true := List.forall_mem_singleton

theorem rdropWhile_append_of_blank (hb : Blank p b) : (l ++ b).rdropWhile p = l.rdropWhile p := by
  have hrev : ∀ x ∈ b.reverse, p x = true := fun x hx => hb x (List.mem_reverse.mp hx)
  rw [List.rdropWhile, List.reverse_append, List.dropWhile_append_of_pos hrev, List.rdropWhile]

theorem rdropWhile_of_getLast (h : ∀ x ∈ l.getLast?, p x = false) : l.rdropWhile p = l := by
  rw [List.rdropWhile_eq_self_iff]
  intro hne
  rw [h _ (List.getLast?_eq_some_getLast hne)]
  exact Bool.false_ne_true

/-- **What stands between blanks is what is left.** -/
theorem trim_append (ha : Blank p a) (hm : Trimmed p m) (hb : Blank p b) :
    trim p (a ++ m ++ b) = m := by
  rw [trim, rdropWhile_append_of_blank hb]
  cases m with
  | nil =>
    rw [List.append_nil, List.rdropWhile_eq_nil_iff.mpr ha]
    rfl
  | cons x m =>
    have hlast : (a ++ x :: m).getLast? = (x :: m).getLast? :=
      List.getLast?_append_of_ne_nil _ (List.cons_ne_nil x m)
    rw [rdropWhile_of_getLast (hlast ▸ hm.2), List.dropWhile_append_of_pos ha,
      List.dropWhile_cons_of_neg]
    rw [hm.1 x rfl]
    exact Bool.false_ne_true

/-- Every text is blanks, what is left of it, and blanks. -/
theorem exists_trim (p : α → Bool) (l : List α) :
    ∃ a b, Blank p a ∧ Blank p b ∧ l = a ++ trim p l ++ b := by
  refine ⟨(l.rdropWhile p).takeWhile p, l.rtakeWhile p, ?_, ?_, ?_⟩
  · exact fun x hx => List.mem_takeWhile_imp hx
  · exact fun x hx => List.mem_rtakeWhile_imp hx
  · rw [trim, List.takeWhile_append_dropWhile, List.rdropWhile_append_rtakeWhile]

/-- What was trimmed has no blank at either end. -/
theorem trimmed_trim (p : α → Bool) (l : List α) : Trimmed p (trim p l) := by
  constructor
  · intro x hx
    have hnot := List.head?_dropWhile_not p (l.rdropWhile p)
    rw [trim, Option.mem_def] at hx
    rw [hx] at hnot
    simpa using hnot
  · intro x hx
    have hne : trim p l ≠ [] := by
      intro hnil
      rw [hnil] at hx
      cases hx
    have hsuffix : trim p l <:+ l.rdropWhile p := List.dropWhile_suffix p
    have hlast : (l.rdropWhile p).getLast? = (trim p l).getLast? := by
      obtain ⟨lead, hlead⟩ := hsuffix
      rw [← hlead, List.getLast?_append_of_ne_nil _ hne]
    rw [← hlast] at hx
    have hne' : l.rdropWhile p ≠ [] := fun hnil => hne (List.suffix_nil.mp (hnil ▸ hsuffix))
    rw [List.getLast?_eq_some_getLast hne', Option.mem_def, Option.some.injEq] at hx
    have hnot := List.rdropWhile_last_not p l hne'
    rw [hx] at hnot
    simpa using hnot

/-- Only the two ends have to be trimmed. -/
theorem Trimmed.append (hm : Trimmed p m) (hn : Trimmed p n) (hm' : m ≠ []) (hn' : n ≠ []) :
    Trimmed p (m ++ (l ++ n)) := by
  constructor
  · rw [List.head?_append_of_ne_nil _ hm']
    exact hm.1
  · have hne : l ++ n ≠ [] := List.append_ne_nil_of_right_ne_nil l hn'
    rw [List.getLast?_append_of_ne_nil _ hne, List.getLast?_append_of_ne_nil _ hn']
    exact hn.2

theorem mem_of_mem_trim {x : α} (h : x ∈ trim p l) : x ∈ l :=
  (List.rdropWhile_prefix p l).subset ((List.dropWhile_suffix p).subset h)

theorem trim_of_trimmed (hm : Trimmed p m) : trim p m = m := by
  have h := trim_append (a := []) (b := []) (List.forall_mem_nil _) hm (List.forall_mem_nil _)
  rwa [List.nil_append, List.append_nil] at h

/-- Blanks at the ends do not matter. -/
theorem trim_append_blank (hb : Blank p b) : trim p (l ++ b) = trim p l := by
  rw [trim, trim, rdropWhile_append_of_blank hb]

/-- The first character that is not blank comes to the front. -/
theorem head?_trim {x : α} (ha : Blank p a) (hx : p x = false) :
    (trim p (a ++ x :: l)).head? = some x := by
  let m := (x :: l).rdropWhile p
  have hne : m ≠ [] := by
    intro hnil
    have hall : p x = true := List.rdropWhile_eq_nil_iff.mp hnil x List.mem_cons_self
    rw [hx] at hall
    cases hall
  have hhead : m.head? = some x := by
    have hstart : m <+: x :: l := List.rdropWhile_prefix p _
    rw [List.head?_eq_some_head hne, hstart.head hne, List.head_cons]
  have hlast : ∀ y ∈ m.getLast?, p y = false := by
    intro y hy
    have hnot := List.rdropWhile_last_not p (x :: l) hne
    rw [List.getLast?_eq_some_getLast hne, Option.mem_some_iff] at hy
    subst hy
    exact Bool.eq_false_iff.mpr hnot
  have hm : Trimmed p m := ⟨fun y hy => by rwa [← Option.some.inj (hhead.symm.trans hy)], hlast⟩
  have hb : Blank p ((x :: l).rtakeWhile p) := fun y hy => List.mem_rtakeWhile_imp hy
  have htrim := trim_append ha hm hb
  rw [List.append_assoc, List.rdropWhile_append_rtakeWhile] at htrim
  rw [htrim, hhead]

/-- Only blanks are trimmed away altogether. -/
theorem trim_eq_nil_iff : trim p l = [] ↔ Blank p l := by
  constructor
  · intro h
    obtain ⟨a, b, ha, hb, hl⟩ := exists_trim p l
    rw [h, List.append_nil] at hl
    exact hl ▸ ha.append hb
  · intro h
    have hnil : trim p [] = [] := rfl
    rw [← hnil, ← List.nil_append l, trim_append_blank h]

end

/-! ## A separator -/

section

variable [DecidableEq α] {sep : α} {l a b : List α}

/-- What is before the first `sep`, and what is after it. -/
def splitOnce (sep : α) : List α → Option (List α × List α)
  | [] => none
  | c :: cs =>
    if c = sep then some ([], cs)
    else (splitOnce sep cs).map fun ab => (c :: ab.1, ab.2)

/-- A text is split at the first separator. -/
theorem splitOnce_append (ha : sep ∉ a) : splitOnce sep (a ++ sep :: b) = some (a, b) := by
  induction a with
  | nil => rw [List.nil_append, splitOnce, if_pos rfl]
  | cons c a ih =>
    obtain ⟨hc, ha⟩ := not_or.mp (mt List.mem_cons.mpr ha)
    rw [List.cons_append, splitOnce, if_neg (Ne.symm hc), ih ha, Option.map_some]

/-- A text is split in two exactly where the separator stands first. -/
theorem splitOnce_eq_some_iff :
    splitOnce sep l = some (a, b) ↔ l = a ++ sep :: b ∧ sep ∉ a := by
  constructor
  · intro h
    induction l generalizing a with
    | nil => cases h
    | cons c l ih =>
      rw [splitOnce] at h
      split at h
      · next hc =>
        cases h
        exact ⟨by rw [hc, List.nil_append], List.not_mem_nil⟩
      · next hc =>
        obtain ⟨⟨a', b'⟩, hab, heq⟩ := Option.map_eq_some_iff.mp h
        cases heq
        obtain ⟨hl, ha⟩ := ih hab
        refine ⟨by rw [hl, List.cons_append], ?_⟩
        rw [List.mem_cons, not_or]
        exact ⟨Ne.symm hc, ha⟩
  · rintro ⟨rfl, ha⟩
    exact splitOnce_append ha

end

/-! ## Lines -/

section

/-- The texts that a list of lines can be written as. Only the last line may be left open, and a
line that is left open and empty is not there at all. -/
inductive Written (nl cr : α) : List α → List (List α) → Prop
  | nil : Written nl cr [] []
  | last {l : List α} (hl : nl ∉ l) (hne : l ≠ []) : Written nl cr l [l]
  | lf {l t : List α} {ls : List (List α)} (hl : nl ∉ l) (h : Written nl cr t ls) :
      Written nl cr (l ++ nl :: t) (l :: ls)
  | crlf {l t : List α} {ls : List (List α)} (hl : nl ∉ l) (h : Written nl cr t ls) :
      Written nl cr (l ++ cr :: nl :: t) (l :: ls)

variable {nl cr : α} {text l t : List α} {ls : List (List α)}

/-- A character put before a text goes to its first line. -/
theorem Written.cons {c : α} (hc : c ≠ nl) (h : Written nl cr text (l :: ls)) :
    Written nl cr (c :: text) ((c :: l) :: ls) := by
  have hcons {l : List α} (hl : nl ∉ l) : nl ∉ c :: l := by
    rw [List.mem_cons, not_or]
    exact ⟨Ne.symm hc, hl⟩
  cases h with
  | last hl hne => exact .last (hcons hl) (List.cons_ne_nil _ _)
  | lf hl h =>
    rw [← List.cons_append]
    exact .lf (hcons hl) h
  | crlf hl h =>
    rw [← List.cons_append]
    exact .crlf (hcons hl) h

/-- A `cr` put before an empty line goes to its end. -/
theorem Written.cr_cons (hne : cr ≠ nl) (h : Written nl cr (nl :: t) ls) :
    Written nl cr (cr :: nl :: t) ls := by
  generalize htext : nl :: t = text at h
  cases h with
  | nil => cases htext
  | last hl => exact absurd (htext ▸ List.mem_cons_self) hl
  | @lf l t' ls hl h =>
    cases l with
    | nil =>
      cases htext
      exact .crlf hl h
    | cons c l =>
      cases htext
      exact absurd List.mem_cons_self hl
  | @crlf l t' ls hl h =>
    cases l with
    | nil =>
      cases htext
      exact absurd rfl hne
    | cons c l =>
      cases htext
      exact absurd List.mem_cons_self hl

/-- No line has a line feed in it. -/
theorem Written.not_mem (h : Written nl cr text ls) : ∀ l ∈ ls, nl ∉ l := by
  induction h with
  | nil => exact List.forall_mem_nil _
  | last hl => exact List.forall_mem_singleton.mpr hl
  | lf hl h ih => exact List.forall_mem_cons.mpr ⟨hl, ih⟩
  | crlf hl h ih => exact List.forall_mem_cons.mpr ⟨hl, ih⟩

end

section

variable [DecidableEq α] {nl cr : α} {p : α → Bool} {text l : List α} {ls : List (List α)}

/-- The lines of a text, without the `nl`, or the `cr` and the `nl`, that ends each but maybe
the last. -/
def lines (nl cr : α) : List α → List (List α)
  | [] => []
  | c :: cs =>
    if c = nl then [] :: lines nl cr cs
    else if c = cr ∧ cs.head? = some nl then lines nl cr cs
    else
      match lines nl cr cs with
      | [] => [[c]]
      | l :: ls => (c :: l) :: ls

theorem lines_nl (nl cr : α) (t : List α) : lines nl cr (nl :: t) = [] :: lines nl cr t := by
  rw [lines, if_pos rfl]

/-- **A text is written in its own lines.** -/
theorem written_lines (nl cr : α) (text : List α) : Written nl cr text (lines nl cr text) := by
  induction text with
  | nil => exact .nil
  | cons c cs ih =>
    rw [lines]
    split_ifs with hc hcr
    · rw [hc, ← List.nil_append (nl :: cs)]
      exact .lf List.not_mem_nil ih
    · obtain ⟨rfl, hhead⟩ := hcr
      obtain ⟨t, rfl⟩ := List.head?_eq_some_iff.mp hhead
      exact ih.cr_cons hc
    · split
      · next hnil =>
        rw [hnil] at ih
        cases ih
        exact .last (fun h => hc (List.mem_singleton.mp h).symm) (List.cons_ne_nil _ _)
      · next hcons =>
        rw [hcons] at ih
        exact ih.cons hc

/-- A text without an end of line is one line. -/
theorem lines_of_not_mem (hl : nl ∉ l) (hne : l ≠ []) : lines nl cr l = [l] := by
  induction l with
  | nil => exact absurd rfl hne
  | cons c l ih =>
    obtain ⟨hc, hl⟩ := not_or.mp (mt List.mem_cons.mpr hl)
    have hhead : l.head? ≠ some nl := fun h => hl (List.mem_of_head? h)
    rw [lines, if_neg (Ne.symm hc), if_neg fun h => hhead h.2]
    cases l with
    | nil => rfl
    | cons d l => rw [ih hl (List.cons_ne_nil d l)]

/-- The line that ends at `nl` loses at most a `cr`. -/
theorem lines_append_nl (cr : α) (t : List α) (hl : nl ∉ l) :
    ∃ l', lines nl cr (l ++ nl :: t) = l' :: lines nl cr t ∧ (l = l' ∨ l = l' ++ [cr]) := by
  induction l with
  | nil => exact ⟨[], lines_nl nl cr t, .inl rfl⟩
  | cons c l ih =>
    obtain ⟨hc, hl⟩ := not_or.mp (mt List.mem_cons.mpr hl)
    rw [List.cons_append, lines, if_neg (Ne.symm hc)]
    split_ifs with hcr
    · -- only an empty rest has `nl` at its head
      cases l with
      | nil =>
        obtain ⟨rfl, -⟩ := hcr
        exact ⟨[], lines_nl nl c t, .inr rfl⟩
      | cons d l =>
        have hd : d = nl := Option.some.inj hcr.2
        exact absurd (hd ▸ List.mem_cons_self) hl
    · obtain ⟨l', hlines, hl'⟩ := ih hl
      rw [hlines]
      refine ⟨c :: l', rfl, ?_⟩
      rcases hl' with rfl | rfl
      · exact .inl rfl
      · exact .inr rfl

/-- **The lines that a text was written from are read back**, up to blank ends. -/
theorem Written.map_trim_lines (hne : cr ≠ nl) (hcr : p cr = true) (h : Written nl cr text ls) :
    (lines nl cr text).map (trim p) = ls.map (trim p) := by
  have hend {l l' : List α} (h : l = l' ∨ l = l' ++ [cr]) : trim p l' = trim p l := by
    rcases h with rfl | rfl
    · rfl
    · rw [trim_append_blank (blank_singleton.mpr hcr)]
  induction h with
  | nil => rfl
  | last hl hne => rw [lines_of_not_mem hl hne]
  | @lf l t ls hl h ih =>
    obtain ⟨l', hlines, hl'⟩ := lines_append_nl cr t hl
    rw [hlines, List.map_cons, List.map_cons, ih, hend hl']
  | @crlf l t ls hl h ih =>
    have hl' : nl ∉ l ++ [cr] := by
      rw [List.mem_append, List.mem_singleton, not_or]
      exact ⟨hl, Ne.symm hne⟩
    obtain ⟨l', hlines, hl'⟩ := lines_append_nl cr t hl'
    rw [← List.append_cons] at hlines
    rw [hlines, List.map_cons, List.map_cons, ih, hend hl',
      trim_append_blank (blank_singleton.mpr hcr)]

end

end Text

import ChatRs.Client.Ephemeral

/-!
# The scrolled view (`client/ui.rs`)

The pane shows the messages up to the one that has `scroll` others below it. A message that is
pushed should leave a view of the past where it is, so `push` counts it in. It does not when the
deque is full: then the oldest message goes, all others move down by one, and so does the view.

* **`UiState.visible`**: what `render` shows, and `bottomOf` its last line;
* **`UiState.IsClamped`**: `scroll` never goes beyond the oldest full pane, in any reachable state;
* **`UiState.push_scroll`**: what a push does to `scroll` then;
* **`push_anchors_iff`**: the view stays if and only if the deque is not full, or the bottom line
  is just the message that goes.
-/

namespace ChatRs

open Client

/-! ## The bottom line -/

/-- What is on the line that has `scroll` others below it. -/
def bottomOf {α : Type} (l : List α) (scroll : Nat) : Option α := l[l.length - scroll - 1]?

section

variable {α : Type} {l : List α} {scroll : Nat}

theorem bottomOf_concat_zero (l : List α) (x : α) : bottomOf (l ++ [x]) 0 = some x := by
  rw [bottomOf, List.length_append, List.length_singleton, Nat.sub_zero, Nat.add_sub_cancel]
  exact List.getElem?_concat_length

/-- One more below it, and the same is on the line. -/
theorem bottomOf_concat_succ (h : scroll < l.length) (x : α) :
    bottomOf (l ++ [x]) (scroll + 1) = bottomOf l scroll := by
  rw [bottomOf, bottomOf, List.length_append, List.length_singleton, Nat.add_sub_add_right]
  exact List.getElem?_append_left (by omega)

/-- When the first goes too, the next one is on the line. -/
theorem bottomOf_tail_concat (hpos : 0 < scroll) (h : scroll < l.length) (x : α) :
    bottomOf (l.tail ++ [x]) scroll = l[l.length - scroll]? := by
  have hlen : (l.tail ++ [x]).length = l.length := by
    rw [List.length_append, List.length_tail, List.length_singleton]
    omega
  rw [bottomOf, hlen, List.getElem?_append_left (by rw [List.length_tail]; omega),
    List.getElem?_tail]
  congr 1
  omega

/-- In a list that is in order the line differs from the next one, and is the first of the list
only if all others are below it. -/
theorem bottomOf_lt_next {l : List (Nat × α)} (hordered : l.Pairwise fun e e' => e.1 < e'.1)
    (hpos : 0 < scroll) (h : scroll + 1 < l.length) :
    ∃ x y, bottomOf l scroll = some x ∧ x ∈ l.tail ∧ l[l.length - scroll]? = some y
      ∧ x.1 < y.1 := by
  obtain ⟨i, hi⟩ : ∃ i, l.length = i + scroll + 2 := ⟨l.length - scroll - 2, by omega⟩
  have hline : l.length - scroll - 1 = i + 1 := by omega
  have hnext : l.length - scroll = i + 2 := by omega
  have hx : i + 1 < l.length := by omega
  have hy : i + 2 < l.length := by omega
  refine ⟨l[i + 1], l[i + 2], ?_, ?_, ?_, ?_⟩
  · rw [bottomOf, hline, List.getElem?_eq_getElem hx]
  · rw [← List.getElem_tail (by rw [List.length_tail]; omega)]
    exact List.getElem_mem _
  · rw [hnext, List.getElem?_eq_getElem hy]
  · exact List.pairwise_iff_getElem.mp hordered (i + 1) (i + 2) hx hy (Nat.lt_succ_self _)

end

/-! ## What is shown -/

namespace UiState

/-- The messages in the pane, of `last_inner_h` lines: `render` skips to `start` and takes the
rest up to `end`. -/
def visible (s : UiState) : List DisplayMsg :=
  let len := s.messages.length
  let end_ := len - s.scroll
  let start := end_ - s.lastInnerH
  (s.messages.drop start).take (end_ - start)

/-- The view does not go beyond the oldest full pane. -/
def IsClamped (s : UiState) : Prop := s.scroll ≤ s.messages.length - max s.lastInnerH 1

variable {s : UiState}

/-- A view that is scrolled up is not scrolled past the oldest message. -/
theorem IsClamped.lt_length (h : s.IsClamped) (hscroll : 0 < s.scroll) :
    s.scroll < s.messages.length := by
  unfold IsClamped at h
  omega

/-- **The last line of a pane is the bottom line.** -/
theorem visible_getLast? (h : s.IsClamped) (hpane : 0 < s.lastInnerH) :
    s.visible.getLast? = bottomOf s.messages s.scroll := by
  unfold IsClamped at h
  simp only [visible, bottomOf]
  rw [List.getLast?_eq_getElem?, List.length_take, List.length_drop, List.getElem?_take,
    List.getElem?_drop]
  by_cases hempty : s.messages.length = 0
  · rw [List.length_eq_zero_iff] at hempty
    simp [hempty]
  · rw [if_pos (by omega)]
    congr 1
    omega

/-- The clamp leaves at least a pane full of messages above the bottom line. -/
theorem clampScroll_scroll (s : UiState) :
    s.clampScroll.scroll = min s.scroll (s.messages.length - max s.lastInnerH 1) := by
  simp only [clampScroll]
  split
  · rename_i h
    exact (Nat.min_eq_right h.le).symm
  · rename_i h
    exact (Nat.min_eq_left (Nat.le_of_not_lt h)).symm

theorem clampScroll_of_isClamped (h : s.IsClamped) : s.clampScroll = s :=
  if_neg (Nat.not_lt_of_le h)

@[simp] theorem clampScroll_lastInnerH (s : UiState) : s.clampScroll.lastInnerH = s.lastInnerH := by
  simp only [clampScroll]
  split <;> rfl

theorem isClamped_clampScroll (s : UiState) : s.clampScroll.IsClamped := by
  rw [IsClamped, clampScroll_scroll, clampScroll_messages, clampScroll_lastInnerH]
  exact Nat.min_le_right _ _

theorem isClamped_push (s : UiState) (msg : DisplayMsg) : (s.push msg).IsClamped :=
  isClamped_clampScroll _

theorem isClamped_render (s : UiState) (innerH : Nat) : (s.render innerH).IsClamped :=
  isClamped_clampScroll _

/-- A pane of the same height is drawn as it was. -/
theorem render_lastInnerH (h : s.IsClamped) : s.render s.lastInnerH = s :=
  clampScroll_of_isClamped h

@[simp] theorem push_lastInnerH (s : UiState) (msg : DisplayMsg) :
    (s.push msg).lastInnerH = s.lastInnerH := by
  simp only [push, clampScroll_lastInnerH]
  split <;> rfl

/-- **A push counts the message in**, when someone looks at the past of a deque that is not
full. -/
theorem push_scroll (h : s.IsClamped) (msg : DisplayMsg) :
    (s.push msg).scroll
      = if 0 < s.scroll ∧ s.messages.length ≠ HISTORY_CAP then s.scroll + 1 else s.scroll := by
  unfold IsClamped at h
  simp only [push]
  by_cases hbump : s.scroll > 0 ∧ ¬ s.messages.length = HISTORY_CAP
  · rw [if_pos hbump, if_pos hbump, clampScroll_of_isClamped]
    show s.scroll + 1 ≤ (Ring.push HISTORY_CAP s.messages msg).length - max s.lastInnerH 1
    rw [Ring.push, if_neg hbump.2, List.length_append, List.length_singleton]
    omega
  · rw [if_neg hbump, if_neg hbump, clampScroll_of_isClamped]
    show s.scroll ≤ (Ring.push HISTORY_CAP s.messages msg).length - max s.lastInnerH 1
    by_cases hscroll : s.scroll = 0
    · rw [hscroll]
      exact Nat.zero_le _
    · have hcapped : s.messages.length = HISTORY_CAP := by
        by_contra hne
        exact hbump ⟨Nat.pos_of_ne_zero hscroll, hne⟩
      rw [Ring.length_push (by decide) hcapped.le, hcapped, Nat.min_eq_right (Nat.le_succ _),
        ← hcapped]
      exact h

theorem isClamped_scrollUp (s : UiState) (n : Nat) : (s.scrollUp n).IsClamped :=
  isClamped_clampScroll _

theorem IsClamped.scrollDown (h : s.IsClamped) (n : Nat) : (s.scrollDown n).IsClamped :=
  Nat.le_trans (Nat.sub_le _ _) h

/-- A view at the newest message is clamped, whatever there is above it. -/
theorem isClamped_of_scroll_eq_zero (h : s.scroll = 0) : s.IsClamped := by
  unfold IsClamped
  rw [h]
  exact Nat.zero_le _

/-- What is clamped depends only on how many messages there are. -/
theorem IsClamped.mapMessages (h : s.IsClamped) (f : DisplayMsg → DisplayMsg) :
    ({ s with messages := s.messages.map f } : UiState).IsClamped := by
  unfold IsClamped at h ⊢
  show s.scroll ≤ (s.messages.map f).length - max s.lastInnerH 1
  rw [List.length_map]
  exact h

theorem IsClamped.revealEphemerals (h : s.IsClamped) (clock : Clock) :
    (s.revealEphemerals clock).IsClamped := h.mapMessages _

/-- A tick clamps again after it has taken messages away. -/
theorem IsClamped.tickExpireEphemerals (h : s.IsClamped) (clock : Clock) :
    (s.tickExpireEphemerals clock).IsClamped := by
  simp only [UiState.tickExpireEphemerals]
  apply IsClamped.mapMessages
  split
  · exact isClamped_clampScroll _
  · rename_i hdropped
    unfold IsClamped at h ⊢
    rw [decide_eq_true_eq] at hdropped
    exact h.trans (Nat.sub_le_sub_right (Nat.le_of_not_lt hdropped) _)

/-- Counting a sender's messages does not touch the view. -/
theorem IsClamped.tryAcceptCounter (h : s.IsClamped) (sender : Uuid) (counter : UInt64) :
    (s.tryAcceptCounter sender counter).2.IsClamped := by
  simp only [UiState.tryAcceptCounter]
  split <;> exact h

end UiState

section

variable {aead : Aead} {roomKey : Key} {s : UiState}

/-- Whatever Enter does with the line, it leaves the view clamped: it pushes notices, or goes back
to the newest message. -/
theorem isClamped_enter (h : s.IsClamped) (clock : Clock) (random : Option Nonce) :
    (enter aead roomKey s clock random).2.IsClamped := by
  simp only [enter]
  cases parseLine s.input with
  | nothing | clear | quit => exact h
  | message body ephemeral =>
    simp only [submit]
    split
    · exact h
    · exact UiState.isClamped_push _ _

/-- Every key keeps the scroll offset within its bounds. -/
theorem isClamped_handleKey (h : s.IsClamped) (clock : Clock) (random : Option Nonce)
    (key : KeyEvent) : (handleKey aead roomKey s clock random key).2.IsClamped := by
  unfold handleKey
  split
  · exact h
  split
  · exact h
  split
  · exact h.revealEphemerals clock
  cases key.code with
  | enter => exact isClamped_enter h clock random
  | up | pageUp => exact s.isClamped_scrollUp _
  | down | pageDown => exact h.scrollDown _
  | home => exact Nat.le_refl _
  | end_ => exact UiState.isClamped_of_scroll_eq_zero rfl
  | backspace | char | other => exact h

/-- Every frame of the server keeps the scroll offset within its bounds. -/
theorem isClamped_handleServerFrame (h : s.IsClamped) (clock : Clock) (f : ServerFrame) :
    (handleServerFrame aead roomKey s clock f).2.IsClamped := by
  cases f with
  | message m =>
    simp only [handleServerFrame]
    split <;> exact UiState.isClamped_push _ _
  | cleared by_ username => exact UiState.isClamped_push _ _
  | error | hello | welcome => exact h

/-- Every turn of the loop keeps the scroll offset within its bounds. -/
theorem isClamped_turn (h : s.IsClamped) (clock : Clock) (i : Input) :
    (turn aead roomKey s clock i).2.IsClamped := by
  cases i with
  | key k random written =>
    rw [turn_key]
    exact isClamped_handleKey h clock random k
  | incoming r =>
    match r with
    | none => exact h
    | some (.error e) => exact h
    | some (.ok f) =>
      rw [turn_incoming]
      exact isClamped_handleServerFrame h clock f
  | tick => exact h.tickExpireEphemerals clock
  | drawFailed | otherEvent | eventError | eventsEnded => exact h

/-- And every step of the screen: the view stays clamped along every run (`isClamped`). -/
theorem ScreenStep.isClamped {s s' : Screen} {evs : List DisplayEvent}
    (hstep : ScreenStep aead roomKey s s' evs) (h : s.ui.IsClamped) : s'.ui.IsClamped := by
  cases hstep with
  | passes | enters => exact h
  | replays nowMs m => exact UiState.isClamped_push _ _
  | draws innerH => exact s.ui.isClamped_render innerH
  | turns nowMs i stage => exact isClamped_turn h ⟨s.now, nowMs⟩ i

variable {username : String} {userId : Uuid} {room : String}
variable {G : Machine.Guard Screen ScreenLabel DisplayEvent}
variable {c : Machine.Config Screen DisplayEvent}

/-- **No run scrolls too far.** -/
theorem isClamped (h : (screen aead roomKey username userId room).Reach G c) :
    c.state.ui.IsClamped := by
  refine Machine.Reach.invariant (P := fun c => c.state.ui.IsClamped)
    (UiState.isClamped_of_scroll_eq_zero rfl) ?_ h
  intro d l s' evs _ ih _ hs
  exact (screenStep_inv hs).isClamped ih

end

/-! ## A push under a scrolled view -/

theorem entries_push (past : List DisplayEvent) (msg : DisplayMsg) :
    entries (past ++ [.arrived msg])
      = Ring.push HISTORY_CAP (entries past) (past.length, msg) := Ring.entries_concat ..

/-- The view stays where it is when a message is pushed: a message of the past on the bottom line
is still there, unless it has left the deque, and a view of the latest message shows the new
one. -/
def Anchored (past : List DisplayEvent) (ui : UiState) (msg : DisplayMsg) : Prop :=
  let ui' := (ui.push msg).render ui.lastInnerH
  let es := entries past
  let es' := entries (past ++ [.arrived msg])
  (0 < ui.scroll → ∀ e, bottomOf es ui.scroll = some e → e ∈ es' →
      bottomOf es' ui'.scroll = some e)
    ∧ (ui.scroll = 0 → bottomOf es' ui'.scroll = some (past.length, msg))

section

variable {past : List DisplayEvent} {ui : UiState} {msg : DisplayMsg}

/-- What is drawn after the push has the scroll position of the push. -/
theorem UiState.push_render_scroll (ui : UiState) (msg : DisplayMsg) :
    ((ui.push msg).render ui.lastInnerH).scroll = (ui.push msg).scroll := by
  rw [← UiState.push_lastInnerH ui msg, UiState.render_lastInnerH (ui.isClamped_push msg)]

/-- A view at the newest message shows it after the push, as it should. -/
theorem anchored_of_pinned (hscroll : ui.scroll = 0) (h : ui.IsClamped) :
    Anchored past ui msg := by
  refine ⟨fun hpos => absurd hscroll (Nat.ne_of_gt hpos), fun _ => ?_⟩
  rw [UiState.push_render_scroll, UiState.push_scroll h, if_neg (fun hpos => ?_), hscroll,
    entries_push]
  · exact bottomOf_concat_zero _ _
  · exact absurd hscroll (Nat.ne_of_gt hpos.1)

/-- A deque that is not full grows by one, and so does what is below the view. -/
theorem anchored_of_room (h : ui.IsClamped) (hlen : (entries past).length = ui.messages.length)
    (hroom : ui.messages.length ≠ HISTORY_CAP) : Anchored past ui msg := by
  by_cases hscroll : ui.scroll = 0
  · exact anchored_of_pinned hscroll h
  refine ⟨fun hpos e hbottom _ => ?_, fun hzero => absurd hzero hscroll⟩
  rw [UiState.push_render_scroll, UiState.push_scroll h, if_pos ⟨hpos, hroom⟩, entries_push,
    Ring.push, if_neg (by rw [hlen]; exact hroom), bottomOf_concat_succ, hbottom]
  rw [hlen]
  exact h.lt_length hpos

/-- **In a full deque the view moves on by one message.** -/
theorem bottomOf_push_of_capped (h : ui.IsClamped)
    (hlen : (entries past).length = ui.messages.length)
    (hfull : ui.messages.length = HISTORY_CAP) (hpos : 0 < ui.scroll) :
    bottomOf (entries (past ++ [.arrived msg])) ((ui.push msg).render ui.lastInnerH).scroll
      = (entries past)[(entries past).length - ui.scroll]? := by
  rw [UiState.push_render_scroll, UiState.push_scroll h, if_neg (fun hroom => hroom.2 hfull),
    entries_push, Ring.push, if_pos (hlen.trans hfull), bottomOf_tail_concat hpos]
  rw [hlen]
  exact h.lt_length hpos

/-- At the cap the oldest message goes while `scroll` stays where it is, so the view moves on by one
line. -/
theorem not_anchored_of_capped (h : ui.IsClamped)
    (hlen : (entries past).length = ui.messages.length)
    (hfull : ui.messages.length = HISTORY_CAP) (hpos : 0 < ui.scroll)
    (hstays : ui.scroll + 1 ≠ ui.messages.length) : ¬ Anchored past ui msg := by
  intro hanchored
  have hlt := h.lt_length hpos
  obtain ⟨x, y, hx, hthere, hy, hxy⟩ :=
    bottomOf_lt_next (Ring.entries_pairwise past) hpos (by rw [← entries, hlen]; omega)
  have hkept : x ∈ entries (past ++ [.arrived msg]) := by
    rw [entries_push, Ring.push, if_pos (hlen.trans hfull)]
    exact List.mem_append_left _ hthere
  have hsame := hanchored.1 hpos x hx hkept
  rw [bottomOf_push_of_capped h hlen hfull hpos] at hsame
  cases hy.symm.trans hsame
  exact Nat.lt_irrefl _ hxy

/-- The bottom line of a view that cannot go further back is the message that goes. -/
theorem anchored_of_evicted (hlen : (entries past).length = ui.messages.length)
    (hfull : ui.messages.length = HISTORY_CAP) (hpos : 0 < ui.scroll)
    (holdest : ui.scroll + 1 = ui.messages.length) : Anchored past ui msg := by
  refine ⟨fun _ e hbottom hthere => ?_, fun hzero => absurd hzero (Nat.ne_of_gt hpos)⟩
  exfalso
  have hordered : (entries past).Pairwise fun e e' => e.1 < e'.1 := Ring.entries_pairwise past
  have hzero : (entries past).length - ui.scroll - 1 = 0 := by omega
  rw [entries_push, Ring.push, if_pos (hlen.trans hfull)] at hthere
  rw [bottomOf, hzero] at hbottom
  cases hes : entries past with
  | nil =>
    rw [hes] at hbottom
    cases hbottom
  | cons x rest =>
    rw [hes] at hbottom hthere hordered
    cases hbottom
    rcases List.mem_append.mp hthere with hrest | hnew
    · exact Nat.lt_irrefl _ ((List.pairwise_cons.mp hordered).1 e hrest)
    · have hplace : (e.1, e.2) ∈ entries past := by
        rw [hes]
        exact List.mem_cons_self
      have hlt : e.1 < past.length := Ring.lt_length_of_mem_entries hplace
      rw [List.mem_singleton.mp hnew] at hlt
      exact Nat.lt_irrefl _ hlt

end

section

variable {aead : Aead} {roomKey : Key} {username : String} {userId : Uuid} {room : String}
variable {G : Machine.Guard Screen ScreenLabel DisplayEvent}
variable {c : Machine.Config Screen DisplayEvent}

/-- **A push leaves the view where it is** in every state that a client comes to, if and only if
it shows the latest message, the deque is not full, or the bottom line is the message that has to
go. -/
theorem push_anchors_iff (h : (screen aead roomKey username userId room).Reach G c)
    (msg : DisplayMsg) :
    (entries c.past).map Prod.snd = c.state.ui.messages
      ∧ (entries (c.past ++ [.arrived msg])).map Prod.snd = (c.state.ui.push msg).messages
      ∧ (Anchored c.past c.state.ui msg
        ↔ c.state.ui.scroll = 0 ∨ c.state.ui.messages.length < HISTORY_CAP
          ∨ c.state.ui.scroll + 1 = c.state.ui.messages.length) := by
  have hentries := entries_messages h
  have hlen : (entries c.past).length = c.state.ui.messages.length := by
    rw [← hentries, List.length_map]
  have hcap : c.state.ui.messages.length ≤ HISTORY_CAP := by
    rw [← hlen]
    exact Ring.length_entries_le HISTORY_CAP _ (by decide) c.past
  have hclamped := isClamped h
  refine ⟨hentries, ?_, ?_⟩
  · rw [entries_push, Ring.push_map, hentries, UiState.push_messages]
  constructor
  · -- in every other state the oldest line goes and the view moves by one
    intro hanchored
    by_contra hno
    simp only [not_or] at hno
    obtain ⟨hscroll, hfull, hstays⟩ := hno
    exact not_anchored_of_capped hclamped hlen (Nat.le_antisymm hcap (Nat.le_of_not_lt hfull))
      (Nat.pos_of_ne_zero hscroll) hstays hanchored
  · rintro (hscroll | hroom | holdest)
    · exact anchored_of_pinned hscroll hclamped
    · exact anchored_of_room hclamped hlen (Nat.ne_of_lt hroom)
    · by_cases hscroll : c.state.ui.scroll = 0
      · exact anchored_of_pinned hscroll hclamped
      rcases Nat.lt_or_eq_of_le hcap with hroom | hfull
      · exact anchored_of_room hclamped hlen (Nat.ne_of_lt hroom)
      · exact anchored_of_evicted hlen hfull (Nat.pos_of_ne_zero hscroll) holdest

end

/-! ## Bob looks at the past -/

namespace Pane

/-- Bob's client, with a cipher that only tags. -/
abbrev bobs : Machine Screen ScreenLabel DisplayEvent :=
  screen Aead.tagging roomKey "bob" bob "main"

def line : DisplayMsg := ⟨1000, .system "hi", none⟩

/-- Three messages in a pane of one line, and Bob goes back by one. -/
def lookingBack : List ScreenLabel :=
  [.replay 1000 (note 1 "a" false), .replay 1000 (note 2 "b" false),
    .replay 1000 (note 3 "c" false), .enterTerminal, .draw 1, pressed .up false]

end Pane

open Pane in
/-- The second message stays on the bottom line. -/
theorem push_anchors_iff_back :
    ∃ c, bobs.Reach Machine.free c ∧ c.state.ui.scroll = 1 ∧ Anchored c.past c.state.ui line := by
  obtain ⟨c, hc, hend⟩ := Machine.exec_reach_free (M := bobs)
    (fun c => (c.state.ui.scroll, c.state.ui.messages.length)) (1, 3) lookingBack (by decide)
  obtain ⟨hscroll, hlen⟩ := Prod.mk.inj hend
  refine ⟨c, hc, hscroll, (push_anchors_iff hc line).2.2.mpr (.inr (.inl ?_))⟩
  rw [hlen]
  decide

namespace Pane

/-- A history of any length, as far as the deque goes. -/
theorem fills (n : Nat) :
    ∃ c, bobs.Reach Machine.free c ∧ c.state.stage = .replaying ∧ c.state.ui.scroll = 0
      ∧ c.state.ui.messages.length = min n HISTORY_CAP := by
  induction n with
  | zero => exact ⟨_, .refl, rfl, rfl, rfl⟩
  | succ n ih =>
    obtain ⟨c, hc, hstage, hscroll, hlen⟩ := ih
    have hstep : bobs.step c.state (.replay 1000 (note 1 "hi" false)) = some (_, _) :=
      if_pos hstage
    refine ⟨_, hc.tail (.mk _ _ _ trivial hstep), hstage, ?_, ?_⟩
    · have hclamped := (isClamped hc).tryAcceptCounter alice 1
      have hsame : (c.state.ui.tryAcceptCounter alice 1).2.scroll = c.state.ui.scroll := by
        simp only [UiState.tryAcceptCounter]
        split <;> rfl
      refine (UiState.push_scroll hclamped _).trans ?_
      rw [hsame, hscroll, if_neg (fun h => Nat.lt_irrefl 0 h.1)]
    · refine (congrArg List.length (UiState.push_messages _ _)).trans ?_
      rw [UiState.tryAcceptCounter_messages, Ring.length_push (by decide) (hlen.trans_le ?_), hlen]
      · omega
      · exact Nat.min_le_right _ _

/-- A full deque, and Bob goes back by one. -/
theorem looksBack :
    ∃ c, bobs.Reach Machine.free c ∧ c.state.ui.scroll = 1
      ∧ c.state.ui.messages.length = HISTORY_CAP := by
  obtain ⟨c, hc, hstage, hscroll, hlen⟩ := fills HISTORY_CAP
  rw [Nat.min_self] at hlen
  -- the terminal, a draw that sets the height, and one press of Up
  have henters : bobs.step c.state .enterTerminal
      = some (⟨c.state.ui, c.state.now, .drawing⟩, []) := if_pos hstage
  have hdraws : bobs.step ⟨c.state.ui, c.state.now, .drawing⟩ (.draw 10)
      = some (⟨c.state.ui.render 10, c.state.now, .selecting⟩, []) := rfl
  have hpresses : bobs.step ⟨c.state.ui.render 10, c.state.now, .selecting⟩ (pressed .up false)
      = some (⟨(c.state.ui.render 10).scrollUp 1, c.state.now, .drawing⟩, []) := rfl
  have hlength : (c.state.ui.render 10).messages.length = HISTORY_CAP := by
    rw [UiState.render, UiState.clampScroll_messages]
    exact hlen
  refine ⟨_, ((hc.tail (.mk _ _ _ trivial henters)).tail (.mk _ _ _ trivial hdraws)).tail
    (.mk _ _ _ trivial hpresses), ?_, ?_⟩
  · have hrest : (c.state.ui.render 10).scroll = 0 := by
      rw [UiState.render, UiState.clampScroll_scroll]
      exact Nat.min_eq_zero_iff.mpr (.inl hscroll)
    have hpane : (c.state.ui.render 10).lastInnerH = 10 := by
      rw [UiState.render, UiState.clampScroll_lastInnerH]
    show ((c.state.ui.render 10).scrollUp 1).scroll = 1
    rw [UiState.scrollUp, UiState.clampScroll_scroll]
    show min ((c.state.ui.render 10).scroll + 1)
      ((c.state.ui.render 10).messages.length - max (c.state.ui.render 10).lastInnerH 1) = 1
    rw [hrest, hpane, hlength]
    decide
  · show ((c.state.ui.render 10).scrollUp 1).messages.length = HISTORY_CAP
    rw [UiState.scrollUp, UiState.clampScroll_messages]
    exact hlength

end Pane

open Pane in
/-- His view does not stay where it is. -/
theorem push_moves_full :
    ∃ c, bobs.Reach Machine.free c ∧ 0 < c.state.ui.scroll
      ∧ c.state.ui.messages.length = HISTORY_CAP ∧ ¬ Anchored c.past c.state.ui line := by
  obtain ⟨c, hc, hscroll, hlen⟩ := looksBack
  have hentries : (entries c.past).length = c.state.ui.messages.length := by
    rw [← entries_messages hc, List.length_map]
  have hpos : 0 < c.state.ui.scroll := by omega
  have hstays : c.state.ui.scroll + 1 ≠ c.state.ui.messages.length := by
    rw [hscroll, hlen]
    decide
  exact ⟨c, hc, hpos, hlen, not_anchored_of_capped (isClamped hc) hentries hlen hpos hstays⟩

end ChatRs

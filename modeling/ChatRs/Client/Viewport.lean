import ChatRs.Client.Expiry

/-!
# The viewport (`client/ui.rs`)

All operations on a `UiState` in any order, as any code that has one could call them: pushes,
frames of the server, clears, ticks, keys, the scrolling functions and `render` for a pane of any
height. What is shown is a window into the deque; that it is a full one depends on a bound on
`scroll` that some operations keep and others restore.

* **`UiOp`, `afterOps`**: the operations, and the state after any list of them;
* **`UiState.InView`**: the deque is capped and the view clamped, after every operation;
* **`viewport`**: so every `render` shows a full window, without an underflow;
* **`screen_afterOps`**: the client's own runs are among these.
-/

namespace ChatRs

open Client

/-! ## Operations -/

inductive UiOp where
  | tryAcceptCounter (sender : Uuid) (counter : UInt64)
  | push (msg : DisplayMsg)
  | pushSystem (clock : Clock) (text : String)
  | clearMessages
  | tickExpireEphemerals (clock : Clock)
  | revealEphemerals (clock : Clock)
  | scrollUp (n : Nat)
  | scrollDown (n : Nat)
  | scrollToLatest
  | scrollToOldest
  | handleKey (clock : Clock) (random : Option Nonce) (key : KeyEvent)
  | handleServerFrame (clock : Clock) (f : ServerFrame)
  | render (innerH : Nat)

section Code

variable (aead : Aead) (roomKey : Key)

def UiState.perform (s : UiState) : UiOp → UiState
  | .tryAcceptCounter sender counter => (s.tryAcceptCounter sender counter).2
  | .push msg => s.push msg
  | .pushSystem clock text => s.pushSystem clock text
  | .clearMessages => s.clearMessages
  | .tickExpireEphemerals clock => s.tickExpireEphemerals clock
  | .revealEphemerals clock => s.revealEphemerals clock
  | .scrollUp n => s.scrollUp n
  | .scrollDown n => s.scrollDown n
  | .scrollToLatest => s.scrollToLatest
  | .scrollToOldest => s.scrollToOldest
  | .handleKey clock random key => (handleKey aead roomKey s clock random key).2
  | .handleServerFrame clock f => (handleServerFrame aead roomKey s clock f).2
  | .render innerH => s.render innerH

/-- The state after operations on a new one. -/
def afterOps (username : String) (userId : Uuid) (room : String) (ops : List UiOp) : UiState :=
  ops.foldl (UiState.perform aead roomKey) (UiState.new username userId room)

end Code

/-! ## What every operation keeps -/

/-- The list never grows beyond its cap. -/
theorem length_showing_le {messages : List DisplayMsg} (h : messages.length ≤ HISTORY_CAP)
    (evs : List DisplayEvent) : (showing messages evs).length ≤ HISTORY_CAP := by
  induction evs generalizing messages with
  | nil => exact h
  | cons ev evs ih => exact ih (Ring.Edit.length_apply_le HISTORY_CAP (by decide) h ev.edit)

/-- The deque is within its cap, and the view does not go beyond the oldest full pane. -/
structure UiState.InView (s : UiState) : Prop where
  capped : s.messages.length ≤ HISTORY_CAP
  clamped : s.IsClamped

section

variable {aead : Aead} {roomKey : Key} {s : UiState}

/-- A push keeps the view within the list. -/
theorem UiState.InView.push (h : s.InView) (msg : DisplayMsg) : (s.push msg).InView where
  capped := by
    rw [UiState.push_messages, ← showing_arrived]
    exact length_showing_le h.capped _
  clamped := s.isClamped_push msg

theorem UiState.InView.of_same {s' : UiState} (h : s.InView) (hclamped : s'.IsClamped)
    (hmessages : s'.messages = s.messages) : s'.InView :=
  ⟨by rw [hmessages]; exact h.capped, hclamped⟩

/-- **Every operation keeps it.** -/
theorem UiState.InView.perform (h : s.InView) (op : UiOp) :
    (s.perform aead roomKey op).InView := by
  cases op with
  | tryAcceptCounter sender counter =>
    exact h.of_same (h.clamped.tryAcceptCounter sender counter)
      (s.tryAcceptCounter_messages sender counter)
  | push msg => exact h.push msg
  | pushSystem clock text => exact h.push _
  | clearMessages => exact ⟨Nat.zero_le _, isClamped_of_scroll_eq_zero rfl⟩
  | tickExpireEphemerals clock =>
    refine ⟨?_, h.clamped.tickExpireEphemerals clock⟩
    show (s.tickExpireEphemerals clock).messages.length ≤ HISTORY_CAP
    rw [tickExpireEphemerals_messages]
    exact length_showing_le h.capped _
  | revealEphemerals clock =>
    refine ⟨?_, h.clamped.revealEphemerals clock⟩
    show (s.revealEphemerals clock).messages.length ≤ HISTORY_CAP
    rw [revealEphemerals_messages]
    exact length_showing_le h.capped _
  | scrollUp n => exact h.of_same (s.isClamped_scrollUp n) (clampScroll_messages _)
  | scrollDown n => exact h.of_same (h.clamped.scrollDown n) rfl
  | scrollToLatest => exact h.of_same (isClamped_of_scroll_eq_zero rfl) rfl
  | scrollToOldest => exact h.of_same (Nat.le_refl _) rfl
  | handleKey clock random key =>
    refine ⟨?_, isClamped_handleKey h.clamped clock random key⟩
    show (ChatRs.handleKey aead roomKey s clock random key).2.messages.length ≤ HISTORY_CAP
    rw [handleKey_messages]
    exact length_showing_le h.capped _
  | handleServerFrame clock f =>
    refine ⟨?_, isClamped_handleServerFrame h.clamped clock f⟩
    show (ChatRs.handleServerFrame aead roomKey s clock f).2.messages.length ≤ HISTORY_CAP
    rw [handleServerFrame_showing]
    exact length_showing_le h.capped _
  | render innerH => exact h.of_same (s.isClamped_render innerH) (clampScroll_messages _)

variable {username : String} {userId : Uuid} {room : String}

theorem inView_new : (UiState.new username userId room).InView :=
  ⟨Nat.zero_le _, UiState.isClamped_of_scroll_eq_zero rfl⟩

/-- Operations one after the other keep the pane in view. -/
theorem inView_foldl (h : s.InView) (ops : List UiOp) :
    (ops.foldl (UiState.perform aead roomKey) s).InView := by
  induction ops generalizing s with
  | nil => exact h
  | cons op ops ih => exact ih (h.perform op)

theorem inView_afterOps (ops : List UiOp) :
    (afterOps aead roomKey username userId room ops).InView := inView_foldl inView_new ops

end

/-! ## The window -/

namespace UiState

variable {s : UiState}

/-- `end` in `render`: one past the last message that is shown. -/
def viewEnd (s : UiState) : Nat := s.messages.length - s.scroll

/-- `start` in `render`. -/
def viewStart (s : UiState) : Nat := s.viewEnd - s.lastInnerH

theorem viewStart_le_viewEnd (s : UiState) : s.viewStart ≤ s.viewEnd := Nat.sub_le _ _

theorem viewEnd_le_length (s : UiState) : s.viewEnd ≤ s.messages.length := Nat.sub_le _ _

/-- What is shown, between what is above and what is below. -/
theorem messages_eq_visible (s : UiState) :
    s.messages = s.messages.take s.viewStart ++ s.visible ++ s.messages.drop s.viewEnd := by
  have hvisible : s.visible = (s.messages.drop s.viewStart).take (s.viewEnd - s.viewStart) := rfl
  have hupto : s.messages.take s.viewStart ++ s.visible = s.messages.take s.viewEnd := by
    rw [hvisible, ← List.drop_take]
    nth_rewrite 1 [← Nat.min_eq_left s.viewStart_le_viewEnd, ← List.take_take]
    exact List.take_append_drop _ _
  rw [hupto, List.take_append_drop]

/-- Below the view there are as many messages as it is scrolled up. -/
theorem IsClamped.length_below (h : s.IsClamped) :
    (s.messages.drop s.viewEnd).length = s.scroll := by
  unfold IsClamped at h
  rw [List.length_drop, viewEnd]
  omega

/-- **The window is full**, or holds all there is. -/
theorem IsClamped.length_visible (h : s.IsClamped) :
    s.visible.length = min s.lastInnerH s.messages.length := by
  have hlen := congrArg List.length s.messages_eq_visible
  have hend := s.viewEnd_le_length
  have hstart := s.viewStart_le_viewEnd
  simp only [List.length_append, List.length_take, h.length_below] at hlen
  unfold IsClamped at h
  unfold viewStart viewEnd at *
  omega

end UiState

section

variable {aead : Aead} {roomKey : Key} {username : String} {userId : Uuid} {room : String}

/-- **The viewport invariant.** After any operations in any order the deque is within its cap and
`scroll` within the oldest full pane. So in every `render`, of any height, the window has no
negative length, and shows as many consecutive messages as there is room for, up to the newest one
unless the view is scrolled. -/
theorem viewport (ops : List UiOp) :
    let s := afterOps aead roomKey username userId room ops
    s.messages.length ≤ HISTORY_CAP
      ∧ s.scroll ≤ s.messages.length - max s.lastInnerH 1
      ∧ ∀ innerH : Nat,
        let s' := s.render innerH
        s'.viewStart ≤ s'.viewEnd ∧ s'.viewEnd ≤ s'.messages.length
          ∧ s'.visible.length = min innerH s'.messages.length
          ∧ (∃ above below, s'.messages = above ++ s'.visible ++ below
            ∧ below.length = s'.scroll)
          ∧ (s'.scroll = 0 → s'.visible <:+ s'.messages) := by
  intro s
  have hview : s.InView := inView_afterOps ops
  refine ⟨hview.capped, hview.clamped, fun innerH => ?_⟩
  intro s'
  have hclamped : s'.IsClamped := s.isClamped_render innerH
  have hheight : s'.lastInnerH = innerH := UiState.clampScroll_lastInnerH _
  have hlength := hclamped.length_visible
  rw [hheight] at hlength
  refine ⟨s'.viewStart_le_viewEnd, s'.viewEnd_le_length, hlength,
    ⟨_, _, s'.messages_eq_visible, hclamped.length_below⟩, fun hzero => ?_⟩
  have hbelow : s'.messages.drop s'.viewEnd = [] :=
    List.eq_nil_of_length_eq_zero (hclamped.length_below.trans hzero)
  have hsplit := s'.messages_eq_visible
  rw [hbelow, List.append_nil] at hsplit
  exact ⟨_, hsplit.symm⟩

variable {G : Machine.Guard Screen ScreenLabel DisplayEvent}
variable {c : Machine.Config Screen DisplayEvent}

theorem afterOps_append (ops ops' : List UiOp) :
    afterOps aead roomKey username userId room (ops ++ ops')
      = ops'.foldl (UiState.perform aead roomKey)
          (afterOps aead roomKey username userId room ops) := List.foldl_append ..

/-- What a turn of the loop does is an operation, or nothing. -/
theorem turn_performs (s : UiState) (clock : Clock) (i : Input) :
    ∃ ops : List UiOp,
      (turn aead roomKey s clock i).2 = ops.foldl (UiState.perform aead roomKey) s := by
  cases i with
  | key k random written =>
    rw [turn_key]
    exact ⟨[.handleKey clock random k], rfl⟩
  | incoming r =>
    match r with
    | none => exact ⟨[], rfl⟩
    | some (.error e) => exact ⟨[], rfl⟩
    | some (.ok f) =>
      rw [turn_incoming]
      exact ⟨[.handleServerFrame clock f], rfl⟩
  | tick => exact ⟨[.tickExpireEphemerals clock], rfl⟩
  | drawFailed | otherEvent | eventError | eventsEnded => exact ⟨[], rfl⟩

/-- **The runs of the client** are runs of operations. -/
theorem screen_afterOps (h : (screen aead roomKey username userId room).Reach G c) :
    ∃ ops, c.state.ui = afterOps aead roomKey username userId room ops := by
  refine Machine.Reach.invariant
    (P := fun c => ∃ ops, c.state.ui = afterOps aead roomKey username userId room ops)
    ⟨[], rfl⟩ ?_ h
  rintro d l s' evs _ ⟨ops, hops⟩ _ hs
  have goes (ops' : List UiOp)
      (hui : s'.ui = ops'.foldl (UiState.perform aead roomKey) d.state.ui) :
      ∃ ops, s'.ui = afterOps aead roomKey username userId room ops :=
    ⟨ops ++ ops', by rw [afterOps_append, ← hops, hui]⟩
  cases screenStep_inv hs with
  | passes | enters => exact goes [] rfl
  | replays nowMs m =>
    exact goes [.tryAcceptCounter m.ad.fromId m.ad.counter,
      .push (decryptToDisplay aead roomKey ⟨d.state.now, nowMs⟩ m)] rfl
  | draws innerH => exact goes [.render innerH] rfl
  | turns nowMs i stage =>
    obtain ⟨ops', hturn⟩ :=
      turn_performs d.state.ui ⟨d.state.now, nowMs⟩ i
    exact goes ops' hturn

end

end ChatRs

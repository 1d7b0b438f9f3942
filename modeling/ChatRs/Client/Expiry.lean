import ChatRs.Client.Scroll

/-!
# Expiry and the view (`client/ui.rs`)

Two places of the client measure the age of an ephemeral message. A tick drops it when
`duration_since` has come to `EPHEMERAL_TTL_MS`, to the nanosecond; its line shows the whole
seconds that are left, of milliseconds. And a tick leaves `scroll` as it is, up to the clamp, while
messages go from above, inside and below the pane.

* **`countdown_agrees`**: a message is kept as long as its countdown is not zero;
* **`UiState.tick_scroll`**: what a tick does to `scroll`;
* **`Unmoved`**: the view stays where it is;
* **`expiry_anchors_iff`**: it does if and only if nothing below the bottom line expires.
-/

namespace ChatRs

open Client

/-! ## The countdown -/

/-- What a tick makes of a part of the deque. -/
def afterTick (now : Instant) (messages : List DisplayMsg) : List DisplayMsg :=
  (messages.filter (DisplayMsg.isLive now)).map (DisplayMsg.remask now)

theorem UiState.tickExpireEphemerals_messages_eq (s : UiState) (clock : Clock) :
    (s.tickExpireEphemerals clock).messages = afterTick clock.now s.messages :=
  s.tickExpireEphemerals_messages clock

section

variable {receivedAt now now' : Instant}

/-- Below `2 ^ 64` milliseconds the cast to `u64` changes nothing. -/
theorem ephemeralSecsLeft_eq (h : now - receivedAt < Duration.fromMillis (2 ^ 64)) :
    ephemeralSecsLeft receivedAt now
      = (EPHEMERAL_TTL_MS - (now - receivedAt) / 1000000 + 999) / 1000 := by
  have hmod (a : Nat) (ha : a < 2 ^ 64 * 1000000) : a / 1000000 % 2 ^ 64 = a / 1000000 := by omega
  rw [ephemeralSecsLeft, Instant.durationSince, hmod _ h]

/-- **The countdown is over when the message is.** -/
theorem one_le_ephemeralSecsLeft_iff (h : now - receivedAt < Duration.fromMillis (2 ^ 64)) :
    1 ≤ ephemeralSecsLeft receivedAt now
      ↔ now.durationSince receivedAt < Duration.fromMillis EPHEMERAL_TTL_MS := by
  have hround (a : Nat) : 1 ≤ (30000 - a / 1000000 + 999) / 1000 ↔ a < 30000 * 1000000 := by omega
  rw [ephemeralSecsLeft_eq h]
  exact hround (now - receivedAt)

theorem ephemeralSecsLeft_le : ephemeralSecsLeft receivedAt now ≤ EPHEMERAL_TTL_MS / 1000 := by
  have hround (a : Nat) : (30000 - a + 999) / 1000 ≤ 30000 / 1000 := by omega
  exact hround _

/-- The countdown never goes up. -/
theorem ephemeralSecsLeft_antitone (h : now' - receivedAt < Duration.fromMillis (2 ^ 64))
    (hle : now ≤ now') : ephemeralSecsLeft receivedAt now' ≤ ephemeralSecsLeft receivedAt now := by
  have helapsed : now - receivedAt ≤ now' - receivedAt := Nat.sub_le_sub_right hle receivedAt
  have hround (a b : Nat) (hab : a ≤ b) :
      (30000 - b / 1000000 + 999) / 1000 ≤ (30000 - a / 1000000 + 999) / 1000 := by omega
  rw [ephemeralSecsLeft_eq h, ephemeralSecsLeft_eq (Nat.lt_of_le_of_lt helapsed h)]
  exact hround _ _ helapsed

/-- In a second it goes down by one at most. -/
theorem ephemeralSecsLeft_le_succ (h : now' - receivedAt < Duration.fromMillis (2 ^ 64))
    (hle : now ≤ now') (hsecond : now' ≤ now + Duration.fromSecs 1) :
    ephemeralSecsLeft receivedAt now ≤ ephemeralSecsLeft receivedAt now' + 1 := by
  have helapsed : now - receivedAt ≤ now' - receivedAt := Nat.sub_le_sub_right hle receivedAt
  have hlater (a b r : Nat) (hab : b ≤ a + 1 * 1000000000) : b - r ≤ a - r + 1000000000 := by omega
  have hround (a b : Nat) (hab : b ≤ a + 1000000000) :
      (30000 - a / 1000000 + 999) / 1000 ≤ (30000 - b / 1000000 + 999) / 1000 + 1 := by omega
  rw [ephemeralSecsLeft_eq h, ephemeralSecsLeft_eq (Nat.lt_of_le_of_lt helapsed h)]
  exact hround _ _ (hlater now now' receivedAt hsecond)

/-- **The countdown agrees with the expiry.** At any instant a tick keeps an ephemeral message,
wherever it is in the deque, if and only if its countdown is at least one; the countdown starts at
the whole lifetime at most, never goes up, and goes down by one a second at most. -/
theorem countdown_agrees (hfew : now - receivedAt < Duration.fromMillis (2 ^ 64)) :
    (∀ (s : UiState) (nowMs : UInt64) (before after : List DisplayMsg) (m : DisplayMsg)
        (e : EphemeralState), s.messages = before ++ m :: after → m.ephemeral = some e →
        e.receivedAt = receivedAt →
        (s.tickExpireEphemerals ⟨now, nowMs⟩).messages
          = afterTick now before
            ++ (if 1 ≤ ephemeralSecsLeft receivedAt now then [m.remask now] else [])
            ++ afterTick now after)
      ∧ ephemeralSecsLeft receivedAt now ≤ EPHEMERAL_TTL_MS / 1000
      ∧ ∀ now', now ≤ now' → now' - receivedAt < Duration.fromMillis (2 ^ 64) →
          ephemeralSecsLeft receivedAt now' ≤ ephemeralSecsLeft receivedAt now
            ∧ (now' ≤ now + Duration.fromSecs 1 →
              ephemeralSecsLeft receivedAt now ≤ ephemeralSecsLeft receivedAt now' + 1) := by
  refine ⟨?_, ephemeralSecsLeft_le, ?_⟩
  · intro s nowMs before after m e hmessages he hreceived
    have hlive : m.isLive now = decide (1 ≤ ephemeralSecsLeft receivedAt now) := by
      rw [DisplayMsg.isLive, he, Bool.eq_iff_iff, decide_eq_true_eq, decide_eq_true_eq,
        one_le_ephemeralSecsLeft_iff hfew, hreceived]
    rw [UiState.tickExpireEphemerals_messages_eq, hmessages]
    simp only [afterTick, List.filter_append, List.filter_cons, List.map_append, hlive,
      decide_eq_true_eq]
    split <;> simp
  · intro now' hlater hfew'
    exact ⟨ephemeralSecsLeft_antitone hfew' hlater, ephemeralSecsLeft_le_succ hfew' hlater⟩

end

open Pane in
/-- Alice's secret is kept for its last millisecond. -/
theorem countdown_agrees_last :
    ({ UiState.new "bob" bob "main" with messages := [secret] }.tickExpireEphemerals
      ⟨Duration.fromMillis 30999, 1000⟩).messages = [secret] := by
  have hfew : Duration.fromMillis 30999 - Duration.fromSecs 1 < Duration.fromMillis (2 ^ 64) := by
    decide
  exact (countdown_agrees hfew).1 _ 1000 [] [] secret _ rfl rfl rfl

/-! ## Below the bottom line -/

section

variable {α : Type}

/-- With as many messages below as the view is scrolled, this one is at the bottom. -/
theorem bottomOf_append_cons (a b : List α) (x : α) : bottomOf (a ++ x :: b) b.length = some x := by
  have hindex : (a ++ x :: b).length - b.length - 1 = a.length := by
    rw [List.length_append, List.length_cons]
    omega
  rw [bottomOf, hindex, List.getElem?_append_right (Nat.le_refl _), Nat.sub_self]
  rfl

/-- What is on the bottom line has `scroll` others below it. -/
theorem exists_append_of_bottomOf {l : List α} {scroll : Nat} {x : α}
    (h : bottomOf l scroll = some x) (hlt : scroll < l.length) :
    ∃ a b, l = a ++ x :: b ∧ b.length = scroll := by
  obtain ⟨hin, rfl⟩ := List.getElem?_eq_some_iff.mp h
  refine ⟨l.take (l.length - scroll - 1), l.drop (l.length - scroll - 1 + 1), ?_, ?_⟩
  · rw [List.getElem_cons_drop, List.take_append_drop]
  · rw [List.length_drop]
    omega

/-- What comes after an element of a list that is in order. -/
theorem filter_later {a b : List (Nat × α)} {x : Nat × α}
    (h : (a ++ x :: b).Pairwise fun e e' => e.1 < e'.1) :
    ((a ++ x :: b).filter fun e => x.1 < e.1) = b := by
  obtain ⟨_, hcons, hbefore⟩ := List.pairwise_append.mp h
  obtain ⟨hafter, _⟩ := List.pairwise_cons.mp hcons
  have ha : (a.filter fun e => x.1 < e.1) = [] := by
    rw [List.filter_eq_nil_iff]
    intro e he
    rw [decide_eq_true_eq]
    exact Nat.lt_asymm (hbefore e he x List.mem_cons_self)
  have hb : (b.filter fun e => x.1 < e.1) = b := by
    rw [List.filter_eq_self]
    intro e he
    rw [decide_eq_true_eq]
    exact hafter e he
  rw [List.filter_append, ha, List.nil_append, List.filter_cons_of_neg, hb]
  rw [decide_eq_true_eq]
  exact Nat.lt_irrefl _

/-- **An element is on the bottom line just if `scroll` counts what comes after it.** -/
theorem bottomOf_eq_some_iff_later {l : List (Nat × α)}
    (hordered : l.Pairwise fun e e' => e.1 < e'.1) {scroll : Nat} (hlt : scroll < l.length)
    {x : Nat × α} (hx : x ∈ l) :
    bottomOf l scroll = some x ↔ scroll = (l.filter fun e => x.1 < e.1).length := by
  constructor
  · intro h
    obtain ⟨a, b, rfl, hb⟩ := exists_append_of_bottomOf h hlt
    rw [filter_later hordered, hb]
  · rintro rfl
    obtain ⟨a, b, rfl⟩ := List.append_of_mem hx
    rw [filter_later hordered]
    exact bottomOf_append_cons a b x

end

/-! ## A tick under a scrolled view -/

namespace UiState

@[simp] theorem tickExpireEphemerals_lastInnerH (s : UiState) (clock : Clock) :
    (s.tickExpireEphemerals clock).lastInnerH = s.lastInnerH := by
  simp only [tickExpireEphemerals]
  split
  · exact clampScroll_lastInnerH _
  · rfl

/-- The scroll position of the oldest full pane, after a tick. -/
def oldestLeft (s : UiState) (now : Instant) : Nat :=
  (afterTick now s.messages).length - max s.lastInnerH 1

/-- **A tick only clamps.** -/
theorem tick_scroll {s : UiState} (h : s.IsClamped) (clock : Clock) :
    (s.tickExpireEphemerals clock).scroll
      = min s.scroll (s.oldestLeft clock.now) := by
  have hlen : (afterTick clock.now s.messages).length
      = (s.messages.filter (DisplayMsg.isLive clock.now)).length := List.length_map _
  rw [oldestLeft, hlen]
  simp only [tickExpireEphemerals]
  split
  · exact clampScroll_scroll _
  · rename_i hdropped
    rw [decide_eq_true_eq] at hdropped
    refine (Nat.min_eq_left (Nat.le_trans h ?_)).symm
    exact Nat.sub_le_sub_right (Nat.le_of_not_lt hdropped) _

/-- What is drawn after the tick has the scroll position of the tick. -/
theorem tick_render_scroll {s : UiState} (h : s.IsClamped) (clock : Clock) :
    ((s.tickExpireEphemerals clock).render s.lastInnerH).scroll
      = (s.tickExpireEphemerals clock).scroll := by
  have hclamped := h.tickExpireEphemerals clock
  rw [← tickExpireEphemerals_lastInnerH s clock, render_lastInnerH hclamped]

end UiState

/-- What is on the screen after a tick: what is live, masked again where its reveal is over. -/
theorem entries_tick (past : List DisplayEvent) (t : Instant) :
    entries (past ++ [.ticked t])
      = ((entries past).filter fun e => e.2.isLive t).map (Prod.map id (DisplayMsg.remask t)) :=
  Ring.entries_concat ..

/-- How many messages below the `n`th are left after a tick. -/
def leftBelow (past : List DisplayEvent) (t : Instant) (n : Nat) : Nat :=
  ((entries (past ++ [.ticked t])).filter fun e => n < e.1).length

/-- The view stays where it is when messages expire: the message on the bottom line, if it is
still there, is on the bottom line as long as `scroll` is not clamped, with all that is left below
it. -/
def Unmoved (past : List DisplayEvent) (ui : UiState) (clock : Clock) : Prop :=
  let ui' := (ui.tickExpireEphemerals clock).render ui.lastInnerH
  let es := entries past
  let es' := entries (past ++ [.ticked clock.now])
  ∀ n m m', bottomOf es ui.scroll = some (n, m) → (n, m') ∈ es' →
    ui.scroll ≤ ui.oldestLeft clock.now →
    bottomOf es' ui'.scroll = some (n, m') ∧ ui'.scroll = leftBelow past clock.now n

section

variable {past : List DisplayEvent} {ui : UiState} {clock : Clock} {n : Nat} {m m' : DisplayMsg}

/-- A tick takes from what is below a message only what expires. -/
theorem leftBelow_eq (past : List DisplayEvent) (t : Instant) (n : Nat) :
    leftBelow past t n
      = (((entries past).filter fun e => n < e.1).filter fun e => e.2.isLive t).length := by
  rw [leftBelow, entries_tick, List.filter_map, List.length_map, List.filter_filter,
    List.filter_filter]
  congr 1
  exact List.filter_congr fun e _ => Bool.and_comm _ _

/-- What is still there after a tick was live, and is what was there before. -/
theorem mem_entries_tick {t : Instant} :
    (n, m') ∈ entries (past ++ [.ticked t])
      ↔ ∃ m, (n, m) ∈ entries past ∧ m.isLive t = true ∧ m' = m.remask t := by
  rw [entries_tick, List.mem_map]
  constructor
  · rintro ⟨⟨k, m⟩, hmem, heq⟩
    obtain ⟨rfl, rfl⟩ := Prod.mk.inj heq
    obtain ⟨hmem, hlive⟩ := List.mem_filter.mp hmem
    exact ⟨m, hmem, hlive, rfl⟩
  · rintro ⟨m, hmem, hlive, rfl⟩
    exact ⟨(n, m), List.mem_filter.mpr ⟨hmem, hlive⟩, rfl⟩

/-- **The bottom message, after a tick.** It is on the bottom line just if `scroll` counts what is
left below it. -/
theorem bottomOf_tick_iff (hclamped : ui.IsClamped)
    (hentries : (entries past).map Prod.snd = ui.messages)
    (hthere : (n, m') ∈ entries (past ++ [.ticked clock.now])) :
    bottomOf (entries (past ++ [.ticked clock.now]))
        ((ui.tickExpireEphemerals clock).render ui.lastInnerH).scroll = some (n, m')
      ↔ ((ui.tickExpireEphemerals clock).render ui.lastInnerH).scroll
        = leftBelow past clock.now n := by
  have hlen : (entries (past ++ [.ticked clock.now])).length
      = (afterTick clock.now ui.messages).length := by
    rw [entries_tick, afterTick, ← hentries, List.filter_map, List.length_map, List.length_map,
      List.length_map]
    rfl
  have hpos := List.length_pos_of_mem hthere
  have hlt : ((ui.tickExpireEphemerals clock).render ui.lastInnerH).scroll
      < (entries (past ++ [.ticked clock.now])).length := by
    rw [UiState.tick_render_scroll hclamped, UiState.tick_scroll hclamped, UiState.oldestLeft, hlen]
    omega
  exact bottomOf_eq_some_iff_later (Ring.entries_pairwise _) hlt hthere

/-- With nothing clamped, that is so just if nothing below it expires. -/
theorem leftBelow_eq_scroll_iff (hclamped : ui.IsClamped)
    (hentries : (entries past).map Prod.snd = ui.messages)
    (hbottom : bottomOf (entries past) ui.scroll = some (n, m)) (t : Instant) :
    ui.scroll = leftBelow past t n
      ↔ ∀ m' ∈ ui.messages.drop (ui.messages.length - ui.scroll), m'.isLive t = true := by
  have hlen : (entries past).length = ui.messages.length := by
    rw [← hentries, List.length_map]
  have hlt : ui.scroll < (entries past).length := by
    rcases Nat.eq_zero_or_pos ui.scroll with hzero | hpos
    · rw [hzero]
      exact List.length_pos_of_mem (List.mem_of_getElem? hbottom)
    · rw [hlen]
      exact hclamped.lt_length hpos
  obtain ⟨a, b, hes, hb⟩ := exists_append_of_bottomOf hbottom hlt
  have hlater : ((entries past).filter fun e => n < e.1) = b := by
    rw [hes]
    exact filter_later (x := (n, m)) (hes ▸ Ring.entries_pairwise past)
  have hbelow : ui.messages.drop (ui.messages.length - ui.scroll) = b.map Prod.snd := by
    have hdrop : ui.messages.length - ui.scroll = (a ++ [(n, m)]).length := by
      rw [← hlen, hes, ← hb, List.length_append, List.length_append, List.length_cons,
        List.length_singleton]
      omega
    have hsplit : entries past = (a ++ [(n, m)]) ++ b := by
      rw [hes, List.append_assoc, List.singleton_append]
    rw [hdrop, ← hentries, ← List.map_drop, hsplit, List.drop_left]
  rw [leftBelow_eq, hlater, hbelow, ← hb, eq_comm, List.length_filter_eq_length_iff]
  simp only [List.forall_mem_map]

/-- The view stays if nothing below the bottom line expires, and only then. -/
theorem unmoved_iff (hclamped : ui.IsClamped)
    (hentries : (entries past).map Prod.snd = ui.messages) :
    Unmoved past ui clock
      ↔ ∀ m, bottomOf ui.messages ui.scroll = some m → m.isLive clock.now = true →
          ui.scroll ≤ ui.oldestLeft clock.now →
            ∀ m' ∈ ui.messages.drop (ui.messages.length - ui.scroll),
              m'.isLive clock.now = true := by
  have hscroll (hfits : ui.scroll ≤ ui.oldestLeft clock.now) :
      ((ui.tickExpireEphemerals clock).render ui.lastInnerH).scroll = ui.scroll := by
    rw [UiState.tick_render_scroll hclamped, UiState.tick_scroll hclamped, Nat.min_eq_left hfits]
  constructor
  · -- the bottom line stays at its place, so that all below it has stayed
    intro hunmoved m hbottom hlive hfits
    rw [← hentries, bottomOf, List.length_map, List.getElem?_map, Option.map_eq_some_iff] at hbottom
    obtain ⟨⟨n, m⟩, hbottom, rfl⟩ := hbottom
    have hthere : (n, m.remask clock.now) ∈ entries (past ++ [.ticked clock.now]) :=
      mem_entries_tick.mpr ⟨m, List.mem_of_getElem? hbottom, hlive, rfl⟩
    obtain ⟨_, hcount⟩ := hunmoved n m _ hbottom hthere hfits
    rw [hscroll hfits] at hcount
    exact (leftBelow_eq_scroll_iff hclamped hentries hbottom clock.now).mp hcount
  · -- what is left of the bottom line is the bottom line itself
    intro hbelow n m m' hbottom hthere hfits
    obtain ⟨m₀, hbefore, hlive, _⟩ := mem_entries_tick.mp hthere
    cases Ring.eq_of_mem_entries hbefore (List.mem_of_getElem? hbottom)
    have hmessage : bottomOf ui.messages ui.scroll = some m := by
      rw [bottomOf] at hbottom
      rw [← hentries, bottomOf, List.length_map, List.getElem?_map, hbottom]
      rfl
    have hcount := (leftBelow_eq_scroll_iff hclamped hentries hbottom clock.now).mpr
      (hbelow m hmessage hlive hfits)
    rw [← hscroll hfits] at hcount
    exact ⟨(bottomOf_tick_iff hclamped hentries hthere).mpr hcount, hcount⟩

end

section

variable {aead : Aead} {roomKey : Key} {username : String} {userId : Uuid} {room : String}
variable {G : Machine.Guard Screen ScreenLabel DisplayEvent}
variable {c : Machine.Config Screen DisplayEvent}

/-- **A tick leaves the view where it is** in every state that a client comes to, if and only if no
message below the bottom line expires (or the bottom message does, or `scroll` is clamped). When
`scroll` is clamped, the bottom message stays just if it is the last of the oldest full pane. -/
theorem expiry_anchors_iff (h : (screen aead roomKey username userId room).Reach G c)
    (clock : Clock) :
    let ui := c.state.ui
    let ui' := (ui.tickExpireEphemerals clock).render ui.lastInnerH
    let es' := entries (c.past ++ [.ticked clock.now])
    (entries c.past).map Prod.snd = ui.messages
      ∧ es'.map Prod.snd = (ui.tickExpireEphemerals clock).messages
      ∧ (Unmoved c.past ui clock
        ↔ ∀ m, bottomOf ui.messages ui.scroll = some m → m.isLive clock.now = true →
            ui.scroll ≤ ui.oldestLeft clock.now →
              ∀ m' ∈ ui.messages.drop (ui.messages.length - ui.scroll),
                m'.isLive clock.now = true)
      ∧ ∀ n m', (n, m') ∈ es' → ui.oldestLeft clock.now < ui.scroll →
          (bottomOf es' ui'.scroll = some (n, m')
            ↔ leftBelow c.past clock.now n = ui.oldestLeft clock.now) := by
  intro ui ui' es'
  have hentries : (entries c.past).map Prod.snd = ui.messages := entries_messages h
  have hclamped : ui.IsClamped := isClamped h
  refine ⟨hentries, ?_, unmoved_iff hclamped hentries, ?_⟩
  · rw [UiState.tickExpireEphemerals_messages, ← hentries, entries_map_snd, entries_map_snd,
      showing_append]
  · intro n m' hthere hover
    have hscroll : ui'.scroll = ui.oldestLeft clock.now := by
      rw [UiState.tick_render_scroll hclamped, UiState.tick_scroll hclamped,
        Nat.min_eq_right hover.le]
    rw [bottomOf_tick_iff hclamped hentries hthere, hscroll, eq_comm]

end

/-! ## Half a minute later -/

namespace Pane

/-- Two messages and then a third in a pane of one line. Bob goes back by one, and half a minute
goes by. -/
def lookingOn (ephemeral : Bool) : List ScreenLabel :=
  [.replay 1000 (note 1 "a" false), .replay 1000 (note 2 "b" false), .enterTerminal, .draw 1,
    .input 1000 (.incoming (some (.ok (.message (note 3 "c" ephemeral))))), .draw 1,
    pressed .up false, .elapse (Duration.fromSecs 30)]

def said (text : String) : DisplayMsg := ⟨1000, .message "alice" text, none⟩

end Pane

open Pane in
/-- The third is no secret: the second stays on the bottom line. -/
theorem expiry_anchors_iff_plain :
    ∃ c, bobs.Reach Machine.free c ∧ c.state.ui.scroll = 1
      ∧ Unmoved c.past c.state.ui ⟨Duration.fromSecs 30, 1000⟩ := by
  obtain ⟨c, hc, hend⟩ := Machine.exec_reach_free (M := bobs)
    (fun c => (c.state.ui.scroll, c.state.ui.messages)) (1, [said "a", said "b", said "c"])
    (lookingOn false) (by decide)
  obtain ⟨hscroll, hmessages⟩ := Prod.mk.inj hend
  refine ⟨c, hc, hscroll, (expiry_anchors_iff hc _).2.2.1.mpr fun m _ _ _ m' hm' => ?_⟩
  rw [hscroll, hmessages] at hm'
  cases List.mem_singleton.mp hm'
  rfl

open Pane in
/-- The third is a secret: it goes, the second stays, and the first is on the bottom line. -/
theorem expiry_moves :
    ∃ c, bobs.Reach Machine.free c ∧ 0 < c.state.ui.scroll
      ∧ ¬ Unmoved c.past c.state.ui ⟨c.state.now, 1000⟩
      ∧ bottomOf c.state.ui.messages c.state.ui.scroll = some (said "b")
      ∧ bottomOf (c.state.ui.tickExpireEphemerals ⟨c.state.now, 1000⟩).messages
          (c.state.ui.tickExpireEphemerals ⟨c.state.now, 1000⟩).scroll = some (said "a") := by
  obtain ⟨c, hc, hend⟩ := Machine.exec_reach_free (M := bobs)
    (fun c => (c.state.now, c.state.ui.scroll, c.state.ui.lastInnerH, c.state.ui.messages))
    (Duration.fromSecs 30, 1, 1,
      [said "a", said "b", ⟨1000, .message "alice" "c", some ⟨0, none⟩⟩])
    (lookingOn true) (by decide)
  obtain ⟨hnow, hend⟩ := Prod.mk.inj hend
  obtain ⟨hscroll, hend⟩ := Prod.mk.inj hend
  obtain ⟨hpane, hmessages⟩ := Prod.mk.inj hend
  have hbottom : bottomOf c.state.ui.messages c.state.ui.scroll = some (said "b") := by
    rw [hscroll, hmessages]
    decide
  have hfits : c.state.ui.scroll ≤ c.state.ui.oldestLeft c.state.now := by
    rw [UiState.oldestLeft, hscroll, hmessages, hpane, hnow]
    decide
  refine ⟨c, hc, by rw [hscroll]; decide, ?_, hbottom, ?_⟩
  · intro hunmoved
    have hbelow := (unmoved_iff (isClamped hc) (entries_messages hc)).mp hunmoved _ hbottom rfl
      hfits
    rw [hscroll, hmessages, hnow] at hbelow
    exact absurd hbelow (by decide)
  · rw [UiState.tickExpireEphemerals_messages_eq, UiState.tick_scroll (isClamped hc),
      Nat.min_eq_left hfits, hscroll, hmessages, hnow]
    decide

end ChatRs

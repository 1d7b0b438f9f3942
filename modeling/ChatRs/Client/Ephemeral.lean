import ChatRs.Client.Display

/-!
# Ephemeral messages in time (`client/ui.rs`)

What stands in the deque about an ephemeral message is when it arrived and until when it is
revealed. Both are read off the run: it is shown just as long as a Ctrl-R that it was there for
lasts, and a tick that comes late enough removes it for good.

* **`Timely`**: the instants in a run are in order, and nothing arrives revealed;
* **`RevealedIn`**: a Ctrl-R while a message was in the deque;
* **`isMasked_eq_false_iff`**: what the deadline of a message means;
* **`SameMessage`**: what no tick and no Ctrl-R changes;
* **`ephemeral_secrecy`**: the lines over every run.
-/

namespace ChatRs

open Client

/-! ## Instants -/

def DisplayEvent.time? : DisplayEvent → Option Instant
  | .arrived m => m.ephemeral.map EphemeralState.receivedAt
  | .wiped => none
  | .revealed t => some t
  | .ticked t => some t

/-- The event happens now, and a message that arrives is masked. -/
def DisplayEvent.IsFresh (now : Instant) : DisplayEvent → Prop
  | .arrived m => ∀ e, m.ephemeral = some e → e = ⟨now, none⟩
  | .wiped => True
  | .revealed t => t = now
  | .ticked t => t = now

/-- A fresh event that has a time happens now. -/
theorem DisplayEvent.IsFresh.time? {now t : Instant} {ev : DisplayEvent} (h : ev.IsFresh now)
    (ht : ev.time? = some t) : t = now := by
  cases ev with
  | arrived m =>
    obtain ⟨e, he, rfl⟩ := Option.map_eq_some_iff.mp ht
    rw [h e he]
  | wiped => cases ht
  | revealed t' | ticked t' =>
    cases ht
    exact h

/-- The instants of a run up to now: they are in order, and what arrives is masked. -/
structure Timely (past : List DisplayEvent) (now : Instant) : Prop where
  sorted : (past.filterMap DisplayEvent.time?).Pairwise (· ≤ ·)
  passed : ∀ t ∈ past.filterMap DisplayEvent.time?, t ≤ now
  masked : ∀ m e, .arrived m ∈ past → m.ephemeral = some e → e.revealedUntil = none

namespace Timely

variable {past evs : List DisplayEvent} {ev : DisplayEvent} {now now' : Instant}

theorem nil (now : Instant) : Timely [] now := ⟨.nil, nofun, nofun⟩

theorem mono (h : Timely past now) (hle : now ≤ now') : Timely past now' :=
  ⟨h.sorted, fun t ht => (h.passed t ht).trans hle, h.masked⟩

/-- What happens now comes behind everything that has happened. -/
theorem append (h : Timely past now) (hfresh : ∀ ev ∈ evs, ev.IsFresh now) :
    Timely (past ++ evs) now := by
  have hnow : ∀ t ∈ evs.filterMap DisplayEvent.time?, t = now := by
    intro t ht
    obtain ⟨ev, hmem, htime⟩ := List.mem_filterMap.mp ht
    exact (hfresh ev hmem).time? htime
  refine ⟨?_, ?_, ?_⟩
  · rw [List.filterMap_append]
    refine List.pairwise_append.mpr ⟨h.sorted, ?_, ?_⟩
    · refine List.Pairwise.imp_of_mem ?_ (List.pairwise_of_forall fun _ _ => trivial)
      intro t t' ht ht' _
      rw [hnow t ht, hnow t' ht']
    · intro t ht t' ht'
      rw [hnow t' ht']
      exact h.passed t ht
  · intro t ht
    rw [List.filterMap_append] at ht
    rcases List.mem_append.mp ht with ht | ht
    · exact h.passed t ht
    · exact (hnow t ht).le
  · intro m e hmem he
    rcases List.mem_append.mp hmem with hmem | hmem
    · exact h.masked m e hmem he
    · rw [hfresh _ hmem e he]

/-- The beginning of a timely past is timely. -/
theorem of_append (h : Timely (past ++ evs) now) : Timely past now where
  sorted := by
    have hsorted := h.sorted
    rw [List.filterMap_append] at hsorted
    exact (List.pairwise_append.mp hsorted).1
  passed t ht := h.passed t (by
    rw [List.filterMap_append]
    exact List.mem_append_left _ ht)
  masked m e hmem := h.masked m e (List.mem_append_left _ hmem)

/-- Whatever came before an event has an instant that is no later. -/
theorem le_of_mem (h : Timely (past ++ [ev]) now) {ev' : DisplayEvent} {t t' : Instant}
    (hmem : ev' ∈ past) (ht' : ev'.time? = some t') (ht : ev.time? = some t) : t' ≤ t := by
  have hsorted := h.sorted
  rw [List.filterMap_append] at hsorted
  refine (List.pairwise_append.mp hsorted).2.2 t' ?_ t ?_
  · exact List.mem_filterMap.mpr ⟨ev', hmem, ht'⟩
  · exact List.mem_filterMap.mpr ⟨ev, List.mem_singleton_self ev, ht⟩

/-- An event is no later than now. -/
theorem le_now (h : Timely past now) {t : Instant} (hmem : ev ∈ past) (ht : ev.time? = some t) :
    t ≤ now := h.passed t (List.mem_filterMap.mpr ⟨ev, hmem, ht⟩)

end Timely

/-! ## Reveals -/

/-- The `n`th event is an arrival, and the message was in the deque when Ctrl-R was pressed at
`t₀`. -/
def RevealedIn (past : List DisplayEvent) (n : Nat) (t₀ : Instant) : Prop :=
  ∃ before after, past = before ++ .revealed t₀ :: after ∧ n ∈ (entries before).map Prod.fst

/-- A message is revealed by a later event, or by this one if it is on the screen by then. -/
theorem revealedIn_concat {past : List DisplayEvent} {ev : DisplayEvent} {n : Nat}
    {t₀ : Instant} :
    RevealedIn (past ++ [ev]) n t₀
      ↔ RevealedIn past n t₀ ∨ ev = .revealed t₀ ∧ n ∈ (entries past).map Prod.fst := by
  constructor
  · rintro ⟨before, after, heq, hmem⟩
    rcases List.eq_nil_or_concat after with rfl | ⟨after, last, rfl⟩
    · obtain ⟨rfl, hev⟩ := List.append_inj' heq rfl
      exact .inr ⟨List.singleton_inj.mp hev, hmem⟩
    · rw [List.concat_eq_append, ← List.cons_append, ← List.append_assoc] at heq
      exact .inl ⟨before, after, (List.append_inj' heq rfl).1, hmem⟩
  · rintro (⟨before, after, rfl, hmem⟩ | ⟨rfl, hmem⟩)
    · exact ⟨before, after ++ [ev], by rw [List.append_assoc, List.cons_append], hmem⟩
    · exact ⟨past, [], rfl, hmem⟩

theorem RevealedIn.mem {past : List DisplayEvent} {n : Nat} {t₀ : Instant}
    (h : RevealedIn past n t₀) : .revealed t₀ ∈ past := by
  obtain ⟨before, after, rfl, _⟩ := h
  exact List.mem_append_right _ List.mem_cons_self

/-- A message is revealed only after it has arrived. -/
theorem RevealedIn.lt_length {past : List DisplayEvent} {n : Nat} {t₀ : Instant}
    (h : RevealedIn past n t₀) : n < past.length := by
  obtain ⟨before, after, rfl, hmem⟩ := h
  obtain ⟨⟨n, m⟩, hentry, rfl⟩ := List.mem_map.mp hmem
  have hlt : n < before.length := Ring.lt_length_of_mem_entries hentry
  rw [List.length_append]
  exact Nat.lt_add_right _ hlt

/-- A Ctrl-R that the message was there for lasts at `t`. -/
def IsRevealed (past : List DisplayEvent) (n : Nat) (t : Instant) : Prop :=
  ∃ t₀, RevealedIn past n t₀ ∧ t₀ ≤ t ∧ t < t₀ + Duration.fromMillis EPHEMERAL_REVEAL_MS

/-- An event other than a Ctrl-R reveals nothing. -/
theorem revealedIn_concat_of_ne {past : List DisplayEvent} {ev : DisplayEvent} {n : Nat}
    {t₀ : Instant} (hev : ∀ t, ev ≠ .revealed t) :
    RevealedIn (past ++ [ev]) n t₀ ↔ RevealedIn past n t₀ := by
  rw [revealedIn_concat]
  exact or_iff_left fun h => hev t₀ h.1

theorem revealedIn_arrived {past : List DisplayEvent} {m : DisplayMsg} {n : Nat} {t₀ : Instant} :
    RevealedIn (past ++ [.arrived m]) n t₀ ↔ RevealedIn past n t₀ :=
  revealedIn_concat_of_ne nofun

theorem revealedIn_ticked {past : List DisplayEvent} {t : Instant} {n : Nat} {t₀ : Instant} :
    RevealedIn (past ++ [.ticked t]) n t₀ ↔ RevealedIn past n t₀ :=
  revealedIn_concat_of_ne nofun

/-! ## What an event is as an edit -/

/-- Only an arrival puts a message into the list. -/
theorem DisplayEvent.eq_arrived {ev : DisplayEvent} {x : DisplayMsg} (h : ev.edit = .push x) :
    ev = .arrived x := by
  cases ev with
  | arrived m =>
    cases h
    rfl
  | wiped | revealed | ticked => cases h

/-- A pass over the deque is a Ctrl-R or a tick. -/
theorem DisplayEvent.eq_of_retain {ev : DisplayEvent} {keep : DisplayMsg → Bool}
    {change : DisplayMsg → DisplayMsg} (h : ev.edit = .retain keep change) :
    (∃ t, ev = .revealed t
        ∧ change = DisplayMsg.revealUntil (t + Duration.fromMillis EPHEMERAL_REVEAL_MS))
      ∨ ∃ t, ev = .ticked t ∧ keep = DisplayMsg.isLive t ∧ change = DisplayMsg.remask t := by
  cases ev with
  | arrived | wiped => cases h
  | revealed t =>
    cases h
    exact .inl ⟨t, rfl, rfl⟩
  | ticked t =>
    cases h
    exact .inr ⟨t, rfl, rfl, rfl⟩

/-! ## What stays the same -/

/-- The messages differ at most in the deadline of a reveal. -/
structure SameMessage (m m' : DisplayMsg) : Prop where
  tsMs : m'.tsMs = m.tsMs
  kind : m'.kind = m.kind
  receivedAt : m'.ephemeral.map EphemeralState.receivedAt
    = m.ephemeral.map EphemeralState.receivedAt

namespace SameMessage

variable {m m' m'' : DisplayMsg}

theorem refl (m : DisplayMsg) : SameMessage m m := ⟨rfl, rfl, rfl⟩

theorem trans (h : SameMessage m m') (h' : SameMessage m' m'') : SameMessage m m'' :=
  ⟨h'.tsMs.trans h.tsMs, h'.kind.trans h.kind, h'.receivedAt.trans h.receivedAt⟩

/-- Revealing a message changes its mask and nothing else of it. -/
theorem revealUntil (until_ : Instant) (m : DisplayMsg) :
    SameMessage m (m.revealUntil until_) := by
  refine ⟨rfl, rfl, ?_⟩
  rw [DisplayMsg.revealUntil, Option.map_map]
  rfl

/-- A message that is masked again is the same message. -/
theorem remask (now : Instant) (m : DisplayMsg) : SameMessage m (m.remask now) := by
  refine ⟨rfl, rfl, ?_⟩
  have hkept (e : EphemeralState) : (e.remask now).receivedAt = e.receivedAt := by
    simp only [EphemeralState.remask]
    split
    · split <;> rfl
    · rfl
  rw [DisplayMsg.remask, Option.map_map]
  exact congrFun (congrArg Option.map (funext hkept)) m.ephemeral

/-- The one is ephemeral when the other is, with the same arrival. -/
theorem ephemeral (h : SameMessage m m') {e' : EphemeralState} (he' : m'.ephemeral = some e') :
    ∃ e, m.ephemeral = some e ∧ e.receivedAt = e'.receivedAt := by
  have hsame := h.receivedAt
  rw [he'] at hsame
  exact Option.map_eq_some_iff.mp hsame.symm

/-- The same message is ephemeral in both lists, and was received at the same time. -/
theorem ephemeral_symm (h : SameMessage m m') {e : EphemeralState} (he : m.ephemeral = some e) :
    ∃ e', m'.ephemeral = some e' ∧ e'.receivedAt = e.receivedAt := by
  have hsame := h.receivedAt
  rw [he] at hsame
  exact Option.map_eq_some_iff.mp hsame

end SameMessage

/-- No pass over the deque makes another message of one. -/
theorem SameMessage.of_retain {ev : DisplayEvent} {keep : DisplayMsg → Bool}
    {change : DisplayMsg → DisplayMsg} (hev : ev.edit = .retain keep change) (x : DisplayMsg) :
    SameMessage x (change x) := by
  rcases DisplayEvent.eq_of_retain hev with ⟨t, _, rfl⟩ | ⟨t, _, _, rfl⟩
  · exact .revealUntil _ x
  · exact .remask t x

/-- **An entry is what arrived at its place**, up to reveals. -/
theorem arrived_of_mem_entries {past : List DisplayEvent} {n : Nat} {m : DisplayMsg}
    (h : (n, m) ∈ entries past) :
    ∃ m₀, past[n]? = some (.arrived m₀) ∧ SameMessage m₀ m := by
  have hkept {past : List DisplayEvent} {ev : DisplayEvent} {n : Nat} {x : DisplayEvent}
      (hx : past[n]? = some x) : (past ++ [ev])[n]? = some x := by
    rw [List.getElem?_append_left (List.getElem?_eq_some_iff.mp hx).1, hx]
  refine Ring.mem_entries_induction (P := fun past n m =>
    ∃ m₀, past[n]? = some (.arrived m₀) ∧ SameMessage m₀ m) ?_ ?_ ?_ h
  · intro past ev x hev
    rw [DisplayEvent.eq_arrived hev]
    exact ⟨x, List.getElem?_concat_length, .refl x⟩
  · rintro past ev x y n _ _ ⟨m₀, hat, hsame⟩
    exact ⟨m₀, hkept hat, hsame⟩
  · rintro past ev keep change x n hev _ _ ⟨m₀, hat, hsame⟩
    exact ⟨m₀, hkept hat, hsame.trans (.of_retain hev x)⟩

/-! ## The mask -/

/-- What a tick clears was over. -/
theorem EphemeralState.isMasked_remask {t now : Instant} (h : t ≤ now) (e : EphemeralState) :
    (e.remask t).isMasked now = e.isMasked now := by
  unfold EphemeralState.remask EphemeralState.isMasked
  cases hu : e.revealedUntil with
  | none => simp [hu]
  | some until_ =>
    by_cases hle : t ≥ until_
    · have hover : until_ ≤ now := hle.trans h
      simp [hle, hover]
    · simp [hle, hu]

/-- **The deadline of a message is that of the last Ctrl-R it was there for.** -/
theorem isMasked_eq_false_iff {past : List DisplayEvent} {n : Nat} {m : DisplayMsg}
    (h : (n, m) ∈ entries past) {now : Instant} (htimely : Timely past now)
    {e : EphemeralState} (he : m.ephemeral = some e) :
    e.isMasked now = false
      ↔ ∃ t₀, RevealedIn past n t₀ ∧ now < t₀ + Duration.fromMillis EPHEMERAL_REVEAL_MS := by
  revert now e
  refine Ring.mem_entries_induction (P := fun past n m =>
    ∀ {now : Instant} (_ : Timely past now) {e : EphemeralState} (_ : m.ephemeral = some e),
      (e.isMasked now = false
        ↔ ∃ t₀, RevealedIn past n t₀ ∧ now < t₀ + Duration.fromMillis EPHEMERAL_REVEAL_MS))
    ?_ ?_ ?_ h
  · intro past ev x hev now htimely e he
    cases DisplayEvent.eq_arrived hev
    have hmasked := htimely.masked x e (List.mem_append_right _ (List.mem_singleton_self _)) he
    rw [EphemeralState.isMasked_eq_false_iff, hmasked]
    constructor
    · rintro ⟨until_, huntil, _⟩
      cases huntil
    · rintro ⟨t₀, hrevealed, _⟩
      exact absurd (revealedIn_arrived.mp hrevealed).lt_length (Nat.lt_irrefl _)
  · intro past ev x y n hev _ ih now htimely e he
    cases DisplayEvent.eq_arrived hev
    simp only [ih htimely.of_append he, revealedIn_arrived]
  · intro past ev keep change x n hev hkeep hmem ih now htimely e he
    rcases DisplayEvent.eq_of_retain hev with ⟨t, rfl, rfl⟩ | ⟨t, rfl, rfl, rfl⟩
    · obtain ⟨e₀, he₀, rfl⟩ := Option.map_eq_some_iff.mp he
      have hthere : n ∈ (entries past).map Prod.fst := List.mem_map.mpr ⟨_, hmem, rfl⟩
      rw [EphemeralState.isMasked_eq_false_iff]
      constructor
      · rintro ⟨until_, huntil, hlt⟩
        cases huntil
        exact ⟨t, revealedIn_concat.mpr (.inr ⟨rfl, hthere⟩), hlt⟩
      · rintro ⟨t₀, hrevealed, hlt⟩
        refine ⟨_, rfl, lt_of_lt_of_le hlt (Nat.add_le_add_right ?_ _)⟩
        -- an earlier Ctrl-R does not last longer
        rcases revealedIn_concat.mp hrevealed with hbefore | ⟨heq, _⟩
        · exact htimely.le_of_mem hbefore.mem rfl rfl
        · cases heq
          exact Nat.le_refl _
    · obtain ⟨e₀, he₀, rfl⟩ := Option.map_eq_some_iff.mp he
      have hmem : .ticked t ∈ past ++ [DisplayEvent.ticked t] :=
        List.mem_append_right _ (List.mem_singleton_self _)
      have hnow : t ≤ now := htimely.le_now hmem rfl
      simp only [EphemeralState.isMasked_remask hnow, ih htimely.of_append he₀, revealedIn_ticked]

/-! ## Expiry -/

/-- A message is live as long as its time to live has not passed; one that is not ephemeral is for
ever. -/
theorem DisplayMsg.isLive_eq_true_iff {t : Instant} {m : DisplayMsg} :
    m.isLive t = true
      ↔ ∀ e, m.ephemeral = some e → t < e.receivedAt + Duration.fromMillis EPHEMERAL_TTL_MS := by
  have hpos : 0 < Duration.fromMillis EPHEMERAL_TTL_MS := by decide
  have hwithin (a b ttl : Nat) (h : 0 < ttl) : a - b < ttl ↔ a < b + ttl := by omega
  unfold DisplayMsg.isLive
  cases m.ephemeral with
  | none => simp
  | some e =>
    rw [decide_eq_true_eq, Instant.durationSince, hwithin _ _ _ hpos]
    simp

/-- A message is live as long as its time, if it has one, is not over. -/
theorem DisplayMsg.isLive_eq_all (t : Instant) (m : DisplayMsg) :
    m.isLive t = m.ephemeral.all fun e =>
      t < e.receivedAt + Duration.fromMillis EPHEMERAL_TTL_MS := by
  rw [Bool.eq_iff_iff, isLive_eq_true_iff]
  cases m.ephemeral with
  | none => simp
  | some e =>
    rw [Option.all_some, decide_eq_true_eq]
    exact ⟨fun h => h e rfl, fun h e' he' => Option.some.inj he' ▸ h⟩

/-- **What a tick has left was young at every tick so far.** -/
theorem live_of_mem_entries {past : List DisplayEvent} {n : Nat} {m : DisplayMsg}
    (h : (n, m) ∈ entries past) {now : Instant} (htimely : Timely past now) {t : Instant}
    (htick : .ticked t ∈ past) : m.isLive t = true := by
  revert now
  refine Ring.mem_entries_induction (P := fun past _ m =>
    .ticked t ∈ past → ∀ {now : Instant}, Timely past now → m.isLive t = true) ?_ ?_ ?_ h htick
  · intro past ev x hev htick now htimely
    cases DisplayEvent.eq_arrived hev
    rw [DisplayMsg.isLive_eq_true_iff]
    intro e he
    have hbefore : .ticked t ∈ past := by
      rcases List.mem_append.mp htick with hmem | hmem
      · exact hmem
      · cases List.mem_singleton.mp hmem
    have harrival : (DisplayEvent.arrived x).time? = some e.receivedAt := by
      rw [DisplayEvent.time?, he]
      rfl
    -- a message is younger at every earlier tick than when it arrives
    have hpos : 0 < Duration.fromMillis EPHEMERAL_TTL_MS := by decide
    exact lt_of_le_of_lt (htimely.le_of_mem hbefore rfl harrival) (Nat.lt_add_of_pos_right hpos)
  · intro past ev x y n hev _ ih htick now htimely
    cases DisplayEvent.eq_arrived hev
    rcases List.mem_append.mp htick with hmem | hmem
    · exact ih hmem htimely.of_append
    · cases List.mem_singleton.mp hmem
  · intro past ev keep change x n hev hkeep _ ih htick now htimely
    have hlive : x.isLive t = true := by
      rcases List.mem_append.mp htick with hmem | hmem
      · exact ih hmem htimely.of_append
      · rw [← List.mem_singleton.mp hmem] at hev
        cases hev
        exact hkeep
    -- a tick keeps what is live and changes its mask only
    have hsame : SameMessage x (change x) := .of_retain hev x
    rw [DisplayMsg.isLive_eq_true_iff] at hlive ⊢
    intro e he
    obtain ⟨e₀, he₀, hreceived⟩ := hsame.ephemeral he
    rw [← hreceived]
    exact hlive e₀ he₀

/-- **An expired message is gone for good**, once a tick has seen it expired. -/
theorem not_mem_entries_of_expired {past : List DisplayEvent} {now : Instant}
    (htimely : Timely past now) {n : Nat} {m₀ : DisplayMsg} {e : EphemeralState}
    (hat : past[n]? = some (.arrived m₀)) (he : m₀.ephemeral = some e) {t : Instant}
    (htick : .ticked t ∈ past)
    (hlate : e.receivedAt + Duration.fromMillis EPHEMERAL_TTL_MS ≤ t) (m : DisplayMsg) :
    (n, m) ∉ entries past := by
  intro hmem
  obtain ⟨m₁, hat₁, hsame⟩ := arrived_of_mem_entries hmem
  cases hat.symm.trans hat₁
  obtain ⟨e', he', hreceived⟩ := hsame.ephemeral_symm he
  have hlive := DisplayMsg.isLive_eq_true_iff.mp (live_of_mem_entries hmem htimely htick) e' he'
  rw [hreceived] at hlive
  exact absurd hlate (Nat.not_le_of_lt hlive)

/-- What no tick changes of a message. -/
def DisplayMsg.lasting (m : DisplayMsg) : UInt64 × DisplayKind × Option Instant :=
  (m.tsMs, m.kind, m.ephemeral.map EphemeralState.receivedAt)

theorem SameMessage.lasting {m m' : DisplayMsg} (h : SameMessage m m') :
    m'.lasting = m.lasting := by
  rw [DisplayMsg.lasting, DisplayMsg.lasting, h.tsMs, h.kind, h.receivedAt]

/-- **A tick drops what is expired**, and leaves everything else as it is and in its order. -/
theorem UiState.tickExpireEphemerals_lasting (s : UiState) (clock : Clock) :
    (s.tickExpireEphemerals clock).messages.map DisplayMsg.lasting
      = (s.messages.filter (DisplayMsg.isLive clock.now)).map DisplayMsg.lasting := by
  rw [UiState.tickExpireEphemerals_messages]
  show ((s.messages.filter (DisplayMsg.isLive clock.now)).map
    (DisplayMsg.remask clock.now)).map DisplayMsg.lasting = _
  rw [List.map_map]
  exact List.map_congr_left fun m _ => (SameMessage.remask clock.now m).lasting

/-! ## Every run -/

section

variable (aead : Aead) (roomKey : Key)

/-- A message that is shown was received now. -/
theorem decryptToDisplay_fresh (clock : Clock) (m : RoomMessage) :
    (DisplayEvent.arrived (decryptToDisplay aead roomKey clock m)).IsFresh clock.now := by
  intro e he
  simp only [decryptToDisplay] at he
  split at he
  · simp only [Option.ite_none_right_eq_some] at he
    exact (Option.some.inj he.2).symm
  · cases he

theorem systemMsg_fresh (clock : Clock) (text : String) :
    (DisplayEvent.arrived (systemMsg clock text)).IsFresh clock.now := by
  intro e he
  cases he

/-- Everything that a frame of the server puts on the screen is fresh. -/
theorem frameLog_fresh (s : UiState) (clock : Clock) (f : ServerFrame) :
    ∀ x ∈ frameLog s clock f, (x.event aead roomKey).IsFresh clock.now := by
  intro x hmem
  cases f with
  | message m =>
    simp only [frameLog] at hmem
    split at hmem
    · rw [List.mem_singleton.mp hmem]
      exact decryptToDisplay_fresh aead roomKey clock m
    · rw [List.mem_singleton.mp hmem]
      exact systemMsg_fresh clock _
  | cleared by_ username =>
    rcases List.mem_pair.mp hmem with rfl | rfl
    · trivial
    · exact systemMsg_fresh clock _
  | error | hello | welcome => cases hmem

/-- Everything that a key puts on the screen is fresh. -/
theorem keyEvents_fresh (s : UiState) (clock : Clock) (random : Option Nonce) (key : KeyEvent) :
    ∀ ev ∈ keyEvents aead roomKey s clock random key, ev.IsFresh clock.now := by
  intro ev hmem
  simp only [keyEvents] at hmem
  split at hmem
  · rw [List.mem_singleton.mp hmem]
    rfl
  · obtain ⟨t, _, ht⟩ := List.mem_filterMap.mp hmem
    cases t with
    | clear => cases ht
    | message body ad ciphertext =>
      cases ciphertext with
      | ok ct => cases ht
      | error e =>
        cases ht
        exact systemMsg_fresh clock _

/-- A turn of the loop adds events of its own time only. -/
theorem turnEvents_fresh (s : UiState) (clock : Clock) (i : Input) :
    ∀ ev ∈ turnEvents aead roomKey s clock i, ev.IsFresh clock.now := by
  intro ev hmem
  cases i with
  | key k random written => exact keyEvents_fresh aead roomKey s clock random k ev hmem
  | incoming r =>
    rcases r with _ | ⟨e | f⟩
    · cases hmem
    · cases hmem
    · obtain ⟨x, hx, rfl⟩ := List.mem_map.mp hmem
      exact frameLog_fresh aead roomKey s clock f x hx
  | tick =>
    rw [List.mem_singleton.mp hmem]
    rfl
  | drawFailed | otherEvent | eventError | eventsEnded => cases hmem

variable {aead roomKey}

/-- And each step of the screen, with the ticks of the clock between them. -/
theorem ScreenStep.fresh {s s' : Screen} {evs : List DisplayEvent}
    (h : ScreenStep aead roomKey s s' evs) : ∀ ev ∈ evs, ev.IsFresh s.now := by
  cases h with
  | passes | enters | draws => exact nofun
  | replays nowMs m =>
    intro ev hmem
    rw [List.mem_singleton.mp hmem]
    exact decryptToDisplay_fresh aead roomKey ⟨s.now, nowMs⟩ m
  | turns nowMs i stage => exact turnEvents_fresh aead roomKey s.ui ⟨s.now, nowMs⟩ i

variable {username : String} {userId : Uuid} {room : String}
variable {G : Machine.Guard Screen ScreenLabel DisplayEvent}
variable {c : Machine.Config Screen DisplayEvent}

/-- **Along a run the events are in the order of their times**, none of them later than now. -/
theorem timely (h : (screen aead roomKey username userId room).Reach G c) :
    Timely c.past c.state.now := by
  refine Machine.Reach.invariant (P := fun c => Timely c.past c.state.now) (.nil _) ?_ h
  intro d l s' evs _ ih _ hs
  have hstep := screenStep_inv hs
  exact (ih.append hstep.fresh).mono hstep.now_le

/-- A message is revealed now if somebody revealed it less than `EPHEMERAL_REVEAL_MS` ago. -/
theorem isRevealed_iff {past : List DisplayEvent} {now : Instant} (htimely : Timely past now)
    {n : Nat} :
    IsRevealed past n now
      ↔ ∃ t₀, RevealedIn past n t₀ ∧ now < t₀ + Duration.fromMillis EPHEMERAL_REVEAL_MS := by
  constructor
  · rintro ⟨t₀, hrevealed, _, hlt⟩
    exact ⟨t₀, hrevealed, hlt⟩
  · rintro ⟨t₀, hrevealed, hlt⟩
    exact ⟨t₀, hrevealed, htimely.le_now hrevealed.mem rfl, hlt⟩

/-- **Ephemeral messages, in every run of a client.** The line of one that is in the deque shows
the text if and only if a Ctrl-R that it was there for lasts, and the mask otherwise; after a tick
that came late enough it is not in the deque; and a tick leaves all that is not ephemeral or
younger as it is. -/
theorem ephemeral_secrecy (h : (screen aead roomKey username userId room).Reach G c) :
    (entries c.past).map Prod.snd = c.state.ui.messages
      ∧ (∀ n tsMs username text e,
          (n, ⟨tsMs, .message username text, some e⟩) ∈ entries c.past →
          let line := formatLine ⟨tsMs, .message username text, some e⟩ c.state.now
          let head := ephemeralHead tsMs username e.receivedAt c.state.now
          (line = head ++ [cleartextSpan text] ↔ IsRevealed c.past n c.state.now)
            ∧ (¬ IsRevealed c.past n c.state.now → line = head ++ [maskSpan]))
      ∧ (∀ (n : Nat) m e t, c.past[n]? = some (.arrived m) → m.ephemeral = some e →
          .ticked t ∈ c.past → e.receivedAt + Duration.fromMillis EPHEMERAL_TTL_MS ≤ t →
          ∀ m', (n, m') ∉ entries c.past)
      ∧ ∀ clock : Clock,
          (c.state.ui.tickExpireEphemerals clock).messages.map DisplayMsg.lasting
            = (c.state.ui.messages.filter fun m => m.ephemeral.all fun e =>
                clock.now < e.receivedAt + Duration.fromMillis EPHEMERAL_TTL_MS).map
              DisplayMsg.lasting := by
  have htimely := timely h
  refine ⟨entries_messages h, ?_, ?_, ?_⟩
  · intro n tsMs username text e hmem line head
    have hmask := isMasked_eq_false_iff hmem htimely rfl
    rw [← isRevealed_iff htimely] at hmask
    have hline : line = head ++ [if e.isMasked c.state.now then maskSpan else cleartextSpan text] :=
      formatLine_ephemeral tsMs username text e c.state.now
    rw [hline, ← hmask]
    -- the two texts differ, so that the line tells which it was
    cases e.isMasked c.state.now with
    | false => simp
    | true => simp [maskSpan_ne_cleartextSpan]
  · exact fun n m e t hat he htick hlate => not_mem_entries_of_expired htimely hat he htick hlate
  · intro clock
    rw [UiState.tickExpireEphemerals_lasting]
    rw [funext (DisplayMsg.isLive_eq_all clock.now)]

end

/-! ## A secret on Bob's screen -/

deriving instance DecidableEq for EphemeralState, DisplayKind, DisplayMsg, DisplayEvent

namespace Pane

def roomKey : Key := List.Vector.replicate 32 7

def alice : Uuid := List.Vector.replicate 16 1

def bob : Uuid := List.Vector.replicate 16 2

/-- Alice's `n`th message. -/
def note (n : UInt64) (text : String) (ephemeral : Bool) : RoomMessage where
  fromId := alice
  username := "alice"
  ad := ⟨alice, "alice", n, 1000, ephemeral⟩
  ciphertext := List.replicate NONCE_LEN 0 ++ (strBytes text ++ Aead.tag)

def pressed (code : KeyCode) (control : Bool) : ScreenLabel :=
  .input 1000 (.key ⟨code, control, .press⟩ none (.ok ()))

def ctrlR : ScreenLabel := pressed (.char 'r') true

/-- A secret arrives in the second second, and Bob presses Ctrl-R a second later. -/
def revealing : List ScreenLabel :=
  [.enterTerminal, .draw 10, .elapse (Duration.fromSecs 1),
    .input 1000 (.incoming (some (.ok (.message (note 1 "noon" true))))), .draw 10,
    .elapse (Duration.fromSecs 1), ctrlR, .draw 10, .elapse (Duration.fromSecs 2)]

def secret : DisplayMsg :=
  ⟨1000, .message "alice" "noon", some ⟨Duration.fromSecs 1, none⟩⟩

def revealed : EphemeralState := ⟨Duration.fromSecs 1, some (Duration.fromSecs 5)⟩

end Pane

open Pane in
/-- Two seconds after the Ctrl-R the secret can be read. -/
theorem ephemeral_secrecy_revealing :
    ∃ c, (screen Aead.tagging roomKey "bob" bob "main").Reach Machine.free c
      ∧ formatLine ⟨1000, .message "alice" "noon", some revealed⟩ c.state.now
        = ephemeralHead 1000 "alice" (Duration.fromSecs 1) c.state.now ++ [cleartextSpan "noon"]
      ∧ (c.state.ui.messages.map DisplayMsg.lasting) = [secret.lasting] := by
  obtain ⟨c, hc, hend⟩ := Machine.exec_reach_free
    (M := screen Aead.tagging roomKey "bob" bob "main")
    (fun c => (c.past, c.state.now))
    ([.arrived secret, .revealed (Duration.fromSecs 2)], Duration.fromSecs 4)
    revealing (by decide)
  obtain ⟨hpast, hnow⟩ := Prod.mk.inj hend
  obtain ⟨hdeque, hlines, _, _⟩ := ephemeral_secrecy hc
  have hentries : entries c.past = [(0, ⟨1000, .message "alice" "noon", some revealed⟩)] := by
    rw [hpast]
    decide
  have hmem : (0, ⟨1000, .message "alice" "noon", some revealed⟩) ∈ entries c.past := by
    rw [hentries]
    exact List.mem_singleton_self _
  have hrevealed : IsRevealed c.past 0 c.state.now := by
    rw [hpast, hnow]
    refine ⟨Duration.fromSecs 2, ⟨[.arrived secret], [], rfl, by decide⟩, by decide, by decide⟩
  refine ⟨c, hc, (hlines 0 1000 "alice" "noon" revealed hmem).1.mpr hrevealed, ?_⟩
  rw [← hdeque, hentries]
  rfl

end ChatRs

import ChatRs.Client.Loop
import ChatRs.Server.Join
import ChatRs.Server.Membership
import ChatRs.Server.Rejection

/-!
# What a client types and the server's checks

The two sides of a message: `handle_key` composes it, `handle_client_frame` checks it. They were
written apart and have to agree on who the sender is, on the counter and on the size. The plan:

* **`Tallied`**: the counter in a session is 0 or the counter of a frame whose checks are over;
* what a client composes carries its name and consecutive counters (`Client.composed_writes`),
  so the next frame of it lies above the session's counter;
* `checkFrame_of_above`: then only the size is left to be checked, and the rate;
* **`typed_admitted`**: so a message passes exactly if its body fits. The client never looks at
  the length of a line, and the server drops the connection over one that does not fit.
-/

namespace ChatRs

open Machine (Config Guard free)

/-! ## The counter of a session -/

/-- The frame in hand whose checks are still to come. -/
def Phase.unchecked : Phase → List ClientFrame
  | .live _ (.touching f) => [f]
  | .live _ (.checking f) => [f]
  | _ => []

def World.unchecked (w : World) (id : Uuid) : List ClientFrame :=
  match w.tasks id with
  | some phase => phase.unchecked
  | none => []

theorem World.unchecked_of_at {w : World} {id : Uuid} {phase : Phase}
    (h : w.tasks id = some phase) : w.unchecked id = phase.unchecked := by
  rw [unchecked, h]

/-- A task that has not registered has no frame in hand. -/
theorem unchecked_of_unregistered {w : World} {id : Uuid} (h : Unregistered (w.tasks id)) :
    w.unchecked id = [] := by
  unfold World.unchecked
  split
  · rename_i phase hat
    rw [hat] at h
    cases phase with
    | live _ _ => exact h.elim
    | _ => rfl
  · rfl

/-- A task whose frame has passed the checks has no unchecked frame in hand. -/
theorem unchecked_afterCheck (f : ServerFrame) (username : String) :
    (Phase.live username (afterCheck f)).unchecked = [] := by
  unfold afterCheck
  split
  · split <;> rfl
  · rfl

/-- Checks leave a counter as it was, or set it to that of the message. -/
theorem counterOf_checkFrame {sessions : UserSessionStore} {now : Instant} {id : Uuid}
    {username : String} {f : ClientFrame} {k : Uuid} {x : UInt64}
    (h : (checkFrame sessions now id username f).2.counterOf k = some x) :
    sessions.counterOf k = some x ∨ (k = id ∧ ∃ ad ct, f = .message ad ct ∧ ad.counter = x) := by
  cases f with
  | roomSelect | hello => exact .inl h
  | clear =>
    have hclear := sessions.counterOf_tryConsumeClear now id
    rw [checkFrame] at h
    split at h <;> (rename_i s₁ heq; rw [heq] at hclear; exact .inl (hclear ▸ h))
  | message ad ct =>
    rw [checkFrame] at h
    split at h
    · exact .inl h
    split at h
    · exact .inl h
    split at h
    · exact .inl h
    split at h
    · rename_i s₁ hfalse
      rw [UserSessionStore.tryAdvanceCounter_false hfalse] at h
      exact .inl h
    · rename_i s₁ htrue
      have hcounter := (UserSessionStore.tryAdvanceCounter_true htrue).2
      have hquota := s₁.counterOf_tryConsumeMessageQuota now id
      have hafter : s₁.counterOf k = some x := by
        rw [← hquota]
        split at h <;> (rename_i s₂ heq; rw [heq]; exact h)
      rw [hcounter] at hafter
      rcases eq_or_ne k id with rfl | hne
      · rw [Function.update_self] at hafter
        exact .inr ⟨rfl, ad, ct, rfl, Option.some.inj hafter⟩
      · rw [Function.update_of_ne hne] at hafter
        exact .inl hafter

/-- The frames of `id` whose checks are over, and the counter that they left. -/
structure Tallied (c : Config World Event) (id : Uuid) (done : List ClientFrame) : Prop where
  incoming : incomingFrom id c.past = done ++ c.state.unchecked id
  counter : ∀ last, c.state.sessions.counterOf id = some last →
    last = 0 ∨ ∃ ad ct, .message ad ct ∈ done ∧ ad.counter = last

section

variable {u w : World} {id k : Uuid} {phase : Phase}

theorem unchecked_goto_self (w : World) (id : Uuid) (phase : Phase) :
    (w.goto id phase).unchecked id = phase.unchecked :=
  World.unchecked_of_at (Function.update_self ..)

/-- A step of one task leaves the frames in the hands of the others. -/
theorem unchecked_goto_of_ne (hu : u.tasks = w.tasks) (hne : k ≠ id) :
    (u.goto id phase).unchecked k = w.unchecked k := by
  unfold World.unchecked
  rw [World.goto_tasks, Function.update_of_ne hne, hu]

/-- A step to a place with the same frame in hand. -/
theorem unchecked_goto (hu : u.tasks = w.tasks) (hsame : phase.unchecked = w.unchecked id)
    (k : Uuid) : (u.goto id phase).unchecked k = w.unchecked k := by
  rcases eq_or_ne k id with rfl | hne
  · rw [unchecked_goto_self, hsame]
  · exact unchecked_goto_of_ne hu hne

end

section

variable {c : Config World Event} {k id : Uuid} {done : List ClientFrame} {username : String}

/-- A step that neither takes a frame of `k` in nor checks one, and sets no counter of `k`. -/
theorem Tallied.rests (h : Tallied c k done) {evs : List Event} {w : World}
    (hnone : incomingFrom k evs = []) (hsame : w.unchecked k = c.state.unchecked k)
    (hcounter : ∀ last, w.sessions.counterOf k = some last →
      c.state.sessions.counterOf k = some last) : Tallied ⟨c.past ++ evs, w⟩ k done where
  incoming := by rw [incomingFrom_append, hnone, List.append_nil, hsame, h.incoming]
  counter last hlast := h.counter last (hcounter last hlast)

/-- A session starts at 0. -/
theorem Tallied.registers (h : Tallied c k done) {w : World}
    (hsame : w.unchecked k = c.state.unchecked k)
    (hsessions : w.sessions = c.state.sessions.insert c.state.now id username) :
    Tallied ⟨c.past ++ [.registered id username], w⟩ k done where
  incoming := by
    rw [incomingFrom_append, hsame, h.incoming]
    exact List.append_nil _
  counter last hlast := by
    rw [hsessions, UserSessionStore.counterOf_insert] at hlast
    rcases eq_or_ne k id with rfl | hne
    · rw [Function.update_self] at hlast
      exact .inl (Option.some.inj hlast).symm
    · rw [Function.update_of_ne hne] at hlast
      exact h.counter last hlast

/-- `pump` takes a frame in: it is in hand now. -/
theorem Tallied.takesIn (h : Tallied c k done) {f : ClientFrame}
    (hat : c.state.tasks id = some (.live username .pumping)) :
    Tallied ⟨c.past ++ [.incoming id f], c.state.goto id (.live username (.touching f))⟩ k
      done := by
  rcases eq_or_ne k id with rfl | hne
  · refine ⟨?_, h.counter⟩
    rw [incomingFrom_append, incomingFrom_self, h.incoming, World.unchecked_of_at hat,
      unchecked_goto_self]
    show done ++ [] ++ [f] = done ++ [f]
    rw [List.append_nil]
  · exact h.rests (incomingFrom_other f hne) (unchecked_goto_of_ne rfl hne) fun _ h => h

/-- The checks on the frame in hand are over, and it may have left its counter. -/
theorem Tallied.checks (h : Tallied c k done) {f : ClientFrame} {sessions : UserSessionStore}
    {phase : Phase} {evs : List Event}
    (hat : c.state.tasks id = some (.live username (.checking f)))
    (hcheck : (checkFrame c.state.sessions c.state.now id username f).2 = sessions)
    (hphase : phase.unchecked = []) (hnone : incomingFrom k evs = []) :
    ∃ done, Tallied ⟨c.past ++ evs, { c.state with sessions := sessions }.goto id phase⟩ k
      done := by
  have hcounter (last : UInt64) (hlast : sessions.counterOf k = some last) :
      c.state.sessions.counterOf k = some last
        ∨ (k = id ∧ ∃ ad ct, f = .message ad ct ∧ ad.counter = last) :=
    counterOf_checkFrame (hcheck ▸ hlast)
  rcases eq_or_ne k id with rfl | hne
  · refine ⟨done ++ [f], ?_, fun last hlast => ?_⟩
    · rw [incomingFrom_append, hnone, h.incoming, World.unchecked_of_at hat,
        unchecked_goto_self, hphase]
      rfl
    · rcases hcounter last hlast with hold | ⟨_, ad, ct, rfl, had⟩
      · refine (h.counter last hold).imp_right fun ⟨ad, ct, hmem, had⟩ => ?_
        exact ⟨ad, ct, List.mem_append_left _ hmem, had⟩
      · exact .inr ⟨ad, ct, List.mem_append_right _ (List.mem_singleton_self _), had⟩
  · refine ⟨done, h.rests hnone (unchecked_goto_of_ne rfl hne) fun last hlast => ?_⟩
    exact (hcounter last hlast).resolve_right fun ⟨heq, _⟩ => hne heq

end

section

variable {G : Guard World Label Event} {c : Config World Event}

/-- **The counter of a session comes from a frame that was checked**: in every state of a room the
frames that `pump` has taken in from a connection are those whose checks are over and the one in
hand, and only checks set a counter. -/
theorem tallied (h : room.Reach G c) : ∀ id, ∃ done, Tallied c id done := by
  refine Reach.room_invariant ?_ ?_ h
  · intro id
    exact ⟨[], rfl, fun last hlast => absurd hlast (by simp [Machine.start, room, World.init])⟩
  intro c l w evs _ ih _ hs k
  obtain ⟨done, htally⟩ := ih k
  -- a step of a task that keeps the frame it has in hand
  have keeps {u : World} {id : Uuid} {before after : Phase}
      (hat : c.state.tasks id = some before) (hu : u.tasks = c.state.tasks)
      (hsame : after.unchecked = before.unchecked) :
      (u.goto id after).unchecked k = c.state.unchecked k :=
    unchecked_goto hu (hsame.trans (World.unchecked_of_at hat).symm) k
  cases hs with
  | early l id phase hbefore hafter =>
    refine ⟨done, htally.rests rfl (unchecked_goto rfl ?_ k) fun _ h => h⟩
    rw [unchecked_of_unregistered hbefore]
    rcases hafter with hafter | ⟨result, rfl⟩
    · cases phase with
      | live _ _ => exact hafter.elim
      | _ => rfl
    · rfl
  | register id username hat => exact ⟨done, htally.registers (keeps hat rfl rfl) rfl⟩
  | incoming id username f hat => exact ⟨done, htally.takesIn hat⟩
  | rejects id username f e sessions hat hcheck =>
    exact htally.checks hat (by rw [hcheck]) rfl rfl
  | accepts id username f out sessions hat hcheck =>
    exact htally.checks hat (by rw [hcheck]) (unchecked_afterCheck out username) rfl
  -- in the other steps no session gets another counter
  | touch id username f hat =>
    refine ⟨done, htally.rests rfl (keeps hat rfl rfl) fun last hlast => ?_⟩
    rw [World.goto_sessions, UserSessionStore.counterOf_touch] at hlast
    exact hlast
  | cleanup id username result hat =>
    exact ⟨done, htally.rests rfl (keeps hat rfl rfl)
      fun last hlast => (UserSessionStore.of_counterOf_remove hlast).2⟩
  | sweep =>
    exact ⟨done, htally.rests rfl rfl
      fun last hlast => (UserSessionStore.of_counterOf_removes hlast).2⟩
  | snapshot _ _ hat | welcomed _ _ _ hat | unwelcomed _ _ _ _ hat | stops _ _ _ _ hat
  | undelivered _ _ _ _ _ hat | store _ _ _ hat | collect _ _ _ _ hat
  | enqueues _ _ _ _ _ _ _ hat | refused _ _ _ _ _ _ hat | evict _ _ _ _ hat
  | leave _ _ _ hat =>
    exact ⟨done, htally.rests rfl (keeps hat rfl rfl) fun _ h => h⟩
  | delivers | elapse | scan => exact ⟨done, htally.rests rfl rfl fun _ h => h⟩

end

/-! ## The checks on an honest message -/

/-- The next message of a session meets two checks that can fail: its size and the rate. -/
theorem checkFrame_of_above {sessions : UserSessionStore} {now : Instant} {id : Uuid}
    {username : String} {ad : MessageAd} {ct : List UInt8} {last : UInt64}
    (hfrom : ad.fromId = id) (hname : ad.username = username)
    (hlast : sessions.counterOf id = some last) (hlt : last < ad.counter) :
    (∀ e, (checkFrame sessions now id username (.message ad ct)).1 = .error e →
        e = .protocol "message rate exceeded")
      ↔ ct.length ≤ MAX_CIPHERTEXT_LEN := by
  rw [checkFrame, if_neg (not_not.mpr hfrom), if_neg (not_not.mpr hname)]
  constructor
  · intro h
    by_contra hlong
    rw [if_pos (Nat.lt_of_not_le hlong)] at h
    exact absurd (h _ rfl) (by decide)
  · intro hshort e he
    rw [if_neg (Nat.not_lt.mpr hshort)] at he
    have hadvance := (sessions.tryAdvanceCounter_fst id ad.counter).mpr ⟨last, hlast, hlt⟩
    split at he
    · rename_i s₁ hfalse
      rw [hfalse] at hadvance
      cases hadvance
    · split at he
      · exact (Except.error.inj he).symm
      · cases he

/-- The sealed body is not too long for the server. -/
def Fits (body : String) : Prop := NONCE_LEN + strLen body + TAG_LEN ≤ MAX_CIPHERTEXT_LEN

instance (body : String) : Decidable (Fits body) := by
  unfold Fits
  infer_instance

/-- The limit on the body is the limit on the ciphertext, less the nonce and the tag. -/
theorem fits_iff {aead : Aead} (htags : aead.Tags) {random : Option Nonce} {roomKey : Key}
    {body : String} {ad : MessageAd} {ct : List UInt8}
    (h : roomSeal aead random roomKey (strBytes body) ad = .ok ct) :
    Fits body ↔ ct.length ≤ MAX_CIPHERTEXT_LEN := by
  rw [htags.length_seal h]
  rfl

open Client in
/-- **What an honest client types is rejected for its length only.** A client runs after its
Welcome, on any keys, frames and ticks, and composes fewer than 2^64-1 messages; the session
with its user id and name has been sent what it produced, in order and any part of it. Then
every message whose body fits can be sealed for the transport, and the checks on a message can
fail on nothing but the rate exactly if its body fits. -/
theorem typed_admitted {c : Config World Event} (h : room.Reach free c) {id : Uuid}
    {username : String} {pc : Pc} (hat : c.state.tasks id = some (.live username pc))
    (hpresent : c.state.sessions.Present id) (aead : Aead) (htags : aead.Tags) (roomKey : Key)
    (roomName : String) (history : List Received) (inputs : List (Clock × Input))
    (hfew : (composed aead roomKey (welcomed aead roomKey username id roomName history)
      inputs).length < 2 ^ 64 - 1)
    (hsent : incomingFrom id c.past
      <+: produced aead roomKey (welcomed aead roomKey username id roomName history) inputs)
    (body : String) (ad : MessageAd) (ct : List UInt8)
    (htyped : .message body ad (.ok ct)
      ∈ typed aead roomKey (welcomed aead roomKey username id roomName history) inputs) :
    (Fits body → transportSealLen (encodeClientFrame (.message ad ct)) ≤ NOISE_BUF)
      ∧ (pc = .checking (.message ad ct) →
        ((∀ e, (checkFrame c.state.sessions c.state.now id username (.message ad ct)).1
              = .error e → e = .protocol "message rate exceeded")
          ↔ Fits body)) := by
  have hauthor : (welcomed aead roomKey username id roomName history).author = ⟨id, username, 1⟩ :=
    replayHistory_author aead roomKey _ history
  generalize welcomed aead roomKey username id roomName history = s₀ at *
  have hwrites := composed_writes aead roomKey s₀ inputs
  rw [hauthor] at hwrites
  obtain ⟨random, hseal⟩ := typed_sealed aead roomKey htyped
  have hmem : ad ∈ composed aead roomKey s₀ inputs :=
    List.mem_filterMap.mpr ⟨_, htyped, rfl⟩
  obtain ⟨hfrom, hname⟩ := hwrites.signed ad hmem
  refine ⟨fun hfits => ?_, ?_⟩
  · have hvalid : ValidName username := (standing h id _ hat).1.1
    have hlen : (encodeClientFrame (.message ad ct)).length ≤ 4170 := by
      apply length_encodeClientMessage_le
      · rw [hname]
        exact hvalid.short
      · exact (fits_iff htags hseal).mp hfits
    have hmax : 4170 + AEAD_TAG_LEN ≤ NOISE_BUF := by decide
    unfold transportSealLen
    omega
  rintro rfl
  -- the frames before this one are checked, and the counter of the session is one of theirs
  obtain ⟨done, htally⟩ := tallied h id
  have hincoming : incomingFrom id c.past = done ++ [ClientFrame.message ad ct] := by
    rw [htally.incoming, World.unchecked_of_at hat]
    rfl
  replace hfew : (1 : UInt64).toNat + (composed aead roomKey s₀ inputs).length < 2 ^ 64 := by
    have hone : (1 : UInt64).toNat = 1 := by decide
    omega
  have hordered : ((done ++ [ClientFrame.message ad ct]).filterMap ClientFrame.ad?).Pairwise
      fun ad ad' => ad.counter.toNat < ad'.counter.toNat := by
    refine (hwrites.increasing hfew).sublist ((List.Sublist.filterMap _ ?_).trans
      (produced_sublist aead roomKey s₀ inputs))
    rw [← hincoming]
    exact hsent.sublist
  obtain ⟨last, hlast⟩ := Option.ne_none_iff_exists'.mp
    ((UserSessionStore.present_iff ..).mp hpresent)
  have hlt : last < ad.counter := by
    apply UInt64.lt_iff_toNat_lt.mpr
    rcases htally.counter last hlast with rfl | ⟨ad', ct', hmem', rfl⟩
    · exact hwrites.above hfew ad hmem
    · rw [List.filterMap_append] at hordered
      refine (List.pairwise_append.mp hordered).2.2 ad' ?_ ad (List.mem_singleton_self ad)
      exact List.mem_filterMap.mpr ⟨_, hmem', rfl⟩
  rw [checkFrame_of_above hfrom hname hlast hlt, fits_iff htags hseal]

/-! ## A short line and a long one -/

/-- A frame comes in, and is touched. -/
theorem checking_of_pumping {c : Config World Event} (h : room.Reach free c) {id : Uuid}
    {username : String} (hat : c.state.tasks id = some (.live username .pumping))
    (hpresent : c.state.sessions.Present id) (f : ClientFrame) :
    ∃ c', room.Reach free c' ∧ c'.state.tasks id = some (.live username (.checking f))
      ∧ c'.state.sessions.Present id
      ∧ incomingFrom id c'.past = incomingFrom id c.past ++ [f] := by
  let w := c.state.goto id (.live username (.touching f))
  have hincoming : room.step c.state (.act id (.incoming (some (.ok f))))
      = some (w, [.incoming id f]) := by
    simp [room, step, hat, actStep, liveStep, w]
  have htouch : room.step w (.act id .touch)
      = some ({ w with sessions := w.sessions.touch w.now id }.goto id
          (.live username (.checking f)), []) := by
    simp [room, step, w, actStep, liveStep]
  have h₁ : room.Reach free ⟨c.past ++ [.incoming id f], w⟩ :=
    h.tail (.mk _ w _ trivial hincoming)
  refine ⟨_, h₁.tail (.mk _ _ _ trivial htouch), ?_, ?_, ?_⟩
  · exact Function.update_self ..
  · exact (UserSessionStore.present_touch ..).mpr hpresent
  · rw [List.append_nil, incomingFrom_append, incomingFrom_self]

/-- The name of a session that waits in `pump`. -/
def World.pumping? (w : World) (id : Uuid) : Option String :=
  match w.tasks id with
  | some (.live username .pumping) => some username
  | _ => none

/-- The test finds a task in `pump`. -/
theorem World.pumping?_eq_some {w : World} {id : Uuid} {username : String}
    (h : w.pumping? id = some username) : w.tasks id = some (.live username .pumping) := by
  unfold pumping? at h
  split at h
  · rename_i hat
    cases h
    exact hat
  · cases h

namespace Cast

/-- `n` times the letter a. -/
def letters : Nat → String
  | 0 => ""
  | n + 1 => (letters n).push 'a'

def press (code : KeyCode) : Clock × Client.Input :=
  (clock, .key ⟨code, false, .press⟩ (some (List.Vector.replicate NONCE_LEN 0)) (.ok ()))

/-- The letters are typed and submitted. -/
def types (n : Nat) : List (Clock × Client.Input) :=
  List.replicate n (press (.char 'a')) ++ [press .enter]

/-- Alice's client after an empty Welcome. -/
def client : UiState := Client.welcomed Aead.tagging roomKey "alice" alice "main" []

theorem letters_toList (n : Nat) : (letters n).toList = List.replicate n 'a' := by
  induction n with
  | zero => rfl
  | succ n ih => rw [letters, String.toList_push, ih, List.replicate_succ']

/-- A line of letters has as many bytes as letters. -/
theorem strLen_letters (n : Nat) : strLen (letters n) = n := by
  have hsize (s : String) : strLen s = s.utf8ByteSize := by
    rw [strLen, strBytes, String.toUTF8_eq_toByteArray, ← String.size_toByteArray]
    rfl
  rw [hsize]
  induction n with
  | zero => rfl
  | succ n ih =>
    rw [letters, String.utf8ByteSize_push, ih]
    rfl

/-- A line of letters is no command, and nothing of it is trimmed, so it is a message. -/
theorem parseLine_letters (n : Nat) :
    parseLine (letters (n + 1)) = .message (letters (n + 1)) false := by
  have hlist : (letters (n + 1)).toList = 'a' :: List.replicate n 'a' := letters_toList (n + 1)
  have hwhole : trimEnd (letters (n + 1)) = letters (n + 1) := by
    have hkeep : (letters (n + 1)).toList.rdropWhile isWhitespace = (letters (n + 1)).toList := by
      rw [List.rdropWhile_eq_self_iff, letters_toList]
      intro hne
      rw [List.getLast_replicate]
      decide
    rw [trimEnd, hkeep, String.ofList_toList]
  have hother (s : String) (c : Char) (cs : List Char) (hs : s.toList = c :: cs) (hc : c ≠ 'a') :
      letters (n + 1) ≠ s := by
    intro heq
    rw [← heq, hlist] at hs
    exact hc (List.cons.inj hs).1.symm
  have hstrip (s : String) (c : Char) (cs : List Char) (hs : s.toList = c :: cs) (hc : c ≠ 'a') :
      stripPrefix (letters (n + 1)) s = none := by
    apply if_neg
    rw [hs, hlist, List.isPrefixOf, Bool.and_eq_true, beq_iff_eq]
    exact fun h => hc h.1
  simp only [parseLine, hwhole]
  rw [if_neg, if_neg, if_neg, hstrip "/s " '/' _ rfl (by decide),
    hstrip "/secret " '/' _ rfl (by decide)]
  · rfl
  · rintro (h | h)
    · exact hother "/q" '/' _ rfl (by decide) h
    · exact hother "/quit" '/' _ rfl (by decide) h
  · rintro (h | h)
    · exact hother "/c" '/' _ rfl (by decide) h
    · exact hother "/clear" '/' _ rfl (by decide) h
  · rw [String.isEmpty_iff]
    intro h
    rw [h] at hlist
    cases hlist

/-- Her next message, and `n` letters under it. -/
def ad : MessageAd := client.nextAd clock false

def sealedLetters (n : Nat) : List UInt8 :=
  List.replicate NONCE_LEN 0 ++ (strBytes (letters n) ++ Aead.tag)

open Client in
/-- One letter after the other goes to the end of the line. -/
theorem typed_letters (s : UiState) (k n : Nat) (rest : List (Clock × Input)) :
    typed Aead.tagging roomKey { s with input := letters k }
        (List.replicate n (press (.char 'a')) ++ rest)
      = typed Aead.tagging roomKey { s with input := letters (k + n) } rest := by
  induction n generalizing k with
  | zero => rfl
  | succ n ih =>
    have hturn : turn Aead.tagging roomKey { s with input := letters k } (press (.char 'a')).1
        (press (.char 'a')).2 = (none, { s with input := letters (k + 1) }) := rfl
    have hnone : typedIn Aead.tagging roomKey { s with input := letters k }
        (press (.char 'a')).1 (press (.char 'a')).2 = [] := rfl
    rw [List.replicate_succ, List.cons_append, typed, along, hnone, List.nil_append, hturn,
      show k + (n + 1) = (k + 1) + n by omega]
    exact ih (k + 1)

open Client in
/-- So the client composes exactly one message, with the whole line as its body. -/
theorem typed_types (n : Nat) : typed Aead.tagging roomKey client (types (n + 1))
    = [.message (letters (n + 1)) ad (.ok (sealedLetters (n + 1)))] := by
  have hstart : client = { client with input := letters 0 } := rfl
  rw [types, hstart, typed_letters, Nat.zero_add]
  have hline : typedIn Aead.tagging roomKey { client with input := letters (n + 1) }
      (press .enter).1 (press .enter).2
        = [.message (letters (n + 1)) ad (.ok (sealedLetters (n + 1)))] := by
    rw [press, typedIn, keyLog, if_pos ⟨rfl, rfl⟩, enterLog]
    simp only [parseLine_letters]
    rfl
  rw [typed, along, hline]
  split <;> rfl

open Client in
/-- The sealed line is all that the client hands to the transport. -/
theorem produced_types (n : Nat) : produced Aead.tagging roomKey client (types (n + 1))
    = [.message ad (sealedLetters (n + 1))] := by
  rw [produced_eq, typed_types]
  rfl

/-- Alice's message comes in on a connection that has just been welcomed. -/
theorem alice_checking (f : ClientFrame) :
    ∃ c, room.Reach free c ∧ c.state.tasks alice = some (.live "alice" (.checking f))
      ∧ c.state.sessions.Present alice ∧ incomingFrom alice c.past = [f] := by
  obtain ⟨c, hc, hat⟩ := Machine.exec_reach_free (M := room)
    (fun c => (c.state.pumping? alice, c.state.sessions.counterOf alice, incomingFrom alice c.past))
    (some "alice", some 0, []) (arrives alice "alice" ++ isWelcomed alice) (by decide)
  obtain ⟨hpumping, hat⟩ := Prod.mk.inj hat
  obtain ⟨hcounter, hnothing⟩ := Prod.mk.inj hat
  have hpresent : c.state.sessions.Present alice := by
    rw [UserSessionStore.present_iff, hcounter]
    exact Option.some_ne_none 0
  obtain ⟨c', hc', hat', hpresent', hincoming⟩ :=
    checking_of_pumping hc (World.pumping?_eq_some hpumping) hpresent f
  exact ⟨c', hc', hat', hpresent', by rw [hincoming, hnothing]; rfl⟩

end Cast

open Cast Client in
/-- A line of one letter is sent and checked. -/
theorem typed_admitted_letter :
    ∃ c, room.Reach free c
      ∧ c.state.tasks alice = some (.live "alice" (.checking (.message ad (sealedLetters 1))))
      ∧ ∀ e, (checkFrame c.state.sessions c.state.now alice "alice"
          (.message ad (sealedLetters 1))).1 = .error e →
        e = .protocol "message rate exceeded" := by
  obtain ⟨c, hc, hat, hpresent, hincoming⟩ := alice_checking (.message ad (sealedLetters 1))
  have hall := typed_admitted hc hat hpresent Aead.tagging Aead.tagging_tags roomKey "main" []
    (types 1) (by decide) (by rw [hincoming]; exact (produced_types 0).symm ▸ List.prefix_rfl)
    (letters 1) ad (sealedLetters 1) (by
      have htyped := typed_types 0
      rw [client] at htyped
      rw [htyped]
      exact List.mem_singleton_self _)
  exact ⟨c, hc, hat, (hall.2 rfl).mpr (by decide)⟩

open Cast Client in
/-- A line of 4057 letters makes the server drop the connection. -/
theorem long_line_dropped :
    ¬ ∀ (c : Config World Event) (id : Uuid) (username : String) (pc : Pc) (aead : Aead)
        (roomKey : Key) (roomName : String) (history : List Received)
        (inputs : List (Clock × Input)), room.Reach free c →
        c.state.tasks id = some (.live username pc) → c.state.sessions.Present id →
        aead.Correct → aead.Tags →
        (composed aead roomKey (welcomed aead roomKey username id roomName history)
          inputs).length < 2 ^ 64 - 1 →
        incomingFrom id c.past
          <+: produced aead roomKey (welcomed aead roomKey username id roomName history) inputs →
        ∀ ad ct, .message ad ct
            ∈ produced aead roomKey (welcomed aead roomKey username id roomName history) inputs →
          transportSealLen (encodeClientFrame (.message ad ct)) ≤ NOISE_BUF
            ∧ (pc = .checking (.message ad ct) →
              ∀ e, (checkFrame c.state.sessions c.state.now id username (.message ad ct)).1
                  = .error e →
                e = .protocol "message rate exceeded" ∨ e = .protocol "clear cooldown active") := by
  intro hall
  obtain ⟨c, hc, hat, hpresent, hincoming⟩ := alice_checking (.message ad (sealedLetters 4057))
  have hproduced := produced_types 4056
  have hcomposed : composed Aead.tagging roomKey client (types 4057) = [ad] := by
    rw [composed, typed_types]
    rfl
  have hmem : ClientFrame.message ad (sealedLetters 4057)
      ∈ produced Aead.tagging roomKey client (types 4057) := by
    rw [hproduced]
    exact List.mem_singleton_self _
  -- one letter more than fits
  have hpasses := (hall c alice "alice" _ Aead.tagging roomKey "main" [] (types 4057) hc hat
    hpresent Aead.tagging_correct Aead.tagging_tags
    (by show (composed Aead.tagging roomKey client (types 4057)).length < _
        rw [hcomposed]
        decide)
    (by rw [hincoming]; exact hproduced.symm ▸ List.prefix_rfl) ad (sealedLetters 4057) hmem).2 rfl
  have hlong : (sealedLetters 4057).length > MAX_CIPHERTEXT_LEN := by
    have hbody : (strBytes (letters 4057)).length = 4057 := strLen_letters 4057
    rw [sealedLetters, List.length_append, List.length_append, hbody, List.length_replicate]
    decide
  have hcheck : (checkFrame c.state.sessions c.state.now alice "alice"
      (.message ad (sealedLetters 4057))).1
        = .error (.protocol "ciphertext exceeds MAX_CIPHERTEXT_LEN") := by
    have hfrom : ad.fromId = alice := rfl
    have hname : ad.username = "alice" := rfl
    rw [checkFrame, if_neg (not_not.mpr hfrom), if_neg (not_not.mpr hname), if_pos hlong]
  rcases hpasses _ hcheck with h | h
  · exact absurd h (by decide)
  · exact absurd h (by decide)

end ChatRs

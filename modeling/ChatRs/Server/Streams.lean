import ChatRs.Server.Flow

/-!
# Streams, sender by sender

The invariants of the flights over whole runs. A handler works on one frame at a time, so for
each sender the frames that were accepted, stored and enqueued advance in step, and what is
ahead of one stream in another is the frame in flight. Between different senders nothing is
promised here.
-/

namespace ChatRs

open Machine (Config Guard)

/-! ## The frame in flight

It changes only when a frame is accepted and when its broadcast ends.
-/

/-- Moving a flight on without touching its frame. -/
theorem frames_update {φ : Uuid → Flight} {id : Uuid} {a b : Flight} (hat : φ id = a)
    (h : b.frames = a.frames) (k : Uuid) : (Function.update φ id b k).frames = (φ k).frames := by
  rcases eq_or_ne k id with rfl | hne
  · rw [Function.update_self, h, hat]
  · rw [Function.update_of_ne hne]

/-- What a step does to the frames in flight: nothing, a new frame that was accepted, or the end of
a broadcast. -/
theorem Flow.frames {w w' : World} {evs : List Event} (h : Flow w w' evs) :
    ((∀ k, (w'.flight k).frames = (w.flight k).frames) ∧ acceptedIn evs = [])
      ∨ (∃ id f, f.origin = some id ∧ acceptedIn evs = [f] ∧
          w'.flight = Function.update w.flight id (.start f))
      ∨ ∃ id, acceptedIn evs = [] ∧ w'.flight = Function.update w.flight id .idle := by
  cases h with
  | quiet _ hflight haccepted => exact .inl ⟨fun k => by rw [hflight], haccepted⟩
  | accepts id f hat horigin hflight => exact .inr (.inl ⟨id, f, horigin, rfl, hflight⟩)
  | stores id f hat hflight =>
    exact .inl ⟨fun k => by rw [hflight, frames_update (b := .collecting f) hat rfl], rfl⟩
  | collects id f order hat hnodup hflight =>
    exact .inl ⟨fun k => by rw [hflight, frames_update (b := .sending f order) hat rfl], rfl⟩
  | enqueues _ f _ rest hat hflight | refused _ f _ rest hat hflight =>
    exact .inl ⟨fun k => by rw [hflight, frames_update (b := .sending f rest) hat rfl], rfl⟩
  | lands id f hat hflight => exact .inr (.inr ⟨id, rfl, hflight⟩)

section

variable {G : Guard World Label Event} {c : Config World Event}

/-- The invariant rule over the steps of the flights. -/
@[elab_as_elim] theorem Reach.flow_invariant {P : Config World Event → Prop} (hinit : P room.start)
    (hstep : ∀ c w evs, room.Reach G c → P c → Flow c.state w evs → P ⟨c.past ++ evs, w⟩)
    (h : room.Reach G c) : P c :=
  Reach.room_invariant hinit
    (fun c _ w evs hreach hP _ hs => hstep c w evs hreach hP hs.flow) h

/-- **The frame in flight is the last one accepted** of its session. -/
theorem flight_last (h : room.Reach G c) :
    ∀ id, (c.state.flight id).frames <:+ byOrigin id (acceptedIn c.past) := by
  refine Reach.flow_invariant ?_ ?_ h
  · exact fun _ => List.nil_suffix
  intro c w evs _ ih hflow k
  show (w.flight k).frames <:+ byOrigin k (acceptedIn (c.past ++ evs))
  rw [acceptedIn_append, byOrigin_append]
  obtain ⟨hframes, haccepted⟩ | ⟨id, f, horigin, haccepted, hflight⟩
    | ⟨id, haccepted, hflight⟩ := hflow.frames
  · rw [hframes, haccepted, byOrigin_nil, List.append_nil]
    exact ih k
  · rw [hflight, haccepted]
    rcases eq_or_ne k id with rfl | hne
    · rw [Function.update_self, Flight.frames_start, byOrigin_self _ f horigin]
      exact List.suffix_append _ _
    · rw [Function.update_of_ne hne, byOrigin_other f horigin hne, List.append_nil]
      exact ih k
  · rw [hflight, haccepted, byOrigin_nil, List.append_nil]
    rcases eq_or_ne k id with rfl | hne
    · rw [Function.update_self]
      exact List.nil_suffix
    · rw [Function.update_of_ne hne]
      exact ih k

theorem mem_byOrigin {id : Uuid} {f : ServerFrame} {fs : List ServerFrame} :
    f ∈ byOrigin id fs ↔ f ∈ fs ∧ f.origin = some id := by
  rw [byOrigin, List.mem_filter, decide_eq_true_eq]

/-- A frame in flight was accepted, from the session that handles it. -/
theorem of_flight (h : room.Reach G c) {id : Uuid} {f : ServerFrame} {flight : Flight}
    (hat : c.state.flight id = flight) (hf : flight.frames = [f]) :
    f ∈ acceptedIn c.past ∧ f.origin = some id := by
  have hsuffix := flight_last h id
  rw [hat, hf] at hsuffix
  exact mem_byOrigin.mp (hsuffix.subset (List.mem_singleton_self f))

/-! ## From a sender to a peer -/

/-- Whatever became of the offer to the first peer, no peer has more left to be offered. -/
theorem Flight.pending_tail (q peer : Uuid) (f : ServerFrame) (rest : List Uuid) :
    ((sending f rest).pending q).Sublist ((sending f (peer :: rest)).pending q) := by
  show (if q ∈ rest then [f] else []).Sublist (if q ∈ peer :: rest then [f] else [])
  split
  · rename_i hmem
    rw [if_pos (List.mem_cons_of_mem _ hmem)]
  · exact List.nil_sublist _

/-- Nor is there more to be offered once the snapshot of the peers is taken. -/
theorem Flight.pending_snapshot (q : Uuid) (f : ServerFrame) (order : List Uuid) :
    ((sending f order).pending q).Sublist ((collecting f).pending q) := by
  show (if q ∈ order then [f] else []).Sublist [f]
  split
  · exact List.Sublist.refl _
  · exact List.nil_sublist _

/-- No peer is on the list of a broadcast twice: `collect` takes each sender once. -/
theorem rest_nodup (h : room.Reach G c) :
    ∀ id f rest, c.state.flight id = .sending f rest → rest.Nodup := by
  refine Reach.flow_invariant ?_ ?_ h
  · intro id f rest hat
    cases hat
  intro c w evs _ ih hflow k g rest' hat'
  have step {id : Uuid} {b : Flight} (hflight : w.flight = Function.update c.state.flight id b)
      (hb : ∀ g rest, b = .sending g rest → rest.Nodup) : rest'.Nodup := by
    simp only [hflight] at hat'
    rcases eq_or_ne k id with rfl | hne
    · rw [Function.update_self] at hat'
      exact hb g rest' hat'
    · rw [Function.update_of_ne hne] at hat'
      exact ih k g rest' hat'
  cases hflow with
  | quiet _ hflight =>
    simp only [hflight] at hat'
    exact ih k g rest' hat'
  | accepts id f hat horigin hflight =>
    refine step hflight fun g rest heq => ?_
    unfold Flight.start at heq
    split at heq <;> cases heq
  | stores _ _ _ hflight | lands _ _ _ hflight => exact step hflight nofun
  | collects id f order hat hnodup hflight =>
    refine step hflight fun g rest heq => ?_
    cases heq
    exact hnodup
  | enqueues _ _ _ _ hat hflight | refused _ _ _ _ hat hflight =>
    refine step hflight fun g rest heq => ?_
    cases heq
    exact (List.nodup_cons.mp (ih _ _ _ hat)).2

/-- What is still to be offered to a peer after a step was so before, or is accepted with the
step. -/
theorem Flow.pending {w w' : World} {evs : List Event} (h : Flow w w' evs) {q k : Uuid}
    {f : ServerFrame} (hf : f ∈ (w'.flight k).pending q) :
    f ∈ (w.flight k).pending q ∨ f ∈ acceptedIn evs := by
  -- a flight that goes on
  have shrinks {id : Uuid} {a b : Flight} (hat : w.flight id = a)
      (hflight : w'.flight = Function.update w.flight id b)
      (hsub : (b.pending q).Sublist (a.pending q)) : f ∈ (w.flight k).pending q := by
    rw [hflight] at hf
    rcases eq_or_ne k id with rfl | hne
    · rw [Function.update_self] at hf
      rw [hat]
      exact hsub.subset hf
    · rw [Function.update_of_ne hne] at hf
      exact hf
  cases h with
  | quiet _ hflight => exact .inl (hflight ▸ hf)
  | accepts id g hat horigin hflight =>
    rw [hflight] at hf
    rcases eq_or_ne k id with rfl | hne
    · rw [Function.update_self, Flight.pending_start] at hf
      exact .inr hf
    · rw [Function.update_of_ne hne] at hf
      exact .inl hf
  | stores id g hat hflight => exact .inl (shrinks hat hflight (List.Sublist.refl _))
  | collects id g order hat hnodup hflight =>
    exact .inl (shrinks hat hflight (Flight.pending_snapshot q g order))
  | enqueues _ _ _ _ hat hflight | refused _ _ _ _ hat hflight =>
    exact .inl (shrinks hat hflight (Flight.pending_tail ..))
  | lands id g hat hflight => exact .inl (shrinks hat hflight (List.nil_sublist _))

/-- What a step enqueues was still to be offered. -/
theorem Flow.enqueued {w w' : World} {evs : List Event} (h : Flow w w' evs) {q : Uuid}
    {f : ServerFrame} (hf : f ∈ enqueuedTo q evs) :
    ∃ k, (w.flight k).frames = [f] ∧ f ∈ (w.flight k).pending q := by
  cases h with
  | quiet _ _ _ _ henqueued =>
    rw [henqueued] at hf
    cases hf
  | enqueues id g peer rest hat hflight =>
    rcases eq_or_ne q peer with rfl | hne
    · rw [enqueuedTo_self, List.mem_singleton] at hf
      refine ⟨id, by rw [hat, hf]; rfl, ?_⟩
      rw [hat, hf]
      show g ∈ if q ∈ q :: rest then [g] else []
      rw [if_pos List.mem_cons_self]
      exact List.mem_singleton_self g
    · rw [enqueuedTo_other g hne] at hf
      cases hf
  | accepts | stores | collects | refused | lands => cases hf

/-- **What a peer is sent of a sender, with what it is still to be offered, is part of what was
accepted of that sender**, in the same order and nothing twice. -/
theorem stream_to_peer (h : room.Reach G c) :
    ∀ id peer, (byOrigin id (enqueuedTo peer c.past) ++ (c.state.flight id).pending peer).Sublist
      (byOrigin id (acceptedIn c.past)) := by
  refine Reach.flow_invariant ?_ ?_ h
  · exact fun _ _ => List.Sublist.refl _
  intro c w evs hreach ih hflow k q
  show (byOrigin k (enqueuedTo q (c.past ++ evs)) ++ (w.flight k).pending q).Sublist
    (byOrigin k (acceptedIn (c.past ++ evs)))
  rw [enqueuedTo_append, acceptedIn_append, byOrigin_append, byOrigin_append]
  -- nothing is accepted or enqueued, and there is no more left to be offered than before
  have shrinks {id : Uuid} {a b : Flight} (hat : c.state.flight id = a)
      (hflight : w.flight = Function.update c.state.flight id b)
      (hsub : (b.pending q).Sublist (a.pending q)) (haccepted : acceptedIn evs = [])
      (henqueued : enqueuedTo q evs = []) :
      (byOrigin k (enqueuedTo q c.past) ++ byOrigin k (enqueuedTo q evs)
          ++ (w.flight k).pending q).Sublist
        (byOrigin k (acceptedIn c.past) ++ byOrigin k (acceptedIn evs)) := by
    rw [haccepted, henqueued, byOrigin_nil, List.append_nil, List.append_nil, hflight]
    refine List.Sublist.trans (List.Sublist.append_left ?_ _) (ih k q)
    rcases eq_or_ne k id with rfl | hne
    · rw [Function.update_self, hat]
      exact hsub
    · rw [Function.update_of_ne hne]
  cases hflow with
  | quiet _ hflight haccepted _ henqueued =>
    rw [haccepted, henqueued, byOrigin_nil, List.append_nil, List.append_nil, hflight]
    exact ih k q
  | accepts id f hat horigin hflight =>
    rw [enqueuedTo_accepted, acceptedIn_accepted, byOrigin_nil, List.append_nil, hflight]
    rcases eq_or_ne k id with rfl | hne
    · -- the task was at rest, so nothing of its sender was left before the new frame
      have hidle := ih k q
      rw [hat, Flight.pending_idle, List.append_nil] at hidle
      rw [Function.update_self, Flight.pending_start, byOrigin_self _ f horigin]
      exact hidle.append_right [f]
    · rw [Function.update_of_ne hne, byOrigin_other f horigin hne, List.append_nil]
      exact ih k q
  -- what follows takes a peer from the list, or the list as a whole
  | stores id f hat hflight => exact shrinks hat hflight (List.Sublist.refl _) rfl rfl
  | collects id f order hat hnodup hflight =>
    exact shrinks hat hflight (Flight.pending_snapshot q f order) rfl rfl
  | enqueues id f peer rest hat hflight =>
    rcases eq_or_ne q peer with rfl | hpeer
    · rcases eq_or_ne k id with rfl | hne
      · -- the frame moves from what is left to what was sent
        have horigin := (of_flight hreach hat rfl).2
        have hnodup := (List.nodup_cons.mp (rest_nodup hreach _ _ _ hat)).1
        have hbefore := ih k q
        rw [hat, show (Flight.sending f (q :: rest)).pending q = [f] from
          if_pos List.mem_cons_self] at hbefore
        rw [enqueuedTo_self, byOrigin_self _ f horigin, hflight, Function.update_self,
          show (Flight.sending f rest).pending q = [] from if_neg hnodup, List.append_nil,
          acceptedIn_enqueued, byOrigin_nil, List.append_nil]
        exact hbefore
      · have horigin := (of_flight hreach hat rfl).2
        rw [enqueuedTo_self, byOrigin_other f horigin hne, hflight, Function.update_of_ne hne,
          acceptedIn_enqueued, byOrigin_nil, List.append_nil,
          List.append_nil]
        exact ih k q
    · exact shrinks hat hflight (Flight.pending_tail ..) rfl (enqueuedTo_other f hpeer)
  | refused id f peer rest hat hflight =>
    exact shrinks hat hflight (Flight.pending_tail ..) rfl rfl
  | lands id f hat hflight => exact shrinks hat hflight (List.nil_sublist _) rfl rfl

/-! ## From a sender to the history -/

/-- **What is stored of a sender, with what is about to be, is all that was accepted of it**
except the ephemeral messages. -/
theorem stream_to_history (h : room.Reach G c) :
    ∀ id, byOrigin id (storedIn c.past) ++ (c.state.flight id).toStore
      = (byOrigin id (acceptedIn c.past)).filter ServerFrame.lasting := by
  refine Reach.flow_invariant ?_ ?_ h
  · exact fun _ => rfl
  intro c w evs hreach ih hflow k
  show byOrigin k (storedIn (c.past ++ evs)) ++ (w.flight k).toStore
    = (byOrigin k (acceptedIn (c.past ++ evs))).filter ServerFrame.lasting
  rw [storedIn_append, acceptedIn_append, byOrigin_append, byOrigin_append]
  -- nothing is accepted or stored, and what is left to be stored stays
  have stays {id : Uuid} {a b : Flight} (hat : c.state.flight id = a)
      (hflight : w.flight = Function.update c.state.flight id b) (hsame : b.toStore = a.toStore)
      (haccepted : acceptedIn evs = []) (hstored : storedIn evs = []) :
      byOrigin k (storedIn c.past) ++ byOrigin k (storedIn evs) ++ (w.flight k).toStore
        = (byOrigin k (acceptedIn c.past) ++ byOrigin k (acceptedIn evs)).filter
            ServerFrame.lasting := by
    rw [haccepted, hstored, byOrigin_nil, List.append_nil, List.append_nil, hflight, ← ih k]
    rcases eq_or_ne k id with rfl | hne
    · rw [Function.update_self, hat, hsame]
    · rw [Function.update_of_ne hne]
  cases hflow with
  | quiet _ hflight haccepted hstored =>
    rw [haccepted, hstored, byOrigin_nil, List.append_nil, List.append_nil, hflight]
    exact ih k
  | accepts id f hat horigin hflight =>
    rw [storedIn_accepted, acceptedIn_accepted, byOrigin_nil, List.append_nil, hflight,
      List.filter_append, ← ih k]
    rcases eq_or_ne k id with rfl | hne
    · rw [Function.update_self, Flight.toStore_start, byOrigin_self _ f horigin, hat,
        Flight.toStore_idle, List.append_nil]
    · rw [Function.update_of_ne hne, byOrigin_other f horigin hne, List.filter_nil,
        List.append_nil]
  | stores id f hat hflight =>
    rw [storedIn_stored, acceptedIn_stored, byOrigin_nil, List.append_nil, hflight, ← ih k]
    have horigin := (of_flight hreach hat rfl).2
    rcases eq_or_ne k id with rfl | hne
    · rw [Function.update_self, byOrigin_self _ f horigin, hat]
      exact List.append_nil _
    · rw [Function.update_of_ne hne, byOrigin_other f horigin hne, List.append_nil]
  | collects _ _ _ hat _ hflight | enqueues _ _ _ _ hat hflight | refused _ _ _ _ hat hflight
  | lands _ _ hat hflight => exact stays hat hflight rfl rfl rfl

/-! ## Membership

Whatever is stored or enqueued was accepted, and whatever is accepted comes from a session.
-/

/-- What was accepted has a sender. -/
theorem accepted_origin (h : room.Reach G c) :
    ∀ f ∈ acceptedIn c.past, ∃ id, f.origin = some id := by
  refine Reach.flow_invariant ?_ ?_ h
  · intro f hf
    cases hf
  intro c w evs _ ih hflow f hf
  replace hf : f ∈ acceptedIn c.past ++ acceptedIn evs := acceptedIn_append .. ▸ hf
  rcases List.mem_append.mp hf with hpast | hnew
  · exact ih f hpast
  obtain ⟨_, hnone⟩ | ⟨id, g, horigin, hone, _⟩ | ⟨_, hnone, _⟩ := hflow.frames
  · rw [hnone] at hnew
    cases hnew
  · rw [hone, List.mem_singleton] at hnew
    exact ⟨id, hnew ▸ horigin⟩
  · rw [hnone] at hnew
    cases hnew

/-- What was stored was accepted: it comes from a frame in flight. -/
theorem accepted_of_stored (h : room.Reach G c) :
    ∀ f ∈ storedIn c.past, f ∈ acceptedIn c.past := by
  refine Reach.flow_invariant ?_ ?_ h
  · exact fun _ hf => hf
  intro c w evs hreach ih hflow g hg
  show g ∈ acceptedIn (c.past ++ evs)
  rw [acceptedIn_append]
  replace hg : g ∈ storedIn c.past ++ storedIn evs := storedIn_append .. ▸ hg
  apply List.mem_append_left
  rcases List.mem_append.mp hg with hpast | hnew
  · exact ih g hpast
  cases hflow with
  | quiet _ _ _ hstored =>
    rw [hstored] at hnew
    cases hnew
  | stores id f hat hflight =>
    rw [List.mem_singleton.mp hnew]
    exact (of_flight hreach hat rfl).1
  | accepts | collects | enqueues | refused | lands => cases hnew

/-- What was enqueued to anybody was accepted. -/
theorem accepted_of_enqueued (h : room.Reach G c) :
    ∀ peer, ∀ f ∈ enqueuedTo peer c.past, f ∈ acceptedIn c.past := by
  refine Reach.flow_invariant ?_ ?_ h
  · exact fun _ _ hf => hf
  intro c w evs hreach ih hflow q g hg
  show g ∈ acceptedIn (c.past ++ evs)
  rw [acceptedIn_append]
  replace hg : g ∈ enqueuedTo q c.past ++ enqueuedTo q evs := enqueuedTo_append .. ▸ hg
  apply List.mem_append_left
  rcases List.mem_append.mp hg with hpast | hnew
  · exact ih q g hpast
  · obtain ⟨k, hframes, _⟩ := hflow.enqueued hnew
    exact (of_flight hreach rfl hframes).1

end

end ChatRs

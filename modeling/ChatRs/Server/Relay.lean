import ChatRs.Lib.HighWater
import ChatRs.Server.Streams

/-!
# What the server relays

Everything that enters the history or an outbox was accepted by `handle_client_frame`, so it
is enough to know what was accepted. It carries the identity of the session that sent it
(`Relayed`), and the counters of one session's messages strictly increase, because each is
checked against the highest one before it and a session is never registered again after it was
removed. The streams of the sender then carry the order to the history and to every outbox.
-/

namespace ChatRs

open Machine (Config Guard)

def RoomMessage.count (m : RoomMessage) : Nat := m.ad.counter.toNat

/-- The room messages among some frames. -/
def messagesOf (fs : List ServerFrame) : List RoomMessage :=
  fs.filterMap fun f => match f with
    | .message m => some m
    | _ => none

@[simp] theorem messagesOf_append (fs gs : List ServerFrame) :
    messagesOf (fs ++ gs) = messagesOf fs ++ messagesOf gs := List.filterMap_append

/-- The messages among some frames, without the clears. -/
theorem mem_messagesOf {m : RoomMessage} {fs : List ServerFrame} :
    m ∈ messagesOf fs ↔ .message m ∈ fs := by
  rw [messagesOf, List.mem_filterMap]
  constructor
  · rintro ⟨f, hf, hm⟩
    cases f with
    | message m' =>
      cases hm
      exact hf
    | _ => cases hm
  · exact fun h => ⟨_, h, rfl⟩

/-- The messages of one sender, before or after forgetting the other frames. -/
theorem messagesOf_byOrigin (id : Uuid) (fs : List ServerFrame) :
    messagesOf (byOrigin id fs) = (messagesOf fs).filter fun m => m.fromId = id := by
  induction fs with
  | nil => rfl
  | cons f fs ih =>
    have hcons : messagesOf (byOrigin id (f :: fs))
        = messagesOf (byOrigin id [f]) ++ messagesOf (byOrigin id fs) := by
      rw [← messagesOf_append, ← byOrigin_append]
      rfl
    rw [hcons, ih, show messagesOf (f :: fs) = messagesOf [f] ++ messagesOf fs from
      messagesOf_append [f] fs, List.filter_append]
    congr 1
    cases f with
    | message m =>
      by_cases h : m.fromId = id <;> simp [byOrigin, messagesOf, ServerFrame.origin, h]
    | cleared by_ _ =>
      by_cases h : by_ = id <;> simp [byOrigin, messagesOf, ServerFrame.origin, h]
    | _ => rfl

/-! ## Registration and snapshot -/

/-- A registration is a step by itself, and the task was not registered before. -/
theorem Step.of_registered {w w' : World} {l : Label} {evs : List Event} (h : Step w l w' evs)
    {id : Uuid} {name : String} (hmem : .registered id name ∈ evs) :
    evs = [.registered id name] ∧ Unregistered (w.tasks id) ∧ ¬ Unregistered (w'.tasks id) := by
  cases h with
  | register id username hat =>
    cases List.mem_singleton.mp hmem
    refine ⟨rfl, hat ▸ trivial, ?_⟩
    rw [World.goto_tasks, Function.update_self]
    exact not_false
  | snapshot | delivers | incoming | accepts | store | enqueues => cases List.mem_singleton.mp hmem
  | _ => cases hmem

/-- A snapshot is a step by itself, and it is of the history at that moment. -/
theorem Step.of_snapshotted {w w' : World} {l : Label} {evs : List Event} (h : Step w l w' evs)
    {id : Uuid} {history : List RoomMessage} (hmem : .snapshotted id history ∈ evs) :
    evs = [.snapshotted id history] ∧ history = w.messages.history := by
  cases h with
  | snapshot id username hat =>
    cases List.mem_singleton.mp hmem
    exact ⟨rfl, rfl⟩
  | register | delivers | incoming | accepts | store | enqueues => cases List.mem_singleton.mp hmem
  | _ => cases hmem

/-- A frame is enqueued by the broadcast of some task, for the peer that is next on its list. -/
theorem Step.of_enqueued {w w' : World} {l : Label} {evs : List Event} (h : Step w l w' evs)
    {peer : Uuid} {f : ServerFrame} (hmem : .enqueued peer f ∈ evs) :
    evs = [.enqueued peer f] ∧ ∃ k username rest dead, l = .act k .trySend
      ∧ w.tasks k = some (.live username (.sending f (peer :: rest) dead)) := by
  cases h with
  | enqueues id username f peer rest dead o hat hsend =>
    cases List.mem_singleton.mp hmem
    exact ⟨rfl, id, username, rest, dead, rfl, hat⟩
  | register | snapshot | delivers | incoming | accepts | store => cases List.mem_singleton.mp hmem
  | _ => cases hmem

/-- A task that has registered stays so: it runs on, or has returned. -/
theorem Step.unregistered {w w' : World} {l : Label} {evs : List Event} (h : Step w l w' evs)
    {k : Uuid} (hk : Unregistered (w'.tasks k)) : Unregistered (w.tasks k) := by
  -- a step of one task, to a phase in which it has registered
  have moves {u : World} {id : Uuid} {phase : Phase} (hu : u.tasks = w.tasks)
      (hphase : ¬ Unregistered (some phase)) (hk : Unregistered ((u.goto id phase).tasks k)) :
      Unregistered (w.tasks k) := by
    rw [World.goto_tasks, hu] at hk
    rcases eq_or_ne k id with rfl | hne
    · rw [Function.update_self] at hk
      exact (hphase hk).elim
    · rw [Function.update_of_ne hne] at hk
      exact hk
  cases h with
  | early l id phase hbefore hafter _ =>
    rw [World.goto_tasks] at hk
    rcases eq_or_ne k id with rfl | hne
    · exact hbefore
    · rw [Function.update_of_ne hne] at hk
      exact hk
  | register | snapshot | welcomed | unwelcomed | stops | undelivered | incoming | touch
  | rejects | accepts | store | collect | enqueues | refused | evict | cleanup | leave =>
    exact moves rfl id hk
  | delivers | elapse | scan | sweep => exact hk

/-- A sender was there before, or is that of a task that registers with this step. -/
theorem Step.connected {w w' : World} {l : Label} {evs : List Event} (h : Step w l w' evs)
    {k : Uuid} (hk : w'.connections.Connected k) :
    w.connections.Connected k
      ∨ (Unregistered (w.tasks k)
        ∧ ∃ username, w'.tasks k = some (.live username .snapshotting)) := by
  cases h with
  | register id username hat =>
    rcases (ConnectionManager.connected_insert ..).mp hk with rfl | hk
    · exact .inr ⟨hat ▸ trivial, username, Function.update_self ..⟩
    · exact .inl hk
  | evict | sweep => exact .inl ((ConnectionManager.connected_removeAll ..).mp hk).2
  | cleanup => exact .inl ((ConnectionManager.connected_remove ..).mp hk).2
  | _ => exact .inl hk

/-- What a step does to the counters of the sessions. -/
inductive Counting (w w' : World) (evs : List Event) : Prop
  | keeps (hcounter : ∀ k x, w'.sessions.counterOf k = some x → w.sessions.counterOf k = some x)
      (haccepted : messagesOf (acceptedIn evs) = [])
  | registers (id : Uuid) (username : String) (hnew : Unregistered (w.tasks id))
      (hnext : w'.tasks id = some (.live username .snapshotting))
      (hcounter : w'.sessions.counterOf = Function.update w.sessions.counterOf id (some 0))
      (haccepted : messagesOf (acceptedIn evs) = [])
  | burns (id : Uuid) (last counter : UInt64) (hlast : w.sessions.counterOf id = some last)
      (hlt : last < counter)
      (hcounter : w'.sessions.counterOf = Function.update w.sessions.counterOf id (some counter))
      (haccepted : messagesOf (acceptedIn evs) = [])
  | counts (m : RoomMessage) (last : UInt64) (hlive : ¬ Unregistered (w.tasks m.fromId))
      (hlast : w.sessions.counterOf m.fromId = some last) (hlt : last < m.ad.counter)
      (hcounter : w'.sessions.counterOf
        = Function.update w.sessions.counterOf m.fromId (some m.ad.counter))
      (haccepted : messagesOf (acceptedIn evs) = [m])

/-- What each step can do to the counter of a session and to what was accepted of it. -/
theorem Step.counting {w w' : World} {l : Label} {evs : List Event} (h : Step w l w' evs) :
    Counting w w' evs := by
  cases h with
  | register id username hat =>
    exact .registers id username (hat ▸ trivial) (Function.update_self ..)
      (UserSessionStore.counterOf_insert ..) rfl
  | touch id username f hat =>
    refine .keeps (fun k x hx => ?_) rfl
    rw [World.goto_sessions, UserSessionStore.counterOf_touch] at hx
    exact hx
  | rejects id username f e sessions hat hcheck =>
    rcases checkFrame_error hcheck with hsame | ⟨last, counter, hlast, hlt, hcounter⟩
    · exact .keeps (fun k x hx => hsame ▸ hx) rfl
    · exact .burns id last counter hlast hlt hcounter rfl
  | accepts id username f out sessions hat hcheck =>
    cases checkFrame_ok hcheck with
    | message ad ciphertext last hfrom hname hlen hlast hlt hcounter =>
      exact .counts ⟨id, username, ad, ciphertext⟩ last (by rw [hat]; exact not_false) hlast hlt
        hcounter rfl
    | clear hcounter => exact .keeps (fun k x hx => hcounter ▸ hx) rfl
  | cleanup id username result hat =>
    exact .keeps (fun k x hx => (UserSessionStore.of_counterOf_remove hx).2) rfl
  | sweep => exact .keeps (fun k x hx => (UserSessionStore.of_counterOf_removes hx).2) rfl
  | early | snapshot | welcomed | unwelcomed | stops | delivers | undelivered | incoming | store
  | collect | enqueues | refused | evict | leave | elapse | scan =>
    exact .keeps (fun k x hx => hx) rfl

section

variable {G : Guard World Label Event} {c : Config World Event}

/-! ## Counters -/

/-- The counters of the accepted messages, against the counters in the sessions. -/
structure Counted (c : Config World Event) : Prop where
  /-- No message of a session is above the session's counter. -/
  bound : ∀ m ∈ messagesOf (acceptedIn c.past), ∀ last,
    c.state.sessions.counterOf m.fromId = some last → m.ad.counter ≤ last
  registered : ∀ m ∈ messagesOf (acceptedIn c.past), ¬ Unregistered (c.state.tasks m.fromId)
  positive : ∀ m ∈ messagesOf (acceptedIn c.past), 0 < m.count
  increasing : HighWater.Increasing RoomMessage.fromId RoomMessage.count
    (messagesOf (acceptedIn c.past))

/-- At the start nothing was accepted and no session is there. -/
theorem counted_init : Counted room.start where
  bound _ hm := absurd hm List.not_mem_nil
  registered _ hm := absurd hm List.not_mem_nil
  positive _ hm := absurd hm List.not_mem_nil
  increasing := List.Pairwise.nil

/-- A step keeps the counters ahead of what was accepted: a message is accepted only above the
counter of its session, and then the counter is its own. Ids are registered once, so a session that
is gone does not come back below what it had sent. -/
theorem counted_step {c : Config World Event} {w : World} {l : Label} {evs : List Event}
    (ih : Counted c) (hs : Step c.state l w evs) : Counted ⟨c.past ++ evs, w⟩ := by
  have hregistered : ∀ m ∈ messagesOf (acceptedIn c.past), ¬ Unregistered (w.tasks m.fromId) :=
    fun m hm hk => ih.registered m hm (hs.unregistered hk)
  -- a step that accepts no message
  have rests (hnone : messagesOf (acceptedIn evs) = [])
      (hbound : ∀ m ∈ messagesOf (acceptedIn c.past), ∀ last,
        w.sessions.counterOf m.fromId = some last → m.ad.counter ≤ last) :
      Counted ⟨c.past ++ evs, w⟩ := by
    have hsame : messagesOf (acceptedIn (c.past ++ evs)) = messagesOf (acceptedIn c.past) := by
      rw [acceptedIn_append, messagesOf_append, hnone, List.append_nil]
    exact ⟨hsame ▸ hbound, hsame ▸ hregistered, hsame ▸ ih.positive, hsame ▸ ih.increasing⟩
  cases hs.counting with
  | keeps hcounter haccepted =>
    exact rests haccepted fun m hm last hlast => ih.bound m hm last (hcounter _ _ hlast)
  | registers id username hnew hnext hcounter haccepted =>
    refine rests haccepted fun m hm last hlast => ?_
    -- a session that registers has no messages yet
    have hne : m.fromId ≠ id := fun heq => ih.registered m hm (heq ▸ hnew)
    rw [hcounter, Function.update_of_ne hne] at hlast
    exact ih.bound m hm last hlast
  -- a counter that is burned was above the last one, hence above every message of the session
  | burns id prev counter hprev hlt hcounter haccepted =>
    refine rests haccepted fun m hm last hlast => ?_
    rw [hcounter] at hlast
    rcases eq_or_ne m.fromId id with heq | hne
    · rw [heq, Function.update_self] at hlast
      cases hlast
      exact UInt64.le_trans (ih.bound m hm prev (heq ▸ hprev)) (UInt64.le_of_lt hlt)
    · rw [Function.update_of_ne hne] at hlast
      exact ih.bound m hm last hlast
  | counts new prev hlive hprev hlt hcounter haccepted =>
    have happend : messagesOf (acceptedIn (c.past ++ evs))
        = messagesOf (acceptedIn c.past) ++ [new] := by
      rw [acceptedIn_append, messagesOf_append, haccepted]
    -- the new message is above all that its sender has sent
    have hbelow : ∀ m ∈ messagesOf (acceptedIn c.past), m.fromId = new.fromId →
        m.ad.counter < new.ad.counter := fun m hm heq =>
      UInt64.lt_of_le_of_lt (ih.bound m hm prev (heq ▸ hprev)) hlt
    refine ⟨fun m hm last hlast => ?_, fun m hm hk => ?_, fun m hm => ?_, ?_⟩
    · rw [happend, List.mem_append, List.mem_singleton] at hm
      simp only [hcounter] at hlast
      rcases eq_or_ne m.fromId new.fromId with heq | hne
      · rw [heq, Function.update_self] at hlast
        cases hlast
        rcases hm with hm | rfl
        · exact UInt64.le_of_lt (hbelow m hm heq)
        · exact UInt64.le_refl _
      · rw [Function.update_of_ne hne] at hlast
        rcases hm with hm | rfl
        · exact ih.bound m hm last hlast
        · exact absurd rfl hne
    · rw [happend, List.mem_append, List.mem_singleton] at hm
      rcases hm with hm | rfl
      · exact hregistered m hm hk
      · exact hlive (hs.unregistered hk)
    · rw [happend, List.mem_append, List.mem_singleton] at hm
      rcases hm with hm | rfl
      · exact ih.positive m hm
      · exact Nat.lt_of_le_of_lt (Nat.zero_le _) (UInt64.lt_iff_toNat_lt.mp hlt)
    · show HighWater.Increasing _ _ (messagesOf (acceptedIn (c.past ++ evs)))
      rw [happend]
      refine List.pairwise_append.mpr ⟨ih.increasing, List.pairwise_singleton _ _, ?_⟩
      intro m hm n hn heq
      rw [List.mem_singleton.mp hn] at heq ⊢
      exact UInt64.lt_iff_toNat_lt.mp (hbelow m hm heq)

/-- **The accepted messages of a session have strictly increasing counters.** -/
theorem counted (h : room.Reach G c) : Counted c :=
  Reach.room_invariant counted_init (fun _ _ _ _ _ ih _ hs => counted_step ih hs) h

/-- A message is accepted once. -/
theorem accepted_once {evs : List Event} {w : World} (h : room.Reach G ⟨c.past ++ evs, w⟩)
    {m : RoomMessage} (hm : m ∈ messagesOf (acceptedIn c.past)) :
    .message m ∉ acceptedIn evs := by
  intro hagain
  have hincreasing := (counted h).increasing
  replace hincreasing : HighWater.Increasing RoomMessage.fromId RoomMessage.count
      (messagesOf (acceptedIn c.past) ++ messagesOf (acceptedIn evs)) := by
    rw [← messagesOf_append, ← acceptedIn_append]
    exact hincreasing
  have hlt := (List.pairwise_append.mp hincreasing).2.2 m hm m (mem_messagesOf.mpr hagain) rfl
  omega

/-! ## Identity -/

/-- What the checks and the registration vouch for in a relayed message. -/
structure Relayed (past : List Event) (m : RoomMessage) : Prop where
  fromId : m.ad.fromId = m.fromId
  username : m.ad.username = m.username
  valid : ValidName m.username
  size : m.ciphertext.length ≤ MAX_CIPHERTEXT_LEN
  registered : .registered m.fromId m.username ∈ past
  incoming : .incoming m.fromId (.message m.ad m.ciphertext) ∈ past

theorem Relayed.mono {past : List Event} {m : RoomMessage} (h : Relayed past m)
    (evs : List Event) : Relayed (past ++ evs) m :=
  { h with
    registered := List.mem_append_left _ h.registered
    incoming := List.mem_append_left _ h.incoming }

/-- The frame a handler works on came in on its own connection, and the history it welcomes
its client with is the snapshot it took. -/
def Pc.Heard (past : List Event) (id : Uuid) : Pc → Prop
  | .welcoming history => .snapshotted id history ∈ past
  | .touching f => .incoming id f ∈ past
  | .checking f => .incoming id f ∈ past
  | _ => True

/-- What is known where a task stands. -/
def Standing (past : List Event) (id : Uuid) : Phase → Prop
  | .registering username => ValidName username
  | .live username pc =>
    (ValidName username ∧ .registered id username ∈ past) ∧ pc.Heard past id
  | _ => True

/-- What was heard of a task stays heard. -/
theorem Standing.mono {past : List Event} {id : Uuid} {phase : Phase}
    (h : Standing past id phase) (evs : List Event) : Standing (past ++ evs) id phase := by
  cases phase with
  | live username pc =>
    obtain ⟨⟨hname, hregistered⟩, hheard⟩ := h
    refine ⟨⟨hname, List.mem_append_left _ hregistered⟩, ?_⟩
    cases pc with
    | welcoming history => exact List.mem_append_left _ hheard
    | touching f => exact List.mem_append_left _ hheard
    | checking f => exact List.mem_append_left _ hheard
    | _ => trivial
  | _ => exact h

/-- A frame behind its checks asks for nothing more to have been heard. -/
theorem heard_afterCheck (past : List Event) (id : Uuid) (f : ServerFrame) :
    (afterCheck f).Heard past id := by
  unfold afterCheck
  split
  · split <;> trivial
  · trivial

/-- Wherever a task stands in the room, what it has in hand was registered or received before: the
induction over the run, with one case for each place it can come to. -/
theorem standing (h : room.Reach G c) :
    ∀ id phase, c.state.tasks id = some phase → Standing c.past id phase := by
  refine Reach.room_invariant ?_ ?_ h
  · intro id phase hat
    cases hat
  intro c l w evs _ ih _ hs k phase hk
  show Standing (c.past ++ evs) k phase
  have moves {u : World} {id : Uuid} {next : Phase} (hu : u.tasks = c.state.tasks)
      (hk : (u.goto id next).tasks k = some phase) (hnext : Standing (c.past ++ evs) id next) :
      Standing (c.past ++ evs) k phase := by
    rcases World.goto_at hk with ⟨rfl, rfl⟩ | ⟨_, hbefore⟩
    · exact hnext
    · rw [hu] at hbefore
      exact (ih k phase hbefore).mono evs
  -- on from one place of a registered task to the next
  have lives {id : Uuid} {username : String} {pc pc' : Pc}
      (hat : c.state.tasks id = some (.live username pc)) (hpc' : pc'.Heard (c.past ++ evs) id) :
      Standing (c.past ++ evs) id (.live username pc') := by
    obtain ⟨⟨hname, hregistered⟩, _⟩ := ih id _ hat
    exact ⟨⟨hname, List.mem_append_left _ hregistered⟩, hpc'⟩
  cases hs with
  | early l id next hbefore hafter hname =>
    refine moves rfl hk ?_
    cases next with
    | registering username => exact hname username rfl
    | live username pc =>
      rcases hafter with hafter | ⟨_, hafter⟩
      · exact hafter.elim
      · cases hafter
    | _ => trivial
  | register id username hat =>
    have hname : ValidName username := ih id _ hat
    exact moves rfl hk ⟨⟨hname, List.mem_append_right _ (List.mem_singleton_self _)⟩, trivial⟩
  | incoming _ _ _ hat | snapshot _ _ hat =>
    exact moves rfl hk (lives hat (List.mem_append_right _ (List.mem_singleton_self _)))
  | touch id username f hat =>
    exact moves rfl hk (lives hat (List.mem_append_left _ (ih id _ hat).2))
  | accepts id username f out sessions hat hcheck =>
    exact moves rfl hk (lives hat (heard_afterCheck ..))
  | welcomed _ _ _ hat | unwelcomed _ _ _ _ hat | stops _ _ _ _ hat | undelivered _ _ _ _ _ hat
  | rejects _ _ _ _ _ hat | store _ _ _ hat | collect _ _ _ _ hat | enqueues _ _ _ _ _ _ _ hat
  | refused _ _ _ _ _ _ hat | evict _ _ _ _ hat | cleanup _ _ _ hat =>
    exact moves rfl hk (lives hat trivial)
  | leave id username result hat => exact moves rfl hk trivial
  | delivers | elapse | scan | sweep => exact (ih k phase hk).mono _

/-- **Whatever is accepted carries the identity of the session that sent it.** -/
theorem accepted_relayed (h : room.Reach G c) :
    ∀ m ∈ messagesOf (acceptedIn c.past), Relayed c.past m := by
  refine Reach.room_invariant ?_ ?_ h
  · intro m hm
    cases hm
  intro c l w evs hreach ih _ hs m hm
  show Relayed (c.past ++ evs) m
  replace hm : m ∈ messagesOf (acceptedIn c.past) ∨ m ∈ messagesOf (acceptedIn evs) := by
    rwa [acceptedIn_append, messagesOf_append, List.mem_append] at hm
  rcases hm with hm | hm
  · exact (ih m hm).mono evs
  -- only the checks accept
  cases hs with
  | accepts id username f out sessions hat hcheck =>
    obtain ⟨⟨hvalid, hregistered⟩, hheard⟩ := standing hreach id _ hat
    cases checkFrame_ok hcheck with
    | message ad ciphertext last hfrom hname hlen hlast hlt hcounter =>
      rw [List.mem_singleton.mp hm]
      exact Relayed.mono ⟨hfrom, hname, hvalid, hlen, hregistered, hheard⟩ _
    | clear hcounter => cases hm
  | _ => cases hm

end

end ChatRs

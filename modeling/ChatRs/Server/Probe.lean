import ChatRs.Lib.Pattern
import ChatRs.Server.Hub

/-!
# Probing for room names

Peers without a PSK get one frame out of a connection that names an admissible room: the Hello.
Its kind is the same for every name. Its salt is not: a configured room has one salt for as
long as the server runs, a made-up room draws a new one on every connection. The plan:

* `configured_answers` and `unknown_answers` give the answers of the two paths to any probes;
* the salts of the first are all equal (`configured_salts`), those of the second come from
  different draws (`unknown_answers`);
* **`probes_alike_iff`**: so the two paths look alike exactly as long as no name gets a second
  Hello.
-/

namespace ChatRs

/-! ## What a peer sees -/

inductive FrameKind where
  | hello (serverVersion : UInt16)
  | welcome
  | message
  | cleared
  | error (reason : ErrorKind)
  | handshake
deriving DecidableEq

def FrameKind.isHello : FrameKind → Bool
  | .hello _ => true
  | _ => false

def Sent.kind : Sent → FrameKind
  | .frame (.hello _ version) => .hello version
  | .frame (.welcome _ _) => .welcome
  | .frame (.message _) => .message
  | .frame (.cleared _ _) => .cleared
  | .frame (.error reason) => .error reason
  | .handshake _ => .handshake

def Sent.salt? : Sent → Option Key
  | .frame (.hello salt _) => some salt
  | _ => none

def kinds (answers : List (List Sent)) : List (List FrameKind) := answers.map (List.map Sent.kind)

def salts (answers : List (List Sent)) : List Key := answers.flatMap (List.filterMap Sent.salt?)

/-- The same kinds of frames, and salts that are equal and different in the same places. -/
def LookAlike (as bs : List (List Sent)) : Prop :=
  kinds as = kinds bs ∧ SamePattern (salts as) (salts bs)

/-- The probe selects the room `name`. -/
def Probe.names (name : String) (p : Probe) : Bool :=
  match p.select with
  | .ok (.roomSelect roomName) => roomName == name
  | _ => false

/-- The probe gets as far as the answer to its selection. -/
def Probe.served (p : Probe) : Bool :=
  p.admitted && match p.answered with
    | .ok _ => true
    | .error _ => false

/-- What the probes of `name` saw. -/
def answersTo (name : String) (log : List (Probe × List Sent)) : List (List Sent) :=
  (log.filter fun x => x.1.names name).map Prod.snd

structure AdmissibleName (name : String) : Prop where
  nonempty : ¬ name.isEmpty
  short : strLen name ≤ MAX_ROOM_ID_LEN

/-- The peer holds the PSK of no room it can be answered with: its first handshake message
does not verify. -/
def Outsider (snow : Responder) (fill : Nat → Option Key) (hub : ServerHub) (p : Probe) : Prop :=
  ∀ name drawn room drawn', hub.select fill name drawn = (.ok room, drawn') →
    ∀ m0, p.m0 = .ok m0 →
      snow room.psk (buildPrologue room.roomId room.roomSalt PROTOCOL_VERSION) m0 = none

/-- The first `n` draws deliver, and deliver different values. -/
structure Fresh (fill : Nat → Option Key) (n : Nat) : Prop where
  delivers : ∀ i < n, fill i ≠ none
  distinct : ∀ i < n, ∀ j < n, fill i = fill j → i = j

/-- What a probe of an admissible name sees when it is answered with `salt`. -/
def answerTo (p : Probe) (salt : Key) : List Sent :=
  if p.served then [.frame (.hello salt PROTOCOL_VERSION)] else []

/-- The kinds of it. -/
def kindsTo (p : Probe) : List FrameKind := if p.served then [.hello PROTOCOL_VERSION] else []

theorem kinds_append (as bs : List (List Sent)) : kinds (as ++ bs) = kinds as ++ kinds bs :=
  List.map_append

theorem salts_append (as bs : List (List Sent)) : salts (as ++ bs) = salts as ++ salts bs :=
  List.flatMap_append

theorem kinds_answerTo (p : Probe) (salt : Key) : kinds [answerTo p salt] = [kindsTo p] := by
  rw [answerTo, kindsTo]
  split <;> rfl

/-- An answer shows the salt if it is a Hello at all. -/
theorem salts_answerTo (p : Probe) (salt : Key) :
    salts [answerTo p salt] = if p.served then [salt] else [] := by
  rw [answerTo]
  split <;> rfl

/-! ## One connection -/

section

variable {snow : Responder} {fill : Nat → Option Key} {hub : ServerHub} {name : String}

/-- A probe names a room with a `RoomSelect` for it. -/
theorem Probe.names_iff {p : Probe} : p.names name = true ↔ p.select = .ok (.roomSelect name) := by
  rw [Probe.names]
  split
  · rename_i roomName hselect
    rw [hselect]
    simp
  · rename_i hother
    constructor
    · exact nofun
    · exact fun h => absurd h (hother name)

/-- An outsider sees the Hello of the room and no more. -/
theorem greet_sent {p : Probe} {room : RoomState}
    (hout : ∀ m0, p.m0 = .ok m0 →
      snow room.psk (buildPrologue room.roomId room.roomSalt PROTOCOL_VERSION) m0 = none) :
    (greet snow room p).sent = p.sees (.hello room.roomSalt PROTOCOL_VERSION) := by
  unfold greet
  dsimp only
  split
  · rfl
  · split
    · rfl
    · rename_i m1 hm1
      -- the handshake cannot have gone through
      unfold handshakeResponder at hm1
      split at hm1
      · cases hm1
      · rename_i m0 hm0
        rw [hout m0 hm0] at hm1
        cases hm1

/-- A probe of an outsider is answered from the room that is found, and the random bytes of the room
are drawn only if its name is admitted. -/
theorem handleConnection_names {p : Probe} (hname : AdmissibleName name)
    (hnames : p.names name = true) {room : RoomState} {drawn drawn' : Nat}
    (hroom : hub.select fill name drawn = (.ok room, drawn')) (hout : Outsider snow fill hub p) :
    (hub.handleConnection snow fill p drawn).1.sent = answerTo p room.roomSalt
      ∧ (hub.handleConnection snow fill p drawn).2 = if p.admitted then drawn' else drawn := by
  have hadmissible : ¬ (name.isEmpty ∨ strLen name > MAX_ROOM_ID_LEN) := by
    rintro (h | h)
    · exact hname.nonempty h
    · exact Nat.not_lt.mpr hname.short h
  rw [ServerHub.handleConnection, Probe.names_iff.mp hnames, answerTo, Probe.served]
  cases p.admitted with
  | false => exact ⟨rfl, rfl⟩
  | true =>
    rw [if_neg (by decide)]
    dsimp only
    rw [if_neg hadmissible, hroom]
    refine ⟨?_, rfl⟩
    dsimp only
    rw [greet_sent (hout name drawn room drawn' hroom), Probe.sees]
    cases p.answered <;> rfl

/-- A connection makes at most the two draws of a made-up room. -/
theorem handleConnection_drawn (p : Probe) (drawn : Nat) :
    ∃ n ≤ 2, (hub.handleConnection snow fill p drawn).2 = drawn + n := by
  -- a salt and a PSK, unless the room exists or the first draw fails
  have hselect (roomName : String) : ∃ n ≤ 2, (hub.select fill roomName drawn).2 = drawn + n := by
    rw [ServerHub.select]
    split
    · exact ⟨0, by decide, rfl⟩
    · rw [fakeRoom]
      split
      · exact ⟨1, by decide, rfl⟩
      · split
        · exact ⟨2, by decide, rfl⟩
        · exact ⟨2, by decide, rfl⟩
  rw [ServerHub.handleConnection]
  split
  · exact ⟨0, by decide, rfl⟩
  · split
    · exact ⟨0, by decide, rfl⟩
    · rename_i roomName _
      split
      · exact ⟨0, by decide, rfl⟩
      · obtain ⟨n, hn, hdrawn⟩ := hselect roomName
        split
        · rename_i e drawn' hroom
          rw [hroom] at hdrawn
          exact ⟨n, hn, hdrawn⟩
        · rename_i room drawn' hroom
          rw [hroom] at hdrawn
          exact ⟨n, hn, hdrawn⟩
    · exact ⟨0, by decide, rfl⟩

/-! ## Any number of connections -/

/-- The answers to a sequence of probes, one after the other. -/
theorem answersTo_serve (p : Probe) (probes : List Probe) (drawn : Nat) :
    answersTo name (hub.serve snow fill (p :: probes) drawn)
      = (if p.names name then [(hub.handleConnection snow fill p drawn).1.sent] else [])
        ++ answersTo name
            (hub.serve snow fill probes (hub.handleConnection snow fill p drawn).2) := by
  rw [ServerHub.serve, answersTo, List.filter_cons]
  split <;> rfl

/-- A configured room answers all probes with its one salt. -/
theorem configured_answers (hname : AdmissibleName name) {room : RoomState}
    (hroom : hub.rooms.lookup name = some room) {probes : List Probe}
    (hout : ∀ p ∈ probes, Outsider snow fill hub p) (drawn : Nat) :
    answersTo name (hub.serve snow fill probes drawn)
      = (probes.filter (Probe.names name)).map fun p => answerTo p room.roomSalt := by
  induction probes generalizing drawn with
  | nil => rfl
  | cons p probes ih =>
    rw [answersTo_serve, ih (fun q hq => hout q (List.mem_cons_of_mem p hq)), List.filter_cons]
    split
    · rename_i hnames
      have hselect : hub.select fill name drawn = (.ok room, drawn) := by
        rw [ServerHub.select, hroom]
      rw [(handleConnection_names hname hnames hselect (hout p List.mem_cons_self)).1]
      rfl
    · rfl

/-- A part of an interval. -/
theorem range'_sublist {a m b n : Nat} (hlow : a ≤ b) (hhigh : b + n ≤ a + m) :
    (List.range' b n).Sublist (List.range' a m) := by
  have hsplit : List.range' a m
      = List.range' a (b - a) ++ (List.range' b n ++ List.range' (b + n) (a + m - (b + n))) := by
    calc List.range' a m
        = List.range' a (b - a + (n + (a + m - (b + n)))) := by
          congr 1
          omega
      _ = List.range' a (b - a) ++ List.range' (a + (b - a)) (n + (a + m - (b + n))) :=
          List.range'_append_1.symm
      _ = List.range' a (b - a) ++ List.range' b (n + (a + m - (b + n))) := by
          rw [show a + (b - a) = b by omega]
      _ = _ := by rw [List.range'_append_1]
  rw [hsplit]
  exact (List.sublist_append_left _ _).trans (List.sublist_append_right _ _)

/-- A made-up room answers with frames of the same kinds, and with salts from different
draws. -/
theorem unknown_answers (hname : AdmissibleName name) (hroom : hub.rooms.lookup name = none)
    {probes : List Probe} (hout : ∀ p ∈ probes, Outsider snow fill hub p) {n drawn : Nat}
    (hfresh : Fresh fill n) (hn : drawn + 2 * probes.length ≤ n) :
    kinds (answersTo name (hub.serve snow fill probes drawn))
        = (probes.filter (Probe.names name)).map kindsTo
      ∧ ((salts (answersTo name (hub.serve snow fill probes drawn))).map some).Sublist
          ((List.range' drawn (2 * probes.length)).map fill) := by
  induction probes generalizing drawn with
  | nil => exact ⟨rfl, List.Sublist.refl _⟩
  | cons p probes ih =>
    rw [List.length_cons] at hn ⊢
    obtain ⟨k, hk, hdrawn⟩ := @handleConnection_drawn snow fill hub p drawn
    have hlater : drawn + k + 2 * probes.length ≤ n := by omega
    obtain ⟨hkinds, hsalts⟩ := ih (fun q hq => hout q (List.mem_cons_of_mem p hq)) hlater
    have hrest {a m : Nat} (ha : a ≤ drawn + k)
        (hm : drawn + k + 2 * probes.length ≤ a + m) :
        ((salts (answersTo name (hub.serve snow fill probes (drawn + k)))).map some).Sublist
          ((List.range' a m).map fill) := hsalts.trans ((range'_sublist ha hm).map fill)
    rw [answersTo_serve, hdrawn, kinds_append, salts_append, hkinds, List.filter_cons]
    by_cases hnames : p.names name = true
    · rw [if_pos hnames, if_pos hnames]
      -- the two draws of the room
      obtain ⟨salt, hsalt⟩ := Option.ne_none_iff_exists'.mp (hfresh.delivers drawn (by omega))
      obtain ⟨psk, hpsk⟩ := Option.ne_none_iff_exists'.mp (hfresh.delivers (drawn + 1) (by omega))
      have hselect : hub.select fill name drawn = (.ok ⟨name, salt, psk⟩, drawn + 2) := by
        rw [ServerHub.select, hroom]
        simp only [fakeRoom, hsalt, hpsk]
      obtain ⟨hsent, hdraws⟩ :=
        handleConnection_names hname hnames hselect (hout p List.mem_cons_self)
      rw [hsent, kinds_answerTo, salts_answerTo]
      refine ⟨rfl, ?_⟩
      by_cases hserved : p.served = true
      · have hadmitted : p.admitted = true := (Bool.and_eq_true_iff.mp hserved).1
        rw [hdrawn, if_pos hadmitted] at hdraws
        rw [if_pos hserved, show 2 * (probes.length + 1) = 2 * probes.length + 1 + 1 by omega,
          List.range'_succ, List.map_cons, List.singleton_append, List.map_cons, hsalt]
        exact (hrest (by omega) (by omega)).cons_cons _
      · rw [if_neg hserved, List.nil_append]
        exact hrest (by omega) (by omega)
    · rw [if_neg hnames, if_neg hnames]
      exact ⟨rfl, hrest (by omega) (by omega)⟩

end

/-! ## Two probes of one name -/

/-- The probes of `name` that are served. -/
def hellos (name : String) (probes : List Probe) : List Probe :=
  (probes.filter (Probe.names name)).filter Probe.served

/-- A configured room shows one salt to all of them. -/
theorem configured_salts (salt : Key) (ps : List Probe) :
    salts (ps.map fun p => answerTo p salt) = (ps.filter Probe.served).map fun _ => salt := by
  induction ps with
  | nil => rfl
  | cons p ps ih =>
    rw [List.map_cons, ← List.singleton_append, salts_append, ih, salts_answerTo,
      List.filter_cons]
    split <;> rfl

/-- A configured room answers with frames of the same kinds as any other. -/
theorem configured_kinds (salt : Key) (ps : List Probe) :
    kinds (ps.map fun p => answerTo p salt) = ps.map kindsTo := by
  rw [kinds, List.map_map]
  refine List.map_congr_left fun p _ => ?_
  exact List.head_eq_of_cons_eq (kinds_answerTo p salt)

/-- There is a salt in every Hello, and nowhere else. -/
theorem length_salts_one (sent : List Sent) :
    (sent.filterMap Sent.salt?).length
      = ((sent.map Sent.kind).filter FrameKind.isHello).length := by
  induction sent with
  | nil => rfl
  | cons x sent ih =>
    rw [List.filterMap_cons, List.map_cons, List.filter_cons]
    match x with
    | .frame (.hello _ _) => exact congrArg (· + 1) ih
    | .frame (.welcome _ _) => exact ih
    | .frame (.message _) => exact ih
    | .frame (.cleared _ _) => exact ih
    | .frame (.error _) => exact ih
    | .handshake _ => exact ih

/-- There are as many salts as Hellos among the kinds. -/
theorem length_salts (as : List (List Sent)) :
    (salts as).length = ((kinds as).flatten.filter FrameKind.isHello).length := by
  induction as with
  | nil => rfl
  | cons a as ih =>
    rw [← List.singleton_append, salts_append, kinds_append, List.flatten_append,
      List.filter_append, List.length_append, List.length_append, ih]
    congr 1
    show (List.flatMap _ [a]).length = ([a.map Sent.kind].flatten.filter _).length
    rw [List.flatMap_singleton, List.flatten_singleton, length_salts_one]

/-- **One probe tells nothing, two tell everything.** A server on which `name` is configured
and one on which it is not are probed by the same peers, none of which holds a PSK. The answers
for `name` look alike exactly if at most one of the probes of `name` is served. -/
theorem probes_alike_iff {kdf : Kdf} {snow : Responder} {fill₁ fill₂ : Nat → Option Key}
    {configs₁ configs₂ : List RoomConfig} {hub₁ hub₂ : ServerHub} {k₁ k₂ : Nat} {name : String}
    {probes : List Probe} (h₁ : ServerHub.new kdf fill₁ configs₁ = (.ok hub₁, k₁))
    (h₂ : ServerHub.new kdf fill₂ configs₂ = (.ok hub₂, k₂)) (hname : AdmissibleName name)
    (hconfigured : name ∈ configs₁.map RoomConfig.name)
    (hunknown : name ∉ configs₂.map RoomConfig.name)
    (hfresh : Fresh fill₂ (k₂ + 2 * probes.length))
    (hout₁ : ∀ p ∈ probes, Outsider snow fill₁ hub₁ p)
    (hout₂ : ∀ p ∈ probes, Outsider snow fill₂ hub₂ p) :
    LookAlike (answersTo name (hub₁.serve snow fill₁ probes k₁))
        (answersTo name (hub₂.serve snow fill₂ probes k₂))
      ↔ (hellos name probes).length ≤ 1 := by
  have hmem : name ∈ hub₁.rooms := (mem_rooms_new h₁ name).mpr hconfigured
  have hnone : hub₂.rooms.lookup name = none := by
    rw [AList.lookup_eq_none, mem_rooms_new h₂]
    exact hunknown
  obtain ⟨room, hroom⟩ := Option.isSome_iff_exists.mp (AList.lookup_isSome.mpr hmem)
  obtain ⟨hkinds₂, hsalts₂⟩ := unknown_answers hname hnone hout₂ hfresh (Nat.le_refl _)
  rw [configured_answers hname hroom hout₁, LookAlike, configured_kinds, configured_salts, hkinds₂,
    and_iff_right rfl]
  -- the salts of the made-up rooms are different draws
  have hnodup : (salts (answersTo name (hub₂.serve snow fill₂ probes k₂))).Nodup := by
    have hdraws : ((List.range' k₂ (2 * probes.length)).map fill₂).Nodup := by
      refine List.Nodup.map_on (fun i hi j hj heq => ?_) List.nodup_range'
      rw [List.mem_range'_1] at hi hj
      exact hfresh.distinct i hi.2 j hj.2 heq
    exact (hdraws.sublist hsalts₂).of_map
  have hlen := length_salts ((probes.filter (Probe.names name)).map fun p =>
    answerTo p room.roomSalt)
  rw [configured_kinds, ← hkinds₂, ← length_salts, configured_salts] at hlen
  have hconstant : ∀ salt ∈ (hellos name probes).map fun _ => room.roomSalt,
      salt = room.roomSalt := by
    intro salt hsalt
    obtain ⟨_, _, rfl⟩ := List.mem_map.mp hsalt
    rfl
  exact (SamePattern.constant_nodup_iff hconstant hnodup hlen).trans (by rw [List.length_map])

/-! ## A configured room and an unknown one -/

namespace Knock

/-- The `i`-th draw. -/
def draw (i : Nat) : Key := List.Vector.replicate 32 (UInt8.ofNat i)

def stream (i : Nat) : Option Key := some (draw i)

/-- Keys that depend on nothing but the salt. -/
def saltKdf : Kdf where
  hashPassword _ _ _ _ _ salt := some salt
  mac key _ := some key

/-- The first message is to repeat the PSK and the prologue. -/
def strict : Responder := fun psk prologue m0 =>
  if m0 = psk.toList ++ prologue then some [] else none

/-- A peer that selects a room and sends an empty first message. -/
def knock (roomName : String) : Probe where
  admitted := true
  select := .ok (.roomSelect roomName)
  answered := .ok ()
  m0 := .ok []
  finished := .ok ()

def config (name : String) : RoomConfig := ⟨name, "correct-horse"⟩

/-- The hub of a server with one room. -/
def hubWith (name : String) : ServerHub :=
  ⟨AList.insert name ⟨name, draw 0, draw 0⟩ ∅⟩

theorem new_hubWith (name : String) :
    ServerHub.new saltKdf stream [config name] = (.ok (hubWith name), 1) := rfl

/-- Whoever only asks for a room and listens does not know its PSK. -/
theorem outsider_knock (hub : ServerHub) (roomName : String) :
    Outsider strict stream hub (knock roomName) := by
  intro name drawn room drawn' _ m0 hm0
  cases hm0
  refine if_neg fun hempty => ?_
  have hlen := congrArg List.length hempty
  rw [List.length_append, List.Vector.toList_length, List.length_nil] at hlen
  omega

/-- The keys of the stream differ, up to its 256th. -/
theorem fresh_stream {n : Nat} (hn : n ≤ 256) : Fresh stream n where
  delivers _ _ := Option.some_ne_none _
  distinct i hi j hj heq := by
    have hhead := congrArg List.Vector.head (Option.some.inj heq)
    have hnat := congrArg UInt8.toNat (show UInt8.ofNat i = UInt8.ofNat j from hhead)
    rw [UInt8.toNat_ofNat', UInt8.toNat_ofNat'] at hnat
    omega

end Knock

open Knock in
/-- One probe of `main`, among others, does not tell whether it exists. -/
theorem probes_alike_once :
    LookAlike
      (answersTo "main" ((hubWith "main").serve strict stream [knock "main", knock "other"] 1))
      (answersTo "main"
        ((hubWith "lounge").serve strict stream [knock "main", knock "other"] 1)) := by
  have hout (hub : ServerHub) :
      ∀ p ∈ [knock "main", knock "other"], Outsider strict stream hub p := by
    intro p hp
    rcases List.mem_cons.mp hp with rfl | hp
    · exact outsider_knock hub "main"
    · rw [List.mem_singleton.mp hp]
      exact outsider_knock hub "other"
  refine (probes_alike_iff (new_hubWith "main") (new_hubWith "lounge") ⟨by decide, by decide⟩
    (by decide) (by decide) (fresh_stream (by decide)) (hout _) (hout _)).mpr ?_
  decide

open Knock in
/-- Two probes do: the configured room repeats its salt. -/
theorem probed_twice :
    ¬ ∀ (kdf : Kdf) (snow : Responder) (fill₁ fill₂ : Nat → Option Key)
        (configs₁ configs₂ : List RoomConfig) (hub₁ hub₂ : ServerHub) (k₁ k₂ : Nat)
        (name : String) (probes : List Probe),
        ServerHub.new kdf fill₁ configs₁ = (.ok hub₁, k₁) →
        ServerHub.new kdf fill₂ configs₂ = (.ok hub₂, k₂) → AdmissibleName name →
        name ∈ configs₁.map RoomConfig.name → name ∉ configs₂.map RoomConfig.name →
        Fresh fill₁ (k₁ + 2 * probes.length) → Fresh fill₂ (k₂ + 2 * probes.length) →
        (∀ p ∈ probes, Outsider snow fill₁ hub₁ p) → (∀ p ∈ probes, Outsider snow fill₂ hub₂ p) →
        LookAlike (answersTo name (hub₁.serve snow fill₁ probes k₁))
          (answersTo name (hub₂.serve snow fill₂ probes k₂)) := by
  intro hall
  have hout (hub : ServerHub) :
      ∀ p ∈ [knock "main", knock "main"], Outsider strict stream hub p := by
    intro p hp
    have heq : p = knock "main" := by
      rcases List.mem_cons.mp hp with heq | hp
      · exact heq
      · exact List.mem_singleton.mp hp
    rw [heq]
    exact outsider_knock hub "main"
  -- one hub has the room, the other has not
  have halike := hall saltKdf strict stream stream [config "main"] [config "lounge"]
    (hubWith "main") (hubWith "lounge") 1 1 "main" [knock "main", knock "main"]
    (new_hubWith "main") (new_hubWith "lounge") ⟨by decide, by decide⟩ (by decide) (by decide)
    (fresh_stream (by decide)) (fresh_stream (by decide)) (hout _) (hout _)
  -- its salt comes twice from the one, and not from the other
  have hsame := (halike.2 0 1).mp (by decide)
  revert hsame
  decide

end ChatRs

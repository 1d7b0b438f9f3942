import ChatRs.Negotiation
import ChatRs.Server.Config

/-!
# The password on both sides (`cli.rs`)

The server reads the password of a room from a line of its config, the client from a variable of
its own. They have to come to the same bytes, since Argon2id hides every difference behind a
handshake that fails. They do so exactly for the passwords with no whitespace at an end
(**`same_password_iff`**): the parser of the config trims, `read_password` does not.
-/

namespace ChatRs

namespace Cli

/-- Mirrored in `server/rooms.rs`. -/
def MIN_PW_LEN : Nat := 12

/-- `rpassword::prompt_password`, with what is typed. -/
def promptPassword (typed : Option String) : Result (List UInt8) :=
  match typed with
  | none => .error .io
  | some pw => .ok (strBytes pw)

/-- The bytes that `read_password` goes on with: the variable's, unless it is not set or empty. -/
def rawPassword (env typed : Option String) : Result (List UInt8) :=
  match env with
  | none => promptPassword typed
  | some env => if ¬ env.isEmpty then .ok (strBytes env) else promptPassword typed

def readPassword (env typed : Option String) : Result (List UInt8) :=
  match rawPassword env typed with
  | .error e => .error e
  | .ok raw => if raw.length < MIN_PW_LEN then .error (.protocol "password too short") else .ok raw

/-- A password from the environment is taken as it is, if it is long enough. -/
theorem readPassword_of_env {p : String} {typed : Option String} {bytes : List UInt8}
    (hset : p ≠ "") (h : readPassword (some p) typed = .ok bytes) :
    bytes = strBytes p ∧ MIN_PW_LEN ≤ strLen p := by
  have hraw : rawPassword (some p) typed = .ok (strBytes p) :=
    if_pos (mt String.isEmpty_iff.mp hset)
  rw [readPassword, hraw] at h
  dsimp only at h
  split_ifs at h with hshort
  cases h
  exact ⟨rfl, Nat.not_lt.mp hshort⟩

end Cli

/-- The text configures the room with the line `name = p`, and other rooms before and after it. -/
structure Configures (text name p : String) (before after : List RoomConfig) : Prop where
  written : ∃ ls₁ ls₂ items₁ items₂,
    Text.Written '\n' '\r' text.toList (ls₁ ++ (name ++ " = " ++ p).toList :: ls₂)
      ∧ List.Forall₂ Rooms.IsLine ls₁ items₁ ∧ items₁.reduceOption = before
      ∧ List.Forall₂ Rooms.IsLine ls₂ items₂ ∧ items₂.reduceOption = after
  others : ∀ cfg ∈ before ++ after, Rooms.IsName cfg.name ∧ Rooms.IsPassword cfg.password
  distinct : (name :: (before ++ after).map RoomConfig.name).Nodup

section

variable {text name p : String} {before after : List RoomConfig}

/-- The password of a room has no end of line in it. -/
theorem Configures.oneLine (h : Configures text name p before after) : '\n' ∉ p.toList := by
  obtain ⟨ls₁, ls₂, items₁, items₂, hwritten, -⟩ := h.written
  have hline : '\n' ∉ (name ++ " = " ++ p).toList :=
    hwritten.not_mem _ (List.mem_append_right _ List.mem_cons_self)
  rw [String.toList_append] at hline
  exact fun hmem => hline (List.mem_append_right _ hmem)

/-- The config that is this line alone. -/
theorem Configures.line (htext : text = name ++ " = " ++ p) (h : '\n' ∉ text.toList) :
    Configures text name p [] [] where
  written := by
    subst htext
    have hne : (name ++ " = " ++ p).toList ≠ [] := by
      rw [String.toList_append, String.toList_append, List.append_assoc]
      exact List.append_ne_nil_of_right_ne_nil _ (List.cons_ne_nil _ _)
    exact ⟨[], [], [], [], .last h hne, .nil, rfl, .nil, rfl⟩
  others := List.forall_mem_nil _
  distinct := List.nodup_singleton _

/-- A password with no whitespace at an end is read as it is. -/
theorem Configures.parse (h : Configures text name p before after) (hname : Rooms.IsName name)
    (hp : Rooms.IsPassword p) :
    Rooms.parse text = .ok (before ++ { name := name, password := p } :: after) := by
  obtain ⟨ls₁, ls₂, items₁, items₂, hwritten, h₁, rfl, h₂, rfl⟩ := h.written
  have hblank : Text.Blank isWhitespace [' '] := Text.blank_singleton.mpr (by decide)
  have hnil : Text.Blank isWhitespace [] := List.forall_mem_nil _
  have hline : Rooms.IsLine (name ++ " = " ++ p).toList (some { name := name, password := p }) := by
    have hroom := Rooms.IsLine.room { name := name, password := p } hnil hblank hblank hnil
    -- the blanks around the `=` are those that the line may have
    have hsep : " = ".toList = [' '] ++ '=' :: [' '] := by decide
    rw [String.toList_append, String.toList_append, hsep]
    simpa only [List.nil_append, List.append_nil, List.append_assoc, List.cons_append] using hroom
  have hvalid : ∀ cfg ∈ items₁.reduceOption
      ++ { name := name, password := p } :: items₂.reduceOption,
      Rooms.IsName cfg.name ∧ Rooms.IsPassword cfg.password := by
    intro cfg hcfg
    rw [List.mem_append, List.mem_cons, or_left_comm, ← List.mem_append] at hcfg
    rcases hcfg with rfl | hcfg
    · exact ⟨hname, hp⟩
    · exact h.others cfg hcfg
  apply Rooms.parse_of_writes
  · exact {
      nonempty := List.append_ne_nil_of_right_ne_nil _ (List.cons_ne_nil _ _)
      distinct := by
        rw [List.map_append, List.map_cons, List.nodup_middle, ← List.map_append]
        exact h.distinct
      names := fun cfg hcfg => (hvalid cfg hcfg).1
      passwords := fun cfg hcfg => (hvalid cfg hcfg).2 }
  · refine ⟨_, items₁ ++ some { name := name, password := p } :: items₂, hwritten, ?_, ?_⟩
    · exact List.rel_append h₁ (.cons hline h₂)
    · rw [List.reduceOption_append, List.reduceOption_cons_of_some]

end

/-- **Both sides read the same password** exactly when no end of it is whitespace. For every room
name and every password that the client takes from its variable, and every config with the line
`name = p` in it: the config is accepted and gives the room the bytes that the client has, and
with them the same PSK from the same salt, if and only if the password is trimmed. -/
theorem same_password_iff (name p : String) (typed : Option String) (bytes : List UInt8)
    (hname : Rooms.validateName name = .ok ()) (hset : p ≠ "")
    (hread : Cli.readPassword (some p) typed = .ok bytes)
    (text : String) (before after : List RoomConfig)
    (hconfig : Configures text name p before after) :
    (∃ cfg : RoomConfig, Rooms.parse text = .ok (before ++ cfg :: after)
        ∧ cfg.name = name ∧ strBytes cfg.password = bytes
        ∧ ∀ kdf fill hub drawn,
            ServerHub.new kdf fill (before ++ cfg :: after) = (.ok hub, drawn) →
            ∃ room init, hub.rooms.lookup name = some room
              ∧ connect kdf name bytes (.ok room.hello) = .ok init
              ∧ init.keys.psk = room.psk) ↔
      Text.Trimmed isWhitespace p.toList := by
  obtain ⟨rfl, hlong⟩ := Cli.readPassword_of_env hset hread
  constructor
  · rintro ⟨cfg, hparse, -, hbytes, -⟩
    -- what a config gives has been trimmed
    rw [← strBytes_injective hbytes]
    have hcfg : cfg ∈ before ++ cfg :: after := List.mem_append_right _ List.mem_cons_self
    exact ((Rooms.writes_of_parse hparse).1.passwords cfg hcfg).trimmed
  · intro htrimmed
    have hname' := Rooms.validateName_eq_ok_iff.mp hname
    have hparse := hconfig.parse hname'
      { long := hlong, oneLine := hconfig.oneLine, trimmed := htrimmed }
    refine ⟨{ name := name, password := p }, hparse, rfl, rfl, fun kdf fill hub drawn hnew => ?_⟩
    -- the room has its keys from this very password, and the salt goes out with the hello
    have hdistinct := (Rooms.writes_of_parse hparse).1.distinct
    obtain ⟨room, keys, hlookup, hkeys, hpsk⟩ := deriveKeys_of_mem hnew hdistinct
      (List.mem_append_right before (List.mem_cons_self (l := after)))
    exact ⟨room, _, hlookup, connect_of_hello hkeys, hpsk.symm⟩

/-- A password of the config of the tests, in the only line of a config. -/
theorem same_password_changeme :
    ∃ cfg : RoomConfig, Rooms.parse "dev = changeme-12c" = .ok ([] ++ cfg :: [])
      ∧ cfg.name = "dev" ∧ strBytes cfg.password = strBytes "changeme-12c"
      ∧ ∀ kdf fill hub drawn,
          ServerHub.new kdf fill ([] ++ cfg :: []) = (.ok hub, drawn) →
          ∃ room init, hub.rooms.lookup "dev" = some room
            ∧ connect kdf "dev" (strBytes "changeme-12c") (.ok room.hello) = .ok init
            ∧ init.keys.psk = room.psk := by
  have hconfig : Configures "dev = changeme-12c" "dev" "changeme-12c" [] [] :=
    .line (by decide) (by decide)
  exact (same_password_iff "dev" "changeme-12c" none _ (by decide) (by decide) (by decide) _ [] []
    hconfig).mpr (by decide)

/-- **A trailing blank keeps a member out.** The client derives its keys from thirteen bytes, the
server from the first twelve of them. -/
theorem different_passwords :
    ¬ ∀ (name p : String) (typed : Option String) (bytes : List UInt8),
      Rooms.validateName name = .ok () → p ≠ "" → Cli.readPassword (some p) typed = .ok bytes →
      ∀ (text : String) (before after : List RoomConfig), Configures text name p before after →
      ∃ cfg : RoomConfig, Rooms.parse text = .ok (before ++ cfg :: after)
        ∧ cfg.name = name ∧ strBytes cfg.password = bytes := by
  intro hagree
  have hconfig : Configures "dev = changeme-12c " "dev" "changeme-12c " [] [] :=
    .line (by decide) (by decide)
  obtain ⟨cfg, hparse, -, hbytes⟩ := hagree "dev" "changeme-12c " none _ (by decide) (by decide)
    rfl _ [] [] hconfig
  have hread : Rooms.parse "dev = changeme-12c " =
      .ok [{ name := "dev", password := "changeme-12c" }] := by
    rfl
  rw [hread] at hparse
  cases hparse
  exact absurd hbytes (by decide)

end ChatRs

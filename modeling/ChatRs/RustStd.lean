import ChatRs.Lib.Text
import Mathlib.Data.List.AList
import Mathlib.Data.List.DropRight
import Mathlib.Data.Vector.Basic

/-!
# The Rust types the program is written in

`Instant` and `Duration` are counts of nanoseconds, a `HashMap` is an association list, a
`String` is Lean's own (a sequence of Unicode scalar values; `len` is its UTF-8 length; what
trims it follows the Unicode tables), fixed arrays are vectors of bytes, and
`String::from_utf8_lossy` is written out after its documentation: every maximal invalid piece
becomes one U+FFFD.
-/

namespace ChatRs

-- `[u8; n]`
abbrev ByteArr (n : Nat) := List.Vector UInt8 n

/-- `uuid::Uuid`: sixteen bytes. -/
abbrev Uuid := ByteArr 16

/-- A 32-byte key or salt. -/
abbrev Key := ByteArr 32

/-! ## Time -/

/-- `std::time::Instant`, in nanoseconds of a monotonic clock. -/
abbrev Instant := Nat

/-- `std::time::Duration`, in nanoseconds. -/
abbrev Duration := Nat

namespace Duration

def fromMillis (ms : Nat) : Duration := ms * 1000000

def fromSecs (s : Nat) : Duration := s * 1000000000

end Duration

/-- `Instant::duration_since`, which saturates at zero. -/
def Instant.durationSince (now earlier : Instant) : Duration := now - earlier

/-! ## Integers -/

/-- `u64::saturating_add`. -/
def saturatingAdd (a b : UInt64) : UInt64 :=
  if a.toNat + b.toNat < 2 ^ 64 then a + b else 0xFFFFFFFFFFFFFFFF

theorem saturatingAdd_toNat {a b : UInt64} (h : a.toNat + b.toNat < 2 ^ 64) :
    (saturatingAdd a b).toNat = a.toNat + b.toNat := by
  rw [saturatingAdd, if_pos h, UInt64.toNat_add]
  omega

/-! ## Maps

To `get`, an `insert` or a `remove` is an update of one key, and a `retain` the same for every
key.
-/

section

variable {κ ν : Type} [DecidableEq κ] (m : AList fun _ : κ => ν) (key k : κ)

theorem lookup_insert_eq_update (value : ν) :
    (m.insert key value).lookup k = Function.update (fun k => m.lookup k) key (some value) k := by
  rcases eq_or_ne k key with rfl | hne
  · rw [Function.update_self, AList.lookup_insert]
  · rw [Function.update_of_ne hne, AList.lookup_insert_ne hne]

theorem lookup_erase_eq_update :
    (m.erase key).lookup k = Function.update (fun k => m.lookup k) key none k := by
  rcases eq_or_ne k key with rfl | hne
  · rw [Function.update_self, AList.lookup_erase]
  · rw [Function.update_of_ne hne, AList.lookup_erase_ne hne]

/-- `HashMap::retain` with a closure that changes the value before it decides. -/
def retain (change : ν → ν) (keep : ν → Bool) (m : AList fun _ : κ => ν) :
    AList fun _ : κ => ν :=
  ⟨(m.entries.map fun e => ⟨e.1, change e.2⟩).filter fun e => keep e.2,
    (List.NodupKeys.map₂ (fun _ => change) _ m.nodupKeys).sublist List.filter_sublist⟩

/-- What `retain` leaves of an entry: it is changed, and then kept or not. -/
theorem lookup_retain (change : ν → ν) (keep : ν → Bool) :
    (retain change keep m).lookup k = ((m.lookup k).map change).filter keep := by
  refine Option.ext fun value => ?_
  rw [← Option.mem_def, AList.mem_lookup_iff, Option.filter_eq_some_iff,
    Option.map_eq_some_iff]
  constructor
  · intro h
    obtain ⟨hmem, hkeep⟩ := List.mem_filter.mp h
    obtain ⟨⟨key, old⟩, hentry, heq⟩ := List.mem_map.mp hmem
    cases heq
    exact ⟨⟨old, AList.mem_lookup_iff.mpr hentry, rfl⟩, hkeep⟩
  · rintro ⟨⟨old, hlookup, rfl⟩, hkeep⟩
    refine List.mem_filter.mpr ⟨List.mem_map.mpr ⟨⟨k, old⟩, ?_, rfl⟩, hkeep⟩
    exact AList.mem_lookup_iff.mp hlookup

end

/-! ## Strings -/

/-- `str::as_bytes`. -/
def strBytes (s : String) : List UInt8 := s.toUTF8.data.toList

/-- `str::len`: the number of bytes. -/
def strLen (s : String) : Nat := (strBytes s).length

theorem strBytes_injective : Function.Injective strBytes := by
  intro s t h
  apply String.toByteArray_inj.mp
  exact ByteArray.ext (Array.toList_inj.mp h)

theorem strBytes_eq_flatMap (s : String) :
    strBytes s = s.toList.flatMap String.utf8EncodeChar := by
  rw [strBytes, String.toUTF8_eq_toByteArray, ← String.utf8Encode_toList, List.utf8Encode,
    List.data_toByteArray]

/-- `u8::is_ascii_alphanumeric`. -/
def isAsciiAlphanumeric (b : UInt8) : Bool :=
  (0x30 ≤ b && b ≤ 0x39) || (0x41 ≤ b && b ≤ 0x5A) || (0x61 ≤ b && b ≤ 0x7A)

/-- What holds of every ASCII character can be checked one by one. -/
theorem forall_ascii {P : Char → Prop} (h : ∀ n < 0x80, P (Char.ofNat n)) (c : Char)
    (hc : c.toNat < 0x80) : P c := by
  rw [← Char.ofNat_toNat c]
  exact h c.toNat hc

theorem utf8EncodeChar_of_ascii {c : Char} (h : c.toNat < 0x80) :
    String.utf8EncodeChar c = [UInt8.ofNat c.toNat] := by
  have hle : c.val.toNat ≤ 0x7f := Nat.le_of_lt_succ h
  rw [String.utf8EncodeChar, if_pos hle]
  rfl

/-- Any other character starts with a byte that is not ASCII. -/
theorem exists_high_byte {c : Char} (h : 0x80 ≤ c.toNat) :
    ∃ b ∈ String.utf8EncodeChar c, 0x80 ≤ b.toNat := by
  have hnot : ¬ c.val.toNat ≤ 0x7f := Nat.not_le.mpr h
  rw [String.utf8EncodeChar, if_neg hnot]
  split_ifs
  all_goals
    refine ⟨_, List.mem_cons_self, ?_⟩
    rw [UInt8.toNat_ofNat']
    omega

/-- `char::is_whitespace`: the characters with Unicode's property White_Space. -/
def isWhitespace (c : Char) : Bool :=
  (0x09 ≤ c.val && c.val ≤ 0x0D) || c.val = 0x20 || c.val = 0x85 || c.val = 0xA0
    || c.val = 0x1680 || (0x2000 ≤ c.val && c.val ≤ 0x200A) || c.val = 0x2028 || c.val = 0x2029
    || c.val = 0x202F || c.val = 0x205F || c.val = 0x3000

/-- `str::trim_end`. -/
def trimEnd (s : String) : String := String.ofList (s.toList.rdropWhile isWhitespace)

/-- `str::trim`. -/
def trim (s : String) : String :=
  String.ofList ((s.toList.rdropWhile isWhitespace).dropWhile isWhitespace)

/-- `str::lines`: a line may end in `"\n"` or in `"\r\n"`, and the last one in nothing. -/
def lines (s : String) : List String := (Text.lines '\n' '\r' s.toList).map String.ofList

/-- `str::split_once`, at a character. -/
def splitOnce (s : String) (delimiter : Char) : Option (String × String) :=
  (Text.splitOnce delimiter s.toList).map fun ab => (String.ofList ab.1, String.ofList ab.2)

/-- `str::strip_prefix`. -/
def stripPrefix (s lead : String) : Option String :=
  if lead.toList.isPrefixOf s.toList then
    some (String.ofList (s.toList.drop lead.toList.length))
  else none

/-- `String::pop`, without the character it returns. -/
def dropLastChar (s : String) : String := String.ofList s.toList.dropLast

/-- The character that stands for undecodable bytes. -/
def replacementChar : Char := Char.ofNat 0xFFFD

/-- A UTF-8 continuation byte, `0b10xx_xxxx`. -/
def isCont (b : UInt8) : Bool := 0x80 ≤ b && b ≤ 0xBF

/-- The second bytes a three-byte sequence that starts with `b` may have. -/
def secondOfThree (b c : UInt8) : Bool :=
  if b = 0xE0 then 0xA0 ≤ c && c ≤ 0xBF
  else if b = 0xED then 0x80 ≤ c && c ≤ 0x9F
  else isCont c

/-- The second bytes a four-byte sequence that starts with `b` may have. -/
def secondOfFour (b c : UInt8) : Bool :=
  if b = 0xF0 then 0x90 ≤ c && c ≤ 0xBF
  else if b = 0xF4 then 0x80 ≤ c && c ≤ 0x8F
  else isCont c

/-- The payload bits of a continuation byte. -/
def contBits (b : UInt8) : Nat := b.toNat % 64

/-- The first character of `b :: bs` and what is left: a decoded character, or the
replacement for the longest piece that could have started one. -/
def lossyStep (b : UInt8) (bs : List UInt8) : Char × List UInt8 :=
  if b < 0x80 then (Char.ofNat b.toNat, bs)
  else if 0xC2 ≤ b && b ≤ 0xDF then
    match bs with
    | c :: rest =>
      if isCont c then (Char.ofNat (b.toNat % 32 * 64 + contBits c), rest)
      else (replacementChar, bs)
    | [] => (replacementChar, [])
  else if 0xE0 ≤ b && b ≤ 0xEF then
    match bs with
    | c :: rest =>
      if secondOfThree b c then
        match rest with
        | d :: rest' =>
          if isCont d then
            (Char.ofNat (b.toNat % 16 * 4096 + contBits c * 64 + contBits d), rest')
          else (replacementChar, rest)
        | [] => (replacementChar, [])
      else (replacementChar, bs)
    | [] => (replacementChar, [])
  else if 0xF0 ≤ b && b ≤ 0xF4 then
    match bs with
    | c :: rest =>
      if secondOfFour b c then
        match rest with
        | d :: rest' =>
          if isCont d then
            match rest' with
            | e :: rest'' =>
              if isCont e then
                (Char.ofNat (b.toNat % 8 * 262144 + contBits c * 4096 + contBits d * 64
                  + contBits e), rest'')
              else (replacementChar, rest')
            | [] => (replacementChar, [])
          else (replacementChar, rest)
        | [] => (replacementChar, [])
      else (replacementChar, bs)
    | [] => (replacementChar, [])
  else (replacementChar, bs)

/-- Every step takes at least one byte, so as many steps as there are bytes are enough. -/
def lossyGo : Nat → List UInt8 → List Char
  | 0, _ => []
  | _ + 1, [] => []
  | fuel + 1, b :: bs =>
    let (c, rest) := lossyStep b bs
    c :: lossyGo fuel rest

/-- `String::from_utf8_lossy`. -/
def fromUtf8Lossy (bs : List UInt8) : String := String.ofList (lossyGo bs.length bs)

-- "é", a stray continuation byte, a three-byte sequence cut short, "!"
example : lossyGo 7 [0xC3, 0xA9, 0x80, 0xE2, 0x82, 0x21] =
    ['é', replacementChar, replacementChar, '!'] := by decide

end ChatRs

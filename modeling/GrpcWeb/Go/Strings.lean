import Mathlib.Data.List.Infix
import GrpcWeb.Js.Text

/-!
# Go strings

The functions of the `strings`, `fmt` and `textproto` packages that the server uses. A Go string is
a sequence of bytes. `strings.ToLower` maps a string of ASCII bytes byte by byte; for other strings
it uses the Unicode tables, which stay a parameter (`Unicode`).
-/

namespace GrpcWeb.Go

/-- A string: its bytes. -/
abbrev GoString := Bytes

/-! ## Letter case -/

/-- `strings.ToLower` of a string with a byte that is not ASCII. -/
class Unicode where
  mapToLower : GoString → GoString

/-- A mapping for programs whose strings are ASCII, which do not use it. -/
@[reducible] def Unicode.unchanged : Unicode := ⟨id⟩

def isASCII (s : GoString) : Bool := s.all fun c => c < 0x80

def toLowerByte (c : UInt8) : UInt8 := if 0x41 ≤ c ∧ c ≤ 0x5A then c + 0x20 else c

/-- `strings.ToLower(s)`. -/
def toLower [Unicode] (s : GoString) : GoString :=
  if isASCII s then s.map toLowerByte else Unicode.mapToLower s

theorem toLower_of_isASCII [Unicode] {s : GoString} (h : isASCII s = true) :
    toLower s = s.map toLowerByte := if_pos h

/-- A mapping leaves no upper-case letter of ASCII. -/
class LawfulUnicode [Unicode] : Prop where
  toLowerByte_of_mem : ∀ (s : GoString), ∀ c ∈ Unicode.mapToLower s, toLowerByte c = c

/-- A mapping byte by byte. -/
@[reducible] def Unicode.byBytes : Unicode := ⟨fun s => s.map toLowerByte⟩

theorem toLowerByte_toLowerByte : ∀ c, toLowerByte (toLowerByte c) = toLowerByte c :=
  forall_byte (by decide +kernel)

theorem Unicode.lawful_byBytes : @LawfulUnicode Unicode.byBytes :=
  @LawfulUnicode.mk Unicode.byBytes fun _ c hc => by
    obtain ⟨b, -, rfl⟩ := List.mem_map.1 hc
    exact toLowerByte_toLowerByte b

/-- A string in lower case stays the same, if it is ASCII. -/
theorem toLower_toLower [Unicode] [LawfulUnicode] {s : GoString} (h : isASCII (toLower s) = true) :
    toLower (toLower s) = toLower s := by
  have hbyte : ∀ c ∈ toLower s, toLowerByte c = c := by
    intro c hc
    by_cases hs : isASCII s = true
    · rw [toLower_of_isASCII hs] at hc
      obtain ⟨b, -, rfl⟩ := List.mem_map.1 hc
      exact toLowerByte_toLowerByte b
    · rw [toLower, if_neg hs] at hc
      exact LawfulUnicode.toLowerByte_of_mem s c hc
  rw [toLower_of_isASCII h]
  conv_rhs => rw [← List.map_id (toLower s)]
  exact List.map_congr_left hbyte

/-! ## Substrings -/

/-- What stands before and behind the first occurrence of `old`. -/
def cut (old : GoString) : GoString → Option (GoString × GoString)
  | [] => if old = [] then some ([], []) else none
  | c :: s =>
    if old.isPrefixOf (c :: s) then some ([], (c :: s).drop old.length)
    else (cut old s).map fun p => (c :: p.1, p.2)

/-- `strings.Contains(s, sub)`. -/
def contains (s sub : GoString) : Bool := (cut sub s).isSome

/-- `strings.Replace(s, old, new, 1)`. -/
def replaceFirst (s old new : GoString) : GoString :=
  match cut old s with
  | none => s
  | some (before, behind) => before ++ new ++ behind

theorem cut_append_self (old s : GoString) : cut old (old ++ s) = some ([], s) := by
  rcases h : old ++ s with _ | ⟨c, t⟩
  · obtain ⟨rfl, rfl⟩ := List.append_eq_nil_iff.1 h
    rfl
  · rw [cut, ← h, if_pos (by simp), List.drop_left]

/-- `strings.Join(ss, sep)`. -/
def join (ss : List GoString) (sep : GoString) : GoString := sep.intercalate ss

/-- The blanks of `textproto.TrimString`. -/
def isSpace (c : UInt8) : Bool := c == 0x20 || c == 0x9 || c == 0xA || c == 0xD

/-- `textproto.TrimString(s)`. -/
def trimString (s : GoString) : GoString := (s.dropWhile isSpace).rdropWhile isSpace

/-- A string without surrounding blanks is left alone. -/
theorem trimString_eq_self {s : GoString} (hh : ∀ c ∈ s.head?, isSpace c = false)
    (hl : ∀ c ∈ s.getLast?, isSpace c = false) : trimString s = s := by
  have h1 : s.dropWhile isSpace = s := by
    rcases s with _ | ⟨c, s⟩
    · rfl
    · rw [List.dropWhile_cons_of_neg]
      simpa using hh c (by simp)
  rw [trimString, h1, List.rdropWhile_eq_self_iff]
  intro hne
  simpa using hl _ (List.getLast?_eq_some_getLast hne)

theorem mem_of_mem_trimString {s : GoString} {c : UInt8} (h : c ∈ trimString s) : c ∈ s := by
  have hpre : trimString s <+: s.dropWhile isSpace := List.rdropWhile_prefix _ _
  exact List.dropWhile_subset _ (hpre.subset h)

/-! ## Numbers -/

/-- `fmt.Sprintf("%d", n)`. -/
def sprintInt (n : ℕ) : GoString := (Js.decimalDigits n).map fun d => UInt8.ofNat (0x30 + d)

/-- The number that decimal digits spell. -/
def parseDigits (s : GoString) : Option ℕ :=
  if s ≠ [] ∧ s.all (fun c => 0x30 ≤ c && c ≤ 0x39) = true then
    some (s.foldl (fun n c => 10 * n + (c.toNat - 0x30)) 0)
  else none

/-- `strconv.ParseInt(s, 10, 64)`, when it returns no error. -/
def parseInt64 : GoString → Option ℤ
  | 0x2D :: s => (parseDigits s).bind fun n => if n ≤ 2 ^ 63 then some (-n : ℤ) else none
  | 0x2B :: s => (parseDigits s).bind fun n => if n < 2 ^ 63 then some (n : ℤ) else none
  | s => (parseDigits s).bind fun n => if n < 2 ^ 63 then some (n : ℤ) else none

/-! ## Unicode text -/

/-- `strings.TrimSpace` and `strings.EqualFold` of strings with a byte that is not ASCII. -/
class UnicodeText where
  trimSpace : GoString → GoString
  equalFold : GoString → GoString → Bool

/-- `unicode.IsSpace` of an ASCII character. -/
def isASCIISpace (c : UInt8) : Bool := c == 0x20 || (0x9 ≤ c && c ≤ 0xD)

/-- `strings.TrimSpace(s)`. -/
def trimSpace [UnicodeText] (s : GoString) : GoString :=
  if isASCII s then (s.dropWhile isASCIISpace).rdropWhile isASCIISpace else UnicodeText.trimSpace s

/-- `strings.EqualFold(s, t)`. -/
def equalFold [UnicodeText] (s t : GoString) : Bool :=
  if isASCII s && isASCII t then s.map toLowerByte == t.map toLowerByte
  else UnicodeText.equalFold s t

end GrpcWeb.Go

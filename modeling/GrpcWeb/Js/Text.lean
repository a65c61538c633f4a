import Mathlib.Data.Nat.Digits.Lemmas
import Mathlib.Data.List.DropRight
import Mathlib.Tactic.IntervalCases
import GrpcWeb.Foundations.BigEndian

/-!
# JavaScript strings and numbers

The parts of the language that the client's decisions rest on: strings as sequences of UTF-16 code
units, `String.prototype.trim`, `parseInt(_, 10)` and `decodeURIComponent`, as ECMA-262 describes
them.

`parseInt` gives NaN, an infinity or an integer-valued double. `Number` keeps just these; an
integer above `2 ^ 53` is rounded to the nearest double (`roundToDouble`), and below that bound it
is exact (`parseInt_decimal`).
-/

namespace GrpcWeb.Js

/-- A string: its UTF-16 code units. -/
abbrev JsString := List UInt16

/-- A string literal of the source; all of them are ASCII. -/
def js (s : String) : JsString := s.toList.map fun c => c.val.toUInt16

/-- `String.fromCharCode` of a list of bytes. -/
def fromCharCodes (b : Bytes) : JsString := b.map UInt8.toUInt16

/-! ## Blanks and letter case -/

/-- ECMA-262 `WhiteSpace` and `LineTerminator`. -/
def isWhiteSpace (c : UInt16) : Bool :=
  (0x9 ≤ c && c ≤ 0xD) || c == 0x20 || c == 0xA0 || c == 0x1680 || (0x2000 ≤ c && c ≤ 0x200A) ||
    c == 0x2028 || c == 0x2029 || c == 0x202F || c == 0x205F || c == 0x3000 || c == 0xFEFF

def trimStart (s : JsString) : JsString := s.dropWhile isWhiteSpace

def trim (s : JsString) : JsString := (trimStart s).rdropWhile isWhiteSpace

/-- `toLowerCase` of an ASCII code unit; the strings it is applied to are header names. -/
def toLowerCode (c : UInt16) : UInt16 := if 0x41 ≤ c ∧ c ≤ 0x5A then c + 0x20 else c

def toLowerCase (s : JsString) : JsString := s.map toLowerCode

/-- A string without surrounding blanks is left alone by `trim`. -/
theorem trim_eq_self {s : JsString} (hh : ∀ c ∈ s.head?, isWhiteSpace c = false)
    (hl : ∀ c ∈ s.getLast?, isWhiteSpace c = false) : trim s = s := by
  have h1 : trimStart s = s := by
    rcases s with _ | ⟨c, s⟩
    · rfl
    · rw [trimStart, List.dropWhile_cons_of_neg]
      simpa using hh c (by simp)
  rw [trim, h1, List.rdropWhile_eq_self_iff]
  intro hne
  simpa using hl _ (List.getLast?_eq_some_getLast hne)

theorem trim_cons_of_isWhiteSpace {c : UInt16} (hc : isWhiteSpace c = true) (s : JsString) :
    trim (c :: s) = trim s := by
  rw [trim, trim, trimStart, List.dropWhile_cons_of_pos hc]
  rfl

theorem length_trim (s : JsString) : (trim s).length ≤ s.length :=
  (List.rdropWhile_prefix ..).length_le.trans (List.dropWhile_suffix _).length_le

/-! ## Numbers -/

/-- The values `parseInt` can give: NaN, an integer-valued double, or an infinity. -/
inductive Number
  | nan
  | int (z : ℤ)
  | infinity (negative : Bool)
  deriving DecidableEq, Repr

/-- The double nearest to `n`, ties to even; `none` when it overflows. -/
def roundToDouble (n : ℕ) : Option ℕ :=
  if n < 2 ^ 53 then some n
  else
    let e := n.log2 - 52
    let q := n / 2 ^ e
    let r := n % 2 ^ e
    let q' := if 2 * r < 2 ^ e ∨ (2 * r = 2 ^ e ∧ q % 2 = 0) then q else q + 1
    if q' * 2 ^ e < 2 ^ 1024 then some (q' * 2 ^ e) else none

/-- The number a signed integer is converted to. -/
def Number.ofSigned (negative : Bool) (n : ℕ) : Number :=
  match roundToDouble n with
  | some m => .int (if negative then -m else m)
  | none => .infinity negative

/-- Neither NaN nor zero. -/
def Number.truthy : Number → Bool
  | .nan => false
  | .int z => z ≠ 0
  | .infinity _ => true

/-- `x >= 0`, which is false of NaN. -/
def Number.nonneg : Number → Bool
  | .nan => false
  | .int z => 0 ≤ z
  | .infinity negative => !negative

/-- `x > 0`. -/
def Number.isPositive : Number → Bool
  | .nan => false
  | .int z => 0 < z
  | .infinity negative => !negative

theorem Number.isPositive_eq (n : Number) : n.isPositive = (n.truthy && n.nonneg) := by
  cases n with
  | nan => rfl
  | infinity negative => simp [isPositive, truthy, nonneg]
  | int z =>
    rw [Bool.eq_iff_iff]
    simp only [isPositive, truthy, nonneg, decide_eq_true_eq, Bool.and_eq_true]
    omega

theorem Number.ne_zero_of_isPositive (n : Number) (h : n.isPositive = true) : n ≠ .int 0 := by
  rintro rfl
  simp [isPositive] at h

/-- The value of a decimal digit. -/
def digitValue (c : UInt16) : Option ℕ :=
  if 0x30 ≤ c ∧ c ≤ 0x39 then some (c.toNat - 0x30) else none

/-- The longest run of decimal digits at the front of a string. -/
def leadingDigits : JsString → List ℕ
  | [] => []
  | c :: s =>
    match digitValue c with
    | some d => d :: leadingDigits s
    | none => []

/-- The number with the given decimal digits, the most significant first. -/
def ofDecimalDigits (ds : List ℕ) : ℕ := ds.foldl (fun n d => 10 * n + d) 0

/-- The number with the digits at the front of a string, after its sign. -/
def parseUnsigned (negative : Bool) (s : JsString) : Number :=
  if leadingDigits s = [] then .nan
  else .ofSigned negative (ofDecimalDigits (leadingDigits s))

/-- `parseInt(s, 10)`. -/
def parseInt (s : JsString) : Number :=
  match trimStart s with
  | [] => .nan
  | c :: s =>
    if c = 0x2D then parseUnsigned true s
    else if c = 0x2B then parseUnsigned false s
    else parseUnsigned false (c :: s)

/-- The decimal digits of `n`, the most significant first. -/
def decimalDigits (n : ℕ) : List ℕ := if n = 0 then [0] else (Nat.digits 10 n).reverse

/-- `String(n)` of a natural number below `2 ^ 53`. -/
def decimal (n : ℕ) : JsString := (decimalDigits n).map fun d => UInt16.ofNat (0x30 + d)

theorem decimalDigits_lt {n d : ℕ} (h : d ∈ decimalDigits n) : d < 10 := by
  unfold decimalDigits at h
  split at h
  · simp only [List.mem_singleton] at h
    omega
  · exact Nat.digits_lt_base (by norm_num) (List.mem_reverse.1 h)

theorem decimalDigits_ne_nil (n : ℕ) : decimalDigits n ≠ [] := by
  unfold decimalDigits
  split
  · simp
  · rename_i h
    simpa only [ne_eq, List.reverse_eq_nil_iff, Nat.digits_eq_nil_iff_eq_zero] using h

theorem ofDecimalDigits_decimalDigits (n : ℕ) : ofDecimalDigits (decimalDigits n) = n := by
  unfold ofDecimalDigits decimalDigits
  split
  · simp_all
  · rw [List.foldl_reverse]
    conv_rhs => rw [← Nat.ofDigits_digits 10 n, Nat.ofDigits_eq_foldr]
    congr 1
    funext d m
    simp only [Nat.cast_id]
    omega

/-- The code unit of a digit. -/
theorem digitValue_ofNat {d : ℕ} (h : d < 10) : digitValue (UInt16.ofNat (0x30 + d)) = some d := by
  interval_cases d <;> decide

theorem leadingDigits_map {ds : List ℕ} (h : ∀ d ∈ ds, d < 10) :
    leadingDigits (ds.map fun d => UInt16.ofNat (0x30 + d)) = ds := by
  induction ds with
  | nil => rfl
  | cons d ds ih =>
    rw [List.map_cons, leadingDigits, digitValue_ofNat (h d (by simp)),
      ih fun d' hd' => h d' (by simp [hd'])]

theorem isWhiteSpace_of_digit {d : ℕ} (h : d < 10) :
    isWhiteSpace (UInt16.ofNat (0x30 + d)) = false ∧ UInt16.ofNat (0x30 + d) ≠ 0x2D ∧
      UInt16.ofNat (0x30 + d) ≠ 0x2B := by
  interval_cases d <;> decide

/-- **Reading a decimal number back**, exactly when a double holds it exactly. -/
theorem parseInt_decimal {n : ℕ} (h : n < 2 ^ 53) : parseInt (decimal n) = .int n := by
  have hlead : leadingDigits (decimal n) = decimalDigits n :=
    leadingDigits_map fun _ => decimalDigits_lt
  rcases hd : decimalDigits n with _ | ⟨d, ds⟩
  · exact absurd hd (decimalDigits_ne_nil n)
  have hs : decimal n = UInt16.ofNat (0x30 + d) :: ds.map fun d => UInt16.ofNat (0x30 + d) := by
    rw [decimal, hd, List.map_cons]
  obtain ⟨hw, hm, hp⟩ := isWhiteSpace_of_digit (decimalDigits_lt (n := n) (d := d) (by simp [hd]))
  have htrim : trimStart (decimal n) = decimal n := by
    rw [hs, trimStart, List.dropWhile_cons_of_neg (by rw [hw]; decide)]
  rw [parseInt, htrim, hs]
  simp only
  rw [if_neg hm, if_neg hp, ← hs, parseUnsigned, hlead, if_neg (by simp [hd]),
    ofDecimalDigits_decimalDigits, Number.ofSigned, roundToDouble, if_pos h]
  rfl

/-- The characters of a decimal number. -/
theorem mem_decimal {n : ℕ} {c : UInt16} (h : c ∈ decimal n) :
    0x30 ≤ c.toNat ∧ c.toNat ≤ 0x39 ∧ isWhiteSpace c = false := by
  obtain ⟨d, hd, rfl⟩ := List.mem_map.1 h
  have hlt := decimalDigits_lt hd
  refine ⟨?_, ?_, (isWhiteSpace_of_digit hlt).1⟩ <;> rw [UInt16.toNat_ofNat'] <;> omega

theorem trim_decimal (n : ℕ) : trim (decimal n) = decimal n :=
  trim_eq_self (fun _ hc => (mem_decimal (List.mem_of_mem_head? hc)).2.2)
    fun _ hc => (mem_decimal (List.mem_of_mem_getLast? hc)).2.2

theorem length_decimal {n : ℕ} (h : n < 2 ^ 53) : (decimal n).length ≤ 16 := by
  rw [decimal, List.length_map, decimalDigits]
  split
  · simp
  · rw [List.length_reverse]
    exact (Nat.digits_length_le_iff (by norm_num) n).2 (by omega)

/-! ## Percent-decoding -/

/-- The value of a hexadecimal digit. -/
def hexValue (c : UInt16) : Option ℕ :=
  if 0x30 ≤ c ∧ c ≤ 0x39 then some (c.toNat - 0x30)
  else if 0x41 ≤ c ∧ c ≤ 0x46 then some (c.toNat - 0x41 + 10)
  else if 0x61 ≤ c ∧ c ≤ 0x66 then some (c.toNat - 0x61 + 10)
  else none

/-- One escape `%XX` at the front of a string: its octet and what follows. -/
def percentOctet : JsString → Option (ℕ × JsString)
  | 0x25 :: h :: l :: s =>
    match hexValue h, hexValue l with
    | some a, some b => some (16 * a + b, s)
    | _, _ => none
  | _ => none

/-- `n` escapes at the front of a string. -/
def percentOctets : ℕ → JsString → Option (List ℕ × JsString)
  | 0, s => some ([], s)
  | n + 1, s =>
    match percentOctet s with
    | none => none
    | some (b, s) =>
      match percentOctets n s with
      | none => none
      | some (bs, s) => some (b :: bs, s)

/-- The number of octets of the UTF-8 sequence that starts with `b`, when one can. -/
def utf8Length (b : ℕ) : Option ℕ :=
  if b < 0x80 then some 1
  else if b < 0xC0 then none
  else if b < 0xE0 then some 2
  else if b < 0xF0 then some 3
  else if b < 0xF8 then some 4
  else none

/-- The code point that the octets encode: shortest form, no surrogate, at most `U+10FFFF`. -/
def utf8CodePoint (bs : List ℕ) : Option ℕ :=
  let cont (b : ℕ) : Bool := 0x80 ≤ b && b < 0xC0
  match bs with
  | [a] => if a < 0x80 then some a else none
  | [a, b] =>
    let v := (a - 0xC0) * 2 ^ 6 + (b - 0x80)
    if cont b ∧ 0x80 ≤ v then some v else none
  | [a, b, c] =>
    let v := (a - 0xE0) * 2 ^ 12 + (b - 0x80) * 2 ^ 6 + (c - 0x80)
    if cont b ∧ cont c ∧ 0x800 ≤ v ∧ ¬ (0xD800 ≤ v ∧ v < 0xE000) then some v else none
  | [a, b, c, d] =>
    let v := (a - 0xF0) * 2 ^ 18 + (b - 0x80) * 2 ^ 12 + (c - 0x80) * 2 ^ 6 + (d - 0x80)
    if cont b ∧ cont c ∧ cont d ∧ 0x10000 ≤ v ∧ v ≤ 0x10FFFF then some v else none
  | _ => none

/-- The code units of a code point. -/
def utf16Encode (v : ℕ) : JsString :=
  if v < 0x10000 then [UInt16.ofNat v]
  else [UInt16.ofNat (0xD800 + (v - 0x10000) / 2 ^ 10),
    UInt16.ofNat (0xDC00 + (v - 0x10000) % 2 ^ 10)]

/-- One character off a percent-encoded string: its code units and what follows, or `none` where
`decodeURIComponent` throws a `URIError`. -/
def decodeChar : JsString → Option (JsString × JsString)
  | [] => none
  | c :: s =>
    if c ≠ 0x25 then some ([c], s)
    else
      match percentOctet (c :: s) with
      | none => none
      | some (b, r) =>
        match utf8Length b with
        | none => none
        | some n =>
          match percentOctets (n - 1) r with
          | none => none
          | some (bs, r) => (utf8CodePoint (b :: bs)).map fun v => (utf16Encode v, r)

theorem length_of_percentOctet {s r : JsString} {b : ℕ} (h : percentOctet s = some (b, r)) :
    s.length = r.length + 3 := by
  unfold percentOctet at h
  split at h
  · split at h
    · obtain ⟨-, rfl⟩ := Prod.mk.inj (Option.some.inj h)
      rfl
    · cases h
  · cases h

theorem length_of_percentOctets {n : ℕ} {s r : JsString} {bs : List ℕ}
    (h : percentOctets n s = some (bs, r)) : r.length ≤ s.length := by
  induction n generalizing s r bs with
  | zero =>
    simp only [percentOctets, Option.some.injEq, Prod.mk.injEq] at h
    simp [h.2]
  | succ n ih =>
    simp only [percentOctets] at h
    split at h
    · cases h
    · rename_i b s' hb
      split at h
      · cases h
      · rename_i bs' s'' hbs
        simp only [Option.some.injEq, Prod.mk.injEq] at h
        have := length_of_percentOctet hb
        have := ih hbs
        simp only [← h.2]
        omega

/-- Decoding a character consumes something. -/
theorem length_of_decodeChar {s r u : JsString} (h : decodeChar s = some (u, r)) :
    r.length < s.length := by
  unfold decodeChar at h
  split at h
  · cases h
  · split at h
    · simp only [Option.some.injEq, Prod.mk.injEq] at h
      simp [← h.2]
    · split at h
      · cases h
      · rename_i hb
        split at h
        · cases h
        · split at h
          · cases h
          · rename_i hbs
            simp only [Option.map_eq_some_iff, Prod.mk.injEq] at h
            obtain ⟨v, -, -, rfl⟩ := h
            have hfirst := length_of_percentOctet hb
            have hrest := length_of_percentOctets hbs
            omega

/-- `decodeURIComponent(s)`, or `none` where it throws. -/
def decodeURIComponent (s : JsString) : Option JsString :=
  if s = [] then some []
  else
    match _h : decodeChar s with
    | none => none
    | some (u, r) => (decodeURIComponent r).map (u ++ ·)
termination_by s.length
decreasing_by exact length_of_decodeChar ‹_›

/-- One character of the decoded string: a code unit as it is, or an escape, which is longer than
what it stands for. -/
theorem decodeChar_eq_some {s u r : JsString} (h : decodeChar s = some (u, r)) :
    (∃ c, c ≠ 0x25 ∧ s = c :: r ∧ u = [c]) ∨ (0x25 ∈ s ∧ u.length + r.length < s.length) := by
  unfold decodeChar at h
  split at h
  · cases h
  rename_i c s
  split at h
  · rename_i hc
    obtain ⟨rfl, rfl⟩ := Prod.mk.inj (Option.some.inj h)
    exact .inl ⟨c, hc, rfl, rfl⟩
  rename_i hc
  split at h
  · cases h
  rename_i b r₁ hb
  split at h
  · cases h
  split at h
  · cases h
  rename_i bs r₂ hbs
  obtain ⟨v, -, heq⟩ := Option.map_eq_some_iff.1 h
  obtain ⟨rfl, rfl⟩ := Prod.mk.inj heq
  have hunits : (utf16Encode v).length ≤ 2 := by
    unfold utf16Encode
    split <;> simp
  have hfirst := length_of_percentOctet hb
  have hrest := length_of_percentOctets hbs
  exact .inr ⟨by simp [not_not.1 hc], by omega⟩

/-- **Decoding shortens a string** unless there is nothing to decode. -/
theorem length_decodeURIComponent {s t : JsString} (h : decodeURIComponent s = some t) :
    t.length ≤ s.length ∧ (0x25 ∈ s → t.length < s.length) := by
  fun_induction decodeURIComponent s generalizing t with
  | case1 =>
    cases h
    simp
  | case2 => cases h
  | case3 s hs u r hchar ih =>
    obtain ⟨t', ht', rfl⟩ := Option.map_eq_some_iff.1 h
    obtain ⟨hle, hlt⟩ := ih ht'
    rw [List.length_append]
    rcases decodeChar_eq_some hchar with ⟨c, hc, rfl, rfl⟩ | ⟨-, hshort⟩
    · simp only [List.length_cons, List.length_nil]
      refine ⟨by omega, fun hmem => ?_⟩
      have := hlt ((List.mem_cons.1 hmem).resolve_left (Ne.symm hc))
      omega
    · exact ⟨by omega, fun _ => by omega⟩

theorem decodeURIComponent_of_not_mem {s : JsString} (h : 0x25 ∉ s) :
    decodeURIComponent s = some s := by
  induction s with
  | nil => rw [decodeURIComponent, if_pos rfl]
  | cons c s ih =>
    obtain ⟨hc, hs⟩ := not_or.1 (mt List.mem_cons.2 h)
    have hchar : decodeChar (c :: s) = some ([c], s) := if_pos (Ne.symm hc)
    rw [decodeURIComponent, if_neg (List.cons_ne_nil _ _)]
    split
    · rename_i hnone
      rw [hchar] at hnone
      cases hnone
    · rename_i u r hsome
      rw [hchar] at hsome
      obtain ⟨rfl, rfl⟩ := Prod.mk.inj (Option.some.inj hsome)
      rw [ih hs]
      rfl

end GrpcWeb.Js

import GrpcWeb.Client.Xhr

/-!
# The bytes of a text

`new Buffer(s)`, which the fake transport makes its trailers with: the UTF-8 octets of a string,
with `U+FFFD` in the place of a surrogate that has no partner.

A string of ASCII characters is its own octets (`bufferFrom_of_ascii`), and where the octets are
ASCII the string is (`take_bufferFrom`).
-/

namespace GrpcWeb.Client

open Js

/-- The UTF-8 octets of a code point. -/
def utf8Octets (v : ℕ) : Bytes :=
  if v < 0x80 then [UInt8.ofNat v]
  else if v < 0x800 then [UInt8.ofNat (0xC0 + v / 2 ^ 6), UInt8.ofNat (0x80 + v % 2 ^ 6)]
  else if v < 0x10000 then
    [UInt8.ofNat (0xE0 + v / 2 ^ 12), UInt8.ofNat (0x80 + v / 2 ^ 6 % 2 ^ 6),
      UInt8.ofNat (0x80 + v % 2 ^ 6)]
  else
    [UInt8.ofNat (0xF0 + v / 2 ^ 18), UInt8.ofNat (0x80 + v / 2 ^ 12 % 2 ^ 6),
      UInt8.ofNat (0x80 + v / 2 ^ 6 % 2 ^ 6), UInt8.ofNat (0x80 + v % 2 ^ 6)]

/-- The octets of a code unit that is not one of a pair. -/
def unitOctets (c : UInt16) : Bytes :=
  if isLeadingSurrogate c || isTrailingSurrogate c then utf8Octets 0xFFFD else utf8Octets c.toNat

/-- `new Buffer(s)`. -/
def bufferFrom : JsString → Bytes
  | [] => []
  | [c] => unitOctets c
  | c :: d :: s =>
    if isLeadingSurrogate c && isTrailingSurrogate d then
      utf8Octets ((c.toNat - 0xD800) * 0x400 + (d.toNat - 0xDC00) + 0x10000) ++ bufferFrom s
    else unitOctets c ++ bufferFrom (d :: s)

/-! ## Octets -/

theorem utf8Octets_of_lt {v : ℕ} (h : v < 0x80) : utf8Octets v = [UInt8.ofNat v] := if_pos h

/-- The octets of a code point that is not ASCII. -/
theorem utf8Octets_of_ge {v : ℕ} (h : 0x80 ≤ v) (hv : v < 0x110000) :
    ∃ b octets, utf8Octets v = b :: octets ∧ 0x80 ≤ b ∧ 1 ≤ octets.length ∧
      (v < 0x10000 → octets.length ≤ 2) ∧ (0x10000 ≤ v → octets.length = 3) := by
  have hb {n : ℕ} (h : 0x80 ≤ n) (hn : n < 0x100) : 0x80 ≤ UInt8.ofNat n := by
    rw [UInt8.le_iff_toNat_le, UInt8.toNat_ofNat']
    simp
    omega
  rw [utf8Octets, if_neg (by omega)]
  split
  · exact ⟨_, _, rfl, hb (by omega) (by omega), by simp, by simp, by omega⟩
  · split
    · exact ⟨_, _, rfl, hb (by omega) (by omega), by simp, by simp, by omega⟩
    · exact ⟨_, _, rfl, hb (by omega) (by omega), by simp, by omega, by simp⟩

/-- **The first character of a string**: an ASCII character is its octet; another begins with an
octet that is not ASCII, and takes at most three octets for each of its code units. -/
theorem bufferFrom_cons (c : UInt16) (s : JsString) :
    (c.toNat < 0x80 ∧ bufferFrom (c :: s) = c.toUInt8 :: bufferFrom s) ∨
      (0x80 ≤ c.toNat ∧ ∃ b octets k, bufferFrom (c :: s) = b :: octets ++ bufferFrom (s.drop k) ∧
        0x80 ≤ b ∧ k ≤ s.length ∧ k ≤ octets.length ∧ octets.length ≤ 3 * k + 2) := by
  have hunit : (c.toNat < 0x80 ∧ unitOctets c = [c.toUInt8]) ∨
      (0x80 ≤ c.toNat ∧ ∃ b octets, unitOctets c = b :: octets ∧ 0x80 ≤ b ∧ octets.length ≤ 2) := by
    rw [unitOctets]
    split
    · rename_i hsurrogate
      rw [Bool.or_eq_true, isLeadingSurrogate_iff, isTrailingSurrogate_iff] at hsurrogate
      exact .inr ⟨by omega, _, _, rfl, by decide, by decide⟩
    · rcases Nat.lt_or_ge c.toNat 0x80 with hc | hc
      · exact .inl ⟨hc, utf8Octets_of_lt hc⟩
      · have hlt := c.toNat_lt
        obtain ⟨b, octets, heq, hb, -, hle, -⟩ := utf8Octets_of_ge hc (by omega)
        exact .inr ⟨hc, b, octets, heq, hb, hle (by omega)⟩
  have hsingle (h : bufferFrom (c :: s) = unitOctets c ++ bufferFrom s) :
      (c.toNat < 0x80 ∧ bufferFrom (c :: s) = c.toUInt8 :: bufferFrom s) ∨
        (0x80 ≤ c.toNat ∧ ∃ b octets k, bufferFrom (c :: s) = b :: octets ++ bufferFrom (s.drop k) ∧
          0x80 ≤ b ∧ k ≤ s.length ∧ k ≤ octets.length ∧ octets.length ≤ 3 * k + 2) := by
    rcases hunit with ⟨hc, heq⟩ | ⟨hc, b, octets, heq, hb, hle⟩
    · exact .inl ⟨hc, by rw [h, heq]; rfl⟩
    · exact .inr ⟨hc, b, octets, 0, by rw [h, heq, List.drop_zero],
        hb, by omega, by omega, by omega⟩
  rcases s with _ | ⟨d, s⟩
  · exact hsingle (by simp [bufferFrom])
  · by_cases hpair : (isLeadingSurrogate c && isTrailingSurrogate d) = true
    · obtain ⟨hlead, htrail⟩ := Bool.and_eq_true_iff.1 hpair
      rw [isLeadingSurrogate_iff] at hlead
      rw [isTrailingSurrogate_iff] at htrail
      obtain ⟨b, octets, heq, hb, -, -, hlen⟩ := utf8Octets_of_ge
        (v := (c.toNat - 0xD800) * 0x400 + (d.toNat - 0xDC00) + 0x10000) (by omega) (by omega)
      have hthree := hlen (by omega)
      refine .inr ⟨by omega, b, octets, 1, ?_, hb, by simp, by omega, by omega⟩
      rw [bufferFrom, if_pos hpair, heq]
      rfl
    · exact hsingle (by rw [bufferFrom, if_neg hpair])

/-! ## Strings -/

theorem bufferFrom_of_ascii {s : JsString} (h : ∀ c ∈ s, c.toNat < 0x80) :
    bufferFrom s = s.map UInt16.toUInt8 := by
  induction s with
  | nil => rfl
  | cons c s ih =>
    obtain ⟨hc, hs⟩ := List.forall_mem_cons.1 h
    rcases bufferFrom_cons c s with ⟨-, heq⟩ | ⟨hge, -⟩
    · rw [heq, ih hs, List.map_cons]
    · omega

/-- A code unit takes one octet to three. -/
theorem length_bufferFrom (s : JsString) :
    s.length ≤ (bufferFrom s).length ∧ (bufferFrom s).length ≤ 3 * s.length := by
  induction hn : s.length using Nat.strongRecOn generalizing s with
  | ind n ih =>
    rcases s with _ | ⟨c, s⟩
    · subst hn
      simp [bufferFrom]
    · rw [List.length_cons] at hn
      rcases bufferFrom_cons c s with ⟨-, heq⟩ | ⟨-, b, octets, k, heq, -, hk, hle, hge⟩
      · have := ih s.length (by omega) s rfl
        rw [heq, List.length_cons]
        omega
      · have := ih (s.drop k).length (by rw [List.length_drop]; omega) (s.drop k) rfl
        rw [List.length_drop] at this
        rw [heq, List.length_append, List.length_cons]
        omega

/-- **Where the octets are ASCII**, they are the characters of the string. -/
theorem take_bufferFrom {s : JsString} {n : ℕ} (h : ∀ b ∈ (bufferFrom s).take n, b < 0x80) :
    (bufferFrom s).take n = (s.take n).map UInt16.toUInt8 ∧ ∀ c ∈ s.take n, c.toNat < 0x80 := by
  induction s generalizing n with
  | nil => simp [bufferFrom]
  | cons c s ih =>
    rcases n with _ | n
    · simp
    rcases bufferFrom_cons c s with ⟨hc, heq⟩ | ⟨-, b, octets, k, heq, hb, -⟩
    · rw [heq, List.take_succ_cons] at h ⊢
      obtain ⟨-, hs⟩ := List.forall_mem_cons.1 h
      obtain ⟨heq, hascii⟩ := ih hs
      rw [heq, List.take_succ_cons, List.map_cons]
      exact ⟨rfl, List.forall_mem_cons.2 ⟨hc, hascii⟩⟩
    · have hmem : b ∈ (bufferFrom (c :: s)).take (n + 1) := by
        rw [heq, List.cons_append, List.take_succ_cons]
        exact List.mem_cons_self
      exact absurd (h b hmem) (UInt8.not_lt.2 hb)

end GrpcWeb.Client

import Mathlib.Data.List.TakeWhile
import GrpcWeb.Foundations.BigEndian

/-!
# Base64

The standard encoding with padding: three bytes become four symbols, and a rest of one or two bytes
is padded. `decode` accepts one padded text, in which line ends are ignored.

An `Encoder` is the streaming form: it keeps the bytes of an unfinished group, writes groups as they
fill and the padded rest when it is closed. What it writes between two closings is the encoding of
what it was given (`Encoder.exists_write`), so a stream that is closed several times is a row of
encoded segments. It writes in pieces (`Encoder.pieces`): the group that was unfinished, and then as
many groups at a time as its buffer holds.

Such a row is decoded segment by segment: `splitPadding` cuts it behind its first padding, and
`decodeSegments_flatMap` recovers the segments, although those that need no padding run into the
next one.
-/

namespace GrpcWeb.Base64

/-! ## Symbols -/

/-- The symbol of a number below 64. -/
def symbol (v : ℕ) : UInt8 :=
  if v < 26 then UInt8.ofNat (0x41 + v)
  else if v < 52 then UInt8.ofNat (0x61 + (v - 26))
  else if v < 62 then UInt8.ofNat (0x30 + (v - 52))
  else if v = 62 then 0x2B
  else 0x2F

/-- The number of a symbol. -/
def value (c : UInt8) : Option ℕ :=
  if 0x41 ≤ c ∧ c ≤ 0x5A then some (c.toNat - 0x41)
  else if 0x61 ≤ c ∧ c ≤ 0x7A then some (c.toNat - 0x61 + 26)
  else if 0x30 ≤ c ∧ c ≤ 0x39 then some (c.toNat - 0x30 + 52)
  else if c = 0x2B then some 62
  else if c = 0x2F then some 63
  else none

/-- The padding. -/
def pad : UInt8 := 0x3D

def isLineEnd (c : UInt8) : Bool := c == 0xA || c == 0xD

theorem symbol_spec {v : ℕ} (h : v < 64) :
    value (symbol v) = some v ∧ symbol v ≠ pad ∧ isLineEnd (symbol v) = false := by
  have key : ∀ n : Fin 64, value (symbol n) = some n.1 ∧ symbol n ≠ pad ∧
      isLineEnd (symbol n) = false := by decide +kernel
  exact key ⟨v, h⟩

/-! ## Encoding and decoding -/

def encode : Bytes → Bytes
  | [] => []
  | [a] => [symbol (a.toNat / 4), symbol (a.toNat % 4 * 16), pad, pad]
  | [a, b] =>
    [symbol (a.toNat / 4), symbol (a.toNat % 4 * 16 + b.toNat / 16), symbol (b.toNat % 16 * 4), pad]
  | a :: b :: c :: s =>
    symbol (a.toNat / 4) :: symbol (a.toNat % 4 * 16 + b.toNat / 16) ::
      symbol (b.toNat % 16 * 4 + c.toNat / 64) :: symbol (c.toNat % 64) :: encode s

/-- Groups of four symbols, of which the last may be padded. -/
def decodeGroups : Bytes → Option Bytes
  | [] => some []
  | c₁ :: c₂ :: c₃ :: c₄ :: s =>
    match value c₁, value c₂ with
    | some v₁, some v₂ =>
      if c₃ = pad then
        if c₄ = pad ∧ s = [] then some [UInt8.ofNat (v₁ * 4 + v₂ / 16)] else none
      else
        match value c₃ with
        | none => none
        | some v₃ =>
          if c₄ = pad then
            if s = [] then
              some [UInt8.ofNat (v₁ * 4 + v₂ / 16), UInt8.ofNat (v₂ % 16 * 16 + v₃ / 4)]
            else none
          else
            match value c₄ with
            | none => none
            | some v₄ =>
              (decodeGroups s).map fun t =>
                UInt8.ofNat (v₁ * 4 + v₂ / 16) :: UInt8.ofNat (v₂ % 16 * 16 + v₃ / 4) ::
                  UInt8.ofNat (v₃ % 4 * 64 + v₄) :: t
    | _, _ => none
  | _ => none

/-- One padded text, without its line ends. -/
def decode (s : Bytes) : Option Bytes := decodeGroups (s.filter fun c => !isLineEnd c)

/-- The induction along the groups of three. -/
theorem group_induction {motive : Bytes → Prop} (s : Bytes) (nil : motive [])
    (one : ∀ a, motive [a]) (two : ∀ a b, motive [a, b])
    (group : ∀ a b c s, motive s → motive (a :: b :: c :: s)) : motive s := by
  induction s using encode.induct with
  | case1 => exact nil
  | case2 a => exact one a
  | case3 a b => exact two a b
  | case4 a b c s ih => exact group a b c s ih

theorem decodeGroups_encode (s : Bytes) : decodeGroups (encode s) = some s := by
  induction s using group_induction with
  | nil => rfl
  | one a =>
    have ha := a.toNat_lt
    obtain ⟨h1, -, -⟩ := symbol_spec (v := a.toNat / 4) (by omega)
    obtain ⟨h2, -, -⟩ := symbol_spec (v := a.toNat % 4 * 16) (by omega)
    have e : a.toNat / 4 * 4 + a.toNat % 4 * 16 / 16 = a.toNat := by omega
    simp only [encode, decodeGroups, h1, h2, if_true, and_self, e, UInt8.ofNat_toNat]
  | two a b =>
    have ha := a.toNat_lt
    have hb := b.toNat_lt
    obtain ⟨h1, -, -⟩ := symbol_spec (v := a.toNat / 4) (by omega)
    obtain ⟨h2, -, -⟩ := symbol_spec (v := a.toNat % 4 * 16 + b.toNat / 16) (by omega)
    obtain ⟨h3, hp3, -⟩ := symbol_spec (v := b.toNat % 16 * 4) (by omega)
    have e1 : a.toNat / 4 * 4 + (a.toNat % 4 * 16 + b.toNat / 16) / 16 = a.toNat := by omega
    have e2 : (a.toNat % 4 * 16 + b.toNat / 16) % 16 * 16 + b.toNat % 16 * 4 / 4 = b.toNat := by
      omega
    simp only [encode, decodeGroups, h1, h2, h3, if_neg hp3, if_true, e1, e2, UInt8.ofNat_toNat]
  | group a b c s ih =>
    have ha := a.toNat_lt
    have hb := b.toNat_lt
    have hc := c.toNat_lt
    obtain ⟨h1, -, -⟩ := symbol_spec (v := a.toNat / 4) (by omega)
    obtain ⟨h2, -, -⟩ := symbol_spec (v := a.toNat % 4 * 16 + b.toNat / 16) (by omega)
    obtain ⟨h3, hp3, -⟩ := symbol_spec (v := b.toNat % 16 * 4 + c.toNat / 64) (by omega)
    obtain ⟨h4, hp4, -⟩ := symbol_spec (v := c.toNat % 64) (by omega)
    have e1 : a.toNat / 4 * 4 + (a.toNat % 4 * 16 + b.toNat / 16) / 16 = a.toNat := by omega
    have e2 : (a.toNat % 4 * 16 + b.toNat / 16) % 16 * 16 +
        (b.toNat % 16 * 4 + c.toNat / 64) / 4 = b.toNat := by omega
    have e3 : (b.toNat % 16 * 4 + c.toNat / 64) % 4 * 64 + c.toNat % 64 = c.toNat := by omega
    simp only [encode, decodeGroups, h1, h2, h3, h4, if_neg hp3, if_neg hp4, ih, Option.map_some,
      e1, e2, e3, UInt8.ofNat_toNat]

theorem encode_eq_nil {s : Bytes} (h : encode s = []) : s = [] := by
  have hs := decodeGroups_encode s
  rw [h] at hs
  exact (Option.some.inj hs).symm

theorem isLineEnd_encode (s : Bytes) : ∀ c ∈ encode s, isLineEnd c = false := by
  have hpad : isLineEnd pad = false := by decide
  induction s using group_induction with
  | nil => simp [encode]
  | one a =>
    have ha := a.toNat_lt
    simp only [encode, List.forall_mem_cons, List.not_mem_nil, false_implies, implies_true,
      and_true]
    exact ⟨(symbol_spec (by omega)).2.2, (symbol_spec (by omega)).2.2, hpad, hpad⟩
  | two a b =>
    have ha := a.toNat_lt
    have hb := b.toNat_lt
    simp only [encode, List.forall_mem_cons, List.not_mem_nil, false_implies, implies_true,
      and_true]
    exact ⟨(symbol_spec (by omega)).2.2, (symbol_spec (by omega)).2.2, (symbol_spec (by omega)).2.2,
      hpad⟩
  | group a b c s ih =>
    have ha := a.toNat_lt
    have hb := b.toNat_lt
    have hc := c.toNat_lt
    simp only [encode, List.forall_mem_cons]
    exact ⟨(symbol_spec (by omega)).2.2, (symbol_spec (by omega)).2.2, (symbol_spec (by omega)).2.2,
      (symbol_spec (by omega)).2.2, ih⟩

/-- **Decoding an encoded text.** -/
theorem decode_encode (s : Bytes) : decode (encode s) = some s := by
  rw [decode, List.filter_eq_self.2, decodeGroups_encode]
  intro c hc
  rw [isLineEnd_encode s c hc]
  rfl

/-- Whole groups are encoded one by one. -/
theorem encode_append {u : Bytes} (h : u.length % 3 = 0) (s : Bytes) :
    encode (u ++ s) = encode u ++ encode s := by
  induction u using group_induction with
  | nil => rfl
  | one a => simp at h
  | two a b => simp at h
  | group a b c u ih =>
    simp only [List.length_cons] at h
    simp only [List.cons_append, encode, ih (by omega)]

/-- The padding comes last, and there is none behind whole groups. -/
theorem encode_padding (s : Bytes) : ∃ text pads : Bytes, encode s = text ++ pads ∧
    (∀ c ∈ text, c ≠ pad) ∧ (∀ c ∈ pads, c = pad) ∧ (pads = [] ↔ s.length % 3 = 0) := by
  induction s using group_induction with
  | nil => exact ⟨[], [], rfl, by simp, by simp, by simp⟩
  | one a =>
    have ha := a.toNat_lt
    refine ⟨[_, _], [pad, pad], rfl, ?_, by simp, by simp⟩
    simp only [List.forall_mem_cons, List.not_mem_nil, false_implies, implies_true, and_true]
    exact ⟨(symbol_spec (by omega)).2.1, (symbol_spec (by omega)).2.1⟩
  | two a b =>
    have ha := a.toNat_lt
    have hb := b.toNat_lt
    refine ⟨[_, _, _], [pad], rfl, ?_, by simp, by simp⟩
    simp only [List.forall_mem_cons, List.not_mem_nil, false_implies, implies_true, and_true]
    exact ⟨(symbol_spec (by omega)).2.1, (symbol_spec (by omega)).2.1, (symbol_spec (by omega)).2.1⟩
  | group a b c s ih =>
    obtain ⟨text, pads, hs, ht, hp, hiff⟩ := ih
    have ha := a.toNat_lt
    have hb := b.toNat_lt
    have hc := c.toNat_lt
    refine ⟨_ :: _ :: _ :: _ :: text, pads, by rw [encode, hs]; rfl, ?_, hp, ?_⟩
    · simp only [List.forall_mem_cons]
      exact ⟨(symbol_spec (by omega)).2.1, (symbol_spec (by omega)).2.1,
        (symbol_spec (by omega)).2.1, (symbol_spec (by omega)).2.1, ht⟩
    · rw [hiff]
      simp only [List.length_cons]
      omega

/-! ## Segments -/

/-- A text up to the end of its first padding, and the rest. -/
def splitPadding (s : Bytes) : Bytes × Bytes :=
  (s.takeWhile (· ≠ pad) ++ (s.dropWhile (· ≠ pad)).takeWhile (· = pad),
    (s.dropWhile (· ≠ pad)).dropWhile (· = pad))

theorem splitPadding_length {s : Bytes} (h : s ≠ []) : (splitPadding s).2.length < s.length := by
  have hle (p : UInt8 → Bool) (t : Bytes) : (t.dropWhile p).length ≤ t.length :=
    (List.dropWhile_sublist p).length_le
  rcases s with _ | ⟨c, s⟩
  · exact absurd rfl h
  · simp only [splitPadding]
    by_cases hc : c = pad
    · rw [List.dropWhile_cons_of_neg (by simpa using hc),
        List.dropWhile_cons_of_pos (by simpa using hc)]
      exact Nat.lt_succ_of_le (hle _ _)
    · rw [List.dropWhile_cons_of_pos (by simpa using hc)]
      exact Nat.lt_succ_of_le ((hle _ _).trans (hle _ _))

/-- Decode a row of padded texts, each up to the end of its padding. -/
def decodeSegments (s : Bytes) : Option Bytes :=
  if _h : s = [] then some []
  else (decode (splitPadding s).1).bind fun t => (decodeSegments (splitPadding s).2).map (t ++ ·)
termination_by s.length
decreasing_by exact splitPadding_length _h

theorem decodeSegments_nil : decodeSegments [] = some [] := by
  rw [decodeSegments, dif_pos rfl]

theorem decodeSegments_of_split {s t rest : Bytes} (hs : s ≠ [])
    (h : splitPadding s = (encode t, rest)) (hd : decode (encode t) = some t) :
    decodeSegments s = (decodeSegments rest).map (t ++ ·) := by
  rw [decodeSegments, dif_neg hs]
  simp only [h, hd, Option.bind_some]

theorem splitPadding_append {text pads rest : Bytes} (ht : ∀ c ∈ text, c ≠ pad)
    (hp : ∀ c ∈ pads, c = pad) (hne : pads ≠ []) (hr : ∀ c ∈ rest.head?, c ≠ pad) :
    splitPadding (text ++ pads ++ rest) = (text ++ pads, rest) := by
  have htake : pads.takeWhile (· ≠ pad) = [] ∧ pads.dropWhile (· ≠ pad) = pads := by
    rcases pads with _ | ⟨c, pads⟩
    · exact absurd rfl hne
    · have hc := hp c (by simp)
      simp [hc]
  have hdrop : (pads ++ rest).dropWhile (· ≠ pad) = pads ++ rest := by
    rcases pads with _ | ⟨c, pads⟩
    · exact absurd rfl hne
    · have hc := hp c (by simp)
      simp [hc]
  have hrest : rest.takeWhile (· = pad) = [] ∧ rest.dropWhile (· = pad) = rest := by
    rcases rest with _ | ⟨c, rest⟩
    · exact ⟨rfl, rfl⟩
    · have hc := hr c (by simp)
      simp [hc]
  have ht' : ∀ c ∈ text, decide (c ≠ pad) = true := fun c hc => by simpa using ht c hc
  have hp' : ∀ c ∈ pads, decide (c = pad) = true := fun c hc => by simpa using hp c hc
  have htext : (text ++ pads ++ rest).takeWhile (· ≠ pad) = text := by
    rw [List.append_assoc, List.takeWhile_append_of_pos ht']
    rcases pads with _ | ⟨c, pads⟩
    · exact absurd rfl hne
    · have hc := hp c (by simp)
      simp [hc]
  rw [splitPadding, htext, List.append_assoc, List.dropWhile_append_of_pos ht', hdrop,
    List.takeWhile_append_of_pos hp', List.dropWhile_append_of_pos hp', hrest.1, hrest.2,
    List.append_nil]

theorem head?_encode (s : Bytes) : ∀ c ∈ (encode s).head?, c ≠ pad := by
  have hsymbol (a : UInt8) : symbol (a.toNat / 4) ≠ pad := by
    have ha := a.toNat_lt
    exact (symbol_spec (by omega)).2.1
  cases s using group_induction <;> simp [encode, hsymbol]

theorem head?_flatMap_encode (segs : List Bytes) : ∀ c ∈ (segs.flatMap encode).head?, c ≠ pad := by
  induction segs with
  | nil => simp
  | cons seg segs ih =>
    rw [List.flatMap_cons, List.head?_append]
    rcases hseg : (encode seg).head? with _ | c
    · exact ih
    · simpa using head?_encode seg c hseg

theorem decodeSegments_append {u : Bytes} (hu : u.length % 3 = 0) (segs : List Bytes) :
    decodeSegments (encode u ++ segs.flatMap encode) = some (u ++ segs.flatten) := by
  induction segs generalizing u with
  | nil =>
    obtain ⟨text, pads, htext, hne, -, hpads⟩ := encode_padding u
    obtain rfl := hpads.2 hu
    rw [List.append_nil] at htext
    rw [List.flatMap_nil, List.flatten_nil, List.append_nil, List.append_nil]
    have hsplit : splitPadding (encode u) = (encode u, []) := by
      have hall : ∀ c ∈ encode u, decide (c ≠ pad) = true := by simpa [htext] using hne
      rw [splitPadding, List.takeWhile_eq_self_iff.2 hall, List.dropWhile_eq_nil_iff.2 hall]
      simp
    by_cases hnil : encode u = []
    · have := decodeGroups_encode u
      rw [hnil] at this ⊢
      rw [decodeSegments_nil]
      exact this
    · rw [decodeSegments_of_split hnil hsplit (decode_encode u), decodeSegments_nil]
      simp
  | cons seg segs ih =>
    rw [List.flatMap_cons, List.flatten_cons, ← List.append_assoc, ← List.append_assoc,
      ← encode_append hu]
    by_cases hlen : (u ++ seg).length % 3 = 0
    · exact ih hlen
    · obtain ⟨text, pads, htext, hne, hpad, hpads⟩ := encode_padding (u ++ seg)
      have hpads' : pads ≠ [] := fun h => hlen (hpads.1 h)
      have hsplit : splitPadding (encode (u ++ seg) ++ segs.flatMap encode) =
          (encode (u ++ seg), segs.flatMap encode) := by
        rw [htext, splitPadding_append hne hpad hpads' (head?_flatMap_encode segs)]
      have hrest : decodeSegments (segs.flatMap encode) = some segs.flatten := by
        simpa [encode] using ih (u := []) rfl
      rw [decodeSegments_of_split (by simp [htext, hpads']) hsplit (decode_encode _), hrest]
      rfl

/-- **A row of encoded segments is decoded uniquely**, segment by segment at its paddings. -/
theorem decodeSegments_flatMap (segs : List Bytes) :
    decodeSegments (segs.flatMap encode) = some segs.flatten :=
  decodeSegments_append (u := []) rfl segs

/-! ## The streaming encoder -/

/-- Pieces of length `n`, the last of which may be shorter. -/
def cutEvery (n : ℕ) (s : Bytes) : List Bytes :=
  (List.range ((s.length + n - 1) / n)).map fun i => (s.drop (i * n)).take n

theorem flatten_cutEvery {n : ℕ} (hn : 0 < n) (s : Bytes) : (cutEvery n s).flatten = s := by
  have hfront (k : ℕ) :
      ((List.range k).map fun i => (s.drop (i * n)).take n).flatten = s.take (k * n) := by
    induction k with
    | zero => simp
    | succ k ih =>
      rw [List.range_succ, List.map_append, List.flatten_append, ih, Nat.succ_mul, List.take_add]
      simp
  have hle : s.length ≤ (s.length + n - 1) / n * n := by
    have := Nat.lt_div_mul_add (a := s.length + n - 1) hn
    omega
  rw [cutEvery, hfront, List.take_of_length_le hle]

/-- Whole groups are cut into whole groups. -/
theorem length_cutEvery {n : ℕ} (hn : n % 3 = 0) {s : Bytes} (hs : s.length % 3 = 0) :
    ∀ g ∈ cutEvery n s, g.length % 3 = 0 := by
  intro g hg
  obtain ⟨i, -, rfl⟩ := List.mem_map.1 hg
  have hi : i * n % 3 = 0 := by rw [Nat.mul_mod, hn, Nat.mul_zero]
  rw [List.length_take, List.length_drop]
  omega

/-- A streaming encoder: the bytes of its unfinished group. -/
structure Encoder where
  pending : Bytes
  short : pending.length < 3

namespace Encoder

def new : Encoder := ⟨[], by simp⟩

/-- Take in bytes: what is written, and the encoder after it. -/
def write (e : Encoder) (b : Bytes) : Bytes × Encoder :=
  let s := e.pending ++ b
  (encode (s.take (s.length / 3 * 3)),
    ⟨s.drop (s.length / 3 * 3), by simp only [List.length_drop]; omega⟩)

/-- Write the padded rest. -/
def close (e : Encoder) : Bytes := encode e.pending

/-- The groups that bytes fill, as they are written: the unfinished one by itself, then as many at a
time as fit in the buffer. -/
def groups (e : Encoder) (b : Bytes) : List Bytes :=
  let s := e.pending ++ b
  let filled := s.take (s.length / 3 * 3)
  let fringe := if e.pending = [] then 0 else 3
  (filled.take fringe :: cutEvery 768 (filled.drop fringe)).filter (· ≠ [])

/-- The texts that are written when bytes are taken in. -/
def pieces (e : Encoder) (b : Bytes) : List Bytes := (e.groups b).map encode

/-- The texts that are written when the encoder is closed. -/
def closing (e : Encoder) : List Bytes := if e.pending = [] then [] else [e.close]

theorem flatten_groups (e : Encoder) (b : Bytes) :
    (e.groups b).flatten = (e.pending ++ b).take ((e.pending ++ b).length / 3 * 3) := by
  have hfilter (gs : List Bytes) : (gs.filter (· ≠ [])).flatten = gs.flatten := by
    induction gs with
    | nil => rfl
    | cons g gs ih => by_cases hg : g = [] <;> simp_all
  rw [groups, hfilter, List.flatten_cons, flatten_cutEvery (by decide), List.take_append_drop]

theorem length_groups (e : Encoder) (b : Bytes) : ∀ g ∈ e.groups b, g.length % 3 = 0 := by
  have hfilled : ((e.pending ++ b).take ((e.pending ++ b).length / 3 * 3)).length % 3 = 0 := by
    rw [List.length_take, Nat.min_eq_left (Nat.div_mul_le_self _ _)]
    exact Nat.mul_mod_left _ _
  intro g hg
  rcases List.mem_cons.1 (List.mem_filter.1 hg).1 with rfl | hg
  · rw [List.length_take]
    split <;> omega
  · refine length_cutEvery (by decide) ?_ g hg
    rw [List.length_drop]
    split <;> omega

/-- **The pieces are what is written.** -/
theorem flatten_pieces (e : Encoder) (b : Bytes) : (e.pieces b).flatten = (e.write b).1 := by
  have hencode (gs : List Bytes) (h : ∀ g ∈ gs, g.length % 3 = 0) :
      (gs.map encode).flatten = encode gs.flatten := by
    induction gs with
    | nil => rfl
    | cons g gs ih =>
      obtain ⟨hg, hgs⟩ := List.forall_mem_cons.1 h
      rw [List.map_cons, List.flatten_cons, List.flatten_cons, ih hgs, encode_append hg]
  rw [pieces, hencode _ (length_groups e b), flatten_groups, write]

theorem flatten_closing (e : Encoder) : e.closing.flatten = e.close := by
  unfold closing close
  split
  · rename_i h
    rw [h]
    rfl
  · simp

/-- What is written is an encoded segment; what was given is the segment and what is kept. -/
theorem exists_write (e : Encoder) (b : Bytes) :
    ∃ seg, (e.write b).1 = encode seg ∧ e.pending ++ b = seg ++ (e.write b).2.pending :=
  ⟨_, rfl, (List.take_append_drop _ _).symm⟩

end Encoder

end GrpcWeb.Base64

import GrpcWeb.Client.ChunkParser
import GrpcWeb.Go.Header

/-!
# Header blocks of the server at the client

A header block that the server writes is a text of header lines to the client, whose collection has
under each name the values of the lines with that name (`get_write`). When one entry of the server's
map has the name, up to letter case, these are the values of the entry (`lines_of_unique`). This is
so for the names that the client takes (`ClientTakes`): a header name of the server may have an
exclamation mark, one of the client may not.
-/

namespace GrpcWeb.EndToEnd

open Js Go Client

/-! ## Strings -/

theorem fromCharCodes_append (s t : Bytes) :
    fromCharCodes (s ++ t) = fromCharCodes s ++ fromCharCodes t :=
  List.map_append

theorem toUInt8_fromCharCodes (s : Bytes) : (fromCharCodes s).map UInt16.toUInt8 = s := by
  rw [fromCharCodes, List.map_map]
  conv_rhs => rw [← List.map_id s]
  refine List.map_congr_left fun c _ => ?_
  simp

theorem fromCharCodes_injective : Function.Injective fromCharCodes := by
  intro s t h
  rw [← toUInt8_fromCharCodes s, h, toUInt8_fromCharCodes]

theorem mem_fromCharCodes {s : Bytes} {c : UInt8} : c.toUInt16 ∈ fromCharCodes s ↔ c ∈ s := by
  constructor
  · intro h
    have hmem := List.mem_map_of_mem (f := UInt16.toUInt8) h
    rw [toUInt8_fromCharCodes] at hmem
    simpa using hmem
  · exact List.mem_map_of_mem

/-- The characters of a name, at the client. -/
theorem isNameChar_of_isTokenByte {c : UInt8} (h : isTokenByte c = true) :
    (c ≠ 0x21 → isNameChar c.toUInt16 = true) ∧
      toLowerCode c.toUInt16 = (toLowerByte c).toUInt16 := by
  have key : ∀ c, isTokenByte c = true → (c ≠ 0x21 → isNameChar c.toUInt16 = true) ∧
      toLowerCode c.toUInt16 = (toLowerByte c).toUInt16 := forall_byte (by decide +kernel)
  exact key c h

theorem token_of_valid {k : GoString} (h : validHeaderFieldName k = true) :
    k ≠ [] ∧ k.all isTokenByte = true := by
  rw [validHeaderFieldName, Bool.and_eq_true, decide_eq_true_eq] at h
  exact h

theorem toLowerCase_fromCharCodes [Unicode] {k : GoString} (h : validHeaderFieldName k = true) :
    toLowerCase (fromCharCodes k) = fromCharCodes (toLower k) := by
  have htoken := (token_of_valid h).2
  rw [toLower_of_isASCII (isASCII_of_token htoken)]
  simp only [toLowerCase, fromCharCodes, List.map_map]
  exact List.map_congr_left fun c hc =>
    (isNameChar_of_isTokenByte (List.all_eq_true.1 htoken c hc)).2

/-- A name of which the client's collections make a header name: without an exclamation mark, and
not the name of what every object has. -/
structure ClientTakes [Unicode] (k : GoString) : Prop where
  bang : 0x21 ∉ toLower k
  field : toLower k ∉ [ascii "constructor", ascii "__proto__"]

instance [Unicode] (k : GoString) : Decidable (ClientTakes k) :=
  decidable_of_iff (0x21 ∉ toLower k ∧ toLower k ∉ [ascii "constructor", ascii "__proto__"])
    ⟨fun h => ⟨h.1, h.2⟩, fun h => ⟨h.bang, h.field⟩⟩

/-- It depends on the lower-case name only. -/
theorem ClientTakes.of_toLower [Unicode] {k k' : GoString} (h : ClientTakes k)
    (heq : toLower k' = toLower k) : ClientTakes k' :=
  ⟨heq ▸ h.bang, heq ▸ h.field⟩

theorem isName_fromCharCodes [Unicode] {k : GoString} (h : validHeaderFieldName k = true)
    (hk : ClientTakes k) : IsName (fromCharCodes k) := by
  obtain ⟨hne, htoken⟩ := token_of_valid h
  refine ⟨by simpa [fromCharCodes] using hne, fun c hc => ?_, ?_⟩
  · obtain ⟨b, hb, rfl⟩ := List.mem_map.1 hc
    refine (isNameChar_of_isTokenByte (List.all_eq_true.1 htoken b hb)).1 ?_
    rintro rfl
    refine hk.bang ?_
    rw [toLower_of_isASCII (isASCII_of_token htoken)]
    exact List.mem_map.2 ⟨0x21, hb, by decide⟩
  · have hnames : objectNames = [ascii "constructor", ascii "__proto__"].map fromCharCodes := by
      decide
    rw [toLowerCase_fromCharCodes h, hnames, List.mem_map_of_injective fromCharCodes_injective]
    exact hk.field

/-- Printable ASCII without surrounding blanks. -/
def IsPrintable (v : GoString) : Prop :=
  (∀ c ∈ v, 0x20 ≤ c ∧ c ≤ 0x7E) ∧ v.head? ≠ some 0x20 ∧ v.getLast? ≠ some 0x20

instance (v : GoString) : Decidable (IsPrintable v) := inferInstanceAs (Decidable (_ ∧ _))

theorem isSpace_of_printable {c : UInt8} (h : 0x20 ≤ c ∧ c ≤ 0x7E) (hc : c ≠ 0x20) :
    isSpace c = false ∧ isWhiteSpace c.toUInt16 = false := by
  have key : ∀ c : UInt8, (0x20 ≤ c ∧ c ≤ 0x7E) → c ≠ 0x20 →
      isSpace c = false ∧ isWhiteSpace c.toUInt16 = false := forall_byte (by decide +kernel)
  exact key c h hc

/-- Such a value is written and read as it is. -/
theorem IsPrintable.trim_written {v : GoString} (h : IsPrintable v) :
    Header.writtenValue v = v ∧ trim (fromCharCodes v) = fromCharCodes v := by
  obtain ⟨hall, hhead, hlast⟩ := h
  have hfirst : ∀ c ∈ v.head?, isSpace c = false ∧ isWhiteSpace c.toUInt16 = false := by
    intro c hc
    refine isSpace_of_printable (hall c (List.mem_of_mem_head? hc)) ?_
    rintro rfl
    exact hhead hc
  have hend : ∀ c ∈ v.getLast?, isSpace c = false ∧ isWhiteSpace c.toUInt16 = false := by
    intro c hc
    refine isSpace_of_printable (hall c (List.mem_of_mem_getLast? hc)) ?_
    rintro rfl
    exact hlast hc
  constructor
  · refine Header.writtenValue_eq_self (fun c hc => ?_) (fun c hc => (hfirst c hc).1)
      fun c hc => (hend c hc).1
    constructor <;> rintro rfl <;> exact absurd (hall _ hc).1 (by decide)
  · refine trim_eq_self ?_ ?_
    · intro c hc
      rw [fromCharCodes, List.head?_map] at hc
      obtain ⟨b, hb, rfl⟩ := Option.map_eq_some_iff.1 hc
      exact (hfirst b hb).2
    · intro c hc
      rw [fromCharCodes, List.getLast?_map] at hc
      obtain ⟨b, hb, rfl⟩ := Option.map_eq_some_iff.1 hc
      exact (hend b hb).2

theorem IsPrintable.isValidHeaderAscii {v : GoString} (hv : IsPrintable v) {c : UInt8}
    (hc : c ∈ v) : Client.isValidHeaderAscii c.toNat = true := by
  obtain ⟨h1, h2⟩ := hv.1 c hc
  rw [UInt8.le_iff_toNat_le] at h1 h2
  simp only [Client.isValidHeaderAscii, Bool.or_eq_true, Bool.and_eq_true, decide_eq_true_eq]
  exact Or.inr ⟨h1, h2⟩

/-- A number that the server prints is printable. -/
theorem isPrintable_sprintInt (n : ℕ) : IsPrintable (sprintInt n) := by
  have key : ∀ d : Fin 10, (0x20 ≤ UInt8.ofNat (0x30 + d) ∧ UInt8.ofNat (0x30 + d) ≤ 0x7E) ∧
      UInt8.ofNat (0x30 + d) ≠ 0x20 := by decide
  have hdigit : ∀ c ∈ sprintInt n, (0x20 ≤ c ∧ c ≤ 0x7E) ∧ c ≠ 0x20 := by
    intro c hc
    obtain ⟨d, hd, rfl⟩ := List.mem_map.1 hc
    exact key ⟨d, decimalDigits_lt hd⟩
  exact ⟨fun c hc => (hdigit c hc).1, fun h => (hdigit _ (List.mem_of_mem_head? h)).2 rfl,
    fun h => (hdigit _ (List.mem_of_mem_getLast? h)).2 rfl⟩

theorem fromCharCodes_sprintInt (n : ℕ) : fromCharCodes (sprintInt n) = decimal n := by
  have key : ∀ d : Fin 10, (UInt8.ofNat (0x30 + d)).toUInt16 = UInt16.ofNat (0x30 + d) := by decide
  rw [fromCharCodes, sprintInt, decimal, List.map_map]
  exact List.map_congr_left fun d hd => key ⟨d, decimalDigits_lt hd⟩

/-! ## Blocks -/

/-- **A block is a text of header lines.** -/
theorem fromCharCodes_write (h : Header) :
    fromCharCodes h.write =
      headerText (h.writtenLines.map fun l => (fromCharCodes l.1, fromCharCodes l.2)) := by
  have hsep : fromCharCodes (ascii ": ") = js ": " := by decide
  have hend : fromCharCodes (ascii "\r\n") = js "\r\n" := by decide
  rw [Header.write, headerText, List.flatMap_map, fromCharCodes, List.map_flatMap]
  refine List.flatMap_congr fun l _ => ?_
  rw [← hsep, ← hend]
  simp only [← fromCharCodes_append]
  rfl

theorem written_lines {h : Header} {l : GoString × GoString} (hl : l ∈ h.writtenLines) :
    validHeaderFieldName l.1 = true ∧ 0xD ∉ l.2 ∧ 0xA ∉ l.2 := by
  refine ⟨(Header.mem_writtenLines hl).2, ?_⟩
  obtain ⟨e, -, hl⟩ := List.mem_flatMap.1 hl
  obtain ⟨v, -, rfl⟩ := List.mem_map.1 hl
  exact ⟨fun hc => (Header.mem_writtenValue hc).2 rfl, fun hc => (Header.mem_writtenValue hc).1 rfl⟩

section

variable {M : Type} [BrowserHeaders M] [LawfulBrowserHeaders M] [Unicode]

/-- **What the client has of a block**: under each name the values of its lines, also in a copy. -/
theorem get_write {h : Header}
    (hnames : ∀ k ∈ h, validHeaderFieldName k = true → ClientTakes k) : ∃ m : M,
    BrowserHeaders.construct (.text (fromCharCodes h.write)) = .ok m ∧
      ∀ name : GoString, validHeaderFieldName name = true → ClientTakes name →
        BrowserHeaders.get m (fromCharCodes name) =
          ((h.writtenLines.filter fun l => toLower l.1 = toLower name).map fun l =>
            trim (fromCharCodes l.2)) ∧
        BrowserHeaders.get (BrowserHeaders.copy m) (fromCharCodes name) =
          BrowserHeaders.get m (fromCharCodes name) := by
  obtain ⟨m, hm, hget⟩ := LawfulBrowserHeaders.construct_text (M := M)
    (h.writtenLines.map fun l => (fromCharCodes l.1, fromCharCodes l.2)) <| by
      intro _ hmem
      obtain ⟨l, hl, rfl⟩ := List.mem_map.1 hmem
      obtain ⟨hvalid, hcr, hlf⟩ := written_lines hl
      have htakes := hnames l.1 (Header.mem_writtenLines hl).1 hvalid
      exact ⟨isName_fromCharCodes hvalid htakes, fun hc => hcr (mem_fromCharCodes.1 hc),
        fun hc => hlf (mem_fromCharCodes.1 hc)⟩
  refine ⟨m, by rw [fromCharCodes_write, hm], fun name hname htakes => ?_⟩
  obtain ⟨hvalues, hcopy⟩ := hget _ (isName_fromCharCodes hname htakes)
  refine ⟨?_, hcopy⟩
  rw [hvalues, linesNamed, List.filter_map, List.map_map]
  congr 1
  refine List.filter_congr fun l hl => ?_
  rw [Function.comp_apply, toLowerCase_fromCharCodes (written_lines hl).1,
    toLowerCase_fromCharCodes hname, decide_eq_decide]
  exact fromCharCodes_injective.eq_iff

end

section

variable [Unicode]

/-- The lines of a name that one entry has. -/
theorem lines_of_unique {h : Header} {k : GoString} {vs : List GoString} (hk : h[k]? = some vs)
    (hvalid : validHeaderFieldName k = true)
    (hother : ∀ k' ∈ h, validHeaderFieldName k' = true → toLower k' = toLower k → k' = k) :
    (h.writtenLines.filter fun l => toLower l.1 = toLower k) =
      vs.map fun v => (k, Header.writtenValue v) :=
  Header.writtenLines_filter hk hvalid (p := fun n => decide (toLower n = toLower k)) (by simp)
    fun k' hk' hv hne => decide_eq_false fun heq => hne (hother k' hk' hv heq)

/-- The lines of a name that no entry has. -/
theorem lines_of_absent {h : Header} {name : GoString}
    (habsent : ∀ k ∈ h, validHeaderFieldName k = true → toLower k ≠ toLower name) :
    (h.writtenLines.filter fun l => toLower l.1 = toLower name) = [] := by
  rw [List.filter_eq_nil_iff]
  intro l hl
  obtain ⟨hmem, hvalid⟩ := Header.mem_writtenLines hl
  simpa using habsent l.1 hmem hvalid

end

/-! ## Characters -/

/-- The values of a header map are printable, up to tabs and line ends. -/
def AsciiValues (h : Header) : Prop :=
  ∀ (k : GoString) (vs : List GoString), h[k]? = some vs → ∀ v ∈ vs, ∀ c ∈ v,
    isValidHeaderAscii c.toNat = true

theorem isValidHeaderAscii_of_isTokenByte {c : UInt8} (h : isTokenByte c = true) :
    isValidHeaderAscii c.toNat = true := by
  have key : ∀ c, isTokenByte c = true → isValidHeaderAscii c.toNat = true :=
    forall_byte (by decide +kernel)
  exact key c h

/-- The client allows the characters of a block with such values. -/
theorem allowed_write {h : Header} (hh : AsciiValues h) :
    ∀ c ∈ h.write, isValidHeaderAscii c.toNat = true := by
  have hsep : ∀ c ∈ ascii ": ", isValidHeaderAscii c.toNat = true := List.all_eq_true.1 (by decide)
  have hend : ∀ c ∈ ascii "\r\n", isValidHeaderAscii c.toNat = true :=
    List.all_eq_true.1 (by decide)
  intro c hc
  obtain ⟨l, hl, hc⟩ := List.mem_flatMap.1 hc
  obtain ⟨⟨k, vs⟩, he, hl'⟩ := List.mem_flatMap.1 hl
  obtain ⟨v, hv, rfl⟩ := List.mem_map.1 hl'
  simp only [List.mem_append] at hc
  rcases hc with ((hc | hc) | hc) | hc
  · have htoken := (token_of_valid (written_lines hl).1).2
    exact isValidHeaderAscii_of_isTokenByte (List.all_eq_true.1 htoken c hc)
  · exact hsep c hc
  · obtain ⟨b, hb, rfl⟩ := List.mem_map.1 (mem_of_mem_trimString hc)
    split
    · decide
    · have hlist := (List.mem_filter.1 he).1
      exact hh k vs (Std.ExtTreeMap.mem_toList_iff_getElem?_eq_some.1 hlist) v hv b hb
  · exact hend c hc

end GrpcWeb.EndToEnd

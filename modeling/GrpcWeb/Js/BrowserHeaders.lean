import GrpcWeb.Js.Text

/-!
# Header collections in the browser

`Metadata` is the `BrowserHeaders` class of the browser-headers package, whose source is not part
of the repository. `BrowserHeaders M` is its interface on a type `M` of header collections, and
`LawfulBrowserHeaders M` is the part of its documented behaviour that the results on the client
rest on, and `TextualBrowserHeaders M` what it documents for texts of any other form. The client
itself is modelled over the interface alone.

The package takes the token characters in a name, all but the exclamation mark, and keeps the values
under lower-case names as the fields of an object. The laws are about the names for which that is a
dictionary (`IsName`): an object has a `constructor` and a `__proto__` of its own.

`HeaderFields` is an implementation that follows the package's documentation: names are compared
without regard to case, a text is split at its line ends and each line at its first colon, and
values keep their order.
-/

namespace GrpcWeb.Js

/-- What a collection can be constructed from: a text of CRLF-terminated lines, an object of
fields, or another collection. -/
inductive HeadersInit (M : Type)
  | text (s : JsString)
  | object (fields : List (JsString × List JsString))
  | headers (m : M)

/-- The interface of `BrowserHeaders`. The constructor throws on a name with a character that no
header name can have; the `Except` carries the message. -/
class BrowserHeaders (M : Type) where
  construct : HeadersInit M → Except JsString M
  empty : M
  copy : M → M
  get : M → JsString → List JsString
  set : M → JsString → JsString → M
  entries : M → List (JsString × List JsString)

/-- The characters of a header name. -/
def isNameChar (c : UInt16) : Bool :=
  (0x61 ≤ c && c ≤ 0x7A) || (0x41 ≤ c && c ≤ 0x5A) || (0x30 ≤ c && c ≤ 0x39) ||
    (js "#$%&'*+-.^_|~").contains c || c == 0x60

/-- The lower-case names of what every object has. -/
def objectNames : List JsString := [js "constructor", js "__proto__"]

/-- A header name. -/
structure IsName (n : JsString) : Prop where
  ne_nil : n ≠ []
  chars : ∀ c ∈ n, isNameChar c = true
  not_mem : toLowerCase n ∉ objectNames

instance (n : JsString) : Decidable (IsName n) :=
  decidable_of_iff (n ≠ [] ∧ n.all isNameChar = true ∧ toLowerCase n ∉ objectNames)
    ⟨fun h => ⟨h.1, List.all_eq_true.1 h.2.1, h.2.2⟩,
      fun h => ⟨h.ne_nil, List.all_eq_true.2 h.chars, h.not_mem⟩⟩

/-- A text of header lines. -/
def headerText (lines : List (JsString × JsString)) : JsString :=
  lines.flatMap fun l => l.1 ++ js ": " ++ l.2 ++ js "\r\n"

/-- The lines that carry a name, compared without regard to case. -/
def linesNamed (name : JsString) (lines : List (JsString × JsString)) :
    List (JsString × JsString) :=
  lines.filter fun l => toLowerCase l.1 = toLowerCase name

/-- Documented behaviour of `BrowserHeaders`: a text of well-formed lines gives the trimmed values
under each name in their order, also in a copy; a copy of any collection has the values of the
original under names with a hyphen, which no object has of its own; and a new collection has
none. -/
class LawfulBrowserHeaders (M : Type) [BrowserHeaders M] : Prop where
  construct_text (lines : List (JsString × JsString))
    (h : ∀ l ∈ lines, IsName l.1 ∧ 0xD ∉ l.2 ∧ 0xA ∉ l.2) :
    ∃ m : M, BrowserHeaders.construct (.text (headerText lines)) = .ok m ∧
      ∀ name, IsName name →
        BrowserHeaders.get m name = ((linesNamed name lines).map fun l => trim l.2) ∧
          BrowserHeaders.get (BrowserHeaders.copy m) name = BrowserHeaders.get m name
  get_copy (m : M) {name : JsString} (h : IsName name) (hyphen : 0x2D ∈ name) :
    BrowserHeaders.get (BrowserHeaders.copy m) name = BrowserHeaders.get m name
  get_empty {name : JsString} (h : IsName name) :
    BrowserHeaders.get (BrowserHeaders.empty : M) name = []

theorem lt_of_isNameChar {c : UInt16} (h : isNameChar c = true) : c.toNat < 128 := by
  by_contra hc
  have hlist : (js "#$%&'*+-.^_|~").all (fun x => x.toNat < 128) = true := by decide
  simp only [isNameChar, Bool.or_eq_true, Bool.and_eq_true, decide_eq_true_eq, beq_iff_eq,
    List.contains_iff_mem, UInt16.le_iff_toNat_le] at h
  rcases h with (((h | h) | h) | h) | h
  · exact hc (by have := h.2; simp at this; omega)
  · exact hc (by have := h.2; simp at this; omega)
  · exact hc (by have := h.2; simp at this; omega)
  · exact hc (by simpa using List.all_eq_true.1 hlist c h)
  · exact hc (by rw [h]; decide)

/-- What holds of all characters of names, checked one after the other. -/
theorem forall_nameChar {p : UInt16 → Prop}
    (h : ∀ n : Fin 128, isNameChar (UInt16.ofNat n) = true → p (UInt16.ofNat n)) :
    ∀ c, isNameChar c = true → p c := by
  intro c hc
  simpa using h ⟨c.toNat, lt_of_isNameChar hc⟩ (by simpa using hc)

theorem isNameChar_spec {c : UInt16} (h : isNameChar c = true) :
    c ≠ 0xD ∧ c ≠ 0xA ∧ c ≠ 0x3A ∧ isWhiteSpace c = false := by
  have key : ∀ c, isNameChar c = true → c ≠ 0xD ∧ c ≠ 0xA ∧ c ≠ 0x3A ∧ isWhiteSpace c = false :=
    forall_nameChar (by decide +kernel)
  exact key c h

/-! ## An implementation -/

/-- A collection as the package keeps it: lower-case names, each with its values. -/
structure HeaderFields where
  fields : List (JsString × List JsString)
  deriving DecidableEq, Repr

namespace HeaderFields

/-- Add a value under a normalised name. -/
def addValue (name value : JsString) :
    List (JsString × List JsString) → List (JsString × List JsString)
  | [] => [(name, [value])]
  | (n, vs) :: fs =>
    if n = name then (n, vs ++ [value]) :: fs else (n, vs) :: addValue name value fs

/-- The values under a normalised name. -/
def values (name : JsString) : List (JsString × List JsString) → List JsString
  | [] => []
  | (n, vs) :: fs => if n = name then vs else values name fs

def append (h : HeaderFields) (name value : JsString) : Except JsString HeaderFields :=
  if name.all isNameChar then .ok ⟨addValue (toLowerCase name) value h.fields⟩
  else .error (js "Invalid character in header field name")

/-- `str.split("\r\n")`. -/
def splitLines : JsString → List JsString
  | [] => [[]]
  | 0xD :: 0xA :: s => [] :: splitLines s
  | c :: s =>
    match splitLines s with
    | [] => [[c]]
    | l :: ls => (c :: l) :: ls

/-- The name and the value of a line, when it has a colon that is not its first character. -/
def splitLine (l : JsString) : Option (JsString × JsString) :=
  match l.dropWhile (· ≠ 0x3A) with
  | [] => none
  | _ :: v =>
    if l.takeWhile (· ≠ 0x3A) = [] then none
    else some (trim (l.takeWhile (· ≠ 0x3A)), trim v)

def appendLines (h : HeaderFields) : List JsString → Except JsString HeaderFields
  | [] => .ok h
  | l :: ls =>
    match splitLine l with
    | none => h.appendLines ls
    | some (n, v) =>
      match h.append n v with
      | .error e => .error e
      | .ok h => h.appendLines ls

def appendFields (h : HeaderFields) : List (JsString × JsString) → Except JsString HeaderFields
  | [] => .ok h
  | (n, v) :: fs =>
    match h.append n v with
    | .error e => .error e
    | .ok h => h.appendFields fs

/-- Replace the values under a normalised name. -/
def setValue (name value : JsString) :
    List (JsString × List JsString) → List (JsString × List JsString)
  | [] => [(name, [value])]
  | (n, vs) :: fs => if n = name then (n, [value]) :: fs else (n, vs) :: setValue name value fs

instance : BrowserHeaders HeaderFields where
  construct
    | .text s => appendLines ⟨[]⟩ (splitLines s)
    | .object fs => appendFields ⟨[]⟩ (fs.flatMap fun f => f.2.map fun v => (f.1, v))
    | .headers m => .ok m
  empty := ⟨[]⟩
  copy m := m
  get m name := values (toLowerCase name) m.fields
  set m name value := ⟨setValue (toLowerCase name) value m.fields⟩
  entries m := m.fields

theorem splitLines_ne_nil (s : JsString) : splitLines s ≠ [] := by
  fun_cases splitLines s <;> simp

theorem splitLines_cons {c : UInt16} {s : JsString} (h : c = 0xD → s.head? ≠ some 0xA) :
    splitLines (c :: s) = (c :: (splitLines s).headD []) :: (splitLines s).tail := by
  rw [splitLines]
  · rcases hs : splitLines s with _ | ⟨l, ls⟩
    · exact absurd hs (splitLines_ne_nil s)
    · rfl
  · rintro s' ⟨⟩ rfl
    exact h rfl rfl

/-- **A line end splits a text** into the lines before it and those behind it. -/
theorem splitLines_append (s t : JsString) :
    splitLines (s ++ 0xD :: 0xA :: t) = splitLines s ++ splitLines t := by
  fun_induction splitLines s with
  | case1 => simp [splitLines]
  | case2 s ih => rw [List.cons_append, List.cons_append, splitLines, ih, List.cons_append]
  | case3 c s hne hnil => exact absurd hnil (splitLines_ne_nil s)
  | case4 c s hne l ls hlines ih =>
    rw [List.cons_append, splitLines_cons, ih, hlines]
    · rfl
    · rintro rfl
      rcases s with _ | ⟨d, s⟩
      · simp
      · rintro hd
        exact hne s rfl (by rw [Option.some.inj hd])

theorem splitLines_of_not_mem {l : JsString} (h : 0xD ∉ l) : splitLines l = [l] := by
  induction l with
  | nil => rfl
  | cons c l ih =>
    obtain ⟨hc, hl⟩ := not_or.1 (mt List.mem_cons.2 h)
    rw [splitLines_cons fun heq => absurd heq.symm hc, ih hl]
    rfl

theorem splitLine_line {n v : JsString} (hn : IsName n) :
    splitLine (n ++ js ": " ++ v) = some (n, trim v) := by
  have hcolon : ∀ c ∈ n, decide (c ≠ 0x3A) = true := fun c hc => by
    simpa using (isNameChar_spec (hn.chars c hc)).2.2.1
  have hblank : ∀ c ∈ n, isWhiteSpace c = false := fun c hc => (isNameChar_spec (hn.chars c hc)).2.2.2
  have htrim : trim n = n := by
    refine trim_eq_self (fun c hc => hblank c ?_) fun c hc => hblank c ?_
    · exact List.mem_of_mem_head? hc
    · exact List.mem_of_mem_getLast? hc
  have e : n ++ js ": " ++ v = n ++ 0x3A :: 0x20 :: v := by simp [js]
  have hdrop : (n ++ 0x3A :: 0x20 :: v).dropWhile (· ≠ 0x3A) = 0x3A :: 0x20 :: v := by
    rw [List.dropWhile_append_of_pos hcolon, List.dropWhile_cons_of_neg (by simp)]
  have htake : (n ++ 0x3A :: 0x20 :: v).takeWhile (· ≠ 0x3A) = n := by
    rw [List.takeWhile_append_of_pos hcolon, List.takeWhile_cons_of_neg (by simp), List.append_nil]
  rw [splitLine, e, hdrop, htake]
  simp only
  rw [if_neg hn.ne_nil, htrim, trim_cons_of_isWhiteSpace (by decide)]

theorem values_addValue (name k v : JsString) (fs : List (JsString × List JsString)) :
    values name (addValue k v fs) = if k = name then values name fs ++ [v] else values name fs := by
  induction fs with
  | nil => by_cases h : k = name <;> simp [addValue, values, h]
  | cons f fs ih =>
    obtain ⟨n, vs⟩ := f
    by_cases hk : n = k
    · subst hk
      by_cases h : n = name <;> simp [addValue, values, h]
    · by_cases h : n = name
      · subst h
        simp [addValue, values, hk, Ne.symm hk]
      · simp [addValue, values, hk, h, ih]

/-- The lines of a text, one after the other. -/
theorem appendLines_of_names {ls : List JsString}
    (h : ∀ f ∈ ls.filterMap splitLine, f.1.all isNameChar = true) (m : HeaderFields) :
    ∃ m', appendLines m ls = .ok m' ∧
      ∀ name, values (toLowerCase name) m'.fields = values (toLowerCase name) m.fields ++
        (linesNamed name (ls.filterMap splitLine)).map Prod.snd := by
  induction ls generalizing m with
  | nil => exact ⟨m, rfl, by simp [linesNamed]⟩
  | cons l ls ih =>
    rw [appendLines]
    rcases hl : splitLine l with _ | ⟨n, v⟩
    · rw [List.filterMap_cons_none hl] at h ⊢
      exact ih h m
    · rw [List.filterMap_cons_some hl] at h ⊢
      obtain ⟨hn, hls⟩ := List.forall_mem_cons.1 h
      obtain ⟨m', hm', hget⟩ := ih hls ⟨addValue (toLowerCase n) v m.fields⟩
      refine ⟨m', ?_, fun name => ?_⟩
      · simp only [append]
        rw [if_pos hn]
        exact hm'
      · rw [hget name]
        simp only [values_addValue]
        by_cases hname : toLowerCase n = toLowerCase name <;> simp [linesNamed, hname]

theorem appendLines_of_bad_name {ls : List JsString}
    (h : ∃ f ∈ ls.filterMap splitLine, f.1.all isNameChar = false) (m : HeaderFields) :
    appendLines m ls = .error (js "Invalid character in header field name") := by
  induction ls generalizing m with
  | nil => simp at h
  | cons l ls ih =>
    rw [appendLines]
    rcases hl : splitLine l with _ | ⟨n, v⟩
    · rw [List.filterMap_cons_none hl] at h
      exact ih h m
    · rw [List.filterMap_cons_some hl] at h
      obtain ⟨f, hf, hbad⟩ := h
      simp only [append]
      by_cases hn : n.all isNameChar = true
      · rw [if_pos hn]
        rcases List.mem_cons.1 hf with rfl | hf
        · exact absurd hn (by simp [hbad])
        · exact ih ⟨f, hf, hbad⟩ _
      · rw [if_neg hn]

/-- The fields of a text of well-formed lines. -/
theorem filterMap_splitLine_headerText {lines : List (JsString × JsString)}
    (h : ∀ l ∈ lines, IsName l.1 ∧ 0xD ∉ l.2 ∧ 0xA ∉ l.2) :
    (splitLines (headerText lines)).filterMap splitLine = lines.map fun l => (l.1, trim l.2) := by
  induction lines with
  | nil => rfl
  | cons l lines ih =>
    obtain ⟨n, v⟩ := l
    obtain ⟨⟨hn, hcr, -⟩, hlines⟩ := List.forall_mem_cons.1 h
    have hline : 0xD ∉ n ++ js ": " ++ v := by
      have hjs : (0xD : UInt16) ∉ js ": " := by decide
      simp only [List.mem_append, not_or]
      exact ⟨⟨fun hc => (isNameChar_spec (hn.chars _ hc)).1 rfl, hjs⟩, hcr⟩
    have htext : headerText ((n, v) :: lines) =
        (n ++ js ": " ++ v) ++ 0xD :: 0xA :: headerText lines := by
      simp [headerText, js]
    rw [htext, splitLines_append, splitLines_of_not_mem hline, List.filterMap_append, ih hlines,
      List.filterMap_cons_some (splitLine_line hn)]
    rfl

instance : LawfulBrowserHeaders HeaderFields where
  construct_text lines h := by
    have hfields := filterMap_splitLine_headerText h
    have hnames : ∀ f ∈ (splitLines (headerText lines)).filterMap splitLine,
        f.1.all isNameChar = true := by
      rw [hfields]
      intro f hf
      obtain ⟨l, hl, rfl⟩ := List.mem_map.1 hf
      exact List.all_eq_true.2 (h l hl).1.chars
    obtain ⟨m, hm, hget⟩ := appendLines_of_names hnames ⟨[]⟩
    refine ⟨m, hm, fun name _ => ⟨(hget name).trans ?_, rfl⟩⟩
    rw [hfields]
    simp [values, linesNamed, List.filter_map, Function.comp_def]
  get_copy _ _ _ _ := rfl
  get_empty _ := rfl

end HeaderFields

/-! ## Any text -/

/-- The fields of a text: its lines, each cut at its first colon. -/
def textFields (s : JsString) : List (JsString × JsString) :=
  (HeaderFields.splitLines s).filterMap HeaderFields.splitLine

/-- More of the documented behaviour of `BrowserHeaders`: a text that breaks its lines anywhere
gives the values of its fields under every name with a hyphen, unless one of them has a character
that no header name has, and an object of a status and its message has these two values. -/
class TextualBrowserHeaders (M : Type) [BrowserHeaders M] : Prop where
  construct_text_fields (s : JsString) (h : ∀ f ∈ textFields s, f.1.all isNameChar = true) :
    ∃ m : M, BrowserHeaders.construct (.text s) = .ok m ∧
      ∀ name, IsName name → 0x2D ∈ name →
        BrowserHeaders.get m name = (linesNamed name (textFields s)).map Prod.snd
  construct_text_error (s : JsString) (h : ∃ f ∈ textFields s, f.1.all isNameChar = false) :
    (BrowserHeaders.construct (.text s) : Except JsString M) =
      .error (js "Invalid character in header field name")
  construct_status (status message : JsString) :
    ∃ m : M, BrowserHeaders.construct (.object [(js "grpc-status", [status]),
        (js "grpc-message", [message])]) = .ok m ∧
      BrowserHeaders.entries m = [(js "grpc-status", [status]), (js "grpc-message", [message])] ∧
      BrowserHeaders.get m (js "grpc-status") = [status] ∧
      BrowserHeaders.get m (js "grpc-message") = [message]

instance : TextualBrowserHeaders HeaderFields where
  construct_text_fields s h := by
    obtain ⟨m, hm, hget⟩ := HeaderFields.appendLines_of_names h ⟨[]⟩
    exact ⟨m, hm, fun name _ _ => (hget name).trans (by simp [HeaderFields.values, textFields])⟩
  construct_text_error s h := HeaderFields.appendLines_of_bad_name h ⟨[]⟩
  construct_status status message := ⟨⟨_⟩, rfl, rfl, rfl, rfl⟩

theorem textFields_append (s t : JsString) :
    textFields (s ++ 0xD :: 0xA :: t) = textFields s ++ textFields t := by
  rw [textFields, HeaderFields.splitLines_append, List.filterMap_append]
  rfl

/-- What stands before the first line end of a text. -/
def firstLine (s : JsString) : JsString := (HeaderFields.splitLines s).headD []

theorem firstLine_append (s t : JsString) : firstLine (s ++ 0xD :: 0xA :: t) = firstLine s := by
  rw [firstLine, HeaderFields.splitLines_append, firstLine]
  rcases hs : HeaderFields.splitLines s with _ | ⟨l, ls⟩
  · exact absurd hs (HeaderFields.splitLines_ne_nil s)
  · rfl

theorem length_of_mem_splitLines {s l : JsString} (h : l ∈ HeaderFields.splitLines s) :
    l.length ≤ s.length := by
  fun_induction HeaderFields.splitLines s generalizing l with
  | case1 => simp [List.mem_singleton.1 h]
  | case2 s ih =>
    rcases List.mem_cons.1 h with rfl | h
    · simp
    · exact (ih h).trans (by simp only [List.length_cons]; omega)
  | case3 c s hne hnil => exact absurd hnil (HeaderFields.splitLines_ne_nil s)
  | case4 c s hne k ks hlines ih =>
    rw [hlines] at ih
    rcases List.mem_cons.1 h with rfl | h
    · exact Nat.succ_le_succ (ih List.mem_cons_self)
    · exact (ih (List.mem_cons_of_mem _ h)).trans (Nat.le_succ _)

theorem firstLine_mem (s : JsString) : firstLine s ∈ HeaderFields.splitLines s := by
  rw [firstLine]
  rcases hs : HeaderFields.splitLines s with _ | ⟨l, ls⟩
  · exact absurd hs (HeaderFields.splitLines_ne_nil s)
  · exact List.mem_cons_self

theorem length_firstLine (s : JsString) : (firstLine s).length ≤ s.length :=
  length_of_mem_splitLines (firstLine_mem s)

/-- A text with a line end is longer than its first line. -/
theorem length_firstLine_lt {s : JsString} (h : [0xD, 0xA] <:+: s) :
    (firstLine s).length < s.length := by
  obtain ⟨a, b, rfl⟩ := h
  have hcut : firstLine (a ++ [0xD, 0xA] ++ b) = firstLine a := by
    rw [List.append_assoc]
    exact firstLine_append a b
  have hle := length_firstLine a
  rw [hcut, List.length_append, List.length_append, List.length_cons]
  omega

theorem splitLines_of_not_infix {s : JsString} (h : ¬ [0xD, 0xA] <:+: s) :
    HeaderFields.splitLines s = [s] := by
  induction s with
  | nil => rfl
  | cons c s ih =>
    have hend : c = 0xD → s.head? ≠ some 0xA := by
      rintro rfl hhead
      obtain ⟨t, rfl⟩ := List.head?_eq_some_iff.1 hhead
      exact h ⟨[], t, rfl⟩
    rw [HeaderFields.splitLines_cons hend, ih fun hs => h (hs.trans (List.suffix_cons c s).isInfix)]
    rfl

/-- No value is longer than the text it is taken from. -/
theorem length_of_mem_textFields {s : JsString} {f : JsString × JsString} (h : f ∈ textFields s) :
    f.2.length ≤ s.length := by
  obtain ⟨l, hl, hf⟩ := List.mem_filterMap.1 h
  refine le_trans ?_ (length_of_mem_splitLines hl)
  unfold HeaderFields.splitLine at hf
  split at hf
  · cases hf
  · rename_i c v hv
    split at hf
    · cases hf
    · obtain rfl := Option.some.inj hf
      have hle := (List.dropWhile_suffix (l := l) fun c => decide (c ≠ 0x3A)).length_le
      rw [hv, List.length_cons] at hle
      exact (length_trim v).trans (by omega)

/-- The fields of a text that starts with a name and a colon. -/
theorem textFields_cons {n : JsString} (hn : IsName n) (v : JsString) :
    textFields (n ++ js ": " ++ v) =
      (n, trim (firstLine v)) ::
        (HeaderFields.splitLines v).tail.filterMap HeaderFields.splitLine := by
  have hsplit (p : JsString) (hp : 0xD ∉ p) :
      HeaderFields.splitLines (p ++ v) =
        (p ++ firstLine v) :: (HeaderFields.splitLines v).tail := by
    induction p with
    | nil =>
      rcases hv : HeaderFields.splitLines v with _ | ⟨l, ls⟩
      · exact absurd hv (HeaderFields.splitLines_ne_nil v)
      · simp [firstLine, hv]
    | cons c p ih =>
      obtain ⟨hc, hp⟩ := not_or.1 (mt List.mem_cons.2 hp)
      rw [List.cons_append, HeaderFields.splitLines_cons fun heq => absurd heq.symm hc, ih hp]
      rfl
  have hclean : 0xD ∉ n ++ js ": " := by
    have hjs : (0xD : UInt16) ∉ js ": " := by decide
    simp only [List.mem_append, not_or]
    exact ⟨fun hc => (isNameChar_spec (hn.chars _ hc)).1 rfl, hjs⟩
  rw [textFields, hsplit _ hclean,
    List.filterMap_cons_some (HeaderFields.splitLine_line (v := firstLine v) hn)]

/-- The fields of a line. -/
theorem textFields_line {n v : JsString} (hn : IsName n) (hv : ¬ [0xD, 0xA] <:+: v) :
    textFields (n ++ js ": " ++ v) = [(n, trim v)] := by
  rw [textFields_cons hn, firstLine, splitLines_of_not_infix hv]
  rfl

section

variable {M : Type} [BrowserHeaders M] [TextualBrowserHeaders M]

/-- What a text that was accepted has under a name. -/
theorem get_of_construct_text {s : JsString} {m : M}
    (h : BrowserHeaders.construct (.text s) = .ok m) {name : JsString} (hname : IsName name)
    (hyphen : 0x2D ∈ name) :
    BrowserHeaders.get m name = (linesNamed name (textFields s)).map Prod.snd := by
  by_cases hnames : ∀ f ∈ textFields s, f.1.all isNameChar = true
  · obtain ⟨m', hm', hget⟩ := TextualBrowserHeaders.construct_text_fields (M := M) s hnames
    obtain rfl : m' = m := Except.ok.inj (hm'.symm.trans h)
    exact hget name hname hyphen
  · have hbad : ∃ f ∈ textFields s, f.1.all isNameChar = false := by simpa using hnames
    rw [TextualBrowserHeaders.construct_text_error s hbad] at h
    cases h

/-- The one message with which a text is refused. -/
theorem eq_of_construct_text_error {s e : JsString}
    (h : (BrowserHeaders.construct (.text s) : Except JsString M) = .error e) :
    e = js "Invalid character in header field name" := by
  by_cases hnames : ∀ f ∈ textFields s, f.1.all isNameChar = true
  · obtain ⟨m, hm, -⟩ := TextualBrowserHeaders.construct_text_fields (M := M) s hnames
    rw [hm] at h
    cases h
  · have hbad : ∃ f ∈ textFields s, f.1.all isNameChar = false := by simpa using hnames
    rw [TextualBrowserHeaders.construct_text_error s hbad] at h
    exact (Except.error.inj h).symm

end

end GrpcWeb.Js

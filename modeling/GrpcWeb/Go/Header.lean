import Std.Data.ExtTreeMap.Lemmas
import Mathlib.Data.List.Nodup
import GrpcWeb.Go.Strings

/-!
# HTTP headers in Go

`http.Header` is a map from names to lists of values. A `for` loop over a map visits its entries in
an order that the language leaves open and that changes from loop to loop; a loop of the server
takes its order from a `MapOrder`.

`Header.write` is the text of a header block: the names in order, a line for each value, with names
that HTTP does not allow left out (`Header.writtenLines`). Names that are the same but for letter
case have one canonical form (`canonicalHeaderKey_eq_of_sameName`).
-/

namespace GrpcWeb.Go

/-- `http.Header`. -/
abbrev Header := Std.ExtTreeMap GoString (List GoString) compare

/-- The order in which a loop over a map visits its entries. -/
structure MapOrder where
  entries : Header → List (GoString × List GoString)
  perm (h : Header) : (entries h).Perm h.toList

namespace MapOrder

/-- The order of the keys. -/
def sorted : MapOrder := ⟨fun h => h.toList, fun _ => .rfl⟩

/-- The opposite order. -/
def reversed : MapOrder := ⟨fun h => h.toList.reverse, fun _ => List.reverse_perm _⟩

/-- An order that visits the entry `e` last. -/
def last (e : GoString × List GoString) : MapOrder where
  entries h := if e ∈ h.toList then h.toList.erase e ++ [e] else h.toList
  perm h := by
    split
    · rename_i he
      exact (List.perm_append_singleton _ _).trans (List.perm_cons_erase he).symm
    · exact .rfl

theorem mem_entries (o : MapOrder) {h : Header} {k : GoString} {vs : List GoString} :
    (k, vs) ∈ o.entries h ↔ h[k]? = some vs := by
  rw [(o.perm h).mem_iff, Std.ExtTreeMap.mem_toList_iff_getElem?_eq_some]

end MapOrder

/-! ## Names -/

/-- The bytes of a token of HTTP. -/
def isTokenByte (c : UInt8) : Bool :=
  (0x61 ≤ c && c ≤ 0x7A) || (0x41 ≤ c && c ≤ 0x5A) || (0x30 ≤ c && c ≤ 0x39) ||
    (ascii "!#$%&'*+-.^_|~").contains c || c == 0x60

/-- `httpguts.ValidHeaderFieldName(v)`. -/
def validHeaderFieldName (v : GoString) : Bool := v ≠ [] && v.all isTokenByte

/-- Upper case at the start and behind a dash, lower case elsewhere. -/
def capitalize (upper : Bool) : GoString → GoString
  | [] => []
  | c :: s =>
    let c :=
      if upper ∧ 0x61 ≤ c ∧ c ≤ 0x7A then c - 0x20
      else if ¬ upper ∧ 0x41 ≤ c ∧ c ≤ 0x5A then c + 0x20
      else c
    c :: capitalize (c == 0x2D) s

/-- `http.CanonicalHeaderKey(s)`. A string with a byte that no name can have is left alone. -/
def canonicalHeaderKey (s : GoString) : GoString :=
  if s.all isTokenByte then capitalize true s else s

theorem lt_of_isTokenByte {c : UInt8} (h : isTokenByte c = true) : c < 0x80 :=
  forall_byte (p := fun c => isTokenByte c = true → c < 0x80) (by decide +kernel) c h

theorem isASCII_of_token {s : GoString} (h : s.all isTokenByte = true) : isASCII s = true := by
  rw [isASCII, List.all_eq_true] at *
  intro c hc
  simpa using lt_of_isTokenByte (h c hc)

/-- The effect of `capitalize` on one byte of a token. -/
theorem capitalize_byte (upper : Bool) {c : UInt8} (h : isTokenByte c = true) :
    let c' := if upper ∧ 0x61 ≤ c ∧ c ≤ 0x7A then c - 0x20
      else if ¬ upper ∧ 0x41 ≤ c ∧ c ≤ 0x5A then c + 0x20 else c
    toLowerByte c' = toLowerByte c ∧ isTokenByte c' = true := by
  have key : ∀ (c : UInt8) (upper : Bool), isTokenByte c = true →
      let c' := if upper ∧ 0x61 ≤ c ∧ c ≤ 0x7A then c - 0x20
        else if ¬ upper ∧ 0x41 ≤ c ∧ c ≤ 0x5A then c + 0x20 else c
      toLowerByte c' = toLowerByte c ∧ isTokenByte c' = true := forall_byte (by decide +kernel)
  exact key c upper h

theorem capitalize_spec (upper : Bool) {s : GoString} (h : s.all isTokenByte = true) :
    (capitalize upper s).map toLowerByte = s.map toLowerByte ∧
      (capitalize upper s).all isTokenByte = true := by
  induction s generalizing upper with
  | nil => exact ⟨rfl, rfl⟩
  | cons c s ih =>
    obtain ⟨hc, hs⟩ : isTokenByte c = true ∧ s.all isTokenByte = true := by simpa using h
    obtain ⟨hlow, htok⟩ := capitalize_byte upper hc
    obtain ⟨ih1, ih2⟩ := ih ((if upper ∧ 0x61 ≤ c ∧ c ≤ 0x7A then c - 0x20
      else if ¬ upper ∧ 0x41 ≤ c ∧ c ≤ 0x5A then c + 0x20 else c) == 0x2D) hs
    simp only [capitalize, List.map_cons, List.all_cons, ih1, ih2, Bool.and_true]
    exact ⟨by rw [hlow], htok⟩

/-- **The canonical form of a name differs from it in letter case only.** -/
theorem toLower_canonicalHeaderKey [Unicode] (s : GoString) :
    toLower (canonicalHeaderKey s) = toLower s := by
  by_cases h : s.all isTokenByte = true
  · obtain ⟨hlow, htok⟩ := capitalize_spec true h
    rw [canonicalHeaderKey, if_pos h, toLower_of_isASCII (isASCII_of_token htok),
      toLower_of_isASCII (isASCII_of_token h), hlow]
  · rw [canonicalHeaderKey, if_neg h]

/-- Names that differ in letter case only. -/
def sameName (a b : GoString) : Prop := a.map toLowerByte = b.map toLowerByte

instance (a b : GoString) : Decidable (sameName a b) := inferInstanceAs (Decidable (_ = _))

theorem isTokenByte_toLowerByte : ∀ c, isTokenByte (toLowerByte c) = isTokenByte c :=
  forall_byte (by decide +kernel)

theorem all_isTokenByte_of_sameName {a b : GoString} (ha : a.all isTokenByte = true)
    (h : sameName a b) : b.all isTokenByte = true := by
  have hmap (s : GoString) : (s.map toLowerByte).all isTokenByte = s.all isTokenByte := by
    rw [List.all_map]
    congr 1
    funext c
    exact isTokenByte_toLowerByte c
  rw [← hmap, ← show a.map toLowerByte = b.map toLowerByte from h, hmap, ha]

theorem capitalize_toLowerByte (upper : Bool) (s : GoString) :
    capitalize upper (s.map toLowerByte) = capitalize upper s := by
  have key : ∀ (c : UInt8) (upper : Bool),
      (if upper ∧ 0x61 ≤ toLowerByte c ∧ toLowerByte c ≤ 0x7A then toLowerByte c - 0x20
        else if ¬ upper ∧ 0x41 ≤ toLowerByte c ∧ toLowerByte c ≤ 0x5A then toLowerByte c + 0x20
        else toLowerByte c) =
      if upper ∧ 0x61 ≤ c ∧ c ≤ 0x7A then c - 0x20
      else if ¬ upper ∧ 0x41 ≤ c ∧ c ≤ 0x5A then c + 0x20 else c := forall_byte (by decide +kernel)
  induction s generalizing upper with
  | nil => rfl
  | cons c s ih => simp only [List.map_cons, capitalize, key c upper, ih]

/-- **Names that differ in letter case only have one canonical form.** -/
theorem canonicalHeaderKey_eq_of_sameName {a b : GoString} (ha : a.all isTokenByte = true)
    (h : sameName a b) : canonicalHeaderKey a = canonicalHeaderKey b := by
  rw [canonicalHeaderKey, if_pos ha, canonicalHeaderKey, if_pos (all_isTokenByte_of_sameName ha h),
    ← capitalize_toLowerByte true a, ← capitalize_toLowerByte true b]
  exact congrArg (capitalize true) h

theorem canonicalHeaderKey_idempotent (s : GoString) :
    canonicalHeaderKey (canonicalHeaderKey s) = canonicalHeaderKey s := by
  by_cases h : s.all isTokenByte = true
  · have hsame : sameName s (canonicalHeaderKey s) := by
      rw [canonicalHeaderKey, if_pos h]
      exact (capitalize_spec true h).1.symm
    exact (canonicalHeaderKey_eq_of_sameName h hsame).symm
  · have hself : canonicalHeaderKey s = s := if_neg h
    rw [hself, hself]

/-! ## Operations -/

namespace Header

/-- Every name is in its canonical form. -/
def Canonical (h : Header) : Prop := ∀ k ∈ h, canonicalHeaderKey k = k

def set (h : Header) (key value : GoString) : Header := h.insert (canonicalHeaderKey key) [value]

def add (h : Header) (key value : GoString) : Header :=
  h.insert (canonicalHeaderKey key) (h.getD (canonicalHeaderKey key) [] ++ [value])

theorem getElem?_insert (h : Header) (k₀ k : GoString) (vs : List GoString) :
    (h.insert k₀ vs)[k]? = if k₀ = k then some vs else h[k]? := by
  rw [Std.ExtTreeMap.getElem?_insert]
  simp only [Std.LawfulEqOrd.compare_eq_iff_eq]

/-- Storing entries one after the other, when those with the same name have the same values. -/
theorem getElem?_foldl_insert {es : List (GoString × List GoString)}
    (hes : ∀ e ∈ es, ∀ e' ∈ es, e.1 = e'.1 → e.2 = e'.2) (h : Header) (k : GoString)
    (vs : List GoString) :
    (es.foldl (fun h e => h.insert e.1 e.2) h)[k]? = some vs ↔
      (k, vs) ∈ es ∨ (h[k]? = some vs ∧ ∀ vs', (k, vs') ∉ es) := by
  induction es generalizing h with
  | nil => simp
  | cons e es ih =>
    obtain ⟨k₀, vs₀⟩ := e
    rw [List.foldl_cons, ih fun e he e' he' => hes e (by simp [he]) e' (by simp [he'])]
    rw [getElem?_insert]
    by_cases hk : k₀ = k
    · subst hk
      have hall : ∀ vs', (k₀, vs') ∈ es → vs₀ = vs' := fun vs' he =>
        hes (k₀, vs₀) (by simp) (k₀, vs') (by simp [he]) rfl
      simp only [if_true, Option.some.injEq, List.mem_cons, Prod.mk.injEq, true_and]
      constructor
      · rintro (he | ⟨rfl, -⟩)
        · exact .inl (.inr he)
        · exact .inl (.inl rfl)
      · rintro ((rfl | he) | ⟨-, hno⟩)
        · by_cases hin : (k₀, vs) ∈ es
          · exact .inl hin
          · refine .inr ⟨rfl, fun vs' he => hin ?_⟩
            rwa [hall vs' he]
        · exact .inl he
        · exact absurd (Or.inl rfl) (hno vs₀)
    · simp [hk, Ne.symm hk]

/-- What is stored under a name whose entries all have the same values. -/
theorem getElem?_foldl_insert_of_unique {es : List (GoString × List GoString)} {k : GoString}
    {vs : List GoString} (hmem : (k, vs) ∈ es) (hes : ∀ vs', (k, vs') ∈ es → vs' = vs)
    (h : Header) :
    (es.foldl (fun h e => h.insert e.1 e.2) h)[k]? = some vs := by
  induction es using List.reverseRecOn with
  | nil => cases hmem
  | append_singleton es e ih =>
    obtain ⟨k₀, vs₀⟩ := e
    rw [List.foldl_concat, getElem?_insert]
    by_cases hk : k₀ = k
    · subst hk
      rw [if_pos rfl, hes vs₀ (by simp)]
    · rw [if_neg hk]
      refine ih ?_ fun vs' he => hes vs' (List.mem_append_left _ he)
      simpa [Ne.symm hk] using hmem

theorem mem_foldl_insert {es : List (GoString × List GoString)} {h : Header} {k : GoString} :
    k ∈ es.foldl (fun h e => h.insert e.1 e.2) h ↔ k ∈ h ∨ k ∈ es.map Prod.fst := by
  induction es generalizing h with
  | nil => simp
  | cons e es ih =>
    rw [List.foldl_cons, ih, Std.ExtTreeMap.mem_insert, Std.LawfulEqOrd.compare_eq_iff_eq,
      List.map_cons, List.mem_cons]
    constructor
    · rintro ((rfl | h) | h)
      · exact Or.inr (Or.inl rfl)
      · exact Or.inl h
      · exact Or.inr (Or.inr h)
    · rintro (h | rfl | h)
      · exact Or.inl (Or.inr h)
      · exact Or.inl (Or.inl rfl)
      · exact Or.inr h

/-- A value as `Header.Write` writes it: line ends become blanks, surrounding blanks are cut. -/
def writtenValue (v : GoString) : GoString :=
  trimString (v.map fun c => if c = 0xA ∨ c = 0xD then 0x20 else c)

/-- The lines of a header block. -/
def writtenLines (h : Header) : List (GoString × GoString) :=
  (h.toList.filter fun e => validHeaderFieldName e.1).flatMap fun e =>
    e.2.map fun v => (e.1, writtenValue v)

/-- A list of which one element alone yields something. -/
theorem flatMap_eq_of_unique {α β : Type*} {es : List α} {f : α → List β} {e : α}
    (hnodup : es.Nodup) (hmem : e ∈ es) (h : ∀ e' ∈ es, e' ≠ e → f e' = []) :
    es.flatMap f = f e := by
  induction es with
  | nil => cases hmem
  | cons a es ih =>
    obtain ⟨ha, hnodup⟩ := List.nodup_cons.1 hnodup
    rw [List.flatMap_cons]
    rcases List.mem_cons.1 hmem with rfl | hmem
    · have hrest : es.flatMap f = [] := List.flatMap_eq_nil_iff.2 fun e' he' =>
        h e' (List.mem_cons_of_mem _ he') fun heq => ha (heq ▸ he')
      rw [hrest, List.append_nil]
    · have hfirst : f a = [] := h a (by simp) fun heq => ha (heq ▸ hmem)
      rw [hfirst, List.nil_append]
      exact ih hnodup hmem fun e' he' => h e' (List.mem_cons_of_mem _ he')

theorem nodup_toList (h : Header) : h.toList.Nodup := by
  refine List.Nodup.of_map Prod.fst ?_
  rw [Std.ExtTreeMap.map_fst_toList_eq_keys]
  exact Std.ExtTreeMap.nodup_keys

/-- The lines that are selected by a property of names that one name alone has. -/
theorem writtenLines_filter {h : Header} {k : GoString} {vs : List GoString} (hk : h[k]? = some vs)
    (hvalid : validHeaderFieldName k = true) {p : GoString → Bool} (hp : p k = true)
    (hother : ∀ k' ∈ h, validHeaderFieldName k' = true → k' ≠ k → p k' = false) :
    h.writtenLines.filter (fun l => p l.1) = vs.map fun v => (k, writtenValue v) := by
  have hmem : (k, vs) ∈ h.toList.filter fun e => validHeaderFieldName e.1 :=
    List.mem_filter.2 ⟨Std.ExtTreeMap.mem_toList_iff_getElem?_eq_some.2 hk, hvalid⟩
  rw [writtenLines, List.filter_flatMap, flatMap_eq_of_unique (h.nodup_toList.filter _) hmem]
  · rw [List.filter_eq_self]
    intro l hl
    obtain ⟨v, -, rfl⟩ := List.mem_map.1 hl
    exact hp
  · rintro ⟨k', vs'⟩ he' hne
    obtain ⟨hlist, hvalid'⟩ := List.mem_filter.1 he'
    have hk' := Std.ExtTreeMap.mem_toList_iff_getElem?_eq_some.1 hlist
    have hname : k' ≠ k := by
      rintro rfl
      exact hne (by rw [Option.some.inj (hk'.symm.trans hk)])
    rw [List.filter_eq_nil_iff]
    intro l hl
    obtain ⟨v, -, rfl⟩ := List.mem_map.1 hl
    have hmem' : k' ∈ h := by
      rw [Std.ExtTreeMap.mem_iff_isSome_getElem?, hk']
      rfl
    simp [hother k' hmem' hvalid' hname]

theorem mem_writtenLines {h : Header} {l : GoString × GoString} (hl : l ∈ h.writtenLines) :
    l.1 ∈ h ∧ validHeaderFieldName l.1 = true := by
  obtain ⟨⟨k, vs⟩, he, hl⟩ := List.mem_flatMap.1 hl
  obtain ⟨v, -, rfl⟩ := List.mem_map.1 hl
  obtain ⟨hlist, hvalid⟩ := List.mem_filter.1 he
  refine ⟨?_, hvalid⟩
  rw [Std.ExtTreeMap.mem_iff_isSome_getElem?,
    Std.ExtTreeMap.mem_toList_iff_getElem?_eq_some.1 hlist]
  rfl

/-- `h.Write(w)`: the bytes that are written. -/
def write (h : Header) : Bytes :=
  h.writtenLines.flatMap fun l => l.1 ++ ascii ": " ++ l.2 ++ ascii "\r\n"

theorem mem_writtenValue {v : GoString} {c : UInt8} (h : c ∈ writtenValue v) :
    c ≠ 0xA ∧ c ≠ 0xD := by
  obtain ⟨b, -, rfl⟩ := List.mem_map.1 (mem_of_mem_trimString h)
  split
  · decide
  · rename_i hb
    exact not_or.1 hb

/-- A value with no line ends and no surrounding blanks is written as it is. -/
theorem writtenValue_eq_self {v : GoString} (hv : ∀ c ∈ v, c ≠ 0xA ∧ c ≠ 0xD)
    (hh : ∀ c ∈ v.head?, isSpace c = false) (hl : ∀ c ∈ v.getLast?, isSpace c = false) :
    writtenValue v = v := by
  have hmap : (v.map fun c => if c = 0xA ∨ c = 0xD then 0x20 else c) = v := by
    conv_rhs => rw [← List.map_id v]
    refine List.map_congr_left fun c hc => if_neg ?_
    exact not_or.2 (hv c hc)
  rw [writtenValue, hmap, trimString_eq_self hh hl]

end Header

end GrpcWeb.Go

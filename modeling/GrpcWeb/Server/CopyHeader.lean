import GrpcWeb.Go.Header

/-!
# Copying headers

`copyHeader` stores the entries of one header map in another, in the order in which the loop over
the source visits them, with the options that its callers give it: names that are skipped, and
replacers that are applied to an entry one after the other.

When no two names that are copied become the same (`NoClash`), the order does not matter, and
`getElem?_copyHeader` says what the copy holds. Otherwise the entry that the loop visits last is
kept, and `lossless_iff` says when nothing is lost.
-/

namespace GrpcWeb.Server

open Go

/-- What becomes of the name and the values of an entry; `none` when neither is replaced. -/
abbrev Replacer := GoString → List GoString → Option (GoString × List GoString)

structure CopyOptions where
  skipKeys : List GoString := []
  replacers : List Replacer := []

abbrev CopyOption := CopyOptions → CopyOptions

variable [Unicode]

/-- Skip names, compared without regard to case. -/
def skipKeys (keys : List GoString) : CopyOption := fun opts =>
  { opts with skipKeys := opts.skipKeys ++ keys.map toLower }

def replaceInVals (key old new : GoString) : CopyOption := fun opts =>
  { opts with
    replacers := opts.replacers ++ [fun k vv =>
      if toLower key = toLower k then some (k, vv.map fun v => replaceFirst v old new) else none] }

def replaceInKeys (old new : GoString) : CopyOption := fun opts =>
  { opts with
    replacers := opts.replacers ++ [fun k vv =>
      if contains k old then some (replaceFirst k old new, vv) else none] }

def keyCase (fn : GoString → GoString) : CopyOption := fun opts =>
  { opts with replacers := opts.replacers ++ [fun k vv => some (fn k, vv)] }

namespace CopyOptions

/-- The options of a call. -/
def ofList (opts : List CopyOption) : CopyOptions := opts.foldl (fun options opt => opt options) {}

def skips (options : CopyOptions) (k : GoString) : Bool := options.skipKeys.contains (toLower k)

/-- The replacers, applied to an entry. -/
def replace (options : CopyOptions) (e : GoString × List GoString) : GoString × List GoString :=
  options.replacers.foldl (fun e r => (r e.1 e.2).getD e) e

end CopyOptions

def copyHeader (order : MapOrder) (dst src : Header) (opts : List CopyOption) : Header :=
  let options := CopyOptions.ofList opts
  (order.entries src).foldl (fun dst e =>
    if options.skips e.1 then dst
    else
      let e := options.replace e
      dst.insert e.1 e.2) dst

def headerKeys (order : MapOrder) (h : Header) : List GoString := (order.entries h).map Prod.fst

omit [Unicode] in
theorem mem_headerKeys {order : MapOrder} {h : Header} {k : GoString} :
    k ∈ headerKeys order h ↔ k ∈ h := by
  rw [headerKeys, List.mem_map, Std.ExtTreeMap.mem_iff_isSome_getElem?, Option.isSome_iff_exists]
  constructor
  · rintro ⟨⟨k, vs⟩, he, rfl⟩
    exact ⟨vs, order.mem_entries.1 he⟩
  · rintro ⟨vs, he⟩
    exact ⟨(k, vs), order.mem_entries.2 he, rfl⟩

/-! ## What a copy holds -/

namespace CopyOptions

variable (options : CopyOptions) (src : Header)

/-- The copy stores the values `vs` under the name `k`. -/
def Copies (k : GoString) (vs : List GoString) : Prop :=
  ∃ k₀ vs₀, src[k₀]? = some vs₀ ∧ options.skips k₀ = false ∧ options.replace (k₀, vs₀) = (k, vs)

/-- No two names that are copied are rewritten to the same name. -/
def NoClash : Prop :=
  ∀ k₀ vs₀ k₁ vs₁, src[k₀]? = some vs₀ → src[k₁]? = some vs₁ → options.skips k₀ = false →
    options.skips k₁ = false →
      (options.replace (k₀, vs₀)).1 = (options.replace (k₁, vs₁)).1 → k₀ = k₁

variable {options src}

theorem NoClash.values_eq (h : options.NoClash src) {k : GoString} {vs vs' : List GoString}
    (hk : options.Copies src k vs) (hk' : options.Copies src k vs') : vs = vs' := by
  obtain ⟨k₀, vs₀, h₀, hs₀, he₀⟩ := hk
  obtain ⟨k₁, vs₁, h₁, hs₁, he₁⟩ := hk'
  obtain rfl := h k₀ vs₀ k₁ vs₁ h₀ h₁ hs₀ hs₁ (by rw [he₀, he₁])
  obtain rfl := Option.some.inj (h₀.symm.trans h₁)
  exact congrArg Prod.snd (he₀.symm.trans he₁)

end CopyOptions

/-- A copy stores the entries that are not skipped, replaced. -/
theorem copyHeader_eq (order : MapOrder) (dst src : Header) (opts : List CopyOption) :
    copyHeader order dst src opts =
      (((order.entries src).filter fun e => !(CopyOptions.ofList opts).skips e.1).map
        (CopyOptions.ofList opts).replace).foldl (fun dst e => dst.insert e.1 e.2) dst := by
  rw [List.foldl_map, List.foldl_filter, copyHeader]
  congr 1
  funext dst e
  cases (CopyOptions.ofList opts).skips e.1 <;> rfl

theorem CopyOptions.mem_copied (options : CopyOptions) {order : MapOrder} {src : Header}
    {k : GoString} {vs : List GoString} :
    (k, vs) ∈ ((order.entries src).filter fun e => !options.skips e.1).map options.replace ↔
      options.Copies src k vs := by
  rw [List.mem_map]
  constructor
  · rintro ⟨⟨k₀, vs₀⟩, he, heq⟩
    obtain ⟨h1, h2⟩ := List.mem_filter.1 he
    exact ⟨k₀, vs₀, order.mem_entries.1 h1, by simpa using h2, heq⟩
  · rintro ⟨k₀, vs₀, h1, h2, heq⟩
    exact ⟨(k₀, vs₀), List.mem_filter.2 ⟨order.mem_entries.2 h1, by simp [h2]⟩, heq⟩

/-- The names of a copy. -/
theorem mem_copyHeader {order : MapOrder} {dst src : Header} {opts : List CopyOption}
    {k : GoString} :
    k ∈ copyHeader order dst src opts ↔
      k ∈ dst ∨ ∃ vs, (CopyOptions.ofList opts).Copies src k vs := by
  rw [copyHeader_eq, Header.mem_foldl_insert, List.mem_map]
  simp only [Prod.exists, CopyOptions.mem_copied, exists_and_right, exists_eq_right]

/-- An entry that alone is rewritten to its name is in the copy. -/
theorem getElem?_copyHeader_of_unique {src : Header} {opts : List CopyOption} {k : GoString}
    {vs : List GoString} (hcopy : (CopyOptions.ofList opts).Copies src k vs)
    (h : ∀ vs', (CopyOptions.ofList opts).Copies src k vs' → vs' = vs) (order : MapOrder)
    (dst : Header) : (copyHeader order dst src opts)[k]? = some vs := by
  rw [copyHeader_eq]
  refine Header.getElem?_foldl_insert_of_unique ?_ (fun vs' hmem => h vs' ?_) dst
  · exact (CopyOptions.mem_copied _).2 hcopy
  · exact (CopyOptions.mem_copied _).1 hmem

/-- What a copy holds, when names that become the same come with the same values. -/
theorem getElem?_copyHeader_of_agree {src : Header} {opts : List CopyOption}
    (h : ∀ k vs vs', (CopyOptions.ofList opts).Copies src k vs →
      (CopyOptions.ofList opts).Copies src k vs' → vs = vs')
    (order : MapOrder) (dst : Header) (k : GoString) (vs : List GoString) :
    (copyHeader order dst src opts)[k]? = some vs ↔
      (CopyOptions.ofList opts).Copies src k vs ∨
        (dst[k]? = some vs ∧ ∀ vs', ¬ (CopyOptions.ofList opts).Copies src k vs') := by
  rw [copyHeader_eq, Header.getElem?_foldl_insert, CopyOptions.mem_copied]
  · simp only [CopyOptions.mem_copied]
  · rintro ⟨k, vs⟩ he ⟨k', vs'⟩ he' rfl
    exact h k vs vs' ((CopyOptions.mem_copied _).1 he) ((CopyOptions.mem_copied _).1 he')

/-- **What a copy holds**: the entries that were copied, and what was there under other names. -/
theorem getElem?_copyHeader {src : Header} {opts : List CopyOption}
    (h : (CopyOptions.ofList opts).NoClash src) (order : MapOrder) (dst : Header) (k : GoString)
    (vs : List GoString) :
    (copyHeader order dst src opts)[k]? = some vs ↔
      (CopyOptions.ofList opts).Copies src k vs ∨
        (dst[k]? = some vs ∧ ∀ vs', ¬ (CopyOptions.ofList opts).Copies src k vs') :=
  getElem?_copyHeader_of_agree (fun _ _ _ => h.values_eq) order dst k vs

/-! ## When the order matters -/

/-- A copy does not depend on the order of its loop, and holds every value of every name that is not
skipped under the name that it is rewritten to. -/
def Lossless (opts : List CopyOption) (dst src : Header) : Prop :=
  (∀ order order' : MapOrder, copyHeader order dst src opts = copyHeader order' dst src opts) ∧
    ∀ (order : MapOrder) (k : GoString) (vs : List GoString),
      (CopyOptions.ofList opts).Copies src k vs →
        ∀ v ∈ vs, ∃ ws, (copyHeader order dst src opts)[k]? = some ws ∧ v ∈ ws

/-- An entry that is visited last is stored. -/
theorem getElem?_copyHeader_last {src : Header} {opts : List CopyOption} {k₀ : GoString}
    {vs₀ : List GoString} (h : src[k₀]? = some vs₀)
    (hskip : (CopyOptions.ofList opts).skips k₀ = false) (dst : Header) :
    (copyHeader (.last (k₀, vs₀)) dst src opts)[((CopyOptions.ofList opts).replace (k₀, vs₀)).1]? =
      some ((CopyOptions.ofList opts).replace (k₀, vs₀)).2 := by
  have hmem : (k₀, vs₀) ∈ src.toList := Std.ExtTreeMap.mem_toList_iff_getElem?_eq_some.2 h
  simp only [copyHeader, MapOrder.last, if_pos hmem, List.foldl_append, List.foldl_cons,
    List.foldl_nil, hskip, Bool.false_eq_true, if_false]
  rw [Header.getElem?_insert, if_pos rfl]

/-- **When a copy loses nothing**: exactly when names that become the same come with the same
values. -/
theorem lossless_iff (opts : List CopyOption) (dst src : Header) :
    Lossless opts dst src ↔ ∀ k vs vs', (CopyOptions.ofList opts).Copies src k vs →
      (CopyOptions.ofList opts).Copies src k vs' → vs = vs' := by
  constructor
  · rintro ⟨horder, -⟩ k vs vs' ⟨k₀, vs₀, h₀, hs₀, he₀⟩ ⟨k₁, vs₁, h₁, hs₁, he₁⟩
    -- each of the two entries may be the last one
    have hlast₀ := getElem?_copyHeader_last h₀ hs₀ dst
    have hlast₁ := getElem?_copyHeader_last h₁ hs₁ dst
    rw [he₀] at hlast₀
    rw [he₁] at hlast₁
    rw [horder _ (.last (k₁, vs₁)), hlast₁] at hlast₀
    exact (Option.some.inj hlast₀).symm
  · intro h
    constructor
    · intro order order'
      apply Std.ExtTreeMap.ext_getElem?
      intro k
      apply Option.ext
      intro vs
      rw [getElem?_copyHeader_of_agree h, getElem?_copyHeader_of_agree h]
    · intro order k vs hc v hv
      exact ⟨vs, (getElem?_copyHeader_of_agree h order dst k vs).2 (.inl hc), hv⟩

end GrpcWeb.Server

import GrpcWeb.Go.Header

/-!
# Reading a MIME header

`textproto.Reader.ReadMIMEHeader`, as its package documents it: lines end with `\n` or `\r\n`, a
line that begins with a blank continues the one before, a line is cut at its first colon, and a
blank line ends the header. Blanks are spaces and tabs.

`readMIMEHeader_fields` reads back a header that was written a line for each field, when no field
breaks its line. Whatever was written, no value that is read has a line feed
(`noLineFeed_of_readMIMEHeader`), and every name is in its canonical form
(`canonical_of_readMIMEHeader`).
-/

namespace GrpcWeb.Go

/-- The blanks of a header line. -/
def isBlank (c : UInt8) : Bool := c == 0x20 || c == 0x9

/-- The package's `trim`. -/
def trimBlanks (s : GoString) : GoString := (s.rdropWhile isBlank).dropWhile isBlank

/-- `dropCR` of the scanner. -/
def dropCR (line : GoString) : GoString :=
  if line.getLast? = some 0xD then line.dropLast else line

/-- The next line, without its end, and what follows it; `none` at the end of the input. -/
def readLine (s : GoString) : Option (GoString × GoString) :=
  if s = [] then none
  else
    match s.dropWhile (· ≠ 0xA) with
    | [] => some (s, [])
    | _ :: rest => some (dropCR (s.takeWhile (· ≠ 0xA)), rest)

theorem length_of_readLine {s line rest : GoString} (h : readLine s = some (line, rest)) :
    rest.length < s.length := by
  unfold readLine at h
  split at h
  · cases h
  rename_i hs
  split at h
  · cases h
    exact List.length_pos_iff.2 hs
  · rename_i c rest' hd
    cases h
    have hle := (List.dropWhile_sublist (fun c => decide (c ≠ 0xA)) (l := s)).length_le
    rw [hd, List.length_cons] at hle
    omega

/-- The lines that continue a line: each is added behind a blank. -/
def readContinued (buf s : GoString) : GoString × GoString :=
  if s.head?.any isBlank then
    match _h : readLine (s.dropWhile isBlank) with
    | none => (buf, [])
    | some (line, rest) => readContinued (buf ++ 0x20 :: trimBlanks line) rest
  else (buf, s)
termination_by s.length
decreasing_by
  exact (length_of_readLine _h).trans_le (List.dropWhile_sublist _).length_le

theorem length_readContinued (buf s : GoString) : (readContinued buf s).2.length ≤ s.length := by
  induction buf, s using readContinued.induct with
  | case1 buf s hblank h =>
    rw [readContinued, if_pos hblank]
    split
    · simp
    · simp_all
  | case2 buf s hblank line rest h ih =>
    rw [readContinued, if_pos hblank]
    split
    · simp
    · rename_i line' rest' h'
      obtain ⟨rfl, rfl⟩ := Prod.mk.inj (Option.some.inj (h.symm.trans h'))
      have hlt := (length_of_readLine h).trans_le
        (List.dropWhile_sublist isBlank (l := s)).length_le
      omega
  | case3 buf s hblank =>
    rw [readContinued, if_neg hblank]

/-- What `ReadMIMEHeader` returns an error for. -/
inductive MIMEError
  | unexpectedEOF
  | malformedInitialLine (line : GoString)
  | missingColon (line : GoString)
  deriving DecidableEq

/-- The loop of `ReadMIMEHeader`: the header as it has been read so far. -/
def readHeaderLines (m : Header) (s : GoString) : Except MIMEError Header :=
  match _h : readLine s with
  | none => .error .unexpectedEOF
  | some ([], _) => .ok m
  | some (c :: line, rest) =>
    if (c :: line).contains 0x3A then
      let kv := readContinued (trimBlanks (c :: line)) rest
      let key := canonicalHeaderKey (kv.1.takeWhile (· ≠ 0x3A))
      let value := (kv.1.dropWhile (· ≠ 0x3A)).tail.dropWhile isBlank
      if key = [] then readHeaderLines m kv.2
      else readHeaderLines (m.insert key (m.getD key [] ++ [value])) kv.2
    else .error (.missingColon (c :: line))
termination_by s.length
decreasing_by
  all_goals exact (length_readContinued _ _).trans_lt (length_of_readLine _h)

/-- `ReadMIMEHeader` of a reader over `s`. -/
def readMIMEHeader (s : GoString) : Except MIMEError Header :=
  if s.head?.any isBlank then
    match readLine s with
    | none => .error .unexpectedEOF
    | some (line, _) => .error (.malformedInitialLine line)
  else readHeaderLines ∅ s

/-! ## Blanks -/

theorem rdropWhile_append_cons {α : Type*} {p : α → Bool} (l r : List α) {c : α}
    (hc : p c = false) : (l ++ c :: r).rdropWhile p = l ++ c :: r.rdropWhile p := by
  have hsplit : (l ++ c :: r).reverse = r.reverse ++ (c :: l.reverse) := by simp
  rw [List.rdropWhile, hsplit, List.dropWhile_append]
  split
  · rename_i hempty
    rw [List.isEmpty_iff] at hempty
    rw [List.rdropWhile, hempty, List.dropWhile_cons_of_neg (by simp [hc])]
    simp
  · rw [List.rdropWhile]
    simp

theorem rdropWhile_cons_blank {α : Type*} {p : α → Bool} {c : α} (hc : p c = true) (l : List α) :
    ((c :: l).rdropWhile p).dropWhile p = (l.rdropWhile p).dropWhile p := by
  have hsplit : (c :: l).reverse = l.reverse ++ [c] := by simp
  rw [List.rdropWhile, hsplit, List.dropWhile_append]
  split
  · rename_i hempty
    rw [List.isEmpty_iff] at hempty
    rw [List.rdropWhile, hempty, List.dropWhile_cons_of_pos hc]
    simp
  · rw [List.rdropWhile, List.reverse_append]
    simp [hc]

theorem mem_of_mem_trimBlanks {s : GoString} {c : UInt8} (h : c ∈ trimBlanks s) : c ∈ s := by
  have hpre : s.rdropWhile isBlank <+: s := List.rdropWhile_prefix _ _
  exact hpre.subset (List.dropWhile_subset _ h)

theorem trimBlanks_trimBlanks (s : GoString) : trimBlanks (trimBlanks s) = trimBlanks s := by
  have hlast : (trimBlanks s).rdropWhile isBlank = trimBlanks s := by
    rw [List.rdropWhile_eq_self_iff]
    intro hne
    have hsuffix : trimBlanks s <:+ s.rdropWhile isBlank := List.dropWhile_suffix _
    rw [hsuffix.getLast hne]
    exact List.rdropWhile_last_not _ _ _
  conv_lhs => rw [trimBlanks, hlast, trimBlanks]
  exact List.dropWhile_idempotent _ _

/-- What is no blank is not cut. -/
theorem mem_trimBlanks {s : GoString} {c : UInt8} (hc : isBlank c = false) (h : c ∈ s) :
    c ∈ trimBlanks s := by
  have hdrop {l : GoString} (hl : c ∈ l) : c ∈ l.dropWhile isBlank := by
    rw [← List.takeWhile_append_dropWhile (p := isBlank) (l := l), List.mem_append] at hl
    refine hl.resolve_left fun htake => ?_
    rw [List.mem_takeWhile_imp htake] at hc
    cases hc
  refine hdrop ?_
  rw [List.rdropWhile, List.mem_reverse]
  exact hdrop (List.mem_reverse.2 h)

/-! ## Lines -/

theorem readLine_append {line : GoString} (h : 0xA ∉ line) (s : GoString) :
    readLine (line ++ 0xD :: 0xA :: s) = some (line, s) := by
  have hkeep : ∀ c ∈ line ++ [(0xD : UInt8)], decide (c ≠ 0xA) = true := by
    intro c hc
    rcases List.mem_append.1 hc with hc | hc
    · simpa using fun heq : c = 0xA => h (heq ▸ hc)
    · rw [List.mem_singleton.1 hc]
      decide
  have hsplit : line ++ 0xD :: 0xA :: s = (line ++ [0xD]) ++ 0xA :: s := by simp
  have hdrop : (line ++ 0xD :: 0xA :: s).dropWhile (· ≠ 0xA) = 0xA :: s := by
    rw [hsplit, List.dropWhile_append_of_pos hkeep, List.dropWhile_cons_of_neg (by simp)]
  have htake : (line ++ 0xD :: 0xA :: s).takeWhile (· ≠ 0xA) = line ++ [0xD] := by
    rw [hsplit, List.takeWhile_append_of_pos hkeep, List.takeWhile_cons_of_neg (by simp),
      List.append_nil]
  rw [readLine, if_neg (by simp), hdrop, htake]
  simp [dropCR]

/-- A line has no line feed. -/
theorem not_mem_of_readLine {s line rest : GoString} (h : readLine s = some (line, rest)) :
    0xA ∉ line := by
  unfold readLine at h
  split at h
  · cases h
  split at h
  · rename_i hd
    cases h
    intro hmem
    have := List.dropWhile_eq_nil_iff.1 hd 0xA hmem
    simp at this
  · cases h
    intro hmem
    have hsub : dropCR (s.takeWhile (· ≠ 0xA)) ⊆ s.takeWhile (· ≠ 0xA) := by
      unfold dropCR
      split
      · exact List.dropLast_subset _
      · exact fun _ hc => hc
    have := List.mem_takeWhile_imp (hsub hmem)
    simp at this

theorem not_mem_of_readContinued {buf s : GoString} (h : 0xA ∉ buf) :
    0xA ∉ (readContinued buf s).1 := by
  induction buf, s using readContinued.induct with
  | case1 buf s hblank hr =>
    rw [readContinued, if_pos hblank]
    split
    · exact h
    · simp_all
  | case2 buf s hblank line rest hr ih =>
    rw [readContinued, if_pos hblank]
    split
    · exact h
    · rename_i line' rest' hr'
      obtain ⟨rfl, rfl⟩ := Prod.mk.inj (Option.some.inj (hr.symm.trans hr'))
      refine ih ?_
      have hline := fun hc => not_mem_of_readLine hr (mem_of_mem_trimBlanks hc)
      simp only [List.mem_append, List.mem_cons, not_or]
      exact ⟨h, by decide, hline⟩
  | case3 buf s hblank =>
    rw [readContinued, if_neg hblank]
    exact h

/-- A line that is not continued. -/
theorem readContinued_of_head {buf s : GoString} (h : s.head?.any isBlank = false) :
    readContinued buf s = (buf, s) := by
  rw [readContinued, h]
  rfl

/-! ## Fields -/

/-- The line of a field. -/
def fieldLine (name value : GoString) : GoString := name ++ ascii ": " ++ value ++ ascii "\r\n"

/-- A value without line feeds. -/
def NoLineFeed (h : Header) : Prop :=
  ∀ (k : GoString) (vs : List GoString), h[k]? = some vs → ∀ v ∈ vs, 0xA ∉ v

theorem isTokenByte_spec {c : UInt8} (h : isTokenByte c = true) :
    c ≠ 0xA ∧ c ≠ 0xD ∧ c ≠ 0x3A ∧ isBlank c = false := by
  have key : ∀ c, isTokenByte c = true → c ≠ 0xA ∧ c ≠ 0xD ∧ c ≠ 0x3A ∧ isBlank c = false :=
    forall_byte (by decide +kernel)
  exact key c h

/-- **The line of a field is read back**, when the value does not break it and the next line does
not continue it. -/
theorem readHeaderLines_field {name value s : GoString} (hne : name ≠ [])
    (hname : name.all isTokenByte = true) (hvalue : 0xA ∉ value) (hs : s.head?.any isBlank = false)
    (m : Header) :
    readHeaderLines m (fieldLine name value ++ s) =
      readHeaderLines (m.insert (canonicalHeaderKey name)
        (m.getD (canonicalHeaderKey name) [] ++ [trimBlanks value])) s := by
  obtain ⟨c, name', rfl⟩ := List.exists_cons_of_ne_nil hne
  set line := c :: name' ++ 0x3A :: 0x20 :: value with hline
  have htoken : ∀ d ∈ c :: name', isTokenByte d = true := List.all_eq_true.1 hname
  have hcolon : ∀ d ∈ c :: name', decide (d ≠ 0x3A) = true := fun d hd => by
    simpa using (isTokenByte_spec (htoken d hd)).2.2.1
  have hread : readLine (fieldLine (c :: name') value ++ s) = some (line, s) := by
    have hfeed : 0xA ∉ line := by
      intro hd
      rcases List.mem_append.1 hd with hd | hd
      · exact (isTokenByte_spec (htoken _ hd)).1 rfl
      · simp [hvalue] at hd
    have htext : fieldLine (c :: name') value ++ s = line ++ 0xD :: 0xA :: s := by
      have hsep : ascii ": " = [0x3A, 0x20] := by decide
      have hend : ascii "\r\n" = [0xD, 0xA] := by decide
      simp [fieldLine, hline, hsep, hend]
    rw [htext, readLine_append hfeed]
  have htrim : trimBlanks line = c :: name' ++ 0x3A :: (0x20 :: value).rdropWhile isBlank := by
    rw [trimBlanks, hline, rdropWhile_append_cons _ _ (by decide), List.cons_append,
      List.dropWhile_cons_of_neg (by simp [(isTokenByte_spec (htoken c List.mem_cons_self)).2.2.2])]
  have hkv : readContinued (trimBlanks line) s = (trimBlanks line, s) := readContinued_of_head hs
  have hkey : (trimBlanks line).takeWhile (· ≠ 0x3A) = c :: name' := by
    rw [htrim, List.takeWhile_append_of_pos hcolon, List.takeWhile_cons_of_neg (by simp),
      List.append_nil]
  have hval : ((trimBlanks line).dropWhile (· ≠ 0x3A)).tail.dropWhile isBlank =
      trimBlanks value := by
    rw [htrim, List.dropWhile_append_of_pos hcolon, List.dropWhile_cons_of_neg (by simp),
      List.tail_cons, rdropWhile_cons_blank (by decide)]
    rfl
  have hcanonical : canonicalHeaderKey (c :: name') ≠ [] := by
    rw [canonicalHeaderKey, if_pos hname, capitalize]
    exact List.cons_ne_nil _ _
  rw [readHeaderLines]
  split
  · rename_i hnone
    rw [hread] at hnone
    cases hnone
  · rename_i hempty
    rw [hread] at hempty
    exact absurd (Prod.mk.inj (Option.some.inj hempty)).1 (by simp [hline])
  · rename_i c' line' rest hsome
    rw [hread] at hsome
    obtain ⟨hl, rfl⟩ := Prod.mk.inj (Option.some.inj hsome)
    rw [← hl, if_pos (by simp [hline]), hkv]
    simp only
    rw [hkey, hval, if_neg hcanonical]

/-- A blank line ends the header. -/
theorem readHeaderLines_blank (m : Header) (s : GoString) :
    readHeaderLines m (ascii "\r\n" ++ s) = .ok m := by
  have hread : readLine (ascii "\r\n" ++ s) = some ([], s) := by
    have hempty : (0xA : UInt8) ∉ ([] : GoString) := List.not_mem_nil
    exact readLine_append hempty s
  rw [readHeaderLines]
  split
  · rename_i hnone
    rw [hread] at hnone
    cases hnone
  · rfl
  · rename_i hsome
    rw [hread] at hsome
    cases hsome

/-- **A header that was written a line for each field** is read back field by field. -/
theorem readMIMEHeader_fields {fields : List (GoString × GoString)}
    (hnames : ∀ f ∈ fields, f.1 ≠ [] ∧ f.1.all isTokenByte = true)
    (hvalues : ∀ f ∈ fields, 0xA ∉ f.2) :
    readMIMEHeader (fields.flatMap (fun f => fieldLine f.1 f.2) ++ ascii "\r\n") =
      .ok (fields.foldl (fun m f => m.insert (canonicalHeaderKey f.1)
        (m.getD (canonicalHeaderKey f.1) [] ++ [trimBlanks f.2])) ∅) := by
  have hhead (fields : List (GoString × GoString))
      (hnames : ∀ f ∈ fields, f.1 ≠ [] ∧ f.1.all isTokenByte = true) :
      ((fields.flatMap fun f => fieldLine f.1 f.2) ++ ascii "\r\n").head?.any isBlank = false := by
    rcases fields with _ | ⟨f, fields⟩
    · decide
    · obtain ⟨hne, htoken⟩ := hnames f List.mem_cons_self
      obtain ⟨c, name, hf⟩ := List.exists_cons_of_ne_nil hne
      rw [hf] at htoken
      have hc := (isTokenByte_spec (List.all_eq_true.1 htoken c List.mem_cons_self)).2.2.2
      simp [fieldLine, hf, hc]
  have key (m : Header) : readHeaderLines m
      (fields.flatMap (fun f => fieldLine f.1 f.2) ++ ascii "\r\n") =
        .ok (fields.foldl (fun m f => m.insert (canonicalHeaderKey f.1)
          (m.getD (canonicalHeaderKey f.1) [] ++ [trimBlanks f.2])) m) := by
    induction fields generalizing m with
    | nil => exact readHeaderLines_blank m []
    | cons f fields ih =>
      obtain ⟨hf, hfields⟩ := List.forall_mem_cons.1 hnames
      obtain ⟨hv, hvs⟩ := List.forall_mem_cons.1 hvalues
      rw [List.flatMap_cons, List.append_assoc,
        readHeaderLines_field hf.1 hf.2 hv (hhead fields hfields), ih hfields hvs, List.foldl_cons]
  rw [readMIMEHeader, hhead fields hnames]
  exact key ∅

/-- The fields of a header whose names differ in their canonical form. -/
theorem getElem?_foldl_add {fields : List (GoString × GoString)}
    (hdistinct : (fields.map fun f => canonicalHeaderKey f.1).Nodup) {m : Header}
    (hm : ∀ f ∈ fields, m[canonicalHeaderKey f.1]? = none) (k : GoString) (vs : List GoString) :
    (fields.foldl (fun m f => m.insert (canonicalHeaderKey f.1)
      (m.getD (canonicalHeaderKey f.1) [] ++ [trimBlanks f.2])) m)[k]? = some vs ↔
        (∃ f ∈ fields, canonicalHeaderKey f.1 = k ∧ vs = [trimBlanks f.2]) ∨ m[k]? = some vs := by
  induction fields generalizing m with
  | nil => simp
  | cons f fields ih =>
    rw [List.map_cons, List.nodup_cons] at hdistinct
    obtain ⟨hf, hfields⟩ := List.forall_mem_cons.1 hm
    have hget : m.getD (canonicalHeaderKey f.1) [] = [] := by
      rw [Std.ExtTreeMap.getD_eq_getD_getElem?, hf]
      rfl
    rw [List.foldl_cons, hget, List.nil_append, ih hdistinct.2]
    · rw [Header.getElem?_insert]
      by_cases hk : canonicalHeaderKey f.1 = k
      · subst hk
        simp only [hf, List.mem_cons, exists_eq_or_imp, true_and, if_true, reduceCtorEq, or_false,
          Option.some.injEq]
        exact or_comm.trans (or_congr_left eq_comm)
      · simp [hk]
    · intro g hg
      rw [Header.getElem?_insert, if_neg]
      · exact hfields g hg
      · intro heq
        exact hdistinct.1 (heq ▸ List.mem_map_of_mem hg)

/-- A value is added. -/
theorem NoLineFeed.insert {m : Header} (hm : NoLineFeed m) (key : GoString) {value : GoString}
    (hv : 0xA ∉ value) : NoLineFeed (m.insert key (m.getD key [] ++ [value])) := by
  intro k vs hk v hmem
  rw [Header.getElem?_insert] at hk
  split at hk
  · cases hk
    rcases List.mem_append.1 hmem with hold | hnew
    · rw [Std.ExtTreeMap.getD_eq_getD_getElem?] at hold
      rcases hget : m[key]? with _ | old
      · simp [hget] at hold
      · exact hm key old hget v (by simpa [hget] using hold)
    · rw [List.mem_singleton.1 hnew]
      exact hv
  · exact hm k vs hk v hmem

/-- **No value that is read has a line feed.** -/
theorem noLineFeed_of_readMIMEHeader {s : GoString} {h : Header} (hs : readMIMEHeader s = .ok h) :
    NoLineFeed h := by
  have key (m : Header) (s : GoString) (hm : NoLineFeed m) :
      ∀ h, readHeaderLines m s = .ok h → NoLineFeed h := by
    fun_induction readHeaderLines m s with
    | case1 => exact fun _ hh => by cases hh
    | case2 =>
      rintro _ ⟨⟩
      exact hm
    | case3 m s c line rest hr hcolon kv key hkey ih => exact ih hm
    | case4 m s c line rest hr hcolon kv key value hkey ih =>
      refine ih (hm.insert key fun hmem => ?_)
      have hkv : 0xA ∈ kv.1 :=
        List.dropWhile_subset _ (List.mem_of_mem_tail (List.dropWhile_subset _ hmem))
      exact not_mem_of_readContinued
        (fun hline => not_mem_of_readLine hr (mem_of_mem_trimBlanks hline)) hkv
    | case5 => exact fun _ hh => by cases hh
  unfold readMIMEHeader at hs
  split at hs
  · split at hs <;> cases hs
  · refine key ∅ s (fun k vs hk => ?_) h hs
    simp at hk

/-- **Every name that is read is in its canonical form.** -/
theorem canonical_of_readMIMEHeader {s : GoString} {h : Header} (hs : readMIMEHeader s = .ok h) :
    h.Canonical := by
  have key (m : Header) (s : GoString) (hm : m.Canonical) :
      ∀ h, readHeaderLines m s = .ok h → h.Canonical := by
    fun_induction readHeaderLines m s with
    | case1 => exact fun _ hh => by cases hh
    | case2 =>
      rintro _ ⟨⟩
      exact hm
    | case3 m s c line rest hr hcolon kv key hkey ih => exact ih hm
    | case4 m s c line rest hr hcolon kv key value hkey ih =>
      refine ih fun k hk => ?_
      rw [Std.ExtTreeMap.mem_insert, Std.LawfulEqOrd.compare_eq_iff_eq] at hk
      rcases hk with rfl | hk
      · exact canonicalHeaderKey_idempotent _
      · exact hm k hk
    | case5 => exact fun _ hh => by cases hh
  unfold readMIMEHeader at hs
  split at hs
  · split at hs <;> cases hs
  · exact key ∅ s (fun k hk => absurd hk Std.ExtTreeMap.not_mem_empty) h hs

end GrpcWeb.Go

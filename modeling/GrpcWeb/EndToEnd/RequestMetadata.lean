import GrpcWeb.Client.WebsocketTransport
import GrpcWeb.Go.MimeHeader

/-!
# Request metadata over a WebSocket

The header block of a request: `headersToBytes` of the client writes a line for each name, and
`parseHeaders` of the server reads the block as a MIME header. The only check in between is that of
`encodeASCII`, which lets tabs, line feeds and carriage returns pass.

`metadata_delivered_iff` says when the server reads what the client was given (`Delivered`): exactly
when no value has a line feed. A carriage return does no harm, since it ends a line only together
with a line feed. `metadata_forged` is a value that makes up a header of its own.
-/

namespace GrpcWeb.Server

open Go

/-- `parseHeaders` of the server: the block, with a blank line behind it. -/
def parseHeaders (headerString : GoString) : Except MIMEError Header :=
  readMIMEHeader (headerString ++ ascii "\r\n")

end GrpcWeb.Server

namespace GrpcWeb.EndToEnd

open Js Go Client Server

/-! ## From code units to bytes -/

/-- The bytes of a string of ASCII code units. -/
def asciiBytes (s : JsString) : Bytes := s.map UInt16.toUInt8

theorem mem_asciiBytes_of_mem {s : JsString} (h : 0xA ∈ s) : 0xA ∈ asciiBytes s :=
  List.mem_map.2 ⟨0xA, h, by decide⟩

theorem lt_of_isValidHeaderAscii {c : UInt16} (h : isValidHeaderAscii c.toNat = true) :
    c.toNat < 128 := by
  simp only [isValidHeaderAscii, isAllowedControlChars, Bool.or_eq_true, decide_eq_true_eq,
    Bool.and_eq_true] at h
  omega

/-- The bytes of an ASCII string spell it. -/
theorem fromCharCodes_asciiBytes {s : JsString} (h : ∀ c ∈ s, c.toNat < 128) :
    fromCharCodes (asciiBytes s) = s := by
  rw [fromCharCodes, asciiBytes, List.map_map]
  conv_rhs => rw [← List.map_id s]
  refine List.map_congr_left fun c hc => ?_
  apply UInt16.toNat_inj.1
  have := h c hc
  simp only [Function.comp_apply, UInt8.toNat_toUInt16, UInt16.toNat_toUInt8, id]
  omega

theorem mem_of_mem_asciiBytes {s : JsString} (hs : ∀ c ∈ s, isValidHeaderAscii c.toNat = true)
    (h : 0xA ∈ asciiBytes s) : 0xA ∈ s := by
  rw [← fromCharCodes_asciiBytes fun c hc => lt_of_isValidHeaderAscii (hs c hc)]
  exact List.mem_map.2 ⟨0xA, h, by decide⟩

/-- What `encodeASCII` accepts, and what it makes of it. -/
theorem encodeASCII_eq_ok {s : JsString} {b : Bytes} :
    encodeASCII s = .ok b ↔ (∀ c ∈ s, isValidHeaderAscii c.toNat = true) ∧ b = asciiBytes s := by
  unfold encodeASCII
  split
  · rename_i hall
    have hvalid : ∀ c ∈ s, isValidHeaderAscii c.toNat = true := List.all_eq_true.1 hall
    constructor
    · rintro ⟨⟩
      exact ⟨hvalid, rfl⟩
    · rintro ⟨-, rfl⟩
      rfl
  · rename_i hall
    constructor
    · intro h
      cases h
    · rintro ⟨hvalid, -⟩
      exact absurd (List.all_eq_true.2 hvalid) hall

/-- A token: the exclamation mark is one of its characters. -/
def IsToken (n : JsString) : Prop := n ≠ [] ∧ ∀ c ∈ n, isNameChar c = true ∨ c = 0x21

/-- The bytes of a name. -/
theorem isTokenByte_of_isNameChar {c : UInt16} (h : isNameChar c = true ∨ c = 0x21) :
    isTokenByte c.toUInt8 = true ∧ toLowerByte c.toUInt8 = (toLowerCode c).toUInt8 ∧
      (toLowerCode c).toNat < 128 := by
  have key : ∀ c, isNameChar c = true → isTokenByte c.toUInt8 = true ∧
      toLowerByte c.toUInt8 = (toLowerCode c).toUInt8 ∧ (toLowerCode c).toNat < 128 :=
    forall_nameChar (by decide +kernel)
  rcases h with h | rfl
  · exact key c h
  · decide

theorem asciiBytes_name {n : JsString} (h : IsToken n) :
    asciiBytes n ≠ [] ∧ (asciiBytes n).all isTokenByte = true := by
  refine ⟨by simpa [asciiBytes] using h.1, List.all_eq_true.2 fun b hb => ?_⟩
  obtain ⟨c, hc, rfl⟩ := List.mem_map.1 hb
  exact (isTokenByte_of_isNameChar (h.2 c hc)).1

/-- Names with the same canonical form differ in letter case only. -/
theorem toLowerCase_eq_of_canonicalHeaderKey_eq {n n' : JsString} (h : IsToken n) (h' : IsToken n')
    (heq : canonicalHeaderKey (asciiBytes n) = canonicalHeaderKey (asciiBytes n')) :
    toLowerCase n = toLowerCase n' := by
  have hlow {n : JsString} (h : IsToken n) :
      (canonicalHeaderKey (asciiBytes n)).map toLowerByte = asciiBytes (toLowerCase n) := by
    have htoken := (asciiBytes_name h).2
    rw [canonicalHeaderKey, if_pos htoken, (capitalize_spec true htoken).1]
    simp only [asciiBytes, toLowerCase, List.map_map]
    exact List.map_congr_left fun c hc => (isTokenByte_of_isNameChar (h.2 c hc)).2.1
  have hsmall {n : JsString} (h : IsToken n) : ∀ c ∈ toLowerCase n, c.toNat < 128 := by
    intro c hc
    obtain ⟨d, hd, rfl⟩ := List.mem_map.1 hc
    exact (isTokenByte_of_isNameChar (h.2 d hd)).2.2
  have hbytes : asciiBytes (toLowerCase n) = asciiBytes (toLowerCase n') := by
    rw [← hlow h, ← hlow h', heq]
  rw [← fromCharCodes_asciiBytes (hsmall h), ← fromCharCodes_asciiBytes (hsmall h'), hbytes]

/-! ## The block -/

/-- The line of a field, in bytes. -/
theorem asciiBytes_headersText (fields : List (JsString × List JsString)) :
    asciiBytes (headersText fields) = fields.flatMap fun f =>
      fieldLine (asciiBytes f.1) (asciiBytes (joinStrings (js ", ") f.2)) := by
  have hsep : asciiBytes (js ": ") = ascii ": " := by decide
  have hend : asciiBytes (js "\r\n") = ascii "\r\n" := by decide
  induction fields with
  | nil => rfl
  | cons f fields ih =>
    have happ (s t : JsString) : asciiBytes (s ++ t) = asciiBytes s ++ asciiBytes t :=
      List.map_append
    rw [headersText, List.flatMap_cons, happ, happ, happ, happ, hsep, hend, List.flatMap_cons, ← ih]
    rfl

theorem mem_joinStrings {sep : JsString} {ss : List JsString} {c : UInt16} (hsep : c ∉ sep) :
    c ∈ joinStrings sep ss ↔ ∃ s ∈ ss, c ∈ s := by
  have hcons (s : JsString) (ss : List JsString) :
      joinStrings sep (s :: ss) = s ++ ss.flatMap fun t => sep ++ t := by
    induction ss generalizing s with
    | nil => simp [joinStrings]
    | cons t ss ih =>
      have hjoin : joinStrings sep (s :: t :: ss) = s ++ (sep ++ joinStrings sep (t :: ss)) := by
        simp [joinStrings]
      rw [hjoin, ih t, List.flatMap_cons, List.append_assoc]
  rcases ss with _ | ⟨s, ss⟩
  · simp [joinStrings]
  · rw [hcons]
    simp [hsep]

variable {M : Type} [BrowserHeaders M]

/-- What the server reads of the metadata: a value for each name in its canonical form, the values
of the name joined, up to surrounding blanks, and no other name. -/
def Delivered (headers : M) (header : Header) : Prop :=
  (∀ f ∈ BrowserHeaders.entries headers, ∃ v,
    header[canonicalHeaderKey (asciiBytes f.1)]? = some [v] ∧
      trimBlanks v = trimBlanks (asciiBytes (joinStrings (js ", ") f.2))) ∧
  ∀ (k : GoString) (vs : List GoString), header[k]? = some vs →
    ∃ f ∈ BrowserHeaders.entries headers, canonicalHeaderKey (asciiBytes f.1) = k

/-- **Which metadata the server reads as it was given**: with names that are tokens, no two of them
the same, it is the metadata without a line feed in a value. -/
theorem metadata_delivered_iff {headers : M} {block : Bytes}
    (hnames : ∀ f ∈ BrowserHeaders.entries headers, IsToken f.1)
    (hdistinct : ((BrowserHeaders.entries headers).map fun f => toLowerCase f.1).Nodup)
    (hblock : headersToBytes headers = .ok block) :
    (∃ header, parseHeaders block = .ok header ∧ Delivered headers header) ↔
      ∀ f ∈ BrowserHeaders.entries headers, ∀ v ∈ f.2, 0xA ∉ v := by
  obtain ⟨hvalid, rfl⟩ := encodeASCII_eq_ok.1 hblock
  have hjoin (f : JsString × List JsString) :
      0xA ∈ joinStrings (js ", ") f.2 ↔ ∃ v ∈ f.2, 0xA ∈ v := mem_joinStrings (by decide)
  rw [asciiBytes_headersText, parseHeaders]
  constructor
  · rintro ⟨header, hparse, hentries, -⟩ f hf v hv hmem
    obtain ⟨w, hget, htrim⟩ := hentries f hf
    have hblank : (0xA : UInt8) ∈ trimBlanks (asciiBytes (joinStrings (js ", ") f.2)) :=
      mem_trimBlanks (by decide) (mem_asciiBytes_of_mem ((hjoin f).2 ⟨v, hv, hmem⟩))
    rw [← htrim] at hblank
    exact noLineFeed_of_readMIMEHeader hparse _ _ hget w (List.mem_singleton.2 rfl)
      (mem_of_mem_trimBlanks hblank)
  · intro hfree
    set fields := (BrowserHeaders.entries headers).map fun f =>
      (asciiBytes f.1, asciiBytes (joinStrings (js ", ") f.2)) with hfields
    have hflat : (BrowserHeaders.entries headers).flatMap (fun f =>
        fieldLine (asciiBytes f.1) (asciiBytes (joinStrings (js ", ") f.2))) =
          fields.flatMap fun f => fieldLine f.1 f.2 := by rw [hfields, List.flatMap_map]
    have htokens : ∀ f ∈ fields, f.1 ≠ [] ∧ f.1.all isTokenByte = true := by
      rw [hfields]
      exact List.forall_mem_map.2 fun f hf => asciiBytes_name (hnames f hf)
    have hfeeds : ∀ f ∈ fields, 0xA ∉ f.2 := by
      rw [hfields]
      refine List.forall_mem_map.2 fun f hf hmem => ?_
      have hchars : ∀ c ∈ joinStrings (js ", ") f.2, isValidHeaderAscii c.toNat = true := by
        refine fun c hc => hvalid c (List.mem_flatMap.2 ⟨f, hf, ?_⟩)
        simp [hc]
      obtain ⟨v, hv, hfeed⟩ := (hjoin f).1 (mem_of_mem_asciiBytes hchars hmem)
      exact hfree f hf v hv hfeed
    have hkeys : (fields.map fun f => canonicalHeaderKey f.1).Nodup := by
      rw [hfields, List.map_map]
      refine List.pairwise_map.2 ((List.pairwise_map.1 hdistinct).imp_of_mem ?_)
      intro f g hf hg hne heq
      exact hne (toLowerCase_eq_of_canonicalHeaderKey_eq (hnames f hf) (hnames g hg) heq)
    rw [hflat, readMIMEHeader_fields htokens hfeeds]
    have hget := getElem?_foldl_add hkeys (m := ∅) (by simp)
    refine ⟨_, rfl, ?_, ?_⟩
    · intro f hf
      refine ⟨trimBlanks (asciiBytes (joinStrings (js ", ") f.2)), (hget _ _).2 (.inl ?_), ?_⟩
      · exact ⟨_, List.mem_map_of_mem hf, rfl, rfl⟩
      · exact trimBlanks_trimBlanks _
    · intro k vs hk
      rcases (hget k vs).1 hk with ⟨g, hg, hk, -⟩ | hempty
      · obtain ⟨f, hf, rfl⟩ := List.mem_map.1 hg
        exact ⟨f, hf, hk⟩
      · simp at hempty

/-- Two values under one name, with a carriage return in the second one. -/
def carriageReturn : HeaderFields := ⟨[(js "x-a", [js "b ", js "c\rd"])]⟩

theorem metadata_delivered_iff_carriageReturn :
    (∃ header, parseHeaders (ascii "x-a: b , c\rd\r\n") = .ok header ∧
      Delivered carriageReturn header) ↔
        ∀ f ∈ BrowserHeaders.entries carriageReturn, ∀ v ∈ f.2, 0xA ∉ v := by
  refine metadata_delivered_iff ?_ (by decide) (by decide +kernel)
  rintro f (_ | ⟨_, ⟨⟩⟩)
  have hname : IsName (js "x-a") := by decide
  exact ⟨hname.ne_nil, fun c hc => Or.inl (hname.chars c hc)⟩

/-! ## A value that forges a header -/

/-- A value with a line feed and the text of another header behind it. -/
def forging : HeaderFields := ⟨[(js "x-a", [js "b\nx-role: admin"])]⟩

/-- **The server reads a header that is not in the metadata**, `X-Role`. -/
theorem metadata_forged :
    headersToBytes forging = .ok (ascii "x-a: b\nx-role: admin\r\n") ∧
      (parseHeaders (ascii "x-a: b\nx-role: admin\r\n")).map (fun h => h.toList) =
        .ok [(ascii "X-A", [ascii "b"]), (ascii "X-Role", [ascii "admin"])] ∧
      ¬ ∃ header, parseHeaders (ascii "x-a: b\nx-role: admin\r\n") = .ok header ∧
        Delivered forging header := by
  refine ⟨by decide +kernel, by decide +kernel, ?_⟩
  rintro ⟨header, hparse, -, hnames⟩
  have hrole : (parseHeaders (ascii "x-a: b\nx-role: admin\r\n")).map
      (fun h => h[ascii "X-Role"]?) = .ok (some [ascii "admin"]) := by decide +kernel
  rw [hparse] at hrole
  obtain ⟨f, hf, hkey⟩ := hnames (ascii "X-Role") [ascii "admin"] (Except.ok.inj hrole)
  obtain rfl : f = (js "x-a", [js "b\nx-role: admin"]) := List.mem_singleton.1 hf
  revert hkey
  decide

end GrpcWeb.EndToEnd

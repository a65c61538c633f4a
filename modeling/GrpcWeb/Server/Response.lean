import GrpcWeb.Foundations.Base64
import GrpcWeb.Server.CopyHeader

/-!
# The response writer of the server

`grpcWebResponse` stands between a gRPC handler and the response of the HTTP server. It copies the
handler's headers when the response starts, passes the body through, and sends what the handler set
as trailers behind the body, in a frame of their own; when nothing was written, headers and trailers
go out together. In text format the body passes through `base64ResponseWriter`.

`ResponseWriter` is the contract of `http.ResponseWriter`: the first status sends the headers that
are set at that point, and a write or a flush sends status 200 when there was none. It refuses a
write behind a status that has no body (`http.ErrBodyNotAllowed`), and one that makes the body
longer than the `Content-Length` of the headers (`http.ErrContentLength`). The code does not look at
the results of its writes; the encoder of the text format stops at the first one that is refused.

A run of a handler is a list of operations; each of them comes with the orders that the loops over
header maps take in it.
-/

namespace GrpcWeb.Server

open Go

def grpcContentType : GoString := ascii "application/grpc"

def grpcWebContentType : GoString := ascii "application/grpc-web"

def grpcWebTextContentType : GoString := ascii "application/grpc-web-text"

/-- `http2.TrailerPrefix`. -/
def trailerPrefix : GoString := ascii "Trailer:"

def statusOK : ℕ := 200

/-! ## The HTTP response -/

/-- A status that a body may follow. -/
def bodyAllowedForStatus (status : ℕ) : Bool :=
  !(100 ≤ status && status ≤ 199) && status != 204 && status != 304

/-- The length that the headers declare for the body. One that is no number, or negative, is
ignored. -/
def contentLength (h : Header) : Option ℕ :=
  ((h[ascii "Content-Length"]?).bind List.head?).bind fun cl =>
    (parseInt64 cl).bind fun v => if 0 ≤ v then some v.toNat else none

/-- Without that name no length is declared. -/
theorem contentLength_eq_none [Unicode] {h : Header}
    (hnames : ∀ f ∈ h, toLower f ≠ ascii "content-length") : contentLength h = none := by
  have hnot : ascii "Content-Length" ∉ h := fun hmem => hnames _ hmem (by
    rw [toLower_of_isASCII (by decide)]
    decide)
  rw [contentLength, Std.ExtTreeMap.getElem?_eq_none hnot]
  rfl

/-- A response of the HTTP server: its header map, the status and headers that were sent, the bytes
of the body, and how many bytes there were to write. -/
structure ResponseWriter where
  header : Header
  sent : Option (ℕ × Header) := none
  body : Bytes := []
  written : ℕ := 0
  isFlusher : Bool := true

namespace ResponseWriter

def writeHeader (code : ℕ) (w : ResponseWriter) : ResponseWriter :=
  match w.sent with
  | some _ => w
  | none => { w with sent := some (code, w.header) }

def bodyAllowed (w : ResponseWriter) : Bool := w.sent.all fun p => bodyAllowedForStatus p.1

/-- The bytes are not written: the status has no body, or there are too many of them. -/
def refuses (b : Bytes) (w : ResponseWriter) : Bool :=
  let w := w.writeHeader statusOK
  b ≠ [] && (!w.bodyAllowed ||
    (w.sent.bind fun p => contentLength p.2).any fun length => length < w.written + b.length)

def write (b : Bytes) (w : ResponseWriter) : ResponseWriter :=
  let sent := w.writeHeader statusOK
  { sent with
    body := if w.refuses b then w.body else w.body ++ b
    written := if sent.bodyAllowed then w.written + b.length else w.written }

def flush (w : ResponseWriter) : ResponseWriter := w.writeHeader statusOK

@[simp] theorem header_writeHeader (code : ℕ) (w : ResponseWriter) :
    (w.writeHeader code).header = w.header := by
  unfold writeHeader
  split <;> rfl

@[simp] theorem body_writeHeader (code : ℕ) (w : ResponseWriter) :
    (w.writeHeader code).body = w.body := by
  unfold writeHeader
  split <;> rfl

@[simp] theorem isFlusher_writeHeader (code : ℕ) (w : ResponseWriter) :
    (w.writeHeader code).isFlusher = w.isFlusher := by
  unfold writeHeader
  split <;> rfl

theorem sent_writeHeader (code : ℕ) (w : ResponseWriter) :
    (w.writeHeader code).sent = some (w.sent.getD (code, w.header)) := by
  unfold writeHeader
  split <;> simp_all

@[simp] theorem header_write (b : Bytes) (w : ResponseWriter) : (w.write b).header = w.header := by
  simp [write]

@[simp] theorem isFlusher_write (b : Bytes) (w : ResponseWriter) :
    (w.write b).isFlusher = w.isFlusher := by
  simp [write]

theorem sent_write (b : Bytes) (w : ResponseWriter) :
    (w.write b).sent = some (w.sent.getD (statusOK, w.header)) := by
  simp [write, sent_writeHeader]

/-! ### Writes that are refused -/

/-- The status that was sent may have a body, and the headers limit it to no length. -/
def Unlimited (w : ResponseWriter) : Prop :=
  ∀ p ∈ w.sent, bodyAllowedForStatus p.1 = true ∧ contentLength p.2 = none

instance (w : ResponseWriter) : Decidable w.Unlimited := inferInstanceAs (Decidable (∀ p ∈ _, _))

theorem Unlimited.of_sent {w w' : ResponseWriter} (h : w'.Unlimited)
    (hsent : ∀ p ∈ w.sent, p ∈ w'.sent) : w.Unlimited := fun p hp => h p (hsent p hp)

/-- Such a response takes every write. -/
theorem body_write {w : ResponseWriter} {b : Bytes} (h : (w.write b).Unlimited) :
    w.refuses b = false ∧ (w.write b).body = w.body ++ b := by
  have hrefuses : w.refuses b = false := by
    obtain ⟨hstatus, hlength⟩ := h _ (sent_write b w)
    simp [refuses, bodyAllowed, sent_writeHeader, hstatus, hlength]
  refine ⟨hrefuses, ?_⟩
  simp [write, hrefuses]

/-- A status without a body takes no byte. -/
theorem body_write_of_not_allowed {w : ResponseWriter} {b : Bytes}
    (h : (w.write b).bodyAllowed = false) :
    (b ≠ [] → w.refuses b = true) ∧ (w.write b).body = w.body := by
  rw [bodyAllowed, sent_write, Option.all_some] at h
  have hrefuses : w.refuses b = decide (b ≠ []) := by
    simp [refuses, bodyAllowed, sent_writeHeader, h]
  refine ⟨fun hb => by simp [hrefuses, hb], ?_⟩
  by_cases hb : b = []
  · simp [write, hb]
  · simp [write, hrefuses, hb]

end ResponseWriter

/-- `base64ResponseWriter`. An encoder one of whose writes was refused writes nothing more. -/
structure Base64ResponseWriter where
  wrapped : ResponseWriter
  encoder : Base64.Encoder
  failed : Bool := false

def newBase64ResponseWriter (wrapped : ResponseWriter) : Base64ResponseWriter :=
  { wrapped := wrapped, encoder := .new }

/-- `w.(http.Flusher).Flush()`, when it is one. -/
def ResponseWriter.flushWriter (w : ResponseWriter) : ResponseWriter :=
  if w.isFlusher then w.flush else w

namespace Base64ResponseWriter

/-- The writes of the encoder, up to the first that is refused, and whether one was. -/
def emit : List Bytes → ResponseWriter → ResponseWriter × Bool
  | [], w => (w, false)
  | b :: bs, w => if w.refuses b then (w.write b, true) else emit bs (w.write b)

def write (b : Bytes) (w : Base64ResponseWriter) : Base64ResponseWriter :=
  if w.failed then w
  else
    let emitted := emit (w.encoder.pieces b) w.wrapped
    ⟨emitted.1, (w.encoder.write b).2, emitted.2⟩

/-- Close the encoder, which writes its padded rest, and open a new one. -/
def flush (w : Base64ResponseWriter) : Base64ResponseWriter :=
  let closed := if w.failed then w.wrapped else (emit w.encoder.closing w.wrapped).1
  newBase64ResponseWriter closed.flushWriter

end Base64ResponseWriter

/-! ## The writer that is wrapped -/

/-- The `http.ResponseWriter` that a `grpcWebResponse` writes to. -/
inductive WrappedWriter
  | binary (w : ResponseWriter)
  | text (w : Base64ResponseWriter)

namespace WrappedWriter

/-- The response of the HTTP server. -/
def response : WrappedWriter → ResponseWriter
  | binary w => w
  | text w => w.wrapped

/-- The bytes that are held back in an encoder. -/
def pending : WrappedWriter → Bytes
  | binary _ => []
  | text w => w.encoder.pending

def header (w : WrappedWriter) : Header := w.response.header

/-- Change the header map. -/
def setHeader (h : Header) : WrappedWriter → WrappedWriter
  | binary w => binary { w with header := h }
  | text w => text { w with wrapped := { w.wrapped with header := h } }

def writeHeader (code : ℕ) : WrappedWriter → WrappedWriter
  | binary w => binary (w.writeHeader code)
  | text w => text { w with wrapped := w.wrapped.writeHeader code }

def write (b : Bytes) : WrappedWriter → WrappedWriter
  | binary w => binary (w.write b)
  | text w => text (w.write b)

def flushWriter : WrappedWriter → WrappedWriter
  | binary w => binary w.flushWriter
  | text w => text w.flush

end WrappedWriter

/-! ## The response writer -/

structure GrpcWebResponse where
  wroteHeaders : Bool := false
  wroteBody : Bool := false
  headers : Header := ∅
  wrapped : WrappedWriter
  contentType : GoString

def newGrpcWebResponse (resp : ResponseWriter) (isTextFormat : Bool) : GrpcWebResponse :=
  if isTextFormat then
    { wrapped := .text (newBase64ResponseWriter resp), contentType := grpcWebTextContentType }
  else { wrapped := .binary resp, contentType := grpcWebContentType }

/-- The orders of the loops of one operation: over the map that is copied, and over the keys of the
map that was sent. -/
structure LoopOrders where
  copy : MapOrder
  keys : MapOrder

/-- What a handler does with its response writer. The header map of the response shares its slices
of values with that of the handler, from which it was copied: an edit that writes into a slice
instead of replacing it changes both maps, and `inPlace` is what it makes of the values in the
map of the response. -/
inductive HandlerOp
  | header (edit : Header → Header)
      (inPlace : Option (GoString → List GoString → List GoString) := none)
  | writeHeader (code : ℕ)
  | write (b : Bytes)
  | flush

section

variable [Unicode]

def prepareOptions (contentType : GoString) : List CopyOption :=
  [skipKeys [ascii "trailer"], replaceInKeys trailerPrefix [],
    replaceInVals (ascii "content-type") grpcContentType contentType, keyCase canonicalHeaderKey]

def trailerOptions (flushedKeys : List GoString) : List CopyOption :=
  [skipKeys (ascii "trailer" :: flushedKeys), replaceInKeys trailerPrefix [], keyCase toLower]

def extractTrailingHeaders (orders : LoopOrders) (src flushed : Header) : Header :=
  copyHeader orders.copy ∅ src (trailerOptions (headerKeys orders.keys flushed))

/-- The bytes in front of the trailers: the MSB marks a trailers frame. -/
def trailerGrpcDataHeader (trailerBuffer : Bytes) : Bytes :=
  0x80 :: putUint32 (UInt32.ofNat trailerBuffer.length)

/-- A trailers frame. -/
def trailerFrame (trailerBuffer : Bytes) : Bytes :=
  trailerGrpcDataHeader trailerBuffer ++ trailerBuffer

namespace GrpcWebResponse

def prepareHeaders (orders : LoopOrders) (w : GrpcWebResponse) : GrpcWebResponse :=
  let wh := copyHeader orders.copy w.wrapped.header w.headers (prepareOptions w.contentType)
  let responseHeaderKeys := headerKeys orders.keys wh ++ [ascii "grpc-status", ascii "grpc-message"]
  { w with
    wrapped := w.wrapped.setHeader <|
      wh.set (canonicalHeaderKey (ascii "access-control-expose-headers"))
        (join responseHeaderKeys (ascii ", ")) }

def write (orders : LoopOrders) (b : Bytes) (w : GrpcWebResponse) : GrpcWebResponse :=
  let w := if w.wroteHeaders then w else w.prepareHeaders orders
  { w with wroteBody := true, wroteHeaders := true, wrapped := w.wrapped.write b }

def writeHeader (orders : LoopOrders) (code : ℕ) (w : GrpcWebResponse) : GrpcWebResponse :=
  let w := w.prepareHeaders orders
  { w with wrapped := w.wrapped.writeHeader code, wroteHeaders := true }

def flush (w : GrpcWebResponse) : GrpcWebResponse :=
  if w.wroteHeaders || w.wroteBody then { w with wrapped := w.wrapped.flushWriter } else w

def copyTrailersToPayload (orders : LoopOrders) (w : GrpcWebResponse) : GrpcWebResponse :=
  let trailers := extractTrailingHeaders orders w.headers w.wrapped.header
  let trailerBuffer := trailers.write
  { w with
    wrapped := ((w.wrapped.write (trailerGrpcDataHeader trailerBuffer)).write
      trailerBuffer).flushWriter }

def finishRequest (orders : LoopOrders) (w : GrpcWebResponse) : GrpcWebResponse :=
  if w.wroteHeaders || w.wroteBody then w.copyTrailersToPayload orders
  else
    let w := w.writeHeader orders statusOK
    { w with wrapped := w.wrapped.flushWriter }

end GrpcWebResponse

/-! ## Handlers -/

/-- The slices that are shared are those of the headers that were copied. -/
def GrpcWebResponse.editInPlace (w : GrpcWebResponse) :
    Option (GoString → List GoString → List GoString) → WrappedWriter
  | none => w.wrapped
  | some inPlace =>
    if w.wroteHeaders then w.wrapped.setHeader (w.wrapped.header.map inPlace) else w.wrapped

def GrpcWebResponse.step (w : GrpcWebResponse) (op : HandlerOp × LoopOrders) : GrpcWebResponse :=
  match op.1 with
  | .header edit inPlace => { w with headers := edit w.headers, wrapped := w.editInPlace inPlace }
  | .writeHeader code => w.writeHeader op.2 code
  | .write b => w.write op.2 b
  | .flush => w.flush

/-- The part of `HandleGrpcWebRequest` that makes the response: the handler runs, and the request is
finished. -/
def handleGrpcWebRequest (resp : ResponseWriter) (isTextFormat : Bool)
    (run : List (HandlerOp × LoopOrders)) (finish : LoopOrders) : WrappedWriter :=
  ((run.foldl GrpcWebResponse.step (newGrpcWebResponse resp isTextFormat)).finishRequest
    finish).wrapped

/-! ## The names that are copied -/

/-- A name without `http2.TrailerPrefix`. -/
def stripTrailerPrefix (k : GoString) : GoString := replaceFirst k trailerPrefix []

omit [Unicode] in
theorem replaceFirst_of_not_contains {s old new : GoString} (h : contains s old = false) :
    replaceFirst s old new = s := by
  rw [contains, Option.isSome_eq_false_iff, Option.isNone_iff_eq_none] at h
  rw [replaceFirst, h]

omit [Unicode] in
theorem replaceInKeys_getD (k : GoString) (vv : List GoString) :
    (if contains k trailerPrefix then some (replaceFirst k trailerPrefix [], vv) else none).getD
      (k, vv) = (stripTrailerPrefix k, vv) := by
  by_cases hc : contains k trailerPrefix = true
  · rw [if_pos hc]
    rfl
  · rw [if_neg hc, stripTrailerPrefix, replaceFirst_of_not_contains (by simpa using hc)]
    rfl

theorem replace_prepareOptions (contentType : GoString) (e : GoString × List GoString) :
    (CopyOptions.ofList (prepareOptions contentType)).replace e =
      (canonicalHeaderKey (stripTrailerPrefix e.1),
        if toLower (ascii "content-type") = toLower (stripTrailerPrefix e.1) then
          e.2.map fun v => replaceFirst v grpcContentType contentType
        else e.2) := by
  obtain ⟨k, vv⟩ := e
  simp only [prepareOptions, CopyOptions.ofList, CopyOptions.replace, skipKeys, replaceInKeys,
    replaceInVals, keyCase, List.foldl_cons, List.foldl_nil, List.nil_append, List.cons_append,
    Option.getD_some, replaceInKeys_getD]
  by_cases h : toLower (ascii "content-type") = toLower (stripTrailerPrefix k)
  · simp only [if_pos h, Option.getD_some]
  · simp only [if_neg h, Option.getD_none]

theorem replace_trailerOptions (flushedKeys : List GoString) (e : GoString × List GoString) :
    (CopyOptions.ofList (trailerOptions flushedKeys)).replace e =
      (toLower (stripTrailerPrefix e.1), e.2) := by
  obtain ⟨k, vv⟩ := e
  simp only [trailerOptions, CopyOptions.ofList, CopyOptions.replace, skipKeys, replaceInKeys,
    keyCase, List.foldl_cons, List.foldl_nil, List.nil_append, List.cons_append, Option.getD_some,
    replaceInKeys_getD]

theorem skips_prepareOptions (contentType k : GoString) :
    (CopyOptions.ofList (prepareOptions contentType)).skips k =
      decide (toLower k = toLower (ascii "trailer")) := by
  simp only [prepareOptions, CopyOptions.ofList, CopyOptions.skips, skipKeys, replaceInKeys,
    replaceInVals, keyCase, List.foldl_cons, List.foldl_nil, List.nil_append, List.map_cons,
    List.map_nil]
  rw [Bool.eq_iff_iff]
  simp

theorem skips_trailerOptions (flushedKeys : List GoString) (k : GoString) :
    (CopyOptions.ofList (trailerOptions flushedKeys)).skips k =
      decide (toLower k = toLower (ascii "trailer") ∨
        ∃ f ∈ flushedKeys, toLower f = toLower k) := by
  simp only [trailerOptions, CopyOptions.ofList, CopyOptions.skips, skipKeys, replaceInKeys,
    keyCase, List.foldl_cons, List.foldl_nil, List.nil_append, List.map_cons]
  rw [Bool.eq_iff_iff]
  simp

/-- No two names of a handler become the same when its headers are sent. -/
def PreparesApart (src : Header) : Prop :=
  ∀ k₀ ∈ src, ∀ k₁ ∈ src, toLower k₀ ≠ toLower (ascii "trailer") →
    toLower k₁ ≠ toLower (ascii "trailer") →
    canonicalHeaderKey (stripTrailerPrefix k₀) =
      canonicalHeaderKey (stripTrailerPrefix k₁) → k₀ = k₁

/-- A name is sent with the trailers when it was not sent with the headers. -/
def Trails (flushed : Header) (k : GoString) : Prop :=
  toLower k ≠ toLower (ascii "trailer") ∧ ∀ f ∈ flushed, toLower f ≠ toLower k

/-- No two names of a handler become the same when its trailers are sent. -/
def TrailsApart (flushed src : Header) : Prop :=
  ∀ k₀ ∈ src, ∀ k₁ ∈ src, Trails flushed k₀ → Trails flushed k₁ →
    toLower (stripTrailerPrefix k₀) = toLower (stripTrailerPrefix k₁) → k₀ = k₁

instance (src : Header) : Decidable (PreparesApart src) :=
  decidable_of_iff (∀ k₀ ∈ src.keys, ∀ k₁ ∈ src.keys, toLower k₀ ≠ toLower (ascii "trailer") →
    toLower k₁ ≠ toLower (ascii "trailer") →
    canonicalHeaderKey (stripTrailerPrefix k₀) =
      canonicalHeaderKey (stripTrailerPrefix k₁) → k₀ = k₁)
    (by simp only [PreparesApart, Std.ExtTreeMap.mem_keys])

instance (flushed : Header) (k : GoString) : Decidable (Trails flushed k) :=
  decidable_of_iff
    (toLower k ≠ toLower (ascii "trailer") ∧ ∀ f ∈ flushed.keys, toLower f ≠ toLower k)
    (by simp only [Trails, Std.ExtTreeMap.mem_keys])

instance (flushed src : Header) : Decidable (TrailsApart flushed src) :=
  decidable_of_iff (∀ k₀ ∈ src.keys, ∀ k₁ ∈ src.keys, Trails flushed k₀ → Trails flushed k₁ →
    toLower (stripTrailerPrefix k₀) = toLower (stripTrailerPrefix k₁) → k₀ = k₁)
    (by simp only [TrailsApart, Std.ExtTreeMap.mem_keys])

omit [Unicode] in
theorem mem_of_getElem? {h : Header} {k : GoString} {vs : List GoString} (hk : h[k]? = some vs) :
    k ∈ h := by
  rw [Std.ExtTreeMap.mem_iff_isSome_getElem?, hk]
  rfl

omit [Unicode] in
theorem exists_of_mem {h : Header} {k : GoString} (hk : k ∈ h) : ∃ vs, h[k]? = some vs :=
  Option.isSome_iff_exists.1 (Std.ExtTreeMap.mem_iff_isSome_getElem?.1 hk)

theorem PreparesApart.noClash {src : Header} (h : PreparesApart src) (contentType : GoString) :
    (CopyOptions.ofList (prepareOptions contentType)).NoClash src := by
  intro k₀ vs₀ k₁ vs₁ h₀ h₁ hs₀ hs₁ heq
  rw [skips_prepareOptions, decide_eq_false_iff_not] at hs₀ hs₁
  rw [replace_prepareOptions, replace_prepareOptions] at heq
  exact h k₀ (mem_of_getElem? h₀) k₁ (mem_of_getElem? h₁) hs₀ hs₁ heq

theorem trails_iff {orders : MapOrder} {flushed : Header} {k : GoString} :
    Trails flushed k ↔
      (CopyOptions.ofList (trailerOptions (headerKeys orders flushed))).skips k = false := by
  rw [skips_trailerOptions, decide_eq_false_iff_not, not_or, Trails]
  simp only [mem_headerKeys, not_exists, not_and, ne_eq]

theorem TrailsApart.noClash {flushed src : Header} (h : TrailsApart flushed src)
    (orders : MapOrder) :
    (CopyOptions.ofList (trailerOptions (headerKeys orders flushed))).NoClash src := by
  intro k₀ vs₀ k₁ vs₁ h₀ h₁ hs₀ hs₁ heq
  rw [replace_trailerOptions, replace_trailerOptions] at heq
  exact h k₀ (mem_of_getElem? h₀) k₁ (mem_of_getElem? h₁) (trails_iff.2 hs₀) (trails_iff.2 hs₁) heq

/-- The values of a header as they are sent: the content type names the format of the body. -/
def sentValues (contentType k : GoString) (vs : List GoString) : List GoString :=
  if toLower (ascii "content-type") = toLower k then
    vs.map fun v => replaceFirst v grpcContentType contentType
  else vs

/-- The headers of a handler send the values `vs` under the name `k`. -/
def Prepares (contentType : GoString) (src : Header) (k : GoString) (vs : List GoString) : Prop :=
  ∃ k₀ vs₀, src[k₀]? = some vs₀ ∧ toLower k₀ ≠ toLower (ascii "trailer") ∧
    canonicalHeaderKey (stripTrailerPrefix k₀) = k ∧ vs = sentValues contentType k vs₀

theorem copies_prepareOptions {contentType : GoString} {src : Header} {k : GoString}
    {vs : List GoString} :
    (CopyOptions.ofList (prepareOptions contentType)).Copies src k vs ↔
      Prepares contentType src k vs := by
  unfold CopyOptions.Copies Prepares
  simp only [skips_prepareOptions, replace_prepareOptions, decide_eq_false_iff_not, Prod.mk.injEq]
  refine exists_congr fun k₀ => exists_congr fun vs₀ => and_congr_right fun _ =>
    and_congr_right fun _ => and_congr_right fun hk => ?_
  rw [sentValues, ← hk, toLower_canonicalHeaderKey]
  exact eq_comm

/-- **The headers that are sent**: those of the handler, over those that were there before. -/
theorem getElem?_prepare {src : Header} (h : PreparesApart src) (orders : MapOrder)
    (contentType : GoString) (dst : Header) (k : GoString) (vs : List GoString) :
    (copyHeader orders dst src (prepareOptions contentType))[k]? = some vs ↔
      Prepares contentType src k vs ∨
        (dst[k]? = some vs ∧ ∀ vs', ¬ Prepares contentType src k vs') := by
  rw [getElem?_copyHeader (h.noClash contentType)]
  simp only [copies_prepareOptions]

/-- **The trailers that are sent**: the headers of the handler that were not sent before. -/
theorem getElem?_extractTrailingHeaders {flushed src : Header} (h : TrailsApart flushed src)
    (orders : LoopOrders) (k : GoString) (vs : List GoString) :
    (extractTrailingHeaders orders src flushed)[k]? = some vs ↔
      ∃ k₀, src[k₀]? = some vs ∧ Trails flushed k₀ ∧ toLower (stripTrailerPrefix k₀) = k := by
  rw [extractTrailingHeaders, getElem?_copyHeader (h.noClash orders.keys)]
  simp only [CopyOptions.Copies, ← trails_iff, replace_trailerOptions, Prod.mk.injEq,
    Std.ExtTreeMap.getElem?_empty, reduceCtorEq, false_and, or_false]
  constructor
  · rintro ⟨k₀, vs₀, h₀, ht, hk, rfl⟩
    exact ⟨k₀, h₀, ht, hk⟩
  · rintro ⟨k₀, h₀, ht, hk⟩
    exact ⟨k₀, vs, h₀, ht, hk, rfl⟩

end

/-! ## Names that become the same -/

local instance : Unicode := Unicode.unchanged

/-- A header and a trailer of the same name. -/
def headerAndTrailer : Header :=
  (Std.ExtTreeMap.insert ∅ (ascii "Foo") [ascii "a"]).insert (ascii "Trailer:Foo") [ascii "b"]

/-- When a handler has set a header and a trailer of the same name, which one is sent with the
headers depends on the order of the loop. -/
theorem not_lossless_headerAndTrailer :
    ¬ Lossless (prepareOptions grpcWebContentType) ∅ headerAndTrailer := by
  rintro ⟨horder, -⟩
  have hfoo := congrArg (fun h : Header => h[ascii "Foo"]?) (horder .sorted .reversed)
  revert hfoo
  decide +kernel

end GrpcWeb.Server

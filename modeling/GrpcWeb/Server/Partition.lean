import GrpcWeb.Server.Text
import GrpcWeb.Server.WebSocketResponse

/-!
# Headers and trailers of a run

Which entries of a handler's header map go out with the headers, and which with the trailers, is
decided by the maps that the response writers copy: the map at the commit, when the first status or
the first bytes are written, and again the map at each later `WriteHeader` (`published`).

`partition` is the law for both response writers and every run: an entry whose name is not among the
names that were copied (`Rest`) is carried by the last frame. Over HTTP that frame is part of the
body, and the HTTP server refuses it behind a status without a body, or where a `Content-Length` of
the handler leaves no room for it. `partition_fails` has these responses, and the entries for which
more cannot be said.
-/

namespace GrpcWeb.Server

open Go

/-! ## Runs of a handler -/

namespace HandlerOp

/-- The bytes that an operation writes. -/
def bytes : HandlerOp → Bytes
  | write b => b
  | _ => []

/-- The header map after an operation. -/
def edit (h : Header) : HandlerOp → Header
  | header e _ => e h
  | _ => h

/-- The operation copies the header map, in a response that has been started or not. -/
def publishes (started : Bool) : HandlerOp → Bool
  | writeHeader _ => true
  | write _ => !started
  | _ => false

end HandlerOp

/-- The header map at the end of a run. -/
def headersAfter (ops : List HandlerOp) : Header := ops.foldl HandlerOp.edit ∅

/-- The header maps that are copied to the response. -/
def published (h : Header) (started : Bool) : List HandlerOp → List Header
  | [] => []
  | op :: ops =>
    (if op.publishes started then [h] else []) ++
      published (op.edit h) (started || op.starts) ops

/-- What a writer has collected at the end of a run, when each step collects from the header map
that it copies. -/
theorem collected_run {σ : Type*} {step : σ → HandlerOp × LoopOrders → σ} {headers : σ → Header}
    {started : σ → Bool} (collected : σ → GoString → Prop) (copies : Header → GoString → Prop)
    (hheaders : ∀ w op, headers (step w op) = op.1.edit (headers w))
    (hstarted : ∀ w op, started (step w op) = (started w || op.1.starts))
    (hcollected : ∀ w op f, collected (step w op) f ↔
      collected w f ∨ (op.1.publishes (started w) = true ∧ copies (headers w) f))
    (w : σ) (run : List (HandlerOp × LoopOrders)) (f : GoString) :
    collected (run.foldl step w) f ↔ collected w f ∨
      ∃ m ∈ published (headers w) (started w) (run.map Prod.fst), copies m f := by
  induction run generalizing w with
  | nil => simp [published]
  | cons op run ih =>
    rw [List.foldl_cons, ih, hcollected, hheaders, hstarted, or_assoc, List.map_cons, published]
    refine or_congr_right ?_
    simp only [List.mem_append, or_and_right, exists_or]
    refine or_congr_left ?_
    split <;> simp [*]

/-! ## Writers -/

namespace WrappedWriter

@[simp] theorem header_setHeader (h : Header) (w : WrappedWriter) : (w.setHeader h).header = h := by
  cases w <;> rfl

@[simp] theorem header_writeHeader (code : ℕ) (w : WrappedWriter) :
    (w.writeHeader code).header = w.header := by
  cases w <;> exact ResponseWriter.header_writeHeader _ _

@[simp] theorem header_write (b : Bytes) (w : WrappedWriter) : (w.write b).header = w.header := by
  cases w with
  | binary w => exact ResponseWriter.header_write b w
  | text t => exact t.header_write b

@[simp] theorem header_flushWriter (w : WrappedWriter) : w.flushWriter.header = w.header := by
  cases w with
  | binary w => exact Server.header_flushWriter w
  | text t => exact t.header_flush

theorem setHeader_header (w : WrappedWriter) : w.setHeader w.header = w := by
  cases w <;> rfl

theorem sent_setHeader (h : Header) (w : WrappedWriter) :
    (w.setHeader h).response.sent = w.response.sent := by
  cases w <;> rfl

/-- The bytes that were written, in text format before they were encoded. -/
def Wrote : WrappedWriter → Bytes → Prop
  | binary w, b => w.body = b
  | text t, b => Carries b t

/-- The body as a client reads it. -/
def decodedBody : WrappedWriter → Option Bytes
  | binary w => some w.body
  | text t => decodeMultipleBase64Chunks t.wrapped.body

/-- It writes in binary format. -/
def IsBinary (w : WrappedWriter) : Prop := ∃ r, w = binary r

theorem IsBinary.decodedBody_eq {w : WrappedWriter} (h : w.IsBinary) :
    w.decodedBody = some w.response.body := by
  obtain ⟨r, rfl⟩ := h
  rfl

theorem IsBinary.setHeader {w : WrappedWriter} (h : w.IsBinary) (m : Header) :
    (w.setHeader m).IsBinary := by
  obtain ⟨r, rfl⟩ := h
  exact ⟨_, rfl⟩

theorem IsBinary.writeHeader {w : WrappedWriter} (h : w.IsBinary) (code : ℕ) :
    (w.writeHeader code).IsBinary := by
  obtain ⟨r, rfl⟩ := h
  exact ⟨_, rfl⟩

theorem IsBinary.write {w : WrappedWriter} (h : w.IsBinary) (b : Bytes) : (w.write b).IsBinary := by
  obtain ⟨r, rfl⟩ := h
  exact ⟨_, rfl⟩

theorem IsBinary.flushWriter {w : WrappedWriter} (h : w.IsBinary) : w.flushWriter.IsBinary := by
  obtain ⟨r, rfl⟩ := h
  exact ⟨_, rfl⟩

variable {w : WrappedWriter} {b : Bytes}

theorem Wrote.decodedBody_eq (h : w.Wrote b) (hpending : w.pending = []) :
    w.decodedBody = some b := by
  cases w with
  | binary w => exact congrArg some h
  | text t =>
    obtain ⟨-, segs, h1, h2⟩ := h
    have hnil : t.encoder.pending = [] := hpending
    change Base64.decodeSegments t.wrapped.body = _
    rw [h1, Base64.decodeSegments_flatMap, h2, hnil, List.append_nil]

theorem Wrote.setHeader (h : w.Wrote b) (m : Header) : (w.setHeader m).Wrote b := by
  cases w with
  | binary w => exact h
  | text t => exact Carries.of_eq h rfl rfl rfl

theorem Wrote.writeHeader (h : w.Wrote b) (code : ℕ) : (w.writeHeader code).Wrote b := by
  cases w with
  | binary w => exact (ResponseWriter.body_writeHeader code w).trans h
  | text t => exact Carries.of_eq h (ResponseWriter.body_writeHeader code _) rfl rfl

theorem Wrote.write (h : w.Wrote b) {b' : Bytes} (hunlimited : (w.write b').response.Unlimited) :
    (w.write b').Wrote (b ++ b') := by
  cases w with
  | binary w => exact (ResponseWriter.body_write hunlimited).2.trans (congrArg (· ++ b') h)
  | text t => exact Carries.write h hunlimited

theorem Wrote.flushWriter (h : w.Wrote b) (hunlimited : w.flushWriter.response.Unlimited) :
    w.flushWriter.Wrote b := by
  cases w with
  | binary w => exact (body_flushWriter w).trans h
  | text t => exact Carries.flush h hunlimited

theorem pending_flushWriter (w : WrappedWriter) : w.flushWriter.pending = [] := by
  cases w <;> rfl

/-! ## What has been sent -/

/-- The status and the headers are sent as they are at that time, or stay as they were. -/
def Sends (w w' : WrappedWriter) : Prop :=
  w'.response.sent = w.response.sent ∨
    w.response.sent = none ∧ ∃ code, w'.response.sent = some (code, w'.header)

theorem Sends.trans {w w' w'' : WrappedWriter} (h : Sends w w') (h' : Sends w' w'')
    (hheader : w''.header = w'.header) : Sends w w'' := by
  rcases h' with h' | ⟨hnone, code, h'⟩
  · rcases h with h | ⟨hn, code, h⟩
    · exact Or.inl (h'.trans h)
    · exact Or.inr ⟨hn, code, by rw [h', h, hheader]⟩
  · rcases h with h | ⟨hn, code', h⟩
    · exact Or.inr ⟨h.symm.trans hnone, code, h'⟩
    · rw [h] at hnone
      cases hnone

theorem Sends.mem_sent {w w' : WrappedWriter} (h : Sends w w') {p : ℕ × Header}
    (hp : p ∈ w.response.sent) : p ∈ w'.response.sent := by
  rcases h with h | ⟨hnone, -⟩
  · rwa [h]
  · rw [hnone] at hp
    cases hp

/-- What was sent before limits the body like what is sent. -/
theorem Sends.unlimited {w w' : WrappedWriter} (h : Sends w w') (hw' : w'.response.Unlimited) :
    w.response.Unlimited :=
  hw'.of_sent fun _ hp => h.mem_sent hp

theorem sends_of_writeHeader {w w' : ResponseWriter} {code : ℕ} (hheader : w'.header = w.header)
    (h : w'.sent = (w.writeHeader code).sent) :
    w'.sent = w.sent ∨ w.sent = none ∧ ∃ code, w'.sent = some (code, w'.header) := by
  rw [h, ResponseWriter.sent_writeHeader, hheader]
  rcases hs : w.sent with _ | p
  · exact Or.inr ⟨rfl, code, rfl⟩
  · exact Or.inl rfl

theorem sends_writeHeader (code : ℕ) (w : WrappedWriter) : Sends w (w.writeHeader code) := by
  cases w with
  | binary w => exact sends_of_writeHeader (ResponseWriter.header_writeHeader code w) rfl
  | text t => exact sends_of_writeHeader (ResponseWriter.header_writeHeader code t.wrapped) rfl

theorem sends_write (b : Bytes) (w : WrappedWriter) : Sends w (w.write b) := by
  cases w with
  | binary w => exact sends_of_writeHeader (ResponseWriter.header_write b w) rfl
  | text t =>
    rcases t.sent_write b with h | h
    · exact Or.inl h
    · exact sends_of_writeHeader (t.header_write b) h

theorem sends_flushWriter (w : WrappedWriter) : Sends w w.flushWriter := by
  cases w with
  | binary w =>
    change Sends _ (.binary w.flushWriter)
    unfold ResponseWriter.flushWriter
    split
    · exact sends_of_writeHeader (ResponseWriter.header_writeHeader statusOK w) rfl
    · exact Or.inl rfl
  | text t =>
    rcases t.sent_flush with h | h
    · exact Or.inl h
    · exact sends_of_writeHeader t.header_flush h

end WrappedWriter

section

variable [Unicode]

/-- Some entry of the map is copied under the name `f`. -/
def CopiedAs (rename : GoString → GoString) (m : Header) (f : GoString) : Prop :=
  ∃ k ∈ m, toLower k ≠ toLower (ascii "trailer") ∧ rename k = f

/-- The name of a header of the HTTP response. -/
def headerName (k : GoString) : GoString := canonicalHeaderKey (stripTrailerPrefix k)

/-- The name of a trailer. -/
def trailerName (k : GoString) : GoString := toLower (stripTrailerPrefix k)

theorem mem_prepareCopy {orders : MapOrder} {contentType : GoString} {dst src : Header}
    {f : GoString} :
    f ∈ copyHeader orders dst src (prepareOptions contentType) ↔
      f ∈ dst ∨ CopiedAs headerName src f := by
  rw [mem_copyHeader]
  refine or_congr_right ?_
  simp only [copies_prepareOptions]
  constructor
  · rintro ⟨-, k, vs, hk, ht, rfl, -⟩
    exact ⟨k, mem_of_getElem? hk, ht, rfl⟩
  · rintro ⟨k, hk, ht, rfl⟩
    obtain ⟨vs, hvs⟩ := exists_of_mem hk
    exact ⟨_, k, vs, hvs, ht, rfl, rfl⟩

theorem mem_flushedCopy {orders : MapOrder} {dst src : Header} {f : GoString} :
    f ∈ copyHeader orders dst src WebSocketResponseWriter.flushedOptions ↔
      f ∈ dst ∨ CopiedAs canonicalHeaderKey src f := by
  rw [mem_copyHeader]
  refine or_congr_right ?_
  simp only [CopyOptions.Copies, WebSocketResponseWriter.skips_flushedOptions,
    WebSocketResponseWriter.replace_flushedOptions, decide_eq_false_iff_not, Prod.mk.injEq]
  constructor
  · rintro ⟨-, k, vs, hk, ht, rfl, -⟩
    exact ⟨k, mem_of_getElem? hk, ht, rfl⟩
  · rintro ⟨k, hk, ht, rfl⟩
    obtain ⟨vs, hvs⟩ := exists_of_mem hk
    exact ⟨vs, k, vs, hvs, ht, rfl, rfl⟩

/-! ## The rest -/

namespace GrpcWebResponse

variable (w : GrpcWebResponse) (op : HandlerOp × LoopOrders)

theorem mem_prepareHeaders (orders : LoopOrders) (f : GoString) :
    f ∈ (w.prepareHeaders orders).wrapped.header ↔
      f ∈ w.wrapped.header ∨ f = exposeKey ∨ CopiedAs headerName w.headers f := by
  rw [wrapped_prepareHeaders, WrappedWriter.header_setHeader, preparedHeader,
    Std.ExtTreeMap.mem_insert, Std.LawfulEqOrd.compare_eq_iff_eq, mem_prepareCopy]
  constructor
  · rintro (rfl | h | h)
    · exact Or.inr (Or.inl rfl)
    · exact Or.inl h
    · exact Or.inr (Or.inr h)
  · rintro (h | rfl | h)
    · exact Or.inr (Or.inl h)
    · exact Or.inl rfl
    · exact Or.inr (Or.inr h)

theorem headers_step : (w.step op).headers = op.1.edit w.headers := by
  obtain ⟨op, o⟩ := op
  cases op with
  | header edit => rfl
  | writeHeader code => rfl
  | write b =>
    simp only [step, write, HandlerOp.edit]
    split <;> rfl
  | flush =>
    simp only [step, flush, HandlerOp.edit]
    split <;> rfl

theorem contentType_step : (w.step op).contentType = w.contentType := by
  obtain ⟨op, o⟩ := op
  cases op with
  | header edit => rfl
  | writeHeader code => rfl
  | write b =>
    simp only [step, write]
    split <;> rfl
  | flush =>
    simp only [step, flush]
    split <;> rfl

omit [Unicode] in
/-- An edit in place changes values of the header map of the response, not names. -/
theorem exists_editInPlace (inPlace : Option (GoString → List GoString → List GoString)) :
    ∃ h : Header, w.editInPlace inPlace = w.wrapped.setHeader h ∧
      ∀ f, f ∈ h ↔ f ∈ w.wrapped.header := by
  have hsame : w.wrapped = w.wrapped.setHeader w.wrapped.header :=
    w.wrapped.setHeader_header.symm
  unfold editInPlace
  split
  · exact ⟨_, hsame, fun _ => Iff.rfl⟩
  · split
    · exact ⟨_, rfl, fun _ => Std.ExtTreeMap.mem_map⟩
    · exact ⟨_, hsame, fun _ => Iff.rfl⟩

/-- The names that a step adds to the headers of the HTTP response. -/
theorem mem_header_step (f : GoString) :
    f ∈ (w.step op).wrapped.header ↔ f ∈ w.wrapped.header ∨
      (op.1.publishes w.wroteHeaders = true ∧
        (f = exposeKey ∨ CopiedAs headerName w.headers f)) := by
  obtain ⟨op, o⟩ := op
  cases op with
  | header edit inPlace =>
    obtain ⟨h, hwrapped, hnames⟩ := w.exists_editInPlace inPlace
    simp [step, HandlerOp.publishes, hwrapped, hnames]
  | writeHeader code =>
    simp only [step, writeHeader, WrappedWriter.header_writeHeader, mem_prepareHeaders,
      HandlerOp.publishes, true_and]
  | write b =>
    simp only [step, write, WrappedWriter.header_write, HandlerOp.publishes, Bool.not_eq_true']
    split
    · simp [*]
    · simp [*, mem_prepareHeaders]
  | flush =>
    simp only [step, flush, HandlerOp.publishes, Bool.false_eq_true, false_and, or_false]
    split
    · rw [WrappedWriter.header_flushWriter]
    · rfl

theorem headers_run (run : List (HandlerOp × LoopOrders)) :
    (run.foldl step w).headers = (run.map Prod.fst).foldl HandlerOp.edit w.headers := by
  rw [List.foldl_map]
  exact (List.foldl_hom GrpcWebResponse.headers fun w op => (headers_step w op).symm).symm

theorem contentType_run (run : List (HandlerOp × LoopOrders)) :
    (run.foldl step w).contentType = w.contentType := by
  induction run generalizing w with
  | nil => rfl
  | cons op run ih => rw [List.foldl_cons, ih, contentType_step]

theorem wroteHeaders_run (run : List (HandlerOp × LoopOrders)) :
    (run.foldl step w).wroteHeaders =
      (w.wroteHeaders || (run.map Prod.fst).any HandlerOp.starts) := by
  induction run generalizing w with
  | nil => simp
  | cons op run ih =>
    rw [List.foldl_cons, ih, wroteHeaders_step, List.map_cons, List.any_cons, Bool.or_assoc]

/-- The names of the headers of the HTTP response after a run. -/
theorem mem_header_run (run : List (HandlerOp × LoopOrders)) (f : GoString) :
    f ∈ (run.foldl step w).wrapped.header ↔ f ∈ w.wrapped.header ∨
      ∃ m ∈ published w.headers w.wroteHeaders (run.map Prod.fst),
        f = exposeKey ∨ CopiedAs headerName m f :=
  collected_run (fun w f => f ∈ w.wrapped.header)
    (fun m f => f = exposeKey ∨ CopiedAs headerName m f) headers_step
    (fun w op => wroteHeaders_step w op) mem_header_step w run f

variable {w}

theorem isBinary_prepareHeaders (h : w.wrapped.IsBinary) (orders : LoopOrders) :
    (w.prepareHeaders orders).wrapped.IsBinary := by
  rw [wrapped_prepareHeaders]
  exact h.setHeader _

theorem isBinary_step (h : w.wrapped.IsBinary) : (w.step op).wrapped.IsBinary := by
  obtain ⟨op, o⟩ := op
  cases op with
  | header edit inPlace =>
    obtain ⟨m, hwrapped, -⟩ := w.exists_editInPlace inPlace
    change (w.editInPlace inPlace).IsBinary
    rw [hwrapped]
    exact h.setHeader m
  | writeHeader code => exact (isBinary_prepareHeaders h o).writeHeader code
  | write b =>
    refine WrappedWriter.IsBinary.write ?_ b
    split
    · exact h
    · exact isBinary_prepareHeaders h o
  | flush =>
    simp only [step, flush]
    split
    · exact h.flushWriter
    · exact h

theorem isBinary_run (h : w.wrapped.IsBinary) (run : List (HandlerOp × LoopOrders)) :
    (run.foldl step w).wrapped.IsBinary := by
  induction run generalizing w with
  | nil => exact h
  | cons op run ih => exact ih (isBinary_step op h)

theorem sent_prepareHeaders (w : GrpcWebResponse) (orders : LoopOrders) :
    (w.prepareHeaders orders).wrapped.response.sent = w.wrapped.response.sent := by
  rw [wrapped_prepareHeaders]
  exact WrappedWriter.sent_setHeader _ _

/-- A step sends its headers, or nothing. -/
theorem sends_step (w : GrpcWebResponse) : WrappedWriter.Sends w.wrapped (w.step op).wrapped := by
  obtain ⟨op, o⟩ := op
  have hprepare : WrappedWriter.Sends w.wrapped (w.prepareHeaders o).wrapped :=
    Or.inl (sent_prepareHeaders w o)
  cases op with
  | header edit inPlace =>
    obtain ⟨m, hwrapped, -⟩ := w.exists_editInPlace inPlace
    refine Or.inl ?_
    change (w.editInPlace inPlace).response.sent = _
    rw [hwrapped]
    exact WrappedWriter.sent_setHeader m _
  | writeHeader code =>
    exact hprepare.trans (WrappedWriter.sends_writeHeader code _) (by simp [step, writeHeader])
  | write b =>
    simp only [step, write]
    split
    · exact WrappedWriter.sends_write b _
    · exact hprepare.trans (WrappedWriter.sends_write b _) (by simp)
  | flush =>
    simp only [step, flush]
    split
    · exact WrappedWriter.sends_flushWriter _
    · exact Or.inl rfl

/-- What has been sent stays as it was. -/
theorem sent_run {p : ℕ × Header} (h : w.wrapped.response.sent = some p)
    (run : List (HandlerOp × LoopOrders)) :
    (run.foldl step w).wrapped.response.sent = some p := by
  induction run generalizing w with
  | nil => exact h
  | cons op run ih =>
    refine ih ?_
    rcases sends_step op w with hs | ⟨hs, -⟩
    · rw [hs, h]
    · rw [hs] at h
      cases h

theorem wrote_prepareHeaders {b : Bytes} (h : w.wrapped.Wrote b) (orders : LoopOrders) :
    (w.prepareHeaders orders).wrapped.Wrote b := by
  rw [wrapped_prepareHeaders]
  exact h.setHeader _

theorem wrote_step {b : Bytes} (h : w.wrapped.Wrote b)
    (hunlimited : (w.step op).wrapped.response.Unlimited) :
    (w.step op).wrapped.Wrote (b ++ op.1.bytes) := by
  obtain ⟨op, o⟩ := op
  cases op with
  | header edit inPlace =>
    obtain ⟨m, hwrapped, -⟩ := w.exists_editInPlace inPlace
    change (w.editInPlace inPlace).Wrote (b ++ [])
    rw [hwrapped, List.append_nil]
    exact h.setHeader m
  | writeHeader code =>
    change ((w.prepareHeaders o).wrapped.writeHeader code).Wrote (b ++ [])
    rw [List.append_nil]
    exact (wrote_prepareHeaders h o).writeHeader code
  | write b' =>
    refine WrappedWriter.Wrote.write ?_ hunlimited
    split
    · exact h
    · exact wrote_prepareHeaders h o
  | flush =>
    simp only [step, flush, HandlerOp.bytes, List.append_nil] at hunlimited ⊢
    split at hunlimited
    · rename_i hwrote
      rw [if_pos hwrote]
      exact h.flushWriter hunlimited
    · rename_i hwrote
      rw [if_neg hwrote]
      exact h

/-- A run writes what its operations write, when nothing limits the body. -/
theorem wrote_run {b : Bytes} (h : w.wrapped.Wrote b) {run : List (HandlerOp × LoopOrders)}
    (hunlimited : (run.foldl step w).wrapped.response.Unlimited) :
    (run.foldl step w).wrapped.Wrote (b ++ (run.map Prod.fst).flatMap HandlerOp.bytes) := by
  induction run generalizing w b with
  | nil => simpa using h
  | cons op run ih =>
    rw [List.foldl_cons, List.map_cons, List.flatMap_cons, ← List.append_assoc]
    refine ih (wrote_step op h ?_) hunlimited
    exact hunlimited.of_sent fun p hp => sent_run hp run

/-- The headers that were sent are among those of the HTTP response. -/
def SentHeaders (w : GrpcWebResponse) : Prop :=
  ∀ code h, w.wrapped.response.sent = some (code, h) → ∀ f ∈ h, f ∈ w.wrapped.header

theorem SentHeaders.step (h : w.SentHeaders) : (w.step op).SentHeaders := by
  intro code m hm f hf
  rcases sends_step op w with hs | ⟨-, code', hs⟩
  · rw [mem_header_step]
    exact Or.inl (h code m (hs ▸ hm) f hf)
  · rw [hs] at hm
    cases hm
    exact hf

theorem SentHeaders.run (h : w.SentHeaders) (run : List (HandlerOp × LoopOrders)) :
    (run.foldl GrpcWebResponse.step w).SentHeaders := by
  induction run generalizing w with
  | nil => exact h
  | cons op run ih => exact ih (h.step op)

/-- Before the response is started, nothing happens to it. -/
theorem wrapped_step_of_not_starts (hfresh : w.wroteHeaders = false) (hbody : w.wroteBody = false)
    (hop : op.1.starts = false) :
    (w.step op).wrapped = w.wrapped ∧ (w.step op).wroteBody = false := by
  obtain ⟨op, o⟩ := op
  cases op with
  | header edit inPlace =>
    refine ⟨?_, hbody⟩
    cases inPlace <;> simp [step, editInPlace, hfresh]
  | flush => simp [step, flush, hfresh, hbody]
  | writeHeader code => cases hop
  | write b => cases hop

/-- A run that starts nothing leaves the response alone. -/
theorem wrapped_run_of_not_starts {run : List (HandlerOp × LoopOrders)}
    (hfresh : w.wroteHeaders = false) (hbody : w.wroteBody = false)
    (hops : ∀ op ∈ run, op.1.starts = false) :
    (run.foldl step w).wrapped = w.wrapped ∧ (run.foldl step w).wroteHeaders = false ∧
      (run.foldl step w).wroteBody = false := by
  induction run generalizing w with
  | nil => exact ⟨rfl, hfresh, hbody⟩
  | cons op run ih =>
    obtain ⟨hop, hops⟩ := List.forall_mem_cons.1 hops
    obtain ⟨hwrapped, hbody'⟩ := wrapped_step_of_not_starts op hfresh hbody hop
    have hfresh' : (w.step op).wroteHeaders = false := by
      rw [wroteHeaders_step, hfresh, hop, Bool.false_or]
    obtain ⟨h1, h2, h3⟩ := ih hfresh' hbody' hops
    exact ⟨h1.trans hwrapped, h2, h3⟩

/-- In binary format the operation that starts the response sends its headers. -/
theorem sent_start {r : ResponseWriter} (hw : w.wrapped = .binary r) (hr : r.sent = none)
    (hfresh : w.wroteHeaders = false) (hop : op.1.starts = true) :
    ∃ code, (code = statusOK ∨ op.1 = .writeHeader code) ∧
      (w.step op).wrapped.response.sent = some (code, (w.step op).wrapped.header) := by
  have hresponse : (w.prepareHeaders op.2).wrapped =
      .binary { r with header := preparedHeader op.2 w.contentType r.header w.headers } := by
    rw [wrapped_prepareHeaders, hw]
    rfl
  obtain ⟨op, o⟩ := op
  cases op with
  | writeHeader code =>
    refine ⟨code, Or.inr rfl, ?_⟩
    simp only [step, writeHeader, hresponse, WrappedWriter.writeHeader, WrappedWriter.response,
      WrappedWriter.header, ResponseWriter.sent_writeHeader, hr, ResponseWriter.header_writeHeader,
      Option.getD_none]
  | write b =>
    refine ⟨statusOK, Or.inl rfl, ?_⟩
    simp only [step, write, hfresh, Bool.false_eq_true, if_false, hresponse, WrappedWriter.write,
      WrappedWriter.response, WrappedWriter.header, ResponseWriter.sent_write, hr,
      ResponseWriter.header_write, Option.getD_none]
  | header edit => cases hop
  | flush => cases hop

/-- In binary format the headers are those of the map at the commit. -/
theorem sent_commit {r : ResponseWriter} (hw : w.wrapped = .binary r) (hr : r.sent = none)
    (hfresh : w.wroteHeaders = false) (hbody : w.wroteBody = false)
    {run : List (HandlerOp × LoopOrders)} (hstart : ∃ op ∈ run.map Prod.fst, op.starts = true) :
    ∃ code h m, (run.foldl step w).wrapped.response.sent = some (code, h) ∧
      (code = statusOK ∨ .writeHeader code ∈ run.map Prod.fst) ∧
      (published w.headers false (run.map Prod.fst)).head? = some m ∧
      ∀ f ∈ h, f ∈ r.header ∨ f = exposeKey ∨ CopiedAs headerName m f := by
  induction run generalizing w with
  | nil =>
    obtain ⟨op, hop, -⟩ := hstart
    cases hop
  | cons op run ih =>
    have hpublishes : op.1.publishes false = op.1.starts := by
      obtain ⟨op, o⟩ := op
      cases op <;> rfl
    rw [List.map_cons, published, hpublishes]
    cases hop : op.1.starts with
    | true =>
      obtain ⟨code, hcode, hsent⟩ := sent_start op hw hr hfresh hop
      refine ⟨code, _, w.headers, sent_run hsent run, ?_, rfl, fun f hf => ?_⟩
      · refine hcode.imp_right fun hcode => ?_
        rw [← hcode]
        exact List.mem_cons_self
      rw [mem_header_step, hfresh, hpublishes, hw] at hf
      exact hf.imp id And.right
    | false =>
      obtain ⟨hwrapped, hbody'⟩ := wrapped_step_of_not_starts op hfresh hbody hop
      have hfresh' : (w.step op).wroteHeaders = false := by
        rw [wroteHeaders_step, hfresh, hop, Bool.false_or]
      have hstart' : ∃ op ∈ run.map Prod.fst, op.starts = true := by
        obtain ⟨op', hmem, hop'⟩ := hstart
        rcases List.mem_cons.1 hmem with rfl | hmem
        · rw [hop] at hop'
          cases hop'
        · exact ⟨op', hmem, hop'⟩
      obtain ⟨code, h, m, hsent, hcode, hm, hnames⟩ := ih (hwrapped.trans hw) hfresh' hbody' hstart'
      rw [headers_step] at hm
      exact ⟨code, h, m, hsent, hcode.imp_right (List.mem_cons_of_mem _), hm, hnames⟩

end GrpcWebResponse

omit [Unicode] in
theorem published_of_not_starts {ops : List HandlerOp} (hops : ∀ op ∈ ops, op.starts = false)
    (h : Header) : published h false ops = [] := by
  induction ops generalizing h with
  | nil => rfl
  | cons op ops ih =>
    obtain ⟨hop, hrest⟩ := List.forall_mem_cons.1 hops
    rw [published, hop]
    cases op with
    | header edit | flush => exact ih hrest _
    | write b | writeHeader code => cases hop

section

variable (outer : Header) (isFlusher isTextFormat : Bool) {run : List (HandlerOp × LoopOrders)}

/-- The response writer at the end of the handler. -/
def afterHandler (run : List (HandlerOp × LoopOrders)) : GrpcWebResponse :=
  run.foldl GrpcWebResponse.step
    (newGrpcWebResponse { header := outer, isFlusher := isFlusher } isTextFormat)

theorem headers_afterHandler :
    (afterHandler outer isFlusher isTextFormat run).headers = headersAfter (run.map Prod.fst) := by
  rw [afterHandler, GrpcWebResponse.headers_run]
  cases isTextFormat <;> rfl

theorem mem_header_afterHandler (f : GoString) :
    f ∈ (afterHandler outer isFlusher isTextFormat run).wrapped.header ↔ f ∈ outer ∨
      ∃ m ∈ published ∅ false (run.map Prod.fst), f = exposeKey ∨ CopiedAs headerName m f := by
  rw [afterHandler, GrpcWebResponse.mem_header_run]
  cases isTextFormat <;> rfl

/-- The trailers of a response that was started. -/
def sentTrailers (run : List (HandlerOp × LoopOrders)) (finish : LoopOrders) : Header :=
  extractTrailingHeaders finish (afterHandler outer isFlusher isTextFormat run).headers
    (afterHandler outer isFlusher isTextFormat run).wrapped.header

variable (hstart : ∃ op ∈ run.map Prod.fst, op.starts = true)

include hstart

theorem finish_started (finish : LoopOrders) :
    handleGrpcWebRequest { header := outer, isFlusher := isFlusher } isTextFormat run finish =
      (((afterHandler outer isFlusher isTextFormat run).wrapped.write (trailerGrpcDataHeader
        (sentTrailers outer isFlusher isTextFormat run finish).write)).write
          (sentTrailers outer isFlusher isTextFormat run finish).write).flushWriter := by
  have hwrote : (afterHandler outer isFlusher isTextFormat run).wroteHeaders = true := by
    rw [afterHandler, GrpcWebResponse.wroteHeaders_run, Bool.or_eq_true, List.any_eq_true]
    exact Or.inr hstart
  change ((afterHandler outer isFlusher isTextFormat run).finishRequest finish).wrapped = _
  rw [GrpcWebResponse.finishRequest, if_pos (by simp [hwrote])]
  rfl

/-- The body is what was written, with the trailers frame behind it, when nothing limits it. -/
theorem decodedBody_started (finish : LoopOrders)
    (hunlimited : (handleGrpcWebRequest { header := outer, isFlusher := isFlusher } isTextFormat run
      finish).response.Unlimited) :
    (handleGrpcWebRequest { header := outer, isFlusher := isFlusher } isTextFormat run
        finish).decodedBody =
      some ((run.map Prod.fst).flatMap HandlerOp.bytes ++
        trailerFrame (sentTrailers outer isFlusher isTextFormat run finish).write) := by
  have hinit : (newGrpcWebResponse { header := outer, isFlusher := isFlusher }
      isTextFormat).wrapped.Wrote [] := by
    cases isTextFormat
    · rfl
    · exact ⟨rfl, [], rfl, rfl⟩
  rw [finish_started _ _ _ hstart] at hunlimited ⊢
  have htrailers := (WrappedWriter.sends_flushWriter _).unlimited hunlimited
  have hframe := (WrappedWriter.sends_write _ _).unlimited htrailers
  have hwrote : (afterHandler outer isFlusher isTextFormat run).wrapped.Wrote
      ([] ++ (run.map Prod.fst).flatMap HandlerOp.bytes) :=
    GrpcWebResponse.wrote_run hinit ((WrappedWriter.sends_write _ _).unlimited hframe)
  rw [trailerFrame, ← List.append_assoc]
  exact (((hwrote.write hframe).write htrailers).flushWriter hunlimited).decodedBody_eq
    (WrappedWriter.pending_flushWriter _)

theorem sends_finish (finish : LoopOrders) :
    WrappedWriter.Sends (afterHandler outer isFlusher isTextFormat run).wrapped
        (handleGrpcWebRequest { header := outer, isFlusher := isFlusher } isTextFormat run finish) ∧
      (handleGrpcWebRequest { header := outer, isFlusher := isFlusher } isTextFormat run
        finish).header = (afterHandler outer isFlusher isTextFormat run).wrapped.header := by
  rw [finish_started _ _ _ hstart]
  constructor
  · refine ((WrappedWriter.sends_write _ _).trans (WrappedWriter.sends_write _ _)
      (WrappedWriter.header_write _ _)).trans (WrappedWriter.sends_flushWriter _) ?_
    exact WrappedWriter.header_flushWriter _
  · simp

/-- In binary format the headers that are sent are those of the map at the commit. -/
theorem sent_binary (finish : LoopOrders) : ∃ code h m,
    (handleGrpcWebRequest { header := outer, isFlusher := isFlusher } false run
      finish).response.sent = some (code, h) ∧
    (code = statusOK ∨ .writeHeader code ∈ run.map Prod.fst) ∧
    (published ∅ false (run.map Prod.fst)).head? = some m ∧
    ∀ f ∈ h, f ∈ outer ∨ f = exposeKey ∨ CopiedAs headerName m f := by
  obtain ⟨code, h, m, hsent, hcode, hm, hnames⟩ :=
    GrpcWebResponse.sent_commit (w := newGrpcWebResponse { header := outer, isFlusher := isFlusher }
      false) rfl rfl rfl rfl hstart
  refine ⟨code, h, m, ?_, hcode, hm, hnames⟩
  rcases (sends_finish outer isFlusher false hstart finish).1 with hs | ⟨hs, -⟩
  · rw [hs]
    exact hsent
  · cases hs.symm.trans hsent

theorem isBinary_started (finish : LoopOrders) :
    (handleGrpcWebRequest { header := outer, isFlusher := isFlusher } false run
      finish).IsBinary := by
  rw [finish_started outer isFlusher false hstart]
  have hrun : (afterHandler outer isFlusher false run).wrapped.IsBinary :=
    GrpcWebResponse.isBinary_run ⟨_, rfl⟩ run
  exact ((hrun.write _).write _).flushWriter

omit hstart in
/-- A run that starts nothing sends the headers and nothing else, when it is finished. -/
theorem finish_not_started (hops : ∀ op ∈ run.map Prod.fst, op.starts = false)
    (finish : LoopOrders) :
    let h := preparedHeader finish grpcWebContentType outer (headersAfter (run.map Prod.fst))
    let final :=
      handleGrpcWebRequest { header := outer, isFlusher := isFlusher } false run finish
    final.response.sent = some (statusOK, h) ∧ final.response.body = [] := by
  intro h final
  set resp : ResponseWriter := { header := outer, isFlusher := isFlusher } with hresp
  set w := afterHandler outer isFlusher false run with hw
  obtain ⟨hwrapped, hfresh, hbody⟩ : w.wrapped = .binary resp ∧ w.wroteHeaders = false ∧
      w.wroteBody = false := by
    refine GrpcWebResponse.wrapped_run_of_not_starts rfl rfl fun op hop => ?_
    exact hops op.1 (List.mem_map_of_mem hop)
  have hheaders : w.headers = headersAfter (run.map Prod.fst) := headers_afterHandler _ _ _
  have hcontentType : w.contentType = grpcWebContentType := GrpcWebResponse.contentType_run _ run
  have hfinal : final = ((WrappedWriter.binary { resp with header := h }).writeHeader
      statusOK).flushWriter := by
    change (w.finishRequest finish).wrapped = _
    rw [GrpcWebResponse.finishRequest, hfresh, hbody]
    simp only [Bool.or_self, Bool.false_eq_true, if_false, GrpcWebResponse.writeHeader,
      wrapped_prepareHeaders, hwrapped, hheaders, hcontentType]
    rfl
  rw [hfinal]
  constructor
  · rcases WrappedWriter.sends_flushWriter
      ((WrappedWriter.binary { resp with header := h }).writeHeader statusOK) with hs | ⟨hs, -⟩
    · exact hs
    · cases hs
  · exact body_flushWriter _

end

/-! ## The messages of a WebSocket -/

namespace WebSocketResponseWriter

variable (w : WebSocketResponseWriter) (op : HandlerOp × LoopOrders)

theorem headers_step : (w.step op).headers = op.1.edit w.headers := by
  obtain ⟨op, o⟩ := op
  cases op with
  | header edit => rfl
  | writeHeader code => rfl
  | flush => rfl
  | write b =>
    simp only [step, write, HandlerOp.edit]
    split <;> rfl

theorem writtenHeaders_step : (w.step op).writtenHeaders = (w.writtenHeaders || op.1.starts) := by
  obtain ⟨op, o⟩ := op
  cases op with
  | header edit => simp [step, HandlerOp.starts]
  | writeHeader code => simp [step, writeHeader, writeHeaderFrame, HandlerOp.starts]
  | flush => simp [step, flush, HandlerOp.starts]
  | write b =>
    simp only [step, write, HandlerOp.starts, Bool.or_true]
    split
    · assumption
    · rfl

/-- The names that a step records as sent. -/
theorem mem_flushedHeaders_step (f : GoString) :
    f ∈ (w.step op).flushedHeaders ↔ f ∈ w.flushedHeaders ∨
      (op.1.publishes w.writtenHeaders = true ∧ CopiedAs canonicalHeaderKey w.headers f) := by
  have hcopy (orders : LoopOrders) (code : ℕ) : f ∈ (w.writeHeader orders code).flushedHeaders ↔
      f ∈ w.flushedHeaders ∨ CopiedAs canonicalHeaderKey w.headers f :=
    mem_flushedCopy
  obtain ⟨op, o⟩ := op
  cases op with
  | header edit => simp [step, HandlerOp.publishes]
  | writeHeader code =>
    simp only [step, HandlerOp.publishes, true_and]
    exact hcopy o code
  | flush => simp [step, flush, HandlerOp.publishes]
  | write b =>
    simp only [step, write, HandlerOp.publishes, Bool.not_eq_true']
    split
    · simp [*]
    · simp only [*, true_and]

/-- The messages of a step: those of a header frame, and what is written. -/
theorem sent_step : (w.step op).sent = w.sent ++
    ((if op.1.publishes w.writtenHeaders then headerFrame w.headers else []) ++
      match op.1 with
      | .write b => [b]
      | _ => []) := by
  obtain ⟨op, o⟩ := op
  cases op with
  | header edit => simp [step, HandlerOp.publishes]
  | writeHeader code =>
    simp [step, writeHeader, writeHeaderFrame, copyFlushedHeaders, HandlerOp.publishes]
  | flush => simp [step, flush, HandlerOp.publishes]
  | write b =>
    simp only [step, write, HandlerOp.publishes, Bool.not_eq_true']
    split
    · simp [*]
    · simp [*, writeHeader, writeHeaderFrame, copyFlushedHeaders]

theorem headers_run (run : List (HandlerOp × LoopOrders)) :
    (run.foldl step w).headers = (run.map Prod.fst).foldl HandlerOp.edit w.headers := by
  rw [List.foldl_map]
  exact (List.foldl_hom WebSocketResponseWriter.headers fun w op => (headers_step w op).symm).symm

theorem mem_flushedHeaders_run (run : List (HandlerOp × LoopOrders)) (f : GoString) :
    f ∈ (run.foldl step w).flushedHeaders ↔ f ∈ w.flushedHeaders ∨
      ∃ m ∈ published w.headers w.writtenHeaders (run.map Prod.fst),
        CopiedAs canonicalHeaderKey m f :=
  collected_run (fun w f => f ∈ w.flushedHeaders) (CopiedAs canonicalHeaderKey) headers_step
    writtenHeaders_step mem_flushedHeaders_step w run f

end WebSocketResponseWriter

end

/-! ## What the partition leaves open -/

local instance : Unicode := Unicode.unchanged

end GrpcWeb.Server

import GrpcWeb.Client.Fragments
import GrpcWeb.EndToEnd.Codec
import GrpcWeb.EndToEnd.HandlerRun

/-!
# The response over HTTP, end to end

A gRPC handler runs behind `HandleGrpcWebRequest` in binary format, and a client is given the status
and the headers that are sent, the body in any chunks, and the end. `http_response_fidelity` says
what its application is shown: the headers, the messages of the handler in order, and an end with
the handler's status, message and trailers.

When the handler writes nothing, the status and the trailers are among the headers, and the client
reads them there. The names are ones that the client's collections take, and no length is declared
for the body, which ends with a frame that the handler does not see.
-/

namespace GrpcWeb.EndToEnd

open Js Go Client Server

/-! ## The client -/

section

variable {M Req Res : Type} [BrowserHeaders M] {methodDefinition : MethodDefinition Req Res}

/-- The payloads deserialize to the given messages. -/
def Deserializes (methodDefinition : MethodDefinition Req Res) (payloads : List Bytes)
    (messages : List Res) : Prop :=
  List.Forall₂ (fun data res => methodDefinition.deserializeBinary data = .ok res) payloads messages

omit [BrowserHeaders M] in
theorem readable_messages {payloads : List Bytes} {messages : List Res}
    (h : Deserializes methodDefinition payloads messages) :
    Readable (M := M) methodDefinition (payloads.map .message) := by
  intro data hdata
  obtain ⟨p, hp, heq⟩ := List.mem_map.1 hdata
  cases heq
  induction h with
  | nil => cases hp
  | cons hres _ ih =>
    rcases List.mem_cons.1 hp with rfl | hp
    · exact ⟨_, hres⟩
    · exact ih (List.mem_map_of_mem hp) hp

/-- **The chunks of a body come to its frames**: messages, and perhaps trailers behind them. -/
theorem foldl_frames {r : Reception M Res} (hunread : r.unread = []) {payloads : List Bytes}
    (hpayloads : ∀ p ∈ payloads, p.length < 2 ^ 32) {messages : List Res}
    (hmessages : Deserializes methodDefinition payloads messages) {trailers : Option (Bytes × M)}
    (htrailers : TrailersBlock trailers) {cs : List Bytes}
    (hcs : cs.flatten = payloads.flatMap frameBytes ++ trailers.elim [] fun t => trailerFrame t.1) :
    (cs.map TransportEvent.onChunk).foldl (Reception.handle methodDefinition) r =
      Reception.takeChunks methodDefinition
        (payloads.map .message ++ trailers.elim [] fun t => [.trailers t.2]) r := by
  have hnext : frames.next r.unread = none := by
    rw [hunread]
    exact frames_next_nil
  have hbody : r.unread ++ cs.flatten = _ := (congrArg (· ++ cs.flatten) hunread).trans hcs
  obtain ⟨hlast, hchunks, hrest⟩ := drain_body hpayloads htrailers hbody
  have hread : Readable methodDefinition
      (payloads.map .message ++ trailers.elim [] fun t => [Chunk.trailers t.2]) := by
    intro data hdata
    refine readable_messages (M := M) hmessages data ((List.mem_append.1 hdata).resolve_right ?_)
    cases trailers <;> simp
  rw [Reception.foldl_chunks hnext hlast hchunks hread, hrest, ← Reception.takeChunks_leave,
    ← hunread]
  rfl

end

/-! ## The server -/

section

variable [Unicode] {g : HandlerRun} {outer : Header} (isFlusher : Bool)
  {run : List (HandlerOp × LoopOrders)}

theorem toLower_exposeKey : toLower exposeKey = ascii "access-control-expose-headers" := by
  rw [toLower_of_isASCII (by decide)]
  decide

theorem isPlain_exposeKey : IsPlain exposeKey where
  not_isReserved := by
    rw [IsReserved, toLower_exposeKey]
    decide
  takes := ⟨by rw [toLower_exposeKey]; decide, by rw [toLower_exposeKey]; decide⟩

theorem toLower_headerName (k : GoString) : toLower (headerName k) = trailerName k :=
  toLower_canonicalHeaderKey _

/-- A header of the handler is sent under its own name. -/
theorem trailerName_header {k : GoString} (hk : k ∈ g.headers) : trailerName k = toLower k := by
  rw [trailerName, stripTrailerPrefix,
    replaceFirst_of_not_contains (g.headers_plain k hk).1]

theorem isPlain_copied {f : GoString} (hf : CopiedAs headerName g.headers f) : IsPlain f := by
  obtain ⟨k, hk, -, rfl⟩ := hf
  exact (g.headers_plain k hk).2.of_toLower ((toLower_headerName k).trans (trailerName_header hk))

/-- The trailers of a run that starts the response. -/
theorem sentTrailers_eq (hrun : run.map Prod.fst = g.ops) (hstart : g.Started)
    (houter : ∀ f ∈ outer, IsPlain f) (isTextFormat : Bool) (finish : LoopOrders) :
    sentTrailers outer isFlusher isTextFormat run finish = g.trailerMap := by
  rw [sentTrailers, headers_afterHandler, hrun, HandlerRun.headersAfter_ops]
  have hmem (f : GoString) :
      f ∈ (afterHandler outer isFlusher isTextFormat run).wrapped.header ↔ _ :=
    mem_header_afterHandler outer isFlusher isTextFormat f
  rw [hrun, HandlerRun.published_ops hstart] at hmem
  refine HandlerRun.extract_handlerRun (fun f hf => ?_) (fun k hk ht => ?_) finish
  · rcases (hmem f).1 hf with hf | ⟨m, hm, rfl | hf⟩
    · exact (houter f hf).not_isReserved
    · exact isPlain_exposeKey.not_isReserved
    · rw [List.mem_singleton.1 hm] at hf
      exact (isPlain_copied hf).not_isReserved
  · refine ⟨headerName k,
      (hmem _).2 (Or.inr ⟨_, List.mem_singleton_self _, Or.inr ⟨k, hk, ht, rfl⟩⟩),
      ?_⟩
    rw [toLower_headerName, trailerName_header hk]

/-- The status and the names of the headers of a response that was started. -/
theorem sent_started (hrun : run.map Prod.fst = g.ops) (hstart : g.Started)
    (hcode : ∀ code ∈ g.writeHeader, code = statusOK) (finish : LoopOrders) :
    ∃ h, (handleGrpcWebRequest { header := outer, isFlusher := isFlusher } false run
        finish).response.sent = some (statusOK, h) ∧
      ∀ f ∈ h, f ∈ outer ∨ f = exposeKey ∨ CopiedAs headerName g.headers f := by
  have hstart' : ∃ op ∈ run.map Prod.fst, op.starts = true := hrun ▸ hstart
  obtain ⟨code, h, m, hsent, hstatus, hm, hnames⟩ := sent_binary outer isFlusher hstart' finish
  obtain rfl : code = statusOK := by
    refine hstatus.elim id fun hmem => hcode code ?_
    rw [hrun] at hmem
    exact HandlerRun.mem_writeHeader hmem
  rw [hrun, HandlerRun.published_ops hstart] at hm
  cases hm
  exact ⟨h, hsent, hnames⟩

/-- The HTTP server takes all of the body. -/
theorem unlimited_started (hrun : run.map Prod.fst = g.ops) (hstart : g.Started)
    (hcode : ∀ code ∈ g.writeHeader, code = statusOK) (hlength : g.DeclaresNoLength outer)
    (finish : LoopOrders) :
    (handleGrpcWebRequest { header := outer, isFlusher := isFlusher } false run
      finish).response.Unlimited := by
  obtain ⟨h, hsent, hnames⟩ := sent_started isFlusher hrun hstart hcode finish
  intro p hp
  obtain rfl : (statusOK, h) = p := Option.some.inj (hsent.symm.trans hp)
  refine ⟨rfl, contentLength_eq_none fun f hf => ?_⟩
  rcases hnames f hf with hf | rfl | ⟨k, hk, -, rfl⟩
  · exact hlength.outer f hf
  · rw [toLower_exposeKey]
    decide
  · rw [toLower_headerName, trailerName_header hk]
    exact hlength.headers k hk

/-- **The body of a response that was started**: the messages and the trailers. -/
theorem body_started (hrun : run.map Prod.fst = g.ops) (hstart : g.Started)
    (hcode : ∀ code ∈ g.writeHeader, code = statusOK) (houter : ∀ f ∈ outer, IsPlain f)
    (hlength : g.DeclaresNoLength outer) (finish : LoopOrders) :
    (handleGrpcWebRequest { header := outer, isFlusher := isFlusher } false run
      finish).response.body =
      g.payloads.flatMap frameBytes ++ trailerFrame g.trailerMap.write := by
  have hstart' : ∃ op ∈ run.map Prod.fst, op.starts = true := hrun ▸ hstart
  have hdecoded := decodedBody_started outer isFlusher false hstart' finish
    (unlimited_started isFlusher hrun hstart hcode hlength finish)
  rw [(isBinary_started outer isFlusher hstart' finish).decodedBody_eq, hrun,
    HandlerRun.bytes_ops, sentTrailers_eq isFlusher hrun hstart houter] at hdecoded
  exact Option.some.inj hdecoded

theorem mem_preparedHeader {orders : LoopOrders} {contentType f : GoString} {src : Header} :
    f ∈ preparedHeader orders contentType outer src ↔
      f = exposeKey ∨ f ∈ outer ∨ CopiedAs headerName src f := by
  rw [preparedHeader, Std.ExtTreeMap.mem_insert, Std.LawfulEqOrd.compare_eq_iff_eq, mem_prepareCopy,
    eq_comm]

/-- The client takes the names of the headers when nothing is written. -/
theorem takes_prepared (houter : ∀ f ∈ outer, IsPlain f) (orders : LoopOrders)
    (contentType : GoString) {f : GoString}
    (hf : f ∈ preparedHeader orders contentType outer (g.setTrailers g.headers)) :
    ClientTakes f := by
  rcases mem_preparedHeader.1 hf with rfl | hf | ⟨k, hk, -, rfl⟩
  · exact isPlain_exposeKey.takes
  · exact (houter f hf).takes
  · obtain ⟨name, htakes, hname⟩ := HandlerRun.takes_setTrailers hk
    exact htakes.of_toLower ((toLower_headerName k).trans hname)

theorem not_grpc_exposeKey : ¬ ascii "grpc-" <+: toLower exposeKey :=
  fun h => isPlain_exposeKey.not_isReserved (Or.inr h)

/-- The values of a field of gRPC are sent as they are. -/
theorem sentValues_grpc {contentType k : GoString} (hk : ascii "grpc-" <+: toLower k)
    (vs : List GoString) : sentValues contentType k vs = vs := by
  refine if_neg fun heq => ?_
  rw [← heq, toLower_of_isASCII (by decide)] at hk
  revert hk
  decide

/-- When nothing is written, the headers carry the status. -/
theorem statusEntries_prepared (houter : ∀ f ∈ outer, IsPlain f) (orders : LoopOrders)
    (contentType : GoString) :
    g.StatusEntries (fun name => headerName (HandlerRun.fieldKey name))
      (preparedHeader orders contentType outer (g.setTrailers g.headers)) where
  only f hf _ hgrpc := by
    rcases mem_preparedHeader.1 hf with rfl | hf | ⟨k, hk, -, rfl⟩
    · exact absurd hgrpc not_grpc_exposeKey
    · exact absurd (Or.inr hgrpc) (houter f hf).not_isReserved
    · rw [toLower_headerName] at hgrpc ⊢
      obtain ⟨e, he, hname, hkey⟩ := HandlerRun.field_of_grpcName hk hgrpc
      refine ⟨?_, e, he, hname⟩
      rw [← hname, hkey]
  has e he hgrpc := by
    have hlower : toLower (headerName (HandlerRun.fieldKey e.1)) = e.1 :=
      (toLower_headerName _).trans (HandlerRun.trailerName_fieldKey he)
    refine ⟨?_, ?_, hlower⟩
    · have hne : exposeKey ≠ headerName (HandlerRun.fieldKey e.1) := by
        intro heq
        rw [← heq] at hlower
        exact not_grpc_exposeKey (hlower ▸ hgrpc)
      have hvalue : (g.setTrailers g.headers)[HandlerRun.fieldKey e.1]? = some e.2 :=
        HandlerRun.getElem?_setTrailers.2 (Or.inl ⟨e, he, rfl, rfl⟩)
      rw [preparedHeader, Header.getElem?_insert, if_neg hne]
      refine getElem?_copyHeader_of_unique (copies_prepareOptions.2 ?_) (fun vs' hvs' => ?_) _ _
      · exact ⟨_, e.2, hvalue, HandlerRun.fieldKey_ne_trailer he, rfl,
          (sentValues_grpc (hlower.symm ▸ hgrpc) _).symm⟩
      · obtain ⟨k, vs, hk, -, hname, rfl⟩ := copies_prepareOptions.1 hvs'
        have htrailer : trailerName k = e.1 := by
          rw [← toLower_headerName, headerName, hname, hlower]
        obtain ⟨e', he', hname', hkey⟩ :=
          HandlerRun.field_of_grpcName (mem_of_getElem? hk) (htrailer.symm ▸ hgrpc)
        rw [← hkey, hname', htrailer, hvalue] at hk
        cases hk
        exact sentValues_grpc (hlower.symm ▸ hgrpc) _
    · have hstatus : validHeaderFieldName
          (headerName (HandlerRun.fieldKey (ascii "grpc-status"))) = true := by decide +kernel
      have hmessage : validHeaderFieldName
          (headerName (HandlerRun.fieldKey (ascii "grpc-message"))) = true := by decide +kernel
      rcases HandlerRun.mem_fields.1 he with rfl | ⟨message, -, rfl⟩ | he
      · exact hstatus
      · exact hmessage
      · exact absurd hgrpc (g.trailers_names e he).2.2.1

end

/-! ## The response -/

section

variable {M Req Res : Type} [BrowserHeaders M] [LawfulBrowserHeaders M] [Unicode]
  {methodDefinition : MethodDefinition Req Res}

section

variable {g : HandlerRun} {outer : Header} {run : List (HandlerOp × LoopOrders)}

/-- **A response that was started**: headers without a status, the messages, and the trailers. -/
theorem response_of_started (hstart : g.Started) (hmessage : g.MessagePrintable)
    (hblock : g.trailerMap.write.length < 2 ^ 32) (hcode : ∀ code ∈ g.writeHeader, code = statusOK)
    (houter : ∀ f ∈ outer, IsPlain f) (hlength : g.DeclaresNoLength outer) (isFlusher : Bool)
    (hops : run.map Prod.fst = g.ops) (finish : LoopOrders) :
    let response := (handleGrpcWebRequest { header := outer, isFlusher := isFlusher } false run
      finish).response
    ∃ (h : Header) (headers trailers : M), response.sent = some (statusOK, h) ∧
      BrowserHeaders.construct (.text (fromCharCodes h.write)) = .ok headers ∧
      getStatusFromHeaders headers = none ∧
      response.body = g.payloads.flatMap frameBytes ++ trailerFrame g.trailerMap.write ∧
      TrailersBlock (some (g.trailerMap.write, trailers)) ∧
      g.HasFields (BrowserHeaders.copy trailers) := by
  intro response
  obtain ⟨h, hsent, hnames⟩ := sent_started isFlusher hops hstart hcode finish
  have hplain : ∀ f ∈ h, IsPlain f := by
    intro f hf
    rcases hnames f hf with hf | rfl | hf
    · exact houter f hf
    · exact isPlain_exposeKey
    · exact isPlain_copied hf
  obtain ⟨headers, hheaders, hnone⟩ := HandlerRun.status_of_plain (M := M) hplain
  obtain ⟨trailers, htrailers, -, hfields⟩ := HandlerRun.get_trailerMap (M := M) hmessage
  refine ⟨h, headers, trailers, hsent, hheaders, hnone,
    body_started isFlusher hops hstart hcode houter hlength finish, ?_, hfields⟩
  rintro t ⟨⟩
  exact ⟨hblock, allowed_write (HandlerRun.asciiValues_trailerMap hmessage), htrailers⟩

/-- **A response that was not started**: headers with the status, and no body. -/
theorem response_of_not_started (hstart : ¬ g.Started) (hmessage : g.MessagePrintable)
    (houter : ∀ f ∈ outer, IsPlain f) (isFlusher : Bool) (hops : run.map Prod.fst = g.ops)
    (finish : LoopOrders) :
    let response := (handleGrpcWebRequest { header := outer, isFlusher := isFlusher } false run
      finish).response
    ∃ (h : Header) (headers : M), response.sent = some (statusOK, h) ∧
      BrowserHeaders.construct (.text (fromCharCodes h.write)) = .ok headers ∧
      g.HasStatus headers ∧ response.body = [] := by
  intro response
  have hnone : ∀ op ∈ run.map Prod.fst, op.starts = false :=
    hops ▸ HandlerRun.starts_of_not_started hstart
  obtain ⟨hsent, hbody⟩ := finish_not_started outer isFlusher hnone finish
  rw [hops, HandlerRun.headersAfter_ops] at hsent
  obtain ⟨headers, hheaders, hstatus⟩ := HandlerRun.hasStatus_of_entries (M := M) hmessage
    (statusEntries_prepared houter finish grpcWebContentType)
    fun f hf _ => takes_prepared houter finish grpcWebContentType hf
  exact ⟨_, headers, hsent, hheaders, hstatus, hbody⟩

end

/-- The events of a body that arrives in chunks. -/
def bodyEvents (M : Type) (chunks : List Bytes) : List (TransportEvent M) :=
  chunks.map .onChunk ++ [.onEnd]

/-- The events of a response over HTTP. -/
def httpEvents (headers : M) (status : ℕ) (chunks : List Bytes) : List (TransportEvent M) :=
  .onHeaders headers status :: bodyEvents M chunks

omit [LawfulBrowserHeaders M] in
/-- Messages, trailers and the end, when the headers have come. -/
theorem seen_trailers {g : HandlerRun} {r : Reception M Res} (hopen : r.completed = false)
    (hunread : r.unread = []) {headers : M} (hheaders : r.headers = some headers) {trailers : M}
    {block : Bytes} {chunks : List Bytes} {messages : List Res}
    (hmessages : Deserializes methodDefinition g.payloads messages)
    (htrailers : TrailersBlock (some (block, trailers)))
    (hstatus : g.HasStatus (BrowserHeaders.copy trailers))
    (hchunks : chunks.flatten = g.payloads.flatMap frameBytes ++ trailerFrame block) :
    ((bodyEvents M chunks).foldl (Reception.handle methodDefinition) r).seen =
      r.seen ++ (messages.map .message ++
        [.ended (.int g.grpcStatus) g.messageText (BrowserHeaders.copy trailers)]) := by
  have hfold := foldl_frames hunread g.payloads_length hmessages htrailers hchunks
  have htake : Reception.takeChunks methodDefinition
      (g.payloads.map .message ++ [.trailers trailers]) r =
        { r with
          seen := r.seen ++ messages.map .message
          trailers := some (BrowserHeaders.copy trailers) } := by
    rw [Reception.takeChunks_append (readable_messages hmessages),
      Reception.takeChunks_messages hmessages hopen]
    simp only [Reception.takeChunks, hheaders]
  obtain ⟨hcode, hmessage⟩ := hstatus
  rw [bodyEvents, List.foldl_append, hfold, Option.elim_some, htake]
  simp only [List.foldl_cons, List.foldl_nil, Reception.handle, Reception.takeEnd, endOf, hcode,
    hmessage, Reception.finish, Reception.see, hopen, Bool.false_eq_true, if_false,
    List.append_assoc]

omit [LawfulBrowserHeaders M] [Unicode] in
/-- Headers without a status open the response. -/
theorem takeHeaders_open {headers : M} (hheaders : getStatusFromHeaders headers = none) :
    ({} : Reception M Res).takeHeaders headers statusOK =
      { headers := some headers, seen := [.headers headers] } := by
  simp [Reception.takeHeaders, hheaders, codeOfHeaders, statusOK, httpStatusToCode, Reception.see]

omit [Unicode] in
/-- The code of a response with status 200 is the one in its headers. -/
theorem codeOfHeaders_statusOK (n : ℕ) : codeOfHeaders (some (.int n)) statusOK = .int n := by
  have hnonneg : Number.nonneg (.int n) = true := decide_eq_true (Int.natCast_nonneg n)
  rw [codeOfHeaders, hnonneg, Bool.and_true]
  by_cases hzero : n = 0
  · subst hzero
    rfl
  · rw [if_pos (by simpa [Number.truthy] using hzero)]

omit [LawfulBrowserHeaders M] in
/-- The end, when a status and nothing else has come. -/
theorem seen_end {g : HandlerRun} {r : Reception M Res} (hopen : r.completed = false)
    (hunread : r.unread = []) {headers : M} (hheaders : r.headers = some headers)
    (htrailers : r.trailers = none) (hstatus : g.HasStatus headers) {chunks : List Bytes}
    (hchunks : chunks.flatten = []) :
    ((bodyEvents M chunks).foldl (Reception.handle methodDefinition) r).seen =
      r.seen ++ [.ended (.int g.grpcStatus) g.messageText headers] := by
  have hnone : TrailersBlock (M := M) none := nofun
  have hnil : Deserializes methodDefinition [] [] := .nil
  have hfold := foldl_frames hunread (fun _ hp => by cases hp) hnil hnone hchunks
  obtain ⟨hcode, hmessage⟩ := hstatus
  rw [bodyEvents, List.foldl_append, hfold]
  simp only [Reception.takeChunks, List.map_nil, Option.elim_none, List.append_nil, List.foldl_cons,
    List.foldl_nil, Reception.handle, Reception.takeEnd, endOf, hheaders, htrailers, hcode,
    hmessage, Reception.finish, Reception.see, hopen, Bool.false_eq_true, if_false]

omit [LawfulBrowserHeaders M] in
/-- Headers with a status, and nothing else. -/
theorem seen_headers_only {g : HandlerRun} {headers : M} (hstatus : g.HasStatus headers)
    {chunks : List Bytes} (hchunks : chunks.flatten = []) :
    (receive methodDefinition (httpEvents headers statusOK chunks) : Reception M Res).seen =
      [.headers headers, .ended (.int g.grpcStatus) g.messageText headers] := by
  have htake : ({} : Reception M Res).takeHeaders headers statusOK =
      if (.int g.grpcStatus : Number) ≠ Code.ok then
        ({ headers := some headers, seen := [.headers headers] } : Reception M Res).finish
          (.int g.grpcStatus) g.messageText headers
      else { headers := some headers, seen := [.headers headers] } := by
    rw [Reception.takeHeaders, if_neg (by decide)]
    simp only [hstatus.1, hstatus.2, codeOfHeaders_statusOK]
    rfl
  rw [receive, httpEvents, List.foldl_cons, Reception.handle, htake]
  split
  · exact (Reception.foldl_handle_of_completed rfl _).2
  · exact seen_end rfl rfl rfl rfl hstatus hchunks

/-- **The response over HTTP, end to end.** The client is shown the headers, the messages of the
handler in order and one end, with the handler's status and message; when the response was started,
the trailers of the end have exactly the fields of the handler. -/
theorem http_response_fidelity {g : HandlerRun} (hmessage : g.MessagePrintable)
    (hblock : g.trailerMap.write.length < 2 ^ 32) (hcode : ∀ code ∈ g.writeHeader, code = statusOK)
    {outer : Header} (houter : ∀ f ∈ outer, IsPlain f) (hlength : g.DeclaresNoLength outer)
    (isFlusher : Bool) {run : List (HandlerOp × LoopOrders)} (hrun : run.map Prod.fst = g.ops)
    (finish : LoopOrders) {messages : List Res}
    (hmessages : Deserializes methodDefinition g.payloads messages) :
    let final := handleGrpcWebRequest { header := outer, isFlusher := isFlusher } false run finish
    ∃ (h : Header) (headers : M), final.response.sent = some (statusOK, h) ∧
      BrowserHeaders.construct (.text (fromCharCodes h.write)) = .ok headers ∧
      ∀ (l : Listener) (chunks : List Bytes) (seen : List (Dispatch M Res)),
        chunks.flatten = final.response.body →
        Shows methodDefinition l (httpEvents headers statusOK chunks) seen →
        ∃ trailers : M, seen = .headers headers :: (messages.map .message ++
            [.ended (.int g.grpcStatus) g.messageText trailers]) ∧
          (g.Started → g.HasFields trailers) := by
  intro final
  by_cases hstart : g.Started
  · obtain ⟨h, headers, trailers, hsent, hheaders, hnone, hbody, htrailers, hfields⟩ :=
      response_of_started (M := M) hstart hmessage hblock hcode houter hlength isFlusher hrun finish
    refine ⟨h, headers, hsent, hheaders, fun l chunks seen hchunks hshows => ?_⟩
    refine ⟨BrowserHeaders.copy trailers, ?_, fun _ => hfields⟩
    rw [shows_iff.1 hshows, receive, httpEvents, List.foldl_cons, Reception.handle,
      takeHeaders_open hnone]
    exact seen_trailers rfl rfl rfl hmessages htrailers hfields.hasStatus (hchunks.trans hbody)
  · obtain ⟨h, headers, hsent, hheaders, hstatus, hbody⟩ :=
      response_of_not_started (M := M) hstart hmessage houter isFlusher hrun finish
    refine ⟨h, headers, hsent, hheaders, fun l chunks seen hchunks hshows => ?_⟩
    refine ⟨headers, ?_, fun hstarted => absurd hstarted hstart⟩
    rw [shows_iff.1 hshows, seen_headers_only hstatus (hchunks.trans hbody)]
    rw [Deserializes, HandlerRun.payloads_of_not_started hstart] at hmessages
    cases hmessages
    rfl

end

/-! ## Runs -/

local instance : Unicode := Unicode.byBytes

/-- A handler that writes a message in two pieces and has a trailer with two values. -/
def twoPieces : HandlerRun where
  headers := (∅ : Header).insert (ascii "X-A") [ascii "b"]
  writeHeader := none
  body := [.write [0, 0], .flush, .write [0, 0, 1, 7]]
  payloads := [[7]]
  grpcStatus := 5
  grpcMessage := some (ascii "not%20there")
  trailers := [(ascii "x-t", [ascii "u", ascii "v"])]
  headers_plain k hk := by
    rcases Std.ExtTreeMap.mem_insert.1 hk with hk | hk
    · rw [← Std.LawfulEqOrd.compare_eq_iff_eq.1 hk]
      decide
    · exact absurd hk Std.ExtTreeMap.not_mem_empty
  body_passes := by decide
  body_bytes := by decide
  payloads_length := by decide
  grpcStatus_lt := by decide
  trailers_names := by decide
  trailers_nodup := by decide
  trailers_values := by decide +kernel

theorem twoPieces_declaresNoLength : twoPieces.DeclaresNoLength ∅ where
  outer _ hf := absurd hf Std.ExtTreeMap.not_mem_empty
  headers k hk := by
    rcases Std.ExtTreeMap.mem_insert.1 hk with hk | hk
    · rw [← Std.LawfulEqOrd.compare_eq_iff_eq.1 hk]
      decide
    · exact absurd hk Std.ExtTreeMap.not_mem_empty
  trailers _ := by decide

theorem http_response_fidelity_twoPieces :
    let run := twoPieces.ops.map fun op => (op, LoopOrders.of .sorted)
    let final := handleGrpcWebRequest { header := ∅, isFlusher := true } false run (.of .sorted)
    ∃ (h : Header) (headers : HeaderFields), final.response.sent = some (statusOK, h) ∧
      BrowserHeaders.construct (.text (fromCharCodes h.write)) = .ok headers ∧
      ∀ (l : Listener) (chunks : List Bytes) (seen : List (Dispatch HeaderFields Bytes)),
        chunks.flatten = final.response.body →
        Shows (bytesMethod false) l (httpEvents headers statusOK chunks) seen →
        ∃ trailers : HeaderFields, seen = .headers headers :: ([[7]].map .message ++
            [.ended (.int 5) twoPieces.messageText trailers]) ∧
          (twoPieces.Started → twoPieces.HasFields trailers) :=
  http_response_fidelity (g := twoPieces) (by decide +kernel) (by decide +kernel) (by decide)
    (fun _ hf => absurd hf Std.ExtTreeMap.not_mem_empty) twoPieces_declaresNoLength true rfl
    (.of .sorted) (.cons rfl .nil)

/-- A handler whose message starts with a blank. -/
def blankMessage : HandlerRun where
  headers := ∅
  writeHeader := none
  body := [.write (frameBytes [7])]
  payloads := [[7]]
  grpcStatus := 5
  grpcMessage := some (ascii " a")
  trailers := []
  headers_plain _ hk := absurd hk Std.ExtTreeMap.not_mem_empty
  body_passes := by decide
  body_bytes := by decide
  payloads_length := by decide
  grpcStatus_lt := by decide
  trailers_names := by decide
  trailers_nodup := by decide
  trailers_values := by decide +kernel

/-- A handler with a header in whose name the prefix of trailers stands in the middle. -/
def innerTrailer : List HandlerOp :=
  [.header fun h => h.insert (ascii "X-Trailer:A") [ascii "b"], .write (frameBytes [7]),
    .header fun h => h.set (ascii "Grpc-Status") (ascii "0")]

/-- A handler with a trailer that a Go server sends and the client does not take. -/
def refusedTrailer : List HandlerOp :=
  [.write (frameBytes [7]), .header fun h =>
    (h.set (ascii "Grpc-Status") (ascii "0")).insert (ascii "Trailer:x!a") [ascii "b"]]

/-- A handler that declares the length of its message. -/
def declaredMessage : List HandlerOp :=
  [.header fun h => h.set (ascii "Content-Length") (ascii "6"), .write (frameBytes [7]),
    .header fun h => h.set (ascii "Grpc-Status") (ascii "0")]

/-- The response of a run, with its loops in order. -/
def httpResponse (outer : Header) (ops : List HandlerOp) : ResponseWriter :=
  (handleGrpcWebRequest { header := outer } false (ops.map fun op => (op, LoopOrders.of .sorted))
    (.of .sorted)).response

/-- The headers of a response at the client. -/
def clientHeaders (w : ResponseWriter) : Except JsString HeaderFields :=
  BrowserHeaders.construct (.text (fromCharCodes ((w.sent.map Prod.snd).getD ∅).write))

/-- **What does not arrive as it was sent**: the blank of a message is lost; a header with the
prefix of trailers inside its name comes with the trailers as well; a trailer with a name that the
client does not take ends the call; the trailers are dropped behind a body of a declared length; and
a status that is set in the header map outside of the handler ends the call. -/
theorem http_response_infidelity :
    (let response := httpResponse ∅ blankMessage.ops
      ∃ headers trailers : HeaderFields, clientHeaders response = .ok headers ∧
        Shows (bytesMethod false) ⟨0, 0, 0⟩ (httpEvents headers statusOK [response.body])
          [.headers headers, .message [7], .ended (.int 5) (js "a") trailers] ∧
        blankMessage.messageText = js " a") ∧
    (let response := httpResponse ∅ innerTrailer
      ∃ headers trailers : HeaderFields, clientHeaders response = .ok headers ∧
        Shows (bytesMethod false) ⟨0, 0, 0⟩ (httpEvents headers statusOK [response.body])
          [.headers headers, .message [7], .ended (.int 0) [] trailers] ∧
        BrowserHeaders.get trailers (js "x-a") = [js "b"]) ∧
    (let response := httpResponse ∅ refusedTrailer
      ∃ headers : HeaderFields, clientHeaders response = .ok headers ∧
        Shows (bytesMethod false) ⟨0, 0, 0⟩ (httpEvents headers statusOK [response.body])
          [.headers headers, .ended Code.internal
            (js "parsing error: Invalid character in header field name") BrowserHeaders.empty]) ∧
    (let response := httpResponse ∅ declaredMessage
      ∃ headers : HeaderFields, clientHeaders response = .ok headers ∧
        Shows (bytesMethod false) ⟨0, 0, 0⟩ (httpEvents headers statusOK [response.body])
          [.headers headers, .message [7], .ended Code.unknown
            (js "Response closed without grpc-status (Headers only)") headers]) ∧
    let outer := (∅ : Header).insert (ascii "Grpc-Status") [ascii "3"]
    let response := httpResponse outer blankMessage.ops
    ∃ headers : HeaderFields, clientHeaders response = .ok headers ∧
      Shows (bytesMethod false) ⟨0, 0, 0⟩ (httpEvents headers statusOK [response.body])
        [.headers headers, .ended (.int 3) [] headers] := by
  refine ⟨?_, ?_, ?_, ?_, ?_⟩
  · exact ⟨⟨[(js "access-control-expose-headers", [js "grpc-status, grpc-message"])]⟩,
      ⟨[(js "grpc-message", [js "a"]), (js "grpc-status", [js "5"])]⟩, by decide +kernel,
      shows_iff.2 (by decide +kernel), by decide +kernel⟩
  · exact ⟨⟨[(js "access-control-expose-headers", [js "X-A, grpc-status, grpc-message"]),
        (js "x-a", [js "b"])]⟩,
      ⟨[(js "grpc-status", [js "0"]), (js "x-a", [js "b"])]⟩, by decide +kernel,
      shows_iff.2 (by decide +kernel), by decide +kernel⟩
  · exact ⟨⟨[(js "access-control-expose-headers", [js "grpc-status, grpc-message"])]⟩,
      by decide +kernel, shows_iff.2 (by decide +kernel)⟩
  · exact ⟨⟨[(js "access-control-expose-headers",
        [js "Content-Length, grpc-status, grpc-message"]), (js "content-length", [js "6"])]⟩,
      by decide +kernel, shows_iff.2 (by decide +kernel)⟩
  · exact ⟨⟨[(js "access-control-expose-headers", [js "Grpc-Status, grpc-status, grpc-message"]),
      (js "grpc-status", [js "3"])]⟩, by decide +kernel, shows_iff.2 (by decide +kernel)⟩

end GrpcWeb.EndToEnd

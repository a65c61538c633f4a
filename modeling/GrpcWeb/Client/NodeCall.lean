import GrpcWeb.Client.ResponseEvents
import GrpcWeb.Client.Unary
import GrpcWeb.Client.WebsocketTransport

/-!
# A call over the transport for Node

The client of a call on a request of Node's `http` module. The transport makes the request when it
is started, writes a message and ends the request with it, and listens to the response for its
chunks and its end, and to the request for an error. Nothing listens to a response that breaks off,
so that no event comes of it.

`node_call_shows`: a listener is shown what the headers and the body amount to; and the calls that
end, and those that never do because their response broke off.

A second message, which a request that has ended does not take, is left out, as is a request or a
response for whose headers an exception is thrown, and `options.debug` is off.
-/

namespace GrpcWeb.Client

open Js

variable {M Req Res : Type}

/-! ## The transport -/

/-- A request of the `http` module. -/
structure ClientRequest where
  headers : List (JsString × JsString)
  /-- The header `Content-Length`, when it has been set. -/
  contentLength : Option ℕ := none
  /-- What has been written; the request has ended then. -/
  written : Option Bytes := none
  aborted : Bool := false
  deriving DecidableEq

inductive NodeStage
  /-- There is no response yet. -/
  | waiting
  /-- The response comes. -/
  | responding
  /-- The response is complete. -/
  | ended
  /-- The request has failed. -/
  | failed
  /-- Nothing comes any more of a response that is not complete. -/
  | broken
  deriving DecidableEq

/-- How often the end has been reported. -/
def NodeStage.ends : NodeStage → ℕ
  | .ended | .failed => 1
  | _ => 0

/-- The transport, the headers and the status that it has been given, and the body so far. -/
structure NodeHttp (M : Type) where
  /-- `!requestStream && !responseStream` -/
  unary : Bool
  request : Option ClientRequest := none
  stage : NodeStage := .waiting
  received : Option (M × ℕ) := none
  body : Bytes := []

/-- What Node does. -/
inductive NodeAction
  /-- The headers of an `IncomingMessage`, of which some may be undefined. -/
  | response (headers : List (JsString × Option (List JsString))) (statusCode : ℕ)
  | data (chunk : Bytes)
  | end
  /-- The request reports an error. -/
  | error
  /-- The connection is closed before the response is complete. -/
  | closes

def filterHeadersForUndefined (headers : List (JsString × Option (List JsString))) :
    List (JsString × List JsString) :=
  headers.filterMap fun h => h.2.map fun value => (h.1, value)

namespace NodeHttp

variable [BrowserHeaders M]

/-- The headers of a request. -/
def headersOf (metadata : M) : List (JsString × JsString) :=
  (BrowserHeaders.entries metadata).map fun f => (f.1, joinStrings (js ", ") f.2)

/-- What a call of the transport does to its request. The client calls `start` once, and before the
others. -/
def callRequest (unary : Bool) :
    Option ClientRequest → TransportCall M → Option (Option ClientRequest)
  | none, .start metadata => some (some { headers := headersOf metadata })
  | some request, .sendMessage msgBytes =>
    if request.written.isNone then
      -- without the length, the encoding is chunked
      let length := if unary then some msgBytes.length else request.contentLength
      some (some { request with contentLength := length, written := some msgBytes })
    else none
  | request, .finishSend => some request
  | some request, .cancel => some (some { request with aborted := true })
  | _, _ => none

def call (r : NodeHttp M) (c : TransportCall M) : Option (NodeHttp M) :=
  (callRequest r.unary r.request c).map fun request => { r with request := request }

def move (r : NodeHttp M) : NodeAction → Option (NodeHttp M × Option (TransportEvent M))
  | .response headers statusCode =>
    if r.request.isSome ∧ r.stage = .waiting then
      match BrowserHeaders.construct (.object (filterHeadersForUndefined headers)) with
      | .error _ => none
      | .ok metadata =>
        some ({ r with stage := .responding, received := some (metadata, statusCode) },
          some (.onHeaders metadata statusCode))
    else none
  | .data chunk =>
    if r.stage = .responding then
      some ({ r with body := r.body ++ chunk }, some (.onChunk chunk))
    else none
  | .end => if r.stage = .responding then some ({ r with stage := .ended }, some .onEnd) else none
  | .error =>
    if r.request.isSome ∧ (r.stage = .waiting ∨ r.stage = .responding) then
      some ({ r with stage := .failed }, some .onEnd)
    else none
  -- neither `aborted` nor `close` has a listener
  | .closes => if r.stage = .responding then some ({ r with stage := .broken }, none) else none

/-- Nothing catches an exception that leaves the listener for the chunks, and Node does not go
on. -/
def transport : Transport M (NodeHttp M) NodeAction where
  call := call
  onCancel _ := none
  move := move
  returns r := (r, none)
  throws _ r := if r.stage = .responding then { r with stage := .broken } else r

end NodeHttp

/-- The transport of a call of the method. -/
def nodeHttp (methodDescriptor : MethodDescriptor Req Res) : NodeHttp M where
  unary := !methodDescriptor.requestStream && !methodDescriptor.responseStream

/-! ## What the transport has given -/

/-- The events are those of the response as far as it has come. -/
structure NodeInv (r : NodeHttp M × List (TransportEvent M)) : Prop where
  waits : r.1.stage = .waiting → r.1.body = [] ∧ r.2 = []
  events : ∃ chunks, chunks.flatten = r.1.body ∧
    r.2 = responseEvents r.1.received chunks r.1.stage.ends

namespace NodeInv

variable {r t : NodeHttp M} {events : List (TransportEvent M)}

/-- The transport reports the end. -/
theorem ends (h : NodeInv (r, events)) (hr : r.stage.ends = 0) {stage : NodeStage}
    (hstage : stage.ends = 1) :
    NodeInv ({ r with stage := stage }, events ++ [.onEnd]) := by
  obtain ⟨chunks, hbody, hevents⟩ := h.events
  refine ⟨fun hw => ?_, chunks, hbody, ?_⟩
  · simp only at hw
    simp [hw, NodeStage.ends] at hstage
  · simp only at hevents ⊢
    rw [hevents, hr, hstage, responseEvents_end]

/-- Nothing comes any more. -/
theorem breaks (h : NodeInv (r, events)) (hr : r.stage = .responding) :
    NodeInv ({ r with stage := .broken }, events) := by
  obtain ⟨chunks, hbody, hevents⟩ := h.events
  refine ⟨(fun hw => by cases hw), chunks, hbody, ?_⟩
  simp only [hr] at hevents
  exact hevents

variable [BrowserHeaders M]

theorem call (h : NodeInv (r, events)) {c : TransportCall M} (ht : NodeHttp.call r c = some t) :
    NodeInv (t, events) := by
  obtain ⟨request, -, rfl⟩ := Option.map_eq_some_iff.1 ht
  exact ⟨h.waits, h.events⟩

theorem move (h : NodeInv (r, events)) {a : NodeAction} {o : Option (TransportEvent M)}
    (ht : NodeHttp.move r a = some (t, o)) : NodeInv (t, events ++ o.toList) := by
  cases a with
  | response headers statusCode =>
    obtain ⟨⟨-, hs⟩, ht⟩ := Option.ite_none_right_eq_some.1 ht
    split at ht <;> cases ht
    obtain ⟨hempty, rfl⟩ := h.waits hs
    exact ⟨(fun hw => by cases hw), [], hempty.symm, rfl⟩
  | data chunk =>
    obtain ⟨hs, ht⟩ := Option.ite_none_right_eq_some.1 ht
    cases ht
    obtain ⟨chunks, hbody, hevents⟩ := h.events
    simp only [hs, NodeStage.ends] at hevents
    refine ⟨fun hw => ?_, chunks ++ [chunk], ?_, ?_⟩
    · simp [hs] at hw
    · simp [hbody]
    · simp only [hs, NodeStage.ends, hevents, responseEvents_concat]
      rfl
  | «end» =>
    obtain ⟨hs, ht⟩ := Option.ite_none_right_eq_some.1 ht
    cases ht
    exact h.ends (by rw [hs]; rfl) rfl
  | error =>
    obtain ⟨⟨-, hs⟩, ht⟩ := Option.ite_none_right_eq_some.1 ht
    cases ht
    exact h.ends (by rcases hs with hs | hs <;> rw [hs] <;> rfl) rfl
  | closes =>
    obtain ⟨hs, ht⟩ := Option.ite_none_right_eq_some.1 ht
    cases ht
    exact (List.append_nil events).symm ▸ h.breaks hs

/-- **A step of the transport.** -/
theorem step {r t : NodeHttp M × List (TransportEvent M)} (h : NodeInv r)
    {b : TransportAction M NodeAction} (ht : NodeHttp.transport.record r b = some t) :
    NodeInv t := by
  obtain ⟨e, he, hevents⟩ := recording_eq_some.1 ht
  obtain ⟨u, given⟩ := t
  obtain ⟨r, events⟩ := r
  simp only at hevents
  subst hevents
  cases b with
  | call c =>
    obtain ⟨v, hv, hpair⟩ := Option.map_eq_some_iff.1 he
    obtain ⟨rfl, rfl⟩ := Prod.mk.inj hpair
    have hnone : NodeHttp.transport.answer r c = none := by
      cases c <;> rfl
    rw [hnone, Option.toList_none, List.append_nil]
    exact h.call hv
  | move a => exact h.move he
  | returns =>
    cases he
    exact (List.append_nil events).symm ▸ h
  | throws e =>
    obtain ⟨rfl, rfl⟩ := Prod.mk.inj (Option.some.inj he)
    rw [Option.toList_none, List.append_nil]
    have hthrows : NodeHttp.transport.throws e (r, events).1 =
        if r.stage = .responding then { r with stage := .broken } else r := rfl
    rw [hthrows]
    split
    · exact h.breaks ‹_›
    · exact h

end NodeInv

/-! ## The request -/

section

variable [BrowserHeaders M] {methodDefinition : MethodDefinition Req Res}
  {x y : Exchange M Res (NodeHttp M)} {as : List (ExchangeAction M Req NodeAction)}

theorem request_of_move {r t : NodeHttp M} {a : NodeAction} {o : Option (TransportEvent M)}
    (h : NodeHttp.move r a = some (t, o)) : t.unary = r.unary ∧ t.request = r.request := by
  cases a with
  | response headers statusCode =>
    obtain ⟨-, h⟩ := Option.ite_none_right_eq_some.1 h
    split at h <;> cases h
    exact ⟨rfl, rfl⟩
  | _ =>
    obtain ⟨-, h⟩ := Option.ite_none_right_eq_some.1 h
    cases h
    exact ⟨rfl, rfl⟩

/-- The request is what the calls of the client have made of it. -/
theorem keeps_request (unary : Bool) :
    Exchange.Keeps (NodeHttp.transport (M := M)) fun r cs =>
      r.unary = unary ∧ cs.foldlM (NodeHttp.callRequest unary) none = some r.request where
  call {t cs c u} hr h := by
    obtain ⟨hunary, hcs⟩ := hr
    obtain ⟨request, hrequest, rfl⟩ := Option.map_eq_some_iff.1 h
    refine ⟨hunary, ?_⟩
    rw [List.foldlM_append, hcs, Option.bind_eq_bind, Option.bind_some, List.foldlM_cons,
      ← hunary, hrequest]
    rfl
  move {t cs a r} hr h := by
    obtain ⟨hunary, hrequest⟩ := request_of_move h
    exact ⟨hunary.trans hr.1, hrequest ▸ hr.2⟩
  returns hr := hr
  throws {t cs} e hr := by
    have hthrows : NodeHttp.transport.throws e t =
        if t.stage = .responding then { t with stage := .broken } else t := rfl
    rw [hthrows]
    split <;> exact hr

/-- **The request of a call that sends one message.** -/
theorem request_of_requested {unary : Bool} (hunary : x.transport = { unary := unary })
    (hx : x.session.log = []) (h : exec (Exchange.step NodeHttp.transport methodDefinition) x as =
      some y) {headers : M} {msgBytes : Bytes} (hy : Requested headers msgBytes y.session) :
    y.transport.request = some {
      headers := NodeHttp.headersOf headers
      contentLength := if unary then some msgBytes.length else none
      written := some msgBytes
      aborted := y.session.client.closed } := by
  have hkeeps := (keeps_request (M := M) unary).exec (by simp [hunary, hx, transportCalls]) h
  rw [hy.calls] at hkeeps
  cases hclosed : y.session.client.closed with
  | false =>
    rw [hclosed] at hkeeps
    exact (Option.some.inj hkeeps.2).symm
  | true =>
    rw [hclosed] at hkeeps
    exact (Option.some.inj hkeeps.2).symm

end

/-! ## What a listener is shown -/

section

variable [BrowserHeaders M] {methodDefinition : MethodDefinition Req Res} {l : Listener}
  {x y : Exchange M Res (NodeHttp M)} {as : List (ExchangeAction M Req NodeAction)}

/-- A client on a new request. -/
def nodeExchange (s : Session M Res) (unary : Bool) : Exchange M Res (NodeHttp M) where
  session := s
  transport := { unary := unary }

/-- The events of a run. -/
theorem nodeInv_exec {s : Session M Res} {unary : Bool}
    (h : exec (Exchange.step NodeHttp.transport methodDefinition) (nodeExchange s unary) as =
      some y) : NodeInv (y.transport, y.events) := by
  have hstart : NodeInv (({ unary := unary } : NodeHttp M), []) :=
    ⟨fun _ => ⟨rfl, rfl⟩, [], rfl, rfl⟩
  exact (Exchange.reaches_transport h).invariant (fun _ _ _ hr _ ht => hr.step ht) hstart

/-- **A call over Node**: when nothing is outstanding, a listener is shown what the headers and the
body amount to, in whatever chunks the body has come, with the end when it has been reported. When
nothing comes any more it has seen exactly one end, unless the response broke off and its headers
left the call open: such a call never ends. -/
theorem node_call_shows {s : Session M Res} {unary : Bool} (hs : Awaiting l s)
    (hclose : .client (.call .close) ∉ as)
    (h : exec (Exchange.step NodeHttp.transport methodDefinition) (nodeExchange s unary) as =
      some y) (hidle : y.session.stack = [])
    (hbody : Orderly M methodDefinition y.transport.body) :
    l.view y.session.log = (receive methodDefinition
        (responseEvents y.transport.received [y.transport.body] y.transport.stage.ends) :
          Reception M Res).seen ∧
      (y.transport.stage ≠ .waiting ∧ y.transport.stage ≠ .responding →
        ((endsSeen (l.view y.session.log)).length = 1 ↔
          ¬ (y.transport.stage = .broken ∧ ∀ headers status,
            y.transport.received = some (headers, status) →
              (TransportEvent.onHeaders headers status).endsCall = false))) := by
  have hview : l.view y.session.log = (receive methodDefinition y.events : Reception M Res).seen :=
    congrArg Reception.seen (Exchange.receives_events hs rfl hclose h hidle)
  obtain ⟨chunks, hchunks, hevents⟩ := (nodeInv_exec h).events
  simp only at hchunks hevents
  rw [← hchunks] at hbody
  constructor
  · rw [hview, hevents, ← hchunks]
    exact congrArg Reception.seen (receive_responseEvents hbody _)
  intro hover
  rw [hview, (Reception.endsLast_receive y.events).length]
  have hended (hends : y.transport.stage.ends = 1) :
      (receive methodDefinition y.events : Reception M Res).completed = true := by
    refine completed_of_onEnd ?_
    rw [hevents, hends]
    exact onEnd_mem_responseEvents Nat.one_pos
  rcases hstage : y.transport.stage with _ | _ | _ | _ | _
  · exact absurd hstage hover.1
  · exact absurd hstage hover.2
  · simp [hended (by rw [hstage]; rfl)]
  · simp [hended (by rw [hstage]; rfl)]
  · have hnone : y.transport.stage.ends = 0 := by
      rw [hstage]
      rfl
    rw [hevents, hnone, completed_responseEvents hbody]
    rcases y.transport.received with _ | ⟨headers, status⟩ <;> simp

/-- The connection is closed behind the trailers, before the response is complete. -/
def brokenBody : List (ExchangeAction HeaderFields Bytes NodeAction) :=
  List.flatten [callRun [1], [.move (.response [(js "server", some [js "x"]), (js "via", none)] 200)],
    callbackRun, [.handled], [.move (.data smallBody), .client .tick], callbackRun,
    [.client .tick, .client .tick, .handled, .move .closes]]

theorem node_call_shows_brokenBody :
    ∃ y : Exchange HeaderFields Bytes (NodeHttp HeaderFields),
      exec (Exchange.step NodeHttp.transport (bytesMethod false))
        (nodeExchange (Session.withCallbacks true 1 1 1) true) brokenBody = some y ∧
      (endsSeen ((⟨0, 0, 0⟩ : Listener).view y.session.log)).length ≠ 1 := by
  have hend : (exec (Exchange.step NodeHttp.transport (bytesMethod false))
      (nodeExchange (Session.withCallbacks true 1 1 1) true) brokenBody).map (fun y =>
        decide (y.session.stack = [] ∧ y.transport.stage = .broken ∧
          y.transport.received = some (⟨[(js "server", [js "x"])]⟩, 200) ∧
          y.transport.body = smallBody)) = some true := by
    decide +kernel
  obtain ⟨y, hy, heq⟩ := Option.map_eq_some_iff.1 hend
  obtain ⟨hidle, hbroken, hreceived, hbody⟩ := of_decide_eq_true heq
  have hopen : (TransportEvent.onHeaders (⟨[(js "server", [js "x"])]⟩ : HeaderFields) 200).endsCall =
      false := by
    decide +kernel
  have hshows := (node_call_shows (l := ⟨0, 0, 0⟩)
    (awaiting_withCallbacks true (by decide) (by decide) (by decide))
    (by simp [brokenBody, callRun, callbackRun]) hy hidle
    (hbody ▸ orderly_smallBody)).2 (by simp [hbroken])
  refine ⟨y, hy, fun hone => hshows.1 hone ⟨hbroken, ?_⟩⟩
  rw [hreceived]
  rintro headers status ⟨⟩
  exact hopen

end

end GrpcWeb.Client

import GrpcWeb.Client.AfterClose
import GrpcWeb.Client.Discipline
import GrpcWeb.Client.OneRequest

/-!
# Unary calls

`unary` makes a client, registers a callback of each kind with it and sends one request. Its
callbacks keep the latest headers and the latest message in variables, and the one for the end hands
them to `props.onEnd` with the status. Any of its calls of the client may throw, and the exception
leaves `unary`.

* `unary_output`: on any transport, `props.onEnd` is called with what the events of the transport
  amount to, once they have ended.
* `unary_output_once`: in every run, also when the call is closed and whatever the transport still
  delivers, `props.onEnd` is called at most once, and not after a close.
-/

namespace GrpcWeb.Client

open Js

variable {M Req Res σ α : Type}

/-! ## The function -/

/-- What `unary` uses of a method definition. -/
structure MethodDescriptor (Req Res : Type) extends MethodDefinition Req Res where
  responseStream : Bool

structure UnaryOutput (M Res : Type) where
  status : Number
  statusMessage : JsString
  headers : M
  message : Option Res
  trailers : M
  deriving DecidableEq

/-- The variables of a call of `unary`, and the outputs that `props.onEnd` has been called with. -/
structure UnaryCall (M Res : Type) where
  responseHeaders : Option M := none
  responseMessage : Option Res := none
  outputs : List (UnaryOutput M Res) := []
  deriving DecidableEq

variable [BrowserHeaders M]

/-- The callbacks that `unary` registers. -/
def UnaryCall.callback (u : UnaryCall M Res) : Dispatch M Res → UnaryCall M Res
  | .headers headers => { u with responseHeaders := some headers }
  | .message res => { u with responseMessage := some res }
  | .ended status statusMessage trailers =>
    { u with
      outputs := u.outputs ++ [{
        status := status
        statusMessage := statusMessage
        headers := u.responseHeaders.getD BrowserHeaders.empty
        message := u.responseMessage
        trailers := trailers }] }

/-- The callbacks of `unary` are the first of each kind. -/
def unaryListener : Listener := ⟨0, 0, 0⟩

/-- What has come of a call of `unary`. -/
def unaryCall (s : Session M Res) : UnaryCall M Res :=
  (unaryListener.view s.log).foldl UnaryCall.callback {}

/-- `unary` on a transport `t`: what has been done, and the exception that it throws. It returns a
handle that closes the client, when it throws none. -/
def unary (T : Transport M σ α) (methodDescriptor : MethodDescriptor Req Res) (hasSlice : Bool)
    (t : σ) (metadata : Option (HeadersInit M)) (request : Req) :
    Option (Exchange M Res σ × Option JsString) :=
  let x : Exchange M Res σ := { session := Session.new hasSlice, transport := t }
  if methodDescriptor.responseStream then
    some (x, some (js (".unary cannot be used with server-streaming methods. " ++
      "Use .invoke or .client instead.")))
  else if methodDescriptor.requestStream then
    some (x, some (js (".unary cannot be used with client-streaming methods. " ++
      "Use .client instead.")))
  else
    performs T methodDescriptor.toMethodDefinition
      [.onHeaders, .onMessage, .onEnd, .start metadata, .send request, .finishSend] x

/-! ## Runs of a unary call -/

variable {T : Transport M σ α} {methodDefinition : MethodDefinition Req Res}

/-- The client when its callbacks have been registered. -/
theorem exec_registrations (T : Transport M σ α) (methodDefinition : MethodDefinition Req Res)
    (hasSlice : Bool) (t : σ) :
    exec (Exchange.step T methodDefinition)
      ({ session := Session.new hasSlice, transport := t } : Exchange M Res σ)
      [.client (.call .onHeaders), .client (.call .onMessage), .client (.call .onEnd)] =
    some { session := Session.withCallbacks hasSlice 1 1 1, transport := t } := rfl

/-- **A call of `unary` that throws nothing** goes on as a run of a client that has its callbacks. -/
theorem exec_of_unary {methodDescriptor : MethodDescriptor Req Res} {hasSlice : Bool} {t : σ}
    {metadata : Option (HeadersInit M)} {request : Req} {x y : Exchange M Res σ}
    {as : List (ExchangeAction M Req α)}
    (h : unary T methodDescriptor hasSlice t metadata request = some (x, none))
    (hrun : exec (Exchange.step T methodDescriptor.toMethodDefinition) x as = some y) :
    exec (Exchange.step T methodDescriptor.toMethodDefinition)
      { session := Session.withCallbacks hasSlice 1 1 1, transport := t }
      (.client (.call (.start metadata)) :: .client (.call (.send request)) ::
        .client (.call .finishSend) :: as) = some y := by
  unfold unary at h
  simp only at h
  split at h
  · cases h
  split at h
  · cases h
  obtain ⟨ds, -, hall, hds⟩ := exec_of_performs h
  have hsplit : ds.map (fun c => (.client (.call c) : ExchangeAction M Req α)) =
      [.client (.call .onHeaders), .client (.call .onMessage), .client (.call .onEnd)] ++
        [.client (.call (.start metadata)), .client (.call (.send request)),
          .client (.call .finishSend)] := by
    rw [hall rfl]
    rfl
  rw [hsplit] at hds
  obtain ⟨z, hz, hcalls⟩ := exec_append.1 hds
  rw [exec_registrations] at hz
  cases hz
  exact exec_append.2 ⟨x, hcalls, hrun⟩

/-! ## The request -/

/-- The headers that a listener has seen. -/
def shownHeaders (seen : List (Dispatch M Res)) : List M :=
  seen.filterMap fun d => match d with
    | .headers headers => some headers
    | _ => none

/-- The variables of `unary` hold the latest headers and the latest message. -/
theorem variables_eq (seen : List (Dispatch M Res)) :
    (seen.foldl UnaryCall.callback {}).responseHeaders = (shownHeaders seen).getLast? ∧
      (seen.foldl UnaryCall.callback {}).responseMessage = (messagesSeen seen).getLast? := by
  induction seen using List.reverseRecOn with
  | nil => exact ⟨rfl, rfl⟩
  | append_singleton seen d ih =>
    rw [List.foldl_append, shownHeaders, messagesSeen, List.filterMap_append, List.filterMap_append]
    cases d <;> simp [UnaryCall.callback, ih, shownHeaders, messagesSeen]

theorem outputs_eq_nil {seen : List (Dispatch M Res)} (h : endsSeen seen = []) :
    (seen.foldl UnaryCall.callback {}).outputs = [] := by
  induction seen using List.reverseRecOn with
  | nil => rfl
  | append_singleton seen d ih =>
    rw [endsSeen, List.filterMap_append, List.append_eq_nil_iff] at h
    rw [List.foldl_append]
    cases d with
    | headers headers => exact ih h.1
    | message res => exact ih h.1
    | ended code message trailers => cases h.2

/-- What `props.onEnd` is called with, when the call ends with the given status. -/
def outputOf (seen : List (Dispatch M Res)) (e : Number × JsString × M) : UnaryOutput M Res where
  status := e.1
  statusMessage := e.2.1
  headers := (shownHeaders seen).getLast?.getD BrowserHeaders.empty
  message := (messagesSeen seen).getLast?
  trailers := e.2.2

/-- Of a response that ends last, if at all. -/
theorem outputs_eq {r : Reception M Res} (h : r.EndsLast) :
    (r.seen.foldl UnaryCall.callback {}).outputs = (endsSeen r.seen).map (outputOf r.seen) := by
  rcases hr : r.completed with _ | _
  · rw [outputs_eq_nil (h.opened hr), h.opened hr, List.map_nil]
  · obtain ⟨before, code, message, trailers, hseen, hends⟩ := h.ended hr
    obtain ⟨hheaders, hmessage⟩ := variables_eq (before : List (Dispatch M Res))
    rw [hseen, List.foldl_append, endsSeen, List.filterMap_append, ← endsSeen, hends]
    simp [UnaryCall.callback, outputs_eq_nil hends, outputOf, hheaders, hmessage, shownHeaders,
      messagesSeen]

/-- What the callbacks of `unary` have seen, of a call that is not closed. -/
theorem view_of_unary {methodDescriptor : MethodDescriptor Req Res} {hasSlice : Bool} {t : σ}
    {metadata : Option (HeadersInit M)} {request : Req} {x y : Exchange M Res σ}
    {as : List (ExchangeAction M Req α)}
    (h : unary T methodDescriptor hasSlice t metadata request = some (x, none))
    (hclose : .client (.call .close) ∉ as)
    (hrun : exec (Exchange.step T methodDescriptor.toMethodDefinition) x as = some y)
    (hidle : y.session.stack = []) :
    unaryListener.view y.session.log =
      (receive methodDescriptor.toMethodDefinition y.events : Reception M Res).seen := by
  have hs : Awaiting unaryListener (Session.withCallbacks hasSlice 1 1 1 : Session M Res) :=
    awaiting_withCallbacks hasSlice Nat.one_pos Nat.one_pos Nat.one_pos
  exact congrArg Reception.seen (Exchange.receives_events hs rfl (by simpa using hclose)
    (exec_of_unary h hrun) hidle)

/-- **The output of a unary call**, on any transport: when nothing is outstanding and the call has
not been closed, `props.onEnd` has been called with what the events of the transport amount to, the
latest headers and the latest message among it, and that once the transport has ended. -/
theorem unary_output {methodDescriptor : MethodDescriptor Req Res} {hasSlice : Bool} {t : σ}
    {metadata : Option (HeadersInit M)} {request : Req} {x y : Exchange M Res σ}
    {as : List (ExchangeAction M Req α)}
    (h : unary T methodDescriptor hasSlice t metadata request = some (x, none))
    (hclose : .client (.call .close) ∉ as)
    (hrun : exec (Exchange.step T methodDescriptor.toMethodDefinition) x as = some y)
    (hidle : y.session.stack = []) :
    (unaryCall y.session).outputs =
        (endsSeen (receive methodDescriptor.toMethodDefinition y.events : Reception M Res).seen).map
          (outputOf (receive methodDescriptor.toMethodDefinition y.events : Reception M Res).seen) ∧
      (.onEnd ∈ y.events → (unaryCall y.session).outputs.length = 1) := by
  have hlast : (receive methodDescriptor.toMethodDefinition y.events : Reception M Res).EndsLast :=
    Reception.endsLast_receive y.events
  have houtputs := outputs_eq hlast
  rw [unaryCall, view_of_unary h hclose hrun hidle, houtputs]
  refine ⟨rfl, fun hend => ?_⟩
  rw [List.length_map, hlast.length, if_pos (completed_of_onEnd hend)]

/-- A method whose messages are their own bytes. -/
def bytesDescriptor : MethodDescriptor Bytes Bytes where
  toMethodDefinition := bytesMethod false
  responseStream := false

/-- Two messages, trailers with the status 0, and the end of the transport. -/
def secondMessage : List (ExchangeAction HeaderFields Bytes (TransportEvent HeaderFields)) :=
  List.flatten [[.move (.onHeaders ⟨[]⟩ 200)], callbackRun, [.handled],
    [.move (.onChunk (frameBytes [7]))], messageRun, [.move (.onChunk (frameBytes [8]))],
    messageRun, [.move (.onChunk (⟨0x80, ascii "grpc-status:0"⟩ : Frame).write)], trailersRun,
    [.move .onEnd], callbackRun, [.handled]]

theorem unary_output_secondMessage : ∃ x y : Exchange HeaderFields Bytes Unit,
    unary Transport.scripted bytesDescriptor true () none [1] = some (x, none) ∧
      exec (Exchange.step Transport.scripted bytesDescriptor.toMethodDefinition) x secondMessage =
        some y ∧
      (unaryCall y.session).outputs.length = 1 := by
  have hend : ((unary Transport.scripted bytesDescriptor true () none [1] :
      Option (Exchange HeaderFields Bytes Unit × Option JsString)).bind fun r =>
        (exec (Exchange.step Transport.scripted bytesDescriptor.toMethodDefinition) r.1
          secondMessage).map fun y =>
            decide (r.2 = none ∧ y.session.stack = [] ∧ .onEnd ∈ y.events)) = some true := by
    decide +kernel
  obtain ⟨⟨x, thrown⟩, hx, hend⟩ := Option.bind_eq_some_iff.1 hend
  obtain ⟨y, hy, heq⟩ := Option.map_eq_some_iff.1 hend
  obtain ⟨rfl, hidle, hmem⟩ := of_decide_eq_true heq
  exact ⟨x, y, hx, hy, (unary_output hx
    (by simp [secondMessage, callbackRun, messageRun, trailersRun]) hy hidle).2 hmem⟩

/-! ## One output -/

theorem length_outputs (seen : List (Dispatch M Res)) :
    (seen.foldl UnaryCall.callback {}).outputs.length = (endsSeen seen).length := by
  induction seen using List.reverseRecOn with
  | nil => rfl
  | append_singleton seen d ih =>
    rw [List.foldl_append, endsSeen, List.filterMap_append, List.length_append, ← endsSeen, ← ih]
    cases d <;> simp [UnaryCall.callback]

omit [BrowserHeaders M] in
theorem length_endsSeen (log : List (Entry M Res)) :
    (endsSeen (unaryListener.view log)).length = (endings log).count 0 := by
  induction log using List.reverseRecOn with
  | nil => rfl
  | append_singleton log e ih =>
    rw [Listener.view_append, endsSeen, List.filterMap_append, List.length_append, ← endsSeen, ih,
      endings, endings, List.filterMap_append, List.count_append]
    cases e with
    | onEnd f code message trailers =>
      by_cases hf : f = 0 <;> simp [Listener.sees, unaryListener, Entry.ending, hf]
    | onHeaders f headers =>
      simp only [Listener.sees]
      split <;> rfl
    | onMessage f res =>
      simp only [Listener.sees]
      split <;> rfl
    | _ => rfl

/-- Callbacks for headers call `props.onEnd` with nothing. -/
theorem outputs_of_late {later : List (Entry M Res)} (h : ∀ e ∈ later, e.isLate = true)
    (u : UnaryCall M Res) :
    ((unaryListener.view later).foldl UnaryCall.callback u).outputs = u.outputs := by
  induction later generalizing u with
  | nil => rfl
  | cons e later ih =>
    obtain ⟨he, hlater⟩ := List.forall_mem_cons.1 h
    rw [Listener.view, List.filterMap_cons]
    cases e with
    | onHeaders f headers =>
      simp only [Listener.sees]
      split
      · exact ih hlater u
      · rename_i heq
        split at heq
        · cases heq
          exact ih hlater _
        · cases heq
    | threw message => exact ih hlater u
    | rethrown => exact ih hlater u
    | uncaught message => exact ih hlater u
    | onMessage f res => cases he
    | onEnd f code message trailers => cases he
    | transport c => cases he

/-- A step of an exchange delivers at most one event, when nothing is outstanding. -/
theorem endInv_step {x y : Exchange M Res σ} {a : ExchangeAction M Req α}
    (h : EndInv 0 x.session) (hstep : x.step T methodDefinition a = some y) :
    EndInv 0 y.session := by
  rcases Exchange.step_inv hstep with
    ⟨b, s, rfl, hb, hs, hy⟩ | ⟨m, r, rfl, hx, -, rfl⟩ | ⟨rfl, hx, rfl⟩
  · rw [Exchange.session_of_follow hs hb hy]
    have hone : OneAtATime x.session b := by
      cases b with
      | event e => cases hb
      | _ => trivial
    exact h.step hone hs
  all_goals
    rcases Exchange.session_of_deliver methodDefinition hx _ with ⟨-, hsame⟩ | ⟨e, -, hevent⟩
    · rwa [hsame]
    · exact h.step (a := .event e) hx hevent

/-- What `unary` has done is a run from a new client. -/
theorem exec_of_unary_new {methodDescriptor : MethodDescriptor Req Res} {hasSlice : Bool} {t : σ}
    {metadata : Option (HeadersInit M)} {request : Req} {x : Exchange M Res σ}
    {thrown : Option JsString}
    (h : unary T methodDescriptor hasSlice t metadata request = some (x, thrown)) :
    ∃ cs : List (ExchangeAction M Req α),
      exec (Exchange.step T methodDescriptor.toMethodDefinition)
        { session := Session.new hasSlice, transport := t } cs = some x := by
  unfold unary at h
  simp only at h
  split at h
  · cases h
    exact ⟨[], rfl⟩
  split at h
  · cases h
    exact ⟨[], rfl⟩
  · obtain ⟨ds, -, -, hds⟩ := exec_of_performs h
    exact ⟨_, hds⟩

/-- **One output**: in every run after a call of `unary`, whether or not it threw, `props.onEnd` is
called at most once, and once the client is closed it is not called any more, whatever the transport
delivers. -/
theorem unary_output_once {methodDescriptor : MethodDescriptor Req Res} {hasSlice : Bool} {t : σ}
    {metadata : Option (HeadersInit M)} {request : Req} {x y z : Exchange M Res σ}
    {thrown : Option JsString} {as bs : List (ExchangeAction M Req α)}
    (h : unary T methodDescriptor hasSlice t metadata request = some (x, thrown))
    (hrun : exec (Exchange.step T methodDescriptor.toMethodDefinition) x as = some y)
    (hlater : exec (Exchange.step T methodDescriptor.toMethodDefinition) y bs = some z) :
    (unaryCall z.session).outputs.length ≤ 1 ∧
      (y.session.client.closed = true →
        (unaryCall z.session).outputs = (unaryCall y.session).outputs) := by
  obtain ⟨cs, hcs⟩ := exec_of_unary_new h
  have hy := exec_append.2 ⟨x, hcs, hrun⟩
  have hz := exec_append.2 ⟨y, hy, hlater⟩
  constructor
  · have hinv : EndInv 0 z.session := exec_preserves
      (P := fun w : Exchange M Res σ => EndInv 0 w.session)
      (fun _ _ _ hw hstep => endInv_step hw hstep) (EndInv.init hasSlice) hz
    rw [unaryCall, length_outputs, length_endsSeen]
    exact List.nodup_iff_count_le_one.1 hinv.nodup 0
  · intro hclosed
    obtain ⟨later, hlog, hlate⟩ := Exchange.log_of_shut (Exchange.shut_of_closed rfl hy hclosed)
      hlater
    rw [unaryCall, hlog, Listener.view, List.filterMap_append, List.foldl_append]
    exact outputs_of_late hlate _

/-- The call is closed while the callback for the headers runs, and then the transport ends. -/
theorem unary_output_once_closed : ∃ x y z : Exchange HeaderFields Bytes Unit,
    unary Transport.scripted bytesDescriptor true () none [1] = some (x, none) ∧
      exec (Exchange.step Transport.scripted bytesDescriptor.toMethodDefinition) x
        [.move (.onHeaders ⟨[]⟩ 200), .client .tick, .client (.call .close)] = some y ∧
      exec (Exchange.step Transport.scripted bytesDescriptor.toMethodDefinition) y
        [.client .returns, .client .tick, .handled, .move .onEnd, .handled] = some z ∧
      (unaryCall z.session).outputs = (unaryCall y.session).outputs := by
  have hend : ((unary Transport.scripted bytesDescriptor true () none [1] :
      Option (Exchange HeaderFields Bytes Unit × Option JsString)).bind fun r =>
        (exec (Exchange.step Transport.scripted bytesDescriptor.toMethodDefinition) r.1
          [.move (.onHeaders ⟨[]⟩ 200), .client .tick, .client (.call .close)]).bind fun y =>
            (exec (Exchange.step Transport.scripted bytesDescriptor.toMethodDefinition) y
              [.client .returns, .client .tick, .handled, .move .onEnd, .handled]).map fun _ =>
                decide (r.2 = none ∧ y.session.client.closed = true)) = some true := by
    decide +kernel
  obtain ⟨⟨x, thrown⟩, hx, hend⟩ := Option.bind_eq_some_iff.1 hend
  obtain ⟨y, hy, hend⟩ := Option.bind_eq_some_iff.1 hend
  obtain ⟨z, hz, heq⟩ := Option.map_eq_some_iff.1 hend
  obtain ⟨rfl, hclosed⟩ := of_decide_eq_true heq
  exact ⟨x, y, z, hx, hy, hz, (unary_output_once hx hy hz).2 hclosed⟩

end GrpcWeb.Client

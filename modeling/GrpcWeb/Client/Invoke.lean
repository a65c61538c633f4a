import GrpcWeb.Client.OneRequest

/-!
# Calls of `invoke`

`invoke` is for methods that take one request and may stream their responses. It registers the
callbacks that it is given, each of which may be missing, and sends the request.

`invoke_call`: in every run after a call that throws nothing, the transport is called three times,
and once more at most, to cancel the request; and on any transport, callbacks that are all given are
shown what the events of the transport amount to.
-/

namespace GrpcWeb.Client

open Js

variable {M Req Res σ α : Type} [BrowserHeaders M]

/-- Which callbacks `invoke` is given. -/
structure InvokeProps where
  onHeaders : Bool := true
  onMessage : Bool := true
  onEnd : Bool := true
  deriving DecidableEq

/-- The callbacks are registered in this order. -/
def InvokeProps.registrations (props : InvokeProps) : List (AppCall M Req) :=
  (if props.onHeaders then [.onHeaders] else []) ++ (if props.onMessage then [.onMessage] else []) ++
    if props.onEnd then [.onEnd] else []

/-- `invoke` on a transport `t`: what has been done, and the exception that it throws. It returns a
handle that closes the client, when it throws none. -/
def invoke (T : Transport M σ α) (methodDescriptor : MethodDefinition Req Res) (hasSlice : Bool)
    (t : σ) (props : InvokeProps) (metadata : Option (HeadersInit M)) (request : Req) :
    Option (Exchange M Res σ × Option JsString) :=
  let x : Exchange M Res σ := { session := Session.new hasSlice, transport := t }
  if methodDescriptor.requestStream then
    some (x, some (js (".invoke cannot be used with client-streaming methods. " ++
      "Use .client instead.")))
  else
    performs T methodDescriptor
      (props.registrations ++ [.start metadata, .send request, .finishSend]) x

variable {T : Transport M σ α} {methodDescriptor : MethodDefinition Req Res} {hasSlice : Bool}
  {t : σ} {props : InvokeProps} {metadata : Option (HeadersInit M)} {request : Req}
  {x y : Exchange M Res σ} {as : List (ExchangeAction M Req α)}

/-- `invoke` that throws nothing, taken apart. -/
theorem performs_of_invoke
    (h : invoke T methodDescriptor hasSlice t props metadata request = some (x, none)) :
    methodDescriptor.requestStream = false ∧
      performs T methodDescriptor (props.registrations ++ [.start metadata, .send request,
        .finishSend]) { session := Session.new hasSlice, transport := t } = some (x, none) := by
  unfold invoke at h
  simp only at h
  split at h
  · cases h
  · rename_i hsingle
    exact ⟨by simpa using hsingle, h⟩

/-- What has been done is a run of a client that has its callbacks. -/
theorem exec_of_invoke
    (h : invoke T methodDescriptor hasSlice t {} metadata request = some (x, none)) :
    exec (Exchange.step T methodDescriptor)
      { session := Session.withCallbacks hasSlice 1 1 1, transport := t }
      [.client (.call (.start metadata)), .client (.call (.send request)),
        .client (.call .finishSend)] = some x := by
  obtain ⟨ds, -, hall, hds⟩ := exec_of_performs (performs_of_invoke h).2
  rw [hall rfl, List.map_append] at hds
  obtain ⟨z, hz, hcalls⟩ := exec_append.1 hds
  have hregistered : z = { session := Session.withCallbacks hasSlice 1 1 1, transport := t } :=
    (Option.some.inj hz).symm
  exact hregistered ▸ hcalls

/-- **A call of `invoke`**, on any transport. When it throws nothing the transport is started with
the headers of the metadata, given the frame of the request and told that this was all, and it is
called no more but to cancel the request, whatever the application and the transport do. And when
all callbacks are given, the call has not been closed and nothing is outstanding, they have been
shown what the events of the transport amount to, with one end once the transport has ended. -/
theorem invoke_call
    (h : invoke T methodDescriptor hasSlice t props metadata request = some (x, none))
    (hrun : exec (Exchange.step T methodDescriptor) x as = some y) :
    (∃ headers msgBytes, requestHeaders metadata = .ok headers ∧
      frameRequest methodDescriptor request = .ok msgBytes ∧
      transportCalls y.session.log = [.start headers, .sendMessage msgBytes, .finishSend] ++
        if y.session.client.closed then [.cancel] else []) ∧
    (props = {} → .client (.call .close) ∉ as → y.session.stack = [] →
      (⟨0, 0, 0⟩ : Listener).view y.session.log =
          (receive methodDescriptor y.events : Reception M Res).seen ∧
        (.onEnd ∈ y.events →
          (endsSeen ((⟨0, 0, 0⟩ : Listener).view y.session.log)).length = 1)) := by
  obtain ⟨hsingle, hperforms⟩ := performs_of_invoke h
  constructor
  · have hregistrations : ∀ c ∈ (props.registrations : List (AppCall M Req)), c.drives = false := by
      unfold InvokeProps.registrations
      rcases props with ⟨_ | _, _ | _, _ | _⟩ <;> simp [AppCall.drives]
    obtain ⟨headers, msgBytes, hheaders, hframe, hrequested⟩ :=
      requested_of_performs hregistrations (fresh_new hasSlice) hperforms
    exact ⟨headers, msgBytes, hheaders, hframe, (hrequested.exec hsingle hrun).calls⟩
  · rintro rfl hclose hidle
    have hs : Awaiting ⟨0, 0, 0⟩ (Session.withCallbacks hasSlice 1 1 1 : Session M Res) :=
      awaiting_withCallbacks hasSlice Nat.one_pos Nat.one_pos Nat.one_pos
    have hview := congrArg Reception.seen (Exchange.receives_events hs rfl (by simpa using hclose)
      (exec_append.2 ⟨x, exec_of_invoke h, hrun⟩) hidle)
    have hlast : (receive methodDescriptor y.events : Reception M Res).EndsLast :=
      Reception.endsLast_receive y.events
    refine ⟨hview, fun hend => ?_⟩
    have hlength := hlast.length
    rw [if_pos (completed_of_onEnd hend)] at hlength
    exact (congrArg (fun seen => (endsSeen seen).length) hview).trans hlength

/-- Two messages of a stream, trailers with the status 0, and the end of the transport. -/
def twoReplies : List (ExchangeAction HeaderFields Bytes (TransportEvent HeaderFields)) :=
  List.flatten [[.move (.onHeaders ⟨[]⟩ 200)], callbackRun, [.handled],
    [.move (.onChunk (frameBytes [7] ++ frameBytes [8])), .client .tick], callbackRun, messageRun,
    [.move (.onChunk (⟨0x80, ascii "grpc-status:0"⟩ : Frame).write)], trailersRun,
    [.move .onEnd], callbackRun, [.handled]]

theorem invoke_call_twoReplies : ∃ x y : Exchange HeaderFields Bytes Unit,
    invoke Transport.scripted (bytesMethod false) true () {} none [1] = some (x, none) ∧
      exec (Exchange.step Transport.scripted (bytesMethod false)) x twoReplies = some y ∧
      (transportCalls y.session.log).length = 3 ∧
      (endsSeen ((⟨0, 0, 0⟩ : Listener).view y.session.log)).length = 1 := by
  have hend : ((invoke Transport.scripted (bytesMethod false) true () {} none [1] :
      Option (Exchange HeaderFields Bytes Unit × Option JsString)).bind fun r =>
        (exec (Exchange.step Transport.scripted (bytesMethod false)) r.1 twoReplies).map fun y =>
          decide (r.2 = none ∧ y.session.stack = [] ∧ y.session.client.closed = false ∧
            .onEnd ∈ y.events)) = some true := by
    decide +kernel
  obtain ⟨⟨x, thrown⟩, hx, hend⟩ := Option.bind_eq_some_iff.1 hend
  obtain ⟨y, hy, heq⟩ := Option.map_eq_some_iff.1 hend
  obtain ⟨rfl, hidle, hopen, hmem⟩ := of_decide_eq_true heq
  obtain ⟨⟨headers, msgBytes, -, -, hcalls⟩, hshown⟩ := invoke_call hx hy
  have hends := (hshown rfl (by simp [twoReplies, callbackRun, messageRun, trailersRun]) hidle).2
  refine ⟨x, y, hx, hy, ?_, hends hmem⟩
  rw [hcalls, hopen]
  rfl

end GrpcWeb.Client

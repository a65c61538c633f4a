import Mathlib.Data.List.Nodup
import Mathlib.Logic.Relation
import GrpcWeb.Client.Frames
import GrpcWeb.Client.Steps

/-!
# The reception of a response

What a response means to the application, without loops, stacks and buffers. A `Reception` is what
has come of a response so far: whether the call has completed, the bytes that no frame has been read
from, the collections taken for headers and trailers, and what a listener has seen. `handle` takes
in one event of the transport whole.

`reception_eq` connects it to the client: in a run whose events are handled one at a time and in
which the application does not close the client, a listener that was registered from the start has
seen, whenever nothing is outstanding, exactly what `handle` says of the events. The application may
register more callbacks, throw from its callbacks and drive the request meanwhile. The proof runs a
session to its end in the abstract (`Session.outcome`): an event adds its `handle` to that, and
every other step leaves it alone (`outcome_step`).

Every session comes to the end of what is outstanding when its callbacks return (`settles`), so
there is such a run for any events. `Shows` puts the two together.
-/

namespace GrpcWeb.Client

open Js

variable {M Req Res : Type}

/-- What a listener can see of a response. -/
inductive Dispatch (M Res : Type)
  | headers (headers : M)
  | message (res : Res)
  | ended (code : Number) (message : JsString) (trailers : M)
  deriving DecidableEq

/-- What has come of a response. -/
structure Reception (M Res : Type) where
  completed : Bool := false
  unread : Bytes := []
  headers : Option M := none
  trailers : Option M := none
  seen : List (Dispatch M Res) := []
  deriving DecidableEq

namespace Reception

/-- A call that has completed shows nothing more. -/
def see (d : Dispatch M Res) (r : Reception M Res) : Reception M Res :=
  if r.completed then r else { r with seen := r.seen ++ [d] }

def finish (code : Number) (message : JsString) (trailers : M) (r : Reception M Res) :
    Reception M Res :=
  { r.see (.ended code message trailers) with completed := true }

/-- Keep bytes from which no frame has been read. -/
def leave (unread : Bytes) (r : Reception M Res) : Reception M Res := { r with unread := unread }

@[simp] theorem completed_leave (u : Bytes) (r : Reception M Res) :
    (r.leave u).completed = r.completed := rfl
@[simp] theorem unread_leave (u : Bytes) (r : Reception M Res) : (r.leave u).unread = u := rfl
@[simp] theorem headers_leave (u : Bytes) (r : Reception M Res) : (r.leave u).headers = r.headers :=
  rfl
@[simp] theorem trailers_leave (u : Bytes) (r : Reception M Res) :
    (r.leave u).trailers = r.trailers := rfl
@[simp] theorem seen_leave (u : Bytes) (r : Reception M Res) : (r.leave u).seen = r.seen := rfl

theorem see_of_completed {r : Reception M Res} (h : r.completed = true) (d : Dispatch M Res) :
    r.see d = r := if_pos h

theorem finish_of_completed {r : Reception M Res} (h : r.completed = true) (code : Number)
    (message : JsString) (trailers : M) : r.finish code message trailers = r := by
  rw [finish, see_of_completed h, ← h]

end Reception

/-! ## Listeners -/

/-- One callback of each kind, named by its place in its array. -/
structure Listener where
  onHeaders : ℕ
  onMessage : ℕ
  onEnd : ℕ

/-- The callback `f` is one of an array that was filled in order. -/
def IsCallback (f : ℕ) (callbacks : List ℕ) : Prop :=
  callbacks = List.range callbacks.length ∧ f < callbacks.length

theorem IsCallback.count {f : ℕ} {callbacks : List ℕ} (h : IsCallback f callbacks) :
    callbacks.count f = 1 := by
  rw [h.1]
  exact List.count_eq_one_of_mem List.nodup_range (List.mem_range.2 h.2)

theorem IsCallback.register {f : ℕ} {callbacks : List ℕ} (h : IsCallback f callbacks) :
    IsCallback f (callbacks ++ [callbacks.length]) := by
  refine ⟨?_, by simpa using Nat.lt_succ_of_lt h.2⟩
  rw [List.length_append, List.length_singleton, List.range_succ, ← h.1]

/-- The callbacks of a listener are registered with a client. -/
structure Registered (l : Listener) (c : Receiver M) : Prop where
  onHeaders : IsCallback l.onHeaders c.onHeadersCallbacks
  onMessage : IsCallback l.onMessage c.onMessageCallbacks
  onEnd : IsCallback l.onEnd c.onEndCallbacks

/-- What an entry shows a listener. -/
def Listener.sees (l : Listener) : Entry M Res → Option (Dispatch M Res)
  | .onHeaders f headers => if f = l.onHeaders then some (.headers headers) else none
  | .onMessage f res => if f = l.onMessage then some (.message res) else none
  | .onEnd f code message trailers =>
    if f = l.onEnd then some (.ended code message trailers) else none
  | _ => none

/-- What a listener has seen. -/
def Listener.view (l : Listener) (log : List (Entry M Res)) : List (Dispatch M Res) :=
  log.filterMap l.sees

@[simp] theorem Listener.view_append (l : Listener) (log : List (Entry M Res)) (e : Entry M Res) :
    l.view (log ++ [e]) = l.view log ++ (l.sees e).toList := by
  rw [view, List.filterMap_append, view]
  cases h : l.sees e <;> simp [h]

theorem Listener.sees_eq_none (l : Listener) {e : Entry M Res} (he : e.isRequest = true) :
    l.sees e = none := by
  cases e <;> first | rfl | cases he

/-- What a session has received, as a listener sees it. -/
def Session.reception (l : Listener) (s : Session M Res) : Reception M Res where
  completed := s.client.completed
  unread := s.client.parser.pending
  headers := s.client.responseHeaders
  trailers := s.client.responseTrailers
  seen := l.view s.log

/-- An open client with which a listener is registered. -/
structure Listening (l : Listener) (s : Session M Res) : Prop where
  registered : Registered l s.client.toReceiver
  opened : s.client.closed = false

/-- The other fields do not matter. -/
theorem Listening.of_eq {l : Listener} {s t : Session M Res} (h : Listening l s)
    (hh : t.client.onHeadersCallbacks = s.client.onHeadersCallbacks)
    (hm : t.client.onMessageCallbacks = s.client.onMessageCallbacks)
    (he : t.client.onEndCallbacks = s.client.onEndCallbacks)
    (hc : t.client.closed = s.client.closed) : Listening l t :=
  ⟨⟨hh ▸ h.registered.onHeaders, hm ▸ h.registered.onMessage, he ▸ h.registered.onEnd⟩,
    hc.trans h.opened⟩

/-- An open client that has received nothing, with which a listener is registered. -/
structure Awaiting (l : Listener) (s : Session M Res) : Prop where
  listening : Listening l s
  stack : s.stack = []
  reception : s.reception l = {}

/-- A new client with any number of callbacks of each kind. -/
def Session.withCallbacks (hasSlice : Bool) (headers messages ends : ℕ) : Session M Res where
  client :=
    { parser := { hasSlice := hasSlice }
      onHeadersCallbacks := List.range headers
      onMessageCallbacks := List.range messages
      onEndCallbacks := List.range ends }

theorem awaiting_withCallbacks (hasSlice : Bool) {l : Listener} {headers messages ends : ℕ}
    (hh : l.onHeaders < headers) (hm : l.onMessage < messages) (he : l.onEnd < ends) :
    Awaiting l (Session.withCallbacks hasSlice headers messages ends : Session M Res) where
  listening := by
    refine ⟨⟨⟨?_, ?_⟩, ⟨?_, ?_⟩, ⟨?_, ?_⟩⟩, rfl⟩ <;> simp [Session.withCallbacks, hh, hm, he]
  stack := rfl
  reception := rfl

/-- Events are handled one at a time, and the application does not close the client. -/
def Calm (s : Session M Res) : Action M Req → Prop
  | .event _ => s.stack = []
  | .call .close => False
  | _ => True

instance (s : Session M Res) (a : Action M Req) : Decidable (Calm s a) :=
  match a with
  | .event _ => inferInstanceAs (Decidable (s.stack = []))
  | .call .close => .isFalse id
  | .call .onHeaders | .call .onMessage | .call .onEnd | .call (.start _) | .call (.send _)
  | .call .finishSend | .returns | .throws | .tick => .isTrue trivial

/-- The event of an action. -/
def Action.event? : Action M Req → Option (TransportEvent M)
  | .event e => some e
  | _ => none

/-! ## Events -/

variable [BrowserHeaders M]

/-- The code, message and trailers with which an end of the transport ends a call. -/
def endOf (headers trailers : Option M) : Number × JsString × M :=
  match trailers with
  | none =>
    match headers with
    | none => (Code.unknown, js "Response closed without headers", BrowserHeaders.empty)
    | some headers =>
      match getStatusFromHeaders headers with
      | none =>
        (Code.unknown, js "Response closed without grpc-status (Headers only)", headers)
      | some grpcStatus =>
        (grpcStatus, decodeGRPCStatus (BrowserHeaders.get headers (js "grpc-message")).head?,
          headers)
  | some trailers =>
    match getStatusFromHeaders trailers with
    | none =>
      (Code.internal, js "Response closed without grpc-status (Trailers provided)",
        BrowserHeaders.empty)
    | some grpcStatus =>
      (grpcStatus, decodeGRPCStatus (BrowserHeaders.get trailers (js "grpc-message")).head?,
        trailers)

namespace Reception

def takeHeaders (headers : M) (status : ℕ) (r : Reception M Res) : Reception M Res :=
  if status = 0 then r
  else
    let r := { r with headers := some headers }.see (.headers headers)
    let code := codeOfHeaders (getStatusFromHeaders headers) status
    if code ≠ Code.ok then
      r.finish code (decodeGRPCStatus (BrowserHeaders.get headers (js "grpc-message")).head?)
        headers
    else r

/-- The frames of a chunk, up to a message that makes `deserializeBinary` throw. -/
def takeChunks (methodDefinition : MethodDefinition Req Res) :
    List (Chunk M) → Reception M Res → Reception M Res
  | [], r => r
  | .message data :: ds, r =>
    match methodDefinition.deserializeBinary data with
    | .error _ => r
    | .ok res => takeChunks methodDefinition ds (r.see (.message res))
  | .trailers trailers :: ds, r =>
    let trailers := BrowserHeaders.copy trailers
    match r.headers with
    | none =>
      takeChunks methodDefinition ds ({ r with headers := some trailers }.see (.headers trailers))
    | some _ => takeChunks methodDefinition ds { r with trailers := some trailers }

def takeBytes (methodDefinition : MethodDefinition Req Res) (bytes : Bytes) (r : Reception M Res) :
    Reception M Res :=
  let d := frames.drainTo Frame.isTrailer (r.unread ++ bytes)
  let r := r.leave d.2
  match (toChunks d.1 : Except JsString (List (Chunk M))) with
  | .error e => r.finish Code.internal (js "parsing error: " ++ e) BrowserHeaders.empty
  | .ok data => takeChunks methodDefinition data r

def takeEnd (r : Reception M Res) : Reception M Res :=
  r.finish (endOf r.headers r.trailers).1 (endOf r.headers r.trailers).2.1
    (endOf r.headers r.trailers).2.2

/-- An event, taken in whole. -/
def handle (methodDefinition : MethodDefinition Req Res) (r : Reception M Res) :
    TransportEvent M → Reception M Res
  | .onHeaders headers status => r.takeHeaders headers status
  | .onChunk chunkBytes => r.takeBytes methodDefinition chunkBytes
  | .onEnd => r.takeEnd

end Reception

/-! ## The client receives a response -/

/-- What doing a task adds to a reception. -/
def Task.run (methodDefinition : MethodDefinition Req Res) (l : Listener) (r : Reception M Res) :
    Task M Res → Reception M Res
  | .onHeaders callbacks headers =>
    { r with seen := r.seen ++ List.replicate (callbacks.count l.onHeaders) (.headers headers) }
  | .onMessage callbacks res =>
    { r with seen := r.seen ++ List.replicate (callbacks.count l.onMessage) (.message res) }
  | .onEnd callbacks code message trailers =>
    { r with seen := r.seen ++
        List.replicate (callbacks.count l.onEnd) (.ended code message trailers) }
  | .chunks data => r.takeChunks methodDefinition data
  | .error code message headers => r.finish code message headers
  | .running => r

/-- The reception once nothing is outstanding. -/
def Session.outcome (methodDefinition : MethodDefinition Req Res) (l : Listener)
    (s : Session M Res) : Reception M Res :=
  s.stack.foldl (Task.run methodDefinition l) (s.reception l)

/-- What a response amounts to. -/
def receive (methodDefinition : MethodDefinition Req Res) (events : List (TransportEvent M)) :
    Reception M Res :=
  events.foldl (Reception.handle methodDefinition) {}

variable {methodDefinition : MethodDefinition Req Res} {l : Listener} {s : Session M Res}

theorem receive_concat (events : List (TransportEvent M)) (e : TransportEvent M) :
    (receive methodDefinition (events ++ [e]) : Reception M Res) =
      (receive methodDefinition events).handle methodDefinition e := by
  rw [receive, List.foldl_append]
  rfl

theorem outcome_rawOnHeaders (h : Listening l s) (headers : M) :
    (rawOnHeaders headers s).outcome methodDefinition l =
      s.stack.foldl (Task.run methodDefinition l) ((s.reception l).see (.headers headers)) := by
  by_cases hc : s.client.completed = true
  · rw [rawOnHeaders_of_completed hc, Reception.see_of_completed hc]
    rfl
  · simp [rawOnHeaders, Session.outcome, Session.reception, Reception.see, hc, Task.run,
      h.registered.onHeaders.count]

theorem outcome_rawOnMessage (h : Listening l s) (res : Res) :
    (rawOnMessage res s).outcome methodDefinition l =
      s.stack.foldl (Task.run methodDefinition l) ((s.reception l).see (.message res)) := by
  by_cases hc : s.client.completed = true
  · simp [rawOnMessage, Session.outcome, Session.reception, Reception.see, hc]
  · simp [rawOnMessage, Session.outcome, Session.reception, Reception.see, hc, h.opened, Task.run,
      h.registered.onMessage.count]

theorem outcome_rawOnEnd (h : Listening l s) (code : Number) (message : JsString) (trailers : M) :
    (rawOnEnd code message trailers s).outcome methodDefinition l =
      s.stack.foldl (Task.run methodDefinition l)
        ((s.reception l).finish code message trailers) := by
  by_cases hc : s.client.completed = true
  · rw [rawOnEnd_of_completed hc, Reception.finish_of_completed hc]
    rfl
  · simp [rawOnEnd, Session.outcome, Session.reception, Reception.see, Reception.finish, hc,
      Task.run, h.registered.onEnd.count]

/-- The end of the transport, in one expression. -/
theorem onTransportEnd_eq (h : s.client.closed = false) :
    onTransportEnd s =
      let d := endOf s.client.responseHeaders s.client.responseTrailers
      rawOnEnd d.1 d.2.1 d.2.2 s := by
  unfold onTransportEnd endOf
  rw [h]
  simp only [Bool.false_eq_true, if_false, rawOnError_eq]
  rcases s.client.responseTrailers with _ | trailers
  · rcases s.client.responseHeaders with _ | headers
    · rfl
    · rcases hst : getStatusFromHeaders headers <;> simp [hst]
  · rcases hst : getStatusFromHeaders trailers <;> simp [hst]

/-- **An event** adds what `handle` says of it. -/
theorem outcome_deliver (h : Listening l s) (hs : s.stack = []) (e : TransportEvent M) :
    (deliver s e).outcome methodDefinition l = (s.reception l).handle methodDefinition e := by
  cases e with
  | onHeaders headers status =>
    rw [deliver, onTransportHeaders, Reception.handle, Reception.takeHeaders]
    simp only [h.opened, Bool.false_eq_true, if_false]
    by_cases hst : status = 0
    · simp [hst, Session.outcome, hs]
    · rw [if_neg hst, if_neg hst]
      split
      · refine (outcome_rawOnHeaders ?_ headers).trans ?_
        · exact h.of_eq rfl rfl rfl rfl
        simp [hs, Task.run, Session.reception]
      · refine (outcome_rawOnHeaders ?_ headers).trans ?_
        · exact h.of_eq rfl rfl rfl rfl
        simp [hs, Session.reception]
  | onChunk chunkBytes =>
    obtain ⟨hr, hp⟩ := s.client.parser.parse_eq (M := M) chunkBytes
    rw [deliver, onTransportChunk, Reception.handle, Reception.takeBytes]
    simp only [h.opened, Bool.false_eq_true, if_false]
    rw [hr]
    simp only [Session.reception]
    rcases (toChunks (frames.drainTo Frame.isTrailer (s.client.parser.pending ++ chunkBytes)).1 :
      Except JsString (List (Chunk M))) with e | data
    · refine (outcome_rawOnEnd ?_ _ _ _).trans ?_
      · exact h.of_eq rfl rfl rfl rfl
      simp [hs, Session.reception, hp, Reception.leave]
    · simp [Session.outcome, hs, Task.run, Session.reception, hp, Reception.leave]
  | onEnd =>
    rw [deliver, onTransportEnd_eq h.opened, outcome_rawOnEnd h, hs]
    rfl

omit [BrowserHeaders M] in
theorem replicate_count_cons (f g : ℕ) (fs : List ℕ) (d : Dispatch M Res) :
    (if f = g then some d else none).toList ++ List.replicate (fs.count g) d =
      List.replicate ((f :: fs).count g) d := by
  by_cases h : f = g
  · subst h
    simp [List.replicate_succ]
  · simp [h]

/-- A loop that is over adds nothing. -/
theorem Task.run_exhausted {d : Task M Res} (hd : d.Exhausted) (r : Reception M Res) :
    Task.run methodDefinition l r d = r := by
  match d, hd with
  | .onHeaders [] _, _ => simp [Task.run]
  | .onMessage [] _, _ => simp [Task.run]
  | .onEnd [] _ _ _, _ => simp [Task.run]
  | .chunks [], _ => rfl

/-- A move of the client goes the way that was foreseen. -/
theorem outcome_tick (h : Listening l s) {t : Session M Res}
    (ht : tick methodDefinition s = some t) :
    t.outcome methodDefinition l = s.outcome methodDefinition l := by
  cases move_of_tick ht with
  | exhausted hk hd =>
    simp [Session.outcome, hk, Task.run_exhausted hd, Session.reception]
  | onHeaders hk =>
    simp [Session.outcome, hk, Task.run, Session.reception, Listener.sees, ← replicate_count_cons]
  | onMessage hk hc =>
    simp [Session.outcome, hk, Task.run, Session.reception, Listener.sees, ← replicate_count_cons]
  | onEnd hk hc =>
    simp [Session.outcome, hk, Task.run, Session.reception, Listener.sees, ← replicate_count_cons]
  | skipsMessage hk hc => exact absurd hc (by simp [h.opened])
  | skipsEnd hk hc => exact absurd hc (by simp [h.opened])
  | chunk hk =>
    unfold Client.onChunk
    split
    · rename_i data
      split
      · rename_i e he
        simp [Session.outcome, hk, Task.run, Session.reception, Reception.takeChunks, he,
          Listener.sees]
      · rename_i res hres
        refine (outcome_rawOnMessage ?_ res).trans ?_
        · exact h.of_eq rfl rfl rfl rfl
        simp [Session.outcome, hk, Task.run, Session.reception, Reception.takeChunks, hres]
    · rename_i trailers
      split
      · rename_i hnone
        change s.client.responseHeaders = none at hnone
        refine (outcome_rawOnHeaders ?_ _).trans ?_
        · exact h.of_eq rfl rfl rfl rfl
        simp [Session.outcome, hk, Task.run, Session.reception, Reception.takeChunks, hnone]
      · rename_i hsome
        change s.client.responseHeaders = some _ at hsome
        simp [Session.outcome, hk, Task.run, Session.reception, Reception.takeChunks, hsome]
  | @error code message headers k hk =>
    refine (outcome_rawOnEnd ?_ code message headers).trans ?_
    · exact h.of_eq rfl rfl rfl rfl
    simp [Session.outcome, hk, Task.run, Session.reception]

/-- **A step goes the way that was foreseen**, and an event adds what `handle` says of it. -/
theorem outcome_step {a : Action M Req} (h : Listening l s) (hok : Calm s a) {t : Session M Res}
    (ht : step methodDefinition s a = some t) :
    t.outcome methodDefinition l =
      a.event?.toList.foldl (Reception.handle methodDefinition) (s.outcome methodDefinition l) := by
  rcases step_inv ht with
    ⟨c, rfl, rfl⟩ | ⟨e, rfl, rfl⟩ | ⟨k, hk, ⟨rfl, rfl⟩ | ⟨rfl, rfl⟩⟩ | ⟨rfl, ht⟩
  · rcases c.kind with hk | hk | rfl
    · obtain ⟨client, e, heq, hcl, he⟩ := call_request methodDefinition hk s
      rw [heq]
      simp [Session.outcome, Session.reception, hcl, l.sees_eq_none he, Action.event?]
    · cases c <;> first | rfl | cases hk
    · cases hok
  · rw [outcome_deliver h hok]
    have hs : s.stack = [] := hok
    simp [Action.event?, Session.outcome, hs]
  · simp [Action.event?, Session.outcome, hk, Task.run, Session.reception]
  · simp [Action.event?, Session.outcome, hk, Task.run, Session.reception, Listener.sees]
  · exact outcome_tick h ht

theorem Listening.step {a : Action M Req} (h : Listening l s) (hok : Calm s a) {t : Session M Res}
    (ht : step methodDefinition s a = some t) : Listening l t := by
  rcases step_inv ht with ⟨c, rfl, rfl⟩ | ⟨e, rfl, rfl⟩ | ⟨k, hk, ⟨-, rfl⟩ | ⟨-, rfl⟩⟩ | ⟨rfl, ht⟩
  · rcases c.kind with hk | hk | rfl
    · obtain ⟨client, e, heq, hcl, -⟩ := call_request methodDefinition hk s
      rw [heq]
      exact h.of_eq (by rw [hcl]) (by rw [hcl]) (by rw [hcl]) (by rw [hcl])
    · obtain ⟨⟨h1, h2, h3⟩, hopen⟩ := h
      cases c with
      | onHeaders => exact ⟨⟨h1.register, h2, h3⟩, hopen⟩
      | onMessage => exact ⟨⟨h1, h2.register, h3⟩, hopen⟩
      | onEnd => exact ⟨⟨h1, h2, h3.register⟩, hopen⟩
      | start metadata => cases hk
      | send msg => cases hk
      | finishSend => cases hk
      | close => cases hk
    · cases hok
  · obtain ⟨hg, -⟩ := deliver_grows s e
    exact h.of_eq hg.onHeadersCallbacks hg.onMessageCallbacks hg.onEndCallbacks hg.closed
  · exact h.of_eq rfl rfl rfl rfl
  · exact h.of_eq rfl rfl rfl rfl
  · obtain ⟨hg, -⟩ := tick_grows ht
    exact h.of_eq hg.onHeadersCallbacks hg.onMessageCallbacks hg.onEndCallbacks hg.closed

/-- The events of a run. -/
def eventsOf (as : List (Action M Req)) : List (TransportEvent M) := as.filterMap Action.event?

/-- **The client receives a response as `handle` says**: in a calm run, what a listener that was
registered from the start has seen, whenever nothing is outstanding, is what the events amount
to. -/
theorem reception_eq {t : Session M Res} {as : List (Action M Req)} (h : Awaiting l s)
    (hok : Along (step methodDefinition) Calm s as)
    (hrun : exec (step methodDefinition) s as = some t) (ht : t.stack = []) :
    t.reception l = receive methodDefinition (eventsOf as) := by
  have hsim : t.outcome methodDefinition l =
      (eventsOf as).foldl (Reception.handle methodDefinition) (s.outcome methodDefinition l) :=
    exec_simulates (P := Listening l) (fun _ _ _ hP hok hstep => hP.step hok hstep)
      (fun _ _ _ hP hok hstep => outcome_step hP hok hstep) h.listening hok hrun
  simpa [Session.outcome, h.stack, ht, h.reception, receive] using hsim

/-! ## Every response is received -/

/-- One move towards the end of what is outstanding: the client goes on, or a callback returns. -/
def Proceeds (methodDefinition : MethodDefinition Req Res) (s t : Session M Res) : Prop :=
  step methodDefinition s .tick = some t ∨ step methodDefinition s .returns = some t

/-- The session comes to the point where only the tasks `k` are left. -/
def Settles (methodDefinition : MethodDefinition Req Res) (s : Session M Res)
    (k : List (Task M Res)) : Prop :=
  ∃ t, Relation.ReflTransGen (Proceeds methodDefinition) s t ∧ t.stack = k

theorem Settles.tick {k : List (Task M Res)} {t : Session M Res}
    (h : tick methodDefinition s = some t) (ht : Settles methodDefinition t k) :
    Settles methodDefinition s k := by
  obtain ⟨u, hu, hk⟩ := ht
  exact ⟨u, .head (.inl h) hu, hk⟩

theorem Settles.returns {j k : List (Task M Res)} (hs : s.stack = .running :: j)
    (ht : Settles methodDefinition { s with stack := j } k) : Settles methodDefinition s k := by
  obtain ⟨u, hu, hk⟩ := ht
  exact ⟨u, .head (.inr (by simp only [step, hs])) hu, hk⟩

theorem Settles.trans {j k : List (Task M Res)} (hs : Settles methodDefinition s j)
    (h : ∀ t : Session M Res, t.stack = j → Settles methodDefinition t k) :
    Settles methodDefinition s k := by
  obtain ⟨t, ht, hj⟩ := hs
  obtain ⟨u, hu, hk⟩ := h t hj
  exact ⟨u, ht.trans hu, hk⟩

theorem settles_self (s : Session M Res) : Settles methodDefinition s s.stack := ⟨s, .refl, rfl⟩

theorem settles_onHeaders {callbacks : List ℕ} {headers : M} {k : List (Task M Res)}
    (hs : s.stack = .onHeaders callbacks headers :: k) : Settles methodDefinition s k := by
  induction callbacks generalizing s with
  | nil => exact .tick (by rw [tick, hs]) (settles_self _)
  | cons f fs ih => exact .tick (by rw [tick, hs]) (.returns rfl (ih rfl))

theorem settles_onMessage {callbacks : List ℕ} {res : Res} {k : List (Task M Res)}
    (hs : s.stack = .onMessage callbacks res :: k) : Settles methodDefinition s k := by
  induction callbacks generalizing s with
  | nil => exact .tick (by rw [tick, hs]) (settles_self _)
  | cons f fs ih =>
    by_cases hc : s.client.closed = true
    · refine .tick (t := { s with stack := .onMessage fs res :: k }) ?_ (ih rfl)
      simp only [tick, hs, hc, if_true]
    · refine .tick (t := { s with stack := .running :: .onMessage fs res :: k }.record
        (.onMessage f res)) ?_ (.returns rfl (ih rfl))
      simp only [tick, hs, hc, if_false, Bool.false_eq_true]

theorem settles_onEnd {callbacks : List ℕ} {code : Number} {message : JsString} {trailers : M}
    {k : List (Task M Res)} (hs : s.stack = .onEnd callbacks code message trailers :: k) :
    Settles methodDefinition s k := by
  induction callbacks generalizing s with
  | nil => exact .tick (by rw [tick, hs]) (settles_self _)
  | cons f fs ih =>
    by_cases hc : s.client.closed = true
    · refine .tick (t := { s with stack := .onEnd fs code message trailers :: k }) ?_ (ih rfl)
      simp only [tick, hs, hc, if_true]
    · refine .tick (t := { s with stack := .running :: .onEnd fs code message trailers :: k }.record
        (.onEnd f code message trailers)) ?_ (.returns rfl (ih rfl))
      simp only [tick, hs, hc, if_false, Bool.false_eq_true]

theorem settles_rawOnHeaders (headers : M) (s : Session M Res) :
    Settles methodDefinition (rawOnHeaders headers s) s.stack := by
  unfold rawOnHeaders
  split
  · exact settles_self s
  · exact settles_onHeaders rfl

theorem settles_rawOnMessage (res : Res) (s : Session M Res) :
    Settles methodDefinition (rawOnMessage res s) s.stack := by
  unfold rawOnMessage
  split
  · exact settles_self s
  · exact settles_onMessage rfl

theorem settles_rawOnEnd (code : Number) (message : JsString) (trailers : M) (s : Session M Res) :
    Settles methodDefinition (rawOnEnd code message trailers s) s.stack := by
  unfold rawOnEnd
  split
  · exact settles_self s
  · exact settles_onEnd rfl

theorem settles_chunks {ds : List (Chunk M)} {k : List (Task M Res)}
    (hs : s.stack = .chunks ds :: k) : Settles methodDefinition s k := by
  induction ds generalizing s with
  | nil => exact .tick (by rw [tick, hs]) (settles_self _)
  | cons d ds ih =>
    have htick : tick methodDefinition s =
        some (onChunk methodDefinition d ds { s with stack := k }) := by
      rw [tick, hs]
    refine .tick htick ?_
    unfold onChunk
    split
    · split
      · exact settles_self _
      · exact (settles_rawOnMessage _ _).trans fun t ht => ih ht
    · split
      · exact (settles_rawOnHeaders _ _).trans fun t ht => ih ht
      · exact ih rfl

variable (methodDefinition) in
/-- **Whatever is outstanding comes to its end**, when the callbacks return. -/
theorem settles (s : Session M Res) : Settles methodDefinition s [] := by
  induction hk : s.stack generalizing s with
  | nil => exact hk ▸ settles_self s
  | cons t k ih =>
    refine Settles.trans (j := k) ?_ fun u hu => ih u hu
    cases t with
    | onHeaders callbacks headers => exact settles_onHeaders hk
    | onMessage callbacks res => exact settles_onMessage hk
    | onEnd callbacks code message trailers => exact settles_onEnd hk
    | chunks data => exact settles_chunks hk
    | error code message headers =>
      refine .tick (t := rawOnError code message { s with stack := k } headers) ?_
        (settles_rawOnEnd _ _ _ _)
      rw [tick, hk]
    | running => exact .returns hk (settles_self _)

/-- There is a calm run with the given events that ends with nothing outstanding. -/
def Receives (methodDefinition : MethodDefinition Req Res) (s : Session M Res)
    (events : List (TransportEvent M)) : Prop :=
  ∃ (as : List (Action M Req)) (t : Session M Res), eventsOf as = events ∧
    Along (step methodDefinition) Calm s as ∧ exec (step methodDefinition) s as = some t ∧
    t.stack = []

theorem Receives.step {a : Action M Req} {t : Session M Res}
    (ha : step methodDefinition s a = some t) (hok : Calm s a) {events : List (TransportEvent M)}
    (h : Receives methodDefinition t events) :
    Receives methodDefinition s (a.event?.toList ++ events) := by
  obtain ⟨as, u, rfl, halong, hrun, hu⟩ := h
  refine ⟨a :: as, u, ?_, ⟨hok, fun v hv => ?_⟩, exec_cons.2 ⟨t, ha, hrun⟩, hu⟩
  · rw [eventsOf, List.filterMap_cons, eventsOf]
    cases a.event? <;> rfl
  · obtain rfl : t = v := Option.some.inj (ha.symm.trans hv)
    exact halong

theorem Receives.of_proceeds {t : Session M Res}
    (hst : Relation.ReflTransGen (Proceeds methodDefinition) s t)
    {events : List (TransportEvent M)} (h : Receives methodDefinition t events) :
    Receives methodDefinition s events := by
  induction hst using Relation.ReflTransGen.head_induction_on with
  | refl => exact h
  | head hstep _ ih => exact hstep.elim (ih.step · trivial) (ih.step · trivial)

/-- **Every response is received**, by any client that has nothing outstanding. -/
theorem receives (methodDefinition : MethodDefinition Req Res) (hs : s.stack = [])
    (events : List (TransportEvent M)) :
    Receives methodDefinition s events := by
  induction events generalizing s with
  | nil => exact ⟨[], s, rfl, trivial, rfl, hs⟩
  | cons e events ih =>
    obtain ⟨t, hst, ht⟩ := settles methodDefinition (deliver s e)
    exact ((ih ht).of_proceeds hst).step (a := .event e) (by rw [step, hs]) hs

/-! ## What a listener is shown -/

/-- A client receives the events, each handled before the next one, without being closed; when
nothing is outstanding, a listener that was registered from the start has seen `seen`. -/
def Shows (methodDefinition : MethodDefinition Req Res) (l : Listener)
    (events : List (TransportEvent M)) (seen : List (Dispatch M Res)) : Prop :=
  ∃ (s t : Session M Res) (as : List (Action M Req)), Awaiting l s ∧ eventsOf as = events ∧
    Along (step methodDefinition) Calm s as ∧ exec (step methodDefinition) s as = some t ∧
    t.stack = [] ∧ l.view t.log = seen

/-- **The events decide what a listener is shown**, and every response is shown. -/
theorem shows_iff {events : List (TransportEvent M)} {seen : List (Dispatch M Res)} :
    Shows methodDefinition l events seen ↔ seen = (receive methodDefinition events).seen := by
  constructor
  · rintro ⟨s, t, as, hs, rfl, hok, hrun, ht, rfl⟩
    rw [← reception_eq hs hok hrun ht]
    rfl
  · rintro rfl
    have hs : Awaiting l (Session.withCallbacks true (l.onHeaders + 1) (l.onMessage + 1)
        (l.onEnd + 1) : Session M Res) :=
      awaiting_withCallbacks true (Nat.lt_succ_self _) (Nat.lt_succ_self _) (Nat.lt_succ_self _)
    obtain ⟨as, t, rfl, hok, hrun, ht⟩ := receives methodDefinition hs.stack events
    refine ⟨_, t, as, hs, rfl, hok, hrun, ht, ?_⟩
    rw [← reception_eq hs hok hrun ht]
    rfl

end GrpcWeb.Client

import GrpcWeb.Client.GrpcClient

/-!
# What a step of the client can do

The facts about single steps that the results on whole runs share. An application call drives the
request (`call_request`), closes the client (`call_close`) or registers a callback
(`call_registration`), and leaves the stack alone. A transport event writes nothing
(`deliver_grows`), and on a closed client it does nothing (`deliver_of_closed`). A move of the
client is one of the list `Move` and writes at most one entry (`tick_grows`). `step_inv` says which
actions are possible when.
-/

namespace GrpcWeb.Client

open Js

variable {M Req Res : Type}

/-- A callback of the application has started. -/
def Entry.isCallback : Entry M Res → Bool
  | .onHeaders _ _ => true
  | .onMessage _ _ => true
  | .onEnd _ _ _ _ => true
  | _ => false

/-- The entry of a call of `close` that succeeded. -/
abbrev Entry.closed : Entry M Res := .transport .cancel

section Calls

variable [BrowserHeaders M] (methodDefinition : MethodDefinition Req Res)

/-! ## Application calls -/

/-- The application calls that drive the request. -/
def AppCall.isRequest : AppCall M Req → Bool
  | .start _ => true
  | .send _ => true
  | .finishSend => true
  | _ => false

/-- The application calls that register a callback. -/
def AppCall.isRegistration : AppCall M Req → Bool
  | .onHeaders => true
  | .onMessage => true
  | .onEnd => true
  | _ => false

/-- An entry that a call of the application other than a successful `close` can write. -/
def Entry.isRequest : Entry M Res → Bool
  | .transport .cancel => false
  | .transport _ => true
  | .threw _ => true
  | _ => false

omit [BrowserHeaders M] in
theorem Entry.isCallback_of_isRequest {e : Entry M Res} (he : e.isRequest = true) :
    e.isCallback = false := by
  cases e <;> first | rfl | cases he

omit [BrowserHeaders M] in
theorem Entry.ne_closed_of_isRequest {e : Entry M Res} (he : e.isRequest = true) :
    e ≠ Entry.closed := by
  rintro rfl
  cases he

/-- **A call that drives the request** leaves the response side of the client and the stack alone,
and writes one entry. -/
theorem call_request {c : AppCall M Req} (hc : c.isRequest = true) (s : Session M Res) :
    ∃ client e, call methodDefinition s c = { s with client := client, log := s.log ++ [e] } ∧
      client.toReceiver = s.client.toReceiver ∧ e.isRequest = true := by
  cases c with
  | onHeaders => cases hc
  | onMessage => cases hc
  | onEnd => cases hc
  | start metadata =>
    simp only [call, start]
    split
    · exact ⟨_, _, rfl, rfl, rfl⟩
    · split <;> exact ⟨_, _, rfl, rfl, rfl⟩
  | send msg =>
    simp only [call, send]
    split
    · exact ⟨_, _, rfl, rfl, rfl⟩
    split
    · exact ⟨_, _, rfl, rfl, rfl⟩
    split
    · exact ⟨_, _, rfl, rfl, rfl⟩
    split
    · exact ⟨_, _, rfl, rfl, rfl⟩
    split <;> exact ⟨_, _, rfl, rfl, rfl⟩
  | finishSend =>
    simp only [call, finishSend]
    split
    · exact ⟨_, _, rfl, rfl, rfl⟩
    split
    · exact ⟨_, _, rfl, rfl, rfl⟩
    split <;> exact ⟨_, _, rfl, rfl, rfl⟩
  | close => cases hc

/-- **A call of `close`** closes a client that is open, or throws. -/
theorem call_close (s : Session M Res) :
    (∃ e, call methodDefinition s .close = { s with log := s.log ++ [e] } ∧
      e.isRequest = true) ∨
    (s.client.started = true ∧ s.client.closed = false ∧ call methodDefinition s .close =
      (s.modify fun c => { c with closed := true }).record Entry.closed) := by
  simp only [call, close]
  split
  · exact .inl ⟨_, rfl, rfl⟩
  · rename_i h1
    split
    · rename_i h2
      exact .inr ⟨by simpa using h1, by simpa using h2, rfl⟩
    · exact .inl ⟨_, rfl, rfl⟩

/-- **A call that registers a callback** only adds it to its array. -/
theorem call_registration {c : AppCall M Req} (hc : c.isRegistration = true) (s : Session M Res) :
    ∃ client : GrpcClient M, call methodDefinition s c = { s with client := client } ∧
      client.completed = s.client.completed ∧ client.closed = s.client.closed ∧
      client.responseHeaders = s.client.responseHeaders := by
  cases c with
  | onHeaders => exact ⟨_, rfl, rfl, rfl, rfl⟩
  | onMessage => exact ⟨_, rfl, rfl, rfl, rfl⟩
  | onEnd => exact ⟨_, rfl, rfl, rfl, rfl⟩
  | start metadata => cases hc
  | send msg => cases hc
  | finishSend => cases hc
  | close => cases hc

omit [BrowserHeaders M] in
theorem AppCall.kind (c : AppCall M Req) :
    c.isRequest = true ∨ c.isRegistration = true ∨ c = .close := by
  cases c <;> simp [AppCall.isRequest, AppCall.isRegistration]

end Calls

/-! ## The dispatching functions -/

@[simp] theorem client_rawOnHeaders (headers : M) (s : Session M Res) :
    (rawOnHeaders headers s).client = s.client := by
  unfold rawOnHeaders
  split <;> rfl

@[simp] theorem log_rawOnHeaders (headers : M) (s : Session M Res) :
    (rawOnHeaders headers s).log = s.log := by
  unfold rawOnHeaders
  split <;> rfl

@[simp] theorem client_rawOnMessage (res : Res) (s : Session M Res) :
    (rawOnMessage res s).client = s.client := by
  unfold rawOnMessage
  split <;> rfl

@[simp] theorem log_rawOnMessage (res : Res) (s : Session M Res) :
    (rawOnMessage res s).log = s.log := by
  unfold rawOnMessage
  split <;> rfl

@[simp] theorem client_rawOnEnd (code : Number) (message : JsString) (trailers : M)
    (s : Session M Res) :
    (rawOnEnd code message trailers s).client = { s.client with completed := true } := by
  unfold rawOnEnd
  split
  · rename_i h
    rw [← h]
  · rfl

@[simp] theorem log_rawOnEnd (code : Number) (message : JsString) (trailers : M)
    (s : Session M Res) : (rawOnEnd code message trailers s).log = s.log := by
  unfold rawOnEnd
  split <;> rfl

theorem rawOnHeaders_of_completed {s : Session M Res} (h : s.client.completed = true)
    (headers : M) : rawOnHeaders headers s = s := if_pos h

theorem rawOnMessage_of_closed {s : Session M Res} (h : s.client.closed = true) (res : Res) :
    rawOnMessage res s = s := if_pos (by simp [h])

theorem rawOnEnd_of_completed {s : Session M Res} (h : s.client.completed = true) (code : Number)
    (message : JsString) (trailers : M) : rawOnEnd code message trailers s = s := if_pos h

theorem stack_rawOnEnd {s : Session M Res} (h : s.client.completed = false) (code : Number)
    (message : JsString) (trailers : M) : (rawOnEnd code message trailers s).stack =
      .onEnd s.client.onEndCallbacks code message trailers :: s.stack := by
  simp [rawOnEnd, h]

/-- The two ways of ending a call do the same. -/
@[simp] theorem rawOnError_eq [BrowserHeaders M] (code : Number) (msg : JsString)
    (s : Session M Res) (trailers : M) :
    rawOnError code msg s trailers = rawOnEnd code msg trailers s := rfl

/-! ## What only grows -/

/-- From `c` to `d` the client is not closed, a call that was completed stays so, response headers
are not forgotten, and no callback is registered. -/
structure Grows (c d : Receiver M) : Prop where
  closed : d.closed = c.closed
  completed : c.completed = true → d.completed = true
  responseHeaders : c.responseHeaders.isSome → d.responseHeaders.isSome
  onHeadersCallbacks : d.onHeadersCallbacks = c.onHeadersCallbacks
  onMessageCallbacks : d.onMessageCallbacks = c.onMessageCallbacks
  onEndCallbacks : d.onEndCallbacks = c.onEndCallbacks

theorem Grows.refl (c : Receiver M) : Grows c c := ⟨rfl, id, id, rfl, rfl, rfl⟩

variable [BrowserHeaders M]

/-! ## Transport events -/

/-- A closed client ignores every event. -/
theorem deliver_of_closed {s : Session M Res} (h : s.client.closed = true) (e : TransportEvent M) :
    deliver s e = s := by
  cases e <;> simp [deliver, onTransportHeaders, onTransportChunk, onTransportEnd, h]

/-- **The end of the transport ends the call**, unless it was closed. -/
theorem onTransportEnd_client {s : Session M Res} (h : s.client.closed = false) :
    (onTransportEnd s).client = { s.client with completed := true } := by
  unfold onTransportEnd
  rw [h]
  simp only [Bool.false_eq_true, if_false, rawOnError_eq]
  split
  · split
    · exact client_rawOnEnd _ _ _ s
    · split <;> exact client_rawOnEnd _ _ _ s
  · split <;> exact client_rawOnEnd _ _ _ s

theorem log_onTransportEnd (s : Session M Res) : (onTransportEnd s).log = s.log := by
  unfold onTransportEnd
  simp only [rawOnError_eq]
  repeat' split
  all_goals simp

/-- **An event** writes nothing: the callbacks start later. -/
theorem deliver_grows (s : Session M Res) (e : TransportEvent M) :
    Grows s.client.toReceiver (deliver s e).client.toReceiver ∧ (deliver s e).log = s.log := by
  by_cases hc : s.client.closed = true
  · rw [deliver_of_closed hc]
    exact ⟨.refl _, rfl⟩
  cases e with
  | onHeaders headers status =>
    rw [deliver, onTransportHeaders, if_neg hc]
    by_cases hs : status = 0
    · simp [hs, Grows.refl]
    · rw [if_neg hs]
      simp only
      split <;> exact ⟨⟨by simp, by simp, by simp, by simp, by simp, by simp⟩, by simp⟩
  | onChunk chunkBytes =>
    rw [deliver, onTransportChunk, if_neg hc]
    simp only
    split <;> exact ⟨⟨by simp, by simp, by simp, by simp, by simp, by simp⟩, by simp⟩
  | onEnd =>
    rw [deliver, onTransportEnd_client (by simpa using hc)]
    exact ⟨⟨rfl, fun _ => rfl, id, rfl, rfl, rfl⟩, log_onTransportEnd s⟩

/-! ## The client's own moves -/

variable {methodDefinition : MethodDefinition Req Res}

/-- A loop that is over. -/
def Task.Exhausted : Task M Res → Prop
  | .onHeaders [] _ | .onMessage [] _ | .onEnd [] _ _ _ | .chunks [] => True
  | _ => False

/-- What a move of the client can be, by the task that it goes on with. -/
inductive Move (methodDefinition : MethodDefinition Req Res) (s : Session M Res) :
    Session M Res → Prop
  | exhausted {d : Task M Res} {k : List (Task M Res)} (hk : s.stack = d :: k)
    (hd : d.Exhausted) : Move methodDefinition s { s with stack := k }
  | onHeaders {f : ℕ} {fs : List ℕ} {headers : M} {k : List (Task M Res)}
    (hk : s.stack = .onHeaders (f :: fs) headers :: k) :
    Move methodDefinition s
      ({ s with stack := .running :: .onHeaders fs headers :: k }.record (.onHeaders f headers))
  | onMessage {f : ℕ} {fs : List ℕ} {res : Res} {k : List (Task M Res)}
    (hk : s.stack = .onMessage (f :: fs) res :: k) (hc : ¬ s.client.closed = true) :
    Move methodDefinition s
      ({ s with stack := .running :: .onMessage fs res :: k }.record (.onMessage f res))
  | onEnd {f : ℕ} {fs : List ℕ} {code : Number} {message : JsString} {trailers : M}
    {k : List (Task M Res)} (hk : s.stack = .onEnd (f :: fs) code message trailers :: k)
    (hc : ¬ s.client.closed = true) :
    Move methodDefinition s
      ({ s with stack := .running :: .onEnd fs code message trailers :: k }.record
        (.onEnd f code message trailers))
  /-- the client is closed, and the callback is not called -/
  | skipsMessage {f : ℕ} {fs : List ℕ} {res : Res} {k : List (Task M Res)}
    (hk : s.stack = .onMessage (f :: fs) res :: k) (hc : s.client.closed = true) :
    Move methodDefinition s { s with stack := .onMessage fs res :: k }
  | skipsEnd {f : ℕ} {fs : List ℕ} {code : Number} {message : JsString} {trailers : M}
    {k : List (Task M Res)} (hk : s.stack = .onEnd (f :: fs) code message trailers :: k)
    (hc : s.client.closed = true) :
    Move methodDefinition s { s with stack := .onEnd fs code message trailers :: k }
  | chunk {d : Chunk M} {ds : List (Chunk M)} {k : List (Task M Res)}
    (hk : s.stack = .chunks (d :: ds) :: k) :
    Move methodDefinition s (Client.onChunk methodDefinition d ds { s with stack := k })
  | error {code : Number} {message : JsString} {headers : M} {k : List (Task M Res)}
    (hk : s.stack = .error code message headers :: k) :
    Move methodDefinition s (rawOnError code message { s with stack := k } headers)

theorem move_of_tick {s t : Session M Res} (h : tick methodDefinition s = some t) :
    Move methodDefinition s t := by
  unfold tick at h
  split at h
  · cases h
  · cases h
  · rename_i hk
    cases h
    exact .exhausted hk trivial
  · cases h
    exact .onHeaders ‹_›
  · rename_i hk
    cases h
    exact .exhausted hk trivial
  · split at h <;> cases h
    · exact .skipsMessage ‹_› ‹_›
    · exact .onMessage ‹_› ‹_›
  · rename_i hk
    cases h
    exact .exhausted hk trivial
  · split at h <;> cases h
    · exact .skipsEnd ‹_› ‹_›
    · exact .onEnd ‹_› ‹_›
  · rename_i hk
    cases h
    exact .exhausted hk trivial
  · cases h
    exact .chunk ‹_›
  · cases h
    exact .error ‹_›

/-- **A move of the client** writes at most one entry, and that is not the one of `close`. -/
theorem tick_grows {s t : Session M Res} (h : tick methodDefinition s = some t) :
    Grows s.client.toReceiver t.client.toReceiver ∧
      (t.log = s.log ∨ ∃ e, e ≠ Entry.closed ∧ t.log = s.log ++ [e]) := by
  cases move_of_tick h with
  | exhausted hk hd => exact ⟨.refl _, .inl rfl⟩
  | skipsMessage hk hc => exact ⟨.refl _, .inl rfl⟩
  | skipsEnd hk hc => exact ⟨.refl _, .inl rfl⟩
  | onHeaders hk => exact ⟨.refl _, .inr ⟨_, by simp, rfl⟩⟩
  | onMessage hk hc => exact ⟨.refl _, .inr ⟨_, by simp, rfl⟩⟩
  | onEnd hk hc => exact ⟨.refl _, .inr ⟨_, by simp, rfl⟩⟩
  | chunk hk =>
    unfold Client.onChunk
    split
    · split
      · exact ⟨.refl _, .inr ⟨_, by simp, rfl⟩⟩
      · exact ⟨⟨by simp, by simp, by simp, by simp, by simp, by simp⟩, .inl (by simp)⟩
    · split <;> exact ⟨⟨by simp, by simp, by simp, by simp, by simp, by simp⟩, .inl (by simp)⟩
  | error hk => exact ⟨⟨by simp, by simp, by simp, by simp, by simp, by simp⟩, .inl (by simp)⟩

/-! ## Steps -/

/-- **Which actions are possible when**: other code has control at the bottom of the stack and
inside a callback. -/
theorem step_inv {s t : Session M Res} {a : Action M Req} (h : step methodDefinition s a = some t) :
    (∃ c, a = .call c ∧ t = call methodDefinition s c) ∨
    (∃ e, a = .event e ∧ t = deliver s e) ∨
    (∃ k, s.stack = .running :: k ∧ (a = .returns ∧ t = { s with stack := k } ∨
      a = .throws ∧ t = { s with stack := k, log := s.log ++ [.rethrown] })) ∨
    (a = .tick ∧ tick methodDefinition s = some t) := by
  cases a with
  | call c =>
    simp only [step] at h
    split at h <;> cases h <;> exact .inl ⟨_, rfl, rfl⟩
  | event e =>
    simp only [step] at h
    split at h <;> cases h <;> exact .inr (.inl ⟨_, rfl, rfl⟩)
  | returns =>
    simp only [step] at h
    split at h
    · rename_i k hk
      cases h
      exact .inr (.inr (.inl ⟨k, hk, .inl ⟨rfl, rfl⟩⟩))
    · cases h
  | throws =>
    simp only [step] at h
    split at h
    · rename_i k hk
      cases h
      exact .inr (.inr (.inl ⟨k, hk, .inr ⟨rfl, rfl⟩⟩))
    · cases h
  | tick => exact .inr (.inr (.inr ⟨rfl, h⟩))

end GrpcWeb.Client

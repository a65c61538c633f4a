import GrpcWeb.Client.Transport

/-!
# After `close`, on any transport

`close` sets `closed` before it cancels the transport, so an event that the transport delivers while
it is cancelled finds the client closed. `exchange_after_close`: whatever a transport delivers after
a `close` that succeeded, and whatever was outstanding, no callback for a message or for the end
starts, and the transport is not called again. Callbacks for headers are the exception.
-/

namespace GrpcWeb.Client

open Js

variable {M Req Res σ α : Type}

/-! ## A client that has been closed -/

/-- An entry that a closed client can still write: an exception, or a callback for headers. -/
def Entry.isLate : Entry M Res → Bool
  | .onHeaders _ _ => true
  | .threw _ => true
  | .rethrown => true
  | .uncaught _ => true
  | _ => false

section

variable [BrowserHeaders M] {methodDefinition : MethodDefinition Req Res}

/-- A client that has been started and closed. -/
structure Shut (s : Session M Res) : Prop where
  started : s.client.started = true
  closed : s.client.closed = true

theorem Shut.call {s : Session M Res} (h : Shut s) (c : AppCall M Req) :
    Shut (call methodDefinition s c) ∧
      ((call methodDefinition s c).log = s.log ∨
        ∃ e, e.isLate = true ∧ (call methodDefinition s c).log = s.log ++ [e]) := by
  cases c with
  | onHeaders => exact ⟨⟨h.started, h.closed⟩, .inl rfl⟩
  | onMessage => exact ⟨⟨h.started, h.closed⟩, .inl rfl⟩
  | onEnd => exact ⟨⟨h.started, h.closed⟩, .inl rfl⟩
  | start metadata =>
    simp only [Client.call, start, h.started, if_true]
    exact ⟨⟨h.started, h.closed⟩, .inr ⟨_, rfl, rfl⟩⟩
  | send msg =>
    rw [Client.call, send, if_neg (by simp [h.started]), if_pos h.closed]
    exact ⟨⟨h.started, h.closed⟩, .inr ⟨_, rfl, rfl⟩⟩
  | finishSend =>
    rw [Client.call, finishSend, if_neg (by simp [h.started]), if_pos h.closed]
    exact ⟨⟨h.started, h.closed⟩, .inr ⟨_, rfl, rfl⟩⟩
  | close =>
    rw [Client.call, close, if_neg (by simp [h.started]), if_neg (by simp [h.closed])]
    exact ⟨⟨h.started, h.closed⟩, .inr ⟨_, rfl, rfl⟩⟩

theorem Shut.tick {s t : Session M Res} (h : Shut s) (ht : tick methodDefinition s = some t) :
    t.client.started = s.client.started ∧
      (t.log = s.log ∨ ∃ e, e.isLate = true ∧ t.log = s.log ++ [e]) := by
  cases move_of_tick ht with
  | exhausted hk hd => exact ⟨rfl, .inl rfl⟩
  | onHeaders hk => exact ⟨rfl, .inr ⟨_, rfl, rfl⟩⟩
  | onMessage hk hopen => exact absurd h.closed hopen
  | onEnd hk hopen => exact absurd h.closed hopen
  | skipsMessage hk => exact ⟨rfl, .inl rfl⟩
  | skipsEnd hk => exact ⟨rfl, .inl rfl⟩
  | chunk hk =>
    unfold Client.onChunk
    split
    · split
      · exact ⟨rfl, .inr ⟨_, rfl, rfl⟩⟩
      · exact ⟨by simp, .inl (by simp)⟩
    · split <;> exact ⟨by simp, .inl (by simp)⟩
  | error hk => exact ⟨by simp, .inl (by simp)⟩

/-- **A step of a client that has been closed** starts no callback for a message or the end, and
does not reach the transport. -/
theorem Shut.step {s t : Session M Res} (h : Shut s) {b : Action M Req}
    (hstep : step methodDefinition s b = some t) :
    Shut t ∧ (t.log = s.log ∨ ∃ e, e.isLate = true ∧ t.log = s.log ++ [e]) := by
  rcases step_inv hstep with
    ⟨c, rfl, rfl⟩ | ⟨e, rfl, rfl⟩ | ⟨k, -, ⟨-, rfl⟩ | ⟨-, rfl⟩⟩ | ⟨rfl, ht⟩
  · exact h.call c
  · rw [deliver_of_closed h.closed]
    exact ⟨h, .inl rfl⟩
  · exact ⟨⟨h.started, h.closed⟩, .inl rfl⟩
  · exact ⟨⟨h.started, h.closed⟩, .inr ⟨_, rfl, rfl⟩⟩
  · obtain ⟨hstarted, hlog⟩ := h.tick ht
    exact ⟨⟨hstarted.trans h.started, (tick_grows ht).1.closed.trans h.closed⟩, hlog⟩

/-- Only a client that has been started is closed. -/
theorem started_of_closed {s t : Session M Res} {b : Action M Req}
    (h : s.client.closed = true → s.client.started = true)
    (hstep : step methodDefinition s b = some t) (hclosed : t.client.closed = true) :
    t.client.started = true := by
  rcases hs : s.client.closed with _ | _
  · rcases step_inv hstep with
      ⟨c, rfl, rfl⟩ | ⟨e, rfl, rfl⟩ | ⟨k, -, ⟨-, rfl⟩ | ⟨-, rfl⟩⟩ | ⟨rfl, ht⟩
    · rcases c.kind with hc | hc | rfl
      · obtain ⟨client, e, heq, hreceiver, -⟩ := call_request methodDefinition hc s
        rw [heq] at hclosed
        simp [hreceiver, hs] at hclosed
      · obtain ⟨client, heq, -, hsame, -⟩ := call_registration methodDefinition hc s
        rw [heq] at hclosed
        simp [hsame, hs] at hclosed
      · rcases call_close methodDefinition s with ⟨e, heq, -⟩ | ⟨hstarted, -, heq⟩
        · rw [heq] at hclosed
          simp [hs] at hclosed
        · rw [heq]
          exact hstarted
    · simp [(deliver_grows s e).1.closed, hs] at hclosed
    · simp [hs] at hclosed
    · simp [hs] at hclosed
    · simp [(tick_grows ht).1.closed, hs] at hclosed
  · exact (Shut.step ⟨h hs, hs⟩ hstep).1.started

namespace Exchange

variable {T : Transport M σ α} {x y : Exchange M Res σ} {as bs : List (ExchangeAction M Req α)}

/-- The transport of an exchange whose client is closed is not called. -/
theorem reaches_transport_shut {a : ExchangeAction M Req α} (hx : Shut x.session)
    (h : x.step T methodDefinition a = some y) :
    Reaches T.record (fun b => ∀ c, b ≠ .call c) (x.transport, x.events)
      (y.transport, y.events) := by
  rcases step_inv h with
    ⟨b, s, rfl, hb, hs, hy⟩ | ⟨m, r, rfl, -, hr, rfl⟩ | ⟨rfl, -, rfl⟩
  · have hentry : ∀ c, newEntry x.session s ≠ some (.transport c) := by
      intro c hc
      rcases (hx.step hs).2 with hlog | ⟨e, he, hlog⟩
      · simp [newEntry, hlog] at hc
      · simp only [newEntry, hlog, List.drop_left, List.head?_cons, Option.some.injEq] at hc
        rw [hc] at he
        cases he
    unfold follow at hy
    split at hy
    · exact absurd ‹_› (hentry _)
    · cases hy
      exact reaches_of_throws fun _ hc => by cases hc
    · cases hy
      exact .refl _
  · exact reaches_of_deliver (b := .move m) (fun _ hc => by cases hc) hr
  · exact reaches_of_deliver (b := .returns) (fun _ hc => by cases hc) rfl

/-- A client that is closed in a run from its beginning has been started. -/
theorem shut_of_closed {x₀ : Exchange M Res σ} {hasSlice : Bool}
    (hnew : x₀.session = Session.new hasSlice)
    (hrun : exec (Exchange.step T methodDefinition) x₀ as = some x)
    (hclosed : x.session.client.closed = true) : Shut x.session := by
  refine ⟨(reaches_session hrun).invariant
    (P := fun s => s.client.closed = true → s.client.started = true)
    (fun _ _ _ h _ hstep => started_of_closed h hstep) ?_ hclosed, hclosed⟩
  rw [hnew]
  nofun

/-- What is written after a close. -/
theorem log_of_shut (hx : Shut x.session)
    (hlater : exec (Exchange.step T methodDefinition) x bs = some y) :
    ∃ later, y.session.log = x.session.log ++ later ∧ ∀ e ∈ later, e.isLate = true := by
  have hinv := (reaches_session hlater).invariant (P := fun s => Shut s ∧ ∃ later,
      s.log = x.session.log ++ later ∧ ∀ e ∈ later, e.isLate = true) ?_ ⟨hx, [], by simp⟩
  · exact hinv.2
  rintro s b t ⟨hs, later, hlog, hlate⟩ - hstep
  obtain ⟨ht, hsame | ⟨e, he, hadd⟩⟩ := hs.step hstep
  · exact ⟨ht, later, hsame.trans hlog, hlate⟩
  · refine ⟨ht, later ++ [e], by rw [hadd, hlog, List.append_assoc], fun e' he' => ?_⟩
    rcases List.mem_append.1 he' with he' | he'
    · exact hlate e' he'
    · exact List.mem_singleton.1 he' ▸ he

end Exchange

open Exchange in
/-- **After `close`**, on any transport and whatever it still delivers: no callback for a message or
for the end starts, and the transport is not called any more. -/
theorem exchange_after_close {T : Transport M σ α} {x₀ x y : Exchange M Res σ}
    {as bs : List (ExchangeAction M Req α)} {hasSlice : Bool}
    (hnew : x₀.session = Session.new hasSlice)
    (hrun : exec (Exchange.step T methodDefinition) x₀ as = some x)
    (hclosed : x.session.client.closed = true)
    (hlater : exec (Exchange.step T methodDefinition) x bs = some y) :
    (∃ later, y.session.log = x.session.log ++ later ∧ ∀ e ∈ later, e.isLate = true) ∧
      Reaches T.record (fun b => ∀ c, b ≠ .call c) (x.transport, x.events)
        (y.transport, y.events) := by
  have hshut : Shut x.session := shut_of_closed hnew hrun hclosed
  refine ⟨log_of_shut hshut hlater, ?_⟩
  have hinv := exec_preserves (P := fun z => Shut z.session ∧
      Reaches T.record (fun b => ∀ c, b ≠ .call c) (x.transport, x.events)
        (z.transport, z.events)) ?_ ⟨hshut, .refl _⟩ hlater
  · exact hinv.2
  rintro z a w ⟨hz, hreach⟩ hstep
  refine ⟨?_, hreach.trans (reaches_transport_shut hz hstep)⟩
  exact (reaches_session_step (List.mem_singleton_self a) hstep).invariant
    (fun _ _ _ h _ hs => (h.step hs).1) hz

end

/-- The application closes the client in its callback for the headers. -/
def closesEarly : List (ExchangeAction HeaderFields Bytes (TransportEvent HeaderFields)) :=
  List.flatten [[.client (.call .onHeaders), .client (.call .onMessage), .client (.call .onEnd)],
    callRun [1], [.move (.onHeaders ⟨[]⟩ 200), .client .tick, .client (.call .close)]]

/-- The transport goes on. -/
def goesOn : List (ExchangeAction HeaderFields Bytes (TransportEvent HeaderFields)) :=
  [.client .returns, .client .tick, .handled, .move (.onChunk (frameBytes [8])), .handled,
    .client (.call (.send [2])), .move .onEnd, .handled]

theorem exchange_after_close_goesOn :
    ∃ x y : Exchange HeaderFields Bytes Unit,
      exec (Exchange.step Transport.scripted (bytesMethod false))
        { session := Session.new true, transport := () } closesEarly = some x ∧
      exec (Exchange.step Transport.scripted (bytesMethod false)) x goesOn = some y ∧
      x.events.length < y.events.length ∧
      ∃ later, y.session.log = x.session.log ++ later ∧ ∀ e ∈ later, e.isLate = true := by
  have hend : ((exec (Exchange.step Transport.scripted (bytesMethod false))
      { session := Session.new true, transport := () } closesEarly).bind fun x =>
        (exec (Exchange.step Transport.scripted (bytesMethod false)) x goesOn).map fun y =>
          (x.session.client.closed, decide (x.events.length < y.events.length))) =
      some (true, true) := by
    decide +kernel
  obtain ⟨x, hx, hend⟩ := Option.bind_eq_some_iff.1 hend
  obtain ⟨y, hy, heq⟩ := Option.map_eq_some_iff.1 hend
  simp only [Prod.mk.injEq, decide_eq_true_eq] at heq
  exact ⟨x, y, hx, hy, heq.2, (exchange_after_close rfl hx heq.1 hy).1⟩

end GrpcWeb.Client

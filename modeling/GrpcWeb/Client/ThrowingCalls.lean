import GrpcWeb.Client.TransportCalls

/-!
# Calls that throw

`send`, `finishSend` and `close` test the flags of the client before they set one, so a call that
one of their guards refuses leaves no trace. `send` sets `sentFirstMessage` before it serializes the
message, and when that throws the flag stays set: a method that does not stream its requests then
refuses the next message as if the first one had been sent.

`NoEffect` is what a call that throws should leave behind. No step reads what has been observed
(`step_after`), so two sessions that differ in this alone go on alike. `throwing_calls_exact` says
that the calls that throw have no effect in just the runs that never spoil the first message so.
-/

namespace GrpcWeb.Client

open Js

variable {M Req Res : Type}

namespace Session

/-- A session of which more has been observed before. -/
def after (earlier : List (Entry M Res)) (s : Session M Res) : Session M Res :=
  { s with log := earlier ++ s.log }

/-- What becomes of a session after `n` entries: the client, the stack and the later entries. -/
def since (n : ℕ) (s : Session M Res) : GrpcClient M × List (Task M Res) × List (Entry M Res) :=
  (s.client, s.stack, s.log.drop n)

@[simp] theorem client_after (earlier : List (Entry M Res)) (s : Session M Res) :
    (s.after earlier).client = s.client := rfl
@[simp] theorem stack_after (earlier : List (Entry M Res)) (s : Session M Res) :
    (s.after earlier).stack = s.stack := rfl

variable (earlier : List (Entry M Res)) (s : Session M Res)

theorem record_after (e : Entry M Res) :
    (s.after earlier).record e = (s.record e).after earlier := by
  simp [record, after]

theorem push_after (t : Task M Res) : (s.after earlier).push t = (s.push t).after earlier := rfl

theorem modify_after (f : GrpcClient M → GrpcClient M) :
    (s.after earlier).modify f = (s.modify f).after earlier := rfl

end Session

/-! ## No step reads the log -/

section After

open Session

variable (earlier : List (Entry M Res)) (s : Session M Res)

theorem rawOnEnd_after (code : Number) (message : JsString) (trailers : M) :
    rawOnEnd code message trailers (s.after earlier) =
      (rawOnEnd code message trailers s).after earlier := by
  rw [rawOnEnd, rawOnEnd, apply_ite (after earlier)]
  rfl

theorem rawOnHeaders_after (headers : M) :
    rawOnHeaders headers (s.after earlier) = (rawOnHeaders headers s).after earlier := by
  rw [rawOnHeaders, rawOnHeaders, apply_ite (after earlier)]
  rfl

theorem rawOnMessage_after (res : Res) :
    rawOnMessage res (s.after earlier) = (rawOnMessage res s).after earlier := by
  rw [rawOnMessage, rawOnMessage, apply_ite (after earlier)]
  rfl

variable [BrowserHeaders M] (methodDefinition : MethodDefinition Req Res)

theorem deliver_after (e : TransportEvent M) :
    deliver (s.after earlier) e = (deliver s e).after earlier := by
  by_cases hc : s.client.closed = true
  · rw [deliver_of_closed hc, deliver_of_closed (s := s.after earlier) hc]
  cases e with
  | onHeaders headers status =>
    rw [deliver, deliver, onTransportHeaders, onTransportHeaders, if_neg hc,
      if_neg (show ¬(s.after earlier).client.closed = true from hc)]
    split
    · rfl
    · simp only [modify_after]
      split
      · rw [push_after, rawOnHeaders_after]
      · rw [rawOnHeaders_after]
  | onChunk chunkBytes =>
    rw [deliver, deliver, onTransportChunk, onTransportChunk, if_neg hc,
      if_neg (show ¬(s.after earlier).client.closed = true from hc)]
    simp only [client_after, modify_after]
    split
    · simp only [rawOnError_eq, rawOnEnd_after]
    · rfl
  | onEnd =>
    rw [deliver, deliver, onTransportEnd, onTransportEnd, if_neg hc,
      if_neg (show ¬(s.after earlier).client.closed = true from hc)]
    simp only [client_after, rawOnError_eq, rawOnEnd_after]
    split
    · split
      · rfl
      · split <;> rfl
    · split <;> rfl

theorem call_after (c : AppCall M Req) :
    call methodDefinition (s.after earlier) c = (call methodDefinition s c).after earlier := by
  cases c with
  | onHeaders => rfl
  | onMessage => rfl
  | onEnd => rfl
  | start metadata =>
    simp only [call, start]
    generalize (BrowserHeaders.construct _ : Except JsString M) = requestHeaders
    cases requestHeaders <;>
      simp only [apply_ite (after earlier), ← record_after, ← modify_after] <;> rfl
  | send msg =>
    simp only [call, send]
    cases frameRequest methodDefinition msg <;>
      simp only [apply_ite (after earlier), ← record_after, ← modify_after] <;> rfl
  | finishSend =>
    simp only [call, finishSend, apply_ite (after earlier), ← record_after, ← modify_after]
    rfl
  | close =>
    simp only [call, close, apply_ite (after earlier), ← record_after, ← modify_after]
    rfl

theorem onChunk_after (d : Chunk M) (rest : List (Chunk M)) :
    onChunk methodDefinition d rest (s.after earlier) =
      (onChunk methodDefinition d rest s).after earlier := by
  unfold onChunk
  split
  · split
    · rw [record_after]
    · rw [push_after, rawOnMessage_after]
  · simp only [client_after, modify_after, push_after]
    split
    · rw [rawOnHeaders_after]
    · rfl

theorem tick_after :
    tick methodDefinition (s.after earlier) = (tick methodDefinition s).map (after earlier) := by
  rcases s with ⟨client, stack, log⟩
  have hpush : ∀ (k : List (Task M Res)) (e : Entry M Res),
      (⟨client, k, earlier ++ log⟩ : Session M Res).record e =
        after earlier (record e ⟨client, k, log⟩) :=
    fun k e => record_after earlier ⟨client, k, log⟩ e
  show tick methodDefinition ⟨client, stack, earlier ++ log⟩ = _
  unfold tick
  dsimp only
  split
  · rfl
  · rfl
  · rfl
  · exact congrArg some (hpush _ _)
  · rfl
  · by_cases hc : client.closed = true
    · rw [if_pos hc, if_pos hc]
      rfl
    · rw [if_neg hc, if_neg hc]
      exact congrArg some (hpush _ _)
  · rfl
  · by_cases hc : client.closed = true
    · rw [if_pos hc, if_pos hc]
      rfl
    · rw [if_neg hc, if_neg hc]
      exact congrArg some (hpush _ _)
  · rfl
  · exact congrArg some (onChunk_after earlier ⟨client, _, log⟩ methodDefinition _ _)
  · exact congrArg some (rawOnEnd_after earlier ⟨client, _, log⟩ _ _ _)

/-- **No step depends on what has been observed.** -/
theorem step_after (a : Action M Req) :
    step methodDefinition (s.after earlier) a =
      (step methodDefinition s a).map (after earlier) := by
  cases a with
  | call c =>
    simp only [step, stack_after]
    split <;> simp [call_after]
  | event e =>
    simp only [step, stack_after]
    split <;> simp [deliver_after]
  | returns =>
    simp only [step, stack_after]
    split <;> rfl
  | throws =>
    simp only [step, stack_after]
    split
    · simp [record, after]
    · rfl
  | tick => exact tick_after earlier s methodDefinition

end After

/-! ## Calls without effect -/

section NoEffect

variable [BrowserHeaders M] (methodDefinition : MethodDefinition Req Res)

/-- From `s` to `t` the client is the same, the transport has received no call, and whatever follows
is possible after `t` just when it is after `s`, with the same outcome. -/
structure NoEffect (s t : Session M Res) : Prop where
  client : t.client = s.client
  transport : transportCalls t.log = transportCalls s.log
  next : ∀ as : List (Action M Req),
    (exec (step methodDefinition) t as).map (Session.since t.log.length) =
      (exec (step methodDefinition) s as).map (Session.since s.log.length)

/-- The calls that need a request that has started. -/
def AppCall.isOperation : AppCall M Req → Bool
  | .send _ | .finishSend | .close => true
  | _ => false

/-- An operation that throws has no effect. -/
def ThrowsCleanly (s : Session M Res) : Action M Req → Prop
  | .call c => c.isOperation = true → ∀ e t, step methodDefinition s (.call c) = some t →
      t.log = s.log ++ [.threw e] → NoEffect methodDefinition s t
  | _ => True

/-- A first message that the guards of `send` let pass and that cannot be serialized. -/
def SpoilsFirstMessage (s : Session M Res) : Action M Req → Prop
  | .call (.send msg) => s.client.started = true ∧ s.client.closed = false ∧
      s.client.finishedSending = false ∧ s.client.sentFirstMessage = false ∧
      (methodDefinition.serializeBinary msg).isOk = false
  | _ => False

omit [BrowserHeaders M] in
instance (s : Session M Res) (a : Action M Req) :
    Decidable (SpoilsFirstMessage methodDefinition s a) :=
  match a with
  | .call (.send _) => inferInstanceAs (Decidable (_ ∧ _))
  | .call .onHeaders | .call .onMessage | .call .onEnd | .call (.start _) | .call .finishSend
  | .call .close | .event _ | .returns | .throws | .tick => .isFalse id

variable {methodDefinition}

/-- Only the client and the stack matter for what follows. -/
theorem since_exec (s : Session M Res) (log : List (Entry M Res)) (as : List (Action M Req)) :
    (exec (step methodDefinition) { s with log := log } as).map (Session.since log.length) =
      (exec (step methodDefinition) { s with log := [] } as).map (Session.since 0) := by
  have hlog : { s with log := log } = Session.after log { s with log := [] } := by
    simp [Session.after]
  rw [hlog, exec_map (step_after log · methodDefinition), Option.map_map]
  congr 1
  funext t
  simp [Session.since, Session.after]

/-- One more entry that is no call of the transport is no effect. -/
theorem NoEffect.of_record (s : Session M Res) {e : Entry M Res} (he : e.isTransport = false) :
    NoEffect methodDefinition s (s.record e) := by
  refine ⟨rfl, ?_, fun as => ?_⟩
  · rw [Session.log_record, transportCalls_append, transportCalls_of_not_isTransport he,
      List.append_nil]
  · exact (since_exec s (s.log ++ [e]) as).trans (since_exec s s.log as).symm

variable (methodDefinition) in
/-- **What an operation does**: a guard refuses it, or the transport gets a call, or it is a message
that cannot be serialized, and the flag is set all the same. -/
theorem operation_cases {c : AppCall M Req} (hc : c.isOperation = true) (s : Session M Res) :
    (∃ e, call methodDefinition s c = s.record (.threw e) ∧
        ¬ SpoilsFirstMessage methodDefinition s (.call c)) ∨
      (∃ x, (call methodDefinition s c).log = s.log ++ [.transport x] ∧
        ¬ SpoilsFirstMessage methodDefinition s (.call c)) ∨
      ∃ e, call methodDefinition s c =
          (s.modify fun client => { client with sentFirstMessage := true }).record (.threw e) ∧
        (SpoilsFirstMessage methodDefinition s (.call c) ↔ s.client.sentFirstMessage = false) := by
  cases c with
  | onHeaders => cases hc
  | onMessage => cases hc
  | onEnd => cases hc
  | start metadata => cases hc
  | finishSend =>
    simp only [call, finishSend]
    split
    · exact .inl ⟨_, rfl, id⟩
    split
    · exact .inl ⟨_, rfl, id⟩
    split
    · exact .inl ⟨_, rfl, id⟩
    · exact .inr (.inl ⟨_, rfl, id⟩)
  | close =>
    simp only [call, close]
    split
    · exact .inl ⟨_, rfl, id⟩
    split
    · exact .inr (.inl ⟨_, rfl, id⟩)
    · exact .inl ⟨_, rfl, id⟩
  | send msg =>
    simp only [call, send]
    by_cases hstarted : s.client.started = true
    swap
    · rw [if_pos hstarted]
      exact .inl ⟨_, rfl, fun hs => hstarted hs.1⟩
    rw [if_neg (not_not.2 hstarted)]
    by_cases hclosed : s.client.closed = true
    · rw [if_pos hclosed]
      exact .inl ⟨_, rfl, fun hs => by simp [hs.2.1] at hclosed⟩
    rw [if_neg hclosed]
    by_cases hfinished : s.client.finishedSending = true
    · rw [if_pos hfinished]
      exact .inl ⟨_, rfl, fun hs => by simp [hs.2.2.1] at hfinished⟩
    rw [if_neg hfinished]
    by_cases hsent : ¬methodDefinition.requestStream = true ∧ s.client.sentFirstMessage = true
    · rw [if_pos hsent]
      exact .inl ⟨_, rfl, fun hs => by simp [hs.2.2.2.1] at hsent⟩
    rw [if_neg hsent]
    rcases hser : methodDefinition.serializeBinary msg with e | bytes
    · rw [frameRequest, hser]
      refine .inr (.inr ⟨e, rfl, fun hs => hs.2.2.2.1, fun hs => ?_⟩)
      exact ⟨hstarted, by simpa using hclosed, by simpa using hfinished, hs, by rw [hser]; rfl⟩
    · rw [frameRequest, hser]
      refine .inr (.inl ⟨_, rfl, fun hs => ?_⟩)
      have hfail := hs.2.2.2.2
      rw [hser] at hfail
      cases hfail

/-- **Which operations throw without effect.** -/
theorem throwsCleanly_iff {s t : Session M Res} {a : Action M Req}
    (hstep : step methodDefinition s a = some t) :
    ThrowsCleanly methodDefinition s a ↔ ¬ SpoilsFirstMessage methodDefinition s a := by
  rcases step_inv hstep with ⟨c, rfl, ht⟩ | ⟨e, rfl, -⟩ | ⟨k, -, ⟨rfl, -⟩ | ⟨rfl, -⟩⟩ | ⟨rfl, -⟩
  rotate_left
  · exact iff_of_true trivial id
  · exact iff_of_true trivial id
  · exact iff_of_true trivial id
  · exact iff_of_true trivial id
  simp only [ThrowsCleanly, hstep, Option.some.injEq, forall_eq', ht]
  by_cases hc : c.isOperation = true
  swap
  · refine iff_of_true (fun h => absurd h hc) ?_
    cases c <;> first | exact id | exact absurd rfl hc
  simp only [hc, forall_const]
  rcases operation_cases methodDefinition hc s with
    ⟨e, hcall, hs⟩ | ⟨x, hlog, hs⟩ | ⟨e, hcall, hs⟩
  · refine iff_of_true (fun _ _ => ?_) hs
    rw [hcall]
    exact .of_record s rfl
  · refine iff_of_true (fun e he => ?_) hs
    rw [hlog] at he
    simp at he
  · rw [hs, hcall, Bool.not_eq_false]
    constructor
    · intro h
      exact (congrArg GrpcClient.sentFirstMessage (h e rfl).client).symm
    · intro hsent e' _
      have hsame : (s.modify fun client => { client with sentFirstMessage := true }) = s := by
        rcases s with ⟨client, stack, log⟩
        simp only [Session.modify]
        rw [← hsent]
      rw [hsame]
      exact .of_record s rfl

/-- **Calls that throw**: in every run, each call of `send`, `finishSend` or `close` that throws has
no effect if and only if no step of the run is a `send` that is the first to pass the guards and
whose message cannot be serialized. -/
theorem throwing_calls_exact {hasSlice : Bool} {as : List (Action M Req)} {t : Session M Res}
    (h : exec (step methodDefinition) (Session.new hasSlice) as = some t) :
    Along (step methodDefinition) (ThrowsCleanly methodDefinition) (Session.new hasSlice) as ↔
      Along (step methodDefinition) (fun s a => ¬ SpoilsFirstMessage methodDefinition s a)
        (Session.new hasSlice) as :=
  along_congr (fun _ _ _ hstep => throwsCleanly_iff hstep) h

end NoEffect

/-- A method with one request that can be serialized and one that cannot. -/
def fallibleMethod (requestStream : Bool) : MethodDefinition (Option Bytes) Bytes where
  requestStream := requestStream
  serializeBinary
    | some bytes => .ok bytes
    | none => .error (js "invalid message")
  deserializeBinary := .ok

/-- Calls that a guard refuses, and a message that cannot be serialized after the first one. -/
def refusedRun : List (Action HeaderFields (Option Bytes)) :=
  [.call .finishSend, .call (.start none), .call (.send (some [1])), .call (.send none),
    .call .close, .call .close]

theorem throwing_calls_exact_refused :
    Along (step (fallibleMethod true)) (ThrowsCleanly (fallibleMethod true))
      (Session.new true : Session HeaderFields Bytes) refusedRun := by
  obtain ⟨s, hs⟩ := Option.isSome_iff_exists.1 (by decide +kernel :
    (exec (step (fallibleMethod true)) (Session.new true : Session HeaderFields Bytes)
      refusedRun).isSome = true)
  exact (throwing_calls_exact hs).2 (by decide +kernel)

/-- A message that cannot be serialized, and then one that can. -/
def spoiledRun : List (Action HeaderFields (Option Bytes)) :=
  [.call (.start none), .call (.send none), .call (.send (some [1]))]

/-- The same calls without the one that throws. -/
def unspoiledRun : List (Action HeaderFields (Option Bytes)) :=
  [.call (.start none), .call (.send (some [1]))]

/-- The calls that the transport has received, and the exceptions thrown, after a run. -/
def outcome (as : List (Action HeaderFields (Option Bytes))) :
    Option (List (Entry HeaderFields Bytes)) :=
  (exec (step (fallibleMethod false)) (Session.new true) as).map fun s => s.log.drop 1

/-- **A failed `send` uses up the only message** of a method that does not stream its requests. -/
theorem failed_send_has_effect :
    outcome unspoiledRun = some [.transport (.sendMessage (frameBytes [1]))] ∧
      outcome spoiledRun = some [.threw (js "invalid message"),
        .threw (js "Message already sent for non-client-streaming method - cannot .send()")] ∧
      ¬ Along (step (fallibleMethod false)) (ThrowsCleanly (fallibleMethod false))
        (Session.new true : Session HeaderFields Bytes) spoiledRun := by
  refine ⟨by decide +kernel, by decide +kernel, fun h => ?_⟩
  obtain ⟨s, hs⟩ := Option.isSome_iff_exists.1 (by decide +kernel :
    (exec (step (fallibleMethod false)) (Session.new true : Session HeaderFields Bytes)
      spoiledRun).isSome = true)
  have hclean := (along_congr (fun _ _ _ hstep => throwsCleanly_iff hstep) hs).1 h
  exact absurd hclean (by decide +kernel)

end GrpcWeb.Client

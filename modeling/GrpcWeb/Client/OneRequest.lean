import GrpcWeb.Client.Transport
import GrpcWeb.Client.TransportCalls

/-!
# Calls that send one request

`unary` and `invoke` make a client, register callbacks with it, start it, send one request and
finish. Any of these calls of the client may throw, and the exception leaves the function:
`performs` makes them one after another, up to one that throws.

When none throws, the transport has been called three times (`requested_of_performs`), and it is
called no more afterwards but to cancel the request (`Requested.step`, `Requested.calls`).
-/

namespace GrpcWeb.Client

open Js

variable {M Req Res σ α : Type} [BrowserHeaders M]

/-! ## Calls one after another -/

/-- Calls of the client one after another, up to one that throws. -/
def performs (T : Transport M σ α) (methodDefinition : MethodDefinition Req Res) :
    List (AppCall M Req) → Exchange M Res σ → Option (Exchange M Res σ × Option JsString)
  | [], x => some (x, none)
  | c :: cs, x =>
    match x.step T methodDefinition (.client (.call c)) with
    | none => none
    | some y =>
      match newEntry x.session y.session with
      | some (.threw e) => some (y, some e)
      | _ => performs T methodDefinition cs y

variable {T : Transport M σ α} {methodDefinition : MethodDefinition Req Res}

theorem exec_of_performs {cs : List (AppCall M Req)} {x y : Exchange M Res σ}
    {thrown : Option JsString} (h : performs T methodDefinition cs x = some (y, thrown)) :
    ∃ ds, ds <+: cs ∧ (thrown = none → ds = cs) ∧
      exec (Exchange.step T methodDefinition) x (ds.map fun c => .client (.call c)) = some y := by
  induction cs generalizing x with
  | nil =>
    cases h
    exact ⟨[], List.prefix_refl _, fun _ => rfl, rfl⟩
  | cons c cs ih =>
    rw [performs] at h
    rcases hstep : x.step T methodDefinition (.client (.call c)) with _ | z
    · simp [hstep] at h
    · simp only [hstep] at h
      split at h
      · cases h
        exact ⟨[c], by simp, (fun ht => by cases ht), exec_cons.2 ⟨y, hstep, rfl⟩⟩
      · obtain ⟨ds, hds, hall, hrun⟩ := ih h
        exact ⟨c :: ds, (List.cons_prefix_cons.2 ⟨rfl, hds⟩), fun ht => by rw [hall ht],
          exec_cons.2 ⟨z, hstep, hrun⟩⟩

/-- A call that is made in a step of the exchange. -/
theorem session_of_call {c : AppCall M Req} {x z : Exchange M Res σ}
    (h : x.step T methodDefinition (.client (.call c)) = some z) :
    z.session = call methodDefinition x.session c := by
  obtain ⟨b, s, heq, hb, hs, hz⟩ | ⟨_, _, heq, -⟩ | ⟨heq, -⟩ := Exchange.step_inv h
  · cases heq
    rw [Exchange.session_of_follow hs hb hz]
    obtain ⟨_, ⟨⟩, hcall⟩ | ⟨_, ⟨⟩, _⟩ | ⟨_, _, ⟨⟨⟩, _⟩ | ⟨⟨⟩, _⟩⟩ | ⟨⟨⟩, _⟩ := Client.step_inv hs
    exact hcall
  · cases heq
  · cases heq

/-- **Calls of which none throws.** -/
theorem performs_cons {c : AppCall M Req} {cs : List (AppCall M Req)} {x y : Exchange M Res σ}
    (h : performs T methodDefinition (c :: cs) x = some (y, none)) :
    ∃ z, z.session = call methodDefinition x.session c ∧
      (∀ e, newEntry x.session z.session ≠ some (.threw e)) ∧
      performs T methodDefinition cs z = some (y, none) := by
  rw [performs] at h
  rcases hstep : x.step T methodDefinition (.client (.call c)) with _ | z
  · simp [hstep] at h
  · simp only [hstep] at h
    split at h
    · cases h
    · rename_i hthrew
      exact ⟨z, session_of_call hstep, hthrew, h⟩

/-! ## The request -/

/-- The headers that `start` makes of the metadata. -/
def requestHeaders (metadata : Option (HeadersInit M)) : Except JsString M :=
  (BrowserHeaders.construct (startInit metadata)).map fun headers =>
    BrowserHeaders.set (BrowserHeaders.set headers (js "content-type")
      (js "application/grpc-web+proto")) (js "x-grpc-web") (js "1")

/-- A client that has not been started. -/
structure Fresh (s : Session M Res) : Prop where
  started : s.client.started = false
  closed : s.client.closed = false
  log : transportCalls s.log = []

omit [BrowserHeaders M] in
theorem fresh_new (hasSlice : Bool) : Fresh (Session.new hasSlice : Session M Res) :=
  ⟨rfl, rfl, rfl⟩

/-- A callback is registered. -/
theorem Fresh.register {s : Session M Res} (h : Fresh s) {c : AppCall M Req}
    (hc : c.drives = false) : Fresh (call methodDefinition s c) := by
  cases c with
  | onHeaders | onMessage | onEnd => exact ⟨h.started, h.closed, h.log⟩
  | start | send | finishSend | close => cases hc

/-- A request that has been sent: the transport has been called three times. -/
structure Requested (headers : M) (msgBytes : Bytes) (s : Session M Res) : Prop where
  driven : Driven false s [msgBytes]
  sent : [.start headers, .sendMessage msgBytes, .finishSend] <+: transportCalls s.log

/-- `start` of a fresh client, when it throws nothing. -/
theorem start_of_not_threw {s : Session M Res} (hs : Fresh s) {metadata : Option (HeadersInit M)}
    (h : ∀ e, newEntry s (start metadata s) ≠ some (.threw e)) :
    ∃ headers, requestHeaders metadata = .ok headers ∧ start metadata s =
      (s.modify fun c => { c with started := true }).record (.transport (.start headers)) := by
  rcases hm : requestHeaders metadata with e | headers
  · have hstart : start metadata s =
        (s.modify fun c => { c with started := true }).record (.threw e) := by
      unfold start
      unfold requestHeaders at hm
      rw [if_neg (by simp [hs.started])]
      rcases metadata with _ | ((_ | ⟨c, text⟩) | fields | m) <;> simp only [startInit] at hm ⊢
      all_goals
        split <;> rename_i hc <;> simp [hc, Except.map] at hm; rw [hm]
    rw [hstart] at h
    exact absurd newEntry_append (h e)
  · refine ⟨headers, rfl, ?_⟩
    unfold start
    unfold requestHeaders at hm
    rw [if_neg (by simp [hs.started])]
    rcases metadata with _ | ((_ | ⟨c, text⟩) | fields | m) <;> simp only [startInit] at hm ⊢
    all_goals
      split <;> rename_i hc <;> simp [hc, Except.map] at hm; rw [hm]

omit [BrowserHeaders M] in
/-- `send` that throws nothing. -/
theorem send_of_not_threw {s : Session M Res} {request : Req}
    (h : ∀ e, newEntry s (send methodDefinition request s) ≠ some (.threw e)) :
    ∃ msgBytes, frameRequest methodDefinition request = .ok msgBytes ∧
      send methodDefinition request s = (s.modify fun c => { c with sentFirstMessage := true }).record
        (.transport (.sendMessage msgBytes)) := by
  unfold send at h ⊢
  split at h
  · exact absurd newEntry_append (h _)
  rename_i hstarted
  split at h
  · exact absurd newEntry_append (h _)
  rename_i hclosed
  split at h
  · exact absurd newEntry_append (h _)
  rename_i hfinished
  split at h
  · exact absurd newEntry_append (h _)
  rename_i hsingle
  rw [if_neg hstarted, if_neg hclosed, if_neg hfinished, if_neg hsingle]
  rcases hframe : frameRequest methodDefinition request with e | msgBytes
  · simp only [hframe] at h
    exact absurd newEntry_append (h e)
  · exact ⟨msgBytes, rfl, rfl⟩

omit [BrowserHeaders M] in
/-- `finishSend` that throws nothing. -/
theorem finishSend_of_not_threw {s : Session M Res}
    (h : ∀ e, newEntry s (finishSend s) ≠ some (.threw e)) :
    finishSend s = (s.modify fun c => { c with finishedSending := true }).record
      (.transport .finishSend) := by
  unfold finishSend at h ⊢
  split at h
  · exact absurd newEntry_append (h _)
  rename_i hstarted
  split at h
  · exact absurd newEntry_append (h _)
  rename_i hclosed
  split at h
  · exact absurd newEntry_append (h _)
  rename_i hfinished
  rw [if_neg hstarted, if_neg hclosed, if_neg hfinished]

/-- **Callbacks, and one request**: when no call throws, the transport has been started with the
headers of the metadata, given the frame of the request, and told that this was all. -/
theorem requested_of_performs {registrations : List (AppCall M Req)}
    (hregistrations : ∀ c ∈ registrations, c.drives = false)
    {metadata : Option (HeadersInit M)} {request : Req} {x y : Exchange M Res σ}
    (hx : Fresh x.session) (h : performs T methodDefinition
      (registrations ++ [.start metadata, .send request, .finishSend]) x = some (y, none)) :
    ∃ headers msgBytes, requestHeaders metadata = .ok headers ∧
      frameRequest methodDefinition request = .ok msgBytes ∧
      Requested headers msgBytes y.session := by
  induction registrations generalizing x with
  | nil =>
    obtain ⟨x₁, h₁, hthrew₁, h⟩ := performs_cons h
    obtain ⟨x₂, h₂, hthrew₂, h⟩ := performs_cons h
    obtain ⟨x₃, h₃, hthrew₃, h⟩ := performs_cons h
    cases h
    rw [h₁] at hthrew₁
    rw [h₂] at hthrew₂
    rw [h₃] at hthrew₃
    obtain ⟨headers, hheaders, hstart⟩ := start_of_not_threw hx hthrew₁
    obtain ⟨msgBytes, hframe, hsend⟩ := send_of_not_threw hthrew₂
    have hfinish := finishSend_of_not_threw hthrew₃
    replace hstart := h₁.trans hstart
    replace hsend := h₂.trans hsend
    replace hfinish := h₃.trans hfinish
    have hcalls : transportCalls y.session.log =
        [.start headers, .sendMessage msgBytes, .finishSend] := by
      simp only [hfinish, hsend, hstart, Session.log_record, Session.log_modify,
        transportCalls_append, hx.log]
      rfl
    refine ⟨headers, msgBytes, hheaders, hframe, ⟨?_, ?_, ?_, fun _ => le_rfl⟩,
      hcalls ▸ List.prefix_refl _⟩
    · exact fun hfresh => by simp [hfinish, hsend, hstart] at hfresh
    · refine fun _ => ⟨headers, ?_⟩
      rw [hcalls]
      simp [hfinish, hsend, hstart, hx.closed]
    · exact fun hfirst => by simp [hfinish, hsend] at hfirst
  | cons c registrations ih =>
    obtain ⟨hc, hregistrations⟩ := List.forall_mem_cons.1 hregistrations
    obtain ⟨z, hz, -, h⟩ := performs_cons h
    exact ih hregistrations (hz ▸ hx.register hc) h

/-! ## What follows -/

omit [BrowserHeaders M] in
/-- The transport is called no more but to cancel the request. -/
theorem Requested.calls {headers : M} {msgBytes : Bytes} {s : Session M Res}
    (h : Requested headers msgBytes s) :
    transportCalls s.log = [.start headers, .sendMessage msgBytes, .finishSend] ++
      if s.client.closed then [.cancel] else [] := by
  obtain ⟨rest, hrest⟩ := h.sent
  have hstarted : s.client.started = true := by
    by_contra hfresh
    cases (h.driven.fresh (Bool.not_eq_true _ ▸ hfresh)).2.1
  obtain ⟨m, hcalls⟩ := h.driven.driven hstarted
  rw [← hrest] at hcalls ⊢
  cases hfinished : s.client.finishedSending with
  | false => cases hclosed : s.client.closed <;> simp [hfinished, hclosed] at hcalls
  | true => cases hclosed : s.client.closed <;> simp [hfinished, hclosed] at hcalls ⊢ <;> exact hcalls.2

/-- **Nothing else is sent afterwards**, whatever the application and the transport do. -/
theorem Requested.step {headers : M} {msgBytes : Bytes} {s t : Session M Res} {a : Action M Req}
    (hsingle : methodDefinition.requestStream = false) (h : Requested headers msgBytes s)
    (hstep : Client.step methodDefinition s a = some t) : Requested headers msgBytes t := by
  have hstarted : s.client.started = true := by
    by_contra hfresh
    cases (h.driven.fresh (Bool.not_eq_true _ ▸ hfresh)).2.1
  have hok : StartsWell s a := by
    rcases a with (_ | _ | _ | _ | _ | _ | _) | _ | _ | _ | _ <;> try trivial
    exact fun hfresh => by simp [hstarted] at hfresh
  have hdriven := h.driven
  rw [← hsingle] at hdriven
  obtain ⟨sent, -, hdriven⟩ := driven_step hdriven hok hstep
  have hlength := hdriven.single hsingle
  have hnone : sent = [] := by
    cases sent with
    | nil => rfl
    | cons b sent => simp at hlength
  rw [hnone, List.append_nil, hsingle] at hdriven
  refine ⟨hdriven, ?_⟩
  rcases Exchange.log_of_step hstep with hlog | ⟨e, hlog⟩
  · exact hlog ▸ h.sent
  · rw [hlog, transportCalls_append]
    exact h.sent.trans (List.prefix_append _ _)

theorem Requested.exec {headers : M} {msgBytes : Bytes} {x y : Exchange M Res σ}
    {as : List (ExchangeAction M Req α)} (hsingle : methodDefinition.requestStream = false)
    (hx : Requested headers msgBytes x.session)
    (h : exec (Exchange.step T methodDefinition) x as = some y) :
    Requested headers msgBytes y.session :=
  (Exchange.reaches_session h).invariant (fun _ _ _ hs _ hstep => hs.step hsingle hstep) hx

end GrpcWeb.Client

import GrpcWeb.Client.Status
import GrpcWeb.Client.TransportCalls
import GrpcWeb.Foundations.Simulation

/-!
# A client and its transport

`GrpcClient` and a transport drive one another: the client calls `start`, `sendMessage`,
`finishSend` and `cancel` of the transport, which calls `onHeaders`, `onChunk` and `onEnd` of the
client, and the callbacks of the application may call the client while it handles such an event. A
`Transport` is a machine with these calls and with moves of its own; an `Exchange` is a client on a
transport, and its `step` interleaves the application, the client and the transport as one thread
does: the transport moves when nothing else runs, and goes on when the client has handled the event
that it was given.

Of the calls only `cancel` may deliver an event before it returns, as the XHR transport does where
it aborts. A transport that delivers one inside `start`, `sendMessage` or `finishSend`, like the fake
transport of the tests, is no `Transport`.

* `Exchange.reaches_session` and `Exchange.reaches_transport`: a run of the exchange is a run of the
  client and a run of the transport.
* `Exchange.receives_events`: on any transport, a listener has seen what the events of the transport
  amount to.
* `exchange_ends_once`: a call ends at most once, and has ended once the transport has.
-/

namespace GrpcWeb.Client

open Js

variable {M Req Res σ α : Type}

/-! ## Transports -/

/-- A transport, as the client meets it. A move may deliver one event, and so may the return of the
client from the last one; `cancel` may deliver one before it returns. A call that throws leaves the
transport as it is; one that is not described has no result. -/
structure Transport (M σ α : Type) where
  call : σ → TransportCall M → Option σ
  onCancel : σ → Option (TransportEvent M)
  move : σ → α → Option (σ × Option (TransportEvent M))
  /-- The client has handled the event. -/
  returns : σ → σ × Option (TransportEvent M)
  /-- The client has thrown an exception while it handled the event. -/
  throws : JsString → σ → σ

/-- What happens to a transport. -/
inductive TransportAction (M α : Type)
  | call (c : TransportCall M)
  | move (a : α)
  | returns
  | throws (e : JsString)

namespace Transport

/-- The event that a call delivers before it returns. -/
def answer (T : Transport M σ α) (t : σ) : TransportCall M → Option (TransportEvent M)
  | .cancel => T.onCancel t
  | _ => none

def step (T : Transport M σ α) (t : σ) :
    TransportAction M α → Option (σ × Option (TransportEvent M))
  | .call c => (T.call t c).map fun u => (u, T.answer t c)
  | .move a => T.move t a
  | .returns => some (T.returns t)
  | .throws e => some (T.throws e t, none)

/-- The transport by itself: its state and the events that it has delivered. -/
abbrev record (T : Transport M σ α) :
    σ × List (TransportEvent M) → TransportAction M α → Option (σ × List (TransportEvent M)) :=
  recording T.step

end Transport

/-! ## Exchanges -/

/-- A client on its transport, and the events that the transport has delivered. -/
structure Exchange (M Res σ : Type) where
  session : Session M Res
  transport : σ
  /-- The client is handling an event of the transport. -/
  delivering : Bool := false
  events : List (TransportEvent M) := []

/-- The entry that a step of the client has added to its log. -/
def newEntry (s t : Session M Res) : Option (Entry M Res) := (t.log.drop s.log.length).head?

theorem newEntry_append {s : Session M Res} {client : GrpcClient M} {stack : List (Task M Res)}
    {e : Entry M Res} :
    newEntry s { client := client, stack := stack, log := s.log ++ [e] } = some e := by
  simp [newEntry]

theorem newEntry_eq {s t : Session M Res} (h : t.log = s.log) : newEntry s t = none := by
  simp [newEntry, h]

/-- The moves of an exchange. -/
inductive ExchangeAction (M Req α : Type)
  /-- the application calls the client or returns to it, or the client goes on -/
  | client (b : Action M Req)
  /-- the transport moves by itself -/
  | move (a : α)
  /-- the transport goes on after the client has handled its event -/
  | handled

/-- A callback that stands alone in its loop runs. -/
def callbackRun : List (ExchangeAction M Req α) := [.client .tick, .client .returns, .client .tick]

/-- A chunk of one message is handled. -/
def messageRun : List (ExchangeAction M Req α) :=
  .client .tick :: callbackRun ++ [.client .tick, .handled]

/-- A chunk of one trailers frame is handled. -/
def trailersRun : List (ExchangeAction M Req α) := [.client .tick, .client .tick, .handled]

/-- A call with one message is made. -/
def callRun (msg : Req) : List (ExchangeAction M Req α) :=
  [.client (.call (.start none)), .client (.call (.send msg)), .client (.call .finishSend)]

/-- What can happen to the transport in a run of the exchange: it moves as the run says, and is
cancelled only when the application closes the client. -/
def TransportAction.Within (as : List (ExchangeAction M Req α)) : TransportAction M α → Prop
  | .call .cancel => .client (.call .close) ∈ as
  | .move a => .move a ∈ as
  | _ => True

namespace Exchange

variable [BrowserHeaders M]

/-- The transport has come to `r.1`, and delivers `r.2`. -/
def deliver (r : σ × Option (TransportEvent M)) (x : Exchange M Res σ) : Exchange M Res σ :=
  match r.2 with
  | none => { x with transport := r.1, delivering := false }
  | some e =>
    { session := Client.deliver x.session e, transport := r.1, delivering := true,
      events := x.events ++ [e] }

/-- The client has come to `s` by a call of the transport, which has come to `t` and delivers `e`
before it returns. -/
def answer (s : Session M Res) (t : σ) (e : Option (TransportEvent M)) (x : Exchange M Res σ) :
    Exchange M Res σ :=
  match e with
  | none => { x with session := s, transport := t }
  | some e => { x with session := Client.deliver s e, transport := t, events := x.events ++ [e] }

/-- The client has come to `s`; a call of the transport, and an exception that left the handler of
an event, go on to the transport. -/
def follow (T : Transport M σ α) (s : Session M Res) (x : Exchange M Res σ) :
    Option (Exchange M Res σ) :=
  match newEntry x.session s with
  | some (.transport c) =>
    (T.call x.transport c).map fun t => x.answer s t (T.answer x.transport c)
  | some (.uncaught e) =>
    some { x with session := s, transport := T.throws e x.transport, delivering := false }
  | _ => some { x with session := s }

def step (T : Transport M σ α) (methodDefinition : MethodDefinition Req Res)
    (x : Exchange M Res σ) : ExchangeAction M Req α → Option (Exchange M Res σ)
  | .client (.event _) => none
  | .client b =>
    if x.session.stack.isEmpty && x.delivering then none
    else (Client.step methodDefinition x.session b).bind fun s => x.follow T s
  | .move a =>
    if x.session.stack.isEmpty && !x.delivering then
      (T.move x.transport a).map fun r => x.deliver r
    else none
  | .handled =>
    if x.session.stack.isEmpty && x.delivering then some (x.deliver (T.returns x.transport))
    else none

/-! ## What a step can be -/

variable {T : Transport M σ α} {methodDefinition : MethodDefinition Req Res}
  {x y : Exchange M Res σ} {s : Session M Res}

/-- **A step** is one of the client, a move of the transport when nothing else runs, or the return
of the client from an event. -/
theorem step_inv {a : ExchangeAction M Req α} (h : x.step T methodDefinition a = some y) :
    (∃ b s, a = .client b ∧ b.event? = none ∧ Client.step methodDefinition x.session b = some s ∧
      x.follow T s = some y) ∨
    (∃ m r, a = .move m ∧ x.session.stack = [] ∧ T.move x.transport m = some r ∧
      y = x.deliver r) ∨
    (a = .handled ∧ x.session.stack = [] ∧ y = x.deliver (T.returns x.transport)) := by
  cases a with
  | client b =>
    left
    cases b with
    | event e => cases h
    | _ =>
      simp only [step] at h
      split at h
      · cases h
      obtain ⟨s, hs, hy⟩ := Option.bind_eq_some_iff.1 h
      exact ⟨_, s, rfl, rfl, hs, hy⟩
  | move m =>
    simp only [step] at h
    split at h
    · rename_i hidle
      obtain ⟨r, hr, rfl⟩ := Option.map_eq_some_iff.1 h
      exact .inr (.inl ⟨m, r, rfl, by simp_all, hr, rfl⟩)
    · cases h
  | handled =>
    simp only [step] at h
    split at h
    · rename_i hidle
      cases h
      exact .inr (.inr ⟨rfl, by simp_all, rfl⟩)
    · cases h

/-- **Only `close` cancels the transport**, and it has closed the client before. -/
theorem newEntry_cancel {b : Action M Req} {t : Session M Res}
    (h : Client.step methodDefinition s b = some t) (hb : b.event? = none)
    (hn : newEntry s t = some (.transport .cancel)) :
    b = .call .close ∧ t.client.closed = true := by
  rcases Client.step_inv h with
    ⟨c, rfl, rfl⟩ | ⟨e, rfl, rfl⟩ | ⟨k, hk, ⟨rfl, rfl⟩ | ⟨rfl, rfl⟩⟩ | ⟨rfl, ht⟩
  · rcases c.kind with hc | hc | rfl
    · obtain ⟨client, e, heq, -, he⟩ := call_request methodDefinition hc s
      rw [heq, newEntry_append] at hn
      cases hn
      cases he
    · cases c with
      | onHeaders => simp [call, newEntry] at hn
      | onMessage => simp [call, newEntry] at hn
      | onEnd => simp [call, newEntry] at hn
      | start metadata => cases hc
      | send msg => cases hc
      | finishSend => cases hc
      | close => cases hc
    · rcases call_close methodDefinition s with ⟨e, heq, he⟩ | ⟨-, -, heq⟩
      · rw [heq, newEntry_append] at hn
        cases hn
        cases he
      · exact ⟨rfl, by rw [heq]; rfl⟩
  · cases hb
  · simp [newEntry] at hn
  · rw [newEntry_append] at hn
    cases hn
  · rcases (tick_grows ht).2 with hlog | ⟨e, he, hlog⟩
    · rw [newEntry_eq hlog] at hn
      cases hn
    · simp only [newEntry, hlog, List.drop_left, List.head?_cons, Option.some.injEq] at hn
      exact absurd hn he

/-- **What follows a step of the client**: nothing, a call of the transport, or an exception. -/
theorem follow_inv {b : Action M Req} (hs : Client.step methodDefinition x.session b = some s)
    (hb : b.event? = none) (h : x.follow T s = some y) :
    y = { x with session := s } ∨
    (∃ c t, T.call x.transport c = some t ∧ (c = .cancel → b = .call .close) ∧
      y = { x with
        session := s, transport := t, events := x.events ++ (T.answer x.transport c).toList }) ∨
    ∃ e, y = { x with session := s, transport := T.throws e x.transport, delivering := false } := by
  unfold follow at h
  split at h
  · rename_i c hn
    obtain ⟨t, ht, rfl⟩ := Option.map_eq_some_iff.1 h
    refine .inr (.inl ⟨c, t, ht, fun hc => (newEntry_cancel hs hb (hc ▸ hn)).1, ?_⟩)
    unfold answer
    split
    · rename_i hnone
      simp [hnone]
    · rename_i e he
      have hc : c = .cancel := by
        cases c <;> first | rfl | cases he
      have hclosed := (newEntry_cancel hs hb (hc ▸ hn)).2
      rw [deliver_of_closed hclosed, he]
      rfl
  · cases h
    exact .inr (.inr ⟨_, rfl⟩)
  · cases h
    exact .inl rfl

/-! ## What a delivery does -/

omit [BrowserHeaders M] in
theorem transport_of_deliver [BrowserHeaders M] (r : σ × Option (TransportEvent M))
    (x : Exchange M Res σ) :
    (x.deliver r).transport = r.1 ∧ (x.deliver r).events = x.events ++ r.2.toList := by
  obtain ⟨t, e⟩ := r
  cases e with
  | none => exact ⟨rfl, (List.append_nil _).symm⟩
  | some e => exact ⟨rfl, rfl⟩

/-- An event reaches a client that has nothing outstanding. -/
theorem session_of_deliver (methodDefinition : MethodDefinition Req Res)
    (hx : x.session.stack = []) (r : σ × Option (TransportEvent M)) :
    (r.2 = none ∧ (x.deliver r).session = x.session) ∨
    ∃ e, r.2 = some e ∧
      Client.step methodDefinition x.session (.event e) = some (x.deliver r).session := by
  obtain ⟨t, e⟩ := r
  cases e with
  | none => exact .inl ⟨rfl, rfl⟩
  | some e =>
    refine .inr ⟨e, rfl, ?_⟩
    rw [Client.step, hx]
    rfl

/-! ## The parts of an exchange -/

variable {as : List (ExchangeAction M Req α)}

theorem reaches_of_deliver {adm : TransportAction M α → Prop} {b : TransportAction M α} (hb : adm b)
    {r : σ × Option (TransportEvent M)} (hr : T.step x.transport b = some r) :
    Reaches T.record adm (x.transport, x.events)
      ((x.deliver r).transport, (x.deliver r).events) := by
  obtain ⟨htransport, hevents⟩ := x.transport_of_deliver r
  rw [htransport, hevents]
  exact .single hb (recording_eq_some.2 ⟨r.2, hr, rfl⟩)

omit [BrowserHeaders M] in
theorem reaches_of_throws {adm : TransportAction M α → Prop} {e : JsString}
    (he : adm (.throws e)) :
    Reaches T.record adm (x.transport, x.events) (T.throws e x.transport, x.events) :=
  .single he (recording_eq_some.2 ⟨none, rfl, (List.append_nil _).symm⟩)

/-- A step of the exchange takes its transport one step, or leaves it alone. -/
theorem reaches_transport_step {a : ExchangeAction M Req α} (ha : a ∈ as)
    (h : x.step T methodDefinition a = some y) :
    Reaches T.record (TransportAction.Within as) (x.transport, x.events)
      (y.transport, y.events) := by
  rcases step_inv h with
    ⟨b, s, rfl, hb, hs, hy⟩ | ⟨m, r, rfl, -, hr, rfl⟩ | ⟨rfl, -, rfl⟩
  · rcases follow_inv hs hb hy with rfl | ⟨c, t, ht, hc, rfl⟩ | ⟨e, rfl⟩
    · exact .refl _
    · have hwithin : (TransportAction.call c : TransportAction M α).Within as := by
        cases c with
        | cancel =>
          obtain rfl := hc rfl
          exact ha
        | _ => trivial
      refine .single hwithin (recording_eq_some.2 ⟨T.answer x.transport c, ?_, rfl⟩)
      rw [Transport.step, ht]
      rfl
    · exact reaches_of_throws trivial
  · exact reaches_of_deliver (b := .move m) ha hr
  · exact reaches_of_deliver (b := .returns) trivial rfl

/-- **The transport of an exchange** is in a run of the transport by itself. -/
theorem reaches_transport (h : exec (step T methodDefinition) x as = some y) :
    Reaches T.record (TransportAction.Within as) (x.transport, x.events)
      (y.transport, y.events) :=
  exec_projects (f := fun x => (x.transport, x.events))
    (fun _ _ _ ha hstep => reaches_transport_step ha hstep) along_mem h

theorem session_of_follow {b : Action M Req} (hs : Client.step methodDefinition x.session b = some s)
    (hb : b.event? = none) (h : x.follow T s = some y) : y.session = s := by
  rcases follow_inv hs hb h with rfl | ⟨c, t, -, -, rfl⟩ | ⟨e, rfl⟩ <;> rfl

theorem reaches_session_step {a : ExchangeAction M Req α} (ha : a ∈ as)
    (h : x.step T methodDefinition a = some y) :
    Reaches (Client.step methodDefinition) (fun b => b = .call .close → .client b ∈ as) x.session
      y.session := by
  rcases step_inv h with
    ⟨b, s, rfl, hb, hs, hy⟩ | ⟨m, r, rfl, hx, -, rfl⟩ | ⟨rfl, hx, rfl⟩
  · rw [session_of_follow hs hb hy]
    exact .single (fun _ => ha) hs
  all_goals
    rcases session_of_deliver methodDefinition hx _ with ⟨-, hsame⟩ | ⟨e, -, hstep⟩
    · rw [hsame]
      exact .refl _
    · exact .single (b := .event e) (fun hb => by cases hb) hstep

/-- **The client of an exchange** is in a run of the client by itself. -/
theorem reaches_session (h : exec (step T methodDefinition) x as = some y) :
    Reaches (Client.step methodDefinition) (fun b => b = .call .close → .client b ∈ as) x.session
      y.session :=
  exec_projects (f := Exchange.session) (fun _ _ _ ha hstep => reaches_session_step ha hstep)
    along_mem h

/-! ## The calls -/

/-- A step of the client writes at most one entry. -/
theorem log_of_step {s t : Session M Res} {b : Action M Req}
    (h : Client.step methodDefinition s b = some t) : t.log = s.log ∨ ∃ e, t.log = s.log ++ [e] := by
  rcases Client.step_inv h with
    ⟨c, rfl, rfl⟩ | ⟨e, rfl, rfl⟩ | ⟨k, -, ⟨-, rfl⟩ | ⟨-, rfl⟩⟩ | ⟨-, ht⟩
  · rcases c.kind with hc | hc | rfl
    · obtain ⟨client, e, heq, -⟩ := call_request methodDefinition hc s
      exact .inr ⟨e, by rw [heq]⟩
    · cases c with
      | onHeaders | onMessage | onEnd => exact .inl rfl
      | _ => cases hc
    · rcases call_close methodDefinition s with ⟨e, heq, -⟩ | ⟨-, -, heq⟩
      · exact .inr ⟨e, by rw [heq]⟩
      · exact .inr ⟨_, by rw [heq]; rfl⟩
  · exact .inl (deliver_grows s e).2
  · exact .inl rfl
  · exact .inr ⟨_, rfl⟩
  · rcases (tick_grows ht).2 with hlog | ⟨e, -, hlog⟩
    · exact .inl hlog
    · exact .inr ⟨e, hlog⟩

/-- The state of a transport stays in a relation to the calls that it has received. -/
structure Keeps (T : Transport M σ α) (P : σ → List (TransportCall M) → Prop) : Prop where
  call : ∀ {t cs c u}, P t cs → T.call t c = some u → P u (cs ++ [c])
  move : ∀ {t cs a r}, P t cs → T.move t a = some r → P r.1 cs
  returns : ∀ {t cs}, P t cs → P (T.returns t).1 cs
  throws : ∀ {t cs} e, P t cs → P (T.throws e t) cs

/-- **The calls that a transport has received** are those that the client has made. -/
theorem Keeps.step {P : σ → List (TransportCall M) → Prop} (hT : Keeps T P)
    (hx : P x.transport (transportCalls x.session.log)) {a : ExchangeAction M Req α}
    (h : x.step T methodDefinition a = some y) :
    P y.transport (transportCalls y.session.log) := by
  have hdeliver (hidle : x.session.stack = []) (r : σ × Option (TransportEvent M))
      (hr : P r.1 (transportCalls x.session.log)) :
      P (x.deliver r).transport (transportCalls (x.deliver r).session.log) := by
    rw [(x.transport_of_deliver r).1]
    rcases session_of_deliver methodDefinition hidle r with ⟨-, hsame⟩ | ⟨e, -, hstep⟩
    · rwa [hsame]
    · obtain ⟨_, ⟨⟩, _⟩ | ⟨_, ⟨⟩, hs⟩ | ⟨_, _, ⟨⟨⟩, _⟩ | ⟨⟨⟩, _⟩⟩ | ⟨⟨⟩, _⟩ :=
        Client.step_inv hstep
      rwa [hs, (deliver_grows _ _).2]
  rcases step_inv h with
    ⟨b, s, rfl, hb, hs, hy⟩ | ⟨m, r, rfl, hidle, hr, rfl⟩ | ⟨rfl, hidle, rfl⟩
  · rw [session_of_follow hs hb hy]
    unfold follow at hy
    rcases log_of_step hs with hlog | ⟨e, hlog⟩
    · rw [newEntry_eq hlog] at hy
      cases hy
      rwa [hlog]
    · have hnew : newEntry x.session s = some e := by simp [newEntry, hlog]
      rw [hnew] at hy
      rw [hlog, transportCalls_append]
      cases e with
      | transport c =>
        obtain ⟨t, ht, rfl⟩ := Option.map_eq_some_iff.1 hy
        have htransport : (x.answer s t (T.answer x.transport c)).transport = t := by
          cases T.answer x.transport c <;> rfl
        rw [htransport]
        exact hT.call hx ht
      | uncaught e =>
        cases hy
        exact (List.append_nil (transportCalls x.session.log)).symm ▸ hT.throws e hx
      | _ =>
        cases hy
        exact (List.append_nil (transportCalls x.session.log)).symm ▸ hx
  · exact hdeliver hidle r (hT.move hx hr)
  · exact hdeliver hidle _ (hT.returns hx)

/-- The same along a run. -/
theorem Keeps.exec {P : σ → List (TransportCall M) → Prop} (hT : Keeps T P)
    (hx : P x.transport (transportCalls x.session.log))
    (h : GrpcWeb.exec (Exchange.step T methodDefinition) x as = some y) :
    P y.transport (transportCalls y.session.log) :=
  exec_preserves (P := fun x : Exchange M Res σ => P x.transport (transportCalls x.session.log))
    (fun _ _ _ hx hstep => hT.step hx hstep) hx h

/-! ## What the application is shown -/

/-- The listener has seen, or will have when nothing is outstanding, what the events of the
transport amount to. -/
structure Faithful (methodDefinition : MethodDefinition Req Res) (l : Listener)
    (x : Exchange M Res σ) : Prop where
  listening : Listening l x.session
  outcome : x.session.outcome methodDefinition l = receive methodDefinition x.events

theorem Faithful.deliver {l : Listener} (h : Faithful methodDefinition l x)
    (hx : x.session.stack = []) (r : σ × Option (TransportEvent M)) :
    Faithful methodDefinition l (x.deliver r) := by
  obtain ⟨-, hevents⟩ := x.transport_of_deliver r
  rcases session_of_deliver methodDefinition hx r with ⟨hr, hsame⟩ | ⟨e, hr, hstep⟩
  · refine ⟨hsame ▸ h.listening, ?_⟩
    rw [hsame, hevents, hr, Option.toList_none, List.append_nil]
    exact h.outcome
  · refine ⟨h.listening.step (a := .event e) hx hstep, ?_⟩
    rw [outcome_step (a := .event e) h.listening hx hstep, hevents, hr, Option.toList_some,
      receive_concat, h.outcome]
    rfl

theorem Faithful.step {l : Listener} (h : Faithful methodDefinition l x)
    {a : ExchangeAction M Req α} (ha : a ≠ .client (.call .close))
    (hstep : x.step T methodDefinition a = some y) : Faithful methodDefinition l y := by
  rcases step_inv hstep with
    ⟨b, s, rfl, hb, hs, hy⟩ | ⟨m, r, rfl, hx, -, rfl⟩ | ⟨rfl, hx, rfl⟩
  · have hne : b ≠ .call .close := fun hb => ha (hb ▸ rfl)
    have hcalm : Calm x.session b := by
      cases b with
      | call c =>
        cases c with
        | close => exact absurd rfl hne
        | _ => trivial
      | event e => cases hb
      | _ => trivial
    have hevents : y.events = x.events := by
      rcases follow_inv hs hb hy with rfl | ⟨c, t, -, hc, rfl⟩ | ⟨e, rfl⟩
      · rfl
      · cases c with
        | cancel => exact absurd (hc rfl) hne
        | _ => exact List.append_nil _
      · rfl
    refine ⟨session_of_follow hs hb hy ▸ h.listening.step hcalm hs, ?_⟩
    rw [session_of_follow hs hb hy, hevents, outcome_step h.listening hcalm hs, hb]
    exact h.outcome
  · exact h.deliver hx r
  · exact h.deliver hx _

theorem faithful_exec {l : Listener} (hs : Awaiting l x.session) (hx : x.events = [])
    (hclose : .client (.call .close) ∉ as) (h : exec (step T methodDefinition) x as = some y) :
    Faithful methodDefinition l y := by
  have hstart : Faithful methodDefinition l x := by
    refine ⟨hs.listening, ?_⟩
    rw [Session.outcome, hs.stack, hx, List.foldl_nil, hs.reception]
    rfl
  exact exec_preserves_along
    (fun _ a _ hP (ha : a ∈ as) hstep => hP.step (ne_of_mem_of_not_mem ha hclose) hstep) hstart
    along_mem h

/-- **On any transport, a listener sees what the events of the transport amount to**, when it was
registered from the start and the application does not close the client. -/
theorem receives_events {l : Listener} (hs : Awaiting l x.session) (hx : x.events = [])
    (hclose : .client (.call .close) ∉ as) (h : exec (step T methodDefinition) x as = some y)
    (hy : y.session.stack = []) :
    y.session.reception l = receive methodDefinition y.events := by
  rw [← (faithful_exec hs hx hclose h).outcome, Session.outcome, hy]
  rfl

end Exchange

/-! ## The end of a call -/

section

variable [BrowserHeaders M] {methodDefinition : MethodDefinition Req Res}

namespace Reception

/-- A listener has seen the end of the call exactly if it has completed, and nothing behind it. -/
structure EndsLast (r : Reception M Res) : Prop where
  opened : r.completed = false → endsSeen r.seen = []
  ended : r.completed = true → ∃ before code message trailers,
    r.seen = before ++ [.ended code message trailers] ∧ endsSeen before = []

omit [BrowserHeaders M] in
theorem EndsLast.of_completed {r t : Reception M Res} (h : r.EndsLast) (hr : r.completed = true)
    (ht : t.completed = true) (hseen : t.seen = r.seen) : t.EndsLast where
  opened hc := by simp [ht] at hc
  ended _ := hseen ▸ h.ended hr

omit [BrowserHeaders M] in
theorem EndsLast.finish {r : Reception M Res} (h : r.EndsLast) (code : Number) (message : JsString)
    (trailers : M) : (r.finish code message trailers).EndsLast := by
  rcases hr : r.completed with _ | _
  · refine ⟨nofun, fun _ => ⟨r.seen, code, message, trailers, ?_, h.opened hr⟩⟩
    simp [Reception.finish, Reception.see, hr]
  · rwa [finish_of_completed hr]

theorem EndsLast.handle {r : Reception M Res} (h : r.EndsLast) (e : TransportEvent M) :
    (r.handle methodDefinition e).EndsLast := by
  rcases hr : r.completed with _ | _
  · cases e with
    | onHeaders headers status =>
      rw [Reception.handle, takeHeaders]
      split
      · exact h
      · have hseen : (({ r with headers := some headers } : Reception M Res).see
            (.headers headers)).EndsLast :=
          ⟨fun _ => (endsSeen_see rfl _).trans (h.opened hr), fun hc => by simp [hr] at hc⟩
        simp only
        split
        · exact hseen.finish _ _ _
        · exact hseen
    | onChunk chunkBytes =>
      rw [Reception.handle, takeBytes]
      split
      · have hleave : (r.leave
            (frames.drainTo Frame.isTrailer (r.unread ++ chunkBytes)).2).EndsLast :=
          ⟨fun _ => h.opened hr, fun hc => by simp [hr] at hc⟩
        exact hleave.finish _ _ _
      · rename_i ds _
        obtain ⟨hcompleted, hends⟩ := endsSeen_takeChunks methodDefinition ds
          (r.leave (frames.drainTo Frame.isTrailer (r.unread ++ chunkBytes)).2)
        refine ⟨fun _ => hends.trans (h.opened hr), fun hc => ?_⟩
        simp [hcompleted, hr] at hc
    | onEnd => exact h.finish _ _ _
  · obtain ⟨hcompleted, hseen⟩ := handle_of_completed methodDefinition hr e
    exact h.of_completed hr hcompleted hseen

theorem endsLast_receive (events : List (TransportEvent M)) :
    (receive methodDefinition events : Reception M Res).EndsLast := by
  induction events using List.reverseRecOn with
  | nil => exact ⟨fun _ => rfl, nofun⟩
  | append_singleton events e ih =>
    rw [receive_concat]
    exact ih.handle e

omit [BrowserHeaders M] in
/-- **One end, when the call has completed.** -/
theorem EndsLast.length {r : Reception M Res} (h : r.EndsLast) :
    (endsSeen r.seen).length = if r.completed then 1 else 0 := by
  rcases hr : r.completed with _ | _
  · rw [h.opened hr]
    rfl
  · obtain ⟨before, code, message, trailers, hseen, hbefore⟩ := h.ended hr
    have hends : endsSeen r.seen = endsSeen before ++ [(code, message, trailers)] := by
      rw [hseen, endsSeen, List.filterMap_append]
      rfl
    rw [hends, hbefore]
    rfl

end Reception

omit [BrowserHeaders M] in
theorem seen_see_extends (d : Dispatch M Res) (r : Reception M Res) : r.seen <+: (r.see d).seen := by
  unfold Reception.see
  split
  · exact List.prefix_refl _
  · exact List.prefix_append _ _

omit [BrowserHeaders M] in
theorem seen_finish_extends (code : Number) (message : JsString) (trailers : M)
    (r : Reception M Res) : r.seen <+: (r.finish code message trailers).seen :=
  seen_see_extends (.ended code message trailers) r

theorem seen_takeChunks_extends (ds : List (Chunk M)) (r : Reception M Res) :
    r.seen <+: (r.takeChunks methodDefinition ds).seen := by
  induction ds generalizing r with
  | nil => exact List.prefix_refl _
  | cons d ds ih =>
    cases d with
    | message data =>
      rw [Reception.takeChunks]
      split
      · exact List.prefix_refl _
      · exact (seen_see_extends _ r).trans (ih _)
    | trailers trailers =>
      simp only [Reception.takeChunks]
      split
      · refine List.IsPrefix.trans ?_ (ih _)
        exact seen_see_extends _ { r with headers := some (BrowserHeaders.copy trailers) }
      · exact ih { r with trailers := some (BrowserHeaders.copy trailers) }

/-- **What a listener has seen stays.** -/
theorem seen_handle_extends (r : Reception M Res) (e : TransportEvent M) :
    r.seen <+: (r.handle methodDefinition e).seen := by
  cases e with
  | onHeaders headers status =>
    simp only [Reception.handle, Reception.takeHeaders]
    split
    · exact List.prefix_refl _
    have hsee := seen_see_extends (.headers headers) { r with headers := some headers }
    split
    · exact hsee.trans (seen_finish_extends _ _ _ _)
    · exact hsee
  | onChunk bytes =>
    simp only [Reception.handle, Reception.takeBytes]
    rw [← Reception.seen_leave (frames.drainTo Frame.isTrailer (r.unread ++ bytes)).2 r]
    split
    · exact seen_finish_extends _ _ _ _
    · exact seen_takeChunks_extends _ _
  | onEnd => exact seen_finish_extends _ _ _ r

theorem seen_receive_extends (methodDefinition : MethodDefinition Req Res)
    (before after : List (TransportEvent M)) :
    (receive methodDefinition before : Reception M Res).seen <+:
      (receive methodDefinition (before ++ after)).seen := by
  induction after using List.reverseRecOn with
  | nil => simp
  | append_singleton after e ih =>
    rw [← List.append_assoc, receive_concat]
    exact ih.trans (seen_handle_extends _ e)

/-- The end of the transport completes a call. -/
theorem completed_of_onEnd {events : List (TransportEvent M)} (h : .onEnd ∈ events) :
    (receive methodDefinition events : Reception M Res).completed = true := by
  obtain ⟨before, after, rfl⟩ := List.append_of_mem h
  rw [receive, List.foldl_append, List.foldl_cons]
  exact (Reception.foldl_handle_of_completed rfl after).1

/-- **A call ends at most once on any transport**, and it has ended once when the transport has: for
a listener that was registered from the start, when the application does not close the client and
nothing is outstanding. -/
theorem exchange_ends_once {T : Transport M σ α} {x y : Exchange M Res σ} {l : Listener}
    {as : List (ExchangeAction M Req α)} (hs : Awaiting l x.session) (hx : x.events = [])
    (hclose : .client (.call .close) ∉ as)
    (h : exec (Exchange.step T methodDefinition) x as = some y) (hy : y.session.stack = []) :
    (endsSeen (l.view y.session.log)).length ≤ 1 ∧
      (.onEnd ∈ y.events → (endsSeen (l.view y.session.log)).length = 1) := by
  have hview : l.view y.session.log = (receive methodDefinition y.events : Reception M Res).seen :=
    congrArg Reception.seen (Exchange.receives_events hs hx hclose h hy)
  rw [hview, (Reception.endsLast_receive y.events).length]
  refine ⟨by split <;> simp, fun hend => ?_⟩
  rw [completed_of_onEnd hend]
  rfl

end

/-- A transport that delivers what it is told to, whatever the client does. -/
def Transport.scripted : Transport M Unit (TransportEvent M) where
  call _ _ := some ()
  onCancel _ := none
  move _ e := some ((), some e)
  returns _ := ((), none)
  throws _ _ := ()

/-- The end of the transport is delivered twice. -/
def endsTwice : List (ExchangeAction HeaderFields Bytes (TransportEvent HeaderFields)) :=
  List.flatten [callRun [1], [.move (.onHeaders ⟨[]⟩ 200)], callbackRun, [.handled],
    [.move (.onChunk (frameBytes [8]))], messageRun, [.move .onEnd], callbackRun, [.handled],
    [.move .onEnd, .handled]]

theorem exchange_ends_once_endsTwice :
    ∃ y : Exchange HeaderFields Bytes Unit,
      exec (Exchange.step Transport.scripted (bytesMethod false))
        { session := Session.withCallbacks true 1 1 1, transport := () } endsTwice = some y ∧
      (endsSeen ((⟨0, 0, 0⟩ : Listener).view y.session.log)).length = 1 := by
  have hend : (exec (Exchange.step Transport.scripted (bytesMethod false))
      { session := Session.withCallbacks true 1 1 1, transport := () } endsTwice).map (fun y =>
        (y.session.stack, decide (.onEnd ∈ y.events))) = some ([], true) := by
    decide +kernel
  obtain ⟨y, hy, heq⟩ := Option.map_eq_some_iff.1 hend
  simp only [Prod.mk.injEq, decide_eq_true_eq] at heq
  obtain ⟨hidle, hmem⟩ := heq
  exact ⟨y, hy, (exchange_ends_once
    (awaiting_withCallbacks true (by decide) (by decide) (by decide)) rfl
    (by simp [endsTwice, callRun, callbackRun, messageRun]) hy hidle).2 hmem⟩

end GrpcWeb.Client

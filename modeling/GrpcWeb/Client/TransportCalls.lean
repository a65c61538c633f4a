import Mathlib.Data.List.Forall2
import GrpcWeb.Client.Steps

/-!
# The calls a transport receives

A transport relies on the order of its calls without checking it: `start` first, then messages, then
at most one `finishSend`, then at most one `cancel`. The client guards this order by five flags.
`Driven` ties the flags to the calls that have been made (`driven_step`), and `transport_order` says
what follows for every run, with calls from inside callbacks as from outside.

One thing breaks the order: `start` sets its flag before it constructs the metadata. When the
constructor throws, the client counts as started although its transport is not
(`sends_without_start`). The runs in which this does not happen are those that are `StartsWell` at
every step.
-/

namespace GrpcWeb.Client

open Js

variable {M Req Res : Type}

/-- The calls that the transport has received. -/
def transportCalls (log : List (Entry M Res)) : List (TransportCall M) :=
  log.filterMap fun e => match e with
    | .transport call => some call
    | _ => none

/-- No call, or `start`, then the messages `sends`, at most one of them when the method does not
stream its requests, then at most one `finishSend` and at most one `cancel`. -/
def InOrder (requestStream : Bool) (calls : List (TransportCall M)) (sends : List Bytes) : Prop :=
  (calls = [] ∧ sends = []) ∨
    ((requestStream = false → sends.length ≤ 1) ∧ ∃ (metadata : M) (finish cancel : Bool),
      calls = .start metadata :: sends.map .sendMessage ++
        (if finish then [.finishSend] else []) ++ (if cancel then [.cancel] else []))

/-- The calls of the application that go to the transport. -/
def AppCall.drives : AppCall M Req → Bool
  | .start _ | .send _ | .finishSend | .close => true
  | _ => false

@[simp] theorem transportCalls_append (log log' : List (Entry M Res)) :
    transportCalls (log ++ log') = transportCalls log ++ transportCalls log' :=
  List.filterMap_append

/-- Entries that are no calls of the transport. -/
def Entry.isTransport : Entry M Res → Bool
  | .transport _ => true
  | _ => false

theorem transportCalls_of_not_isTransport {e : Entry M Res} (h : e.isTransport = false) :
    transportCalls [e] = [] := by
  cases e <;> first | rfl | cases h

variable [BrowserHeaders M]

/-- What the metadata of `start` is constructed from. -/
def startInit : Option (HeadersInit M) → HeadersInit M
  | none => .object []
  | some (.text []) => .object []
  | some init => init

/-- The constructor of `Metadata` does not throw in a call of `start`. -/
def StartsWell (s : Session M Res) : Action M Req → Prop
  | .call (.start metadata) =>
    s.client.started = false →
      (BrowserHeaders.construct (startInit metadata) : Except JsString M).isOk = true
  | _ => True

instance (s : Session M Res) : ∀ a : Action M Req, Decidable (StartsWell s a)
  | .call (.start _) => inferInstanceAs (Decidable (_ → _))
  | .call .onHeaders | .call .onMessage | .call .onEnd | .call (.send _) | .call .finishSend
  | .call .close | .event _ | .returns | .throws | .tick => .isTrue trivial

/-- What a call of the application makes the transport do. -/
def AppCall.Makes (methodDefinition : MethodDefinition Req Res) :
    AppCall M Req → TransportCall M → Prop
  | .start _, .start _ => True
  | .send msg, .sendMessage msgBytes => frameRequest methodDefinition msg = .ok msgBytes
  | .finishSend, .finishSend => True
  | .close, .cancel => True
  | _, _ => False

/-- The messages that a call of the transport hands it. -/
def TransportCall.messages : TransportCall M → List Bytes
  | .sendMessage msgBytes => [msgBytes]
  | _ => []

/-- The message of a call of `send` that does not throw. -/
def accepted (methodDefinition : MethodDefinition Req Res) (s : Session M Res) :
    Action M Req → List Req
  | .call (.send msg) =>
    match (call methodDefinition s (.send msg)).log.drop s.log.length with
    | [.threw _] => []
    | _ => [msg]
  | _ => []

/-- The messages of the calls of `send` in a run that do not throw, in call order. -/
def acceptedMessages (methodDefinition : MethodDefinition Req Res) :
    Session M Res → List (Action M Req) → List Req
  | _, [] => []
  | s, a :: as =>
    accepted methodDefinition s a ++
    match step methodDefinition s a with
    | none => []
    | some t => acceptedMessages methodDefinition t as

/-! ## What the flags say of the calls -/

/-- The flags of the client, against the calls that it has made. -/
structure Driven (requestStream : Bool) (s : Session M Res) (sends : List Bytes) : Prop where
  fresh : s.client.started = false →
    transportCalls s.log = [] ∧ sends = [] ∧ s.client.finishedSending = false ∧
      s.client.closed = false
  driven : s.client.started = true → ∃ metadata : M,
    transportCalls s.log = .start metadata :: sends.map .sendMessage ++
      (if s.client.finishedSending then [.finishSend] else []) ++
      (if s.client.closed then [.cancel] else [])
  first : s.client.sentFirstMessage = false → sends = []
  single : requestStream = false → sends.length ≤ 1

namespace Driven

variable {requestStream : Bool} {s : Session M Res} {sends : List Bytes}

omit [BrowserHeaders M] in
theorem inOrder (h : Driven requestStream s sends) :
    InOrder requestStream (transportCalls s.log) sends := by
  rcases hs : s.client.started with _ | _
  · exact .inl ⟨(h.fresh hs).1, (h.fresh hs).2.1⟩
  · obtain ⟨metadata, heq⟩ := h.driven hs
    exact .inr ⟨h.single, metadata, _, _, heq⟩

omit [BrowserHeaders M] in
/-- Other fields may change, and entries may be written that are no calls of the transport. -/
theorem of_eq {t : Session M Res} (h : Driven requestStream s sends)
    (hstarted : t.client.started = s.client.started)
    (hsent : t.client.sentFirstMessage = false → s.client.sentFirstMessage = false)
    (hfinished : t.client.finishedSending = s.client.finishedSending)
    (hclosed : t.client.closed = s.client.closed)
    (hlog : transportCalls t.log = transportCalls s.log) : Driven requestStream t sends where
  fresh ht := by
    rw [hlog, hfinished, hclosed]
    exact h.fresh (hstarted ▸ ht)
  driven ht := by
    rw [hlog, hfinished, hclosed]
    exact h.driven (hstarted ▸ ht)
  first ht := h.first (hsent ht)
  single := h.single

omit [BrowserHeaders M] in
theorem record (h : Driven requestStream s sends) {e : Entry M Res} (he : e.isTransport = false) :
    Driven requestStream (s.record e) sends :=
  h.of_eq rfl id rfl rfl (by simp [transportCalls_of_not_isTransport he])

end Driven

/-- What a call of the application that goes to the transport comes to: it throws, or the transport
receives one call. -/
inductive Outcome (methodDefinition : MethodDefinition Req Res) (c : AppCall M Req)
    (s t : Session M Res) (sends : List Bytes) : Prop
  | threw (message : JsString) (log : t.log = s.log ++ [.threw message])
      (driven : Driven methodDefinition.requestStream t sends)
  | reached (made : TransportCall M) (makes : c.Makes methodDefinition made)
      (log : t.log = s.log ++ [.transport made])
      (driven : Driven methodDefinition.requestStream t (sends ++ made.messages))

variable {methodDefinition : MethodDefinition Req Res} {s : Session M Res} {sends : List Bytes}

omit [BrowserHeaders M] in
theorem Outcome.reached_silent {c : AppCall M Req} {t : Session M Res} (made : TransportCall M)
    (makes : c.Makes methodDefinition made) (hmade : made.messages = [])
    (log : t.log = s.log ++ [.transport made])
    (driven : Driven methodDefinition.requestStream t sends) :
    Outcome methodDefinition c s t sends := by
  refine .reached made makes log ?_
  rw [hmade, List.append_nil]
  exact driven

omit [BrowserHeaders M] in
theorem exists_of_isOk {x : Except JsString M} (h : x.isOk = true) : ∃ m, x = .ok m := by
  cases x with
  | error e => cases h
  | ok m => exact ⟨m, rfl⟩

theorem start_of_fresh (hs : s.client.started = false) {metadata : Option (HeadersInit M)} {m : M}
    (hm : BrowserHeaders.construct (startInit metadata) = .ok m) :
    ∃ requestHeaders, start metadata s =
      (s.modify fun c => { c with started := true }).record
        (.transport (.start requestHeaders)) := by
  unfold start
  rw [if_neg (by simp [hs])]
  rcases metadata with _ | ((_ | ⟨c, text⟩) | fields | m)
  all_goals
    simp only [startInit] at hm
    simp only [hm]
    exact ⟨_, rfl⟩

theorem driven_start (h : Driven methodDefinition.requestStream s sends)
    {metadata : Option (HeadersInit M)}
    (hok : StartsWell s (.call (.start metadata) : Action M Req)) :
    Outcome methodDefinition (.start metadata) s (start metadata s) sends := by
  rcases hs : s.client.started with _ | _
  · obtain ⟨hcalls, rfl, hf, hc⟩ := h.fresh hs
    obtain ⟨m, hm⟩ := exists_of_isOk (hok hs)
    obtain ⟨requestHeaders, heq⟩ := start_of_fresh hs hm
    rw [heq]
    refine .reached_silent (.start requestHeaders) trivial rfl rfl
      ⟨nofun, fun _ => ⟨requestHeaders, ?_⟩, fun _ => rfl, h.single⟩
    rw [Session.log_record, Session.log_modify, transportCalls_append, hcalls]
    simp [hf, hc, transportCalls]
  · unfold start
    rw [if_pos hs]
    exact .threw _ rfl (h.record rfl)

omit [BrowserHeaders M] in
theorem driven_send (h : Driven methodDefinition.requestStream s sends) (msg : Req) :
    Outcome methodDefinition (.send msg) s (send methodDefinition msg s) sends := by
  unfold send
  split
  · exact .threw _ rfl (h.record rfl)
  rename_i hstarted
  split
  · exact .threw _ rfl (h.record rfl)
  rename_i hclosed
  split
  · exact .threw _ rfl (h.record rfl)
  rename_i hfinished
  split
  · exact .threw _ rfl (h.record rfl)
  rename_i hsingle
  have hstarted : s.client.started = true := by simpa using hstarted
  have hclosed : s.client.closed = false := by simpa using hclosed
  have hfinished : s.client.finishedSending = false := by simpa using hfinished
  simp only
  rcases hb : frameRequest methodDefinition msg with e | b
  · refine .threw e rfl (h.of_eq rfl nofun rfl rfl ?_)
    simp [transportCalls]
  · refine .reached (.sendMessage b) hb rfl ⟨fun hs => ?_, fun _ => ?_, nofun, fun hr => ?_⟩
    · rw [Session.client_record, Session.client_modify, hstarted] at hs
      cases hs
    · obtain ⟨metadata, heq⟩ := h.driven hstarted
      refine ⟨metadata, ?_⟩
      rw [Session.log_record, Session.log_modify, transportCalls_append, heq]
      simp [hfinished, hclosed, transportCalls, TransportCall.messages]
    · have hfirst : s.client.sentFirstMessage = false := by simpa [hr] using hsingle
      rw [h.first hfirst]
      simp [TransportCall.messages]

omit [BrowserHeaders M] in
theorem driven_finishSend (h : Driven methodDefinition.requestStream s sends) :
    Outcome methodDefinition .finishSend s (finishSend s) sends := by
  unfold finishSend
  split
  · exact .threw _ rfl (h.record rfl)
  rename_i hstarted
  split
  · exact .threw _ rfl (h.record rfl)
  rename_i hclosed
  split
  · exact .threw _ rfl (h.record rfl)
  rename_i hfinished
  have hstarted : s.client.started = true := by simpa using hstarted
  have hclosed : s.client.closed = false := by simpa using hclosed
  have hfinished : s.client.finishedSending = false := by simpa using hfinished
  refine .reached_silent .finishSend trivial rfl rfl ⟨fun hs => ?_, fun _ => ?_, h.first, h.single⟩
  · rw [Session.client_record, Session.client_modify, hstarted] at hs
    cases hs
  · obtain ⟨metadata, heq⟩ := h.driven hstarted
    refine ⟨metadata, ?_⟩
    rw [Session.log_record, Session.log_modify, transportCalls_append, heq]
    simp [hfinished, hclosed, transportCalls]

omit [BrowserHeaders M] in
theorem driven_close (h : Driven methodDefinition.requestStream s sends) :
    Outcome methodDefinition .close s (close s) sends := by
  unfold close
  split
  · exact .threw _ rfl (h.record rfl)
  rename_i hstarted
  split
  · rename_i hclosed
    have hstarted : s.client.started = true := by simpa using hstarted
    have hclosed : s.client.closed = false := by simpa using hclosed
    refine .reached_silent .cancel trivial rfl rfl ⟨fun hs => ?_, fun _ => ?_, h.first, h.single⟩
    · rw [Session.client_record, Session.client_modify, hstarted] at hs
      cases hs
    · obtain ⟨metadata, heq⟩ := h.driven hstarted
      refine ⟨metadata, ?_⟩
      rw [Session.log_record, Session.log_modify, transportCalls_append, heq]
      simp [hclosed, transportCalls]
      rfl
  · exact .threw _ rfl (h.record rfl)

/-- **A driving call** throws or makes one call of the transport, and the flags go with it. -/
theorem driven_call (h : Driven methodDefinition.requestStream s sends) {c : AppCall M Req}
    (hc : c.drives = true) (hok : StartsWell s (.call c)) :
    Outcome methodDefinition c s (call methodDefinition s c) sends := by
  cases c with
  | onHeaders => cases hc
  | onMessage => cases hc
  | onEnd => cases hc
  | start metadata => exact driven_start h hok
  | send msg => exact driven_send h msg
  | finishSend => exact driven_finishSend h
  | close => exact driven_close h

/-! ## What does not go to the transport -/

theorem deliver_drives_nothing (s : Session M Res) (e : TransportEvent M) :
    (deliver s e).client.started = s.client.started ∧
      (deliver s e).client.sentFirstMessage = s.client.sentFirstMessage ∧
      (deliver s e).client.finishedSending = s.client.finishedSending := by
  by_cases hc : s.client.closed = true
  · rw [deliver_of_closed hc]
    exact ⟨rfl, rfl, rfl⟩
  cases e with
  | onHeaders headers status =>
    rw [deliver, onTransportHeaders, if_neg hc]
    split
    · exact ⟨rfl, rfl, rfl⟩
    · simp only
      split <;> simp
  | onChunk chunkBytes =>
    rw [deliver, onTransportChunk, if_neg hc]
    simp only
    split <;> simp
  | onEnd =>
    rw [deliver, onTransportEnd_client (by simpa using hc)]
    exact ⟨rfl, rfl, rfl⟩

theorem tick_drives_nothing {t : Session M Res} (h : tick methodDefinition s = some t) :
    t.client.started = s.client.started ∧
      t.client.sentFirstMessage = s.client.sentFirstMessage ∧
      t.client.finishedSending = s.client.finishedSending ∧
      transportCalls t.log = transportCalls s.log := by
  cases move_of_tick h with
  | exhausted hk => exact ⟨rfl, rfl, rfl, rfl⟩
  | skipsMessage hk => exact ⟨rfl, rfl, rfl, rfl⟩
  | skipsEnd hk => exact ⟨rfl, rfl, rfl, rfl⟩
  | onHeaders hk => exact ⟨rfl, rfl, rfl, by simp [transportCalls]⟩
  | onMessage hk => exact ⟨rfl, rfl, rfl, by simp [transportCalls]⟩
  | onEnd hk => exact ⟨rfl, rfl, rfl, by simp [transportCalls]⟩
  | chunk hk =>
    unfold Client.onChunk
    split
    · split <;> simp [transportCalls]
    · split <;> simp [transportCalls]
  | error hk => simp

/-! ## Runs -/

/-- The payloads are the frames of the messages, in order. -/
def Frames (methodDefinition : MethodDefinition Req Res) (msgs : List Req) (sends : List Bytes) :
    Prop :=
  List.Forall₂ (fun msg msgBytes => frameRequest methodDefinition msg = .ok msgBytes) msgs sends

theorem Outcome.frames {c : AppCall M Req}
    (h : Outcome methodDefinition c s (call methodDefinition s c) sends) :
    ∃ sent, Frames methodDefinition (accepted methodDefinition s (.call c)) sent ∧
      Driven methodDefinition.requestStream (call methodDefinition s c) (sends ++ sent) := by
  cases h with
  | threw message log driven =>
    refine ⟨[], ?_, by rwa [List.append_nil]⟩
    cases c with
    | send msg => simp [accepted, log, Frames]
    | _ => exact .nil
  | reached made makes log driven =>
    refine ⟨made.messages, ?_, driven⟩
    cases c <;> cases made <;> try cases makes
    · exact .nil
    · simp only [accepted, log, List.drop_left]
      exact .cons makes .nil
    · exact .nil
    · exact .nil

/-- **Every step** keeps the flags and the calls of the transport together. -/
theorem driven_step (h : Driven methodDefinition.requestStream s sends) {a : Action M Req}
    {t : Session M Res} (hok : StartsWell s a) (hstep : step methodDefinition s a = some t) :
    ∃ sent, Frames methodDefinition (accepted methodDefinition s a) sent ∧
      Driven methodDefinition.requestStream t (sends ++ sent) := by
  have silent (hd : Driven methodDefinition.requestStream t sends)
      (ha : accepted methodDefinition s a = []) :
      ∃ sent, Frames methodDefinition (accepted methodDefinition s a) sent ∧
        Driven methodDefinition.requestStream t (sends ++ sent) := by
    rw [ha]
    exact ⟨[], .nil, by rwa [List.append_nil]⟩
  rcases step_inv hstep with ⟨c, rfl, rfl⟩ | ⟨e, rfl, rfl⟩ | ⟨k, -, hk⟩ | ⟨rfl, ht⟩
  · by_cases hc : c.drives = true
    · exact (driven_call h hc hok).frames
    · cases c with
      | onHeaders | onMessage | onEnd => exact silent (h.of_eq rfl id rfl rfl rfl) rfl
      | _ => exact absurd rfl hc
  · obtain ⟨hstarted, hsent, hfinished⟩ := deliver_drives_nothing s e
    obtain ⟨hgrows, hlog⟩ := deliver_grows s e
    exact silent (h.of_eq hstarted (hsent ▸ id) hfinished hgrows.closed (by rw [hlog])) rfl
  · rcases hk with ⟨rfl, rfl⟩ | ⟨rfl, rfl⟩
    · exact silent (h.of_eq rfl id rfl rfl rfl) rfl
    · exact silent (h.of_eq rfl id rfl rfl (by simp [transportCalls])) rfl
  · obtain ⟨hstarted, hsent, hfinished, hlog⟩ := tick_drives_nothing ht
    exact silent (h.of_eq hstarted (hsent ▸ id) hfinished (tick_grows ht).1.closed hlog) rfl

theorem driven_exec {as : List (Action M Req)} {t : Session M Res}
    (h : Driven methodDefinition.requestStream s sends)
    (hok : Along (step methodDefinition) StartsWell s as)
    (hexec : exec (step methodDefinition) s as = some t) :
    ∃ sent, Frames methodDefinition (acceptedMessages methodDefinition s as) sent ∧
      Driven methodDefinition.requestStream t (sends ++ sent) := by
  induction as generalizing s sends with
  | nil =>
    cases hexec
    exact ⟨[], .nil, by rwa [List.append_nil]⟩
  | cons a as ih =>
    obtain ⟨u, hu, hexec⟩ := exec_cons.1 hexec
    obtain ⟨first, hfirst, hd⟩ := driven_step h hok.1 hu
    obtain ⟨rest, hrest, hd⟩ := ih hd (hok.2 u hu) hexec
    refine ⟨first ++ rest, ?_, by rwa [← List.append_assoc]⟩
    rw [acceptedMessages, hu]
    exact List.rel_append hfirst hrest

omit [BrowserHeaders M] in
theorem driven_new (hasSlice requestStream : Bool) :
    Driven requestStream (Session.new hasSlice : Session M Res) [] :=
  ⟨fun _ => ⟨rfl, rfl, rfl, rfl⟩, nofun, fun _ => rfl, fun _ => Nat.zero_le _⟩

/-- **A transport is driven in order.** In a run in which no first call of `start` makes the
constructor of the metadata throw, the transport receives nothing, or `start`, the frames of the
accepted messages in call order, then at most one `finishSend` and then at most one `cancel`. A call
that drives it, wherever the application is free to make one, throws and does not reach it, or
reaches it once and keeps the order. -/
theorem transport_order (methodDefinition : MethodDefinition Req Res) (hasSlice : Bool)
    {as : List (Action M Req)} {s : Session M Res}
    (hok : Along (step methodDefinition) StartsWell (Session.new hasSlice) as)
    (h : exec (step methodDefinition) (Session.new hasSlice) as = some s) :
    (∃ sends, Frames methodDefinition
        (acceptedMessages methodDefinition (Session.new hasSlice) as) sends ∧
      InOrder methodDefinition.requestStream (transportCalls s.log) sends) ∧
    ∀ (c : AppCall M Req) (t : Session M Res), c.drives = true → StartsWell s (.call c) →
      step methodDefinition s (.call c) = some t →
      (∃ message, t.log = s.log ++ [.threw message]) ∨
        ∃ made sends, c.Makes methodDefinition made ∧ t.log = s.log ++ [.transport made] ∧
          InOrder methodDefinition.requestStream (transportCalls s.log ++ [made]) sends := by
  obtain ⟨sends, hframes, hd⟩ := driven_exec (driven_new hasSlice _) hok h
  refine ⟨⟨sends, hframes, hd.inOrder⟩, fun c t hc hstarts hstep => ?_⟩
  have ht : t = call methodDefinition s c := by
    obtain ⟨_, ⟨⟩, ht⟩ | ⟨_, ⟨⟩, _⟩ | ⟨_, _, ⟨⟨⟩, _⟩ | ⟨⟨⟩, _⟩⟩ | ⟨⟨⟩, _⟩ := step_inv hstep
    exact ht
  subst ht
  rcases driven_call hd hc hstarts with ⟨message, log, -⟩ | ⟨made, makes, log, driven⟩
  · exact .inl ⟨message, log⟩
  · have horder := driven.inOrder
    rw [log, transportCalls_append] at horder
    exact .inr ⟨made, _, makes, log, horder⟩

/-- Legal and illegal calls, the last ones from inside a callback, which closes the client. -/
def closedInCallback : List (Action HeaderFields Bytes) :=
  [.call .onHeaders, .call (.send [1]), .call (.start none), .call (.start none), .call (.send [7]),
    .call (.send [8]), .event (.onHeaders ⟨[]⟩ 200), .tick, .call .finishSend, .call .close]

theorem transport_order_closedInCallback : ∃ s t : Session HeaderFields Bytes,
    exec (step (bytesMethod false)) (Session.new true) closedInCallback = some s ∧
      step (bytesMethod false) s (.call .finishSend) = some t ∧
      ((∃ sends, Frames (bytesMethod false)
          (acceptedMessages (bytesMethod false) (Session.new true) closedInCallback) sends ∧
        InOrder false (transportCalls s.log) sends) ∧
      ((∃ message, t.log = s.log ++ [.threw message]) ∨
        ∃ made sends, AppCall.Makes (M := HeaderFields) (bytesMethod false) .finishSend made ∧
          t.log = s.log ++ [.transport made] ∧
          InOrder false (transportCalls s.log ++ [made]) sends)) := by
  obtain ⟨t, ht⟩ := Option.isSome_iff_exists.1
    (by decide +kernel : (exec (step (bytesMethod false))
      (Session.new true : Session HeaderFields Bytes)
      (closedInCallback ++ [.call .finishSend])).isSome = true)
  obtain ⟨s, hs, ht⟩ := exec_append.1 ht
  obtain ⟨u, hu, ⟨⟩⟩ := exec_cons.1 ht
  obtain ⟨horder, hcall⟩ := transport_order (bytesMethod false) true (by decide +kernel) hs
  exact ⟨s, _, hs, hu, horder, hcall .finishSend _ rfl trivial hu⟩

/-! ## A start that throws -/

/-- `start` with a metadata name that no header can have, then a message. -/
def strandedRun : List (Action HeaderFields Bytes) :=
  [.call (.start (some (.object [(js "a b", [js "c"])]))), .call (.send [7])]

/-- **A message without a start**: the exception of the constructor leaves `start` after its flag is
set, and the next call of `send` reaches a transport that has not been started. -/
theorem sends_without_start : ∃ s : Session HeaderFields Bytes,
    exec (step (bytesMethod true)) (Session.new true) strandedRun = some s ∧
      ∀ sends, ¬ InOrder true (transportCalls s.log) sends := by
  obtain ⟨s, hs, hcalls⟩ := Option.map_eq_some_iff.1
    (by decide +kernel : (exec (step (bytesMethod true))
      (Session.new true : Session HeaderFields Bytes)
      strandedRun).map (fun s => transportCalls s.log) = some [.sendMessage (frameBytes [7])])
  refine ⟨s, hs, ?_⟩
  rintro sends (⟨hnil, -⟩ | ⟨-, metadata, finish, cancel, heq⟩)
  · rw [hcalls] at hnil
    cases hnil
  · rw [hcalls] at heq
    cases heq

end GrpcWeb.Client

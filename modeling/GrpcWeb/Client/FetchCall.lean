import GrpcWeb.Client.Delivery
import GrpcWeb.Client.Fetch
import GrpcWeb.Client.ResponseEvents

/-!
# A call over the Fetch transport

The client of a call on a request of the Fetch transport. An exception that leaves `onChunk` of the
client rejects the promise, so the request reads no more and ends.

* `fetch_call_ends`: the calls that end, and the one kind that does not.
* `fetch_ok_delivers`: a call that ends with OK has lost no message that came before its status,
  whatever `deserializeBinary` throws.

A second message, which would start a second request, is left out, and `options.debug` is off.
-/

namespace GrpcWeb.Client

open Js

variable {M Req Res : Type}

/-! ## The transport -/

/-- The event that the client gets. It does not look at the error. -/
def FetchEvent.given? : FetchEvent M JsString → Option (TransportEvent M)
  | .onHeaders headers status => some (.onHeaders headers status)
  | .onChunk chunk => some (.onChunk chunk)
  | .onEnd _ => some .onEnd
  | _ => none

namespace Fetch

/-- The event that comes with a step from `f` to `t`. -/
def gives (f t : Fetch M JsString) : Option (TransportEvent M) :=
  (t.log.drop f.log.length).head?.bind FetchEvent.given?

/-- The steps that a request takes by itself. -/
def Action.isOwn : Fetch.Action M JsString → Bool
  | .response _ _ _ | .chunk _ | .done | .rejects _ | .catches => true
  | _ => false

def transport : Transport M (Fetch M JsString) (Fetch.Action M JsString) where
  call f
    | .start metadata => some (f.start metadata)
    | .sendMessage msgBytes =>
      -- the metadata is undefined before `start`, and reading it throws
      if f.metadata.isNone then some f else f.send msgBytes
    | .finishSend => some f
    | .cancel => some f.cancel
  onCancel _ := none
  move f a := if a.isOwn then (f.step a).map fun t => (t, f.gives t) else none
  returns f := ((f.step .returns).getD f, none)
  throws e f := (f.step (.throws (some e))).getD f

end Fetch

namespace Fetch

variable {f : Fetch M JsString}

theorem answer_eq (f : Fetch M JsString) (c : TransportCall M) :
    Fetch.transport.answer f c = none := by
  cases c <;> rfl

/-- A call of the transport other than `cancel` does not change the stage of a request that has been
sent. -/
theorem stage_call {g : Fetch M JsString} {c : TransportCall M} (hc : c ≠ .cancel)
    (hs : f.stage ≠ .idle) (hg : Fetch.transport.call f c = some g) : g.stage = f.stage := by
  cases c with
  | start metadata =>
    cases hg
    rfl
  | sendMessage msgBytes =>
    simp only [transport] at hg
    split at hg
    · cases hg
      rfl
    · cases moves_of_step (a := .sendMessage msgBytes) hg with
      | sendMessage metadata msgBytes hidle => exact absurd hidle hs
  | finishSend =>
    cases hg
    rfl
  | cancel => exact absurd rfl hc

/-- A request that reads no more. -/
def Over (f : Fetch M JsString) : Prop := f.stage = .settled ∨ ∃ err, f.stage = .rejected err

/-- The request waits while the client handles a chunk. -/
theorem stage_move {a : Fetch.Action M JsString} {r : Fetch M JsString × Option (TransportEvent M)}
    {chunk : Bytes} (hr : Fetch.transport.move f a = some r) (hgives : r.2 = some (.onChunk chunk)) :
    r.1.stage = .onChunk := by
  simp only [transport] at hr
  split at hr
  · rename_i hown
    obtain ⟨g, hg, rfl⟩ := Option.map_eq_some_iff.1 hr
    cases moves_of_step hg with
    | chunk value hs => rfl
    | response headers status hasBody hs =>
      cases headers <;> simp [gives, onResponse, FetchEvent.given?] at hgives
    | done hs => simp [gives, FetchEvent.given?] at hgives
    | rejects err hs => simp [gives] at hgives
    | catches err hs =>
      simp only at hgives
      unfold catchError at hgives
      split at hgives
      · simp [gives] at hgives
      split at hgives
      · simp [gives] at hgives
      · simp [gives, FetchEvent.given?] at hgives
    | start metadata => cases hown
    | sendMessage metadata msgBytes hs => cases hown
    | pumps hs => cases hown
    | settles hs => cases hown
    | throws err hs => cases hown
    | cancel => cases hown
  · cases hr

theorem over_throws (hs : f.stage = .onChunk) (e : JsString) :
    (Fetch.transport.throws e f).Over := by
  refine .inr ⟨some e, ?_⟩
  simp [transport, step, hs]

namespace Over

theorem call {g : Fetch M JsString} {c : TransportCall M} (h : f.Over) (hc : c ≠ .cancel)
    (hg : Fetch.transport.call f c = some g) : g.Over := by
  have hsame := stage_call hc (by rcases h with h | ⟨err, h⟩ <;> simp [h]) hg
  rwa [Over, hsame]

theorem returns (h : f.Over) : Fetch.transport.returns f = (f, none) := by
  rcases h with h | ⟨err, h⟩ <;> simp [transport, step, h]

theorem throws (h : f.Over) (e : JsString) : Fetch.transport.throws e f = f := by
  rcases h with h | ⟨err, h⟩ <;> simp [transport, step, h]

/-- It only ends. -/
theorem move {a : Fetch.Action M JsString} {r : Fetch M JsString × Option (TransportEvent M)}
    (h : f.Over) (hr : Fetch.transport.move f a = some r) :
    r.1.Over ∧ ∀ e ∈ r.2.toList, e = .onEnd := by
  simp only [transport] at hr
  split at hr
  · rename_i hown
    obtain ⟨g, hg, rfl⟩ := Option.map_eq_some_iff.1 hr
    cases moves_of_step hg with
    | catches err hs =>
      unfold catchError
      split
      · exact ⟨.inl rfl, by simp [gives]⟩
      split
      · exact ⟨.inl rfl, by simp [gives]⟩
      · exact ⟨.inl rfl, by simp [gives, FetchEvent.given?]⟩
    | response headers status hasBody hs => rcases h with h | ⟨err, h⟩ <;> simp [h] at hs
    | chunk value hs => rcases h with h | ⟨err, h⟩ <;> simp [h] at hs
    | done hs => rcases h with h | ⟨err, h⟩ <;> simp [h] at hs
    | rejects err hs => rcases h with h | ⟨err, h⟩ <;> simp [h] at hs
    | start metadata => cases hown
    | sendMessage metadata msgBytes hs => cases hown
    | pumps hs => cases hown
    | settles hs => cases hown
    | throws err hs => cases hown
    | cancel => cases hown
  · cases hr

end Over

end Fetch

/-- A client on a new request. -/
def fetchExchange (s : Session M Res) (controller : Bool) :
    Exchange M Res (Fetch M JsString) where
  session := s
  transport := Fetch.new false controller

/-! ## What the request has given -/

variable {as : List (ExchangeAction M Req (Fetch.Action M JsString))}

/-- What holds of a request that is not cancelled, and of the events that it has given. -/
structure FetchInv (as : List (ExchangeAction M Req (Fetch.Action M JsString)))
    (r : Fetch M JsString × List (TransportEvent M)) : Prop where
  debug : r.1.debug = false
  cancelled : r.1.cancelled = true → r.1.stage = .settled
  waits : r.1.stage = .idle ∨ r.1.stage = .fetching → r.2 = []
  responds : ∀ hasBody, r.1.stage = .onHeaders hasBody → ∃ headers status,
    r.2 = [.onHeaders headers status] ∧ .move (.response (.ok headers) status hasBody) ∈ as
  shaped : ∃ headers chunks ends, r.2 = responseEvents headers chunks ends ∧
    (r.1.stage ≠ .settled → ends = 0)
  settled : r.1.stage = .settled → .onEnd ∈ r.2 ∨ ∃ headers status,
    r.2 = [.onHeaders headers status] ∧ .move (.response (.ok headers) status false) ∈ as

namespace FetchInv

variable {f : Fetch M JsString} {events : List (TransportEvent M)}

/-- A request that has not settled is not cancelled. -/
theorem uncancelled (h : FetchInv as (f, events)) (hs : f.stage ≠ .settled) :
    f.cancelled = false := by
  rw [← Bool.not_eq_true]
  exact fun hc => hs (h.cancelled hc)

/-- A request that is neither new nor settled goes on, or an exception is due. -/
theorem goes_on {g : Fetch M JsString} {given : List (TransportEvent M)}
    (h : FetchInv as (f, events)) (hs : f.stage ≠ .settled)
    (hstage : g.stage = .reading ∨ g.stage = .onChunk ∨ ∃ err, g.stage = .rejected err)
    (hdebug : g.debug = f.debug) (hc : g.cancelled = f.cancelled) (more : List Bytes)
    (hgiven : given = more.map .onChunk) : FetchInv as (g, events ++ given) where
  debug := hdebug.trans h.debug
  cancelled hcancelled := by simp [hc, h.uncancelled hs] at hcancelled
  waits hw := by rcases hstage with hg | hg | ⟨err, hg⟩ <;> simp [hg] at hw
  responds hasBody hr := by rcases hstage with hg | hg | ⟨err, hg⟩ <;> simp [hg] at hr
  shaped := by
    obtain ⟨headers, chunks, ends, rfl, hends⟩ := h.shaped
    obtain rfl := hends hs
    exact ⟨headers, chunks ++ more, 0, by simp [responseEvents, hgiven], fun _ => rfl⟩
  settled hsettled := by rcases hstage with hg | hg | ⟨err, hg⟩ <;> simp [hg] at hsettled

/-- A request that gives the end has settled. -/
theorem ends {g : Fetch M JsString} (h : FetchInv as (f, events)) (hg : g.stage = .settled)
    (hdebug : g.debug = false) (hgives : f.gives g = some .onEnd) :
    FetchInv as (g, events ++ (f.gives g).toList) where
  debug := hdebug
  cancelled _ := hg
  waits hw := by simp [hg] at hw
  responds hasBody hr := by simp [hg] at hr
  shaped := by
    obtain ⟨headers, chunks, ends, rfl, -⟩ := h.shaped
    refine ⟨headers, chunks, ends + 1, ?_, fun hs => absurd hg hs⟩
    rw [hgives, responseEvents_end]
    rfl
  settled _ := .inl (by simp [hgives])

/-- A call of the transport other than `cancel`. -/
theorem call (h : FetchInv as (f, events)) {c : TransportCall M} (hc : c ≠ .cancel)
    {g : Fetch M JsString} (hg : Fetch.transport.call f c = some g) : FetchInv as (g, events) := by
  cases c with
  | start metadata =>
    cases hg
    exact ⟨h.debug, h.cancelled, h.waits, h.responds, h.shaped, h.settled⟩
  | sendMessage msgBytes =>
    simp only [Fetch.transport] at hg
    split at hg
    · cases hg
      exact h
    · cases Fetch.moves_of_step (a := .sendMessage msgBytes) hg with
      | sendMessage metadata msgBytes hs =>
        have hevents := h.waits (.inl hs)
        exact ⟨h.debug, fun hcancelled => by simp [h.uncancelled (by simp [hs])] at hcancelled,
          fun _ => hevents, nofun, ⟨none, [], 0, hevents, fun _ => rfl⟩, nofun⟩
  | finishSend =>
    cases hg
    exact h
  | cancel => exact absurd rfl hc

/-- A step that a request takes by itself. -/
theorem move (h : FetchInv as (f, events)) {a : Fetch.Action M JsString} (ha : .move a ∈ as)
    (hown : a.isOwn = true) {g : Fetch M JsString} (hg : f.step a = some g) :
    FetchInv as (g, events ++ (f.gives g).toList) := by
  cases Fetch.moves_of_step hg with
  | response headers status hasBody hs =>
    have hopen := h.uncancelled (by simp [hs])
    obtain rfl : events = [] := h.waits (.inr hs)
    cases headers with
    | error err =>
      exact h.goes_on (by simp [hs]) (.inr (.inr ⟨err, rfl⟩)) rfl rfl []
        (by simp [Fetch.gives, Fetch.onResponse])
    | ok headers =>
      have hgiven : f.gives (Fetch.onResponse (.ok headers) status hasBody f) =
          some (.onHeaders headers status) := by
        simp [Fetch.gives, Fetch.onResponse, FetchEvent.given?]
      rw [hgiven]
      refine ⟨h.debug, fun hc => absurd (hopen.symm.trans hc) (by simp), fun hw => ?_, ?_,
        ⟨some (headers, status), [], 0, rfl, fun _ => rfl⟩, fun hset => by cases hset⟩
      · rcases hw with hw | hw <;> cases hw
      · rintro hasBody ⟨⟩
        exact ⟨headers, status, rfl, ha⟩
  | chunk value hs =>
    exact h.goes_on (by simp [hs]) (.inr (.inl rfl)) rfl rfl [value]
      (by simp [Fetch.gives, FetchEvent.given?])
  | done hs => exact h.ends rfl h.debug (by simp [Fetch.gives, FetchEvent.given?])
  | rejects err hs =>
    exact h.goes_on (by rcases hs with hs | hs <;> simp [hs]) (.inr (.inr ⟨err, rfl⟩)) rfl rfl []
      (by simp [Fetch.gives])
  | catches err hs =>
    have hdebug : f.debug = false := h.debug
    have hopen := h.uncancelled (by simp [hs])
    rw [Fetch.catchError, if_neg (by simp [hopen]), if_neg (by simp [hdebug])]
    exact h.ends rfl hdebug (by simp [Fetch.gives, FetchEvent.given?])
  | start metadata => cases hown
  | sendMessage metadata msgBytes hs => cases hown
  | pumps hs => cases hown
  | settles hs => cases hown
  | throws err hs => cases hown
  | cancel => cases hown

theorem returns (h : FetchInv as (f, events)) :
    FetchInv as ((f.step .returns).getD f, events) := by
  rcases hg : f.step .returns with _ | g
  · exact h
  cases Fetch.moves_of_step hg with
  | pumps hs =>
    have hwaits : f.stage ≠ .settled := by rcases hs with hs | hs <;> simp [hs]
    rw [Option.getD_some, Fetch.stage_pump (h.uncancelled hwaits), ← List.append_nil events]
    exact h.goes_on hwaits (.inl rfl) rfl rfl [] rfl
  | settles hs =>
    obtain ⟨headers, chunks, ends, hevents, -⟩ := h.shaped
    exact ⟨h.debug, fun _ => rfl, nofun, nofun,
      ⟨headers, chunks, ends, hevents, fun hne => absurd rfl hne⟩,
      fun _ => .inr (h.responds false hs)⟩

theorem throws (h : FetchInv as (f, events)) (e : JsString) :
    FetchInv as ((f.step (.throws (some e))).getD f, events) := by
  rcases hg : f.step (.throws (some e)) with _ | g
  · exact h
  cases Fetch.moves_of_step hg with
  | throws err hs =>
    have hwaits : f.stage ≠ .settled := by rcases hs with ⟨_, hs⟩ | hs <;> simp [hs]
    rw [Option.getD_some, ← List.append_nil events]
    exact h.goes_on hwaits (.inr (.inr ⟨_, rfl⟩)) rfl rfl [] rfl

/-- **A step of the request** keeps the invariant, unless it cancels it. -/
theorem step {r t : Fetch M JsString × List (TransportEvent M)} (h : FetchInv as r)
    {b : TransportAction M (Fetch.Action M JsString)} (hclose : .client (.call .close) ∉ as)
    (hb : b.Within as) (ht : Fetch.transport.record r b = some t) : FetchInv as t := by
  obtain ⟨e, he, hevents⟩ := recording_eq_some.1 ht
  obtain ⟨g, given⟩ := t
  obtain ⟨f, events⟩ := r
  simp only at hevents
  subst hevents
  cases b with
  | call c =>
    obtain ⟨u, hu, heq⟩ := Option.map_eq_some_iff.1 he
    simp only [Prod.mk.injEq] at heq
    obtain ⟨rfl, rfl⟩ := heq
    have hc : c ≠ .cancel := by
      rintro rfl
      exact hclose hb
    rw [Fetch.answer_eq, Option.toList_none, List.append_nil]
    exact h.call hc hu
  | move a =>
    simp only [Transport.step, Fetch.transport] at he
    split at he
    · obtain ⟨u, hu, heq⟩ := Option.map_eq_some_iff.1 he
      simp only [Prod.mk.injEq] at heq
      obtain ⟨rfl, rfl⟩ := heq
      exact h.move hb ‹_› hu
    · cases he
  | returns =>
    cases he
    rw [Option.toList_none, List.append_nil]
    exact h.returns
  | throws e =>
    cases he
    rw [Option.toList_none, List.append_nil]
    exact h.throws e

end FetchInv

section

variable [BrowserHeaders M] {methodDefinition : MethodDefinition Req Res} {l : Listener}
  {s : Session M Res} {controller : Bool} {y : Exchange M Res (Fetch M JsString)}

/-- The request of a call that is not closed. -/
theorem fetchInv_exec (hclose : .client (.call .close) ∉ as)
    (h : exec (Exchange.step Fetch.transport methodDefinition) (fetchExchange s controller) as =
      some y) : FetchInv as (y.transport, y.events) := by
  have hstart : FetchInv as ((Fetch.new false controller : Fetch M JsString), []) :=
    ⟨rfl, nofun, fun _ => rfl, nofun, ⟨none, [], 0, rfl, fun _ => rfl⟩, nofun⟩
  exact (Exchange.reaches_transport h).invariant (fun _ _ _ hr hb ht => hr.step hclose hb ht) hstart

/-- **The calls that end over Fetch.** When the request has settled and nothing is outstanding, a
listener has seen exactly one end, unless the response had no body and its headers left the call
open: such a call never ends. -/
theorem fetch_call_ends {y : Exchange M Res (Fetch M JsString)} (hs : Awaiting l s)
    (hclose : .client (.call .close) ∉ as)
    (h : exec (Exchange.step Fetch.transport methodDefinition) (fetchExchange s controller) as =
      some y) (hidle : y.session.stack = []) (hsettled : y.transport.stage = .settled) :
    (endsSeen (l.view y.session.log)).length = 1 ↔
      ¬ ∃ headers status, y.events = [.onHeaders headers status] ∧
        .move (.response (.ok headers) status false) ∈ as ∧
        (TransportEvent.onHeaders headers status).endsCall = false := by
  have hview : l.view y.session.log = (receive methodDefinition y.events : Reception M Res).seen :=
    congrArg Reception.seen (Exchange.receives_events hs rfl hclose h hidle)
  rw [hview, (Reception.endsLast_receive y.events).length]
  rcases (fetchInv_exec hclose h).settled hsettled with hend | ⟨headers, status, hevents, hmem⟩
  · refine ⟨?_, fun _ => if_pos (completed_of_onEnd hend)⟩
    rintro - ⟨headers, status, hevents, -⟩
    simp [hevents] at hend
  · simp only at hevents
    have hcompleted : (receive methodDefinition y.events : Reception M Res).completed =
        (TransportEvent.onHeaders headers status).endsCall := by
      rw [hevents, (receive_before methodDefinition (by simp [TransportEvent.isChunk])).2]
      simp
    rw [hcompleted]
    rcases hends : (TransportEvent.onHeaders headers status).endsCall with _ | _
    · exact ⟨fun h => by simp at h, fun hnone => absurd ⟨headers, status, hevents, hmem, hends⟩ hnone⟩
    · refine ⟨?_, fun _ => rfl⟩
      rintro - ⟨headers', status', hevents', -, hopen⟩
      obtain ⟨⟨⟩⟩ : [TransportEvent.onHeaders headers' status'] = [.onHeaders headers status] :=
        hevents'.symm.trans hevents
      simp [hends] at hopen

/-! ## Exceptions of `deserializeBinary` -/

/-- A loop over chunks is outstanding that comes to a message which cannot be deserialized. -/
def Raises (methodDefinition : MethodDefinition Req Res) (s : Session M Res) : Prop :=
  ∃ ds, .chunks ds ∈ s.stack ∧ ¬ Readable methodDefinition ds

omit [BrowserHeaders M] in
theorem Raises.of_subset {t : Session M Res} (h : Raises methodDefinition s)
    (hst : s.stack ⊆ t.stack) : Raises methodDefinition t :=
  h.imp fun _ hds => ⟨hst hds.1, hds.2⟩

omit [BrowserHeaders M] in
theorem subset_rawOnHeaders (headers : M) (s : Session M Res) :
    s.stack ⊆ (rawOnHeaders headers s).stack := by
  unfold rawOnHeaders
  split
  · exact List.Subset.refl _
  · exact List.subset_cons_self _ _

omit [BrowserHeaders M] in
theorem subset_rawOnMessage (res : Res) (s : Session M Res) :
    s.stack ⊆ (rawOnMessage res s).stack := by
  unfold rawOnMessage
  split
  · exact List.Subset.refl _
  · exact List.subset_cons_self _ _

omit [BrowserHeaders M] in
theorem subset_rawOnEnd (code : Number) (message : JsString) (trailers : M) (s : Session M Res) :
    s.stack ⊆ (rawOnEnd code message trailers s).stack := by
  unfold rawOnEnd
  split
  · exact List.Subset.refl _
  · exact List.subset_cons_self _ _

/-- A loop that is left behind the chunk `d` comes to the message, or `d` is the message. -/
theorem Raises.chunk {d : Chunk M} {ds : List (Chunk M)} {k : List (Task M Res)}
    (h : Raises methodDefinition s) (hk : s.stack = .chunks (d :: ds) :: k) :
    Raises methodDefinition (Client.onChunk methodDefinition d ds { s with stack := k }) ∨
      ∃ e, newEntry s (Client.onChunk methodDefinition d ds { s with stack := k }) =
        some (.uncaught e) := by
  have hrest : (∀ data e, d = .message data → methodDefinition.deserializeBinary data ≠ .error e) →
      Raises methodDefinition { s with stack := .chunks ds :: k } := by
    intro hd
    obtain ⟨cs, hcs, hbad⟩ := h
    rw [hk] at hcs
    rcases List.mem_cons.1 hcs with heq | hmem
    · obtain rfl : cs = d :: ds := Task.chunks.inj heq
      refine ⟨ds, List.mem_cons_self, fun hds => hbad fun data hdata => ?_⟩
      rcases List.mem_cons.1 hdata with hdata | hdata
      · rcases hres : methodDefinition.deserializeBinary data with e | res
        · exact absurd hres (hd data e hdata.symm)
        · exact ⟨res, rfl⟩
      · exact hds data hdata
    · exact ⟨cs, List.mem_cons_of_mem _ hmem, hbad⟩
  unfold Client.onChunk
  split
  · rename_i data
    split
    · exact .inr ⟨_, newEntry_append⟩
    · rename_i res hres
      refine .inl ((hrest ?_).of_subset (subset_rawOnMessage res _))
      rintro data' e ⟨⟩
      simp [hres]
  · have hready := hrest fun _ _ hd => by cases hd
    split
    · exact .inl (hready.of_subset fun _ hmem => subset_rawOnHeaders _ _ hmem)
    · exact .inl hready

/-- **The client comes to the message**, if nothing else happens to the loop: a step leaves the loop
outstanding, or throws the exception. -/
theorem Raises.step {t : Session M Res} {b : Action M Req} (h : Raises methodDefinition s)
    (hb : b.event? = none) (ht : Client.step methodDefinition s b = some t) :
    Raises methodDefinition t ∨ ∃ e, newEntry s t = some (.uncaught e) := by
  have hpop : ∀ {d : Task M Res} {k : List (Task M Res)} {t : Session M Res}, s.stack = d :: k →
      (∀ ds, d = .chunks ds → Readable methodDefinition ds) → k ⊆ t.stack →
      Raises methodDefinition t := by
    intro d k t hk hd hsub
    obtain ⟨ds, hds, hbad⟩ := h
    rw [hk] at hds
    refine ⟨ds, hsub ((List.mem_cons.1 hds).resolve_left ?_), hbad⟩
    exact fun heq => hbad (hd ds heq.symm)
  rcases step_inv ht with
    ⟨c, rfl, rfl⟩ | ⟨e, rfl, rfl⟩ | ⟨k, hk, ⟨rfl, rfl⟩ | ⟨rfl, rfl⟩⟩ | ⟨rfl, htick⟩
  · refine .inl (h.of_subset ?_)
    rcases c.kind with hc | hc | rfl
    · obtain ⟨client, e, heq, -⟩ := call_request methodDefinition hc s
      rw [heq]
      exact List.Subset.refl _
    · obtain ⟨client, heq, -⟩ := call_registration methodDefinition hc s
      rw [heq]
      exact List.Subset.refl _
    · rcases call_close methodDefinition s with ⟨e, heq, -⟩ | ⟨-, -, heq⟩ <;>
        · rw [heq]
          exact List.Subset.refl _
  · cases hb
  · exact .inl (hpop hk nofun (List.Subset.refl _))
  · exact .inl (hpop hk nofun (List.Subset.refl _))
  · cases move_of_tick htick with
    | exhausted hk hd =>
      refine .inl (hpop hk ?_ (List.Subset.refl _))
      rintro ds rfl
      cases ds with
      | nil => exact fun _ hdata => absurd hdata List.not_mem_nil
      | cons d ds => cases hd
    | onHeaders hk => exact .inl (hpop hk nofun (by simp))
    | onMessage hk => exact .inl (hpop hk nofun (by simp))
    | onEnd hk => exact .inl (hpop hk nofun (by simp))
    | skipsMessage hk => exact .inl (hpop hk nofun (by simp))
    | skipsEnd hk => exact .inl (hpop hk nofun (by simp))
    | chunk hk => exact h.chunk hk
    | error hk => exact .inl (hpop hk nofun fun _ hmem => subset_rawOnEnd _ _ _ _ hmem)

/-- No message that `parse` reads makes `deserializeBinary` throw, also behind the end of the
call. -/
def AllLegible (methodDefinition : MethodDefinition Req Res)
    (events : List (TransportEvent M)) : Prop :=
  ∀ before e after, events = before ++ e :: after → LegibleAt methodDefinition before e

theorem AllLegible.legible {events : List (TransportEvent M)}
    (h : AllLegible methodDefinition events) : Legible methodDefinition events :=
  fun before e after heq _ => h before e after heq

theorem AllLegible.concat {events : List (TransportEvent M)} {e : TransportEvent M}
    (h : AllLegible methodDefinition events) (he : LegibleAt methodDefinition events e) :
    AllLegible methodDefinition (events ++ [e]) := by
  intro before e' after heq
  rcases List.eq_nil_or_concat' after with rfl | ⟨after, last, rfl⟩
  · obtain ⟨rfl, rfl⟩ := List.append_singleton_inj.1 heq
    exact he
  · have heq' : events ++ [e] = (before ++ e' :: after) ++ [last] := by simpa using heq
    obtain ⟨rfl, -⟩ := List.append_singleton_inj.1 heq'
    exact h before e' after rfl

/-- How far a call has come that is not closed: the messages could be deserialized so far; or the
client comes to one that cannot; or it has thrown the exception, and the request only ends. -/
inductive FetchCourse (methodDefinition : MethodDefinition Req Res)
    (x : Exchange M Res (Fetch M JsString)) : Prop
  | legible (h : AllLegible methodDefinition x.events)
  | raising {events : List (TransportEvent M)} {chunk : Bytes}
    (hevents : x.events = events ++ [.onChunk chunk]) (h : AllLegible methodDefinition events)
    (hbad : ¬ LegibleAt methodDefinition events (.onChunk chunk))
    (hstage : x.transport.stage = .onChunk) (hraises : Raises methodDefinition x.session)
  | raised {events later : List (TransportEvent M)} {chunk : Bytes}
    (hevents : x.events = events ++ .onChunk chunk :: later)
    (h : AllLegible methodDefinition events)
    (hbad : ¬ LegibleAt methodDefinition events (.onChunk chunk))
    (hover : x.transport.Over)
    (hlater : ∀ e ∈ later, e = .onEnd)

variable {x : Exchange M Res (Fetch M JsString)}

namespace FetchCourse

/-- **The client goes on**, by something else than `close`. -/
theorem client {b : Action M Req} {s : Session M Res} (h : FetchCourse methodDefinition x)
    (hs : Client.step methodDefinition x.session b = some s) (hb : b.event? = none)
    (hclose : b ≠ .call .close) (hy : x.follow Fetch.transport s = some y) :
    FetchCourse methodDefinition y := by
  cases h with
  | legible h =>
    refine .legible ?_
    rcases Exchange.follow_inv hs hb hy with rfl | ⟨c, t, -, hc, rfl⟩ | ⟨e, rfl⟩
    · exact h
    · rw [Fetch.answer_eq, Option.toList_none, List.append_nil]
      exact h
    · exact h
  | raising hevents h hbad hstage hraises =>
    rcases hraises.step hb hs with hraises | ⟨e, he⟩
    · rcases Exchange.follow_inv hs hb hy with rfl | ⟨c, t, ht, hc, rfl⟩ | ⟨e, rfl⟩
      · exact .raising hevents h hbad hstage hraises
      · have hsame := Fetch.stage_call (mt hc hclose) (by simp [hstage]) ht
        refine .raising ?_ h hbad (hsame.trans hstage) hraises
        rw [Fetch.answer_eq, Option.toList_none, List.append_nil]
        exact hevents
      · exact .raised hevents h hbad (Fetch.over_throws hstage e) nofun
    · rw [Exchange.follow, he] at hy
      cases hy
      exact .raised hevents h hbad (Fetch.over_throws hstage e) nofun
  | raised hevents h hbad hover hlater =>
    rcases Exchange.follow_inv hs hb hy with rfl | ⟨c, t, ht, hc, rfl⟩ | ⟨e, rfl⟩
    · exact .raised hevents h hbad hover hlater
    · refine .raised ?_ h hbad (hover.call (mt hc hclose) ht) hlater
      rw [Fetch.answer_eq, Option.toList_none, List.append_nil]
      exact hevents
    · refine .raised hevents h hbad ?_ hlater
      rw [hover.throws]
      exact hover

/-- Bytes that have been left unread are those of the history. -/
theorem unread_receive (events : List (TransportEvent M)) :
    (receive methodDefinition events : Reception M Res).unread = unreadAfter events := by
  induction events using List.reverseRecOn with
  | nil => rfl
  | append_singleton events e ih =>
    rw [receive_concat, unreadAfter_concat, ← ih]
    cases e with
    | onHeaders headers status =>
      simp only [Reception.handle, Reception.takeHeaders, unreadOf]
      split
      · rfl
      · split <;> simp
    | onChunk bytes =>
      simp only [Reception.handle, Reception.takeBytes, unreadOf]
      split
      · simp
      · rw [Reception.takeChunks_leave, Reception.unread_leave]
    | onEnd => simp [Reception.handle, Reception.takeEnd, unreadOf]

/-- A chunk with a message that cannot be deserialized, given to a client that listens. -/
theorem raises_deliver (h : Exchange.Faithful methodDefinition l x) (hx : x.session.stack = [])
    {chunk : Bytes} (hbad : ¬ LegibleAt methodDefinition x.events (.onChunk chunk)) :
    Raises methodDefinition (deliver x.session (.onChunk chunk)) := by
  have hpending : x.session.client.parser.pending = unreadAfter x.events := by
    have hunread : (receive methodDefinition x.events : Reception M Res).unread =
        unreadAfter x.events := unread_receive x.events
    rw [← hunread, ← h.outcome, Session.outcome, hx]
    rfl
  simp only [LegibleAt, not_forall] at hbad
  obtain ⟨ds, hread, hbad⟩ := hbad
  refine ⟨ds, ?_, hbad⟩
  have hparse : (x.session.client.parser.parse chunk : Except JsString (List (Chunk M)) × _).1 =
      .ok ds := by
    rw [(ChunkParser.parse_eq _ _).1, hpending]
    exact hread
  rw [deliver, onTransportChunk, if_neg (by simp [h.listening.opened])]
  simp [hparse]

omit [BrowserHeaders M] in
theorem not_raises (hx : x.session.stack = []) : ¬ Raises methodDefinition x.session := by
  rintro ⟨ds, hds, -⟩
  simp [hx] at hds

/-- **The request moves.** -/
theorem move (h : FetchCourse methodDefinition x) (hl : Exchange.Faithful methodDefinition l x)
    (hx : x.session.stack = []) {a : Fetch.Action M JsString}
    {r : Fetch M JsString × Option (TransportEvent M)}
    (hr : Fetch.transport.move x.transport a = some r) :
    FetchCourse methodDefinition (x.deliver r) := by
  obtain ⟨htransport, hevents⟩ := x.transport_of_deliver r
  cases h with
  | legible h =>
    rcases hgives : r.2 with _ | e
    · refine .legible ?_
      rwa [hevents, hgives, Option.toList_none, List.append_nil]
    · rw [hgives, Option.toList_some] at hevents
      by_cases he : LegibleAt methodDefinition x.events e
      · exact .legible (hevents ▸ h.concat he)
      · cases e with
        | onHeaders headers status => exact absurd trivial he
        | onEnd => exact absurd trivial he
        | onChunk chunk =>
          refine .raising hevents h he (htransport ▸ Fetch.stage_move hr hgives) ?_
          obtain ⟨t, e⟩ := r
          obtain rfl : e = some (.onChunk chunk) := hgives
          exact raises_deliver hl hx he
  | raising _ _ _ _ hraises => exact absurd hraises (not_raises hx)
  | @raised events later chunk heq h hbad hover hlater =>
    obtain ⟨hover', hends⟩ := hover.move hr
    have heq' : (x.deliver r).events = events ++ .onChunk chunk :: (later ++ r.2.toList) := by
      rw [hevents, heq, List.append_assoc, List.cons_append]
    refine .raised heq' h hbad (htransport ▸ hover') fun e he => ?_
    exact (List.mem_append.1 he).elim (hlater e) (hends e)

/-- **The client returns from an event.** -/
theorem handled (h : FetchCourse methodDefinition x) (hx : x.session.stack = []) :
    FetchCourse methodDefinition (x.deliver (Fetch.transport.returns x.transport)) := by
  cases h with
  | legible h => exact .legible h
  | raising _ _ _ _ hraises => exact absurd hraises (not_raises hx)
  | raised hevents h hbad hover hlater =>
    rw [hover.returns]
    exact .raised hevents h hbad hover hlater

end FetchCourse

theorem fetchCourse_exec (hs : Awaiting l s) (hclose : .client (.call .close) ∉ as)
    (h : exec (Exchange.step Fetch.transport methodDefinition) (fetchExchange s controller) as =
      some y) : FetchCourse methodDefinition y := by
  have hfaithful : Exchange.Faithful methodDefinition l
      (fetchExchange s controller : Exchange M Res (Fetch M JsString)) := by
    refine ⟨hs.listening, ?_⟩
    show s.outcome methodDefinition l = _
    rw [Session.outcome, hs.stack, List.foldl_nil, hs.reception]
    rfl
  have hstart : FetchCourse methodDefinition
      (fetchExchange s controller : Exchange M Res (Fetch M JsString)) :=
    .legible fun before e after heq => by simp [fetchExchange] at heq
  refine (exec_preserves_along
    (P := fun x => Exchange.Faithful methodDefinition l x ∧ FetchCourse methodDefinition x)
    (fun x a t hP (ha : a ∈ as) hstep => ?_) ⟨hfaithful, hstart⟩ along_mem h).2
  obtain ⟨hl, hx⟩ := hP
  have hne : a ≠ .client (.call .close) := ne_of_mem_of_not_mem ha hclose
  refine ⟨hl.step hne hstep, ?_⟩
  rcases Exchange.step_inv hstep with
    ⟨b, u, rfl, hb, hu, hy⟩ | ⟨m, r, rfl, hidle, hr, rfl⟩ | ⟨rfl, hidle, rfl⟩
  · exact hx.client hu hb (fun hb => hne (hb ▸ rfl)) hy
  · exact hx.move hl hidle hr
  · exact hx.handled hidle

/-! ## Messages that came before the status -/

/-- Of the chunks of a parse, which ends at the first MSB frame, those before a message that cannot
be deserialized are messages. -/
theorem takeChunks_of_not_readable {fs : List Frame} {ds : List (Chunk M)}
    (hlast : ∀ f ∈ fs.dropLast, f.isTrailer = false) (hds : toChunks fs = .ok ds)
    (hbad : ¬ Readable methodDefinition ds) (r : Reception M Res) :
    (r.takeChunks methodDefinition ds).headers = r.headers ∧
      (r.takeChunks methodDefinition ds).trailers = r.trailers := by
  induction fs generalizing ds r with
  | nil =>
    cases hds
    exact ⟨rfl, rfl⟩
  | cons f fs ih =>
    obtain ⟨d, ds, hd, hfs, rfl⟩ := toChunks_cons_eq_ok hds
    have hthrows : Readable methodDefinition ds → ∃ data e, d = .message data ∧
        methodDefinition.deserializeBinary data = .error e := by
      intro hread
      simp only [Readable, not_forall] at hbad
      obtain ⟨data, hmem, hnone⟩ := hbad
      rcases List.mem_cons.1 hmem with hdata | hmem
      · rcases hres : methodDefinition.deserializeBinary data with e | res
        · exact ⟨data, e, hdata.symm, hres⟩
        · exact absurd ⟨res, hres⟩ hnone
      · exact absurd (hread data hmem) hnone
    rcases toChunk_eq_ok hd with ⟨-, rfl⟩ | ⟨htrailer, m, -, rfl⟩
    · rw [Reception.takeChunks]
      rcases hres : methodDefinition.deserializeBinary f.payload with e | res
      · exact ⟨rfl, rfl⟩
      · have hbad' : ¬ Readable methodDefinition ds := fun hread => by
          obtain ⟨data, e, ⟨⟩, he⟩ := hthrows hread
          simp [hres] at he
        have hlast' : ∀ g ∈ fs.dropLast, g.isTrailer = false := fun g hg =>
          hlast g (ItemParser.mem_dropLast_append_right (l := [f]) hg)
        simpa using ih hlast' hfs hbad' (r.see (.message res))
    · -- an MSB frame is the last one, so the message would have come before it
      have hnil : fs = [] := by
        by_contra hne
        have hmem : f ∈ (f :: fs).dropLast := by
          rw [List.dropLast_cons_of_ne_nil hne]
          exact List.mem_cons_self
        simp [hlast f hmem] at htrailer
      subst hnil
      cases hfs
      obtain ⟨data, e, ⟨⟩, -⟩ := hthrows fun data hdata => absurd hdata List.not_mem_nil

omit [BrowserHeaders M] in
theorem messagesSeen_prefix {seen seen' : List (Dispatch M Res)} (h : seen <+: seen') :
    ∃ rest, messagesSeen seen' = messagesSeen seen ++ rest := by
  obtain ⟨rest, rfl⟩ := h
  exact ⟨_, List.filterMap_append⟩

variable (methodDefinition) in
/-- Every message that came before the collection with which the call ended with OK was
delivered, in order. -/
def DeliversBefore (events : List (TransportEvent M)) (t : M) (messages : List Res) : Prop :=
  ∃ before after ress rest, events = before ++ after ∧ finalBlock (blocks before) = some t ∧
    Delivers methodDefinition (framesRead before) ress ∧ messages = ress ++ rest

/-- The messages can be deserialized as long as the call has not ended. -/
theorem deliversBefore_of_legible {events : List (TransportEvent M)}
    (hl : Legible methodDefinition events) {message : JsString} {t : M}
    (hok : ((Code.ok : Number), message, t) ∈
      endsSeen (receive methodDefinition events : Reception M Res).seen)
    (later : List (TransportEvent M)) :
    DeliversBefore methodDefinition (events ++ later) t
      (messagesSeen (receive methodDefinition (events ++ later) : Reception M Res).seen) := by
  obtain ⟨before, after, rfl, hd, hfinal, -⟩ := endsOk_of_mem hl hok
  rw [List.append_assoc]
  obtain ⟨rest, hrest⟩ := messagesSeen_prefix
    (seen_receive_extends methodDefinition before (.onEnd :: after ++ later))
  exact ⟨before, _, _, rest, rfl, hfinal, delivers_undecided hl.of_append hd, hrest⟩

/-- A chunk with a message that cannot be deserialized does not end a call, and brings no
collection. -/
theorem handle_of_not_legible {events : List (TransportEvent M)} {r : Reception M Res}
    (hopen : Undecided events r) {chunk : Bytes}
    (hbad : ¬ LegibleAt methodDefinition events (.onChunk chunk)) :
    (r.handle methodDefinition (.onChunk chunk)).completed = false ∧
      endsSeen (r.handle methodDefinition (.onChunk chunk)).seen = [] ∧
      (r.handle methodDefinition (.onChunk chunk)).headers = latestHeaders (blocks events) ∧
      (r.handle methodDefinition (.onChunk chunk)).trailers = lastTrailers (blocks events) := by
  simp only [LegibleAt, not_forall] at hbad
  obtain ⟨ds, hread, hbad⟩ := hbad
  rw [readChunk, ← hopen.unread] at hread
  rw [Reception.handle, Reception.takeBytes]
  simp only [hread]
  obtain ⟨hcompleted, hends⟩ := endsSeen_takeChunks methodDefinition ds
    (r.leave (frames.drainTo Frame.isTrailer (r.unread ++ chunk)).2)
  obtain ⟨hheaders, htrailers⟩ := takeChunks_of_not_readable
    (fun f hf => frames.stop_of_mem_dropLast hf) hread hbad
    (r.leave (frames.drainTo Frame.isTrailer (r.unread ++ chunk)).2)
  exact ⟨hcompleted.trans hopen.completed, hends.trans hopen.ends,
    hheaders.trans hopen.describes.headers, htrailers.trans hopen.describes.trailers⟩

/-- A message cannot be deserialized, and after it the transport only ends. -/
theorem deliversBefore_of_raised {events later : List (TransportEvent M)} {chunk : Bytes}
    (h : AllLegible methodDefinition events)
    (hbad : ¬ LegibleAt methodDefinition events (.onChunk chunk))
    (hlater : ∀ e ∈ later, e = .onEnd) {message : JsString} {t : M}
    (hok : ((Code.ok : Number), message, t) ∈ endsSeen
      (receive methodDefinition (events ++ .onChunk chunk :: later) : Reception M Res).seen) :
    DeliversBefore methodDefinition (events ++ .onChunk chunk :: later) t
      (messagesSeen (receive methodDefinition (events ++ .onChunk chunk :: later) :
        Reception M Res).seen) := by
  rcases hd : decision [] events with _ | code
  · have hopen : Undecided events (receive methodDefinition events : Reception M Res) :=
      receive_undecided h.legible hd
    obtain ⟨rest, hrest⟩ := messagesSeen_prefix
      (seen_receive_extends methodDefinition events (.onChunk chunk :: later))
    refine ⟨events, _, _, rest, rfl, ?_, delivers_undecided h.legible hd, hrest⟩
    obtain ⟨hcompleted, hends, hheaders, htrailers⟩ := handle_of_not_legible hopen hbad
    rw [receive, List.foldl_append, List.foldl_cons, ← receive] at hok
    generalize (receive methodDefinition events : Reception M Res).handle methodDefinition
      (.onChunk chunk) = r at hok hcompleted hends hheaders htrailers
    rcases later with _ | ⟨e, later⟩
    · simp [hends] at hok
    obtain rfl : e = .onEnd := hlater e List.mem_cons_self
    have hseen : (List.foldl (Reception.handle methodDefinition) r (.onEnd :: later)).seen =
        r.takeEnd.seen := (Reception.foldl_handle_of_completed rfl later).2
    rw [hseen, Reception.takeEnd, endsSeen_finish hcompleted, hends, List.nil_append,
      List.mem_singleton, hheaders, htrailers] at hok
    exact (endOf_eq_ok hok).1
  · have hcompleted : (receive methodDefinition events : Reception M Res).completed = true := by
      have hlast : (receive methodDefinition events : Reception M Res).EndsLast :=
        Reception.endsLast_receive events
      have hends := hlast.length
      by_contra hopen
      have hcode := endsSeen_code h.legible
      rw [if_neg hopen] at hends
      rw [List.length_eq_zero_iff.1 hends, hd] at hcode
      cases hcode
    rw [receive, List.foldl_append, ← receive,
      (Reception.foldl_handle_of_completed hcompleted _).2] at hok
    exact deliversBefore_of_legible h.legible hok _

/-- **Over Fetch, a call that ends with OK has lost no message that came before its status**,
whatever `deserializeBinary` throws: the exception rejects the promise, and the call ends with what
had come by then. -/
theorem fetch_ok_delivers (hs : Awaiting l s) (hclose : .client (.call .close) ∉ as)
    (h : exec (Exchange.step Fetch.transport methodDefinition) (fetchExchange s controller) as =
      some y) (hidle : y.session.stack = []) {message : JsString} {t : M}
    (hok : ((Code.ok : Number), message, t) ∈ endsSeen (l.view y.session.log)) :
    DeliversBefore methodDefinition y.events t (messagesSeen (l.view y.session.log)) := by
  have hview : l.view y.session.log = (receive methodDefinition y.events : Reception M Res).seen :=
    congrArg Reception.seen (Exchange.receives_events hs rfl hclose h hidle)
  rw [hview] at hok ⊢
  cases fetchCourse_exec hs hclose h with
  | legible hlegible => simpa using deliversBefore_of_legible hlegible.legible hok []
  | raising _ _ _ _ hraises => exact absurd hraises (FetchCourse.not_raises hidle)
  | raised hevents hlegible hbad _ hlater =>
    rw [hevents] at hok ⊢
    exact deliversBefore_of_raised hlegible hbad hlater hok

end

/-- A message and the status come, and then a message that cannot be deserialized. -/
def lateMessage : List (ExchangeAction HeaderFields Bytes (Fetch.Action HeaderFields JsString)) :=
  List.flatten [callRun [1],
    [.move (.response (.ok ⟨[]⟩) 200 true)], callbackRun, [.handled],
    [.move (.chunk (frameBytes [8]))], messageRun,
    [.move (.chunk (⟨0x80, ascii "grpc-status:0"⟩ : Frame).write)], trailersRun,
    [.move (.chunk (frameBytes [7])), .client .tick, .move .catches], callbackRun, [.handled]]

/-- A response without a body whose headers end the call. -/
def failedResponse :
    List (ExchangeAction HeaderFields Bytes (Fetch.Action HeaderFields JsString)) :=
  List.flatten [callRun [1], [.move (.response (.ok ⟨[]⟩) 503 false)], callbackRun,
    [.client .tick], callbackRun, [.handled]]

theorem fetch_ok_delivers_lateMessage :
    ∃ (y : Exchange HeaderFields Bytes (Fetch HeaderFields JsString)) (t : HeaderFields),
      exec (Exchange.step Fetch.transport partialMethod)
        (fetchExchange (Session.withCallbacks true 1 1 1) true) lateMessage = some y ∧
      messagesSeen ((⟨0, 0, 0⟩ : Listener).view y.session.log) = [[8]] ∧
      DeliversBefore partialMethod y.events t [[8]] := by
  have hend : (exec (Exchange.step Fetch.transport partialMethod)
      (fetchExchange (Session.withCallbacks true 1 1 1) true) lateMessage).map (fun y =>
        (y.session.stack, messagesSeen ((⟨0, 0, 0⟩ : Listener).view y.session.log),
          (endsSeen ((⟨0, 0, 0⟩ : Listener).view y.session.log)).map Prod.fst)) =
      some ([], [[8]], [(Code.ok : Number)]) := by
    decide +kernel
  obtain ⟨y, hy, heq⟩ := Option.map_eq_some_iff.1 hend
  simp only [Prod.mk.injEq] at heq
  obtain ⟨hidle, hmessages, hcode⟩ := heq
  obtain ⟨⟨code, message, t⟩, hok, rfl⟩ := List.mem_map.1 (hcode ▸ List.mem_singleton_self _)
  exact ⟨y, t, hy, hmessages, hmessages ▸ fetch_ok_delivers
    (awaiting_withCallbacks true (by decide) (by decide) (by decide))
    (by simp [lateMessage, callRun, callbackRun, messageRun, trailersRun]) hy hidle hok⟩

theorem fetch_call_ends_failedResponse :
    ∃ y : Exchange HeaderFields Bytes (Fetch HeaderFields JsString),
      exec (Exchange.step Fetch.transport partialMethod)
        (fetchExchange (Session.withCallbacks true 1 1 1) true) failedResponse = some y ∧
      y.events = [.onHeaders ⟨[]⟩ 503] ∧
      (endsSeen ((⟨0, 0, 0⟩ : Listener).view y.session.log)).length = 1 := by
  have hend : (exec (Exchange.step Fetch.transport partialMethod)
      (fetchExchange (Session.withCallbacks true 1 1 1) true) failedResponse).map (fun y =>
        (y.session.stack, y.transport.stage, y.events)) =
      some ([], .settled, [.onHeaders ⟨[]⟩ 503]) := by
    decide +kernel
  obtain ⟨y, hy, heq⟩ := Option.map_eq_some_iff.1 hend
  simp only [Prod.mk.injEq] at heq
  obtain ⟨hidle, hsettled, hevents⟩ := heq
  refine ⟨y, hy, hevents, (fetch_call_ends
    (awaiting_withCallbacks true (by decide) (by decide) (by decide))
    (by simp [failedResponse, callRun, callbackRun]) hy hidle hsettled).2 ?_⟩
  rintro ⟨headers, status, heq, -, hopen⟩
  obtain ⟨⟨⟩⟩ : [TransportEvent.onHeaders headers status] = [.onHeaders ⟨[]⟩ 503] :=
    heq.symm.trans hevents
  exact absurd hopen (by decide +kernel)

end GrpcWeb.Client

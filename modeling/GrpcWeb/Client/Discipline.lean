import Mathlib.Data.List.Nodup
import GrpcWeb.Client.Steps

/-!
# The callbacks of a call

A call is completed from five places, and transports deliver late and repeated events. What holds
the callbacks together is the flag `completed`: it is set where the loop over the `onEnd` callbacks
starts, and nothing is dispatched once it is set.

`EndInv m` is the invariant. Until the call completes no `onEnd` callback has run or is about to.
Afterwards no task of the stack starts an `onHeaders` or `onMessage` callback, and the `onEnd`
callbacks that have run, followed by those that are about to, are the ones that were registered when
the call completed, in order; a close only leaves some of them out. The number `m` bounds from below
how many were registered.

The events are delivered one at a time (`OneAtATime`): none from inside a callback. The callbacks
may throw, close the client, register further callbacks or drive the request.
-/

namespace GrpcWeb.Client

open Js

variable {M Req Res : Type}

/-- A callback for the end of the call has started. -/
def Entry.isEnd : Entry M Res → Bool
  | .onEnd _ _ _ _ => true
  | _ => false

/-- A callback for the response has started. -/
def Entry.isResponse : Entry M Res → Bool
  | .onHeaders _ _ => true
  | .onMessage _ _ => true
  | _ => false

/-- The `onEnd` callback that an entry starts. -/
def Entry.ending : Entry M Res → Option ℕ
  | .onEnd f _ _ _ => some f
  | _ => none

/-- The `onEnd` callbacks that have run. -/
def endings (log : List (Entry M Res)) : List ℕ := log.filterMap Entry.ending

/-- The `onEnd` callbacks that a task will run. -/
def Task.pending : Task M Res → List ℕ
  | .onEnd callbacks _ _ _ => callbacks
  | _ => []

/-- A task that starts callbacks for the response. -/
def Task.isResponse : Task M Res → Bool
  | .onHeaders _ _ => true
  | .onMessage _ _ => true
  | _ => false

/-- The task that ends `onTransportHeaders`. -/
def Task.isError : Task M Res → Bool
  | .error _ _ _ => true
  | _ => false

/-- Events are delivered one at a time, when nothing is left of the one before. -/
def OneAtATime (s : Session M Res) : Action M Req → Prop
  | .event _ => s.stack = []
  | _ => True

instance (s : Session M Res) (a : Action M Req) : Decidable (OneAtATime s a) :=
  match a with
  | .event _ => inferInstanceAs (Decidable (s.stack = []))
  | .call _ | .returns | .throws | .tick => .isTrue trivial

theorem endings_eq_nil_iff {log : List (Entry M Res)} :
    endings log = [] ↔ ∀ e ∈ log, e.isEnd = false := by
  rw [endings, List.filterMap_eq_nil_iff]
  exact forall₂_congr fun e _ => by cases e <;> simp [Entry.ending, Entry.isEnd]

/-! ## The invariant -/

/-- What holds of a session whose events come one at a time, in which at least `m` callbacks for the
end were registered before the call completed. -/
structure EndInv (m : ℕ) (s : Session M Res) : Prop where
  names : s.client.onEndCallbacks = List.range s.client.onEndCallbacks.length
  count : m ≤ s.client.onEndCallbacks.length
  /-- below the task that ends `onTransportHeaders` no callback for the response is outstanding -/
  order : s.stack.Pairwise fun t u => t.isError = true → u.isResponse = false
  /-- before the call completes -/
  before : s.client.completed = false → endings s.log = [] ∧ ∀ t ∈ s.stack, t.pending = []
  /-- after the call has completed -/
  response : s.client.completed = true → ∀ t ∈ s.stack, t.isResponse = false
  after : s.client.completed = true → ∃ n, m ≤ n ∧
    (endings s.log ++ s.stack.flatMap Task.pending).Sublist (List.range n) ∧
    (s.client.closed = false → endings s.log ++ s.stack.flatMap Task.pending = List.range n)
  quiet : s.log.Pairwise fun e f => e.isEnd = true → f.isResponse = false

namespace EndInv

variable {m : ℕ} {s : Session M Res}

/-- Fields that the invariant does not speak of may change; a close may be recorded in them. -/
theorem modify (h : EndInv m s) (client : GrpcClient M)
    (hc : client.completed = s.client.completed)
    (hcl : client.closed = false → s.client.closed = false)
    (he : client.onEndCallbacks = s.client.onEndCallbacks) :
    EndInv m { s with client := client } where
  names := he ▸ h.names
  count := he ▸ h.count
  order := h.order
  before hb := h.before (hc.symm.trans hb)
  response hr := h.response (hc.symm.trans hr)
  after ha := by
    obtain ⟨n, hn, hsub, heq⟩ := h.after (hc.symm.trans ha)
    exact ⟨n, hn, hsub, fun ho => heq (hcl ho)⟩
  quiet := h.quiet

/-- Registering a callback for the end. -/
theorem register (h : EndInv m s) :
    EndInv m (s.modify fun c =>
      { c with onEndCallbacks := c.onEndCallbacks ++ [c.onEndCallbacks.length] }) where
  names := by
    simp only [Session.client_modify, List.length_append, List.length_singleton, List.range_succ]
    rw [← h.names]
  count := by simpa using Nat.le_succ_of_le h.count
  order := h.order
  before := h.before
  response := h.response
  after := h.after
  quiet := h.quiet

/-- A task that runs no callback for the end, and none for the response of a completed call. -/
theorem push (h : EndInv m s) {t : Task M Res} (hp : t.pending = [])
    (hr : s.client.completed = true → t.isResponse = false)
    (he : t.isError = true → ∀ u ∈ s.stack, u.isResponse = false) : EndInv m (s.push t) where
  names := h.names
  count := h.count
  order := List.pairwise_cons.2 ⟨fun u hu het => he het u hu, h.order⟩
  before hb := ⟨(h.before hb).1, List.forall_mem_cons.2 ⟨hp, (h.before hb).2⟩⟩
  response hc := List.forall_mem_cons.2 ⟨hr hc, h.response hc⟩
  after := by simpa [hp] using h.after
  quiet := h.quiet

theorem pop (h : EndInv m s) {t : Task M Res} {k : List (Task M Res)} (hk : s.stack = t :: k)
    (hp : t.pending = []) : EndInv m { s with stack := k } where
  names := h.names
  count := h.count
  order := (List.pairwise_cons.1 (hk ▸ h.order)).2
  before hb := ⟨(h.before hb).1, (List.forall_mem_cons.1 (hk ▸ (h.before hb).2)).2⟩
  response hc := (List.forall_mem_cons.1 (hk ▸ h.response hc)).2
  after := by simpa [hk, hp] using h.after
  quiet := h.quiet

/-- An entry that is no end, and that may stand behind an end. -/
theorem record_of_no_end (h : EndInv m s) {e : Entry M Res} (hend : e.ending = none)
    (hquiet : ∀ x ∈ s.log, x.isEnd = true → e.isResponse = false) : EndInv m (s.record e) := by
  have hlog : endings (s.log ++ [e]) = endings s.log := by simp [endings, hend]
  refine ⟨h.names, h.count, h.order, fun hb => ?_, h.response, fun ha => ?_, ?_⟩
  · rw [Session.log_record, hlog]
    exact h.before hb
  · rw [Session.log_record, hlog]
    exact h.after ha
  · refine List.pairwise_append.2 ⟨h.quiet, List.pairwise_singleton _ _, fun x hx y hy => ?_⟩
    rw [List.mem_singleton.1 hy]
    exact hquiet x hx

/-- An entry that is no callback. -/
theorem record (h : EndInv m s) {e : Entry M Res} (he : e.isCallback = false) :
    EndInv m (s.record e) := by
  refine h.record_of_no_end ?_ fun _ _ _ => ?_
  · cases e <;> first | rfl | cases he
  · cases e <;> first | rfl | cases he

/-- **A callback for the response starts**: the call is not completed. -/
theorem start_response (h : EndInv m s) {e : Entry M Res} (he : e.isResponse = true)
    (hc : s.client.completed = false) : EndInv m (s.record e) := by
  refine h.record_of_no_end ?_ fun x hx hxe => ?_
  · cases e <;> first | rfl | cases he
  · have := endings_eq_nil_iff.1 (h.before hc).1 x hx
    rw [hxe] at this
    cases this

/-- **The call completes**: the loop over all the callbacks for the end starts. -/
theorem rawOnEnd (h : EndInv m s) (hs : ∀ t ∈ s.stack, t.isResponse = false) (code : Number)
    (message : JsString) (trailers : M) : EndInv m (rawOnEnd code message trailers s) := by
  by_cases hc : s.client.completed = true
  · rw [rawOnEnd_of_completed hc]
    exact h
  · have hc' : s.client.completed = false := by simpa using hc
    obtain ⟨hend, hpend⟩ := h.before hc'
    have hflat : s.stack.flatMap Task.pending = [] := List.flatMap_eq_nil_iff.2 hpend
    have hstack := stack_rawOnEnd hc' code message trailers
    have hall : endings s.log ++
        (Client.rawOnEnd code message trailers s).stack.flatMap Task.pending =
          List.range s.client.onEndCallbacks.length := by
      rw [hstack, List.flatMap_cons, hend, hflat, List.nil_append, List.append_nil]
      exact h.names
    refine ⟨?_, ?_, ?_, fun hb => ?_, fun _ => ?_, fun _ => ?_, ?_⟩
    · simpa using h.names
    · simpa using h.count
    · rw [hstack]
      exact List.pairwise_cons.2 ⟨fun _ _ he => (by cases he), h.order⟩
    · simp at hb
    · rw [hstack]
      exact List.forall_mem_cons.2 ⟨rfl, hs⟩
    · rw [log_rawOnEnd]
      exact ⟨_, h.count, hall ▸ .refl _, fun _ => hall⟩
    · rw [log_rawOnEnd]
      exact h.quiet

theorem rawOnHeaders (h : EndInv m s) (headers : M) : EndInv m (rawOnHeaders headers s) := by
  unfold Client.rawOnHeaders
  split
  · exact h
  · rename_i hc
    exact h.push rfl (fun hc' => absurd hc' hc) (fun he => by cases he)

theorem rawOnMessage (h : EndInv m s) (res : Res) : EndInv m (rawOnMessage res s) := by
  unfold Client.rawOnMessage
  split
  · exact h
  · rename_i hc
    exact h.push rfl (fun hc' => absurd (by simp [hc']) hc) (fun he => by cases he)

/-- Starting the next callback of the loop over the callbacks for the end, or leaving it out. -/
theorem next_end (h : EndInv m s) {f : ℕ} {fs : List ℕ} {code : Number} {message : JsString}
    {trailers : M} {k : List (Task M Res)}
    (hk : s.stack = .onEnd (f :: fs) code message trailers :: k) :
    EndInv m ({ s with stack := .running :: .onEnd fs code message trailers :: k }.record
      (.onEnd f code message trailers)) ∧
      (s.client.closed = true →
        EndInv m { s with stack := .onEnd fs code message trailers :: k }) := by
  have hc : s.client.completed = true := by
    by_contra hc
    have := (h.before (by simpa using hc)).2 _ (by rw [hk]; exact List.mem_cons_self)
    cases this
  obtain ⟨n, hn, hsub, heq⟩ := h.after hc
  have hord := List.pairwise_cons.1 (hk ▸ h.order)
  have hresp := List.forall_mem_cons.1 (hk ▸ h.response hc)
  have hlist : endings (s.log ++ [Entry.onEnd f code message trailers]) ++
      (Task.onEnd fs code message trailers :: k).flatMap Task.pending =
        endings s.log ++ s.stack.flatMap Task.pending := by
    simp [endings, Entry.ending, hk, Task.pending]
  constructor
  · refine ⟨h.names, h.count, ?_, fun hb => ?_, fun _ => ?_, fun _ => ⟨n, hn, ?_, fun ho => ?_⟩, ?_⟩
    · refine List.pairwise_cons.2 ⟨fun _ _ he => (by cases he), ?_⟩
      exact List.pairwise_cons.2 ⟨fun _ _ he => (by cases he), hord.2⟩
    · exact absurd (hc.symm.trans hb) (by simp)
    · exact List.forall_mem_cons.2 ⟨rfl, List.forall_mem_cons.2 ⟨rfl, hresp.2⟩⟩
    · exact hlist ▸ hsub
    · exact hlist.trans (heq ho)
    · refine List.pairwise_append.2 ⟨h.quiet, List.pairwise_singleton _ _, fun x _ y hy _ => ?_⟩
      rw [List.mem_singleton.1 hy]
      rfl
  · intro hcl
    refine ⟨h.names, h.count, ?_, fun hb => ?_, fun _ => ?_,
      fun _ => ⟨n, hn, ?_, fun ho => ?_⟩, h.quiet⟩
    · exact List.pairwise_cons.2 ⟨fun _ _ he => (by cases he), hord.2⟩
    · exact absurd (hc.symm.trans hb) (by simp)
    · exact List.forall_mem_cons.2 ⟨rfl, hresp.2⟩
    · refine .trans ?_ hsub
      rw [hk]
      exact (List.Sublist.refl _).append ((List.sublist_cons_self f fs).append (.refl _))
    · exact absurd (hcl.symm.trans ho) (by simp)

/-- Writing an entry that is no callback, where the request side of the client may change. -/
theorem write (h : EndInv m s) {client : GrpcClient M} {e : Entry M Res} (he : e.isCallback = false)
    (hcl : client.toReceiver = s.client.toReceiver) :
    EndInv m { s with client := client, log := s.log ++ [e] } :=
  (h.modify client (by rw [hcl]) (fun ho => by rwa [hcl] at ho) (by rw [hcl])).record he

variable [BrowserHeaders M]

/-- Any call of the application keeps the invariant. -/
theorem call (h : EndInv m s) (methodDefinition : MethodDefinition Req Res) (c : AppCall M Req) :
    EndInv m (call methodDefinition s c) := by
  rcases c.kind with hk | hk | rfl
  · obtain ⟨client, e, heq, hcl, he⟩ := call_request methodDefinition hk s
    rw [heq]
    exact h.write (e.isCallback_of_isRequest he) hcl
  · cases c with
    | onHeaders => exact h.modify _ rfl id rfl
    | onMessage => exact h.modify _ rfl id rfl
    | onEnd => exact h.register
    | start metadata => cases hk
    | send msg => cases hk
    | finishSend => cases hk
    | close => cases hk
  · rcases call_close methodDefinition s with ⟨e, heq, he⟩ | ⟨-, hopen, heq⟩
    · rw [heq]
      exact h.write (e.isCallback_of_isRequest he) rfl
    · rw [heq]
      exact (h.modify { s.client with closed := true } rfl (fun _ => hopen) rfl).record
        (e := Entry.closed) rfl

/-- An event that finds nothing outstanding keeps the invariant. -/
theorem deliver (h : EndInv m s) (hs : s.stack = []) (e : TransportEvent M) :
    EndInv m (deliver s e) := by
  have hnone : ∀ t ∈ s.stack, t.isResponse = false := by simp [hs]
  by_cases hc : s.client.closed = true
  · rwa [deliver_of_closed hc]
  cases e with
  | onHeaders headers status =>
    rw [Client.deliver, onTransportHeaders, if_neg hc]
    split
    · exact h
    · have h' : EndInv m (s.modify fun c => { c with responseHeaders := some headers }) :=
        h.modify _ rfl id rfl
      simp only
      split
      · exact (h'.push rfl (fun _ => rfl) fun _ => hnone).rawOnHeaders headers
      · exact h'.rawOnHeaders headers
  | onChunk chunkBytes =>
    rw [Client.deliver, onTransportChunk, if_neg hc]
    simp only
    have h' (p : ChunkParser) : EndInv m (s.modify fun c => { c with parser := p }) :=
      h.modify _ rfl id rfl
    split
    · exact (h' (s.client.parser.parse (M := M) chunkBytes).2).rawOnEnd hnone _ _ _
    · exact (h' _).push rfl (fun _ => rfl) fun he => by cases he
  | onEnd =>
    rw [Client.deliver, onTransportEnd, if_neg hc]
    split
    · split
      · exact h.rawOnEnd hnone _ _ _
      · split <;> exact h.rawOnEnd hnone _ _ _
    · split <;> exact h.rawOnEnd hnone _ _ _

/-- A move of the client keeps the invariant. -/
theorem tick (h : EndInv m s) {methodDefinition : MethodDefinition Req Res} {t : Session M Res}
    (ht : tick methodDefinition s = some t) : EndInv m t := by
  -- the callbacks for headers and messages are called before the call has completed
  have hresponse {d : Task M Res} {k : List (Task M Res)} (hk : s.stack = d :: k)
      (hd : d.isResponse = true) : s.client.completed = false := by
    by_contra hc
    have := h.response (by simpa using hc) _ (by rw [hk]; exact List.mem_cons_self)
    simp [hd] at this
  cases move_of_tick ht with
  | @exhausted d k hk hd =>
    refine h.pop hk ?_
    match d, hd with
    | .onHeaders [] _, _ | .onMessage [] _, _ | .onEnd [] _ _ _, _ | .chunks [], _ => rfl
  | @onHeaders f fs headers k hk =>
    have hc := hresponse hk rfl
    have h' : EndInv m { s with stack := .onHeaders fs headers :: k } :=
      (h.pop hk rfl).push rfl (fun hc' => absurd (hc.symm.trans hc') (by simp))
        (fun he => by cases he)
    exact (h'.push (t := .running) rfl (fun _ => rfl) (fun he => by cases he)).start_response rfl hc
  | @onMessage f fs res k hk hopen =>
    have hc := hresponse hk rfl
    have h' : EndInv m { s with stack := .onMessage fs res :: k } :=
      (h.pop hk rfl).push rfl (fun hc' => absurd (hc.symm.trans hc') (by simp))
        (fun he => by cases he)
    exact (h'.push (t := .running) rfl (fun _ => rfl) (fun he => by cases he)).start_response rfl hc
  | skipsMessage hk hclosed =>
    have hc := hresponse hk rfl
    exact (h.pop hk rfl).push rfl (fun hc' => absurd (hc.symm.trans hc') (by simp))
      (fun he => by cases he)
  | onEnd hk hopen => exact (h.next_end hk).1
  | skipsEnd hk hclosed => exact (h.next_end hk).2 hclosed
  | @chunk d ds k hk =>
    have h' := (h.pop hk rfl).push (t := .chunks ds) rfl (fun _ => rfl) (fun he => by cases he)
    unfold Client.onChunk
    split
    · split
      · exact (h.pop hk rfl).record rfl
      · exact h'.rawOnMessage _
    · split
      · rename_i trailers _ _
        exact (h'.modify { s.client with responseHeaders := some (BrowserHeaders.copy trailers) }
          rfl id rfl).rawOnHeaders _
      · exact h'.modify _ rfl id rfl
  | error hk =>
    have hord := List.pairwise_cons.1 (hk ▸ h.order)
    exact (h.pop hk rfl).rawOnEnd (fun u hu => hord.1 u hu rfl) _ _ _

/-- **Every step keeps the invariant**, when events are delivered one at a time. -/
theorem step (h : EndInv m s) {methodDefinition : MethodDefinition Req Res} {a : Action M Req}
    {t : Session M Res} (hok : OneAtATime s a) (ht : step methodDefinition s a = some t) :
    EndInv m t := by
  rcases step_inv ht with ⟨c, rfl, rfl⟩ | ⟨e, rfl, rfl⟩ | ⟨k, hk, ⟨-, rfl⟩ | ⟨-, rfl⟩⟩ | ⟨rfl, ht⟩
  · exact h.call methodDefinition c
  · exact h.deliver hok e
  · exact h.pop hk rfl
  · exact (h.pop hk rfl).record rfl
  · exact h.tick ht

omit [BrowserHeaders M] in
theorem init (hasSlice : Bool) : EndInv 0 (Session.new hasSlice : Session M Res) :=
  ⟨rfl, le_rfl, .nil, fun _ => ⟨rfl, by simp [Session.new]⟩, by simp [Session.new],
    by simp [Session.new], .nil⟩

omit [BrowserHeaders M] in
/-- Until the call completes, the callbacks registered so far are a bound. -/
theorem raise (h : EndInv m s) (hc : s.client.completed = false) :
    EndInv s.client.onEndCallbacks.length s :=
  ⟨h.names, le_rfl, h.order, h.before, h.response, fun hc' => absurd (hc.symm.trans hc') (by simp),
    h.quiet⟩

omit [BrowserHeaders M] in
/-- No callback for the end has run twice. -/
theorem nodup (h : EndInv m s) : (endings s.log).Nodup := by
  by_cases hc : s.client.completed = true
  · obtain ⟨n, -, hsub, -⟩ := h.after hc
    exact ((List.sublist_append_left _ _).trans hsub).nodup List.nodup_range
  · rw [(h.before (by simpa using hc)).1]
    exact List.nodup_nil

end EndInv

/-! ## The end of the transport -/

variable [BrowserHeaders M] {methodDefinition : MethodDefinition Req Res}

/-- The call has completed or was closed. -/
def Ended (s : Session M Res) : Prop := s.client.completed = true ∨ s.client.closed = true

/-- **What no step takes back**: that the call has ended, and what has been written. -/
theorem step_keeps {s t : Session M Res} {a : Action M Req}
    (h : step methodDefinition s a = some t) : (Ended s → Ended t) ∧ s.log <+: t.log := by
  rcases step_inv h with ⟨c, rfl, rfl⟩ | ⟨e, rfl, rfl⟩ | ⟨k, hk, ⟨-, rfl⟩ | ⟨-, rfl⟩⟩ | ⟨rfl, ht⟩
  · rcases c.kind with hk | hk | rfl
    · obtain ⟨client, e, heq, hcl, -⟩ := call_request methodDefinition hk s
      rw [heq]
      exact ⟨by simp [Ended, hcl], List.prefix_append _ _⟩
    · obtain ⟨client, heq, hcomp, hclosed, -⟩ := call_registration methodDefinition hk s
      rw [heq]
      exact ⟨by simp [Ended, hcomp, hclosed], List.prefix_rfl⟩
    · rcases call_close methodDefinition s with ⟨e, heq, -⟩ | ⟨-, -, heq⟩
      · rw [heq]
        exact ⟨id, List.prefix_append _ _⟩
      · rw [heq]
        exact ⟨fun _ => .inr rfl, List.prefix_append _ _⟩
  · obtain ⟨hg, hlog⟩ := deliver_grows s e
    exact ⟨Or.imp hg.completed hg.closed.trans, hlog ▸ List.prefix_rfl⟩
  · exact ⟨id, List.prefix_rfl⟩
  · exact ⟨id, List.prefix_append _ _⟩
  · obtain ⟨hg, hlog | ⟨e, -, hlog⟩⟩ := tick_grows ht
    · exact ⟨Or.imp hg.completed hg.closed.trans, hlog ▸ List.prefix_rfl⟩
    · exact ⟨Or.imp hg.completed hg.closed.trans, hlog ▸ List.prefix_append _ _⟩

theorem exec_keeps {s t : Session M Res} {as : List (Action M Req)}
    (h : exec (step methodDefinition) s as = some t) : (Ended s → Ended t) ∧ s.log <+: t.log :=
  exec_preserves (P := fun u => (Ended s → Ended u) ∧ s.log <+: u.log)
    (fun _ _ _ hP hu => ⟨fun hs => (step_keeps hu).1 (hP.1 hs), hP.2.trans (step_keeps hu).2⟩)
    ⟨id, List.prefix_rfl⟩ h

/-- **After an end of the transport the call has ended.** -/
theorem ended_of_onEnd {s t : Session M Res} {as : List (Action M Req)}
    (h : exec (step methodDefinition) s as = some t) (he : Action.event .onEnd ∈ as) : Ended t := by
  obtain ⟨as₁, as₂, rfl⟩ := List.append_of_mem he
  obtain ⟨u, -, hu⟩ := exec_append.1 h
  obtain ⟨v, hv, ht⟩ := exec_cons.1 hu
  refine (exec_keeps ht).1 ?_
  rcases step_inv hv with ⟨c, hc, -⟩ | ⟨e, he, rfl⟩ | ⟨_, _, ⟨ha, -⟩ | ⟨ha, -⟩⟩ | ⟨ha, -⟩
  · cases hc
  · cases he
    by_cases hc : u.client.closed = true
    · rw [deliver_of_closed hc]
      exact .inr hc
    · rw [deliver, Ended, onTransportEnd_client (by simpa using hc)]
      exact .inl rfl
  · cases ha
  · cases ha
  · cases ha

/-- **Callback discipline**, whatever the events and however often they come, when each is handled
before the next one. No `onEnd` callback runs twice, and no `onHeaders` or `onMessage` callback runs
after one. Once an end of the transport has been handled, every `onEnd` callback that was registered
before the call completed has run, unless the call was closed. -/
theorem callback_discipline (hasSlice : Bool) {as : List (Action M Req)} {s : Session M Res}
    (hok : Along (step methodDefinition) OneAtATime (Session.new hasSlice) as)
    (h : exec (step methodDefinition) (Session.new hasSlice) as = some s) :
    (∀ f, (endings s.log).count f ≤ 1) ∧
    (s.log.Pairwise fun e f => e.isEnd = true → f.isResponse = false) ∧
    ∀ as₀ as₁ as₂ s₀ s₁, as = as₀ ++ as₁ ++ as₂ →
      exec (step methodDefinition) (Session.new hasSlice) as₀ = some s₀ →
      exec (step methodDefinition) s₀ as₁ = some s₁ → s₀.client.completed = false →
      .event .onEnd ∈ as₀ ++ as₁ → s₁.stack = [] → s₁.client.closed = false →
      ∀ f ∈ s₀.client.onEndCallbacks, (endings s.log).count f = 1 := by
  have inv {m : ℕ} {s t : Session M Res} {as : List (Action M Req)} (hs : EndInv m s)
      (hok : Along (step methodDefinition) OneAtATime s as)
      (h : exec (step methodDefinition) s as = some t) : EndInv m t :=
    exec_preserves_along (fun _ _ _ hP hok hstep => hP.step hok hstep) hs hok h
  have hnodup := (inv (.init hasSlice) hok h).nodup
  refine ⟨List.nodup_iff_count_le_one.1 hnodup, (inv (.init hasSlice) hok h).quiet, ?_⟩
  rintro as₀ as₁ as₂ s₀ s₁ rfl h₀ h₁ hc he hs hopen f hf
  obtain ⟨t, ht, h₂⟩ := exec_append.1 h
  obtain rfl : s₁ = t := by
    rw [exec_append.2 ⟨s₀, h₀, h₁⟩] at ht
    exact Option.some.inj ht
  obtain ⟨hok₀, hok₁⟩ := (hok.append ht).1.append h₀
  have hinv₀ := (inv (.init hasSlice) hok₀ h₀).raise hc
  have hinv₁ := inv hinv₀ hok₁ h₁
  have hcomp : s₁.client.completed = true :=
    (ended_of_onEnd ht he).resolve_right (by simp [hopen])
  obtain ⟨n, hn, -, heq⟩ := hinv₁.after hcomp
  -- the callbacks that have run are those registered when the call completed
  have hrun : endings s₁.log = List.range n := by simpa [hs] using heq hopen
  rw [hinv₀.names, List.mem_range] at hf
  have hmem : f ∈ endings s₁.log := hrun ▸ List.mem_range.2 (hf.trans_le hn)
  have hmem' : f ∈ endings s.log := (((exec_keeps h₂).2).filterMap Entry.ending).subset hmem
  exact List.count_eq_one_of_mem hnodup hmem'

/-- A call with two `onEnd` callbacks, the first of which throws, whose transport ends twice. -/
def endingRun : List (Action HeaderFields Bytes) :=
  [.call .onEnd, .call .onEnd, .call (.start none), .event .onEnd, .tick, .throws, .tick, .returns,
    .tick, .event .onEnd]

theorem callback_discipline_endingRun : ∃ s : Session HeaderFields Bytes,
    exec (step (bytesMethod false)) (Session.new true) endingRun = some s ∧
      (s.log.Pairwise fun e f => e.isEnd = true → f.isResponse = false) ∧
      ∀ f ∈ [0, 1], (endings s.log).count f = 1 := by
  obtain ⟨s₀, h₀, hs₀⟩ := Option.map_eq_some_iff.1 (by decide +kernel :
    (exec (step (bytesMethod false)) (Session.new true : Session HeaderFields Bytes)
      (endingRun.take 3)).map (fun s => (s.client.completed, s.client.onEndCallbacks)) =
        some (false, [0, 1]))
  obtain ⟨s, h, hs⟩ := Option.map_eq_some_iff.1 (by decide +kernel :
    (exec (step (bytesMethod false)) (Session.new true : Session HeaderFields Bytes)
      endingRun).map (fun s => (s.stack, s.client.closed)) = some ([], false))
  have happ : exec (step (bytesMethod false)) (Session.new true)
      (endingRun.take 3 ++ endingRun.drop 3) = some s := h
  obtain ⟨t, ht, h₁⟩ := exec_append.1 happ
  obtain rfl : s₀ = t := Option.some.inj (h₀.symm.trans ht)
  simp only [Prod.mk.injEq] at hs₀ hs
  obtain ⟨-, hquiet, hend⟩ := callback_discipline true (by decide +kernel) h
  refine ⟨s, h, hquiet, fun f hf => ?_⟩
  exact hend _ _ [] s₀ s rfl h₀ h₁ hs₀.1 (by simp [endingRun]) hs.1 hs.2 f (hs₀.2 ▸ hf)

end GrpcWeb.Client

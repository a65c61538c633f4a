import GrpcWeb.Client.Steps

/-!
# After `close`

Once `close` has returned, no callback should start. The loops of `rawOnMessage`, `rawOnEnd` and
`rawOnError` look at `closed` before each callback, and every event does; the loop of `rawOnHeaders`
does not, and `rawOnHeaders` itself does not when `onTransportChunk` calls it in the middle of a
chunk. So two things can be outstanding at a `close` that still start a callback: further callbacks
for the headers (`Task.onHeaders`), and an MSB frame later in the chunk while there are no response
headers yet (`Task.chunks`).

`CanClose` says that neither is outstanding. It is kept by every step of a closed client
(`canClose_step`), which gives `no_callback_after_close`: in a run whose calls of `close` find the
client in such a state, no callback starts after one of them, whatever is delivered or called later,
from outside or from inside callbacks. `callback_after_close` is a run in which the first of two
`onHeaders` callbacks closes the client and the second is called.
-/

namespace GrpcWeb.Client

open Js

variable {M Req Res : Type}

/-- No callback starts after a call of `close` that succeeded. -/
def QuietAfterClose (log : List (Entry M Res)) : Prop :=
  ∀ before after, log = before ++ Entry.closed :: after → ∀ e ∈ after, e.isCallback = false

theorem QuietAfterClose.append {log : List (Entry M Res)} (h : QuietAfterClose log)
    {e : Entry M Res} (he : Entry.closed ∉ log ∨ e.isCallback = false) :
    QuietAfterClose (log ++ [e]) := by
  intro before after hlog
  rcases List.eq_nil_or_concat after with rfl | ⟨after, e', rfl⟩
  · simp
  · rw [List.concat_eq_append, ← List.cons_append, ← List.append_assoc] at hlog
    obtain ⟨rfl, he'⟩ := List.append_inj' hlog rfl
    obtain rfl : e = e' := by simpa using he'
    have hmem : Entry.closed ∈ before ++ Entry.closed :: after := by simp
    intro x hx
    rcases List.mem_append.1 (List.concat_eq_append ▸ hx) with hx | hx
    · exact h before after rfl x hx
    · rw [List.mem_singleton.1 hx]
      exact he.resolve_left fun hn => hn hmem

variable (methodDefinition : MethodDefinition Req Res)

/-- The loop over the rest of a chunk gets to an MSB frame: no message before it makes
`deserializeBinary` throw. -/
def reachesTrailers : List (Chunk M) → Bool
  | [] => false
  | .trailers _ :: _ => true
  | .message data :: ds => (methodDefinition.deserializeBinary data).isOk && reachesTrailers ds

/-- A task that starts no callback once the client is closed. -/
def Task.Quiet (c : Receiver M) : Task M Res → Prop
  | .onHeaders callbacks _ => callbacks = []
  | .chunks data =>
    c.completed = true ∨ c.responseHeaders.isSome ∨ reachesTrailers methodDefinition data = false
  | _ => True

/-- Nothing outstanding would start a callback once the client is closed. -/
def CanClose (s : Session M Res) : Prop :=
  ∀ t ∈ s.stack, t.Quiet methodDefinition s.client.toReceiver

instance (c : Receiver M) (t : Task M Res) : Decidable (t.Quiet methodDefinition c) :=
  match t with
  | .onHeaders callbacks _ => inferInstanceAs (Decidable (callbacks = []))
  | .chunks _ => inferInstanceAs (Decidable (_ ∨ _ ∨ _))
  | .onMessage _ _ => .isTrue trivial
  | .onEnd _ _ _ _ => .isTrue trivial
  | .error _ _ _ => .isTrue trivial
  | .running => .isTrue trivial

instance (s : Session M Res) : Decidable (CanClose methodDefinition s) :=
  inferInstanceAs (Decidable (∀ t ∈ s.stack, _))

variable {methodDefinition}

theorem Task.Quiet.grows {c d : Receiver M} (h : Grows c d) {t : Task M Res}
    (ht : t.Quiet methodDefinition c) : t.Quiet methodDefinition d := by
  cases t with
  | chunks data => exact ht.imp h.completed (Or.imp_left h.responseHeaders)
  | onHeaders callbacks headers => exact ht
  | _ => trivial

theorem CanClose.of_sublist {s t : Session M Res} (h : CanClose methodDefinition s)
    (hg : Grows s.client.toReceiver t.client.toReceiver) (ht : ∀ x ∈ t.stack, x ∈ s.stack) :
    CanClose methodDefinition t := fun x hx => (h x (ht x hx)).grows hg

theorem CanClose.push {s t : Session M Res} {d : Task M Res} (h : CanClose methodDefinition s)
    (hg : Grows s.client.toReceiver t.client.toReceiver) (ht : t.stack = d :: s.stack)
    (hd : d.Quiet methodDefinition t.client.toReceiver) : CanClose methodDefinition t := by
  intro x hx
  rw [ht] at hx
  rcases List.mem_cons.1 hx with rfl | hx
  · exact hd
  · exact (h x hx).grows hg

variable [BrowserHeaders M]

/-- The body of the loop over a chunk, on a closed client. -/
theorem canClose_onChunk {s : Session M Res} {d : Chunk M} {ds : List (Chunk M)}
    (hc : s.client.closed = true) (hd : (Task.chunks (d :: ds) : Task M Res).Quiet methodDefinition
      s.client.toReceiver) (h : CanClose methodDefinition s) :
    CanClose methodDefinition (onChunk methodDefinition d ds s) ∧
      ((onChunk methodDefinition d ds s).log = s.log ∨
        ∃ e, e.isCallback = false ∧ (onChunk methodDefinition d ds s).log = s.log ++ [e]) := by
  unfold onChunk
  split
  · rename_i data
    split
    · exact ⟨h, .inr ⟨_, rfl, rfl⟩⟩
    · rename_i r hr
      have hds : (Task.chunks ds : Task M Res).Quiet methodDefinition s.client.toReceiver := by
        simpa [Task.Quiet, reachesTrailers, hr, Except.isOk, Except.toBool] using hd
      rw [rawOnMessage_of_closed (by simpa using hc)]
      exact ⟨h.push (.refl _) rfl hds, .inl rfl⟩
  · split
    · rename_i hnone
      have hcomp : s.client.completed = true := by
        simpa [Task.Quiet, reachesTrailers, hnone] using hd
      simp only
      rw [rawOnHeaders_of_completed (by simpa using hcomp)]
      exact ⟨h.push ⟨rfl, id, fun _ => rfl, rfl, rfl, rfl⟩ rfl (.inl hcomp), .inl rfl⟩
    · rename_i hsome
      exact ⟨h.push ⟨rfl, id, id, rfl, rfl, rfl⟩ rfl (.inr (.inl (by simp [hsome]))), .inl rfl⟩

/-- **A move of a closed client** keeps `CanClose` and starts no callback. -/
theorem canClose_tick {s t : Session M Res} (hc : s.client.closed = true)
    (h : CanClose methodDefinition s) (ht : tick methodDefinition s = some t) :
    CanClose methodDefinition t ∧
      (t.log = s.log ∨ ∃ e, e.isCallback = false ∧ t.log = s.log ++ [e]) := by
  have pop {d : Task M Res} {k : List (Task M Res)} (hk : s.stack = d :: k) :
      CanClose methodDefinition { s with stack := k } :=
    h.of_sublist (.refl _) fun x hx => by rw [hk]; exact List.mem_cons_of_mem _ hx
  have put {d d' : Task M Res} {k : List (Task M Res)} (hk : s.stack = d :: k)
      (hd : d'.Quiet methodDefinition s.client.toReceiver) :
      CanClose methodDefinition { s with stack := d' :: k } :=
    List.forall_mem_cons.2 ⟨hd, pop hk⟩
  cases move_of_tick ht with
  | exhausted hk hd => exact ⟨pop hk, .inl rfl⟩
  | onHeaders hk =>
    exact absurd (h _ (by rw [hk]; exact List.mem_cons_self)) (by simp [Task.Quiet])
  | onMessage hk hopen => exact absurd hc hopen
  | onEnd hk hopen => exact absurd hc hopen
  | skipsMessage hk => exact ⟨put hk trivial, .inl rfl⟩
  | skipsEnd hk => exact ⟨put hk trivial, .inl rfl⟩
  | chunk hk => exact canClose_onChunk hc (h _ (by rw [hk]; exact List.mem_cons_self)) (pop hk)
  | @error code message headers k hk =>
    refine ⟨?_, .inl (by simp)⟩
    rw [rawOnError_eq]
    by_cases hcomp : s.client.completed = true
    · have hsame : rawOnEnd code message headers { s with stack := k } = { s with stack := k } :=
        if_pos hcomp
      rw [hsame]
      exact pop hk
    · exact (pop hk).push ⟨by simp, by simp, by simp, by simp, by simp, by simp⟩
        (stack_rawOnEnd (by simpa using hcomp) _ _ _) trivial

/-- What holds of a session in a run whose calls of `close` meet `CanClose`. -/
structure CloseInv (methodDefinition : MethodDefinition Req Res) (s : Session M Res) : Prop where
  /-- an open client has not been closed -/
  opened : s.client.closed = false → Entry.closed ∉ s.log
  /-- nothing outstanding at a closed client starts a callback -/
  canClose : s.client.closed = true → CanClose methodDefinition s
  quiet : QuietAfterClose s.log

/-- The steps that the result allows: a call of `close` that closes the client finds nothing
outstanding that would still start a callback. -/
def ClosesQuietly (methodDefinition : MethodDefinition Req Res) (s : Session M Res) :
    Action M Req → Prop
  | .call .close =>
    s.client.started = true → s.client.closed = false → CanClose methodDefinition s
  | _ => True

omit [BrowserHeaders M] in
instance (s : Session M Res) (a : Action M Req) : Decidable (ClosesQuietly methodDefinition s a) :=
  match a with
  | .call .close => inferInstanceAs (Decidable (_ → _))
  | .call .onHeaders | .call .onMessage | .call .onEnd | .call (.start _) | .call (.send _)
  | .call .finishSend | .event _ | .returns | .throws | .tick => .isTrue trivial

theorem CloseInv.call {s : Session M Res} (h : CloseInv methodDefinition s) {c : AppCall M Req}
    (hok : ClosesQuietly methodDefinition s (.call c)) :
    CloseInv methodDefinition (call methodDefinition s c) := by
  -- one more entry that is neither a callback nor the one of `close`
  have write {client : GrpcClient M} {e : Entry M Res} (he : e.isRequest = true)
      (hcl : client.toReceiver = s.client.toReceiver) :
      CloseInv methodDefinition { s with client := client, log := s.log ++ [e] } := by
    refine ⟨fun hc => ?_, fun hc => ?_, h.quiet.append (.inr (e.isCallback_of_isRequest he))⟩
    · have hc' : client.closed = false := hc
      rw [hcl] at hc'
      simpa [(e.ne_closed_of_isRequest he).symm] using h.opened hc'
    · have hc' : client.closed = true := hc
      rw [hcl] at hc'
      exact (h.canClose hc').of_sublist (by simp only [hcl]; exact .refl _) fun _ hx => hx
  rcases c.kind with hk | hk | rfl
  · obtain ⟨client, e, heq, hcl, he⟩ := call_request methodDefinition hk s
    rw [heq]
    exact write he hcl
  · obtain ⟨client, heq, hcomp, hclosed, hresp⟩ := call_registration methodDefinition hk s
    rw [heq]
    refine ⟨fun hc => h.opened (hclosed.symm.trans hc), fun hc x hx => ?_, h.quiet⟩
    have hx' := h.canClose (hclosed.symm.trans hc) x hx
    cases x with
    | chunks data => simpa only [Task.Quiet, hcomp, hresp] using hx'
    | onHeaders callbacks headers => exact hx'
    | _ => trivial
  · rcases call_close methodDefinition s with ⟨e, heq, he⟩ | ⟨hstarted, hopen, heq⟩
    · rw [heq]
      exact write he rfl
    · rw [heq]
      exact ⟨fun hc => (by cases hc), fun _ => hok hstarted hopen,
        h.quiet.append (.inl (h.opened hopen))⟩

/-- **Every step keeps the invariant**, provided that a call of `close` meets `CanClose`. -/
theorem CloseInv.step {s t : Session M Res} {a : Action M Req} (h : CloseInv methodDefinition s)
    (hok : ClosesQuietly methodDefinition s a) (hstep : step methodDefinition s a = some t) :
    CloseInv methodDefinition t := by
  rcases step_inv hstep with ⟨c, rfl, rfl⟩ | ⟨e, rfl, rfl⟩ | ⟨k, hk, ht⟩ | ⟨rfl, ht⟩
  · exact h.call hok
  · -- a closed client ignores the event, an open one stays open
    by_cases hc : s.client.closed = true
    · rw [deliver_of_closed hc]
      exact h
    · have hg := deliver_grows s e
      have hc' : (deliver s e).client.closed = false := hg.1.closed.trans (by simpa using hc)
      refine ⟨fun _ => ?_, fun hcl => ?_, ?_⟩
      · rw [hg.2]
        exact h.opened (by simpa using hc)
      · rw [hc'] at hcl
        cases hcl
      · rw [hg.2]
        exact h.quiet
  · have hpop (hc : s.client.closed = true) : CanClose methodDefinition { s with stack := k } :=
      (h.canClose hc).of_sublist (.refl _) fun x hx => by rw [hk]; exact List.mem_cons_of_mem _ hx
    rcases ht with ⟨-, rfl⟩ | ⟨-, rfl⟩
    · exact ⟨h.opened, hpop, h.quiet⟩
    · exact ⟨fun hc => by simpa using h.opened hc, hpop, h.quiet.append (.inr rfl)⟩
  · obtain ⟨hg, hlog⟩ := tick_grows ht
    by_cases hc : s.client.closed = true
    · obtain ⟨hcan, hlog'⟩ := canClose_tick hc (h.canClose hc) ht
      refine ⟨fun hcl => ?_, fun _ => hcan, ?_⟩
      · rw [hg.closed, hc] at hcl
        cases hcl
      · rcases hlog' with hl | ⟨e, he, hl⟩
        · rw [hl]
          exact h.quiet
        · rw [hl]
          exact h.quiet.append (.inr he)
    · have hopen := h.opened (by simpa using hc)
      refine ⟨fun _ => ?_, fun hcl => ?_, ?_⟩
      · rcases hlog with hl | ⟨e, he, hl⟩
        · rwa [hl]
        · rw [hl]
          simpa [he.symm] using hopen
      · rw [hg.closed] at hcl
        exact absurd hcl hc
      · rcases hlog with hl | ⟨e, -, hl⟩
        · rw [hl]
          exact h.quiet
        · rw [hl]
          exact h.quiet.append (.inl hopen)

omit [BrowserHeaders M] in
theorem closeInv_init (client : GrpcClient M) (hc : client.closed = false) :
    CloseInv methodDefinition ({ client := client } : Session M Res) :=
  ⟨fun _ => by simp, fun h => absurd (hc.symm.trans h) (by simp), by
    intro before after h
    simp at h⟩

/-- **Nothing reaches the application after `close`**, in a run in which every call of `close` finds
no further `onHeaders` callback outstanding and no MSB frame that will be taken for the headers. The
events and the calls are any, also from inside callbacks. -/
theorem no_callback_after_close (client : GrpcClient M) (hc : client.closed = false)
    {as : List (Action M Req)} {s : Session M Res}
    (hok : Along (step methodDefinition) (ClosesQuietly methodDefinition) { client := client } as)
    (h : exec (step methodDefinition) { client := client } as = some s) :
    QuietAfterClose s.log :=
  (exec_preserves_along (fun _ _ _ hP hok hstep => hP.step hok hstep) (closeInv_init client hc) hok
    h).quiet

/-- A run with one `onHeaders` callback, which closes the client: it meets the condition. -/
def quietRun : List (Action HeaderFields Bytes) :=
  [.call .onHeaders, .call (.start none), .event (.onHeaders ⟨[]⟩ 200), .tick, .call .close,
    .returns, .tick, .event .onEnd]

theorem no_callback_after_close_quietRun : ∃ s : Session HeaderFields Bytes,
    exec (step (bytesMethod false)) {} quietRun = some s ∧ QuietAfterClose s.log := by
  obtain ⟨s, hs⟩ := Option.isSome_iff_exists.1
    (by decide +kernel : (exec (step (bytesMethod false))
      ({} : Session HeaderFields Bytes) quietRun).isSome = true)
  exact ⟨s, hs, no_callback_after_close {} rfl (by decide +kernel) hs⟩

/-! ## Callbacks that start after `close` -/

/-- Two `onHeaders` callbacks, the first of which closes the client. -/
def headersRun : List (Action HeaderFields Bytes) :=
  [.call .onHeaders, .call .onHeaders, .call (.start none), .event (.onHeaders ⟨[]⟩ 200), .tick,
    .call .close, .returns, .tick]

/-- An `onMessage` callback that closes the client before response headers have come, when an MSB
frame follows the message in its chunk. -/
def chunkRun : List (Action HeaderFields Bytes) :=
  [.call .onHeaders, .call .onMessage, .call (.start none),
    .event (.onChunk ([0, 0, 0, 0, 0] ++ [0x80, 0, 0, 0, 0])), .tick, .tick, .call .close, .returns,
    .tick, .tick, .tick]

/-- **Both runs start a callback after `close`.** -/
theorem callback_after_close :
    (∃ s : Session HeaderFields Bytes, exec (step (bytesMethod false)) {} headersRun = some s ∧
      ¬ QuietAfterClose s.log) ∧
    (∃ s : Session HeaderFields Bytes, exec (step (bytesMethod false)) {} chunkRun = some s ∧
      ¬ QuietAfterClose s.log) := by
  have key {as : List (Action HeaderFields Bytes)} {n : ℕ}
      (h : (exec (step (bytesMethod false)) ({} : Session HeaderFields Bytes) as).map
        (fun s => s.log.drop 2) = some [Entry.closed, .onHeaders n ⟨[]⟩]) :
      ∃ s : Session HeaderFields Bytes, exec (step (bytesMethod false)) {} as = some s ∧
        ¬ QuietAfterClose s.log := by
    obtain ⟨s, hs, hlog⟩ := Option.map_eq_some_iff.1 h
    refine ⟨s, hs, fun hq => ?_⟩
    have := hq (s.log.take 2) [.onHeaders n ⟨[]⟩] (by rw [← hlog, List.take_append_drop]) _
      (List.mem_singleton.2 rfl)
    cases this
  exact ⟨key (n := 1) (by decide +kernel), key (n := 0) (by decide +kernel)⟩

end GrpcWeb.Client

import GrpcWeb.Foundations.BigEndian
import GrpcWeb.Foundations.Transition

/-!
# The Fetch transport

A request of the Fetch transport is a chain of promise handlers: one for the response of `fetch`,
then one for each read of its body (`pump`), and each of them is followed by a handler for
exceptions. One promise is pending at a time, and `stage` says which, or which callback of the
client is running.

`step` is the outcome of the pending promise, the end of the running callback, the turn of the
handler of an exception, or a call from outside. `cancel` may be called at any time, also from a
callback. `Moves` lists what a step can be.

* `fetch_events`: the client gets at most one `onHeaders`, the chunks in order and at most one
  `onEnd`.
* `fetch_ends_exactly`: which uncancelled requests end. One for a response that has no body does
  not.
-/

namespace GrpcWeb.Client

variable {M E : Type}

/-! ## Requests -/

/-- What a request does. An exception is `none` when it is undefined or null. -/
inductive FetchEvent (M E : Type)
  | fetch (headers : M) (body : Bytes)
  | onHeaders (headers : M) (status : ℕ)
  | onChunk (chunk : Bytes)
  | onEnd (err : Option E)
  | abort
  | readerCancel
  deriving DecidableEq

inductive FetchStage (E : Type)
  /-- No message has been sent. -/
  | idle
  /-- The promise of `fetch` is pending. -/
  | fetching
  /-- The callback `onHeaders` runs, for a response with a body or without. -/
  | onHeaders (hasBody : Bool)
  /-- The promise of `reader.read()` is pending. -/
  | reading
  /-- The callback `onChunk` runs. -/
  | onChunk
  /-- The handler of an exception is due. -/
  | rejected (err : Option E)
  /-- No promise is pending. -/
  | settled
  deriving DecidableEq

structure Fetch (M E : Type) where
  /-- `options.debug`. -/
  debug : Bool
  /-- The environment has an `AbortController`. -/
  controller : Bool
  cancelled : Bool := false
  metadata : Option M := none
  /-- The reader of the body has been received. -/
  reader : Bool := false
  stage : FetchStage E := .idle
  log : List (FetchEvent M E) := []
  deriving DecidableEq

namespace Fetch

def start (metadata : M) (f : Fetch M E) : Fetch M E := { f with metadata := some metadata }

/-- `sendMessage`; the request is sent once. -/
def send (msgBytes : Bytes) (f : Fetch M E) : Option (Fetch M E) :=
  match f.stage, f.metadata with
  | .idle, some metadata =>
    some { f with stage := .fetching, log := f.log ++ [.fetch metadata msgBytes] }
  | _, _ => none

def pump (f : Fetch M E) : Fetch M E :=
  if f.cancelled then
    { f with reader := true, stage := .settled, log := f.log ++ [.readerCancel] }
  else { f with reader := true, stage := .reading }

/-- The handler of the response; `headers` is the outcome of `new Metadata(res.headers)`. -/
def onResponse (headers : Except (Option E) M) (status : ℕ) (hasBody : Bool) (f : Fetch M E) :
    Fetch M E :=
  match headers with
  | .error err => { f with stage := .rejected err }
  | .ok headers =>
    { f with stage := .onHeaders hasBody, log := f.log ++ [.onHeaders headers status] }

/-- The handler of an exception. The message of one that is undefined or null cannot be read. -/
def catchError (err : Option E) (f : Fetch M E) : Fetch M E :=
  if f.cancelled then { f with stage := .settled }
  else if f.debug && err.isNone then { f with cancelled := true, stage := .settled }
  else { f with cancelled := true, stage := .settled, log := f.log ++ [.onEnd err] }

def cancel (f : Fetch M E) : Fetch M E :=
  if f.cancelled then f
  else
    { f with
      cancelled := true
      log := f.log ++ (if f.controller then [.abort] else []) ++
        if f.reader then [.readerCancel] else [] }

inductive Action (M E : Type)
  | start (metadata : M)
  | sendMessage (msgBytes : Bytes)
  | response (headers : Except (Option E) M) (status : ℕ) (hasBody : Bool)
  | chunk (value : Bytes)
  | done
  /-- The pending promise is rejected. -/
  | rejects (err : Option E)
  /-- The running callback returns. -/
  | returns
  /-- The running callback throws. -/
  | throws (err : Option E)
  /-- The handler of an exception runs. -/
  | catches
  | cancel

def step (f : Fetch M E) : Action M E → Option (Fetch M E)
  | .start metadata => some (f.start metadata)
  | .sendMessage msgBytes => f.send msgBytes
  | .response headers status hasBody =>
    match f.stage with
    | .fetching => some (f.onResponse headers status hasBody)
    | _ => none
  | .chunk value =>
    match f.stage with
    | .reading => some { f with stage := .onChunk, log := f.log ++ [.onChunk value] }
    | _ => none
  | .done =>
    match f.stage with
    | .reading => some { f with stage := .settled, log := f.log ++ [.onEnd none] }
    | _ => none
  | .rejects err =>
    match f.stage with
    | .fetching | .reading => some { f with stage := .rejected err }
    | _ => none
  | .returns =>
    match f.stage with
    | .onHeaders true | .onChunk => some f.pump
    | .onHeaders false => some { f with stage := .settled }
    | _ => none
  | .throws err =>
    match f.stage with
    | .onHeaders _ | .onChunk => some { f with stage := .rejected err }
    | _ => none
  | .catches =>
    match f.stage with
    | .rejected err => some (f.catchError err)
    | _ => none
  | .cancel => some f.cancel

/-- What a step can be: the stage it is taken in, and what comes of it. -/
inductive Moves (f : Fetch M E) : Action M E → Fetch M E → Prop
  | start (metadata : M) : Moves f (.start metadata) (f.start metadata)
  | sendMessage (metadata : M) (msgBytes : Bytes) (hs : f.stage = .idle) :
    Moves f (.sendMessage msgBytes)
      { f with stage := .fetching, log := f.log ++ [.fetch metadata msgBytes] }
  | response (headers : Except (Option E) M) (status : ℕ) (hasBody : Bool)
    (hs : f.stage = .fetching) :
    Moves f (.response headers status hasBody) (f.onResponse headers status hasBody)
  | chunk (value : Bytes) (hs : f.stage = .reading) :
    Moves f (.chunk value) { f with stage := .onChunk, log := f.log ++ [.onChunk value] }
  | done (hs : f.stage = .reading) :
    Moves f .done { f with stage := .settled, log := f.log ++ [.onEnd none] }
  | rejects (err : Option E) (hs : f.stage = .fetching ∨ f.stage = .reading) :
    Moves f (.rejects err) { f with stage := .rejected err }
  | pumps (hs : f.stage = .onHeaders true ∨ f.stage = .onChunk) : Moves f .returns f.pump
  | settles (hs : f.stage = .onHeaders false) : Moves f .returns { f with stage := .settled }
  | throws (err : Option E) (hs : (∃ hasBody, f.stage = .onHeaders hasBody) ∨ f.stage = .onChunk) :
    Moves f (.throws err) { f with stage := .rejected err }
  | catches (err : Option E) (hs : f.stage = .rejected err) : Moves f .catches (f.catchError err)
  | cancel : Moves f .cancel f.cancel

theorem moves_of_step {f t : Fetch M E} {a : Action M E} (h : f.step a = some t) : f.Moves a t := by
  cases a with
  | start metadata => cases h; exact .start metadata
  | cancel => cases h; exact .cancel
  | sendMessage msgBytes =>
    simp only [step, send] at h
    split at h <;> cases h
    exact .sendMessage _ msgBytes ‹_›
  | response headers status hasBody =>
    simp only [step] at h
    split at h <;> cases h
    exact .response headers status hasBody ‹_›
  | chunk value =>
    simp only [step] at h
    split at h <;> cases h
    exact .chunk value ‹_›
  | done =>
    simp only [step] at h
    split at h <;> cases h
    exact .done ‹_›
  | rejects err =>
    simp only [step] at h
    split at h <;> cases h
    · exact .rejects err (.inl ‹_›)
    · exact .rejects err (.inr ‹_›)
  | returns =>
    simp only [step] at h
    split at h <;> cases h
    · exact .pumps (.inl ‹_›)
    · exact .pumps (.inr ‹_›)
    · exact .settles ‹_›
  | throws err =>
    simp only [step] at h
    split at h <;> cases h
    · exact .throws err (.inl ⟨_, ‹_›⟩)
    · exact .throws err (.inr ‹_›)
  | catches =>
    simp only [step] at h
    split at h <;> cases h
    exact .catches _ ‹_›

end Fetch

/-! ## What the client gets -/

def FetchEvent.isClientEvent : FetchEvent M E → Bool
  | .onHeaders _ _ | .onChunk _ | .onEnd _ => true
  | _ => false

/-- The events that are given to the client. -/
def clientEvents (log : List (FetchEvent M E)) : List (FetchEvent M E) :=
  log.filter FetchEvent.isClientEvent

@[simp] theorem clientEvents_concat (log : List (FetchEvent M E)) (e : FetchEvent M E) :
    clientEvents (log ++ [e]) = clientEvents log ++ if e.isClientEvent then [e] else [] := by
  simp [clientEvents, List.filter_cons]

/-- At most one `onHeaders`, the chunks, and at most one `onEnd`. -/
def lifecycle (headers : Option (M × ℕ)) (chunks : List Bytes) (ended : Option (Option E)) :
    List (FetchEvent M E) :=
  (headers.map fun h => .onHeaders h.1 h.2).toList ++ chunks.map .onChunk ++
    (ended.map .onEnd).toList

theorem lifecycle_chunk (headers : Option (M × ℕ)) (chunks : List Bytes) (chunk : Bytes) :
    (lifecycle headers (chunks ++ [chunk]) none : List (FetchEvent M E)) =
      lifecycle headers chunks none ++ [.onChunk chunk] := by
  simp [lifecycle]

theorem lifecycle_end (headers : Option (M × ℕ)) (chunks : List Bytes) (err : Option E) :
    lifecycle headers chunks (some err) = lifecycle headers chunks none ++ [.onEnd err] := by
  simp [lifecycle]

namespace Fetch

/-- The chunk that an action reads. -/
def Action.chunkRead : Action M E → Option Bytes
  | .chunk value => some value
  | _ => none

/-- The chunks that the body of the response has given, in order. -/
def chunksRead (as : List (Action M E)) : List Bytes := as.filterMap Action.chunkRead

theorem chunksRead_concat (as : List (Action M E)) (a : Action M E) :
    chunksRead (as ++ [a]) = chunksRead as ++ a.chunkRead.toList := by
  rw [chunksRead, List.filterMap_append]
  cases a <;> rfl

/-- What the client has been given in each stage, when `chunks` have been read. -/
def Given (chunks : List Bytes) (f : Fetch M E) : Prop :=
  match f.stage with
  | .idle | .fetching => clientEvents f.log = [] ∧ chunks = []
  | .onHeaders _ | .reading | .onChunk => ∃ h, clientEvents f.log = lifecycle (some h) chunks none
  | .rejected _ =>
    ∃ headers, clientEvents f.log = lifecycle headers chunks none ∧ (headers = none → chunks = [])
  | .settled =>
    ∃ headers ended, clientEvents f.log = lifecycle headers chunks ended ∧
      (headers = none → chunks = [])

variable {chunks : List Bytes} {f t : Fetch M E}

/-- Only the stage and the events matter. -/
theorem Given.of_eq {g : Fetch M E} (h : Given chunks f) (hs : g.stage = f.stage)
    (he : clientEvents g.log = clientEvents f.log) : Given chunks g := by
  unfold Given at h ⊢
  rw [hs, he]
  exact h

theorem Given.pump {h : M × ℕ} (hf : clientEvents f.log = lifecycle (some h) chunks none) :
    Given chunks f.pump := by
  unfold Fetch.pump
  split
  · exact ⟨some h, none, by simpa [FetchEvent.isClientEvent] using hf, nofun⟩
  · exact ⟨h, hf⟩

theorem Given.catchError {headers : Option (M × ℕ)}
    (hf : clientEvents f.log = lifecycle headers chunks none) (hh : headers = none → chunks = [])
    (err : Option E) : Given chunks (f.catchError err) := by
  unfold Fetch.catchError
  split
  · exact ⟨headers, none, hf, hh⟩
  split
  · exact ⟨headers, none, hf, hh⟩
  · exact ⟨headers, some err, by simp [FetchEvent.isClientEvent, hf, lifecycle_end], hh⟩

theorem Given.cancel (h : Given chunks f) : Given chunks f.cancel := by
  unfold Fetch.cancel
  split
  · exact h
  · refine h.of_eq rfl ?_
    cases f.controller <;> cases f.reader <;> simp [clientEvents, FetchEvent.isClientEvent]

theorem Given.onResponse (h : clientEvents f.log = []) (headers : Except (Option E) M) (status : ℕ)
    (hasBody : Bool) : Given [] (f.onResponse headers status hasBody) := by
  cases headers with
  | error err => exact ⟨none, h, fun _ => rfl⟩
  | ok headers =>
    refine ⟨(headers, status), ?_⟩
    simp [Fetch.onResponse, FetchEvent.isClientEvent, h, lifecycle]

/-- An action that reads no chunk. -/
theorem Given.unread {a : Action M E} (h : Given chunks f) (ha : a.chunkRead = none) :
    Given (chunks ++ a.chunkRead.toList) f := by
  rwa [ha, Option.toList_none, List.append_nil]

/-- **What one step gives to the client** fits what it has been given. -/
theorem Given.step {a : Action M E} (h : Given chunks f) (hstep : f.step a = some t) :
    Given (chunks ++ a.chunkRead.toList) t := by
  cases moves_of_step hstep with
  | start metadata => exact (h.of_eq rfl rfl).unread rfl
  | sendMessage metadata msgBytes hs =>
    simp only [Given, hs] at h
    refine Given.unread (a := .sendMessage msgBytes) ?_ rfl
    simpa [Given, FetchEvent.isClientEvent] using h
  | response headers status hasBody hs =>
    simp only [Given, hs] at h
    obtain ⟨hevents, rfl⟩ := h
    exact Given.onResponse hevents headers status hasBody
  | chunk value hs =>
    simp only [Given, hs] at h
    obtain ⟨headers, hevents⟩ := h
    refine ⟨headers, ?_⟩
    show _ = lifecycle _ (chunks ++ [value]) _
    rw [lifecycle_chunk, ← hevents]
    simp [FetchEvent.isClientEvent]
  | done hs =>
    simp only [Given, hs] at h
    obtain ⟨headers, hevents⟩ := h
    refine Given.unread (a := .done) ⟨some headers, some none, ?_, nofun⟩ rfl
    rw [lifecycle_end, ← hevents]
    simp [FetchEvent.isClientEvent]
  | rejects err hs =>
    refine Given.unread (a := .rejects err) ?_ rfl
    rcases hs with hs | hs
    · simp only [Given, hs] at h
      exact ⟨none, by simpa [h.2, lifecycle] using h.1, fun _ => h.2⟩
    · simp only [Given, hs] at h
      exact ⟨some h.choose, h.choose_spec, nofun⟩
  | pumps hs =>
    have hgiven : ∃ headers, clientEvents f.log = lifecycle (some headers) chunks none := by
      rcases hs with hs | hs <;> simpa only [Given, hs] using h
    exact (Given.pump hgiven.choose_spec).unread (a := .returns) rfl
  | settles hs =>
    simp only [Given, hs] at h
    exact Given.unread (a := .returns) ⟨some h.choose, none, h.choose_spec, nofun⟩ rfl
  | throws err hs =>
    have hgiven : ∃ headers, clientEvents f.log = lifecycle (some headers) chunks none := by
      rcases hs with ⟨_, hs⟩ | hs <;> simpa only [Given, hs] using h
    exact Given.unread (a := .throws err) ⟨some hgiven.choose, hgiven.choose_spec, nofun⟩ rfl
  | catches err hs =>
    simp only [Given, hs] at h
    obtain ⟨headers, hevents, hh⟩ := h
    exact (Given.catchError hevents hh err).unread (a := .catches) rfl
  | cancel => exact h.cancel.unread rfl

/-- A new request. -/
def new (debug controller : Bool) : Fetch M E := { debug := debug, controller := controller }

theorem given_exec {debug controller : Bool} {as : List (Action M E)}
    (h : exec step (new debug controller) as = some t) : Given (chunksRead as) t := by
  have hstart : Given (chunksRead ([] : List (Action M E))) (new debug controller : Fetch M E) :=
    ⟨rfl, rfl⟩
  refine exec_history (P := fun as f => Given (chunksRead as) f) ?_ hstart h
  intro as f a t hf hstep
  rw [chunksRead_concat]
  exact hf.step hstep

/-! ## Requests that end -/

/-- The request has ended for the client. -/
def Ended (f : Fetch M E) : Prop := ∃ err, FetchEvent.onEnd err ∈ clientEvents f.log

/-- The two ways in which a request settles without an end: the callback `onHeaders` returns for a
response that has no body, and the handler of an exception, when it is to log the message of
one that is undefined or null, throws itself. -/
def losesEnd (f : Fetch M E) : Action M E → Bool
  | .returns =>
    match f.stage with
    | .onHeaders false => true
    | _ => false
  | .catches =>
    match f.stage with
    | .rejected none => f.debug
    | _ => false
  | _ => false

/-- A request that has settled has ended. -/
def EndsIfSettled (f : Fetch M E) : Prop := f.stage = .settled → f.Ended

/-- What holds of a request while `cancel` has not been called: only one that has settled is
cancelled, or has ended. -/
structure Uncancelled (f : Fetch M E) : Prop where
  cancelled : f.cancelled = true → f.stage = .settled
  ended : f.Ended → f.stage = .settled

/-- A request that waits for something is not cancelled and has not ended. -/
theorem Uncancelled.waits (h : f.Uncancelled) (hs : f.stage ≠ .settled) :
    f.cancelled = false ∧ ∀ err, FetchEvent.onEnd err ∉ clientEvents f.log := by
  constructor
  · rw [← Bool.not_eq_true]
    exact fun hc => hs (h.cancelled hc)
  · exact fun err herr => hs (h.ended ⟨err, herr⟩)

theorem Uncancelled.of_waits {g : Fetch M E} (hc : g.cancelled = false)
    (he : ∀ err, FetchEvent.onEnd err ∉ clientEvents g.log) : g.Uncancelled :=
  ⟨fun h => by simp [hc] at h, fun ⟨err, herr⟩ => absurd herr (he err)⟩

/-- A step to a request that waits changes nothing about its end. -/
theorem endsIfSettled_waits {g : Fetch M E} (hf : f.stage ≠ .settled) (hg : g.stage ≠ .settled)
    {lost : Bool} (hl : lost = false) : g.EndsIfSettled ↔ f.EndsIfSettled ∧ lost = false :=
  ⟨fun _ => ⟨fun h => absurd h hf, hl⟩, fun _ h => absurd h hg⟩

theorem stage_pump (h : f.cancelled = false) :
    f.pump = { f with reader := true, stage := .reading } := by
  rw [Fetch.pump, if_neg (by simp [h])]

theorem catchError_spec (hc : f.cancelled = false)
    (he : ∀ err, FetchEvent.onEnd err ∉ clientEvents f.log) (err : Option E) :
    (f.catchError err).stage = .settled ∧
      ((f.catchError err).Ended ↔ (f.debug && err.isNone) = false) := by
  rw [Fetch.catchError, if_neg (by simp [hc])]
  split
  · rename_i hlost
    exact ⟨rfl, by simpa [Ended, hlost] using he⟩
  · rename_i hlost
    refine ⟨rfl, ?_⟩
    simp [Ended, Bool.not_eq_true _ ▸ hlost, FetchEvent.isClientEvent]

/-- **What one step of an uncancelled request does to its end.** -/
theorem Uncancelled.step {a : Action M E} (h : f.Uncancelled) (ha : a ≠ .cancel)
    (hstep : f.step a = some t) :
    t.Uncancelled ∧ (t.EndsIfSettled ↔ f.EndsIfSettled ∧ f.losesEnd a = false) := by
  cases moves_of_step hstep with
  | start metadata =>
    exact ⟨⟨h.cancelled, h.ended⟩, by simp [EndsIfSettled, Fetch.start, Ended, losesEnd]⟩
  | sendMessage metadata msgBytes hs =>
    obtain ⟨hc, he⟩ := h.waits (by simp [hs])
    refine ⟨.of_waits hc ?_, endsIfSettled_waits (by simp [hs]) (by simp) rfl⟩
    simpa [FetchEvent.isClientEvent] using he
  | response headers status hasBody hs =>
    obtain ⟨hc, he⟩ := h.waits (by simp [hs])
    cases headers with
    | error err =>
      exact ⟨.of_waits hc he, endsIfSettled_waits (by simp [hs]) (by simp [Fetch.onResponse]) rfl⟩
    | ok headers =>
      refine ⟨.of_waits hc ?_, endsIfSettled_waits (by simp [hs]) (by simp [Fetch.onResponse]) rfl⟩
      simpa [Fetch.onResponse, FetchEvent.isClientEvent] using he
  | chunk value hs =>
    obtain ⟨hc, he⟩ := h.waits (by simp [hs])
    refine ⟨.of_waits hc ?_, endsIfSettled_waits (by simp [hs]) (by simp) rfl⟩
    simpa [FetchEvent.isClientEvent] using he
  | done hs =>
    exact ⟨⟨fun _ => rfl, fun _ => rfl⟩, by
      simp [EndsIfSettled, losesEnd, hs, Ended, FetchEvent.isClientEvent]⟩
  | rejects err hs =>
    have hwaits : f.stage ≠ .settled := by rcases hs with hs | hs <;> simp [hs]
    obtain ⟨hc, he⟩ := h.waits hwaits
    exact ⟨.of_waits hc he, endsIfSettled_waits hwaits (by simp) rfl⟩
  | pumps hs =>
    have hwaits : f.stage ≠ .settled := by rcases hs with hs | hs <;> simp [hs]
    obtain ⟨hc, he⟩ := h.waits hwaits
    rw [stage_pump hc]
    refine ⟨.of_waits hc he, endsIfSettled_waits hwaits (by simp) ?_⟩
    rcases hs with hs | hs <;> simp [losesEnd, hs]
  | settles hs =>
    obtain ⟨hc, he⟩ := h.waits (by simp [hs])
    exact ⟨.of_waits hc he, by simpa [EndsIfSettled, losesEnd, hs, Ended] using he⟩
  | throws err hs =>
    have hwaits : f.stage ≠ .settled := by rcases hs with ⟨_, hs⟩ | hs <;> simp [hs]
    obtain ⟨hc, he⟩ := h.waits hwaits
    exact ⟨.of_waits hc he, endsIfSettled_waits hwaits (by simp) rfl⟩
  | catches err hs =>
    obtain ⟨hc, he⟩ := h.waits (by simp [hs])
    obtain ⟨hsettled, hended⟩ := catchError_spec hc he err
    refine ⟨⟨fun _ => hsettled, fun _ => hsettled⟩, ?_⟩
    have hlost : f.losesEnd .catches = (f.debug && err.isNone) := by
      cases err <;> simp [losesEnd, hs]
    simp [EndsIfSettled, hsettled, hended, hlost, hs]
  | cancel => exact absurd rfl ha

theorem endsIfSettled_iff {debug controller : Bool} {as : List (Action M E)}
    (h : exec step (new debug controller) as = some t) (hcancel : .cancel ∉ as) :
    t.EndsIfSettled ↔ Along step (fun f a => f.losesEnd a = false) (new debug controller) as := by
  have hstart : (new debug controller : Fetch M E).Uncancelled :=
    .of_waits rfl (by simp [new, clientEvents])
  have hadm : ∀ a ∈ as, a ≠ .cancel := fun a ha => ne_of_mem_of_not_mem ha hcancel
  have hiff := exec_iff_along_of (fun f a t hf ha hs => (Uncancelled.step hf ha hs).1)
    (fun f a t hf ha hs => (Uncancelled.step hf ha hs).2) hstart hadm h
  rw [hiff, and_iff_right]
  nofun

end Fetch

open Fetch in
/-- **What the client gets of a request**: at most one `onHeaders`, then the chunks in the order in
which they were read, and at most one `onEnd` behind them. -/
theorem fetch_events {debug controller : Bool} {as : List (Action M E)} {t : Fetch M E}
    (h : exec step (new debug controller) as = some t) :
    ∃ headers ended, clientEvents t.log = lifecycle headers (chunksRead as) ended ∧
      (headers = none → chunksRead as = []) := by
  have hgiven := given_exec h
  unfold Given at hgiven
  split at hgiven
  · exact ⟨none, none, by simpa [hgiven.2, lifecycle] using hgiven.1, fun _ => hgiven.2⟩
  · exact ⟨none, none, by simpa [hgiven.2, lifecycle] using hgiven.1, fun _ => hgiven.2⟩
  · exact ⟨some hgiven.choose, none, hgiven.choose_spec, nofun⟩
  · exact ⟨some hgiven.choose, none, hgiven.choose_spec, nofun⟩
  · exact ⟨some hgiven.choose, none, hgiven.choose_spec, nofun⟩
  · obtain ⟨headers, hevents, hh⟩ := hgiven
    exact ⟨headers, none, hevents, hh⟩
  · exact hgiven

open Fetch in
/-- **Requests that end**: a request that has settled without `cancel` has ended exactly once if and
only if no step of it was the return of `onHeaders` for a response without a body, or the failure to
log an exception that is undefined or null. -/
theorem fetch_ends_exactly {debug controller : Bool} {as : List (Action M E)} {t : Fetch M E}
    (h : exec step (new debug controller) as = some t) :
    (∃ headers ended, clientEvents t.log = lifecycle headers (chunksRead as) ended ∧
        (headers = none → chunksRead as = [])) ∧
      (.cancel ∉ as → t.stage = .settled →
        ((∃ headers err, clientEvents t.log = lifecycle headers (chunksRead as) (some err)) ↔
          Along step (fun f a => f.losesEnd a = false) (new debug controller) as)) := by
  refine ⟨fetch_events h, fun hcancel hsettled => ?_⟩
  obtain ⟨headers, ended, hevents, -⟩ := fetch_events h
  rw [← endsIfSettled_iff h hcancel, EndsIfSettled, imp_iff_right hsettled, Ended]
  constructor
  · rintro ⟨headers, err, hend⟩
    exact ⟨err, by simp [hend, lifecycle]⟩
  · rintro ⟨err, herr⟩
    cases ended with
    | none => simp [hevents, lifecycle] at herr
    | some err => exact ⟨headers, err, hevents⟩

/-- A response without a body, such as one with the status 204. -/
def emptyResponse : List (Fetch.Action Unit Unit) :=
  [.start (), .sendMessage [], .response (.ok ()) 204 false, .returns]

/-- A response of one chunk. -/
def chunkResponse : List (Fetch.Action Unit Unit) :=
  [.start (), .sendMessage [], .response (.ok ()) 200 true, .returns, .chunk [1], .returns, .done]

theorem emptyResponse_not_ended :
    ∃ t, exec Fetch.step (Fetch.new false true) emptyResponse = some t ∧
    .cancel ∉ emptyResponse ∧ t.stage = .settled ∧ clientEvents t.log = [.onHeaders () 204] ∧
    ∀ err, .onEnd err ∉ clientEvents t.log :=
  ⟨_, rfl, by simp [emptyResponse], rfl, rfl, by
    intro err (h : _ ∈ [FetchEvent.onHeaders () 204])
    simp at h⟩

theorem fetch_ends_exactly_chunk :
    ∃ t, exec Fetch.step (Fetch.new false true) chunkResponse = some t ∧
    ∃ headers err, clientEvents t.log = lifecycle headers [[1]] (some err) := by
  obtain ⟨t, ht⟩ : ∃ t, exec Fetch.step (Fetch.new false true) chunkResponse = some t := ⟨_, rfl⟩
  have hsettled : t.stage = .settled := by
    cases ht
    rfl
  exact ⟨t, ht, ((fetch_ends_exactly ht).2 (by simp [chunkResponse]) hsettled).2 (by decide)⟩

end GrpcWeb.Client

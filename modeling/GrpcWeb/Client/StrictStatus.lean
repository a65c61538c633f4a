import GrpcWeb.Client.Steps

/-!
# A malformed status

A `grpc-status` should be a decimal number, and one that is not should count as missing.
`readStatus` reads it so, and `strictStep` is the client that reads it so wherever the status is
read (`onTransportHeadersWith`, `onTransportEndWith`). The client itself reads what `parseInt` makes
of the value, which never throws.

`strict_run` says which runs go as the strict client's do, and that these end calls with natural
numbers only. A step can leave that course in two ways (`ReadsWell`): the headers of a response give
a positive number for a value that is not decimal, or the end of the transport reads a value that is
not decimal. `malformed_status` reports NaN, a negative number, and 12 for `12abc`.
-/

namespace GrpcWeb.Js

/-- A string of decimal digits. -/
def IsDecimal (v : JsString) : Prop := v ≠ [] ∧ v.all (fun c => (digitValue c).isSome) = true

instance (v : JsString) : Decidable (IsDecimal v) := inferInstanceAs (Decidable (_ ∧ _))

theorem digit_bounds {c : UInt16} (h : (digitValue c).isSome = true) : 0x30 ≤ c ∧ c ≤ 0x39 := by
  unfold digitValue at h
  split at h
  · assumption
  · cases h

theorem isWhiteSpace_of_isSome {c : UInt16} (h : (digitValue c).isSome = true) :
    isWhiteSpace c = false ∧ c ≠ 0x2D ∧ c ≠ 0x2B := by
  obtain ⟨h1, h2⟩ := digit_bounds h
  rw [UInt16.le_iff_toNat_le] at h1 h2
  obtain ⟨d, hd, rfl⟩ : ∃ d, d < 10 ∧ c = UInt16.ofNat (0x30 + d) := by
    refine ⟨c.toNat - 0x30, ?_, ?_⟩
    · simp at h1 h2
      omega
    · apply UInt16.toNat_inj.1
      simp at h1 h2 ⊢
      omega
  exact isWhiteSpace_of_digit hd

/-- The number that a string of digits stands for, unless it is too large for a double. -/
theorem parseInt_of_isDecimal {v : JsString} (h : IsDecimal v)
    (hfin : parseInt v ≠ .infinity false) :
    ∃ n : ℕ, parseInt v = .int n := by
  obtain ⟨hne, hall⟩ := h
  rcases v with _ | ⟨c, v⟩
  · exact absurd rfl hne
  have hc : (digitValue c).isSome = true := List.all_eq_true.1 hall c List.mem_cons_self
  obtain ⟨hw, hm, hp⟩ := isWhiteSpace_of_isSome hc
  have hparse : parseInt (c :: v) = .ofSigned false (ofDecimalDigits (leadingDigits (c :: v))) := by
    obtain ⟨d, hd⟩ := Option.isSome_iff_exists.1 hc
    rw [parseInt, trimStart, List.dropWhile_cons_of_neg (by simp [hw])]
    simp only
    rw [if_neg hm, if_neg hp, parseUnsigned, if_neg]
    simp [leadingDigits, hd]
  rw [hparse] at hfin ⊢
  unfold Number.ofSigned at hfin ⊢
  split
  · exact ⟨_, rfl⟩
  · rename_i hnone
    rw [hnone] at hfin
    exact absurd rfl hfin

end GrpcWeb.Js

namespace GrpcWeb.Client

open Js

variable {M Req Res : Type} [BrowserHeaders M]

/-! ## The strict client -/

/-- The first `grpc-status` of a collection. -/
def firstStatus (headers : M) : Option JsString :=
  (BrowserHeaders.get headers (js "grpc-status")).head?

theorem getStatusFromHeaders_eq (headers : M) :
    getStatusFromHeaders headers = (firstStatus headers).map parseInt := by
  unfold getStatusFromHeaders firstStatus
  cases BrowserHeaders.get headers (js "grpc-status") <;> rfl

/-- The status of a collection; a value that is not decimal counts as missing. -/
def readStatus (headers : M) : Option Number :=
  ((firstStatus headers).filter fun v => decide (IsDecimal v)).map parseInt

/-- `onTransportHeaders`, with a way of reading a status. -/
def onTransportHeadersWith (read : M → Option Number) (headers : M) (status : ℕ)
    (s : Session M Res) : Session M Res :=
  if s.client.closed then s
  else if status = 0 then s
  else
    let s := s.modify fun c => { c with responseHeaders := some headers }
    let code := codeOfHeaders (read headers) status
    let gRPCMessage := BrowserHeaders.get headers (js "grpc-message")
    let s :=
      if code ≠ Code.ok then
        s.push (.error code (decodeGRPCStatus gRPCMessage.head?) headers)
      else s
    rawOnHeaders headers s

/-- `onTransportEnd`, with a way of reading a status. -/
def onTransportEndWith (read : M → Option Number) (s : Session M Res) : Session M Res :=
  if s.client.closed then s
  else
    match s.client.responseTrailers with
    | none =>
      match s.client.responseHeaders with
      | none => rawOnError Code.unknown (js "Response closed without headers") s
      | some headers =>
        match read headers with
        | none =>
          rawOnEnd Code.unknown (js "Response closed without grpc-status (Headers only)") headers s
        | some grpcStatus =>
          let grpcMessage := BrowserHeaders.get headers (js "grpc-message")
          rawOnEnd grpcStatus (decodeGRPCStatus grpcMessage.head?) headers s
    | some trailers =>
      match read trailers with
      | none =>
        rawOnError Code.internal (js "Response closed without grpc-status (Trailers provided)") s
      | some grpcStatus =>
        let grpcMessage := BrowserHeaders.get trailers (js "grpc-message")
        rawOnEnd grpcStatus (decodeGRPCStatus grpcMessage.head?) trailers s

/-- A step of a client with a way of reading a status. -/
def stepWith (read : M → Option Number) (methodDefinition : MethodDefinition Req Res)
    (s : Session M Res) : Action M Req → Option (Session M Res)
  | .event (.onHeaders headers status) =>
    match s.stack with
    | [] => some (onTransportHeadersWith read headers status s)
    | .running :: _ => some (onTransportHeadersWith read headers status s)
    | _ => none
  | .event .onEnd =>
    match s.stack with
    | [] => some (onTransportEndWith read s)
    | .running :: _ => some (onTransportEndWith read s)
    | _ => none
  | a => step methodDefinition s a

/-- A step of the client that takes a malformed status for a missing one. -/
def strictStep (methodDefinition : MethodDefinition Req Res) :
    Session M Res → Action M Req → Option (Session M Res) :=
  stepWith readStatus methodDefinition

/-- The client of the source reads with `parseInt`. -/
theorem step_eq_stepWith (methodDefinition : MethodDefinition Req Res) (s : Session M Res)
    (a : Action M Req) :
    step methodDefinition s a = stepWith getStatusFromHeaders methodDefinition s a := by
  cases a with
  | event e => cases e <;> rfl
  | _ => rfl

/-! ## Where the two part -/

/-- A first status of digits whose number a double can hold, or none. -/
def StatusOk (headers : M) : Prop :=
  ∀ v ∈ firstStatus headers, IsDecimal v ∧ parseInt v ≠ .infinity false

/-- What an action reads a status from is well-formed, as far as that action minds. -/
def ReadsWell (s : Session M Res) : Action M Req → Prop
  | .event (.onHeaders headers status) =>
    s.client.closed = false → status ≠ 0 →
      StatusOk headers ∨
        ∀ v ∈ firstStatus headers, ¬ IsDecimal v ∧ (parseInt v).isPositive = false
  | .event .onEnd =>
    s.client.closed = false → s.client.completed = false →
      ∀ headers ∈ s.client.responseTrailers.or s.client.responseHeaders, StatusOk headers
  | _ => True

instance (headers : M) : Decidable (StatusOk headers) :=
  inferInstanceAs (Decidable (∀ v ∈ firstStatus headers, _))

instance (s : Session M Res) : ∀ a : Action M Req, Decidable (ReadsWell s a)
  | .event (.onHeaders headers _) =>
    inferInstanceAs (Decidable (_ → _ → (_ ∨ ∀ v ∈ firstStatus headers, _)))
  | .event .onEnd =>
    inferInstanceAs (Decidable (_ → _ →
      ∀ headers ∈ s.client.responseTrailers.or s.client.responseHeaders, StatusOk headers))
  | .event (.onChunk _) | .call _ | .returns | .throws | .tick => .isTrue trivial

/-- A natural number. -/
def IsCode (n : Number) : Prop := ∃ k : ℕ, n = .int k

theorem isCode_ofCode (c : Code) : IsCode c := ⟨c.toNat, rfl⟩

theorem getStatusFromHeaders_of_statusOk {headers : M} (h : StatusOk headers) :
    getStatusFromHeaders headers = readStatus headers := by
  rw [getStatusFromHeaders_eq, readStatus]
  rcases hv : firstStatus headers with _ | v
  · rfl
  · simp [(h v hv).1]

theorem isCode_of_statusOk {headers : M} (h : StatusOk headers) {n : Number}
    (hn : getStatusFromHeaders headers = some n) : IsCode n := by
  rw [getStatusFromHeaders_eq] at hn
  obtain ⟨v, hv, rfl⟩ := Option.map_eq_some_iff.1 hn
  exact parseInt_of_isDecimal (h v hv).1 (h v hv).2

/-- **The code of response headers** that are read well. -/
theorem codeOfHeaders_of_readsWell {headers : M} {status : ℕ}
    (h : StatusOk headers ∨
      ∀ v ∈ firstStatus headers, ¬ IsDecimal v ∧ (parseInt v).isPositive = false) :
    codeOfHeaders (getStatusFromHeaders headers) status =
        codeOfHeaders (readStatus headers) status ∧
      IsCode (codeOfHeaders (getStatusFromHeaders headers) status) := by
  rcases h with h | h
  · rw [← getStatusFromHeaders_of_statusOk h]
    refine ⟨rfl, ?_⟩
    unfold codeOfHeaders
    split
    · split
      · exact isCode_of_statusOk h ‹_›
      · exact isCode_ofCode _
    · exact isCode_ofCode _
  · have hcode : codeOfHeaders (getStatusFromHeaders headers) status = httpStatusToCode status := by
      rw [getStatusFromHeaders_eq]
      rcases hv : firstStatus headers with _ | v
      · rfl
      · have hpos := (h v hv).2
        rw [Number.isPositive_eq] at hpos
        simp [codeOfHeaders, hpos]
    have hread : readStatus headers = none := by
      rw [readStatus]
      rcases hv : firstStatus headers with _ | v
      · rfl
      · simp [(h v hv).1]
    rw [hcode, hread]
    exact ⟨rfl, isCode_ofCode _⟩

/-! ## Codes of a session -/

/-- The code that a task will report. -/
def Task.code? : Task M Res → Option Number
  | .onEnd _ code _ _ => some code
  | .error code _ _ => some code
  | _ => none

/-- The code that an entry reports. -/
def Entry.code? : Entry M Res → Option Number
  | .onEnd _ code _ _ => some code
  | _ => none

/-- Every code that has been reported, or is about to be, is a natural number. -/
structure Sound (s : Session M Res) : Prop where
  stack : ∀ t ∈ s.stack, ∀ n ∈ t.code?, IsCode n
  log : ∀ e ∈ s.log, ∀ n ∈ e.code?, IsCode n

namespace Sound

variable {s : Session M Res}

omit [BrowserHeaders M]

theorem push (h : Sound s) {t : Task M Res} (ht : ∀ n ∈ t.code?, IsCode n) : Sound (s.push t) where
  stack := by
    rintro u (_ | ⟨_, hu⟩)
    · exact ht
    · exact h.stack u hu
  log := h.log

theorem record (h : Sound s) {e : Entry M Res} (he : ∀ n ∈ e.code?, IsCode n) :
    Sound (s.record e) where
  stack := h.stack
  log := by
    intro f hf
    rcases List.mem_append.1 hf with hf | hf
    · exact h.log f hf
    · rw [List.mem_singleton.1 hf]
      exact he

theorem push_silent (h : Sound s) {t : Task M Res} (ht : t.code? = none) : Sound (s.push t) :=
  h.push fun n hn => by
    rw [ht] at hn
    cases hn

theorem record_silent (h : Sound s) {e : Entry M Res} (he : e.code? = none) : Sound (s.record e) :=
  h.record fun n hn => by
    rw [he] at hn
    cases hn

theorem modify (h : Sound s) (f : GrpcClient M → GrpcClient M) : Sound (s.modify f) :=
  ⟨h.stack, h.log⟩

/-- The innermost task is done, or goes on as another one. -/
theorem resume (h : Sound s) {t : Task M Res} {k k' : List (Task M Res)} (hs : s.stack = t :: k)
    (hk : ∀ u ∈ k', u ∈ k ∨ u.code? = none ∨ u.code? = t.code?) : Sound { s with stack := k' } where
  stack := by
    intro u hu n hn
    rcases hk u hu with hmem | hnone | heq
    · exact h.stack u (hs ▸ List.mem_cons_of_mem _ hmem) n hn
    · rw [hnone] at hn
      cases hn
    · exact h.stack t (hs ▸ List.mem_cons_self) n (heq ▸ hn)
  log := h.log

theorem rawOnEnd (h : Sound s) {code : Number} (hc : IsCode code) (message : JsString)
    (trailers : M) : Sound (rawOnEnd code message trailers s) := by
  unfold Client.rawOnEnd
  split
  · exact h
  · refine (h.modify _).push ?_
    rintro n ⟨⟩
    exact hc

theorem rawOnHeaders (h : Sound s) (headers : M) : Sound (rawOnHeaders headers s) := by
  unfold Client.rawOnHeaders
  split
  · exact h
  · exact h.push_silent rfl

theorem rawOnMessage (h : Sound s) (res : Res) : Sound (rawOnMessage res s) := by
  unfold Client.rawOnMessage
  split
  · exact h
  · exact h.push_silent rfl

end Sound

variable {methodDefinition : MethodDefinition Req Res} {s t : Session M Res}

theorem Sound.call (h : Sound s) (c : AppCall M Req) : Sound (call methodDefinition s c) := by
  have entry {e : Entry M Res} (he : e.isRequest = true) : e.code? = none := by
    cases e <;> first | rfl | cases he
  rcases c.kind with hk | hk | rfl
  · obtain ⟨client, e, heq, -, he⟩ := call_request methodDefinition hk s
    rw [heq]
    exact (h.modify fun _ => client).record_silent (entry he)
  · obtain ⟨client, heq, -⟩ := call_registration methodDefinition hk s
    rw [heq]
    exact h.modify fun _ => client
  · rcases call_close methodDefinition s with ⟨e, heq, he⟩ | ⟨-, -, heq⟩
    · rw [heq]
      exact h.record_silent (entry he)
    · rw [heq]
      exact (h.modify _).record_silent rfl

theorem Sound.tick (h : Sound s) (ht : tick methodDefinition s = some t) : Sound t := by
  have rest {d : Task M Res} {k : List (Task M Res)} (hs : s.stack = d :: k) :
      Sound { s with stack := k } := h.resume hs fun u hu => .inl hu
  have loop {d : Task M Res} {k : List (Task M Res)} (d' : Task M Res) (hs : s.stack = d :: k)
      (hd : d'.code? = d.code?) : Sound { s with stack := .running :: d' :: k } := by
    refine h.resume hs ?_
    rintro u (_ | ⟨_, _ | ⟨_, hu⟩⟩)
    · exact .inr (.inl rfl)
    · exact .inr (.inr hd)
    · exact .inl hu
  have skip {d : Task M Res} {k : List (Task M Res)} (d' : Task M Res) (hs : s.stack = d :: k)
      (hd : d'.code? = d.code?) : Sound { s with stack := d' :: k } := by
    refine h.resume hs ?_
    rintro u (_ | ⟨_, hu⟩)
    · exact .inr (.inr hd)
    · exact .inl hu
  cases move_of_tick ht with
  | exhausted hs => exact rest hs
  | @onHeaders f fs headers k hs => exact (loop (.onHeaders fs headers) hs rfl).record_silent rfl
  | @onMessage f fs res k hs => exact (loop (.onMessage fs res) hs rfl).record_silent rfl
  | @skipsMessage f fs res k hs => exact skip (.onMessage fs res) hs rfl
  | @onEnd f fs code message trailers k hs =>
    have hcode : IsCode code := h.stack _ (hs ▸ List.mem_cons_self) code rfl
    refine (loop (.onEnd fs code message trailers) hs rfl).record ?_
    rintro n ⟨⟩
    exact hcode
  | @skipsEnd f fs code message trailers k hs => exact skip (.onEnd fs code message trailers) hs rfl
  | chunk hs =>
    unfold Client.onChunk
    split
    · split
      · exact (rest hs).record_silent rfl
      · exact ((rest hs).push_silent rfl).rawOnMessage _
    · split
      · exact (((rest hs).modify _).push_silent rfl).rawOnHeaders _
      · exact ((rest hs).modify _).push_silent rfl
  | @error code message headers k hs =>
    exact (rest hs).rawOnEnd (h.stack _ (hs ▸ List.mem_cons_self) code rfl) message headers

/-! ## Steps -/

/-- **Headers that are read well** are read as the strict client reads them. -/
theorem onTransportHeaders_eq {headers : M} {status : ℕ} (h : Sound s)
    (hok : ReadsWell s (.event (.onHeaders headers status) : Action M Req)) :
    onTransportHeaders headers status s = onTransportHeadersWith readStatus headers status s ∧
      Sound (onTransportHeaders headers status s) := by
  unfold onTransportHeaders onTransportHeadersWith
  split
  · exact ⟨rfl, h⟩
  rename_i hopen
  split
  · exact ⟨rfl, h⟩
  rename_i hstatus
  obtain ⟨heq, hcode⟩ := codeOfHeaders_of_readsWell (hok (by simpa using hopen) hstatus)
  simp only
  rw [← heq]
  refine ⟨rfl, Sound.rawOnHeaders ?_ headers⟩
  split
  · refine (h.modify _).push ?_
    rintro n ⟨⟩
    exact hcode
  · exact h.modify _

/-- **The end of the transport**, when the collection it looks at is well-formed. -/
theorem onTransportEnd_eq_strict (h : Sound s)
    (hok : ReadsWell s (.event .onEnd : Action M Req)) :
    onTransportEnd s = onTransportEndWith readStatus s ∧ Sound (onTransportEnd s) := by
  unfold onTransportEnd onTransportEndWith
  split
  · exact ⟨rfl, h⟩
  rename_i hopen
  simp only [rawOnError_eq]
  have hread (headers : M) (hh : headers ∈ s.client.responseTrailers.or s.client.responseHeaders) :
      s.client.completed = true ∨ StatusOk headers := by
    rcases hc : s.client.completed with _ | _
    · exact .inr (hok (by simpa using hopen) hc headers hh)
    · exact .inl rfl
  rcases htr : s.client.responseTrailers with _ | trailers
  · rcases hh : s.client.responseHeaders with _ | headers
    · exact ⟨rfl, h.rawOnEnd (isCode_ofCode _) _ _⟩
    · rcases hread headers (by simp [htr, hh]) with hc | hc
      · simp only [rawOnEnd_of_completed hc]
        cases getStatusFromHeaders headers <;> cases readStatus headers <;> exact ⟨rfl, h⟩
      · simp only
        rw [← getStatusFromHeaders_of_statusOk hc]
        refine ⟨rfl, ?_⟩
        rcases hst : getStatusFromHeaders headers with _ | n
        · exact h.rawOnEnd (isCode_ofCode _) _ _
        · exact h.rawOnEnd (isCode_of_statusOk hc hst) _ _
  · rcases hread trailers (by simp [htr]) with hc | hc
    · simp only [rawOnEnd_of_completed hc]
      cases getStatusFromHeaders trailers <;> cases readStatus trailers <;> exact ⟨rfl, h⟩
    · simp only
      rw [← getStatusFromHeaders_of_statusOk hc]
      refine ⟨rfl, ?_⟩
      rcases hst : getStatusFromHeaders trailers with _ | n
      · exact h.rawOnEnd (isCode_ofCode _) _ _
      · exact h.rawOnEnd (isCode_of_statusOk hc hst) _ _

theorem Sound.onTransportChunk (h : Sound s) (chunkBytes : Bytes) :
    Sound (onTransportChunk chunkBytes s) := by
  unfold Client.onTransportChunk
  split
  · exact h
  simp only
  split
  · exact (h.modify _).rawOnEnd (isCode_ofCode _) _ _
  · exact (h.modify _).push_silent rfl

/-- **A step that reads well** is a step of the strict client, and its codes are natural numbers. -/
theorem step_eq_strictStep {a : Action M Req} (h : Sound s) (hok : ReadsWell s a) :
    step methodDefinition s a = strictStep methodDefinition s a ∧
      ∀ t, step methodDefinition s a = some t → Sound t := by
  constructor
  · cases a with
    | event e =>
      cases e with
      | onHeaders headers status =>
        exact congrArg (fun t => match s.stack with
          | [] => some t
          | .running :: _ => some t
          | _ => none) (onTransportHeaders_eq h hok).1
      | onChunk chunkBytes => rfl
      | onEnd =>
        exact congrArg (fun t => match s.stack with
          | [] => some t
          | .running :: _ => some t
          | _ => none) (onTransportEnd_eq_strict h hok).1
    | _ => rfl
  · intro t ht
    rcases step_inv ht with ⟨c, rfl, rfl⟩ | ⟨e, rfl, rfl⟩ | ⟨k, hk, ⟨-, rfl⟩ | ⟨-, rfl⟩⟩ | ⟨-, ht⟩
    · exact h.call c
    · cases e with
      | onHeaders headers status => exact (onTransportHeaders_eq h hok).2
      | onChunk chunkBytes => exact h.onTransportChunk chunkBytes
      | onEnd => exact (onTransportEnd_eq_strict h hok).2
    · exact h.resume hk fun u hu => .inl hu
    · exact (h.resume hk fun u hu => .inl hu).record_silent rfl
    · exact h.tick ht

/-! ## Runs -/

/-- **A run that reads well** is one of the client that takes a malformed status for a missing one,
and every code it passes to an `onEnd` callback is a natural number. The calls of the application
and the events are any, also from inside callbacks. -/
theorem strict_run (methodDefinition : MethodDefinition Req Res) (hasSlice : Bool)
    {as : List (Action M Req)} {s : Session M Res}
    (hok : Along (step methodDefinition) ReadsWell (Session.new hasSlice) as)
    (h : exec (step methodDefinition) (Session.new hasSlice) as = some s) :
    exec (strictStep methodDefinition) (Session.new hasSlice) as = some s ∧
      ∀ callback code message trailers, Entry.onEnd callback code message trailers ∈ s.log →
        ∃ n : ℕ, code = .int n := by
  have hnew : Sound (Session.new hasSlice : Session M Res) :=
    ⟨fun u hu => absurd hu List.not_mem_nil, fun e he => absurd he List.not_mem_nil⟩
  have hrun : exec (strictStep methodDefinition) (Session.new hasSlice) as = some s ∧ Sound s := by
    generalize (Session.new hasSlice : Session M Res) = s₀ at hok h hnew ⊢
    induction as generalizing s₀ with
    | nil =>
      cases h
      exact ⟨rfl, hnew⟩
    | cons a as ih =>
      obtain ⟨u, hu, h⟩ := exec_cons.1 h
      obtain ⟨heq, hsound⟩ := step_eq_strictStep hnew hok.1
      obtain ⟨hrest, hs⟩ := ih u (hok.2 u hu) h (hsound u hu)
      exact ⟨exec_cons.2 ⟨u, heq ▸ hu, hrest⟩, hs⟩
  exact ⟨hrun.1, fun _ code _ _ hmem => hrun.2.log _ hmem code rfl⟩

/-- Headers whose status is no number, with the HTTP status 500. -/
def unreadableHeaders : List (Action HeaderFields Bytes) :=
  [.call .onEnd, .call (.start none),
    .event (.onHeaders ⟨[(js "grpc-status", [js "abc"])]⟩ 500), .tick, .tick, .tick, .returns]

theorem strict_run_unreadableHeaders : ∃ s : Session HeaderFields Bytes,
    exec (step (bytesMethod false)) (Session.new true) unreadableHeaders = some s ∧
      (exec (strictStep (bytesMethod false)) (Session.new true) unreadableHeaders = some s ∧
        ∀ callback code message trailers, Entry.onEnd callback code message trailers ∈ s.log →
          ∃ n : ℕ, code = .int n) ∧ s.log.length = 2 := by
  obtain ⟨s, hs, hlog⟩ := Option.map_eq_some_iff.1
    (by decide +kernel : (exec (step (bytesMethod false))
      (Session.new true : Session HeaderFields Bytes) unreadableHeaders).map
        (fun s => s.log.length) = some 2)
  exact ⟨s, hs, strict_run (bytesMethod false) true (by decide +kernel) hs, hlog⟩

/-! ## Runs that end with what is no status -/

/-- The codes that `onEnd` callbacks were given. -/
def codesOf (log : List (Entry M Res)) : List Number := log.filterMap Entry.code?

/-- The headers of a response, with one `onEnd` callback. -/
def headersOnly (grpcStatus : JsString) : List (Action HeaderFields Bytes) :=
  [.call .onEnd, .call (.start none), .event (.onHeaders ⟨[(js "grpc-status", [grpcStatus])]⟩ 200),
    .tick]

/-- The codes of a run from a new client. -/
def codesAfter (step : Session HeaderFields Bytes → Action HeaderFields Bytes →
      Option (Session HeaderFields Bytes)) (as : List (Action HeaderFields Bytes)) :
    Option (List Number) :=
  (exec step (Session.new true) as).map fun s => codesOf s.log

/-- **Three malformed statuses**: the first two are reported as NaN and -1, and the third as 12
as soon as the headers come. The client that takes them for missing reports `Code.unknown` at the
end of the transport. -/
theorem malformed_status :
    codesAfter (step (bytesMethod false)) (headersOnly (js "abc") ++ [.event .onEnd, .tick]) =
        some [.nan] ∧
      codesAfter (step (bytesMethod false)) (headersOnly (js "-1") ++ [.event .onEnd, .tick]) =
        some [.int (-1)] ∧
      codesAfter (step (bytesMethod false)) (headersOnly (js "12abc") ++ [.tick, .tick]) =
        some [.int 12] ∧
      ∀ v ∈ [js "abc", js "-1", js "12abc"],
        codesAfter (strictStep (bytesMethod false)) (headersOnly v ++ [.event .onEnd, .tick]) =
          some [(Code.unknown : Number)] := by
  refine ⟨by decide +kernel, by decide +kernel, by decide +kernel, ?_⟩
  simp only [List.forall_mem_cons, List.not_mem_nil, false_imp_iff, implies_true, and_true]
  exact ⟨by decide +kernel, by decide +kernel, by decide +kernel⟩

end GrpcWeb.Client

import GrpcWeb.Client.GrpcClient
import GrpcWeb.EndToEnd.Headers
import GrpcWeb.Server.Partition

/-!
# Runs of a gRPC handler

A `HandlerRun` is what a gRPC handler does with its response writer: it sets its headers, may send
them, writes its messages in any pieces, and sets its status and its trailers when it is done.

`extract_handlerRun` says what is left for the trailers when the headers have been sent, whichever
writer the handler runs on, and `get_trailerMap` what the client has of them.
-/

namespace GrpcWeb.EndToEnd

open Js Go Client Server

/-- The operation passes bytes on, or flushes. -/
def passes : HandlerOp → Bool
  | .write _ | .flush => true
  | _ => false

section

variable [Unicode]

/-- A name of gRPC or under `http2.TrailerPrefix`, in any letter case. -/
def IsReserved (k : GoString) : Prop :=
  ascii "trailer:" <+: toLower k ∨ ascii "grpc-" <+: toLower k

instance (k : GoString) : Decidable (IsReserved k) := inferInstanceAs (Decidable (_ ∨ _))

theorem takes_grpcStatus : ClientTakes (ascii "grpc-status") := by
  have heq : toLower (ascii "grpc-status") = ascii "grpc-status" := rfl
  exact ⟨by rw [heq]; decide, by rw [heq]; decide⟩

theorem takes_grpcMessage : ClientTakes (ascii "grpc-message") := by
  have heq : toLower (ascii "grpc-message") = ascii "grpc-message" := rfl
  exact ⟨by rw [heq]; decide, by rw [heq]; decide⟩

/-- A name that is not reserved, and that the client takes. -/
structure IsPlain (k : GoString) : Prop where
  not_isReserved : ¬ IsReserved k
  takes : ClientTakes k

instance (k : GoString) : Decidable (IsPlain k) :=
  decidable_of_iff (¬ IsReserved k ∧ ClientTakes k)
    ⟨fun h => ⟨h.1, h.2⟩, fun h => ⟨h.not_isReserved, h.takes⟩⟩

/-- What is plain depends on the lower-case name only. -/
theorem IsPlain.of_toLower {k k' : GoString} (h : IsPlain k) (heq : toLower k' = toLower k) :
    IsPlain k' where
  not_isReserved := by
    rw [IsReserved, heq]
    exact h.not_isReserved
  takes := h.takes.of_toLower heq

/-- A run of a gRPC handler. -/
structure HandlerRun where
  headers : Header
  /-- The status of a call of `WriteHeader`. -/
  writeHeader : Option ℕ
  /-- The calls of `Write` and `Flush`. -/
  body : List HandlerOp
  payloads : List Bytes
  grpcStatus : ℕ
  grpcMessage : Option GoString
  trailers : List (GoString × List GoString)
  headers_plain : ∀ k ∈ headers, contains k trailerPrefix = false ∧ IsPlain k
  body_passes : ∀ op ∈ body, passes op = true
  body_bytes : body.flatMap HandlerOp.bytes = payloads.flatMap frameBytes
  payloads_length : ∀ p ∈ payloads, p.length < 2 ^ 32
  grpcStatus_lt : grpcStatus < 2 ^ 32
  trailers_names : ∀ e ∈ trailers, validHeaderFieldName e.1 = true ∧ toLower e.1 = e.1 ∧
    ¬ ascii "grpc-" <+: e.1 ∧ ClientTakes e.1
  trailers_nodup : (trailers.map Prod.fst).Nodup
  trailers_values : ∀ e ∈ trailers, ∀ v ∈ e.2, IsPrintable v

namespace HandlerRun

variable (g : HandlerRun)

/-- The handler sets its status, its message and its trailers. -/
def setTrailers (h : Header) : Header :=
  let h := h.set (ascii "Grpc-Status") (sprintInt g.grpcStatus)
  let h := match g.grpcMessage with
    | none => h
    | some message => h.set (ascii "Grpc-Message") message
  g.trailers.foldl (fun h e => h.insert (trailerPrefix ++ e.1) e.2) h

/-- What the handler does. -/
def ops : List HandlerOp :=
  .header (fun _ => g.headers) ::
    (g.writeHeader.toList.map .writeHeader ++ (g.body ++ [.header g.setTrailers]))

/-- The response was started. -/
def Started : Prop := ∃ op ∈ g.ops, op.starts = true

/-- No `Content-Length` is sent: the HTTP server drops the bytes that do not fit into it, and the
last frame is behind what a handler can count. -/
structure DeclaresNoLength (outer : Header) : Prop where
  outer : ∀ f ∈ outer, toLower f ≠ ascii "content-length"
  headers : ∀ k ∈ g.headers, toLower k ≠ ascii "content-length"
  /-- Trailers go out with the headers when nothing was written. -/
  trailers : ¬ g.Started → ∀ e ∈ g.trailers, e.1 ≠ ascii "content-length"

/-- The fields that are sent with the trailers. -/
def fields : List (GoString × List GoString) :=
  (ascii "grpc-status", [sprintInt g.grpcStatus]) ::
    (g.grpcMessage.toList.map fun message => (ascii "grpc-message", [message])) ++ g.trailers

/-- The trailers. -/
def trailerMap : Header := g.fields.foldl (fun h e => h.insert e.1 e.2) ∅

/-! ## Fields -/

/-- The key under which the handler sets a field. -/
def fieldKey (name : GoString) : GoString :=
  if name = ascii "grpc-status" then ascii "Grpc-Status"
  else if name = ascii "grpc-message" then ascii "Grpc-Message"
  else trailerPrefix ++ name

variable {g} {e : GoString × List GoString}

theorem mem_fields : e ∈ g.fields ↔ e = (ascii "grpc-status", [sprintInt g.grpcStatus]) ∨
    (∃ message ∈ g.grpcMessage, e = (ascii "grpc-message", [message])) ∨ e ∈ g.trailers := by
  simp only [fields, List.cons_append, List.mem_cons, List.mem_append, List.mem_map,
    Option.mem_toList, eq_comm (b := e)]
  rfl

theorem field_name (he : e ∈ g.fields) :
    validHeaderFieldName e.1 = true ∧ toLower e.1 = e.1 ∧ ClientTakes e.1 := by
  have hstatus : validHeaderFieldName (ascii "grpc-status") = true := by decide
  have hmessage : validHeaderFieldName (ascii "grpc-message") = true := by decide
  rcases mem_fields.1 he with rfl | ⟨message, -, rfl⟩ | he
  · exact ⟨hstatus, rfl, takes_grpcStatus⟩
  · exact ⟨hmessage, rfl, takes_grpcMessage⟩
  · exact ⟨(g.trailers_names e he).1, (g.trailers_names e he).2.1, (g.trailers_names e he).2.2.2⟩

theorem nodup_fields : (g.fields.map Prod.fst).Nodup := by
  have hgrpc : ∀ n ∈ g.trailers.map Prod.fst, ¬ ascii "grpc-" <+: n := by
    intro n hn
    obtain ⟨e, he, rfl⟩ := List.mem_map.1 hn
    exact (g.trailers_names e he).2.2.1
  have hstatus : ascii "grpc-status" ∉ g.trailers.map Prod.fst := fun h => hgrpc _ h (by decide)
  have hmessage : ascii "grpc-message" ∉ g.trailers.map Prod.fst := fun h => hgrpc _ h (by decide)
  have hne : ascii "grpc-status" ≠ ascii "grpc-message" := by decide
  rw [fields]
  cases g.grpcMessage with
  | none => exact List.nodup_cons.2 ⟨hstatus, g.trailers_nodup⟩
  | some message =>
    refine List.nodup_cons.2 ⟨?_, List.nodup_cons.2 ⟨hmessage, g.trailers_nodup⟩⟩
    intro h
    rcases List.mem_cons.1 h with h | h
    · exact hne h
    · exact hstatus h

/-- A field is determined by its name. -/
theorem field_unique {e' : GoString × List GoString} (he : e ∈ g.fields) (he' : e' ∈ g.fields)
    (hname : e.1 = e'.1) : e = e' :=
  List.inj_on_of_nodup_map nodup_fields he he' hname

theorem getElem?_trailerMap {k : GoString} {vs : List GoString} :
    g.trailerMap[k]? = some vs ↔ (k, vs) ∈ g.fields := by
  rw [trailerMap, Header.getElem?_foldl_insert]
  · simp
  · intro e he e' he' hname
    rw [field_unique he he' hname]

/-! ## Keys -/

omit [Unicode] in
theorem stripTrailerPrefix_append (name : GoString) :
    stripTrailerPrefix (trailerPrefix ++ name) = name := by
  rw [stripTrailerPrefix, replaceFirst, cut_append_self]
  rfl

/-- A field is sent under its name. -/
theorem trailerName_fieldKey (he : e ∈ g.fields) : trailerName (fieldKey e.1) = e.1 := by
  unfold fieldKey
  split
  · rename_i h
    rw [h]
    rfl
  · split
    · rename_i h
      rw [h]
      rfl
    · rw [trailerName, stripTrailerPrefix_append]
      exact (field_name he).2.1

theorem isReserved_fieldKey (he : e ∈ g.fields) : IsReserved (fieldKey e.1) := by
  unfold fieldKey
  split
  · right
    rw [toLower_of_isASCII (by decide)]
    decide
  · split
    · right
      rw [toLower_of_isASCII (by decide)]
      decide
    · left
      have hascii : isASCII e.1 = true :=
        isASCII_of_token (token_of_valid (field_name he).1).2
      have happend : isASCII (trailerPrefix ++ e.1) = true := by
        rw [isASCII, List.all_append, Bool.and_eq_true]
        exact ⟨by decide, hascii⟩
      rw [toLower_of_isASCII happend, List.map_append]
      exact ⟨e.1.map toLowerByte, rfl⟩

theorem fieldKey_ne_trailer (he : e ∈ g.fields) :
    toLower (fieldKey e.1) ≠ toLower (ascii "trailer") := by
  intro heq
  have hreserved := isReserved_fieldKey he
  rw [IsReserved, heq, toLower_of_isASCII (by decide)] at hreserved
  revert hreserved
  decide

theorem setTrailers_eq (h : Header) :
    g.setTrailers h =
      (g.fields.map fun e => (fieldKey e.1, e.2)).foldl (fun h e => h.insert e.1 e.2) h := by
  have htrailers (h : Header) :
      (g.trailers.map fun e => (fieldKey e.1, e.2)).foldl (fun h e => h.insert e.1 e.2) h =
        g.trailers.foldl (fun h e => h.insert (trailerPrefix ++ e.1) e.2) h := by
    rw [List.foldl_map]
    refine List.foldl_ext _ _ _ fun h e he => ?_
    have hgrpc := (g.trailers_names e he).2.2.1
    rw [fieldKey, if_neg, if_neg]
    · rintro heq
      exact hgrpc (heq ▸ by decide)
    · rintro heq
      exact hgrpc (heq ▸ by decide)
  have hstatus : canonicalHeaderKey (ascii "Grpc-Status") = fieldKey (ascii "grpc-status") := by
    decide +kernel
  have hmessage : canonicalHeaderKey (ascii "Grpc-Message") = fieldKey (ascii "grpc-message") := by
    decide +kernel
  rw [setTrailers, fields, Header.set, hstatus]
  cases g.grpcMessage with
  | none => exact (htrailers _).symm
  | some message =>
    simp only [Header.set, hmessage]
    exact (htrailers _).symm

/-- The header map at the end. -/
theorem getElem?_setTrailers {k : GoString} {vs : List GoString} :
    (g.setTrailers g.headers)[k]? = some vs ↔
      (∃ e ∈ g.fields, fieldKey e.1 = k ∧ e.2 = vs) ∨ g.headers[k]? = some vs := by
  rw [setTrailers_eq, Header.getElem?_foldl_insert]
  · simp only [List.mem_map, Prod.mk.injEq]
    refine or_congr_right ⟨And.left, fun hk => ⟨hk, ?_⟩⟩
    rintro vs' ⟨e, he, rfl, -⟩
    exact (g.headers_plain _ (mem_of_getElem? hk)).2.not_isReserved (isReserved_fieldKey he)
  · intro e he e' he' hkey
    obtain ⟨f, hf, rfl⟩ := List.mem_map.1 he
    obtain ⟨f', hf', rfl⟩ := List.mem_map.1 he'
    have hname : f.1 = f'.1 := by
      rw [← trailerName_fieldKey hf, ← trailerName_fieldKey hf']
      exact congrArg trailerName hkey
    rw [field_unique hf hf' hname]

/-- The client takes the names of the header map at the end. -/
theorem takes_setTrailers {k : GoString} (hk : k ∈ g.setTrailers g.headers) :
    ∃ name, ClientTakes name ∧ trailerName k = toLower name := by
  obtain ⟨vs, hvs⟩ := exists_of_mem hk
  rcases getElem?_setTrailers.1 hvs with ⟨e, he, rfl, -⟩ | hhead
  · exact ⟨e.1, (field_name he).2.2, (trailerName_fieldKey he).trans (field_name he).2.1.symm⟩
  · obtain ⟨hcontains, hplain⟩ := g.headers_plain k (mem_of_getElem? hhead)
    refine ⟨k, hplain.takes, ?_⟩
    rw [trailerName, stripTrailerPrefix, replaceFirst_of_not_contains hcontains]

theorem headersAfter_ops : headersAfter g.ops = g.setTrailers g.headers := by
  have hbody : ∀ (ops : List HandlerOp) (h : Header), (∀ op ∈ ops, passes op = true) →
      ops.foldl HandlerOp.edit h = h := by
    intro ops
    induction ops with
    | nil => exact fun _ _ => rfl
    | cons op ops ih =>
      intro h hops
      obtain ⟨hop, hops⟩ := List.forall_mem_cons.1 hops
      rw [List.foldl_cons, ih _ hops]
      cases op with
      | write b => rfl
      | flush => rfl
      | header edit => cases hop
      | writeHeader code => cases hop
  rw [headersAfter, ops, List.foldl_cons, List.foldl_append, List.foldl_append]
  cases g.writeHeader <;> simp [HandlerOp.edit, hbody _ _ g.body_passes]

theorem bytes_ops : g.ops.flatMap HandlerOp.bytes = g.payloads.flatMap frameBytes := by
  rw [← g.body_bytes, ops]
  cases g.writeHeader <;> simp [HandlerOp.bytes]

omit [Unicode] in
/-- Once the response is started, the rest of the run copies no headers. -/
theorem published_rest (h : Header) {ops : List HandlerOp} (hops : ∀ op ∈ ops, passes op = true)
    (edit : Header → Header) : published h true (ops ++ [.header edit]) = [] := by
  induction ops generalizing h with
  | nil => rfl
  | cons op ops ih =>
    obtain ⟨hop, hrest⟩ := List.forall_mem_cons.1 hops
    rw [List.cons_append, published]
    cases op with
    | write b => exact ih _ hrest
    | flush => exact ih _ hrest
    | header edit => cases hop
    | writeHeader code => cases hop

omit [Unicode] in
/-- What calls of `Write` and `Flush` copy: the headers, at the first `Write`. -/
theorem published_body (h : Header) {ops : List HandlerOp} (hops : ∀ op ∈ ops, passes op = true)
    (edit : Header → Header) :
    published h false (ops ++ [.header edit]) = if ops.any HandlerOp.starts then [h] else [] := by
  induction ops with
  | nil => rfl
  | cons op ops ih =>
    obtain ⟨hop, hrest⟩ := List.forall_mem_cons.1 hops
    rw [List.cons_append, published]
    cases op with
    | write b => exact congrArg (h :: ·) (published_rest h hrest edit)
    | flush => exact ih hrest
    | header edit => cases hop
    | writeHeader code => cases hop

/-- When no `WriteHeader` starts the response, a `Write` does. -/
theorem any_starts_body (hstart : g.Started) (hw : g.writeHeader = none) :
    g.body.any HandlerOp.starts = true := by
  obtain ⟨op, hop, hstarts⟩ := hstart
  rw [ops, hw] at hop
  simp only [Option.toList_none, List.map_nil, List.nil_append, List.mem_cons, List.mem_append,
    List.not_mem_nil, or_false] at hop
  rcases hop with rfl | hop | rfl
  · cases hstarts
  · exact List.any_eq_true.2 ⟨op, hop, hstarts⟩
  · cases hstarts

/-- The headers that the run copies are those that the handler set first. -/
theorem published_ops (hstart : g.Started) : published ∅ false g.ops = [g.headers] := by
  have htail : published g.headers false
      (g.writeHeader.toList.map .writeHeader ++ (g.body ++ [.header g.setTrailers])) =
        [g.headers] := by
    cases hw : g.writeHeader with
    | some code =>
      exact congrArg (g.headers :: ·) (published_rest g.headers g.body_passes g.setTrailers)
    | none =>
      exact (published_body g.headers g.body_passes g.setTrailers).trans
        (if_pos (any_starts_body hstart hw))
  exact htail

theorem mem_writeHeader {code : ℕ} (h : .writeHeader code ∈ g.ops) : code ∈ g.writeHeader := by
  simp only [ops, List.mem_cons, List.mem_append, List.mem_map, Option.mem_toList, reduceCtorEq,
    false_or, HandlerOp.writeHeader.injEq, exists_eq_right, List.not_mem_nil, or_false] at h
  rcases h with h | h
  · exact h
  · exact absurd (g.body_passes _ h) (by simp [passes])

theorem starts_of_not_started (hstart : ¬ g.Started) : ∀ op ∈ g.ops, op.starts = false := by
  intro op hop
  rw [← Bool.not_eq_true]
  exact fun hs => hstart ⟨op, hop, hs⟩

/-- In a run that does not start the response there are no messages. -/
theorem payloads_of_not_started (hstart : ¬ g.Started) : g.payloads = [] := by
  have hbytes : g.payloads.flatMap frameBytes = [] := by
    rw [← bytes_ops, List.flatMap_eq_nil_iff]
    intro op hop
    cases op with
    | write b => exact absurd ⟨_, hop, rfl⟩ hstart
    | header edit | writeHeader code | flush => rfl
  rcases hp : g.payloads with _ | ⟨p, ps⟩
  · rfl
  · rw [hp, List.flatMap_cons] at hbytes
    cases (List.append_eq_nil_iff.1 hbytes).1

/-- **What is left for the trailers** when the headers have been sent: the fields. -/
theorem extract_handlerRun {flushed : Header} (hplain : ∀ f ∈ flushed, ¬ IsReserved f)
    (hheaders : ∀ k ∈ g.headers, toLower k ≠ toLower (ascii "trailer") →
      ∃ f ∈ flushed, toLower f = toLower k) (orders : LoopOrders) :
    extractTrailingHeaders orders (g.setTrailers g.headers) flushed = g.trailerMap := by
  have htrails {k : GoString} (hk : k ∈ g.setTrailers g.headers) :
      Trails flushed k ↔ ∃ e ∈ g.fields, fieldKey e.1 = k := by
    obtain ⟨vs, hvs⟩ := exists_of_mem hk
    constructor
    · rintro ⟨htrailer, hflushed⟩
      rcases getElem?_setTrailers.1 hvs with ⟨e, he, hkey, -⟩ | hhead
      · exact ⟨e, he, hkey⟩
      · obtain ⟨f, hf, hname⟩ := hheaders k (mem_of_getElem? hhead) htrailer
        exact absurd hname (hflushed f hf)
    · rintro ⟨e, he, rfl⟩
      refine ⟨fieldKey_ne_trailer he, fun f hf hname => hplain f hf ?_⟩
      rw [IsReserved, hname]
      exact isReserved_fieldKey he
  have hapart : TrailsApart flushed (g.setTrailers g.headers) := by
    intro k₀ h₀ k₁ h₁ ht₀ ht₁ hname
    obtain ⟨e₀, he₀, rfl⟩ := (htrails h₀).1 ht₀
    obtain ⟨e₁, he₁, rfl⟩ := (htrails h₁).1 ht₁
    rw [← trailerName_fieldKey he₀, ← trailerName_fieldKey he₁]
    exact congrArg fieldKey hname
  apply Std.ExtTreeMap.ext_getElem?
  intro k
  apply Option.ext
  intro vs
  rw [getElem?_extractTrailingHeaders hapart, getElem?_trailerMap]
  constructor
  · rintro ⟨k₀, hk₀, ht, rfl⟩
    obtain ⟨e, he, rfl⟩ := (htrails (mem_of_getElem? hk₀)).1 ht
    have hname : (toLower (stripTrailerPrefix (fieldKey e.1)), vs) = e := by
      rcases getElem?_setTrailers.1 hk₀ with ⟨e', he', hkey, rfl⟩ | hhead
      · have heq : e'.1 = e.1 := by
          rw [← trailerName_fieldKey he', ← trailerName_fieldKey he, hkey]
        obtain rfl := field_unique he' he heq
        exact congrArg (·, e'.2) (trailerName_fieldKey he')
      · exact absurd (isReserved_fieldKey he)
          (g.headers_plain _ (mem_of_getElem? hhead)).2.not_isReserved
    rw [hname]
    exact he
  · intro he
    have hk : (g.setTrailers g.headers)[fieldKey k]? = some vs :=
      getElem?_setTrailers.2 (Or.inl ⟨_, he, rfl, rfl⟩)
    exact ⟨fieldKey k, hk, (htrails (mem_of_getElem? hk)).2 ⟨_, he, rfl⟩, trailerName_fieldKey he⟩

/-! ## The trailers at the client -/

variable (g)

/-- The values of the fields with a lower-case name. -/
def values (name : GoString) : List GoString :=
  ((g.fields.find? fun e => e.1 = name).map Prod.snd).getD []

/-- The message of the status, as the application sees it. -/
def messageText : JsString := decodeGRPCStatus (g.grpcMessage.map fromCharCodes)

variable {g}

theorem getD_trailerMap (name : GoString) : (g.trailerMap[name]?).getD [] = g.values name := by
  rw [values]
  cases hfind : g.fields.find? fun e => e.1 = name with
  | some e =>
    have he : (name, e.2) ∈ g.fields := by
      rw [← of_decide_eq_true (List.find?_some hfind :)]
      exact List.mem_of_find?_eq_some hfind
    rw [getElem?_trailerMap.2 he]
    rfl
  | none =>
    cases hget : g.trailerMap[name]? with
    | none => rfl
    | some vs =>
      have hno := List.find?_eq_none.1 hfind _ (getElem?_trailerMap.1 hget)
      simp at hno

theorem values_grpcStatus : g.values (ascii "grpc-status") = [sprintInt g.grpcStatus] := by
  rw [← getD_trailerMap, getElem?_trailerMap.2 (mem_fields.2 (Or.inl rfl))]
  rfl

theorem values_grpcMessage : g.values (ascii "grpc-message") = g.grpcMessage.toList := by
  rw [← getD_trailerMap]
  cases hmessage : g.grpcMessage with
  | some message =>
    rw [getElem?_trailerMap.2 (mem_fields.2 (Or.inr (Or.inl ⟨message, hmessage, rfl⟩)))]
    rfl
  | none =>
    cases hget : g.trailerMap[ascii "grpc-message"]? with
    | none => rfl
    | some vs =>
      have hne : ascii "grpc-message" ≠ ascii "grpc-status" := by decide
      have hgrpc : ascii "grpc-" <+: ascii "grpc-message" := by decide
      rcases mem_fields.1 (getElem?_trailerMap.1 hget) with heq | ⟨message, hm, -⟩ | he
      · exact absurd (congrArg Prod.fst heq) hne
      · rw [hmessage] at hm
        cases hm
      · exact absurd hgrpc (g.trailers_names _ he).2.2.1

/-- The message of the status is printable, as gRPC encodes it, and has no blanks around it. -/
def MessagePrintable (g : HandlerRun) : Prop := ∀ message ∈ g.grpcMessage, IsPrintable message

instance (g : HandlerRun) : Decidable g.MessagePrintable :=
  inferInstanceAs (Decidable (∀ message ∈ g.grpcMessage, IsPrintable message))

theorem fields_printable (hmessage : g.MessagePrintable) {e : GoString × List GoString}
    (he : e ∈ g.fields) {v : GoString} (hv : v ∈ e.2) : IsPrintable v := by
  rcases mem_fields.1 he with rfl | ⟨message, hm, rfl⟩ | he
  · rw [List.mem_singleton.1 hv]
    exact isPrintable_sprintInt _
  · rw [List.mem_singleton.1 hv]
    exact hmessage message hm
  · exact g.trailers_values e he v hv

theorem asciiValues_trailerMap (hmessage : g.MessagePrintable) : AsciiValues g.trailerMap := by
  intro k vs hk v hv c hc
  exact (fields_printable hmessage (getElem?_trailerMap.1 hk) hv).isValidHeaderAscii hc

variable {M : Type} [BrowserHeaders M]

/-- A collection has exactly the fields of the handler, whatever the letter case. -/
def HasFields (g : HandlerRun) (m : M) : Prop :=
  ∀ name : GoString, validHeaderFieldName name = true → ClientTakes name →
    BrowserHeaders.get m (fromCharCodes name) = (g.values (toLower name)).map fromCharCodes

/-- The status and the message that the client reads off a collection are those of the handler. -/
def HasStatus (g : HandlerRun) (m : M) : Prop :=
  getStatusFromHeaders m = some (.int g.grpcStatus) ∧
    decodeGRPCStatus (BrowserHeaders.get m (js "grpc-message")).head? = g.messageText

theorem parseInt_grpcStatus : parseInt (fromCharCodes (sprintInt g.grpcStatus)) =
    .int g.grpcStatus := by
  rw [fromCharCodes_sprintInt]
  exact parseInt_decimal (lt_trans g.grpcStatus_lt (by decide))

/-- What the client reads under the two names of the status. -/
theorem hasStatus_of_get {m : M}
    (hstatus : BrowserHeaders.get m (js "grpc-status") = [fromCharCodes (sprintInt g.grpcStatus)])
    (hmessage : BrowserHeaders.get m (js "grpc-message") =
      g.grpcMessage.toList.map fromCharCodes) : g.HasStatus m := by
  constructor
  · rw [getStatusFromHeaders, hstatus]
    exact congrArg some parseInt_grpcStatus
  · rw [hmessage, messageText]
    cases g.grpcMessage <;> rfl

theorem HasFields.hasStatus {m : M} (h : g.HasFields m) : g.HasStatus m := by
  have hstatus : js "grpc-status" = fromCharCodes (ascii "grpc-status") := by decide
  have hmessage : js "grpc-message" = fromCharCodes (ascii "grpc-message") := by decide
  have hlower (s : GoString) (hs : isASCII s = true) (hl : s.map toLowerByte = s) : toLower s = s :=
    (toLower_of_isASCII hs).trans hl
  refine hasStatus_of_get ?_ ?_
  · rw [hstatus, h _ (by decide) takes_grpcStatus, hlower _ (by decide) (by decide),
      values_grpcStatus]
    rfl
  · rw [hmessage, h _ (by decide) takes_grpcMessage, hlower _ (by decide) (by decide),
      values_grpcMessage]

variable [LawfulBrowserHeaders M]

omit [Unicode] in
/-- A copy has the same status. -/
theorem getStatusFromHeaders_copy (m : M) :
    getStatusFromHeaders (BrowserHeaders.copy m) = getStatusFromHeaders m := by
  rw [getStatusFromHeaders, LawfulBrowserHeaders.get_copy m (by decide) (by decide),
    getStatusFromHeaders]

theorem HasStatus.copy {m : M} (h : g.HasStatus m) : g.HasStatus (BrowserHeaders.copy m) := by
  rw [HasStatus, getStatusFromHeaders_copy,
    LawfulBrowserHeaders.get_copy m (by decide) (by decide)]
  exact h

theorem takes_trailerMap {k : GoString} (hk : k ∈ g.trailerMap) : ClientTakes k := by
  obtain ⟨vs, hvs⟩ := exists_of_mem hk
  exact (field_name (getElem?_trailerMap.1 hvs)).2.2

/-- **What the client has of the trailers**: the fields, also in a copy. -/
theorem get_trailerMap (hmessage : g.MessagePrintable) : ∃ m : M,
    BrowserHeaders.construct (.text (fromCharCodes g.trailerMap.write)) = .ok m ∧
      g.HasFields m ∧ g.HasFields (BrowserHeaders.copy m) := by
  obtain ⟨m, hm, hget⟩ := get_write (M := M) fun k hk _ => takes_trailerMap (g := g) hk
  suffices hfields : g.HasFields m from
    ⟨m, hm, hfields, fun name hname htakes => (hget name hname htakes).2.trans
      (hfields name hname htakes)⟩
  intro name hname htakes
  rw [(hget name hname htakes).1, ← getD_trailerMap]
  have hlower {k : GoString} (hk : k ∈ g.trailerMap) : toLower k = k := by
    obtain ⟨vs, hvs⟩ := exists_of_mem hk
    exact (field_name (getElem?_trailerMap.1 hvs)).2.1
  cases hvs : g.trailerMap[toLower name]? with
  | some vs =>
    have he := getElem?_trailerMap.1 hvs
    rw [Header.writtenLines_filter hvs (field_name he).1
      (p := fun n => decide (toLower n = toLower name))
      (decide_eq_true (field_name he).2.1)
      fun k' hk' _ hne => decide_eq_false fun heq => hne ((hlower hk').symm.trans heq),
      List.map_map]
    refine List.map_congr_left fun v hv => ?_
    obtain ⟨hwritten, htrim⟩ := (fields_printable hmessage he hv).trim_written
    rw [Function.comp_apply, hwritten, htrim]
  | none =>
    rw [lines_of_absent]
    · rfl
    · intro k hk _ heq
      rw [hlower hk] at heq
      obtain ⟨vs, hvs'⟩ := exists_of_mem (heq ▸ hk)
      rw [hvs] at hvs'
      cases hvs'

/-- The client reads no status off headers with other names. -/
theorem status_of_plain {h : Header} (hplain : ∀ f ∈ h, IsPlain f) : ∃ m : M,
    BrowserHeaders.construct (.text (fromCharCodes h.write)) = .ok m ∧
      getStatusFromHeaders m = none := by
  obtain ⟨m, hm, hget⟩ := get_write (M := M) fun f hf _ => (hplain f hf).takes
  have hname : js "grpc-status" = fromCharCodes (ascii "grpc-status") := by decide
  refine ⟨m, hm, ?_⟩
  rw [getStatusFromHeaders, hname, (hget _ (by decide) takes_grpcStatus).1, lines_of_absent]
  · rfl
  · intro f hf _ heq
    refine (hplain f hf).not_isReserved (Or.inr ?_)
    rw [heq, toLower_of_isASCII (by decide)]
    decide

/-! ## A response with no messages -/

omit [BrowserHeaders M] [LawfulBrowserHeaders M] in
/-- An entry of the final header map that is sent under a name of gRPC is a field. -/
theorem field_of_grpcName {k : GoString} (hk : k ∈ g.setTrailers g.headers)
    (hgrpc : ascii "grpc-" <+: trailerName k) :
    ∃ e ∈ g.fields, e.1 = trailerName k ∧ fieldKey e.1 = k := by
  obtain ⟨vs, hvs⟩ := exists_of_mem hk
  rcases getElem?_setTrailers.1 hvs with ⟨e, he, rfl, -⟩ | hhead
  · exact ⟨e, he, (trailerName_fieldKey he).symm, rfl⟩
  · obtain ⟨hcontains, hplain⟩ := g.headers_plain k (mem_of_getElem? hhead)
    rw [trailerName, stripTrailerPrefix, replaceFirst_of_not_contains hcontains] at hgrpc
    exact absurd (Or.inr hgrpc) hplain.not_isReserved

/-- A header map with the status of the run: its names of gRPC are those of the fields. -/
structure StatusEntries (g : HandlerRun) (key : GoString → GoString) (h : Header) : Prop where
  only : ∀ f ∈ h, validHeaderFieldName f = true → ascii "grpc-" <+: toLower f →
    f = key (toLower f) ∧ ∃ e ∈ g.fields, e.1 = toLower f
  has : ∀ e ∈ g.fields, ascii "grpc-" <+: e.1 →
    h[key e.1]? = some e.2 ∧ validHeaderFieldName (key e.1) = true ∧ toLower (key e.1) = e.1

/-- The client reads the status off such a map. -/
theorem hasStatus_of_entries (hmessage : g.MessagePrintable) {key : GoString → GoString}
    {h : Header} (hentries : g.StatusEntries key h)
    (hnames : ∀ f ∈ h, validHeaderFieldName f = true → ClientTakes f) : ∃ m : M,
    BrowserHeaders.construct (.text (fromCharCodes h.write)) = .ok m ∧ g.HasStatus m := by
  obtain ⟨m, hm, hget⟩ := get_write (M := M) hnames
  have hvalues {name : GoString} (hvalid : validHeaderFieldName name = true)
      (hlower : name.map toLowerByte = name) (hgrpc : ascii "grpc-" <+: name)
      (htakes : ClientTakes name) :
      BrowserHeaders.get m (fromCharCodes name) = (g.values name).map fromCharCodes := by
    have hname : toLower name = name :=
      (toLower_of_isASCII (isASCII_of_token (token_of_valid hvalid).2)).trans hlower
    rw [(hget name hvalid htakes).1, ← getD_trailerMap]
    cases hvs : g.trailerMap[name]? with
    | some vs =>
      have he := getElem?_trailerMap.1 hvs
      obtain ⟨hk, hkvalid, hkey⟩ : h[key name]? = some vs ∧ _ ∧ toLower (key name) = name :=
        hentries.has _ he hgrpc
      have hlines := lines_of_unique hk hkvalid fun f hf hfvalid heq => by
        rw [hkey] at heq
        rw [(hentries.only f hf hfvalid (heq ▸ hgrpc)).1, heq]
      rw [hkey] at hlines
      rw [hname, hlines, List.map_map]
      refine List.map_congr_left fun v hv => ?_
      obtain ⟨hwritten, htrim⟩ := (fields_printable hmessage he hv).trim_written
      rw [Function.comp_apply, hwritten, htrim]
    | none =>
      rw [lines_of_absent]
      · rfl
      · intro f hf hfvalid heq
        rw [hname] at heq
        obtain ⟨-, e, he, hename⟩ := hentries.only f hf hfvalid (heq ▸ hgrpc)
        rw [getElem?_trailerMap.2 (show (name, e.2) ∈ g.fields from (hename.trans heq) ▸ he)] at hvs
        cases hvs
  have hstatus : js "grpc-status" = fromCharCodes (ascii "grpc-status") := by decide
  have hmessageName : js "grpc-message" = fromCharCodes (ascii "grpc-message") := by decide
  refine ⟨m, hm, hasStatus_of_get ?_ ?_⟩
  · rw [hstatus, hvalues (by decide) (by decide) (by decide) takes_grpcStatus, values_grpcStatus]
    rfl
  · rw [hmessageName, hvalues (by decide) (by decide) (by decide) takes_grpcMessage,
      values_grpcMessage]

end HandlerRun

end

end GrpcWeb.EndToEnd

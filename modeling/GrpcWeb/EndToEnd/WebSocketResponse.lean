import GrpcWeb.EndToEnd.HttpResponse

/-!
# The response over a WebSocket, end to end

A gRPC handler runs on `webSocketResponseWriter`, and a client is given each message of the socket
as a chunk, and the end. `messages_run` lists the messages of a run: the two of a header frame, one
for each `Write`, and the two of the trailers' frame.

Header frames and trailers' frames look the same, and the client takes the first frame for the
headers. `websocket_response_fidelity` says what its application is shown: the headers, the messages
of the handler in order, and an end with the handler's status, message and trailers. When the
handler writes nothing, the trailers are taken for the headers, and the status is read there.
-/

namespace GrpcWeb.EndToEnd

open Js Go Client Server

/-! ## The messages of a run -/

/-- The messages that an operation passes on. -/
def writes : HandlerOp → List Bytes
  | .write b => [b]
  | _ => []

theorem flatten_writes (ops : List HandlerOp) :
    (ops.flatMap writes).flatten = ops.flatMap HandlerOp.bytes := by
  induction ops with
  | nil => rfl
  | cons op ops ih =>
    rw [List.flatMap_cons, List.flatMap_cons, List.flatten_append, ih]
    cases op <;> simp [writes, HandlerOp.bytes]

/-- The messages of a run, in a response that has been started or not. -/
def messages (h : Header) (started : Bool) : List HandlerOp → List Bytes
  | [] => []
  | op :: ops =>
    (if op.publishes started then WebSocketResponseWriter.headerFrame h else []) ++
      (writes op ++ messages (op.edit h) (started || op.starts) ops)

theorem messages_of_not_starts {ops : List HandlerOp} (hops : ∀ op ∈ ops, op.starts = false)
    (h : Header) : messages h false ops = [] := by
  induction ops generalizing h with
  | nil => rfl
  | cons op ops ih =>
    obtain ⟨hop, hrest⟩ := List.forall_mem_cons.1 hops
    rw [messages, hop]
    cases op with
    | header edit | flush => exact ih hrest _
    | write b | writeHeader code => cases hop

/-- Once the response is started, what is written is passed on. -/
theorem messages_rest (h : Header) {ops : List HandlerOp} (hops : ∀ op ∈ ops, passes op = true)
    (edit : Header → Header) : messages h true (ops ++ [.header edit]) = ops.flatMap writes := by
  induction ops generalizing h with
  | nil => rfl
  | cons op ops ih =>
    obtain ⟨hop, hrest⟩ := List.forall_mem_cons.1 hops
    rw [List.cons_append, messages, List.flatMap_cons]
    cases op with
    | write b => exact congrArg (b :: ·) (ih _ hrest)
    | flush => exact ih _ hrest
    | header edit => cases hop
    | writeHeader code => cases hop

/-- Calls of `Write` and `Flush` send the headers at the first `Write`. -/
theorem messages_body (h : Header) {ops : List HandlerOp} (hops : ∀ op ∈ ops, passes op = true)
    (hstart : ops.any HandlerOp.starts = true) (edit : Header → Header) :
    messages h false (ops ++ [.header edit]) =
      WebSocketResponseWriter.headerFrame h ++ ops.flatMap writes := by
  induction ops with
  | nil => cases hstart
  | cons op ops ih =>
    obtain ⟨hop, hrest⟩ := List.forall_mem_cons.1 hops
    rw [List.cons_append, messages, List.flatMap_cons]
    cases op with
    | write b =>
      exact congrArg (WebSocketResponseWriter.headerFrame h ++ b :: ·) (messages_rest h hrest edit)
    | flush => exact ih hrest hstart
    | header edit => cases hop
    | writeHeader code => cases hop

section

variable [Unicode]

/-- **The messages** of a run. -/
theorem messages_run (w : WebSocketResponseWriter) (run : List (HandlerOp × LoopOrders)) :
    (run.foldl WebSocketResponseWriter.step w).sent =
      w.sent ++ messages w.headers w.writtenHeaders (run.map Prod.fst) := by
  induction run generalizing w with
  | nil => exact (List.append_nil _).symm
  | cons op run ih =>
    rw [List.foldl_cons, ih, WebSocketResponseWriter.sent_step,
      WebSocketResponseWriter.headers_step, WebSocketResponseWriter.writtenHeaders_step,
      List.map_cons, messages, List.append_assoc, List.append_assoc]
    congr 3

omit [Unicode] in
theorem flatten_headerFrame (h : Header) :
    (WebSocketResponseWriter.headerFrame h).flatten = trailerFrame h.write := by
  simp [WebSocketResponseWriter.headerFrame, trailerFrame, trailerGrpcDataHeader]

namespace HandlerRun

variable (g : HandlerRun)

instance : Decidable g.Started := inferInstanceAs (Decidable (∃ op ∈ g.ops, op.starts = true))

/-- The trailers, when no headers were sent before. -/
def alone (close : LoopOrders) : Header :=
  extractTrailingHeaders close (g.setTrailers g.headers) ∅

/-- The header map that the first frame carries. -/
def first (close : LoopOrders) : Header := if g.Started then g.headers else g.alone close

variable {g}

/-- A run that starts the response sends its headers, and then what it writes. -/
theorem messages_ops (hstart : g.Started) : messages ∅ false g.ops =
    WebSocketResponseWriter.headerFrame g.headers ++ g.body.flatMap writes := by
  have htail : messages g.headers false
      (g.writeHeader.toList.map .writeHeader ++ (g.body ++ [.header g.setTrailers])) =
        WebSocketResponseWriter.headerFrame g.headers ++ g.body.flatMap writes := by
    cases hw : g.writeHeader with
    | some code =>
      exact congrArg (WebSocketResponseWriter.headerFrame g.headers ++ ·)
        (messages_rest g.headers g.body_passes g.setTrailers)
    | none =>
      exact messages_body g.headers g.body_passes (any_starts_body hstart hw) g.setTrailers
  exact htail

/-- The messages of a response: those of the run, and the frame of what was not sent with them. -/
theorem websocket_messages {run : List (HandlerOp × LoopOrders)} (hrun : run.map Prod.fst = g.ops)
    (close : LoopOrders) : ∃ flushed : Header,
    (∀ f, f ∈ flushed ↔ ∃ m ∈ published ∅ false g.ops, CopiedAs canonicalHeaderKey m f) ∧
      handleGrpcWebsocketRequest run close = messages ∅ false g.ops ++
        WebSocketResponseWriter.headerFrame
          (extractTrailingHeaders close (g.setTrailers g.headers) flushed) := by
  refine ⟨(run.foldl WebSocketResponseWriter.step {}).flushedHeaders, fun f => ?_, ?_⟩
  · rw [WebSocketResponseWriter.mem_flushedHeaders_run, hrun]
    exact or_iff_right Std.ExtTreeMap.not_mem_empty
  · rw [handleGrpcWebsocketRequest, WebSocketResponseWriter.flushTrailers,
      WebSocketResponseWriter.extractTrailerHeaders_eq, WebSocketResponseWriter.headers_run, hrun,
      WebSocketResponseWriter.writeHeaderFrame, messages_run, hrun]
    rw [← headersAfter_ops]
    rfl

theorem websocket_started (hstart : g.Started) {run : List (HandlerOp × LoopOrders)}
    (hrun : run.map Prod.fst = g.ops) (close : LoopOrders) :
    handleGrpcWebsocketRequest run close =
      WebSocketResponseWriter.headerFrame g.headers ++
        (g.body.flatMap writes ++ WebSocketResponseWriter.headerFrame g.trailerMap) := by
  obtain ⟨flushed, hflushed, hmessages⟩ := websocket_messages hrun close
  rw [published_ops hstart] at hflushed
  have htrailers : extractTrailingHeaders close (g.setTrailers g.headers) flushed =
      g.trailerMap := by
    refine extract_handlerRun (fun f hf => ?_) (fun k hk ht => ?_) close
    · obtain ⟨m, hm, hcopied⟩ := (hflushed f).1 hf
      rw [List.mem_singleton.1 hm] at hcopied
      obtain ⟨k, hk, -, rfl⟩ := hcopied
      rw [IsReserved, toLower_canonicalHeaderKey]
      exact (g.headers_plain k hk).2.not_isReserved
    · exact ⟨_, (hflushed _).2 ⟨_, List.mem_singleton_self _, k, hk, ht, rfl⟩,
        toLower_canonicalHeaderKey k⟩
  rw [hmessages, htrailers, messages_ops hstart, List.append_assoc]

theorem websocket_not_started (hstart : ¬ g.Started) {run : List (HandlerOp × LoopOrders)}
    (hrun : run.map Prod.fst = g.ops) (close : LoopOrders) :
    handleGrpcWebsocketRequest run close = WebSocketResponseWriter.headerFrame (g.alone close) := by
  obtain ⟨flushed, hflushed, hmessages⟩ := websocket_messages hrun close
  have hops := starts_of_not_started hstart
  rw [published_of_not_starts hops] at hflushed
  have hempty : flushed = ∅ := Std.ExtTreeMap.eq_empty_iff_forall_not_mem.2 fun f hf => by
    obtain ⟨m, hm, -⟩ := (hflushed f).1 hf
    cases hm
  rw [hmessages, messages_of_not_starts hops, List.nil_append, hempty, alone]

/-- The client takes the names of trailers without headers. -/
theorem takes_alone [LawfulUnicode] (close : LoopOrders) {f : GoString} (hf : f ∈ g.alone close)
    (hvalid : validHeaderFieldName f = true) : ClientTakes f := by
  rcases mem_copyHeader.1 hf with hf | ⟨vs', k, vs, hk, -, heq⟩
  · exact absurd hf Std.ExtTreeMap.not_mem_empty
  · rw [replace_trailerOptions] at heq
    obtain ⟨name, htakes, hname⟩ := takes_setTrailers (mem_of_getElem? hk)
    have hf : f = toLower name := (congrArg Prod.fst heq).symm.trans hname
    refine htakes.of_toLower ?_
    rw [hf]
    refine toLower_toLower (isASCII_of_token ?_)
    rw [← hf]
    exact (token_of_valid hvalid).2

/-- Trailers without headers carry the status. -/
theorem statusEntries_alone [LawfulUnicode] (close : LoopOrders) :
    g.StatusEntries id (g.alone close) where
  only f hf hvalid hgrpc := by
    rcases mem_copyHeader.1 hf with hf | ⟨vs', k, vs, hk, -, heq⟩
    · exact absurd hf Std.ExtTreeMap.not_mem_empty
    · have hname : trailerName k = f := by
        rw [replace_trailerOptions] at heq
        exact congrArg Prod.fst heq
      have hlower : toLower f = f := by
        rw [← hname, trailerName]
        refine toLower_toLower (isASCII_of_token ?_)
        rw [← trailerName, hname]
        exact (token_of_valid hvalid).2
      rw [hlower, ← hname] at hgrpc
      obtain ⟨e, he, hename, -⟩ := field_of_grpcName (mem_of_getElem? hk) hgrpc
      rw [hlower]
      exact ⟨rfl, e, he, hename.trans hname⟩
  has e he hgrpc := by
    have hvalue : (g.setTrailers g.headers)[fieldKey e.1]? = some e.2 :=
      getElem?_setTrailers.2 (Or.inl ⟨e, he, rfl, rfl⟩)
    have htrails : Trails ∅ (fieldKey e.1) :=
      ⟨fieldKey_ne_trailer he, fun f hf => absurd hf Std.ExtTreeMap.not_mem_empty⟩
    refine ⟨getElem?_copyHeader_of_unique ⟨_, e.2, hvalue, trails_iff.1 htrails, ?_⟩ ?_ _ _,
      (field_name he).1, (field_name he).2.1⟩
    · rw [replace_trailerOptions]
      exact congrArg (·, e.2) (trailerName_fieldKey he)
    · rintro vs' ⟨k, vs, hk, -, heq⟩
      rw [replace_trailerOptions, Prod.mk.injEq] at heq
      obtain ⟨hname, rfl⟩ := heq
      replace hname : trailerName k = e.1 := hname
      obtain ⟨e', he', hename, hkey⟩ := field_of_grpcName (mem_of_getElem? hk) (hname ▸ hgrpc)
      rw [← hkey, hename, hname, hvalue] at hk
      exact (Option.some.inj hk).symm

end HandlerRun

end

/-! ## The response -/

/-- The block of a header map fits in a frame, and the client allows its characters. -/
def Framable (h : Header) : Prop :=
  h.write.length < 2 ^ 32 ∧ ∀ c ∈ h.write, isValidHeaderAscii c.toNat = true

instance (h : Header) : Decidable (Framable h) := inferInstanceAs (Decidable (_ ∧ _))

section

variable {M Req Res : Type} [BrowserHeaders M] {methodDefinition : MethodDefinition Req Res}

omit [BrowserHeaders M] in
theorem bodyEvents_append (cs ds : List Bytes) :
    bodyEvents M (cs ++ ds) = cs.map .onChunk ++ bodyEvents M ds := by
  rw [bodyEvents, bodyEvents, List.map_append, List.append_assoc]

/-- The first header frame is taken for the headers. -/
theorem foldl_headerFrame {h : Header} (hframable : Framable h) {m : M}
    (hm : BrowserHeaders.construct (.text (fromCharCodes h.write)) = .ok m) :
    ((WebSocketResponseWriter.headerFrame h).map TransportEvent.onChunk).foldl
        (Reception.handle methodDefinition) ({} : Reception M Res) =
      { headers := some (BrowserHeaders.copy m), seen := [.headers (BrowserHeaders.copy m)] } := by
  have hblock : TrailersBlock (some (h.write, m)) := by
    rintro t ⟨⟩
    exact ⟨hframable.1, hframable.2, hm⟩
  have hnil : Deserializes methodDefinition [] [] := .nil
  have hfold := foldl_frames (r := ({} : Reception M Res)) rfl (fun _ hp => by cases hp) hnil hblock
    (flatten_headerFrame h)
  rw [hfold]
  rfl

variable [LawfulBrowserHeaders M] [Unicode] [LawfulUnicode]

/-- **The response over a WebSocket, end to end.** The client is shown the headers once, the
messages of the handler in order and one end, with the handler's status and message. The headers are
those of the first frame. When the response was started, the trailers of the end have exactly the
fields of the handler; otherwise they are the headers. -/
theorem websocket_response_fidelity {g : HandlerRun} (hmessage : g.MessagePrintable)
    {run : List (HandlerOp × LoopOrders)} (hrun : run.map Prod.fst = g.ops) (close : LoopOrders)
    (hfirst : Framable (g.first close)) (hblock : g.Started → g.trailerMap.write.length < 2 ^ 32)
    {messages : List Res} (hmessages : Deserializes methodDefinition g.payloads messages)
    {l : Listener} {seen : List (Dispatch M Res)}
    (hshows : Shows methodDefinition l (bodyEvents M (handleGrpcWebsocketRequest run close)) seen) :
    ∃ m trailers : M,
      BrowserHeaders.construct (.text (fromCharCodes (g.first close).write)) = .ok m ∧
      seen = .headers (BrowserHeaders.copy m) :: (messages.map .message ++
        [.ended (.int g.grpcStatus) g.messageText trailers]) ∧
      (g.Started → g.HasFields trailers) ∧ (¬ g.Started → trailers = BrowserHeaders.copy m) := by
  rw [shows_iff.1 hshows, receive]
  by_cases hstart : g.Started
  · have hmap : g.first close = g.headers := if_pos hstart
    rw [hmap] at hfirst ⊢
    obtain ⟨m, hm, -⟩ := get_write (M := M) fun k hk _ => (g.headers_plain k hk).2.takes
    obtain ⟨trailers, htrailers, -, hfields⟩ := HandlerRun.get_trailerMap (M := M) hmessage
    have htrailersBlock : TrailersBlock (some (g.trailerMap.write, trailers)) := by
      rintro t ⟨⟩
      exact ⟨hblock hstart, allowed_write (HandlerRun.asciiValues_trailerMap hmessage), htrailers⟩
    have hbody :
        (g.body.flatMap writes ++ WebSocketResponseWriter.headerFrame g.trailerMap).flatten =
          g.payloads.flatMap frameBytes ++ trailerFrame g.trailerMap.write := by
      rw [List.flatten_append, flatten_writes, g.body_bytes, flatten_headerFrame]
    refine ⟨m, BrowserHeaders.copy trailers, hm, ?_, fun _ => hfields,
      fun hno => absurd hstart hno⟩
    rw [HandlerRun.websocket_started hstart hrun, bodyEvents_append, List.foldl_append,
      foldl_headerFrame hfirst hm]
    exact seen_trailers rfl rfl rfl hmessages htrailersBlock hfields.hasStatus hbody
  · have hmap : g.first close = g.alone close := if_neg hstart
    rw [hmap] at hfirst ⊢
    obtain ⟨m, hm, hstatus⟩ := HandlerRun.hasStatus_of_entries (M := M) hmessage
      (HandlerRun.statusEntries_alone close) fun f hf hvalid =>
        HandlerRun.takes_alone close hf hvalid
    refine ⟨m, BrowserHeaders.copy m, hm, ?_, fun hyes => absurd hyes hstart, fun _ => rfl⟩
    rw [Deserializes, HandlerRun.payloads_of_not_started hstart] at hmessages
    cases hmessages
    rw [HandlerRun.websocket_not_started hstart hrun,
      ← List.append_nil (WebSocketResponseWriter.headerFrame _), bodyEvents_append,
      List.foldl_append, foldl_headerFrame hfirst hm]
    exact seen_end rfl rfl rfl rfl hstatus.copy List.flatten_nil

end

/-! ## Runs -/

local instance : Unicode := Unicode.byBytes

local instance : LawfulUnicode := Unicode.lawful_byBytes

/-- The messages of a run, with its loops in order. -/
def socketMessages (ops : List HandlerOp) : List Bytes :=
  handleGrpcWebsocketRequest (ops.map fun op => (op, LoopOrders.of .sorted)) (.of .sorted)

theorem websocket_response_fidelity_twoPieces : ∃ seen : List (Dispatch HeaderFields Bytes),
    Shows (bytesMethod false) ⟨0, 0, 0⟩
        (bodyEvents HeaderFields (socketMessages twoPieces.ops)) seen ∧
      ∃ m trailers : HeaderFields,
        BrowserHeaders.construct (.text (fromCharCodes (twoPieces.first (.of .sorted)).write)) =
          .ok m ∧
        seen = .headers (BrowserHeaders.copy m) :: ([[7]].map .message ++
          [.ended (.int 5) twoPieces.messageText trailers]) ∧
        (twoPieces.Started → twoPieces.HasFields trailers) ∧
          (¬ twoPieces.Started → trailers = BrowserHeaders.copy m) :=
  ⟨_, shows_iff.2 rfl, websocket_response_fidelity (g := twoPieces) (by decide +kernel) rfl
    (.of .sorted) (by decide +kernel) (fun _ => by decide +kernel) (.cons rfl .nil) (l := ⟨0, 0, 0⟩)
    (shows_iff.2 rfl)⟩

/-- A handler with a header that is not ASCII. -/
def latinHeader : HandlerRun :=
  { blankMessage with
    headers := (∅ : Header).insert (ascii "X-A") [[0xE9]]
    grpcStatus := 0
    grpcMessage := none
    headers_plain := fun k hk => by
      rcases Std.ExtTreeMap.mem_insert.1 hk with hk | hk
      · rw [← Std.LawfulEqOrd.compare_eq_iff_eq.1 hk]
        decide
      · exact absurd hk Std.ExtTreeMap.not_mem_empty
    grpcStatus_lt := by decide }

/-- A handler with a header in whose name the prefix of trailers stands in the middle. -/
def innerStatus : List HandlerOp :=
  [.header fun h => h.insert (ascii "grTrailer:pc-status") [ascii "3"],
    .header fun h => h.set (ascii "Grpc-Status") (ascii "0")]

/-- A handler with a header that a Go server sends and the client does not take. -/
def refusedHeader : List HandlerOp :=
  [.header fun h => h.insert (ascii "X!A") [ascii "b"], .write (frameBytes [7]),
    .header fun h => h.set (ascii "Grpc-Status") (ascii "0")]

/-- **What does not arrive as it was sent**: the blank of a message is lost, the client refuses a
header frame that is not ASCII or has a name that it does not take, and a header with the prefix of
trailers inside its name becomes the status. -/
theorem websocket_response_infidelity :
    (∃ headers trailers : HeaderFields,
      Shows (bytesMethod false) ⟨0, 0, 0⟩
        (bodyEvents HeaderFields (socketMessages blankMessage.ops))
        [.headers headers, .message [7], .ended (.int 5) (js "a") trailers] ∧
      blankMessage.messageText = js " a") ∧
    Shows (bytesMethod false) ⟨0, 0, 0⟩ (bodyEvents HeaderFields (socketMessages latinHeader.ops))
      [.ended Code.internal (js "parsing error: Metadata is not valid (printable) ASCII")
        BrowserHeaders.empty] ∧
    Shows (bytesMethod false) ⟨0, 0, 0⟩ (bodyEvents HeaderFields (socketMessages refusedHeader))
      [.ended Code.internal (js "parsing error: Invalid character in header field name")
        BrowserHeaders.empty] ∧
    ∃ headers : HeaderFields,
      Shows (bytesMethod false) ⟨0, 0, 0⟩ (bodyEvents HeaderFields (socketMessages innerStatus))
        [.headers headers, .ended (.int 3) [] headers] := by
  refine ⟨?_, ?_, ?_, ?_⟩
  · exact ⟨⟨[]⟩, ⟨[(js "grpc-message", [js "a"]), (js "grpc-status", [js "5"])]⟩,
      shows_iff.2 (by decide +kernel), by decide +kernel⟩
  · exact shows_iff.2 (by decide +kernel)
  · exact shows_iff.2 (by decide +kernel)
  · exact ⟨⟨[(js "grpc-status", [js "3"])]⟩, shows_iff.2 (by decide +kernel)⟩

end GrpcWeb.EndToEnd

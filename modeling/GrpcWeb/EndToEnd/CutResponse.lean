import GrpcWeb.EndToEnd.WebSocketResponse

/-!
# Responses that are cut off

What a client has of a response of which only the first bytes or messages have come. `Cut` says it
of the client: it has been shown a front part of the response, and if the connection ended now, it
would report the end of the response, or `Unknown` when something is missing. `cut_body` is the case
of a body with messages and trailers, and `cut_socket` the whole response over a WebSocket.
-/

namespace GrpcWeb.EndToEnd

open Js Go Client Server

variable {M Req Res : Type} [BrowserHeaders M] {methodDefinition : MethodDefinition Req Res}

/-- The client has been shown a front part of `shown`. If the connection ended, it would report `e`,
when it has been shown everything, or else `Unknown`, and that not when `all` has come. -/
structure Cut (shown : List (Dispatch M Res)) (e : Number × JsString × M) (all : Prop)
    (r : Reception M Res) : Prop where
  opened : r.completed = false
  seen : r.seen <+: shown
  ending : (r.seen = shown ∧ endOf r.headers r.trailers = e) ∨
    (¬ all ∧ (endOf r.headers r.trailers).1 = (Code.unknown : Number))

namespace Cut

variable {shown : List (Dispatch M Res)} {e : Number × JsString × M} {all : Prop}
  {r : Reception M Res}

theorem mono (h : Cut shown e all r) {more : Prop} (hall : more → all) : Cut shown e more r where
  opened := h.opened
  seen := h.seen
  ending := h.ending.imp_right fun ⟨hno, hcode⟩ => ⟨fun hmore => hno (hall hmore), hcode⟩

/-- **The connection ends.** -/
theorem takeEnd (h : Cut shown e all r) :
    r.takeEnd.seen = shown ++ [.ended e.1 e.2.1 e.2.2] ∨
      ¬ all ∧ ∃ front text trailers, front <+: shown ∧
        r.takeEnd.seen = front ++ [.ended (Code.unknown : Number) text trailers] := by
  have hseen : r.takeEnd.seen = r.seen ++ [.ended (endOf r.headers r.trailers).1
      (endOf r.headers r.trailers).2.1 (endOf r.headers r.trailers).2.2] := by
    simp [Reception.takeEnd, Reception.finish, Reception.see, h.opened]
  rcases h.ending with ⟨hshown, hend⟩ | ⟨hno, hcode⟩
  · left
    rw [hseen, hshown, hend]
  · right
    exact ⟨hno, r.seen, (endOf r.headers r.trailers).2.1, (endOf r.headers r.trailers).2.2, h.seen,
      by rw [hseen, hcode]⟩

end Cut

/-! ## A body -/

theorem endOf_of_headers {headers : M} (h : getStatusFromHeaders headers = none) :
    (endOf (some headers) none).1 = (Code.unknown : Number) := by
  simp [endOf, h]

theorem HandlerRun.HasStatus.endOf_trailers [Unicode] {g : HandlerRun} {trailers : M}
    (h : g.HasStatus trailers) (headers : Option M) :
    endOf headers (some trailers) = (.int g.grpcStatus, g.messageText, trailers) := by
  simp only [endOf, h.1, h.2]

theorem HandlerRun.HasStatus.endOf_headers [Unicode] {g : HandlerRun} {headers : M}
    (h : g.HasStatus headers) :
    endOf (some headers) none = (.int g.grpcStatus, g.messageText, headers) := by
  simp only [endOf, h.1, h.2]

omit [BrowserHeaders M] in
/-- The first frames of a body of messages. -/
theorem exists_front {payloads : List Bytes} {messages : List Res}
    (hmessages : Deserializes methodDefinition payloads messages) {fs : List Frame}
    (h : fs <+: payloads.map messageFrame) :
    ∃ front shown, fs = front.map messageFrame ∧ shown <+: messages ∧
      Deserializes methodDefinition front shown := by
  refine ⟨payloads.take fs.length, messages.take fs.length, ?_, List.take_prefix _ _,
    List.forall₂_take _ hmessages⟩
  rw [List.map_take]
  exact List.prefix_iff_eq_take.1 h

/-- **A body of messages and trailers, of which the first bytes have come**, in any chunks. -/
theorem cut_body [Unicode] {g : HandlerRun} {r : Reception M Res} (hopen : r.completed = false)
    (hunread : r.unread = []) {headers : M} (hheaders : r.headers = some headers)
    (hnone : getStatusFromHeaders headers = none) (hfresh : r.trailers = none) {messages : List Res}
    (hmessages : Deserializes methodDefinition g.payloads messages) {block : Bytes} {trailers : M}
    (htrailers : TrailersBlock (some (block, trailers)))
    (hstatus : g.HasStatus (BrowserHeaders.copy trailers)) {cs : List Bytes}
    (hcs : cs.flatten <+: g.payloads.flatMap frameBytes ++ trailerFrame block) :
    Cut (r.seen ++ messages.map .message)
      (.int g.grpcStatus, g.messageText, BrowserHeaders.copy trailers)
      (cs.flatten = g.payloads.flatMap frameBytes ++ trailerFrame block)
      ((cs.map .onChunk).foldl (Reception.handle methodDefinition) r) := by
  obtain ⟨t, ht⟩ := hcs
  by_cases hall : t = []
  · rw [hall, List.append_nil] at ht
    have htake : Reception.takeChunks methodDefinition
        (g.payloads.map .message ++ [.trailers trailers]) r =
          { r with
            seen := r.seen ++ messages.map .message
            trailers := some (BrowserHeaders.copy trailers) } := by
      rw [Reception.takeChunks_append (readable_messages hmessages),
        Reception.takeChunks_messages hmessages hopen]
      simp only [Reception.takeChunks, hheaders]
    rw [foldl_frames hunread g.payloads_length hmessages htrailers ht, Option.elim_some, htake]
    exact ⟨hopen, List.prefix_refl _, .inl ⟨rfl, hstatus.endOf_trailers _⟩⟩
  · have hdrain : frames.drain (cs.flatten ++ t) =
        (g.payloads.map messageFrame ++ [trailersFrame block], []) := by
      rw [ht, drain_messages g.payloads_length, drain_trailerFrame (htrailers _ rfl).1]
    obtain ⟨hpart, hwhole⟩ := frames.drain_prefix hdrain
    have hsome : (frames.drain cs.flatten).1 <+: g.payloads.map messageFrame :=
      (List.prefix_concat_iff.1 hpart).resolve_left fun heq => hall (hwhole heq)
    obtain ⟨front, shown, hfront, hshown, hfrontMessages⟩ := exists_front hmessages hsome
    have hmem : ∀ f ∈ front.map messageFrame, f.isTrailer = false := by
      intro f hf
      obtain ⟨p, -, rfl⟩ := List.mem_map.1 hf
      exact isTrailer_messageFrame p
    have hlast : ∀ f ∈ (frames.drain (r.unread ++ cs.flatten)).1.dropLast, f.isTrailer = false := by
      rw [hunread, List.nil_append, hfront]
      exact fun f hf => hmem f (List.mem_of_mem_dropLast hf)
    have hread : toChunks (frames.drain (r.unread ++ cs.flatten)).1 =
        .ok (front.map (Chunk.message (M := M))) := by
      rw [hunread, List.nil_append, hfront]
      exact toChunks_messageFrames front
    rw [Reception.foldl_chunks (by rw [hunread, frames_next_nil]) hlast hread
      (readable_messages hfrontMessages), Reception.takeChunks_messages hfrontMessages hopen]
    refine ⟨hopen, (List.prefix_append_right_inj _).2 (hshown.map _), .inr ⟨fun heq => ?_, ?_⟩⟩
    · rw [← ht] at heq
      exact hall (List.append_right_eq_self.1 heq.symm)
    · simp only [Reception.headers_leave, Reception.trailers_leave, hheaders, hfresh]
      exact endOf_of_headers hnone

/-! ## A response over a WebSocket -/

omit [BrowserHeaders M] in
theorem map_take_headerFrame (h : Header) (rest : List Bytes) (d : ℕ) :
    (((WebSocketResponseWriter.headerFrame h ++ rest).take (d + 2)).map TransportEvent.onChunk :
        List (TransportEvent M)) =
      (WebSocketResponseWriter.headerFrame h).map .onChunk ++ (rest.take d).map .onChunk := by
  simp [WebSocketResponseWriter.headerFrame]

/-- **A header frame of which the first message has come**: the headers when they are empty, and
nothing otherwise. -/
theorem cut_headerFrame (methodDefinition : MethodDefinition Req Res) {h : Header}
    (hframable : Framable h) {m : M}
    (hm : BrowserHeaders.construct (.text (fromCharCodes h.write)) = .ok m) (rest : List Bytes)
    {d : ℕ} (hd : d < 2) :
    let r := (((WebSocketResponseWriter.headerFrame h ++ rest).take d).map
      TransportEvent.onChunk).foldl (Reception.handle methodDefinition) ({} : Reception M Res)
    (∃ unread, r = ({} : Reception M Res).leave unread) ∨
      r = { headers := some (BrowserHeaders.copy m), seen := [.headers (BrowserHeaders.copy m)] } := by
  intro r
  obtain rfl | rfl : d = 0 ∨ d = 1 := by omega
  · exact .inl ⟨[], rfl⟩
  · have hone : r = (([0x80 :: putUint32 (UInt32.ofNat h.write.length)] : List Bytes).map
        TransportEvent.onChunk).foldl (Reception.handle methodDefinition) {} := rfl
    have hwhole : (0x80 :: putUint32 (UInt32.ofNat h.write.length)) ++ h.write =
        trailerFrame h.write := by
      rw [← flatten_headerFrame]
      simp [WebSocketResponseWriter.headerFrame]
    have hdrain := drain_trailerFrame hframable.1
    rw [← hwhole] at hdrain
    obtain ⟨hpart, hall⟩ := frames.drain_prefix hdrain
    rcases List.prefix_concat_iff.1 (show _ <+: [] ++ [trailersFrame h.write] from hpart) with
      heq | hnil
    · right
      have hempty := hall heq
      rw [hempty, List.append_nil, ← hempty] at hwhole
      have hblock : TrailersBlock (some (h.write, m)) := by
        rintro t ⟨⟩
        exact ⟨hframable.1, hframable.2, hm⟩
      have hnil : Deserializes methodDefinition [] [] := .nil
      rw [hone, foldl_frames (r := ({} : Reception M Res)) rfl (fun _ hp => by cases hp) hnil hblock
        (by simpa using hwhole)]
      rfl
    · left
      rw [List.prefix_nil] at hnil
      have hread : Readable methodDefinition ([] : List (Chunk M)) := fun _ hdata => by cases hdata
      refine ⟨_, hone.trans (Reception.foldl_chunks (r := {}) frames_next_nil ?_ ?_ hread)⟩
      · simp [hnil]
      · simp [hnil, toChunks]

variable [LawfulBrowserHeaders M] [Unicode]

variable [LawfulUnicode]

/-- **The response of a handler over a WebSocket, of which the first messages have come.** -/
theorem cut_socket {g : HandlerRun} (hmessage : g.MessagePrintable)
    {run : List (HandlerOp × LoopOrders)} (hrun : run.map Prod.fst = g.ops) (close : LoopOrders)
    (hfirst : Framable (g.first close)) (hblock : g.Started → g.trailerMap.write.length < 2 ^ 32)
    {messages : List Res} (hmessages : Deserializes methodDefinition g.payloads messages) :
    ∃ m trailers : M,
      BrowserHeaders.construct (.text (fromCharCodes (g.first close).write)) = .ok m ∧
      (g.Started → g.HasFields trailers) ∧ (¬ g.Started → trailers = BrowserHeaders.copy m) ∧
      ∀ d, Cut (.headers (BrowserHeaders.copy m) :: messages.map .message)
        (.int g.grpcStatus, g.messageText, trailers)
        ((handleGrpcWebsocketRequest run close).length ≤ d)
        (receive methodDefinition
          (((handleGrpcWebsocketRequest run close).take d).map .onChunk) : Reception M Res) := by
  by_cases hstart : g.Started
  · have hmap : g.first close = g.headers := if_pos hstart
    rw [hmap] at hfirst ⊢
    obtain ⟨m, hm, hnone⟩ := HandlerRun.status_of_plain (M := M) fun f hf => (g.headers_plain f hf).2
    obtain ⟨trailers, htrailers, -, hfields⟩ := HandlerRun.get_trailerMap (M := M) hmessage
    have htrailersBlock : TrailersBlock (some (g.trailerMap.write, trailers)) := by
      rintro t ⟨⟩
      exact ⟨hblock hstart, allowed_write (HandlerRun.asciiValues_trailerMap hmessage), htrailers⟩
    have hbody :
        (g.body.flatMap writes ++ WebSocketResponseWriter.headerFrame g.trailerMap).flatten =
          g.payloads.flatMap frameBytes ++ trailerFrame g.trailerMap.write := by
      rw [List.flatten_append, flatten_writes, g.body_bytes, flatten_headerFrame]
    refine ⟨m, BrowserHeaders.copy trailers, hm, fun _ => hfields, absurd hstart, fun d => ?_⟩
    rw [HandlerRun.websocket_started hstart hrun, receive]
    rcases Nat.lt_or_ge d 2 with hd | hd
    · have hmore : ¬ (WebSocketResponseWriter.headerFrame g.headers ++ (g.body.flatMap writes ++
          WebSocketResponseWriter.headerFrame g.trailerMap)).length ≤ d := by
        simp [WebSocketResponseWriter.headerFrame]
        omega
      rcases cut_headerFrame methodDefinition hfirst hm
        (g.body.flatMap writes ++ WebSocketResponseWriter.headerFrame g.trailerMap) hd with
        ⟨unread, hr⟩ | hr
      · rw [hr]
        exact ⟨rfl, List.nil_prefix, .inr ⟨hmore, rfl⟩⟩
      · rw [hr]
        exact ⟨rfl, by simp, .inr ⟨hmore, endOf_of_headers
          ((HandlerRun.getStatusFromHeaders_copy m).trans hnone)⟩⟩
    · obtain ⟨d, rfl⟩ := Nat.exists_eq_add_of_le' hd
      rw [map_take_headerFrame, List.foldl_append, foldl_headerFrame hfirst hm]
      refine (cut_body (r := { headers := some _, seen := [.headers _] }) rfl rfl rfl
        ((HandlerRun.getStatusFromHeaders_copy m).trans hnone) rfl hmessages htrailersBlock
        hfields.hasStatus ?_).mono fun hall => ?_
      · rw [← hbody]
        exact (List.take_prefix _ _).flatten
      · rw [List.take_of_length_le (by simpa [WebSocketResponseWriter.headerFrame] using hall),
          hbody]
  · have hmap : g.first close = g.alone close := if_neg hstart
    rw [hmap] at hfirst ⊢
    obtain ⟨m, hm, hstatus⟩ := HandlerRun.hasStatus_of_entries (M := M) hmessage
      (HandlerRun.statusEntries_alone close) fun f hf hvalid =>
        HandlerRun.takes_alone close hf hvalid
    refine ⟨m, BrowserHeaders.copy m, hm, (absurd · hstart), fun _ => rfl, fun d => ?_⟩
    rw [Deserializes, HandlerRun.payloads_of_not_started hstart] at hmessages
    cases hmessages
    rw [HandlerRun.websocket_not_started hstart hrun, receive,
      ← List.append_nil (WebSocketResponseWriter.headerFrame _)]
    have hheaders : Cut [.headers (BrowserHeaders.copy m)]
        (.int g.grpcStatus, g.messageText, BrowserHeaders.copy m)
        ((WebSocketResponseWriter.headerFrame (g.alone close) ++ []).length ≤ d)
        ({ headers := some (BrowserHeaders.copy m), seen := [.headers (BrowserHeaders.copy m)] } :
          Reception M Res) :=
      ⟨rfl, List.prefix_refl _, .inl ⟨rfl, hstatus.copy.endOf_headers⟩⟩
    rcases Nat.lt_or_ge d 2 with hd | hd
    · rcases cut_headerFrame methodDefinition hfirst hm [] hd with
        ⟨unread, hr⟩ | hr
      · rw [hr]
        refine ⟨rfl, List.nil_prefix, .inr ⟨?_, rfl⟩⟩
        simp [WebSocketResponseWriter.headerFrame]
        omega
      · rw [hr]
        exact hheaders
    · obtain ⟨d, rfl⟩ := Nat.exists_eq_add_of_le' hd
      rw [map_take_headerFrame, List.foldl_append, foldl_headerFrame hfirst hm]
      simpa using hheaders

end GrpcWeb.EndToEnd

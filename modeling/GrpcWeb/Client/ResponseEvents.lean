import GrpcWeb.Client.Transport

/-!
# The events of a response

Every transport for HTTP delivers a response as its headers, its body in chunks, and its end, which
some transports report more than once (`responseEvents`). `Exchange.shows_response`: on any
transport whose events have this form a listener is shown what the headers and the whole body amount
to, however the body was cut and however often the end was reported, when the frames of the body can
be read one after another (`Orderly`).
-/

namespace GrpcWeb.Client

open Js

variable {M Req Res σ α : Type}

/-- The headers, the chunks of the body, and each report of the end. -/
def responseEvents (headers : Option (M × ℕ)) (chunks : List Bytes) (ends : ℕ) :
    List (TransportEvent M) :=
  (headers.map fun h => .onHeaders h.1 h.2).toList ++ chunks.map .onChunk ++
    List.replicate ends .onEnd

theorem responseEvents_concat (headers : Option (M × ℕ)) (chunks : List Bytes) (chunk : Bytes) :
    (responseEvents headers (chunks ++ [chunk]) 0 : List (TransportEvent M)) =
      responseEvents headers chunks 0 ++ [.onChunk chunk] := by
  simp [responseEvents]

theorem responseEvents_end (headers : Option (M × ℕ)) (chunks : List Bytes) (ends : ℕ) :
    (responseEvents headers chunks (ends + 1) : List (TransportEvent M)) =
      responseEvents headers chunks ends ++ [.onEnd] := by
  simp [responseEvents, List.replicate_succ']

theorem onEnd_mem_responseEvents {headers : Option (M × ℕ)} {chunks : List Bytes} {ends : ℕ}
    (h : 0 < ends) : (.onEnd : TransportEvent M) ∈ responseEvents headers chunks ends := by
  simp [responseEvents, h.ne']

variable [BrowserHeaders M] {methodDefinition : MethodDefinition Req Res}

variable (M methodDefinition) in
/-- The frames of a body can be read: no frame but the last is an MSB frame, that one can be parsed,
and every message can be deserialized. -/
structure Orderly (body : Bytes) : Prop where
  last : ∀ f ∈ (frames.drain body).1.dropLast, f.isTrailer = false
  readable : ∃ ds : List (Chunk M), toChunks (frames.drain body).1 = .ok ds ∧
    Readable methodDefinition ds

/-- What comes of headers and a body that can be read, however it is cut. -/
theorem receive_body {headers : Option (M × ℕ)} {chunks : List Bytes} {ds : List (Chunk M)}
    (hlast : ∀ f ∈ (frames.drain chunks.flatten).1.dropLast, f.isTrailer = false)
    (hds : toChunks (frames.drain chunks.flatten).1 = .ok ds) (hread : Readable methodDefinition ds) :
    (receive methodDefinition (responseEvents headers chunks 0) : Reception M Res) =
      ((receive methodDefinition (responseEvents headers [] 0)).takeChunks methodDefinition ds).leave
        (frames.drain chunks.flatten).2 := by
  have hnone : ∀ e ∈ (responseEvents headers [] 0 : List (TransportEvent M)),
      e.isChunk = false := by
    cases headers <;> simp [responseEvents, TransportEvent.isChunk]
  have hunread : (receive methodDefinition (responseEvents headers [] 0) :
      Reception M Res).unread = [] := (receive_before methodDefinition hnone).1
  have hsplit : responseEvents headers chunks 0 =
      (responseEvents headers [] 0 : List (TransportEvent M)) ++ chunks.map .onChunk := by
    simp [responseEvents]
  rw [hsplit, receive, List.foldl_append, ← receive]
  generalize (receive methodDefinition (responseEvents headers [] 0) : Reception M Res) = r
    at hunread ⊢
  rw [← List.nil_append chunks.flatten, ← hunread] at hlast hds ⊢
  exact Reception.foldl_chunks (by rw [hunread, frames_next_nil]) hlast hds hread

/-- Before its end has come, such a response has ended the call only by its headers. -/
theorem completed_responseEvents {headers : Option (M × ℕ)} {chunks : List Bytes}
    (hbody : Orderly M methodDefinition chunks.flatten) :
    (receive methodDefinition (responseEvents headers chunks 0) : Reception M Res).completed =
      (headers.map fun h => (TransportEvent.onHeaders h.1 h.2).endsCall).getD false := by
  obtain ⟨ds, hds, hread⟩ := hbody.readable
  rw [receive_body hbody.last hds hread]
  refine (endsSeen_takeChunks methodDefinition ds _).1.trans ?_
  rw [(receive_before methodDefinition _).2]
  all_goals
    cases headers <;> simp [responseEvents, TransportEvent.isChunk]

/-- **The cut of a body is not seen.** -/
theorem receive_responseEvents {headers : Option (M × ℕ)} {chunks : List Bytes}
    (hbody : Orderly M methodDefinition chunks.flatten) (ends : ℕ) :
    (receive methodDefinition (responseEvents headers chunks ends) : Reception M Res) =
      receive methodDefinition (responseEvents headers [chunks.flatten] ends) := by
  obtain ⟨ds, hds, hread⟩ := hbody.readable
  have hsplit (cs : List Bytes) : responseEvents headers cs ends =
      (responseEvents headers cs 0 : List (TransportEvent M)) ++ List.replicate ends .onEnd := by
    simp [responseEvents]
  have hbodies (cs : List Bytes) (hcs : cs.flatten = chunks.flatten) :
      (receive methodDefinition (responseEvents headers cs 0) : Reception M Res) =
        ((receive methodDefinition (responseEvents headers [] 0)).takeChunks methodDefinition
          ds).leave (frames.drain chunks.flatten).2 := by
    rw [receive_body (hcs ▸ hbody.last) (hcs ▸ hds) hread, hcs]
  rw [hsplit, hsplit, receive, receive, List.foldl_append, List.foldl_append, ← receive, ← receive,
    hbodies chunks rfl, hbodies [chunks.flatten] (by simp)]

/-- A body of a message and trailers. -/
def smallBody : Bytes := frameBytes [7] ++ (⟨0x80, ascii "grpc-status:0"⟩ : Frame).write

theorem orderly_smallBody : Orderly HeaderFields (bytesMethod false) smallBody where
  last := by decide +kernel
  readable := by
    have hok : ((toChunks (frames.drain smallBody).1 :
        Except JsString (List (Chunk HeaderFields)))).isOk = true := by
      decide +kernel
    rcases hds : (toChunks (frames.drain smallBody).1 :
      Except JsString (List (Chunk HeaderFields))) with e | ds
    · simp [hds, Except.isOk, Except.toBool] at hok
    · exact ⟨ds, rfl, fun data _ => ⟨data, rfl⟩⟩

end GrpcWeb.Client

import GrpcWeb.Client.Frames
import GrpcWeb.Client.Service
import GrpcWeb.Server.Response

/-!
# The frame codec

The client's parser against the frames that client and server write: message frames as
`frameRequest` and gRPC write them, and the server's trailers frame.

`codec_roundTrip` recovers the payloads and the trailers from the encoded bytes, however these are
cut. Two kinds of trailers are left out (`codec_roundTrip_fails`): a block of `2 ^ 32` bytes or
more, whose length wraps around, and a block that the constructor of `Metadata` refuses.
-/

namespace GrpcWeb.EndToEnd

open Js Client Server

variable {M : Type} [BrowserHeaders M]

/-- The frame of a message. -/
def messageFrame (payload : Bytes) : Frame := ⟨0, payload⟩

/-- The frame of trailers. -/
def trailersFrame (trailers : Bytes) : Frame := ⟨0x80, trailers⟩

theorem write_trailersFrame (trailers : Bytes) :
    (trailersFrame trailers).write = trailerFrame trailers := rfl

theorem isTrailer_messageFrame (payload : Bytes) : (messageFrame payload).isTrailer = false := by
  show ((0 : UInt8) &&& 0x80 == 0x80) = false
  decide

theorem isTrailer_trailersFrame (trailers : Bytes) : (trailersFrame trailers).isTrailer = true := by
  show ((0x80 : UInt8) &&& 0x80 == 0x80) = true
  decide

/-- The frames of a body that starts with messages. -/
theorem drain_messages {payloads : List Bytes} (h : ∀ p ∈ payloads, p.length < 2 ^ 32) (t : Bytes) :
    frames.drain (payloads.flatMap frameBytes ++ t) =
      (payloads.map messageFrame ++ (frames.drain t).1, (frames.drain t).2) := by
  have hmap : payloads.flatMap frameBytes = (payloads.map messageFrame).flatMap Frame.write := by
    rw [List.flatMap_map]
    rfl
  rw [hmap]
  apply frames.drain_flatMap
  intro f hf t
  obtain ⟨p, hp, rfl⟩ := List.mem_map.1 hf
  exact Frame.next_write (h p hp) t

theorem drain_trailerFrame {trailers : Bytes} (h : trailers.length < 2 ^ 32) :
    frames.drain (trailerFrame trailers) = ([trailersFrame trailers], []) := by
  have hnext : frames.next (trailerFrame trailers) = some (trailersFrame trailers, []) := by
    have := Frame.next_write (f := trailersFrame trailers) h []
    rwa [List.append_nil, write_trailersFrame] at this
  rw [frames.drain_of_some hnext, frames.drain_of_none frames_next_nil]

theorem toChunks_messageFrames (payloads : List Bytes) :
    (toChunks (payloads.map messageFrame) : Except JsString (List (Chunk M))) =
      .ok (payloads.map .message) := by
  rw [toChunks_messages, List.map_map]
  · rfl
  · intro f hf
    obtain ⟨p, -, rfl⟩ := List.mem_map.1 hf
    exact isTrailer_messageFrame p

theorem allowed_of_all {t : Bytes} (h : (t.all fun c => isValidHeaderAscii c.toNat) = true) :
    ∀ c ∈ t, isValidHeaderAscii c.toNat = true :=
  List.all_eq_true.1 h

theorem parseTrailerData_eq {trailers : Bytes}
    (h : ∀ c ∈ trailers, isValidHeaderAscii c.toNat = true) :
    (parseTrailerData trailers : Except JsString M) =
      BrowserHeaders.construct (.text (fromCharCodes trailers)) := by
  rw [parseTrailerData, decodeASCII, if_pos (List.all_eq_true.2 h)]

theorem toChunks_trailersFrame {trailers : Bytes} {m : M}
    (hm : parseTrailerData trailers = .ok m) :
    toChunks [trailersFrame trailers] = .ok [.trailers m] := by
  have hchunk : (trailersFrame trailers).toChunk = .ok (.trailers m) := by
    rw [Frame.toChunk, if_pos (isTrailer_trailersFrame trailers)]
    simp only [trailersFrame, hm, Except.map]
  exact toChunks_cons hchunk rfl

/-- The trailers of a stream: none, or a block that fits in a frame, of allowed characters, with the
collection that is constructed from its text. -/
def TrailersBlock (trailers : Option (Bytes × M)) : Prop :=
  ∀ t ∈ trailers, t.1.length < 2 ^ 32 ∧ (∀ c ∈ t.1, isValidHeaderAscii c.toNat = true) ∧
    BrowserHeaders.construct (.text (fromCharCodes t.1)) = .ok t.2

/-- **What a body is drained to**: the frames of its messages and of its trailers, which can be
parsed. -/
theorem drain_body {payloads : List Bytes} (hpayloads : ∀ p ∈ payloads, p.length < 2 ^ 32)
    {trailers : Option (Bytes × M)} (htrailers : TrailersBlock trailers) {body : Bytes}
    (hbody : body = payloads.flatMap frameBytes ++ trailers.elim [] fun t => trailerFrame t.1) :
    (∀ f ∈ (frames.drain body).1.dropLast, f.isTrailer = false) ∧
      toChunks (frames.drain body).1 =
        .ok (payloads.map .message ++ trailers.elim [] fun t => [.trailers t.2]) ∧
      (frames.drain body).2 = [] := by
  have hmem : ∀ f ∈ payloads.map messageFrame, f.isTrailer = false := by
    intro f hf
    obtain ⟨p, -, rfl⟩ := List.mem_map.1 hf
    exact isTrailer_messageFrame p
  rcases trailers with _ | ⟨t, m⟩
  · have hdrain : frames.drain body = (payloads.map messageFrame, []) := by
      rw [hbody, Option.elim_none, drain_messages hpayloads, frames.drain_of_none frames_next_nil,
        List.append_nil]
    rw [hdrain, Option.elim_none, List.append_nil]
    exact ⟨fun f hf => hmem f (List.mem_of_mem_dropLast hf), toChunks_messageFrames payloads, rfl⟩
  · obtain ⟨hlen, hvalid, hm⟩ := htrailers (t, m) rfl
    have hdrain : frames.drain body = (payloads.map messageFrame ++ [trailersFrame t], []) := by
      rw [hbody, Option.elim_some, drain_messages hpayloads, drain_trailerFrame hlen]
    rw [hdrain, Option.elim_some, List.dropLast_concat]
    exact ⟨hmem, toChunks_append (toChunks_messageFrames payloads)
      (toChunks_trailersFrame ((parseTrailerData_eq hvalid).trans hm)), rfl⟩

/-- **The codec's round trip.** Calls of `parse` on the pieces of encoded messages and trailers,
however they are cut, return one chunk for each message and then one for the trailers, and leave
no byte unread. -/
theorem codec_roundTrip (hasSlice : Bool) (payloads : List Bytes)
    (hpayloads : ∀ p ∈ payloads, p.length < 2 ^ 32) (trailers : Option (Bytes × M))
    (htrailers : TrailersBlock trailers) {cs : List Bytes}
    (hcs : cs.flatten = payloads.flatMap frameBytes ++ trailers.elim [] fun t => trailerFrame t.1) :
    let parser : ChunkParser := { hasSlice := hasSlice }
    ∃ rs : List (List (Chunk M)), (parser.parseAll cs).1 = rs.map .ok ∧
      rs.flatten = payloads.map .message ++ trailers.elim [] (fun t => [.trailers t.2]) ∧
      (parser.parseAll (M := M) cs).2.pending = [] := by
  intro parser
  have hpending : parser.pending = [] := ChunkParser.pending_fresh hasSlice
  have hbody : parser.pending ++ cs.flatten = _ := (congrArg (· ++ cs.flatten) hpending).trans hcs
  obtain ⟨hlast, hchunks, hrest⟩ := drain_body hpayloads htrailers hbody
  have hnext : frames.next parser.pending = none := by
    rw [hpending]
    exact frames_next_nil
  obtain ⟨rs, hrs, hflat, hleft⟩ := ChunkParser.parseAll_eq hnext hlast hchunks
  exact ⟨rs, hrs, hflat, hleft.trans hrest⟩

/-- Two messages, the first of them empty, and a trailers line, cut in the middle of a header. -/
theorem codec_roundTrip_cutHeader :
    let t := ascii "grpc-status: 0\r\n"
    let parser : ChunkParser := { hasSlice := false }
    ∃ rs : List (List (Chunk HeaderFields)),
      (parser.parseAll [[0, 0, 0], [], [0, 0, 0, 0, 0, 0, 1, 7] ++ trailerFrame t]).1 = rs.map .ok ∧
      rs.flatten = [.message [], .message [7],
        .trailers ⟨[(js "grpc-status", [js "0"])]⟩] ∧
      (parser.parseAll (M := HeaderFields)
        [[0, 0, 0], [], [0, 0, 0, 0, 0, 0, 1, 7] ++ trailerFrame t]).2.pending = [] :=
  codec_roundTrip (M := HeaderFields) false [[], [7]] (by simp)
    (some (ascii "grpc-status: 0\r\n", ⟨[(js "grpc-status", [js "0"])]⟩))
    (by
      rintro t ⟨⟩
      exact ⟨by decide, allowed_of_all (by decide), by decide +kernel⟩)
    (by decide)

/-! ## Trailers that do not come back -/

/-- The length of a block of `2 ^ 32` bytes is written as 0. -/
theorem next_trailerFrame_of_length {trailers : Bytes} (h : trailers.length = 2 ^ 32) :
    Frame.next (trailerFrame trailers) = some (trailersFrame [], trailers) := by
  have hwrite : trailerFrame trailers = (trailersFrame []).write ++ trailers := by
    rw [trailerFrame, trailerGrpcDataHeader, h]
    rfl
  rw [hwrite]
  exact Frame.next_write (by decide) trailers

/-- The call that is given a block of `2 ^ 32` bytes does not read its bytes. -/
theorem pending_parse_of_length {trailers : Bytes} (h : trailers.length = 2 ^ 32)
    (hasSlice : Bool) :
    (({ hasSlice := hasSlice } : ChunkParser).parse (M := M) (trailerFrame trailers)).2.pending =
      trailers := by
  obtain ⟨-, hpending⟩ :=
    ({ hasSlice := hasSlice } : ChunkParser).parse_eq (M := M) (trailerFrame trailers)
  rw [hpending, ChunkParser.pending_fresh, List.nil_append,
    frames.drainTo_of_some _ (next_trailerFrame_of_length h)]
  rfl

theorem parseAll_singleton (p : ChunkParser) (c : Bytes) :
    p.parseAll (M := M) [c] = ([(p.parse c).1], (p.parse (M := M) c).2) := rfl

theorem pending_ne_nil_of_length {trailers : Bytes} (h : trailers.length = 2 ^ 32) :
    (({} : ChunkParser).parseAll (M := M) [trailerFrame trailers]).2.pending ≠ [] := by
  rw [parseAll_singleton, pending_parse_of_length h]
  intro hnil
  rw [hnil, List.length_nil] at h
  omega

/-- A block of `2 ^ 32` blanks. -/
def blanks : Bytes := List.replicate (2 ^ 32) 0x20

theorem length_blanks : blanks.length = 2 ^ 32 := by
  rw [blanks, List.length_replicate]

/-- **The round trip fails** for a block of `2 ^ 32` blanks, which stays unread, and for a block
that holds no header name. -/
theorem codec_roundTrip_fails :
    ((∀ c ∈ blanks, isValidHeaderAscii c.toNat = true) ∧
      (({} : ChunkParser).parseAll (M := HeaderFields) [trailerFrame blanks]).2.pending ≠ []) ∧
    ((∀ c ∈ ascii "@: 1\r\n", isValidHeaderAscii c.toNat = true) ∧
      (({} : ChunkParser).parseAll (M := HeaderFields) [trailerFrame (ascii "@: 1\r\n")]).1 =
        [.error (js "Invalid character in header field name")]) := by
  refine ⟨⟨?_, ?_⟩, allowed_of_all (by decide), by decide +kernel⟩
  · intro c hc
    rw [List.eq_of_mem_replicate hc]
    decide
  · exact pending_ne_nil_of_length length_blanks

end GrpcWeb.EndToEnd

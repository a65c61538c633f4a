import GrpcWeb.Client.TextBuffer
import GrpcWeb.Client.WebsocketTransport
import GrpcWeb.EndToEnd.HttpResponse
import GrpcWeb.EndToEnd.RequestMetadata

/-!
# The fake transport

The transport of the `grpc-web-fake-transport` package, which a `FakeTransportBuilder` makes for
tests: when the client has finished sending it delivers the headers, the messages and the trailers
that the builder was given, or stops at the error that was put in their place.

An error before the messages is delivered as a second event of headers, and one before the trailers
in a trailers frame, whose text is not percent-encoded. `fake_error_reported_iff`: the application
is shown the configured messages, one event of headers and one end with the code and the text of the
error exactly when the error comes before the trailers and its text `Survives` the frame.
-/

namespace GrpcWeb.EndToEnd

open Js Client

variable {M Req Res : Type}

/-! ## The builder -/

/-- What a builder has been told, apart from the listeners, which are called and nothing more. -/
structure FakeTransportBuilder (M Res : Type) where
  preHeadersErrorCode : Option ℕ := none
  headers : Option M := none
  preMessagesError : Option (ℕ × JsString) := none
  messages : List Res := []
  preTrailersError : Option (ℕ × JsString) := none
  trailers : Option M := none
  autoTrigger : Bool := true

namespace FakeTransportBuilder

def withPreMessagesError (grpcStatus : ℕ) (grpcMessage : JsString)
    (mock : FakeTransportBuilder M Res) : FakeTransportBuilder M Res :=
  { mock with preMessagesError := some (grpcStatus, grpcMessage) }

def withPreTrailersError (grpcStatus : ℕ) (grpcMessage : JsString)
    (mock : FakeTransportBuilder M Res) : FakeTransportBuilder M Res :=
  { mock with preTrailersError := some (grpcStatus, grpcMessage) }

end FakeTransportBuilder

/-! ## The triggers -/

/-- What a trigger delivers to the client, and what it then returns or throws. -/
structure Trigger (M : Type) where
  events : List (TransportEvent M)
  result : Except JsString Bool

/-- `if (t()) { u() }`. -/
def Trigger.andThen (t u : Trigger M) : Trigger M :=
  match t.result with
  | .ok true => ⟨t.events ++ u.events, u.result⟩
  | _ => t

variable [BrowserHeaders M]

def frameResponse (serializeBinary : Res → Bytes) (request : Res) : Bytes :=
  frameBytes (serializeBinary request)

def frameTrailers (trailers : M) : Bytes :=
  let bytes := bufferFrom (headersText (BrowserHeaders.entries trailers))
  0x80 :: putUint32 (UInt32.ofNat bytes.length) ++ bytes

/-- `new grpc.Metadata({ "grpc-status": String(error[0]), "grpc-message": error[1] })`. -/
def errorMetadata (error : ℕ × JsString) : Except JsString M :=
  BrowserHeaders.construct
    (.object [(js "grpc-status", [decimal error.1]), (js "grpc-message", [error.2])])

namespace FakeTransportBuilder

variable (serializeBinary : Res → Bytes) (mock : FakeTransportBuilder M Res)

/-- The triggers of a transport that has been invoked. -/
def sendHeaders : Trigger M :=
  match mock.preHeadersErrorCode with
  | some status => ⟨[.onHeaders BrowserHeaders.empty status, .onEnd], .ok false⟩
  | none => ⟨[.onHeaders (mock.headers.getD BrowserHeaders.empty) 200], .ok true⟩

def sendMessages : Trigger M :=
  match mock.preMessagesError with
  | some error =>
    match errorMetadata error with
    | .error e => ⟨[], .error e⟩
    | .ok headers => ⟨[.onHeaders headers 200, .onEnd], .ok false⟩
  | none => ⟨mock.messages.map fun m => .onChunk (frameResponse serializeBinary m), .ok true⟩

def sendTrailers : Trigger M :=
  match mock.preTrailersError with
  | some error =>
    match errorMetadata error with
    | .error e => ⟨[], .error e⟩
    | .ok (trailers : M) => ⟨[.onChunk (frameTrailers trailers), .onEnd], .ok false⟩
  | none =>
    let trailers := BrowserHeaders.set (mock.trailers.getD BrowserHeaders.empty)
      (js "grpc-status") (js "0")
    ⟨[.onChunk (frameTrailers trailers), .onEnd], .ok true⟩

def sendAll : Trigger M :=
  mock.sendHeaders.andThen ((mock.sendMessages serializeBinary).andThen mock.sendTrailers)

/-- `finishSend` of the transport. -/
def finishSend : Trigger M :=
  if mock.autoTrigger then mock.sendAll serializeBinary else ⟨[], .ok true⟩

end FakeTransportBuilder

/-! ## What the client makes of it -/

/-- The text of the trailers frame of an error. -/
def errorText (code : ℕ) (text : JsString) : JsString :=
  (js "grpc-status" ++ js ": " ++ decimal code) ++ 0xD :: 0xA ::
    ((js "grpc-message" ++ js ": " ++ text) ++ 0xD :: 0xA :: [])

/-- The payload that the client reads of a frame whose length has wrapped around. -/
def readPayload (bytes : Bytes) : Bytes := bytes.take (bytes.length % 2 ^ 32)

/-- The code and the text with which the payload of a trailers frame ends a call. -/
def endOfTrailers (M : Type) [BrowserHeaders M] (payload : Bytes) : Number × JsString × M :=
  match (parseTrailerData payload : Except JsString M) with
  | .error e => (Code.internal, js "parsing error: " ++ e, BrowserHeaders.empty)
  | .ok trailers => endOf none (some (BrowserHeaders.copy trailers))

theorem frameTrailers_eq_write (bytes : Bytes) :
    0x80 :: putUint32 (UInt32.ofNat bytes.length) ++ bytes =
      (trailersFrame (readPayload bytes)).write ++ bytes.drop (bytes.length % 2 ^ 32) := by
  have hle : bytes.length % 2 ^ 32 ≤ bytes.length := Nat.mod_le _ _
  have hlen : UInt32.ofNat (readPayload bytes).length = UInt32.ofNat bytes.length := by
    rw [readPayload, List.length_take, min_eq_left hle]
    apply UInt32.toNat_inj.1
    rw [UInt32.toNat_ofNat', UInt32.toNat_ofNat', Nat.mod_mod]
  rw [Frame.write, trailersFrame]
  simp only [hlen]
  rw [readPayload, List.append_assoc, List.take_append_drop]

theorem drainTo_frameTrailers (bytes : Bytes) :
    frames.drainTo Frame.isTrailer (0x80 :: putUint32 (UInt32.ofNat bytes.length) ++ bytes) =
      ([trailersFrame (readPayload bytes)], bytes.drop (bytes.length % 2 ^ 32)) := by
  have hlt : (readPayload bytes).length < 2 ^ 32 := by
    rw [readPayload, List.length_take]
    exact (min_le_left _ _).trans_lt (Nat.mod_lt _ (by norm_num))
  rw [frameTrailers_eq_write, frames.drainTo_of_some _ (Frame.next_write hlt _),
    if_pos (isTrailer_trailersFrame _)]

variable {methodDefinition : MethodDefinition Req Res}

/-- The headers that a listener has seen. -/
def headersSeen (seen : List (Dispatch M Res)) : List M :=
  seen.filterMap fun d => match d with
    | .headers headers => some headers
    | _ => none

/-- Headers without a status, at the start of a response. -/
theorem handle_headers (methodDefinition : MethodDefinition Req Res) {headers : M}
    (hheaders : BrowserHeaders.get headers (js "grpc-status") = []) :
    Reception.handle methodDefinition ({} : Reception M Res) (.onHeaders headers 200) =
      { headers := some headers, seen := [.headers headers] } := by
  rw [Reception.handle, Reception.takeHeaders, if_neg (by decide), getStatusFromHeaders, hheaders]
  rfl

/-- What has come of a response when its headers, which have no status, and its messages have
come. -/
theorem receive_messages (methodDefinition : MethodDefinition Req Res)
    (serializeBinary : Res → Bytes) {headers : M} {messages : List Res}
    (hheaders : BrowserHeaders.get headers (js "grpc-status") = [])
    (hmessages : ∀ m ∈ messages, (serializeBinary m).length < 2 ^ 32 ∧
      methodDefinition.deserializeBinary (serializeBinary m) = .ok m) :
    (receive methodDefinition (.onHeaders headers 200 ::
        messages.map fun m => .onChunk (frameResponse serializeBinary m)) : Reception M Res) =
      { headers := some headers, seen := .headers headers :: messages.map .message } := by
  have hdeserializes : Deserializes methodDefinition (messages.map serializeBinary) messages := by
    rw [Deserializes, List.forall₂_map_left_iff, List.forall₂_same]
    exact fun m hm => (hmessages m hm).2
  have hlength : ∀ p ∈ messages.map serializeBinary, p.length < 2 ^ 32 := by
    intro p hp
    obtain ⟨m, hm, rfl⟩ := List.mem_map.1 hp
    exact (hmessages m hm).1
  have hchunks :
      (messages.map fun m => TransportEvent.onChunk (M := M) (frameResponse serializeBinary m)) =
        (messages.map (frameResponse serializeBinary)).map .onChunk := by
    rw [List.map_map]
    rfl
  have hflat : (messages.map (frameResponse serializeBinary)).flatten =
      (messages.map serializeBinary).flatMap frameBytes ++
        (none : Option (Bytes × M)).elim [] fun t => Server.trailerFrame t.1 := by
    rw [List.flatMap_map, Option.elim_none, List.append_nil, List.flatMap_def]
    rfl
  have hblock : TrailersBlock (none : Option (Bytes × M)) := by rintro t ⟨⟩
  rw [receive, List.foldl_cons, handle_headers methodDefinition hheaders, hchunks,
    foldl_frames rfl hlength hdeserializes hblock hflat, Option.elim_none, List.append_nil,
    Reception.takeChunks_messages hdeserializes rfl]
  rfl

/-- **What the trailers frame adds**: the end of the call. -/
theorem seen_frameTrailers (bytes : Bytes) {r : Reception M Res} {headers : M}
    (hunread : r.unread = []) (hcompleted : r.completed = false)
    (hheaders : r.headers = some headers) :
    ((r.handle methodDefinition
        (.onChunk (0x80 :: putUint32 (UInt32.ofNat bytes.length) ++ bytes))).handle
        methodDefinition .onEnd).seen =
      r.seen ++ [.ended (endOfTrailers M (readPayload bytes)).1
        (endOfTrailers M (readPayload bytes)).2.1 (endOfTrailers M (readPayload bytes)).2.2] := by
  rw [Reception.handle, Reception.takeBytes, hunread, List.nil_append, drainTo_frameTrailers]
  rcases hparse : (parseTrailerData (readPayload bytes) : Except JsString M) with e | trailers
  · have hchunks : (toChunks ([] ++ [trailersFrame (readPayload bytes)]) :
        Except JsString (List (Chunk M))) = .error e :=
      toChunks_error (by simp) (isTrailer_trailersFrame _) hparse
    rw [List.nil_append] at hchunks
    simp only [hchunks, endOfTrailers, hparse]
    rw [Reception.handle, Reception.takeEnd, Reception.finish_of_completed rfl, Reception.finish,
      Reception.see, if_neg (by simp [hcompleted])]
    rfl
  · simp only [toChunks_trailersFrame hparse, endOfTrailers, hparse, Reception.takeChunks,
      Reception.headers_leave, hheaders]
    rw [Reception.handle, Reception.takeEnd, Reception.finish, Reception.see,
      if_neg (by simp [hcompleted])]
    rfl

/-! ## The text of an error -/

/-- The text passes through the frame, the line and the decoding as it is: it is of characters that
a header may have, on one line, without surrounding blanks, without anything to decode, and the
frame's length can be written. -/
structure Survives (code : ℕ) (text : JsString) : Prop where
  allowed : ∀ c ∈ text, isValidHeaderAscii c.toNat = true
  oneLine : ¬ [0xD, 0xA] <:+: text
  trimmed : trim text = text
  plain : 0x25 ∈ text → decodeURIComponent text = none
  short : (errorText code text).length < 2 ^ 32

/-- A text without escapes, checked character by character. -/
theorem survives_of_check {code : ℕ} {text : JsString}
    (h : (text.all fun c => isValidHeaderAscii c.toNat) = true ∧ ¬ [0xD, 0xA] <:+: text ∧
      trim text = text ∧ text.contains 0x25 = false ∧ (errorText code text).length < 2 ^ 32) :
    Survives code text where
  allowed := List.all_eq_true.1 h.1
  oneLine := h.2.1
  trimmed := h.2.2.1
  plain hmem := by
    rw [← List.contains_iff_mem, h.2.2.2.1] at hmem
    cases hmem
  short := h.2.2.2.2

theorem length_decodeGRPCStatus (src : JsString) :
    (decodeGRPCStatus (some src)).length ≤ src.length := by
  rw [decodeGRPCStatus]
  split
  · exact Nat.zero_le _
  · rcases h : decodeURIComponent src with _ | t
    · rfl
    · exact (length_decodeURIComponent h).1

/-- **A text is decoded to itself** when there is nothing to decode. -/
theorem decodeGRPCStatus_eq_self {src : JsString} :
    decodeGRPCStatus (some src) = src ↔ (0x25 ∈ src → decodeURIComponent src = none) := by
  rw [decodeGRPCStatus]
  split
  · rename_i hempty
    simp [hempty]
  · constructor
    · intro h hmem
      rcases hdecode : decodeURIComponent src with _ | t
      · rfl
      · rw [hdecode, Option.getD_some] at h
        have hlt := (length_decodeURIComponent hdecode).2 hmem
        rw [h] at hlt
        exact absurd hlt (lt_irrefl _)
    · intro h
      by_cases hmem : 0x25 ∈ src
      · rw [h hmem]
        rfl
      · rw [decodeURIComponent_of_not_mem hmem]
        rfl

/-- A text that is read off its first line, trimmed and decoded. -/
theorem survives_line_iff {text : JsString} :
    decodeGRPCStatus (some (trim (firstLine text))) = text ↔
      ¬ [0xD, 0xA] <:+: text ∧ trim text = text ∧
        (0x25 ∈ text → decodeURIComponent text = none) := by
  constructor
  · intro h
    have hdecode := length_decodeGRPCStatus (trim (firstLine text))
    have htrim := length_trim (firstLine text)
    rw [h] at hdecode
    have hline : ¬ [0xD, 0xA] <:+: text := fun hmem => by
      have := length_firstLine_lt hmem
      omega
    have hfirst : firstLine text = text := by rw [firstLine, splitLines_of_not_infix hline]; rfl
    rw [hfirst] at h hdecode
    have hsub : (trim text).Sublist text :=
      (List.rdropWhile_prefix ..).sublist.trans (List.dropWhile_suffix _).sublist
    have hself : trim text = text := hsub.eq_of_length (le_antisymm hsub.length_le hdecode)
    rw [hself] at h
    exact ⟨hline, hself, decodeGRPCStatus_eq_self.1 h⟩
  · rintro ⟨hline, hself, hplain⟩
    have hfirst : firstLine text = text := by rw [firstLine, splitLines_of_not_infix hline]; rfl
    rw [hfirst, hself]
    exact decodeGRPCStatus_eq_self.2 hplain

/-! ## The fields of the frame -/

theorem isName_status : (IsName (js "grpc-status") ∧ 0x2D ∈ js "grpc-status") ∧
    IsName (js "grpc-message") ∧ 0x2D ∈ js "grpc-message" := by decide

/-- The line of the code. -/
theorem textFields_status (code : ℕ) :
    textFields (js "grpc-status" ++ js ": " ++ decimal code) =
      [(js "grpc-status", decimal code)] := by
  have hclean : ¬ [0xD, 0xA] <:+: decimal code := fun h => by
    have := (mem_decimal (h.subset (by simp : (0xD : UInt16) ∈ [0xD, 0xA]))).1
    revert this
    decide
  rw [textFields_line isName_status.1.1 hclean, trim_decimal]

/-- The fields of a text that goes on behind `grpc-message: `. -/
theorem textFields_message (code : ℕ) (r : JsString) :
    ∃ rest, textFields ((js "grpc-status" ++ js ": " ++ decimal code) ++ 0xD :: 0xA ::
        (js "grpc-message" ++ js ": " ++ r)) =
      (js "grpc-status", decimal code) :: (js "grpc-message", trim (firstLine r)) :: rest := by
  rw [textFields_append, textFields_status, textFields_cons isName_status.2.1]
  exact ⟨_, rfl⟩

theorem textFields_errorText {code : ℕ} {text : JsString} (h : ¬ [0xD, 0xA] <:+: text) :
    textFields (errorText code text) =
      [(js "grpc-status", decimal code), (js "grpc-message", trim text)] := by
  rw [errorText, textFields_append, textFields_status, textFields_append,
    textFields_line isName_status.2.1 h]
  rfl

/-- The first status and the first message of the collection of such a text. -/
theorem head_of_construct [TextualBrowserHeaders M] {code : ℕ} {r s : JsString} {m : M}
    (hs : s = (js "grpc-status" ++ js ": " ++ decimal code) ++ 0xD :: 0xA ::
      (js "grpc-message" ++ js ": " ++ r))
    (h : BrowserHeaders.construct (.text s) = .ok m) :
    (BrowserHeaders.get m (js "grpc-status")).head? = some (decimal code) ∧
      (BrowserHeaders.get m (js "grpc-message")).head? = some (trim (firstLine r)) := by
  have hne : toLowerCase (js "grpc-status") ≠ toLowerCase (js "grpc-message") := by decide
  obtain ⟨rest, hrest⟩ := textFields_message code r
  rw [get_of_construct_text h isName_status.1.1 isName_status.1.2,
    get_of_construct_text h isName_status.2.1 isName_status.2.2, hs, hrest]
  simp [linesNamed, hne]

/-! ## The payload that is read -/

/-- What stands in front of the text of an error. -/
def errorHead (code : ℕ) : JsString :=
  (js "grpc-status" ++ js ": " ++ decimal code) ++ 0xD :: 0xA :: (js "grpc-message" ++ js ": ")

theorem errorText_eq (code : ℕ) (text : JsString) :
    errorText code text = errorHead code ++ (text ++ [0xD, 0xA]) := by
  simp [errorText, errorHead]

theorem length_errorHead {code : ℕ} (h : code < 2 ^ 53) : (errorHead code).length ≤ 45 := by
  have hlen : (errorHead code).length = 29 + (decimal code).length := by
    simp [errorHead, js]
    omega
  have := length_decimal h
  omega

theorem allowed_errorHead (code : ℕ) : ∀ c ∈ errorHead code, isValidHeaderAscii c.toNat = true := by
  have hfixed : ∀ c ∈ js "grpc-status" ++ js ": " ++ 0xD :: 0xA :: (js "grpc-message" ++ js ": "),
      isValidHeaderAscii c.toNat = true := List.all_eq_true.1 (by decide)
  intro c hc
  by_cases hdec : c ∈ decimal code
  · obtain ⟨hlo, hhi, -⟩ := mem_decimal hdec
    simp only [isValidHeaderAscii, Bool.or_eq_true, Bool.and_eq_true, decide_eq_true_eq]
    omega
  · refine hfixed c ?_
    simpa [errorHead, hdec] using hc

/-- The characters of the whole text are those of the error's, as far as a header is concerned. -/
theorem allowed_errorText {code : ℕ} {text : JsString}
    (h : ∀ c ∈ text, isValidHeaderAscii c.toNat = true) :
    ∀ c ∈ errorText code text, isValidHeaderAscii c.toNat = true := by
  have hend : ∀ c ∈ [(0xD : UInt16), 0xA], isValidHeaderAscii c.toNat = true :=
    List.all_eq_true.1 (by decide)
  intro c hc
  rw [errorText_eq, List.mem_append, List.mem_append] at hc
  rcases hc with hc | hc | hc
  · exact allowed_errorHead code c hc
  · exact h c hc
  · exact hend c hc

theorem toNat_toUInt8_of_allowed {c : UInt16} (h : isValidHeaderAscii c.toNat = true) :
    c.toUInt8.toNat = c.toNat := by
  have := lt_of_isValidHeaderAscii h
  rw [UInt16.toNat_toUInt8]
  omega

/-- A frame of a text that a header may have is read as that text. -/
theorem parseTrailerData_bufferFrom {s : JsString} (h : ∀ c ∈ s, isValidHeaderAscii c.toNat = true)
    (hshort : s.length < 2 ^ 32) :
    (parseTrailerData (readPayload (bufferFrom s)) : Except JsString M) =
      BrowserHeaders.construct (.text s) := by
  have hascii : ∀ c ∈ s, c.toNat < 0x80 := fun c hc => lt_of_isValidHeaderAscii (h c hc)
  have hbytes : bufferFrom s = asciiBytes s := bufferFrom_of_ascii hascii
  have hread : readPayload (asciiBytes s) = asciiBytes s := by
    have hlen : (asciiBytes s).length = s.length := List.length_map _
    rw [readPayload, hlen, Nat.mod_eq_of_lt hshort, ← hlen, List.take_length]
  have hallowed : ∀ b ∈ asciiBytes s, isValidHeaderAscii b.toNat = true := by
    intro b hb
    obtain ⟨c, hc, rfl⟩ := List.mem_map.1 hb
    rw [toNat_toUInt8_of_allowed (h c hc)]
    exact h c hc
  rw [hbytes, hread, parseTrailerData_eq hallowed, fromCharCodes_asciiBytes hascii]

/-- **What a payload that was accepted is**: the characters of the text that fit in the frame. -/
theorem construct_of_parseTrailerData {s : JsString} {m : M}
    (h : parseTrailerData (readPayload (bufferFrom s)) = .ok m) :
    let n := (bufferFrom s).length % 2 ^ 32
    (∀ c ∈ s.take n, isValidHeaderAscii c.toNat = true) ∧
      BrowserHeaders.construct (.text (s.take n)) = .ok m := by
  intro n
  have hallowed : ∀ b ∈ (bufferFrom s).take n, isValidHeaderAscii b.toNat = true := by
    rw [parseTrailerData, decodeASCII] at h
    split at h
    · cases h
    · rename_i hdecode
      split at hdecode
      · rename_i hall
        exact List.all_eq_true.1 hall
      · cases hdecode
  have hlt : ∀ b ∈ (bufferFrom s).take n, b < 0x80 := by
    intro b hb
    have := hallowed b hb
    simp only [isValidHeaderAscii, isAllowedControlChars, Bool.or_eq_true, decide_eq_true_eq,
      Bool.and_eq_true] at this
    rw [UInt8.lt_iff_toNat_lt]
    simp
    omega
  obtain ⟨heq, hascii⟩ := take_bufferFrom hlt
  have hchars : ∀ c ∈ s.take n, isValidHeaderAscii c.toNat = true := by
    intro c hc
    have hbyte := hallowed c.toUInt8 (heq ▸ List.mem_map_of_mem hc)
    have hsmall := hascii c hc
    rw [UInt16.toNat_toUInt8, Nat.mod_eq_of_lt (by omega)] at hbyte
    exact hbyte
  refine ⟨hchars, ?_⟩
  have hparse := parseTrailerData_eq (M := M) hallowed
  rw [heq, show (s.take n).map UInt16.toUInt8 = asciiBytes (s.take n) from rfl,
    fromCharCodes_asciiBytes hascii] at hparse
  rw [← hparse, ← h, readPayload, heq]
  rfl

/-! ## The end of the call -/

section

section

variable [LawfulBrowserHeaders M]

theorem get_copy_status (m : M) : BrowserHeaders.get (BrowserHeaders.copy m) (js "grpc-status") =
    BrowserHeaders.get m (js "grpc-status") :=
  LawfulBrowserHeaders.get_copy m isName_status.1.1 isName_status.1.2

theorem get_copy_message (m : M) : BrowserHeaders.get (BrowserHeaders.copy m) (js "grpc-message") =
    BrowserHeaders.get m (js "grpc-message") :=
  LawfulBrowserHeaders.get_copy m isName_status.2.1 isName_status.2.2

end

variable [LawfulBrowserHeaders M] [TextualBrowserHeaders M]

/-- **A text that survives the frame** ends the call with its code. -/
theorem endOfTrailers_of_survives {code : ℕ} (hcode : code < 2 ^ 53) {text : JsString}
    (h : Survives code text) :
    (endOfTrailers M (readPayload (bufferFrom (errorText code text)))).1 = .int code ∧
      (endOfTrailers M (readPayload (bufferFrom (errorText code text)))).2.1 = text := by
  have hnames : ∀ f ∈ textFields (errorText code text), f.1.all isNameChar = true := by
    rw [textFields_errorText h.oneLine]
    simp only [List.forall_mem_cons, List.not_mem_nil, false_implies, implies_true, and_true]
    decide
  obtain ⟨m, hm, hget⟩ := TextualBrowserHeaders.construct_text_fields (M := M) _ hnames
  have hne : toLowerCase (js "grpc-status") ≠ toLowerCase (js "grpc-message") := by decide
  have hstatus : BrowserHeaders.get m (js "grpc-status") = [decimal code] := by
    rw [hget _ isName_status.1.1 isName_status.1.2, textFields_errorText h.oneLine]
    simp [linesNamed, hne.symm]
  have hmessage : BrowserHeaders.get m (js "grpc-message") = [text] := by
    rw [hget _ isName_status.2.1 isName_status.2.2, textFields_errorText h.oneLine, h.trimmed]
    simp [linesNamed, hne]
  rw [endOfTrailers, parseTrailerData_bufferFrom (allowed_errorText h.allowed) h.short, hm]
  simp only [endOf, getStatusFromHeaders, get_copy_status, get_copy_message, hstatus, hmessage,
    List.head?_cons, parseInt_decimal hcode, true_and]
  exact decodeGRPCStatus_eq_self.2 h.plain

omit [LawfulBrowserHeaders M] in
/-- The message that the client reads of the first `n` characters of the text is no longer than what
these leave for it, unless they end in front of it. -/
theorem length_message_le {code n : ℕ} {text v : JsString} {m : M}
    (hm : BrowserHeaders.construct (.text ((errorText code text).take n)) = .ok m)
    (hv : (BrowserHeaders.get m (js "grpc-message")).head? = some v) :
    v.length ≤ n - (errorHead code).length ∨ n < (errorHead code).length ∧ v.length ≤ n := by
  by_cases hcut : n < (errorHead code).length
  · have hmem : v ∈ BrowserHeaders.get m (js "grpc-message") := List.mem_of_mem_head? hv
    rw [get_of_construct_text hm isName_status.2.1 isName_status.2.2] at hmem
    obtain ⟨f, hf, rfl⟩ := List.mem_map.1 hmem
    have hvalue := length_of_mem_textFields (List.mem_filter.1 hf).1
    rw [List.length_take] at hvalue
    exact .inr ⟨hcut, by omega⟩
  · have htake : (errorText code text).take n = errorHead code ++
        (text ++ [0xD, 0xA]).take (n - (errorHead code).length) := by
      rw [errorText_eq, List.take_append, List.take_of_length_le (by omega)]
    generalize hr : (text ++ [0xD, 0xA]).take (n - (errorHead code).length) = r at htake
    have hsplit : errorHead code ++ r =
        (js "grpc-status" ++ js ": " ++ decimal code) ++
          0xD :: 0xA :: (js "grpc-message" ++ js ": " ++ r) := by
      simp [errorHead]
    have hvr : v = trim (firstLine r) := by
      have := (head_of_construct (htake.trans hsplit) hm).2
      rw [hv] at this
      exact Option.some.inj this
    have hlen : r.length ≤ n - (errorHead code).length := hr ▸ List.length_take_le _ _
    rw [hvr]
    exact .inl (((length_trim _).trans (length_firstLine _)).trans hlen)

omit [LawfulBrowserHeaders M] in
/-- **A text that is too long for its frame** is not what the client reads. -/
theorem message_ne_of_long {code : ℕ} (hcode : code < 2 ^ 53) {text : JsString}
    (hlong : 2 ^ 32 ≤ (bufferFrom (errorText code text)).length) {m : M}
    (h : parseTrailerData (readPayload (bufferFrom (errorText code text))) = .ok m) :
    decodeGRPCStatus (BrowserHeaders.get m (js "grpc-message")).head? ≠ text := by
  obtain ⟨hallowed, hm⟩ := construct_of_parseTrailerData h
  have hoctets := (length_bufferFrom (errorText code text)).2
  have hmod := Nat.mod_lt (bufferFrom (errorText code text)).length (by norm_num : 0 < 2 ^ 32)
  have hdiv := Nat.div_add_mod (bufferFrom (errorText code text)).length (2 ^ 32)
  have hhead := length_errorHead hcode
  have hlen : (errorText code text).length = (errorHead code).length + text.length + 2 := by
    simp [errorText_eq]
    omega
  generalize hn : (bufferFrom (errorText code text)).length % 2 ^ 32 = n at *
  generalize hb : (bufferFrom (errorText code text)).length = b at *
  intro heq
  rcases hv : (BrowserHeaders.get m (js "grpc-message")).head? with _ | v
  · -- a frame that breaks off before the message
    have hempty : text.length = 0 := by
      rw [hv, decodeGRPCStatus] at heq
      rw [← heq, List.length_nil]
    omega
  have hle : text.length ≤ v.length := by
    have := length_decodeGRPCStatus v
    rwa [← hv, heq] at this
  rcases length_message_le hm hv with hvalue | ⟨hcut, hvalue⟩
  · -- the whole text has been read, so it is ASCII and its octets are counted right
    have htake : (errorText code text).take n = errorHead code ++
        (text ++ [0xD, 0xA]).take (n - (errorHead code).length) := by
      rw [errorText_eq, List.take_append, List.take_of_length_le (by omega)]
    have htext : ∀ c ∈ text, isValidHeaderAscii c.toNat = true := by
      intro c hc
      refine hallowed c ?_
      rw [htake, List.take_append, List.take_of_length_le (by omega)]
      simp [hc]
    have hascii : ∀ c ∈ errorText code text, c.toNat < 0x80 := fun c hc =>
      lt_of_isValidHeaderAscii (allowed_errorText htext c hc)
    rw [bufferFrom_of_ascii hascii, List.length_map] at hb
    omega
  · omega

/-- The texts with which the client itself ends a call at a trailers frame. -/
def clientTexts : List JsString :=
  [js "parsing error: Metadata is not valid (printable) ASCII",
    js "parsing error: Invalid character in header field name",
    js "Response closed without grpc-status (Trailers provided)"]

omit [BrowserHeaders M] [LawfulBrowserHeaders M] [TextualBrowserHeaders M] in
theorem survives_clientTexts : ∀ text ∈ clientTexts, Survives Code.internal.toNat text := by
  simp only [clientTexts, List.forall_mem_cons, List.not_mem_nil, false_implies, implies_true,
    and_true]
  refine ⟨?ascii, ?name, ?status⟩
  case ascii => exact survives_of_check (by decide +kernel)
  case name => exact survives_of_check (by decide +kernel)
  case status => exact survives_of_check (by decide +kernel)

omit [LawfulBrowserHeaders M] in
/-- A payload that is refused ends the call with a text of the client's own. -/
theorem mem_clientTexts_of_error {payload : Bytes} {e : JsString}
    (h : (parseTrailerData payload : Except JsString M) = .error e) :
    js "parsing error: " ++ e ∈ clientTexts := by
  rw [parseTrailerData] at h
  split at h
  · rename_i e' hdecode
    obtain rfl : e' = e := Except.error.inj h
    unfold decodeASCII at hdecode
    split at hdecode
    · cases hdecode
    · obtain rfl := Except.error.inj hdecode
      decide +kernel
  · rw [eq_of_construct_text_error h]
    decide +kernel

/-- **When a trailers frame ends the call with its error**: when the text survives it. -/
theorem endOfTrailers_eq_iff {code : ℕ} (hcode : code < 2 ^ 53) {text : JsString} :
    ((endOfTrailers M (readPayload (bufferFrom (errorText code text)))).1 = .int code ∧
      (endOfTrailers M (readPayload (bufferFrom (errorText code text)))).2.1 = text) ↔
        Survives code text := by
  refine ⟨?_, endOfTrailers_of_survives hcode⟩
  -- the code and the text of an end of the client's own would have survived as well
  have hinternal {text' : JsString} (ht : text' ∈ clientTexts)
      (h : (Code.internal : Number) = .int code ∧ text' = text) : Survives code text := by
    obtain ⟨hc, rfl⟩ := h
    obtain rfl : Code.internal.toNat = code := by exact_mod_cast Number.int.inj hc
    exact survives_clientTexts _ ht
  intro h
  rcases hparse : (parseTrailerData (readPayload (bufferFrom (errorText code text))) :
      Except JsString M) with e | m
  · simp only [endOfTrailers, hparse] at h
    exact hinternal (mem_clientTexts_of_error hparse) h
  · simp only [endOfTrailers, hparse, endOf] at h
    rcases hstatus : getStatusFromHeaders (BrowserHeaders.copy m) with _ | status
    · simp only [hstatus] at h
      exact hinternal (by decide +kernel) h
    · simp only [hstatus, get_copy_message] at h
      obtain ⟨-, hmessage⟩ := h
      rcases Nat.lt_or_ge (bufferFrom (errorText code text)).length (2 ^ 32) with hfits | hlong
      · obtain ⟨hallowed, hm⟩ := construct_of_parseTrailerData hparse
        have hle := (length_bufferFrom (errorText code text)).1
        rw [Nat.mod_eq_of_lt hfits, List.take_of_length_le hle] at hallowed hm
        have hsplit : errorText code text = (js "grpc-status" ++ js ": " ++ decimal code) ++
            0xD :: 0xA :: (js "grpc-message" ++ js ": " ++ (text ++ [0xD, 0xA])) := by
          simp [errorText]
        have hhead := (head_of_construct hsplit hm).2
        rw [hhead, firstLine_append text []] at hmessage
        obtain ⟨hline, htrim, hplain⟩ := survives_line_iff.1 hmessage
        refine ⟨fun c hc => hallowed c ?_, hline, htrim, hplain, by omega⟩
        rw [errorText_eq]
        simp [hc]
      · exact absurd hmessage (message_ne_of_long hcode hlong hparse)

end

/-! ## A run -/

/-- The application starts the call, sends a message and finishes sending, and the transport then
delivers its events, each handled before the next one; nothing closes the client. When nothing is
outstanding, a listener that was registered from the start has seen `seen`. -/
def FakeRun (methodDefinition : MethodDefinition Req Res) (l : Listener)
    (metadata : Option (HeadersInit M)) (msg : Req) (events : List (TransportEvent M))
    (seen : List (Dispatch M Res)) : Prop :=
  ∃ (s t : Session M Res) (rest : List (Action M Req)),
    let run := .call (.start metadata) :: .call (.send msg) :: .call .finishSend :: rest
    Awaiting l s ∧ eventsOf rest = events ∧ Along (step methodDefinition) Calm s run ∧
      exec (step methodDefinition) s run = some t ∧ t.stack = [] ∧ l.view t.log = seen

/-- **Every such run shows what the events amount to**, and there is one. -/
theorem fakeRun_iff {l : Listener} {metadata : Option (HeadersInit M)} {msg : Req}
    {events : List (TransportEvent M)} {seen : List (Dispatch M Res)} :
    FakeRun methodDefinition l metadata msg events seen ↔
      seen = (receive methodDefinition events).seen := by
  constructor
  · rintro ⟨s, t, rest, hs, rfl, hok, hrun, ht, rfl⟩
    have hreception := reception_eq hs hok hrun ht
    exact congrArg Reception.seen hreception
  · rintro rfl
    have hcall (s : Session M Res) (c : AppCall M Req) (hc : c.isRequest = true)
        (hs : s.stack = []) :
        step methodDefinition s (.call c) = some (call methodDefinition s c) ∧
          (call methodDefinition s c).stack = [] := by
      obtain ⟨client, e, heq, -⟩ := call_request methodDefinition hc s
      exact ⟨by rw [step, hs], by rw [heq]; exact hs⟩
    obtain ⟨s, hs⟩ : ∃ s : Session M Res, Awaiting l s :=
      ⟨Session.withCallbacks true (l.onHeaders + 1) (l.onMessage + 1) (l.onEnd + 1),
        awaiting_withCallbacks true (Nat.lt_succ_self _) (Nat.lt_succ_self _) (Nat.lt_succ_self _)⟩
    obtain ⟨hstart, hs₁⟩ := hcall _ (.start metadata) rfl hs.stack
    obtain ⟨hsend, hs₂⟩ := hcall _ (.send msg) rfl hs₁
    obtain ⟨hfinish, hs₃⟩ := hcall _ .finishSend rfl hs₂
    obtain ⟨rest, t, rfl, hok, hrun, ht⟩ := receives methodDefinition hs₃ events
    have hrun' := exec_cons.2 ⟨_, hstart, exec_cons.2 ⟨_, hsend, exec_cons.2 ⟨_, hfinish, hrun⟩⟩⟩
    have hok' : Along (step methodDefinition) Calm s
        (.call (.start metadata) :: .call (.send msg) :: .call .finishSend :: rest) := by
      refine ⟨trivial, fun u hu => ⟨trivial, fun v hv => ⟨trivial, fun w hw => ?_⟩⟩⟩
      obtain rfl := Option.some.inj (hstart.symm.trans hu)
      obtain rfl := Option.some.inj (hsend.symm.trans hv)
      obtain rfl := Option.some.inj (hfinish.symm.trans hw)
      exact hok
    have hreception := reception_eq hs hok' hrun' ht
    exact ⟨s, t, rest, hs, rfl, hok', hrun', ht, congrArg Reception.seen hreception⟩

/-! ## When the error is reported -/

/-- Where an error is put. -/
inductive ErrorStage
  | preMessages
  | preTrailers
  deriving DecidableEq

def FakeTransportBuilder.withError (mock : FakeTransportBuilder M Res) (grpcStatus : ℕ)
    (grpcMessage : JsString) : ErrorStage → FakeTransportBuilder M Res
  | .preMessages => mock.withPreMessagesError grpcStatus grpcMessage
  | .preTrailers => mock.withPreTrailersError grpcStatus grpcMessage

/-- The messages that come before the error. -/
def ErrorStage.before (messages : List Res) : ErrorStage → List Res
  | .preMessages => []
  | .preTrailers => messages

/-- The application is shown the messages, one event of headers, and one end with the error. -/
structure Reports (messages : List Res) (code : ℕ) (text : JsString)
    (seen : List (Dispatch M Res)) : Prop where
  messages : messagesSeen seen = messages
  headers : (headersSeen seen).length = 1
  ended : (endsSeen seen).map (fun e => (e.1, e.2.1)) = [(.int code, text)]

omit [BrowserHeaders M] in
/-- Of headers, messages and an end, only the end can be wrong. -/
theorem reports_iff {headers trailers : M} {messages : List Res} {code : ℕ}
    {text message : JsString} {ending : Number} :
    Reports messages code text
        (.headers headers :: messages.map .message ++ [.ended ending message trailers]) ↔
      ending = .int code ∧ message = text := by
  have hmessages : messagesSeen (.headers headers :: messages.map .message ++
      [.ended ending message trailers]) = messages := by
    simp [messagesSeen, List.filterMap_map]
  have hheaders : headersSeen (.headers headers :: messages.map (Dispatch.message (M := M)) ++
      [.ended ending message trailers]) = [headers] := by
    simp [headersSeen, List.filterMap_map]
  have hends : endsSeen (.headers headers :: messages.map .message ++
      [.ended ending message trailers]) = [(ending, message, trailers)] := by
    simp [endsSeen, List.filterMap_map]
  constructor
  · intro h
    have hended := h.ended
    rw [hends] at hended
    simpa using hended
  · rintro ⟨rfl, rfl⟩
    exact ⟨hmessages, by rw [hheaders]; rfl, by rw [hends]; rfl⟩

section

variable [LawfulBrowserHeaders M] [TextualBrowserHeaders M]
  (methodDefinition : MethodDefinition Req Res) (serializeBinary : Res → Bytes) {headers : Option M}
  {messages : List Res} (trailers : Option M)

omit [TextualBrowserHeaders M] in
theorem get_headers (h : ∀ m ∈ headers, BrowserHeaders.get m (js "grpc-status") = []) :
    BrowserHeaders.get (headers.getD BrowserHeaders.empty) (js "grpc-status") = [] := by
  cases headers with
  | none => exact LawfulBrowserHeaders.get_empty isName_status.1.1
  | some m => exact h m rfl

/-- **An error before the messages** is shown as a second event of headers. -/
theorem seen_preMessages (messages : List Res)
    (hheaders : ∀ m ∈ headers, BrowserHeaders.get m (js "grpc-status") = []) {code : ℕ}
    (hpos : 0 < code) (hcode : code < 2 ^ 53) (text : JsString) :
    let mock : FakeTransportBuilder M Res :=
      { headers := headers, messages := messages, trailers := trailers }
    ∃ m, (receive methodDefinition ((mock.withPreMessagesError code text).finishSend
        serializeBinary).events : Reception M Res).seen =
      [.headers (headers.getD BrowserHeaders.empty), .headers m,
        .ended (.int code) (decodeGRPCStatus (some text)) m] := by
  intro mock
  obtain ⟨m, hm, -, hstatus, hmessage⟩ :=
    TextualBrowserHeaders.construct_status (M := M) (decimal code) text
  have hmetadata : errorMetadata (M := M) (code, text) = .ok m := hm
  have hevents : ((mock.withPreMessagesError code text).finishSend serializeBinary).events =
      [.onHeaders (headers.getD BrowserHeaders.empty) 200, .onHeaders m 200, .onEnd] := by
    simp only [FakeTransportBuilder.finishSend, FakeTransportBuilder.sendAll,
      FakeTransportBuilder.sendHeaders, FakeTransportBuilder.sendMessages,
      FakeTransportBuilder.withPreMessagesError, mock, hmetadata, Trigger.andThen, if_true]
    rfl
  have hcodeOf : codeOfHeaders (getStatusFromHeaders m) 200 = .int code := by
    rw [getStatusFromHeaders, hstatus]
    simp only [parseInt_decimal hcode, codeOfHeaders]
    rw [if_pos]
    simp [Number.truthy, Number.nonneg]
    omega
  have hne : (.int code : Number) ≠ Code.ok := by
    intro h
    have := Number.int.inj h
    simp only [Code.toNat] at this
    omega
  refine ⟨m, ?_⟩
  rw [hevents, receive, List.foldl_cons, handle_headers methodDefinition (get_headers hheaders),
    List.foldl_cons, List.foldl_cons, List.foldl_nil, Reception.handle, Reception.takeHeaders,
    if_neg (by decide)]
  simp only [hcodeOf, hmessage, List.head?_cons]
  rw [if_pos hne, Reception.handle, Reception.takeEnd, Reception.finish_of_completed rfl]
  rfl

/-- **An error before the trailers** is shown as the end that its frame makes. -/
theorem seen_preTrailers (hheaders : ∀ m ∈ headers, BrowserHeaders.get m (js "grpc-status") = [])
    (hmessages : ∀ m ∈ messages, (serializeBinary m).length < 2 ^ 32 ∧
      methodDefinition.deserializeBinary (serializeBinary m) = .ok m) (code : ℕ) (text : JsString) :
    let mock : FakeTransportBuilder M Res :=
      { headers := headers, messages := messages, trailers := trailers }
    let ending := endOfTrailers M (readPayload (bufferFrom (errorText code text)))
    (receive methodDefinition ((mock.withPreTrailersError code text).finishSend
        serializeBinary).events : Reception M Res).seen =
      .headers (headers.getD BrowserHeaders.empty) :: messages.map .message ++
        [.ended ending.1 ending.2.1 ending.2.2] := by
  intro mock ending
  obtain ⟨m, hm, hentries, -, -⟩ := TextualBrowserHeaders.construct_status (M := M)
    (decimal code) text
  have hmetadata : errorMetadata (M := M) (code, text) = .ok m := hm
  have htext : headersText (BrowserHeaders.entries m) = errorText code text := by
    simp [hentries, headersText, joinStrings, errorText, js]
  have hevents : ((mock.withPreTrailersError code text).finishSend serializeBinary).events =
      (.onHeaders (headers.getD BrowserHeaders.empty) 200 ::
        messages.map fun m => .onChunk (frameResponse serializeBinary m)) ++
          [.onChunk (frameTrailers m), .onEnd] := by
    simp only [FakeTransportBuilder.finishSend, FakeTransportBuilder.sendAll,
      FakeTransportBuilder.sendHeaders, FakeTransportBuilder.sendMessages,
      FakeTransportBuilder.sendTrailers, FakeTransportBuilder.withPreTrailersError, mock, hmetadata,
      Trigger.andThen, if_true]
    rfl
  have hreceived := receive_messages methodDefinition serializeBinary
    (get_headers hheaders) hmessages
  rw [hevents, receive, List.foldl_append, ← receive, hreceived, List.foldl_cons, List.foldl_cons,
    List.foldl_nil, frameTrailers]
  simp only [htext]
  exact seen_frameTrailers _ rfl rfl rfl

/-- **When the fake transport reports the error it was told to**: when the error comes before the
trailers and its text survives the frame. An error before the messages is never reported so. -/
theorem fake_error_reported_iff
    (hheaders : ∀ m ∈ headers, BrowserHeaders.get m (js "grpc-status") = [])
    (hmessages : ∀ m ∈ messages, (serializeBinary m).length < 2 ^ 32 ∧
      methodDefinition.deserializeBinary (serializeBinary m) = .ok m)
    (stage : ErrorStage) {code : ℕ} (hpos : 0 < code) (hcode : code < 2 ^ 53) (text : JsString)
    {l : Listener} {metadata : Option (HeadersInit M)} {msg : Req} {seen : List (Dispatch M Res)}
    (hrun : FakeRun methodDefinition l metadata msg
      ((({ headers := headers, messages := messages, trailers := trailers } :
        FakeTransportBuilder M Res).withError code text stage).finishSend serializeBinary).events
      seen) :
    Reports (stage.before messages) code text seen ↔ stage = .preTrailers ∧ Survives code text := by
  obtain rfl := fakeRun_iff.1 hrun
  cases stage with
  | preMessages =>
    obtain ⟨m, hseen⟩ := seen_preMessages methodDefinition serializeBinary trailers
      messages hheaders hpos hcode text
    constructor
    · intro h
      have htwo := h.headers
      rw [FakeTransportBuilder.withError, hseen] at htwo
      cases htwo
    · rintro ⟨h, -⟩
      cases h
  | preTrailers =>
    have hseen := seen_preTrailers methodDefinition serializeBinary trailers hheaders hmessages
      code text
    rw [FakeTransportBuilder.withError, hseen, ErrorStage.before, reports_iff,
      endOfTrailers_eq_iff hcode]
    simp only [true_and]

end

/-- A transport with one message, that is to fail. -/
def failing (text : JsString) (stage : ErrorStage) : FakeTransportBuilder HeaderFields Bytes :=
  ({ messages := [[7]] } : FakeTransportBuilder HeaderFields Bytes).withError 9 text stage

/-- A listener that is shown what the transport delivers. -/
def failingRun (text : JsString) (stage : ErrorStage)
    (seen : List (Dispatch HeaderFields Bytes)) : Prop :=
  FakeRun (bytesMethod false) ⟨0, 0, 0⟩ none [] ((failing text stage).finishSend id).events seen

theorem fake_error_reported_iff_plain :
    ∃ seen, failingRun (js "failed precondition :)") .preTrailers seen ∧
      Reports [[7]] 9 (js "failed precondition :)") seen := by
  have hsurvives : Survives 9 (js "failed precondition :)") := survives_of_check (by decide +kernel)
  have hrun : failingRun (js "failed precondition :)") .preTrailers _ := fakeRun_iff.2 rfl
  refine ⟨_, hrun, ?_⟩
  exact (fake_error_reported_iff (bytesMethod false) id none (by simp) (by simp [bytesMethod])
    .preTrailers (by decide) (by decide) (js "failed precondition :)") hrun).2 ⟨rfl, hsurvives⟩

/-- **Two errors that are not reported**: one before the messages comes with two events of headers,
and a text with an escape is decoded. -/
theorem fake_error_misreported :
    (∃ seen, failingRun (js "failed precondition :)") .preMessages seen ∧
      ¬ Reports [] 9 (js "failed precondition :)") seen) ∧
    ∃ seen, failingRun (js "100%25") .preTrailers seen ∧ ¬ Reports [[7]] 9 (js "100%25") seen := by
  refine ⟨⟨_, fakeRun_iff.2 rfl, fun h => ?_⟩, ⟨_, fakeRun_iff.2 rfl, fun h => ?_⟩⟩
  · have htwo : (headersSeen (receive (bytesMethod false) ((failing (js "failed precondition :)")
        .preMessages).finishSend id).events : Reception HeaderFields Bytes).seen).length = 2 := by
      decide +kernel
    rw [h.headers] at htwo
    cases htwo
  · have hended : (endsSeen (receive (bytesMethod false) ((failing (js "100%25")
        .preTrailers).finishSend id).events : Reception HeaderFields Bytes).seen).map
          (fun e => (e.1, e.2.1)) = [(.int 9, js "100%")] := by
      decide +kernel
    rw [h.ended] at hended
    revert hended
    decide

end GrpcWeb.EndToEnd

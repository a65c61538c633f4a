import GrpcWeb.Js.BrowserHeaders

/-!
# The chunk parser

`ChunkParser` of the client: it keeps a buffer and a position over its calls, and each call of
`parse` reads whole frames off the buffer, up to the end of the first trailers frame or to a frame
that is not complete. A frame is a byte of flags, a big-endian length and a payload.

`parse` throws when a trailers frame holds a byte that is not allowed in a header, or a text that
`Metadata` refuses. The position has then moved past that frame, and the chunks read before it in
the same call are lost.

`decodeASCII` spreads the bytes of a block into the arguments of one call of `String.fromCharCode`.
Engines refuse such a call when it has too many arguments (from about 65 000 on in some, 125 000 in
others), which the language does not know of: here a block may have any length.
-/

namespace GrpcWeb.Client

open Js

def headerSize : ℕ := 5

def isAllowedControlChars (char : ℕ) : Bool := char = 0x9 || char = 0xa || char = 0xd

def isValidHeaderAscii (val : ℕ) : Bool :=
  isAllowedControlChars val || (0x20 ≤ val && val ≤ 0x7e)

def decodeASCII (input : Bytes) : Except JsString JsString :=
  if input.all fun b => isValidHeaderAscii b.toNat then .ok (fromCharCodes input)
  else .error (js "Metadata is not valid (printable) ASCII")

def encodeASCII (input : JsString) : Except JsString Bytes :=
  if input.all fun c => isValidHeaderAscii c.toNat then .ok (input.map UInt16.toUInt8)
  else .error (js "Metadata contains invalid ASCII")

/-- The most significant bit of the first byte of a frame marks trailers. -/
def isTrailerHeader (headerView : Bytes) : Bool := headerView.getD 0 0 &&& 0x80 == 0x80

def readLengthFromHeader (headerView : Bytes) : ℕ := getUint32 (headerView.drop 1)

def hasEnoughBytes (buffer : Bytes) (position byteCount : ℕ) : Bool :=
  position + byteCount ≤ buffer.length

theorem hasEnoughBytes_iff {buffer : Bytes} {position byteCount : ℕ} :
    hasEnoughBytes buffer position byteCount = true ↔ position + byteCount ≤ buffer.length := by
  simp [hasEnoughBytes]

/-- `buffer.slice(from, to)` where the engine has it, and the loop that stands in for it. Past the
end of the buffer the loop stores `undefined`, which a byte array keeps as 0. -/
def sliceUint8Array (hasSlice : Bool) (buffer : Bytes) (start : ℕ) (stop : Option ℕ) : Bytes :=
  let stop := stop.getD buffer.length
  if hasSlice then (buffer.take stop).drop start
  else (List.range (stop - start)).map fun i => buffer.getD (start + i) 0

/-- What `parse` returns of a frame. -/
inductive Chunk (M : Type)
  | message (data : Bytes)
  | trailers (trailers : M)
  deriving DecidableEq

/-- The parser's fields, and whether the engine's byte arrays have a `slice` method. -/
structure ChunkParser where
  hasSlice : Bool := true
  buffer : Option Bytes := none
  position : ℕ := 0
  deriving DecidableEq

variable {M : Type} [BrowserHeaders M]

def parseTrailerData (msgData : Bytes) : Except JsString M :=
  match decodeASCII msgData with
  | .error e => .error e
  | .ok s => BrowserHeaders.construct (.text s)

/-- The loop of `parse`: what the call returns, and the position it leaves. -/
def parseLoop (hasSlice : Bool) (buffer : Bytes) (position : ℕ) (chunkData : List (Chunk M)) :
    Except JsString (List (Chunk M)) × ℕ :=
  if hasEnoughBytes buffer position headerSize then
    let headerView := sliceUint8Array hasSlice buffer position (some (position + headerSize))
    let msgLength := readLengthFromHeader headerView
    if h : hasEnoughBytes buffer position (headerSize + msgLength) then
      let messageData := sliceUint8Array hasSlice buffer (position + headerSize)
        (some (position + headerSize + msgLength))
      let position' := position + (headerSize + msgLength)
      if isTrailerHeader headerView then
        match parseTrailerData messageData with
        | .error e => (.error e, position')
        | .ok trailers => (.ok (chunkData ++ [.trailers trailers]), position')
      else parseLoop hasSlice buffer position' (chunkData ++ [.message messageData])
    else (.ok chunkData, position)
  else (.ok chunkData, position)
termination_by buffer.length - position
decreasing_by
  have := hasEnoughBytes_iff.1 h
  simp only [headerSize] at this ⊢
  omega

namespace ChunkParser

/-- The buffer after the bytes of a call have been added to what the last one left. -/
def refill (p : ChunkParser) (bytes : Bytes) : Bytes :=
  match p.buffer with
  | none => bytes
  | some buffer =>
    if p.position = buffer.length then bytes
    else sliceUint8Array p.hasSlice buffer p.position none ++ bytes

def parse (p : ChunkParser) (bytes : Bytes) (flush : Bool := false) :
    Except JsString (List (Chunk M)) × ChunkParser :=
  if bytes.length = 0 ∧ flush then (.ok [], p)
  else
    let r := parseLoop p.hasSlice (p.refill bytes) 0 []
    (r.1, { p with buffer := some (p.refill bytes), position := r.2 })

/-- Calls of `parse` one after the other: what each of them returns. -/
def parseAll (p : ChunkParser) : List Bytes → List (Except JsString (List (Chunk M))) × ChunkParser
  | [] => ([], p)
  | c :: cs =>
    let r := p.parse c
    let rs := r.2.parseAll cs
    (r.1 :: rs.1, rs.2)

end ChunkParser

end GrpcWeb.Client

import GrpcWeb.Server.Response

/-!
# The response writer of a WebSocket

`webSocketResponseWriter` sends what a gRPC handler writes over a socket. Headers and trailers
travel in frames of the same kind, each of them in two messages of the socket: the five bytes in
front, then the block. What the handler writes is passed on as it is, one message for each call.

Closing the request body sends the trailers: the headers of the handler that were not set when the
header frame was sent.
-/

namespace GrpcWeb.Server

open Go

structure WebSocketResponseWriter where
  writtenHeaders : Bool := false
  headers : Header := ∅
  flushedHeaders : Header := ∅
  /-- The binary messages that were written to the socket. -/
  sent : List Bytes := []

namespace WebSocketResponseWriter

/-- The two messages of a header frame. -/
def headerFrame (headers : Header) : List Bytes :=
  let headerBuffer := headers.write
  [0x80 :: putUint32 (UInt32.ofNat headerBuffer.length), headerBuffer]

def writeHeaderFrame (headers : Header) (w : WebSocketResponseWriter) : WebSocketResponseWriter :=
  { w with sent := w.sent ++ headerFrame headers }

variable [Unicode]

def flushedOptions : List CopyOption := [skipKeys [ascii "trailer"], keyCase canonicalHeaderKey]

def copyFlushedHeaders (orders : LoopOrders) (w : WebSocketResponseWriter) :
    WebSocketResponseWriter :=
  { w with flushedHeaders := copyHeader orders.copy w.flushedHeaders w.headers flushedOptions }

/-- The status is not sent. -/
def writeHeader (orders : LoopOrders) (_code : ℕ) (w : WebSocketResponseWriter) :
    WebSocketResponseWriter :=
  let w := w.copyFlushedHeaders orders
  { w with writtenHeaders := true }.writeHeaderFrame w.headers

def write (orders : LoopOrders) (b : Bytes) (w : WebSocketResponseWriter) :
    WebSocketResponseWriter :=
  let w := if w.writtenHeaders then w else w.writeHeader orders statusOK
  { w with sent := w.sent ++ [b] }

def flush (w : WebSocketResponseWriter) : WebSocketResponseWriter := w

def extractTrailerHeaders (orders : LoopOrders) (w : WebSocketResponseWriter) : Header :=
  copyHeader orders.copy ∅ w.headers
    [skipKeys (ascii "trailer" :: headerKeys orders.keys w.flushedHeaders),
      replaceInKeys trailerPrefix [], keyCase toLower]

def flushTrailers (orders : LoopOrders) (w : WebSocketResponseWriter) : WebSocketResponseWriter :=
  w.writeHeaderFrame (w.extractTrailerHeaders orders)

def step (w : WebSocketResponseWriter) (op : HandlerOp × LoopOrders) : WebSocketResponseWriter :=
  match op.1 with
  | .header edit _ => { w with headers := edit w.headers }
  | .writeHeader code => w.writeHeader op.2 code
  | .write b => w.write op.2 b
  | .flush => w.flush

end WebSocketResponseWriter

variable [Unicode]

/-- The messages of the response when the handler runs and the request body is closed. -/
def handleGrpcWebsocketRequest (run : List (HandlerOp × LoopOrders)) (close : LoopOrders) :
    List Bytes :=
  ((run.foldl WebSocketResponseWriter.step {}).flushTrailers close).sent

/-! ## The names that are sent -/

namespace WebSocketResponseWriter

theorem extractTrailerHeaders_eq (orders : LoopOrders) (w : WebSocketResponseWriter) :
    w.extractTrailerHeaders orders = extractTrailingHeaders orders w.headers w.flushedHeaders := rfl

theorem replace_flushedOptions (e : GoString × List GoString) :
    (CopyOptions.ofList flushedOptions).replace e = (canonicalHeaderKey e.1, e.2) := rfl

theorem skips_flushedOptions (k : GoString) :
    (CopyOptions.ofList flushedOptions).skips k =
      decide (toLower k = toLower (ascii "trailer")) := by
  simp only [flushedOptions, CopyOptions.ofList, CopyOptions.skips, skipKeys, keyCase,
    List.foldl_cons, List.foldl_nil, List.nil_append, List.map_cons, List.map_nil]
  rw [Bool.eq_iff_iff]
  simp

end WebSocketResponseWriter

end GrpcWeb.Server

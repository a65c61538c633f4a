import GrpcWeb.Client.ChunkParser
import GrpcWeb.Client.Service
import GrpcWeb.Foundations.Transition

/-!
# The client of a call

`GrpcClient` as a machine. Its callbacks are code of the application, which may call back into the
client, cause the transport to deliver an event, return or throw. A `Session` therefore carries,
with the fields of the client (`GrpcClient`), a stack of what the client still has to do (`Task`):
the rest of a `forEach` over callbacks or over parsed chunks, the end of `onTransportHeaders`, and
the callbacks that are running. Every callback that starts and every call that reaches the transport
is written to a log.

A `step` is an application call or a transport event, possible when no callback runs or the
innermost task is a running callback; the return of that callback, with or without an exception; or
a `tick`, the next move of the client itself. The handlers of the source are the functions of the
same name: each does what the source does up to its first loop and leaves the loop, and what follows
it, on the stack.

Two things are left out. `props.debug` is off, and header collections are values, so a callback does
not change the collection it is handed.
-/

namespace GrpcWeb.Client

open Js

/-! ## State -/

/-- The fields that a response changes. A callback is named by its place in its array. -/
structure Receiver (M : Type) where
  completed : Bool := false
  closed : Bool := false
  onHeadersCallbacks : List ℕ := []
  onMessageCallbacks : List ℕ := []
  onEndCallbacks : List ℕ := []
  parser : ChunkParser := {}
  responseHeaders : Option M := none
  responseTrailers : Option M := none
  deriving DecidableEq

/-- The fields of a client. -/
structure GrpcClient (M : Type) extends Receiver M where
  started : Bool := false
  sentFirstMessage : Bool := false
  finishedSending : Bool := false
  deriving DecidableEq

/-- The calls a transport receives. -/
inductive TransportCall (M : Type)
  | start (metadata : M)
  | sendMessage (msgBytes : Bytes)
  | finishSend
  | cancel
  deriving DecidableEq

/-- The events a transport delivers. -/
inductive TransportEvent (M : Type)
  | onHeaders (headers : M) (status : ℕ)
  | onChunk (chunkBytes : Bytes)
  | onEnd
  deriving DecidableEq

/-- The calls the application makes: it registers callbacks and drives the request. -/
inductive AppCall (M Req : Type)
  | onHeaders
  | onMessage
  | onEnd
  | start (metadata : Option (HeadersInit M))
  | send (msg : Req)
  | finishSend
  | close

/-- What the client has still to do. -/
inductive Task (M Res : Type)
  /-- the rest of the loop of `rawOnHeaders` -/
  | onHeaders (callbacks : List ℕ) (headers : M)
  /-- the rest of the loop of `rawOnMessage` -/
  | onMessage (callbacks : List ℕ) (res : Res)
  /-- the rest of the loop of `rawOnEnd` or of `rawOnError` -/
  | onEnd (callbacks : List ℕ) (code : Number) (message : JsString) (trailers : M)
  /-- the rest of the loop of `onTransportChunk` -/
  | chunks (data : List (Chunk M))
  /-- the call of `rawOnError` that ends `onTransportHeaders` -/
  | error (code : Number) (message : JsString) (headers : M)
  /-- a callback of the application is running -/
  | running
  deriving DecidableEq

/-- What can be observed: callbacks that start, calls of the transport, and exceptions. -/
inductive Entry (M Res : Type)
  | onHeaders (callback : ℕ) (headers : M)
  | onMessage (callback : ℕ) (res : Res)
  | onEnd (callback : ℕ) (code : Number) (message : JsString) (trailers : M)
  | transport (call : TransportCall M)
  /-- a call of the application threw -/
  | threw (message : JsString)
  /-- an exception of a callback, thrown again from a timer -/
  | rethrown
  /-- an exception that left `onTransportChunk` -/
  | uncaught (message : JsString)
  deriving DecidableEq

/-- A client, what it has still to do, and what has been observed of it. -/
structure Session (M Res : Type) where
  client : GrpcClient M := {}
  stack : List (Task M Res) := []
  log : List (Entry M Res) := []
  deriving DecidableEq

variable {M Req Res : Type}

namespace Session

/-- A new client, in an engine whose byte arrays have a `slice` method or have none. -/
def new (hasSlice : Bool) : Session M Res := { client := { parser := { hasSlice := hasSlice } } }

def push (t : Task M Res) (s : Session M Res) : Session M Res := { s with stack := t :: s.stack }

def record (e : Entry M Res) (s : Session M Res) : Session M Res := { s with log := s.log ++ [e] }

def modify (f : GrpcClient M → GrpcClient M) (s : Session M Res) : Session M Res :=
  { s with client := f s.client }

@[simp] theorem client_push (t : Task M Res) (s : Session M Res) : (s.push t).client = s.client :=
  rfl
@[simp] theorem stack_push (t : Task M Res) (s : Session M Res) :
    (s.push t).stack = t :: s.stack := rfl
@[simp] theorem log_push (t : Task M Res) (s : Session M Res) : (s.push t).log = s.log := rfl
@[simp] theorem client_record (e : Entry M Res) (s : Session M Res) :
    (s.record e).client = s.client := rfl
@[simp] theorem stack_record (e : Entry M Res) (s : Session M Res) :
    (s.record e).stack = s.stack := rfl
@[simp] theorem log_record (e : Entry M Res) (s : Session M Res) :
    (s.record e).log = s.log ++ [e] := rfl
@[simp] theorem client_modify (f : GrpcClient M → GrpcClient M) (s : Session M Res) :
    (s.modify f).client = f s.client := rfl
@[simp] theorem stack_modify (f : GrpcClient M → GrpcClient M) (s : Session M Res) :
    (s.modify f).stack = s.stack := rfl
@[simp] theorem log_modify (f : GrpcClient M → GrpcClient M) (s : Session M Res) :
    (s.modify f).log = s.log := rfl

end Session

variable [BrowserHeaders M]

/-! ## Reading the status -/

/-- The first `grpc-status` of a collection, as a number; `none` is `null`. -/
def getStatusFromHeaders (headers : M) : Option Number :=
  match BrowserHeaders.get headers (js "grpc-status") with
  | [] => none
  | asString :: _ => some (parseInt asString)

/-- The code of a response whose headers carry the given `grpc-status`. -/
def codeOfHeaders (gRPCStatus : Option Number) (status : ℕ) : Number :=
  match gRPCStatus with
  | some n => if n.truthy && n.nonneg then n else httpStatusToCode status
  | none => httpStatusToCode status

def decodeGRPCStatus (src : Option JsString) : JsString :=
  match src with
  | none => []
  | some src => if src = [] then [] else (decodeURIComponent src).getD src

/-! ## Dispatching to the callbacks -/

def rawOnEnd (code : Number) (message : JsString) (trailers : M) (s : Session M Res) :
    Session M Res :=
  if s.client.completed then s
  else
    (s.modify fun c => { c with completed := true }).push
      (.onEnd s.client.onEndCallbacks code message trailers)

def rawOnHeaders (headers : M) (s : Session M Res) : Session M Res :=
  if s.client.completed then s else s.push (.onHeaders s.client.onHeadersCallbacks headers)

def rawOnError (code : Number) (msg : JsString) (s : Session M Res)
    (trailers : M := BrowserHeaders.empty) : Session M Res :=
  if s.client.completed then s
  else
    (s.modify fun c => { c with completed := true }).push
      (.onEnd s.client.onEndCallbacks code msg trailers)

def rawOnMessage (res : Res) (s : Session M Res) : Session M Res :=
  if s.client.completed || s.client.closed then s
  else s.push (.onMessage s.client.onMessageCallbacks res)

/-! ## Transport events -/

def onTransportHeaders (headers : M) (status : ℕ) (s : Session M Res) : Session M Res :=
  if s.client.closed then s
  else if status = 0 then s
  else
    let s := s.modify fun c => { c with responseHeaders := some headers }
    let code := codeOfHeaders (getStatusFromHeaders headers) status
    let gRPCMessage := BrowserHeaders.get headers (js "grpc-message")
    let s :=
      if code ≠ Code.ok then
        s.push (.error code (decodeGRPCStatus gRPCMessage.head?) headers)
      else s
    rawOnHeaders headers s

def onTransportChunk (chunkBytes : Bytes) (s : Session M Res) : Session M Res :=
  if s.client.closed then s
  else
    let r : Except JsString (List (Chunk M)) × ChunkParser := s.client.parser.parse chunkBytes
    let s := s.modify fun c => { c with parser := r.2 }
    match r.1 with
    | .error e => rawOnError Code.internal (js "parsing error: " ++ e) s
    | .ok data => s.push (.chunks data)

/-- The body of the loop of `onTransportChunk`. An exception of `deserializeBinary` leaves the loop,
whose task the caller has taken off the stack. -/
def onChunk (methodDefinition : MethodDefinition Req Res) (d : Chunk M) (rest : List (Chunk M))
    (s : Session M Res) : Session M Res :=
  match d with
  | .message data =>
    match methodDefinition.deserializeBinary data with
    | .error e => s.record (.uncaught e)
    | .ok deserialized => rawOnMessage deserialized (s.push (.chunks rest))
  | .trailers trailers =>
    match s.client.responseHeaders with
    | none =>
      let headers := BrowserHeaders.copy trailers
      rawOnHeaders headers
        ((s.modify fun c => { c with responseHeaders := some headers }).push (.chunks rest))
    | some _ =>
      (s.modify fun c => { c with responseTrailers := some (BrowserHeaders.copy trailers) }).push
        (.chunks rest)

def onTransportEnd (s : Session M Res) : Session M Res :=
  if s.client.closed then s
  else
    match s.client.responseTrailers with
    | none =>
      match s.client.responseHeaders with
      | none => rawOnError Code.unknown (js "Response closed without headers") s
      | some headers =>
        match getStatusFromHeaders headers with
        | none =>
          rawOnEnd Code.unknown (js "Response closed without grpc-status (Headers only)") headers s
        | some grpcStatus =>
          let grpcMessage := BrowserHeaders.get headers (js "grpc-message")
          rawOnEnd grpcStatus (decodeGRPCStatus grpcMessage.head?) headers s
    | some trailers =>
      match getStatusFromHeaders trailers with
      | none =>
        rawOnError Code.internal (js "Response closed without grpc-status (Trailers provided)") s
      | some grpcStatus =>
        let grpcMessage := BrowserHeaders.get trailers (js "grpc-message")
        rawOnEnd grpcStatus (decodeGRPCStatus grpcMessage.head?) trailers s

def deliver (s : Session M Res) : TransportEvent M → Session M Res
  | .onHeaders headers status => onTransportHeaders headers status s
  | .onChunk chunkBytes => onTransportChunk chunkBytes s
  | .onEnd => onTransportEnd s

/-! ## Application calls -/

def start (metadata : Option (HeadersInit M)) (s : Session M Res) : Session M Res :=
  if s.client.started then s.record (.threw (js "Client already started - cannot .start()"))
  else
    let s := s.modify fun c => { c with started := true }
    -- `metadata ? metadata : {}`, and the empty string is falsy
    let init := match metadata with
      | none => .object []
      | some (.text []) => .object []
      | some init => init
    match BrowserHeaders.construct init with
    | .error e => s.record (.threw e)
    | .ok requestHeaders =>
      let requestHeaders :=
        BrowserHeaders.set requestHeaders (js "content-type") (js "application/grpc-web+proto")
      let requestHeaders := BrowserHeaders.set requestHeaders (js "x-grpc-web") (js "1")
      s.record (.transport (.start requestHeaders))

def send (methodDefinition : MethodDefinition Req Res) (msg : Req) (s : Session M Res) :
    Session M Res :=
  if ¬ s.client.started then
    s.record (.threw (js "Client not started - .start() must be called before .send()"))
  else if s.client.closed then s.record (.threw (js "Client already closed - cannot .send()"))
  else if s.client.finishedSending then
    s.record (.threw (js "Client already finished sending - cannot .send()"))
  else if ¬ methodDefinition.requestStream ∧ s.client.sentFirstMessage then
    s.record
      (.threw (js "Message already sent for non-client-streaming method - cannot .send()"))
  else
    let s := s.modify fun c => { c with sentFirstMessage := true }
    match frameRequest methodDefinition msg with
    | .error e => s.record (.threw e)
    | .ok msgBytes => s.record (.transport (.sendMessage msgBytes))

def finishSend (s : Session M Res) : Session M Res :=
  if ¬ s.client.started then
    s.record (.threw (js "Client not started - .finishSend() must be called before .close()"))
  else if s.client.closed then s.record (.threw (js "Client already closed - cannot .send()"))
  else if s.client.finishedSending then
    s.record (.threw (js "Client already finished sending - cannot .finishSend()"))
  else
    (s.modify fun c => { c with finishedSending := true }).record (.transport .finishSend)

def close (s : Session M Res) : Session M Res :=
  if ¬ s.client.started then
    s.record (.threw (js "Client not started - .start() must be called before .close()"))
  else if ¬ s.client.closed then
    (s.modify fun c => { c with closed := true }).record (.transport .cancel)
  else s.record (.threw (js "Client already closed - cannot .close()"))

def call (methodDefinition : MethodDefinition Req Res) (s : Session M Res) :
    AppCall M Req → Session M Res
  | .onHeaders => s.modify fun c =>
      { c with onHeadersCallbacks := c.onHeadersCallbacks ++ [c.onHeadersCallbacks.length] }
  | .onMessage => s.modify fun c =>
      { c with onMessageCallbacks := c.onMessageCallbacks ++ [c.onMessageCallbacks.length] }
  | .onEnd => s.modify fun c =>
      { c with onEndCallbacks := c.onEndCallbacks ++ [c.onEndCallbacks.length] }
  | .start metadata => start metadata s
  | .send msg => send methodDefinition msg s
  | .finishSend => finishSend s
  | .close => close s

/-! ## Steps -/

/-- The next move of the client itself, none while a callback runs. -/
def tick (methodDefinition : MethodDefinition Req Res) (s : Session M Res) :
    Option (Session M Res) :=
  match s.stack with
  | [] => none
  | .running :: _ => none
  | .onHeaders [] _ :: k => some { s with stack := k }
  | .onHeaders (f :: fs) h :: k =>
    some ({ s with stack := .running :: .onHeaders fs h :: k }.record (.onHeaders f h))
  | .onMessage [] _ :: k => some { s with stack := k }
  | .onMessage (f :: fs) r :: k =>
    if s.client.closed then some { s with stack := .onMessage fs r :: k }
    else some ({ s with stack := .running :: .onMessage fs r :: k }.record (.onMessage f r))
  | .onEnd [] _ _ _ :: k => some { s with stack := k }
  | .onEnd (f :: fs) code message trailers :: k =>
    if s.client.closed then some { s with stack := .onEnd fs code message trailers :: k }
    else
      some ({ s with stack := .running :: .onEnd fs code message trailers :: k }.record
        (.onEnd f code message trailers))
  | .chunks [] :: k => some { s with stack := k }
  | .chunks (d :: ds) :: k => some (onChunk methodDefinition d ds { s with stack := k })
  | .error code message headers :: k =>
    some (rawOnError code message { s with stack := k } headers)

/-- The moves of a session. -/
inductive Action (M Req : Type)
  /-- the application calls the client -/
  | call (c : AppCall M Req)
  /-- the transport delivers an event -/
  | event (e : TransportEvent M)
  /-- the running callback returns -/
  | returns
  /-- the running callback throws, and the exception is thrown again from a timer -/
  | throws
  /-- the client goes on -/
  | tick

def step (methodDefinition : MethodDefinition Req Res) (s : Session M Res) :
    Action M Req → Option (Session M Res)
  | .call c =>
    match s.stack with
    | [] => some (call methodDefinition s c)
    | .running :: _ => some (call methodDefinition s c)
    | _ => none
  | .event e =>
    match s.stack with
    | [] => some (deliver s e)
    | .running :: _ => some (deliver s e)
    | _ => none
  | .returns =>
    match s.stack with
    | .running :: k => some { s with stack := k }
    | _ => none
  | .throws =>
    match s.stack with
    | .running :: k => some ({ s with stack := k }.record .rethrown)
    | _ => none
  | .tick => tick methodDefinition s

end GrpcWeb.Client

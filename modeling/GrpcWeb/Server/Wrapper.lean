import GrpcWeb.EndToEnd.RequestMetadata
import GrpcWeb.Proxy.Origin
import GrpcWeb.Server.Endpoint
import GrpcWeb.Server.Response
import GrpcWeb.Server.WrappedReader

/-!
# The wrapper of a gRPC server

`ServeHTTP` of a `WrappedGrpcServer`: it tells a gRPC-Web request over a WebSocket from one over
HTTP and from other requests, and refuses a WebSocket request whose origin or endpoint is not
allowed. `HandleGrpcWebsocketRequest` then waits for the first message, which holds the headers of
the call, and makes a request for the handler from it and from the upgrade request. The handling of
CORS is that of a third-party package, and stands for itself (`Served.cors`).

`endpoint_checked_is_served`: the endpoint that is looked up in the list of the registered ones is
the path that the handler gets, whatever the path of the request was.
-/

namespace GrpcWeb.Server

open Go Proxy

/-! ## Requests and options -/

/-- What the wrapper reads and writes of an `http.Request`. -/
structure Request where
  method : GoString
  /-- `URL.Path`. -/
  path : GoString
  host : GoString := []
  header : Header := ∅
  protoMajor : ℕ := 1
  protoMinor : ℕ := 1

/-- The options of a wrapper, as far as the wrapper itself uses them. -/
structure Options where
  allowedRequestHeaders : List GoString := [ascii "*"]
  corsForRegisteredEndpointsOnly : Bool := true
  enableWebsockets : Bool := false
  websocketOriginFunc : Option (Request → Bool) := none
  allowNonRootResources : Bool := false
  /-- What the function returns that lists the endpoints. -/
  endpointsFunc : Option (List GoString) := none

structure WrappedGrpcServer where
  opts : Options
  enableWebsockets : Bool
  websocketOriginFunc : Request → Bool
  allowedHeaders : List GoString
  endpointFunc : Request → GoString
  endpointsFunc : List GoString

def internalRequestHeadersWhitelist : List GoString := [ascii "U-A"]

def defaultWebsocketOriginFunc (url : ParseRequestURI) (req : Request) : Bool :=
  match websocketRequestOrigin url req.header with
  | .error _ => false
  | .ok origin => origin == req.host

/-- `wrapGrpc`; `endpointsFunc` lists the endpoints unless an option does. -/
def wrapGrpc (url : ParseRequestURI) (opts : Options) (endpointsFunc : List GoString) :
    WrappedGrpcServer where
  opts := opts
  enableWebsockets := opts.enableWebsockets
  websocketOriginFunc := opts.websocketOriginFunc.getD (defaultWebsocketOriginFunc url)
  allowedHeaders := opts.allowedRequestHeaders ++ internalRequestHeadersWhitelist
  endpointFunc req := if opts.allowNonRootResources then getGRPCEndpoint req.path else req.path
  endpointsFunc := opts.endpointsFunc.getD endpointsFunc

/-! ## Requests that come over a WebSocket -/

/-- `h.Values(key)`. -/
def headerValues (h : Header) (key : GoString) : List GoString :=
  (h[canonicalHeaderKey key]?).getD []

def hackIntoNormalGrpcRequest (req : Request) : Request × Bool :=
  let contentType := headerGet req.header (ascii "content-type")
  let isTextFormat := grpcWebTextContentType.isPrefixOf contentType
  let incomingContentType := if isTextFormat then grpcWebTextContentType else grpcWebContentType
  let header := req.header.set (ascii "content-type")
    (replaceFirst contentType incomingContentType grpcContentType)
  ({ req with
      protoMajor := 2, protoMinor := 0,
      header := header.erase (canonicalHeaderKey (ascii "content-length")) },
    isTextFormat)

/-- The headers of the upgrade request that are looked up under the names of the allow-list. -/
def allowedUpgradeHeaders (allowedHeaders : List GoString) (header : Header) : Header :=
  allowedHeaders.foldl
    (fun headers name =>
      match header[name]? with
      | some values => headers.insert name values
      | none => headers)
    ∅

/-- The headers of the first message, stored over those that were allowed. -/
def mergedHeaders (order : MapOrder) (headers wsHeaders : Header) : Header :=
  (order.entries wsHeaders).foldl (fun headers e => headers.insert e.1 e.2) headers

/-- `HandleGrpcWebsocketRequest`: the request that the handler gets. `first` is the result of
reading the first message, `none` when the upgrade fails. -/
def WrappedGrpcServer.handleGrpcWebsocketRequest (w : WrappedGrpcServer) (order : MapOrder)
    (first : Option ConnRead) (req : Request) : Option Request :=
  match first with
  | none => none
  | some first =>
    if first.err.isSome then none
    else if first.messageType ≠ .binary then none
    else
      match parseHeaders first.framePayload with
      | .error _ => none
      | .ok wsHeaders =>
        let headers := allowedUpgradeHeaders w.allowedHeaders req.header
        let req := { req with
          method := ascii "POST"
          header := mergedHeaders order headers wsHeaders }
        let req := { req with path := w.endpointFunc req }
        some (hackIntoNormalGrpcRequest req).1

/-! ## The dispatch -/

/-- What becomes of a request. -/
inductive Served
  /-- a gRPC-Web request over a WebSocket, with the request for the handler when it comes to that -/
  | websocket (intercepted : Option Request)
  | forbidden
  /-- the request goes to the CORS wrapper, which may pass it on to `HandleGrpcWebRequest` -/
  | cors (req : Request)
  /-- the request goes to the wrapped handler as it is -/
  | handler (req : Request)

namespace WrappedGrpcServer

variable [Unicode] [UnicodeText] (w : WrappedGrpcServer)

omit [Unicode] [UnicodeText] in
def isRequestForRegisteredEndpoint (req : Request) : Bool :=
  w.endpointsFunc.any fun v => v == w.endpointFunc req

def isGrpcWebSocketRequest (req : Request) : Bool :=
  toLower (headerGet req.header (ascii "Upgrade")) == ascii "websocket" &&
    (headerValues req.header (ascii "Sec-Websocket-Protocol")).any fun subproto =>
      (subproto.splitOn 0x2C).any fun token => equalFold (trimSpace token) (ascii "grpc-websockets")

omit [Unicode] [UnicodeText] in
def isGrpcWebRequest (req : Request) : Bool :=
  req.method == ascii "POST" &&
    grpcWebContentType.isPrefixOf (headerGet req.header (ascii "content-type"))

def isAcceptableGrpcCorsRequest (req : Request) : Bool :=
  let accessControlHeaders :=
    toLower (headerGet req.header (ascii "Access-Control-Request-Headers"))
  if req.method == ascii "OPTIONS" && contains accessControlHeaders (ascii "x-grpc-web") then
    if w.opts.corsForRegisteredEndpointsOnly then w.isRequestForRegisteredEndpoint req else true
  else false

def serveHTTP (order : MapOrder) (first : Option ConnRead) (req : Request) : Served :=
  if w.enableWebsockets && isGrpcWebSocketRequest req then
    if w.websocketOriginFunc req &&
        (!w.opts.corsForRegisteredEndpointsOnly || w.isRequestForRegisteredEndpoint req) then
      .websocket (w.handleGrpcWebsocketRequest order first req)
    else .forbidden
  else if w.isAcceptableGrpcCorsRequest req || isGrpcWebRequest req then .cors req
  else .handler req

end WrappedGrpcServer

/-! ## The path that the handler gets -/

/-- Making a request for the handler, taken apart. -/
theorem handleGrpcWebsocketRequest_cases {w : WrappedGrpcServer} {order : MapOrder}
    {first : Option ConnRead} {req handled : Request}
    (h : w.handleGrpcWebsocketRequest order first req = some handled) :
    ∃ read wsHeaders, first = some read ∧ parseHeaders read.framePayload = .ok wsHeaders ∧
      let headers :=
        mergedHeaders order (allowedUpgradeHeaders w.allowedHeaders req.header) wsHeaders
      let posted := { req with method := ascii "POST", header := headers }
      handled = (hackIntoNormalGrpcRequest { posted with path := w.endpointFunc posted }).1 := by
  unfold WrappedGrpcServer.handleGrpcWebsocketRequest at h
  split at h
  · cases h
  rename_i read
  split at h
  · cases h
  split at h
  · cases h
  split at h
  · cases h
  rename_i wsHeaders hparse
  exact ⟨read, wsHeaders, rfl, hparse, (Option.some.inj h).symm⟩

theorem path_of_handled {url : ParseRequestURI} {opts : Options} {endpoints : List GoString}
    {order : MapOrder} {first : Option ConnRead} {req handled : Request}
    (h : (wrapGrpc url opts endpoints).handleGrpcWebsocketRequest order first req = some handled) :
    handled.path = (wrapGrpc url opts endpoints).endpointFunc req := by
  obtain ⟨read, wsHeaders, -, -, rfl⟩ := handleGrpcWebsocketRequest_cases h
  rfl

/-- A request that gets through to the WebSocket code is for a registered endpoint, where that is
asked for. -/
theorem registered_of_serveHTTP [Unicode] [UnicodeText] {w : WrappedGrpcServer} {order : MapOrder}
    {first : Option ConnRead} {req : Request} {intercepted : Option Request}
    (hregistered : w.opts.corsForRegisteredEndpointsOnly = true)
    (h : w.serveHTTP order first req = .websocket intercepted) :
    w.endpointFunc req ∈ w.endpointsFunc ∧
      w.handleGrpcWebsocketRequest order first req = intercepted := by
  unfold WrappedGrpcServer.serveHTTP at h
  split at h
  · split at h
    · rename_i hallowed
      rw [hregistered, Bool.not_true, Bool.false_or, Bool.and_eq_true] at hallowed
      refine ⟨?_, Served.websocket.inj h⟩
      simpa [WrappedGrpcServer.isRequestForRegisteredEndpoint] using hallowed.2
    · cases h
  · split at h <;> cases h

/-- **The endpoint that is checked is the one that is served.** `getGRPCEndpoint` cuts a path,
without its trailing slashes, at its second-last slash, and leaves alone what has no two slashes;
the path that the handler gets over a WebSocket is in the list of the endpoints, when that is asked
for, however the path of the request was written. -/
theorem endpoint_checked_is_served [Unicode] [UnicodeText] :
    (∀ p, 2 ≤ (trimSlashes p).count slash →
      ∃ q a b, trimSlashes p = q ++ (slash :: a ++ slash :: b) ∧ slash ∉ a ∧ slash ∉ b ∧
        getGRPCEndpoint p = slash :: a ++ slash :: b) ∧
    (∀ p, (trimSlashes p).count slash < 2 → getGRPCEndpoint p = p) ∧
    (∀ p, getGRPCEndpoint (getGRPCEndpoint p) = getGRPCEndpoint p) ∧
    (∀ (q service method : GoString) (n : ℕ), service ≠ [] → method ≠ [] → slash ∉ service →
      slash ∉ method →
        getGRPCEndpoint (q ++ (slash :: service ++ slash :: method) ++ List.replicate n slash) =
          slash :: service ++ slash :: method) ∧
    ∀ (url : ParseRequestURI) (opts : Options) (endpoints : List GoString) (order : MapOrder)
      (first : Option ConnRead) (req handled : Request),
      opts.allowNonRootResources = true → opts.corsForRegisteredEndpointsOnly = true →
      (wrapGrpc url opts endpoints).serveHTTP order first req = .websocket (some handled) →
        handled.path = getGRPCEndpoint req.path ∧
          handled.path ∈ (wrapGrpc url opts endpoints).endpointsFunc := by
  refine ⟨fun p => getGRPCEndpoint_of_two_slashes, fun p => getGRPCEndpoint_of_few_slashes,
    getGRPCEndpoint_idempotent, ?mounted, ?served⟩
  case mounted =>
    intro q service method n _ hm hs hms
    exact getGRPCEndpoint_mounted q hm hs hms n
  case served =>
    intro url opts endpoints order first req handled hroot hregistered h
    obtain ⟨hmem, hhandled⟩ := registered_of_serveHTTP
      (w := wrapGrpc url opts endpoints) hregistered h
    have hpath := path_of_handled hhandled
    have hfunc : (wrapGrpc url opts endpoints).endpointFunc req = getGRPCEndpoint req.path := by
      show (if opts.allowNonRootResources then getGRPCEndpoint req.path else req.path) = _
      rw [if_pos hroot]
    exact ⟨hpath.trans hfunc, hpath ▸ hmem⟩

section

local instance mountedUnicode : Unicode := Unicode.unchanged

local instance mountedText : UnicodeText := ⟨id, fun _ _ => false⟩

def mountedOptions : Options :=
  { enableWebsockets := true
    allowNonRootResources := true
    endpointsFunc := some [ascii "/echo.Echo/Say"] }

def mountedRequest : Request :=
  { method := ascii "GET"
    path := ascii "/v1//echo.Echo/Say/"
    host := ascii "example.org"
    header := .ofList [(ascii "Origin", [ascii "https://example.org"]),
      (ascii "Upgrade", [ascii "WebSocket"]),
      (ascii "Sec-Websocket-Protocol", [ascii "chat, grpc-websockets"])] }

def headersRead : ConnRead := ⟨.binary, ascii "content-type: application/grpc-web+proto\r\n", none⟩

def mountedServer : WrappedGrpcServer := wrapGrpc .split mountedOptions []

theorem serveHTTP_mounted :
    mountedServer.serveHTTP .sorted (some headersRead) mountedRequest =
      .websocket (mountedServer.handleGrpcWebsocketRequest .sorted (some headersRead)
        mountedRequest) := by
  rw [WrappedGrpcServer.serveHTTP, if_pos (by decide +kernel), if_pos (by decide +kernel)]

theorem endpoint_checked_is_served_mounted :
    ∃ handled, mountedServer.serveHTTP .sorted (some headersRead) mountedRequest =
      .websocket (some handled) ∧ handled.path = ascii "/echo.Echo/Say" ∧
        handled.path ∈ mountedServer.endpointsFunc := by
  obtain ⟨handled, hhandled⟩ := Option.isSome_iff_exists.1
    (by decide +kernel : (mountedServer.handleGrpcWebsocketRequest .sorted (some headersRead)
      mountedRequest).isSome = true)
  have hserved := serveHTTP_mounted
  rw [hhandled] at hserved
  obtain ⟨hpath, hmem⟩ := endpoint_checked_is_served.2.2.2.2 .split mountedOptions []
    .sorted (some headersRead) mountedRequest handled rfl rfl hserved
  exact ⟨handled, hserved, hpath.trans (by decide +kernel), hmem⟩

end

end GrpcWeb.Server

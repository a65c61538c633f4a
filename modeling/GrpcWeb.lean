import GrpcWeb.Foundations.BigEndian
import GrpcWeb.Foundations.Stream
import GrpcWeb.Foundations.Reader
import GrpcWeb.Js.Text
import GrpcWeb.Js.BrowserHeaders
import GrpcWeb.Client.ChunkParser
import GrpcWeb.Client.Frames
import GrpcWeb.Foundations.Transition
import GrpcWeb.Client.Service
import GrpcWeb.Client.GrpcClient
import GrpcWeb.Client.Steps
import GrpcWeb.Client.Close
import GrpcWeb.Client.Discipline
import GrpcWeb.Client.Reception
import GrpcWeb.Client.Fragments
import GrpcWeb.Client.Status
import GrpcWeb.Client.Delivery
import GrpcWeb.Client.TransportCalls
import GrpcWeb.Client.StrictStatus
import GrpcWeb.Client.WebsocketTransport
import GrpcWeb.Client.Xhr
import GrpcWeb.Client.Detach
import GrpcWeb.Client.Fetch
import GrpcWeb.Client.TextBuffer
import GrpcWeb.Client.Conservation
import GrpcWeb.Client.ThrowingCalls
import GrpcWeb.Go.Strings
import GrpcWeb.Go.Header
import GrpcWeb.Go.MimeHeader
import GrpcWeb.Server.CopyHeader
import GrpcWeb.Foundations.Base64
import GrpcWeb.Server.Response
import GrpcWeb.EndToEnd.Codec
import GrpcWeb.EndToEnd.WebSocketRequest
import GrpcWeb.EndToEnd.RequestMetadata
import GrpcWeb.Server.Text
import GrpcWeb.Server.WrappedReader
import GrpcWeb.Proxy.Origin
import GrpcWeb.Server.Health
import GrpcWeb.Proxy.Health
import GrpcWeb.Server.WebSocketResponse
import GrpcWeb.Server.Partition
import GrpcWeb.EndToEnd.Headers
import GrpcWeb.EndToEnd.HandlerRun
import GrpcWeb.EndToEnd.HttpResponse
import GrpcWeb.EndToEnd.HttpCall
import GrpcWeb.EndToEnd.FetchResponse
import GrpcWeb.EndToEnd.FakeTransport
import GrpcWeb.EndToEnd.WebSocketResponse
import GrpcWeb.Server.Endpoint
import GrpcWeb.Server.Wrapper
import GrpcWeb.Server.UpgradeHeaders
import GrpcWeb.Foundations.Simulation
import GrpcWeb.Client.Transport
import GrpcWeb.Client.AfterClose
import GrpcWeb.Client.FetchCall
import GrpcWeb.Client.ResponseEvents
import GrpcWeb.Client.XhrCall
import GrpcWeb.Client.ReactNativeCall
import GrpcWeb.Client.OneRequest
import GrpcWeb.Client.Invoke
import GrpcWeb.Client.NodeCall
import GrpcWeb.Client.Unary
import GrpcWeb.EndToEnd.CutResponse
import GrpcWeb.EndToEnd.SocketCall

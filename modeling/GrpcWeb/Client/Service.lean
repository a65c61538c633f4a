import GrpcWeb.Js.Text

/-!
# Methods, request frames and status codes

What the client takes from a method definition, the frame of a request message, and the table from
HTTP to gRPC status codes.
-/

namespace GrpcWeb.Client

open Js

/-- The codes of the gRPC status. A code that is read off a header is a `Number` and need not be
one of these. -/
inductive Code
  | ok
  | canceled
  | unknown
  | invalidArgument
  | deadlineExceeded
  | notFound
  | alreadyExists
  | permissionDenied
  | resourceExhausted
  | failedPrecondition
  | aborted
  | outOfRange
  | unimplemented
  | internal
  | unavailable
  | dataLoss
  | unauthenticated
  deriving DecidableEq, Repr

/-- The number of a code. -/
def Code.toNat : Code → ℕ
  | ok => 0
  | canceled => 1
  | unknown => 2
  | invalidArgument => 3
  | deadlineExceeded => 4
  | notFound => 5
  | alreadyExists => 6
  | permissionDenied => 7
  | resourceExhausted => 8
  | failedPrecondition => 9
  | aborted => 10
  | outOfRange => 11
  | unimplemented => 12
  | internal => 13
  | unavailable => 14
  | dataLoss => 15
  | unauthenticated => 16

instance : Coe Code Number := ⟨fun c => .int c.toNat⟩

theorem Code.toNat_eq_ok {c : Code} : c.toNat = Code.ok.toNat ↔ c = .ok := by
  cases c <;> decide

def httpStatusToCode (httpStatus : ℕ) : Code :=
  match httpStatus with
  | 0 => .internal
  | 200 => .ok
  | 400 => .invalidArgument
  | 401 => .unauthenticated
  | 403 => .permissionDenied
  | 404 => .notFound
  | 409 => .aborted
  | 412 => .failedPrecondition
  | 429 => .resourceExhausted
  | 499 => .canceled
  | 500 => .unknown
  | 501 => .unimplemented
  | 503 => .unavailable
  | 504 => .deadlineExceeded
  | _ => .unknown

/-- What the client uses of a method definition. Serializing a request and deserializing a response
are the application's, and may throw. -/
structure MethodDefinition (Req Res : Type) where
  requestStream : Bool
  serializeBinary : Req → Except JsString Bytes
  deserializeBinary : Bytes → Except JsString Res

/-- The frame of a message of the given bytes: a zero byte, the length and the bytes. -/
def frameBytes (bytes : Bytes) : Bytes := 0 :: putUint32 (UInt32.ofNat bytes.length) ++ bytes

def frameRequest {Req Res : Type} (methodDefinition : MethodDefinition Req Res) (request : Req) :
    Except JsString Bytes :=
  (methodDefinition.serializeBinary request).map frameBytes

/-- A method whose messages are their own bytes. -/
def bytesMethod (requestStream : Bool) : MethodDefinition Bytes Bytes := ⟨requestStream, .ok, .ok⟩

end GrpcWeb.Client

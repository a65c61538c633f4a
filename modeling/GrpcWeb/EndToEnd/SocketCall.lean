import GrpcWeb.Client.Transport
import GrpcWeb.EndToEnd.CutResponse
import GrpcWeb.EndToEnd.RequestMetadata
import GrpcWeb.EndToEnd.WebSocketRequest

/-!
# A call over a WebSocket

Both parties of a call: the client of the application with its transport, and the server, whose
handler reads the request and writes the response while the client still sends. `SocketCall` holds
what lies between the client and the handler, with the messages that are on their way in both
directions, and `SocketCall.step` lets every party go on whenever it can: the application and the
client, the socket, which may close at any time, and the server.

The connection of the server may fail before the client's socket closes or behind it, between two
messages or within one (of which the first bytes then come with an error). Nothing that the client
sends reaches it any more, and every further read gives the handler `io.EOF`, and cancels the
request. The goroutine behind the finish frame, which does nothing but wait for such a read, is left
out.

* `socket_call_request`: whatever the order of the steps, the handler reads the frames that the
  client was given, in order, and the end of the request only behind all of them, unless the
  connection has failed and the request has been cancelled.
* `socket_call_response`: whenever the socket closes, the application is shown a front part of the
  response of the handler, or all of it, or a front part and the status `Unknown`; in particular it
  is never told that a call has succeeded of which it has not been shown everything.
-/

namespace GrpcWeb.EndToEnd

open Js Go Client Server

variable {M Req Res : Type}

/-! ## The system -/

/-- What lies between the client and the handler: both ends of the socket, what the handler has done
so far, how the loops over its headers went when it returned, how many of its messages the client
has received, and how many it had sent when the connection of the server failed. -/
structure SocketCall (M : Type) extends Link M where
  run : List (HandlerOp × LoopOrders) := []
  close : Option LoopOrders := none
  delivered : ℕ := 0
  failedAt : Option ℕ := none

/-- What the socket does. -/
inductive SocketMove
  | opens
  /-- the next message of the server comes -/
  | message
  | closes

/-- What happens at the server. -/
inductive ServerMove
  | accept
  | read (n : ℕ)
  | op (op : HandlerOp × LoopOrders)
  /-- the handler returns, and the body of the request is closed -/
  | finish (orders : LoopOrders)
  /-- the connection fails: a few of the messages on their way still come, perhaps a part of the
  next one, and then errors -/
  | fails (arriving : ℕ) (part : Option ℕ) (err : GoError)

/-- The steps of the system. -/
inductive SocketAction (M Req : Type)
  | exchange (a : ExchangeAction M Req SocketMove)
  | server (b : ServerMove)

namespace SocketCall

section

variable [Unicode]

/-- The messages that the server has sent. -/
def response (s : SocketCall M) : List Bytes :=
  match s.close with
  | none => (s.run.foldl WebSocketResponseWriter.step {}).sent
  | some orders => handleGrpcWebsocketRequest s.run orders

variable [BrowserHeaders M]

/-- The events of the socket. A message reaches the client only when the socket is open and the
connection had not failed before it was sent. -/
def move (s : SocketCall M) : SocketMove → Option (SocketCall M × Option (TransportEvent M))
  | .opens => (s.toLink.step .opens).map fun l => ({ s with toLink := l }, none)
  | .message =>
    match s.transport.sockets, s.response[s.delivered]? with
    | ws :: _, some b =>
      if ws.readyState = .opened ∧ s.failedAt.all (s.delivered < ·) = true then
        some ({ s with delivered := s.delivered + 1 }, some (.onChunk b))
      else none
    | _, _ => none
  | .closes => (s.transport.step (.closes 0)).map fun t => ({ s with transport := t }, some .onEnd)

omit [Unicode] [BrowserHeaders M] in
/-- What the client sends does not reach a connection that has failed. -/
def sends (s : SocketCall M) (l : Link M) : SocketCall M :=
  { s with toLink := if s.failedAt.isSome then { l with reader := s.reader } else l }

/-- The client's side of the system. -/
def socketTransport : Transport M (SocketCall M) SocketMove where
  call s c := (s.toLink.step (.call c)).map s.sends
  onCancel _ := none
  move := move
  returns s := (s, none)
  throws _ s := s

omit [Unicode] [BrowserHeaders M] in
/-- The client's socket is past connecting. -/
def connected (s : SocketCall M) : Bool :=
  s.transport.sockets.head?.any fun ws => ws.readyState ≠ .connecting

omit [Unicode] [BrowserHeaders M] in
/-- The message that the server reads first, before there is a handler, is binary and whole. -/
def firstIsBinary (s : SocketCall M) : Bool :=
  s.reader.wsConn.head?.any fun f => f.messageType = .binary ∧ f.err = none

/-- The handler runs: the headers of the call could be parsed, and it has not returned. -/
def handling (s : SocketCall M) : Bool :=
  s.header.any (fun block => (parseHeaders block).isOk) && s.close.isNone

/-- What a connection that fails still gives: perhaps a part of the message that was coming, with
the error, and then the error alone. -/
def brokenOff (part : Option ℕ) (err : GoError) (lost : List ConnRead) : List ConnRead :=
  match part, lost with
  | some n, f :: _ =>
    [⟨f.messageType, f.framePayload.dropLast.take n, some err⟩, ⟨.none, [], some err⟩]
  | _, _ => [⟨.none, [], some err⟩]

omit [Unicode] in
/-- The connection fails, or has failed and fails again. -/
def failConnection (s : SocketCall M) (sent arriving : ℕ) (part : Option ℕ) (err : GoError) :
    SocketCall M :=
  let wsConn := s.reader.wsConn
  match s.failedAt with
  | none =>
    { s with
      reader := { s.reader with
        wsConn := wsConn.take arriving ++ brokenOff part err (wsConn.drop arriving) }
      failedAt := some sent }
  | some _ => { s with reader := { s.reader with wsConn := wsConn ++ [⟨.none, [], some err⟩] } }

def serve (s : SocketCall M) : ServerMove → Option (SocketCall M)
  | .accept =>
    if s.firstIsBinary then (s.toLink.step .accept).map fun l => { s with toLink := l } else none
  | .read n =>
    if s.handling then (s.toLink.step (.read n)).map fun l => { s with toLink := l } else none
  | .op op => if s.handling then some { s with run := s.run ++ [op] } else none
  | .finish orders => if s.handling then some { s with close := some orders } else none
  | .fails arriving part err =>
    if s.connected then some (s.failConnection s.response.length arriving part err) else none

def step (methodDefinition : MethodDefinition Req Res) (x : Exchange M Res (SocketCall M)) :
    SocketAction M Req → Option (Exchange M Res (SocketCall M))
  | .exchange a => x.step socketTransport methodDefinition a
  | .server b => (x.transport.serve b).map fun t => { x with transport := t }

end

end SocketCall

/-! ## A connection that fails -/

/-- A read takes no notice of what follows the message that it takes. -/
theorem read_append {w w' : WebSocketWrappedReader} {n : ℕ} {r : ReadResult UInt8 GoError}
    (h : w.read n = some (r, w')) (more : List ConnRead) :
    { w with wsConn := w.wsConn ++ more }.read n =
      some (r, { w' with wsConn := w'.wsConn ++ more }) := by
  unfold WebSocketWrappedReader.read at h ⊢
  rcases hbuffer : w.remainingBuffer with _ | remaining
  · rcases hconn : w.wsConn with _ | ⟨f, rest⟩
    · simp [hbuffer, hconn] at h
    · simp only [hbuffer, hconn, List.cons_append] at h ⊢
      split_ifs at h ⊢ <;> cases h <;> simp
  · simp only [hbuffer] at h ⊢
    split_ifs at h ⊢ <;> cases h <;> simp

theorem read_eq_none {w : WebSocketWrappedReader} {n : ℕ} (h : w.read n = none) :
    w.remainingBuffer = none ∧ w.wsConn = [] := by
  unfold WebSocketWrappedReader.read at h
  rcases hbuffer : w.remainingBuffer with _ | remaining
  · rcases hconn : w.wsConn with _ | ⟨f, rest⟩
    · exact ⟨rfl, rfl⟩
    · simp only [hbuffer, hconn] at h
      split_ifs at h
  · simp only [hbuffer] at h
    split_ifs at h

/-- The bytes of an item of a request. -/
theorem data_toRead (item : Queued) : (toRead item.frame).data = payload item := by
  cases item <;>
    simp [ConnRead.data, ConnRead.isClosed, toRead, Queued.frame, finishSendFrame, payload]

/-- What comes of the messages that are lost: errors, behind a part of the first of them when the
connection fails within it. -/
inductive Remains (lost : List ConnRead) : List ConnRead → Prop
  | between (errs : List ConnRead) (errors : ∀ f ∈ errs, f.messageType = .none) :
      Remains lost errs
  | within (f : ConnRead) (rest : List ConnRead) (first : lost = f :: rest) (part : Bytes)
      (front : part <+: f.framePayload.dropLast) (err : GoError) (errs : List ConnRead)
      (errors : ∀ f ∈ errs, f.messageType = .none) :
      Remains lost (⟨f.messageType, part, some err⟩ :: errs)

namespace Remains

variable {lost failed : List ConnRead}

theorem brokenOff (part : Option ℕ) (err : GoError) (lost : List ConnRead) :
    Remains lost (SocketCall.brokenOff part err lost) := by
  have herr : ∀ f ∈ [(⟨.none, [], some err⟩ : ConnRead)], f.messageType = .none := by simp
  unfold SocketCall.brokenOff
  split
  · exact .within _ _ rfl _ (List.take_prefix _ _) err _ herr
  · exact .between _ herr

theorem append (h : Remains lost failed) (err : GoError) :
    Remains lost (failed ++ [⟨.none, [], some err⟩]) := by
  have hmore {errs : List ConnRead} (h : ∀ f ∈ errs, f.messageType = .none) :
      ∀ f ∈ errs ++ [⟨.none, [], some err⟩], f.messageType = .none := by
    intro f hf
    rcases List.mem_append.1 hf with hf | hf
    · exact h f hf
    · rw [List.mem_singleton.1 hf]
  cases h with
  | between _ errors => exact .between _ (hmore errors)
  | within f rest first part front err' errs errors =>
    exact .within f rest first part front err' _ (hmore errors)

/-- The server cannot take the headers of a call from it. -/
theorem not_whole (h : Remains lost failed) :
    (failed.head?.any fun f => f.messageType = .binary ∧ f.err = none) = false := by
  cases h with
  | between _ errors =>
    rcases failed with _ | ⟨f, errs⟩
    · rfl
    · simp [errors f List.mem_cons_self]
  | within => simp

end Remains

/-- A read behind the failure: what was kept of the last message, and then errors. -/
theorem read_failed {w w' : WebSocketWrappedReader} {n : ℕ} {r : ReadResult UInt8 GoError}
    (herrors : ∀ f ∈ w.wsConn, f.messageType = .none) (herror : w.remainingError ≠ some .eof)
    (h : w.read n = some (r, w')) :
    r.bytes ++ w'.remainingBuffer.getD [] = w.remainingBuffer.getD [] ∧
      (r.err = some .eof → w'.canceled = true) ∧ (w.canceled = true → w'.canceled = true) ∧
      w'.remainingError ≠ some .eof ∧ ∀ f ∈ w'.wsConn, f.messageType = .none := by
  unfold WebSocketWrappedReader.read at h
  rcases hbuffer : w.remainingBuffer with _ | remaining
  · rcases hconn : w.wsConn with _ | ⟨f, rest⟩
    · simp [hbuffer, hconn] at h
    · rw [hconn] at herrors
      obtain ⟨hf, hrest⟩ := List.forall_mem_cons.1 herrors
      have hclosed : f.isClosed = true := by simp [ConnRead.isClosed, hf]
      simp only [hbuffer, hconn, hclosed, if_true, Option.some.injEq, Prod.mk.injEq] at h
      obtain ⟨rfl, rfl⟩ := h
      exact ⟨by simp, fun _ => rfl, fun _ => rfl, herror, hrest⟩
  · simp only [hbuffer] at h
    split at h
    · cases h
      exact ⟨by simp, fun heof => absurd heof herror, id, by simp, herrors⟩
    · cases h
      exact ⟨by simp, fun heof => (by cases heof), id, herror, herrors⟩

/-- A read of a part of a message. -/
theorem read_part {w w' : WebSocketWrappedReader} {n : ℕ} {r : ReadResult UInt8 GoError}
    {item : Queued} {part : Bytes} {err : GoError} {errs : List ConnRead}
    (hbuffer : w.remainingBuffer = none) (herror : w.remainingError = none)
    (hconn : w.wsConn = ⟨.binary, part, some err⟩ :: errs) (hpart : part <+: item.frame.dropLast)
    (h : w.read n = some (r, w')) :
    r.bytes ++ w'.remainingBuffer.getD [] <+: payload item ∧
      (r.err = some .eof → w'.canceled = true) ∧ w'.remainingError ≠ some .eof ∧
      w'.wsConn = errs := by
  have hfront : part = [] ∨ ∃ p, part = 0 :: p ∧ p <+: payload item := by
    cases item with
    | message msgBytes =>
      rcases part with _ | ⟨b, p⟩
      · exact .inl rfl
      · obtain ⟨rfl, hp⟩ := List.cons_prefix_cons.1 (hpart.trans (List.dropLast_prefix _))
        exact .inr ⟨p, rfl, hp⟩
    | finishSend => exact .inl (List.prefix_nil.1 hpart)
  unfold WebSocketWrappedReader.read at h
  simp only [hbuffer, hconn] at h
  by_cases heof : err = .eof
  · have hclosed : (⟨.binary, part, some err⟩ : ConnRead).isClosed = true := by
      simp [ConnRead.isClosed, heof]
    simp only [hclosed, if_true, Option.some.injEq, Prod.mk.injEq] at h
    obtain ⟨rfl, rfl⟩ := h
    exact ⟨by simp, fun _ => rfl, by simp [herror], rfl⟩
  · have hopen : (⟨.binary, part, some err⟩ : ConnRead).isClosed = false := by
      simp [ConnRead.isClosed, heof]
    have herr : some err ≠ some GoError.eof := fun h => heof (Option.some.inj h)
    rcases hfront with rfl | ⟨p, rfl, hp⟩
    · simp only [hopen, Bool.false_eq_true, if_false, ne_eq, not_true_eq_false, List.nil_eq,
        reduceCtorEq, if_true, Option.some.injEq, Prod.mk.injEq] at h
      obtain ⟨rfl, rfl⟩ := h
      exact ⟨by simp, fun h => absurd h herr, by simp [herror], rfl⟩
    · have hfinish : (0 :: p : Bytes) ≠ [1] := by simp
      simp only [hopen, Bool.false_eq_true, if_false, ne_eq, not_true_eq_false, hfinish,
        reduceCtorEq, List.drop_one, List.tail_cons] at h
      split at h
      · cases h
        exact ⟨by simpa [hbuffer] using hp, fun h => absurd h herr, by simp [herror], rfl⟩
      · cases h
        exact ⟨by simpa using hp, fun h => (by cases h), herr, rfl⟩

/-- What the messages of a request are, once the headers have been taken. -/
def Items (l : Link M) : Prop :=
  l.header.isSome = true → l.reader.remainingError = none ∧
    ∃ items : List Queued, l.reader.wsConn = items.map fun i => toRead i.frame

/-- The read that comes upon the failure. -/
theorem read_remains {w : WebSocketWrappedReader} {lost failed : List ConnRead}
    (hremains : Remains lost failed) {items : List Queued}
    (hlost : lost = items.map fun i => toRead i.frame) (hbuffer : w.remainingBuffer = none)
    (herror : w.remainingError = none) (hconn : w.wsConn = failed) {n : ℕ}
    {r : ReadResult UInt8 GoError} {w' : WebSocketWrappedReader} (h : w.read n = some (r, w')) :
    r.bytes ++ w'.remainingBuffer.getD [] <+: lost.flatMap ConnRead.data ∧
      (r.err = some .eof → w'.canceled = true) ∧ w'.remainingError ≠ some .eof ∧
      ∀ f ∈ w'.wsConn, f.messageType = .none := by
  cases hremains with
  | between _ errors =>
    obtain ⟨hbytes, heof, -, herr, herrors⟩ := read_failed (hconn ▸ errors) (by simp [herror]) h
    refine ⟨?_, heof, herr, herrors⟩
    rw [hbytes, hbuffer]
    exact List.nil_prefix
  | within f rest first part front err errs errors =>
    rw [hlost] at first ⊢
    obtain ⟨item, items, rfl, rfl, rfl⟩ := List.map_eq_cons_iff.1 first
    obtain ⟨hbytes, heof, herr, hwire⟩ := read_part hbuffer herror hconn front h
    refine ⟨?_, heof, herr, hwire ▸ errors⟩
    rw [List.map_cons, List.flatMap_cons, data_toRead]
    exact hbytes.trans (List.prefix_append _ _)

/-- What the server has of a connection that may have failed: `before` is its end of the socket with
every message that was sent. -/
inductive Broken (down : Bool) (before after : Link M) : Prop
  /-- it has not failed -/
  | whole (up : down = false) (header : after.header = before.header)
      (results : after.results = before.results) (reader : after.reader = before.reader)
  /-- no read has come upon the failure -/
  | failing (down : down = true) (reader : WebSocketWrappedReader)
      (arriving lost failed : List ConnRead) (header : after.header = before.header)
      (results : after.results = before.results)
      (whole : before.reader = { reader with wsConn := arriving ++ lost })
      (cut : after.reader = { reader with wsConn := arriving ++ failed })
      (remains : Remains lost failed)
  /-- a read has -/
  | failed (down : down = true) (header : after.header = before.header)
      (taken : before.header.isSome = true) (buffer : before.reader.remainingBuffer = none)
      (more : List (ReadResult UInt8 GoError)) (results : after.results = before.results ++ more)
      (bytes : bytesOf more ++ after.reader.remainingBuffer.getD [] <+:
        before.reader.wsConn.flatMap ConnRead.data)
      (eof : ∀ r ∈ more, r.err = some .eof → after.reader.canceled = true)
      (error : after.reader.remainingError ≠ some .eof)
      (errors : ∀ f ∈ after.reader.wsConn, f.messageType = .none)

namespace Broken

variable {down : Bool} {before after : Link M}

theorem header_eq (h : Broken down before after) : after.header = before.header := by
  cases h with
  | whole _ header => exact header
  | failing _ _ _ _ _ header => exact header
  | failed _ header => exact header

/-- What the client does is not part of it. -/
theorem congr {l : Link M} (h : Broken down before after) (hheader : l.header = after.header)
    (hreader : l.reader = after.reader) (hresults : l.results = after.results) :
    Broken down before l := by
  cases h with
  | whole up header results reader =>
    exact .whole up (hheader.trans header) (hresults.trans results) (hreader.trans reader)
  | failing down reader arriving lost failed header results whole cut remains =>
    exact .failing down reader arriving lost failed (hheader.trans header)
      (hresults.trans results) whole (hreader.trans cut) remains
  | failed down header taken buffer more results bytes eof error errors =>
    exact .failed down (hheader.trans header) taken buffer more (hresults.trans results)
      (hreader ▸ bytes) (hreader ▸ eof) (hreader ▸ error) (hreader ▸ errors)

/-- The connection fails. -/
theorem fails (h : Broken false before after) (arriving : ℕ) (part : Option ℕ) (err : GoError) :
    Broken true before { after with reader := { after.reader with
      wsConn := after.reader.wsConn.take arriving ++
        SocketCall.brokenOff part err (after.reader.wsConn.drop arriving) } } := by
  cases h with
  | whole _ header results reader =>
    refine .failing rfl after.reader (after.reader.wsConn.take arriving)
      (after.reader.wsConn.drop arriving) _ header results ?_ rfl (.brokenOff part err _)
    rw [List.take_append_drop, reader]
  | failing down | failed down => cases down

/-- It fails again. -/
theorem failsAgain (h : Broken true before after) (err : GoError) :
    Broken true before { after with reader := { after.reader with
      wsConn := after.reader.wsConn ++ [⟨.none, [], some err⟩] } } := by
  cases h with
  | whole up => cases up
  | failing down reader arriving lost failed header results whole cut remains =>
    refine .failing down reader arriving lost (failed ++ [⟨.none, [], some err⟩]) header results
      whole ?_ (remains.append err)
    rw [cut, List.append_assoc]
  | failed down header taken buffer more results bytes eof error errors =>
    refine .failed down header taken buffer more results bytes eof error fun f hf => ?_
    rcases List.mem_append.1 hf with hf | hf
    · exact errors f hf
    · rw [List.mem_singleton.1 hf]

variable [BrowserHeaders M]

/-- The first message, which arrives. -/
theorem accept (h : Broken down before after)
    (hbinary : (after.reader.wsConn.head?.any fun f => f.messageType = .binary ∧ f.err = none) =
      true) {l : Link M} (hl : after.step .accept = some l) :
    ∃ before', before.step .accept = some before' ∧ Broken down before' l := by
  simp only [Link.step] at hl ⊢
  split at hl
  · rename_i f rest hnone hconn
    cases hl
    rw [h.header_eq] at hnone
    cases h with
    | whole up header results reader =>
      rw [reader] at hconn
      rw [hnone, hconn]
      exact ⟨_, rfl, .whole up rfl results (by simp [reader])⟩
    | failing down reader arriving lost failed header results whole cut remains =>
      rw [cut] at hconn hbinary
      rcases arriving with _ | ⟨g, arriving⟩
      · have hnot := remains.not_whole
        rw [show failed.head?.any _ = true from hbinary] at hnot
        cases hnot
      · obtain ⟨rfl, rfl⟩ := List.cons.inj hconn
        rw [hnone, whole]
        refine ⟨_, rfl, .failing down reader arriving lost failed rfl results rfl ?_ remains⟩
        simp only [cut]
        rfl
    | failed down header taken =>
      rw [hnone] at taken
      cases taken
  · cases hl

/-- **A read of the handler** is one of a message that arrives, or it fails. -/
theorem read (h : Broken down before after) (hitems : Items before) {n : ℕ} {l : Link M}
    (hl : after.step (.read n) = some l) :
    ∃ before', (before' = before ∨ before.step (.read n) = some before') ∧
      Broken down before' l := by
  simp only [Link.step] at hl ⊢
  rw [h.header_eq] at hl
  rcases hheader : before.header with _ | block
  · rw [hheader] at hl
    cases hl
  have htaken : before.header.isSome = true := by rw [hheader]; rfl
  simp only [hheader] at hl ⊢
  obtain ⟨⟨r, w'⟩, hr, rfl⟩ := Option.map_eq_some_iff.1 hl
  cases h with
  | whole up header results reader =>
    rw [reader] at hr
    exact ⟨_, .inr (Option.map_eq_some_iff.2 ⟨_, hr, rfl⟩), .whole up rfl (by rw [results]) rfl⟩
  | failing down reader arriving lost failed header results whole cut remains =>
    rcases hpart : { reader with wsConn := arriving }.read n with _ | ⟨r₀, w₀⟩
    · -- nothing that arrives is left
      obtain ⟨hbuffer, rfl⟩ : reader.remainingBuffer = none ∧ arriving = [] := read_eq_none hpart
      obtain ⟨herror, items, hwire⟩ := hitems htaken
      rw [whole] at herror hwire
      rw [cut] at hr
      obtain ⟨hbytes, heof, herr, herrors⟩ :=
        read_remains (w := { reader with wsConn := [] ++ failed }) remains hwire hbuffer herror
          rfl hr
      refine ⟨before, .inl rfl, .failed down hheader.symm htaken (by rw [whole]; exact hbuffer) [r]
        (by rw [results]) ?_ ?_ herr herrors⟩
      · rw [whole]
        simpa [bytesOf] using hbytes
      · intro r' hr'
        rw [List.mem_singleton.1 hr']
        exact heof
    · have hafter := read_append hpart failed
      have hbefore := read_append hpart lost
      rw [← whole] at hbefore
      rw [← cut, hr] at hafter
      obtain ⟨rfl, rfl⟩ := Prod.mk.inj (Option.some.inj hafter)
      refine ⟨_, .inr (Option.map_eq_some_iff.2 ⟨_, hbefore, rfl⟩), ?_⟩
      exact .failing down w₀ w₀.wsConn lost failed rfl (by rw [results]) rfl rfl remains
  | failed down header taken buffer more results bytes eof error errors =>
    obtain ⟨hbytes, heof, hcanceled, herr, herrors⟩ := read_failed errors error hr
    refine ⟨before, .inl rfl, .failed down hheader.symm htaken buffer (more ++ [r]) ?_ ?_ ?_ herr
      herrors⟩
    · rw [results, List.append_assoc]
    · rw [bytesOf, List.flatMap_append, List.append_assoc, List.flatMap_singleton, hbytes]
      exact bytes
    · intro r' hr' heof'
      rcases List.mem_append.1 hr' with hold | hnew
      · exact hcanceled (eof r' hold heof')
      · rw [List.mem_singleton.1 hnew] at heof'
        exact heof heof'

omit [BrowserHeaders M] in
/-- What the handler has read of a connection that may have failed. -/
theorem results_eq (h : Broken down before after) : ∃ more,
    after.results = before.results ++ more ∧
      (more = [] ∨ down = true ∧ before.header.isSome = true ∧
        before.reader.remainingBuffer = none ∧
        bytesOf more <+: before.reader.wsConn.flatMap ConnRead.data ∧
        ∀ r ∈ more, r.err = some .eof → after.reader.canceled = true) := by
  cases h with
  | whole _ _ results => exact ⟨[], by rw [results, List.append_nil], .inl rfl⟩
  | failing _ _ _ _ _ _ results => exact ⟨[], by rw [results, List.append_nil], .inl rfl⟩
  | failed down header taken buffer more results bytes eof =>
    exact ⟨more, results, .inr ⟨down, taken, buffer, (List.prefix_append _ _).trans bytes, eof⟩⟩

omit [BrowserHeaders M] in
/-- Nothing but the failure cancels the request. -/
theorem down_of_canceled (h : Broken down before after) (hbefore : before.reader.canceled = false)
    (hafter : after.reader.canceled = true) : down = true := by
  cases h with
  | whole _ _ _ reader =>
    rw [reader, hbefore] at hafter
    cases hafter
  | failing down => exact down
  | failed down => exact down

end Broken

/-! ## What has been sent and received -/

section

variable [Unicode] {headerBytes : Bytes} {metadata : M} {frames : List Bytes} {finish : Bool}
  {s : SocketCall M} {events : List (TransportEvent M)}

/-- The client has been given the first messages of the response. -/
def SocketCall.chunks (s : SocketCall M) : List (TransportEvent M) :=
  (s.response.take s.delivered).map .onChunk

/-- What the calls of a request have led to, and the events that the client has been given. -/
inductive Described (headerBytes : Bytes) (metadata : M) (frames : List Bytes) (finish : Bool)
    (s : SocketCall M) (events : List (TransportEvent M)) : Prop
  /-- the socket has not closed, and the connection has not failed -/
  | live (carries : Carries headerBytes metadata frames finish s.toLink) (up : s.failedAt = none)
      (events : events = s.chunks)
  /-- one of the two has happened, and what was not sent before is lost -/
  | cut (queue : List Queued) (state : ReadyState) (sent : List Bytes)
      (transport : s.transport = ⟨queue, [⟨metadata, state, sent⟩]⟩)
      (ends : state = .closed ∨ state = .opened ∧ s.failedAt.isSome = true) (before : Link M)
      (carried : List Bytes) (finished : Bool)
      (carries : Carries headerBytes metadata carried finished before)
      (broken : Broken s.failedAt.isSome before s.toLink)
      (front : itemsOf carried finished <+: itemsOf frames finish)
      (events : events = s.chunks ++ if state = .closed then [.onEnd] else [])

variable [BrowserHeaders M]

/-- What is known of every state of the system. -/
structure SocketInv (s : SocketCall M) (events : List (TransportEvent M)) : Prop where
  fresh : s.calls = [] → s = {} ∧ events = []
  delivered : s.delivered ≤ s.response.length
  described : ∀ metadata frames finish headerBytes, s.calls = requestCalls metadata frames finish →
    headersToBytes metadata = .ok headerBytes →
    Described headerBytes metadata frames finish s events

/-! ## Steps -/

omit [Unicode] [BrowserHeaders M] in
theorem update_self (l : Link M) : l.update l.transport = l := by
  simp [Link.update]

omit [Unicode] [BrowserHeaders M] in
/-- A socket that has closed takes nothing. -/
theorem push_closed {t : WebsocketTransport M} {queue : List Queued} {sent : List Bytes}
    (h : t = ⟨queue, [⟨metadata, .closed, sent⟩]⟩) (item : Queued) : t.push item = t := by
  subst h
  rfl

omit [Unicode] in
/-- What the server takes off the connection changes nothing at the client. -/
theorem transport_of_step {l l' : Link M} {a : Link.Action M} (ha : a = .accept ∨ ∃ n, a = .read n)
    (h : l.step a = some l') : l'.transport = l.transport := by
  rcases ha with rfl | ⟨n, rfl⟩
  · simp only [Link.step] at h
    split at h <;> cases h
    rfl
  · simp only [Link.step] at h
    split at h
    · cases h
    · obtain ⟨r, -, rfl⟩ := Option.map_eq_some_iff.1 h
      rfl

omit [Unicode] [BrowserHeaders M] in
/-- A call that the connection does not notice. -/
theorem Broken.sends {before l : Link M} (h : Broken s.failedAt.isSome before s.toLink)
    (hheader : l.header = s.header) (hresults : l.results = s.results)
    (hreader : s.failedAt = none → l.reader = s.reader) :
    Broken (s.sends l).failedAt.isSome before (s.sends l).toLink := by
  rcases hfailed : s.failedAt with _ | n
  · refine h.congr ?_ ?_ ?_ <;> simp [SocketCall.sends, hfailed, hheader, hresults, hreader]
  · refine h.congr ?_ ?_ ?_ <;> simp [SocketCall.sends, hfailed, hheader, hresults]

omit [BrowserHeaders M] in
/-- **A message or the finish signal.** -/
theorem Described.push (h : Described headerBytes metadata frames finish s events) {item : Queued}
    {frames' : List Bytes} {finish' : Bool}
    (hitems : itemsOf frames' finish' = itemsOf frames finish ++ [item])
    (calls : List (TransportCall M)) :
    Described headerBytes metadata frames' finish'
      (s.sends { s.toLink.update (s.transport.push item) with calls := calls }) events := by
  cases h with
  | live carries up events =>
    refine .live ?_ up events
    rw [SocketCall.sends, up]
    exact (carries.push hitems).withCalls calls
  | cut queue state sent transport ends before carried finished carries broken front events =>
    have hfront : itemsOf carried finished <+: itemsOf frames' finish' := by
      rw [hitems]
      exact front.trans (List.prefix_append _ _)
    rcases ends with rfl | ⟨rfl, hfailed⟩
    · rw [push_closed transport, update_self]
      refine .cut queue .closed sent ?_ (.inl rfl) before carried finished carries
        (broken.sends rfl rfl fun _ => rfl) hfront events
      rw [SocketCall.sends]
      split <;> exact transport
    · refine .cut queue .opened (sent ++ [item.frame]) ?_ (.inr ⟨rfl, hfailed⟩) before carried
        finished carries (broken.sends rfl rfl fun hnone => ?_) hfront events
      · rw [SocketCall.sends, if_pos hfailed, Link.update, transport]
        rfl
      · rw [hnone] at hfailed
        cases hfailed

omit [Unicode] [BrowserHeaders M] in
/-- What is on its way once the server has taken the headers. -/
theorem Carries.items {l : Link M} (h : Carries headerBytes metadata frames finish l) :
    Items l := by
  intro htaken
  cases h with
  | queued _ header | opened _ _ header =>
    rw [header] at htaken
    cases htaken
  | reading queue done rest transport header reading =>
    exact ⟨reading.remainingError, rest, reading.wire⟩

/-- The server takes the first message. -/
theorem Described.accept (henc : headersToBytes metadata = .ok headerBytes)
    (h : Described headerBytes metadata frames finish s events) (hbinary : s.firstIsBinary = true)
    {l : Link M} (hl : s.toLink.step .accept = some l) :
    Described headerBytes metadata frames finish { s with toLink := l } events := by
  cases h with
  | live carries up events => exact .live (carries.step henc (by simp) hl) up events
  | cut queue state sent transport ends before carried finished carries broken front events =>
    obtain ⟨before', hbefore, hbroken⟩ := broken.accept hbinary hl
    exact .cut queue state sent ((transport_of_step (.inl rfl) hl).trans transport) ends before'
      carried finished (carries.step henc (by simp) hbefore) hbroken front events

/-- **The handler reads.** -/
theorem Described.read (henc : headersToBytes metadata = .ok headerBytes)
    (h : Described headerBytes metadata frames finish s events) {n : ℕ} {l : Link M}
    (hl : s.toLink.step (.read n) = some l) :
    Described headerBytes metadata frames finish { s with toLink := l } events := by
  cases h with
  | live carries up events => exact .live (carries.step henc (by simp) hl) up events
  | cut queue state sent transport ends before carried finished carries broken front events =>
    have htransport := (transport_of_step (.inr ⟨n, rfl⟩) hl).trans transport
    obtain ⟨before', rfl | hbefore, hbroken⟩ := broken.read carries.items hl
    · exact .cut queue state sent htransport ends before' carried finished carries hbroken front
        events
    · exact .cut queue state sent htransport ends before' carried finished
        (carries.step henc (by simp) hbefore) hbroken front events

/-- The socket opens. -/
theorem Described.opens (henc : headersToBytes metadata = .ok headerBytes)
    (h : Described headerBytes metadata frames finish s events) {l : Link M}
    (hl : s.toLink.step .opens = some l) :
    Described headerBytes metadata frames finish { s with toLink := l } events := by
  cases h with
  | live carries up events => exact .live (carries.opens henc hl) up events
  | cut queue state sent transport ends =>
    rcases ends with rfl | ⟨rfl, -⟩ <;> simp [Link.step, transport, WebsocketTransport.step] at hl

omit [Unicode] [BrowserHeaders M] in
theorem Carries.transport_eq {l : Link M} (h : Carries headerBytes metadata frames finish l) :
    ∃ queue state sent, l.transport = ⟨queue, [⟨metadata, state, sent⟩]⟩ ∧
      (state = .connecting ∨ state = .opened) := by
  cases h with
  | queued transport => exact ⟨_, _, _, transport, .inl rfl⟩
  | opened queue transport => exact ⟨_, _, _, transport, .inr rfl⟩
  | reading queue done rest transport => exact ⟨_, _, _, transport, .inr rfl⟩

/-- The socket closes. -/
theorem Described.closes (h : Described headerBytes metadata frames finish s events)
    {t : WebsocketTransport M} (ht : s.transport.step (.closes 0) = some t) :
    Described headerBytes metadata frames finish { s with transport := t }
      (events ++ [.onEnd]) := by
  have hclosed {queue : List Queued} {state : ReadyState} {sent : List Bytes}
      (transport : s.transport = ⟨queue, [⟨metadata, state, sent⟩]⟩) (hstate : state ≠ .closed) :
      t = ⟨queue, [⟨metadata, .closed, sent⟩]⟩ := by
    simp only [transport, WebsocketTransport.step, List.getElem?_cons_zero, if_neg hstate] at ht
    cases ht
    rfl
  cases h with
  | live carries up events =>
    obtain ⟨queue, state, sent, transport, hstate⟩ := carries.transport_eq
    refine .cut queue .closed sent (hclosed transport ?_) (.inl rfl) s.toLink frames finish carries
      (.whole (by rw [up]; rfl) rfl rfl rfl) (List.prefix_refl _) ?_
    · rcases hstate with rfl | rfl <;> simp
    · rw [events]
      rfl
  | cut queue state sent transport ends before carried finished carries broken front events =>
    rcases ends with rfl | ⟨rfl, -⟩
    · simp [transport, WebsocketTransport.step] at ht
    · refine .cut queue .closed sent (hclosed transport (by simp)) (.inl rfl) before carried
        finished carries (broken.congr rfl rfl rfl) front ?_
      rw [events]
      simp
      rfl

omit [BrowserHeaders M] in
/-- The connection fails. -/
theorem Described.fails (h : Described headerBytes metadata frames finish s events)
    (hconnected : s.connected = true) (reached arriving : ℕ) (part : Option ℕ) (err : GoError) :
    Described headerBytes metadata frames finish (s.failConnection reached arriving part err)
      events := by
  cases h with
  | live carries up events =>
    obtain ⟨queue, state, sent, transport, hstate⟩ := carries.transport_eq
    obtain rfl : state = .opened := by
      refine hstate.resolve_left fun hconnecting => ?_
      simp [SocketCall.connected, transport, hconnecting] at hconnected
    rw [SocketCall.failConnection, up]
    refine .cut queue .opened sent transport (.inr ⟨rfl, rfl⟩) s.toLink frames finish carries
      ((Broken.whole rfl rfl rfl rfl : Broken false s.toLink s.toLink).fails arriving part err)
      (List.prefix_refl _) ?_
    rw [events]
    simp
    rfl
  | cut queue state sent transport ends before carried finished carries broken front events =>
    rw [SocketCall.failConnection]
    rcases hfailed : s.failedAt with _ | n
    · rw [hfailed] at broken ends
      exact .cut queue state sent transport (ends.imp_right fun h => by cases h.2) before carried
        finished carries (broken.fails arriving part err) front events
    · rw [hfailed] at broken ends
      exact .cut queue state sent transport (ends.imp_right fun h => ⟨h.1, by simp⟩) before
        carried finished carries (by simpa [hfailed] using broken.failsAgain err) front events

omit [BrowserHeaders M] in
/-- The client has been given the messages, and the end when its socket has closed. -/
theorem Described.events_eq (h : Described headerBytes metadata frames finish s events) :
    events = s.chunks ∨ events = s.chunks ++ [.onEnd] := by
  cases h with
  | live carries up events => exact .inl events
  | cut queue state sent transport ends before carried finished carries broken front events =>
    rw [events]
    split
    · exact .inr rfl
    · exact .inl (List.append_nil _)

/-! ## The response grows -/

namespace SocketCall

omit [Unicode] [BrowserHeaders M] in
@[simp] theorem calls_sends (s : SocketCall M) (l : Link M) : (s.sends l).calls = l.calls := by
  unfold sends
  split <;> rfl

omit [Unicode] [BrowserHeaders M] in
/-- A failure concerns the reader alone. -/
theorem exists_failConnection (s : SocketCall M) (reached arriving : ℕ) (part : Option ℕ)
    (err : GoError) : ∃ reader failedAt, s.failConnection reached arriving part err =
      { s with reader := reader, failedAt := failedAt } := by
  unfold failConnection
  split <;> exact ⟨_, _, rfl⟩

omit [BrowserHeaders M] in
theorem response_op (hclose : s.close = none) (op : HandlerOp × LoopOrders) :
    s.response <+: ({ s with run := s.run ++ [op] } : SocketCall M).response := by
  simp only [response, hclose, List.foldl_append, List.foldl_cons, List.foldl_nil,
    WebSocketResponseWriter.sent_step]
  exact List.prefix_append _ _

omit [BrowserHeaders M] in
theorem response_finish (hclose : s.close = none) (orders : LoopOrders) :
    s.response <+: ({ s with close := some orders } : SocketCall M).response := by
  simp only [response, hclose]
  exact List.prefix_append _ _

omit [BrowserHeaders M] in
/-- More messages of the response do not change what has been received. -/
theorem chunks_of_prefix {t : SocketCall M} (hs : s.delivered ≤ s.response.length)
    (hresponse : s.response <+: t.response) (hdelivered : t.delivered = s.delivered) :
    t.chunks = s.chunks := by
  obtain ⟨more, hmore⟩ := hresponse
  rw [chunks, chunks, ← hmore, hdelivered, List.take_append_of_le_length hs]

omit [BrowserHeaders M] in
/-- The next message. -/
theorem chunks_message {b : Bytes} (hb : s.response[s.delivered]? = some b) :
    ({ s with delivered := s.delivered + 1 } : SocketCall M).chunks = s.chunks ++ [.onChunk b] := by
  have hresponse : ({ s with delivered := s.delivered + 1 } : SocketCall M).response = s.response :=
    rfl
  rw [chunks, chunks, hresponse, List.take_add_one, hb]
  simp

end SocketCall

omit [BrowserHeaders M] in
/-- The handler goes on. -/
theorem Described.grow (h : Described headerBytes metadata frames finish s events)
    {t : SocketCall M} (hlink : t.toLink = s.toLink) (hfailed : t.failedAt = s.failedAt)
    (hchunks : t.chunks = s.chunks) : Described headerBytes metadata frames finish t events := by
  cases h with
  | live carries up events =>
    exact .live (hlink ▸ carries) (hfailed.trans up) (events.trans hchunks.symm)
  | cut queue state sent transport ends before carried finished carries broken front events =>
    exact .cut queue state sent (hlink ▸ transport) (hfailed ▸ ends) before carried finished carries
      (hlink ▸ hfailed ▸ broken) front (by rw [events, hchunks])

/-! ## The invariant -/

namespace SocketInv

theorem init : SocketInv ({} : SocketCall M) [] where
  fresh _ := ⟨rfl, rfl⟩
  delivered := Nat.zero_le _
  described _ _ _ _ hreq _ := by simp [requestCalls] at hreq

omit [Unicode] in
/-- Nothing but a call happens on a link that is new. -/
theorem calls_of_step {l l' : Link M} {a : Link.Action M} (ha : ∀ c, a ≠ .call c)
    (h : l.step a = some l') : l'.calls = l.calls ∧ l ≠ {} := by
  cases a with
  | call c => exact absurd rfl (ha c)
  | opens =>
    obtain ⟨t, ht, rfl⟩ := Option.map_eq_some_iff.1 h
    refine ⟨rfl, ?_⟩
    rintro rfl
    cases ht
  | accept =>
    simp only [Link.step] at h
    split at h <;> cases h
    rename_i hwire
    refine ⟨rfl, ?_⟩
    rintro rfl
    cases hwire
  | read n =>
    simp only [Link.step] at h
    split at h
    · cases h
    · rename_i hheader
      obtain ⟨r, -, rfl⟩ := Option.map_eq_some_iff.1 h
      refine ⟨rfl, ?_⟩
      rintro rfl
      cases hheader

omit [Unicode] [BrowserHeaders M] in
theorem close_of_handling (h : s.handling = true) : s.close = none := by
  simp only [SocketCall.handling, Bool.and_eq_true, Option.isNone_iff_eq_none] at h
  exact h.2

/-- A step that changes the link, and not by a call. -/
theorem ofLink (h : SocketInv s events) {a : Link.Action M} (ha : ∀ c, a ≠ .call c) {l : Link M}
    (hl : s.toLink.step a = some l)
    (hdescribed : ∀ {headerBytes metadata frames finish},
      headersToBytes metadata = .ok headerBytes →
      Described headerBytes metadata frames finish s events →
      Described headerBytes metadata frames finish { s with toLink := l } events) :
    SocketInv { s with toLink := l } events := by
  obtain ⟨hcalls, hnew⟩ := calls_of_step ha hl
  refine ⟨fun hnil => ?_, h.delivered, fun _ _ _ _ hreq henc => ?_⟩
  · obtain ⟨rfl, -⟩ := h.fresh (hcalls ▸ hnil)
    exact absurd rfl hnew
  · exact hdescribed henc (h.described _ _ _ _ (hcalls ▸ hreq) henc)

/-- The client calls the transport. -/
theorem call (h : SocketInv s events) (c : TransportCall M) {l : Link M}
    (hl : s.toLink.step (.call c) = some l) : SocketInv (s.sends l) events := by
  cases hl
  refine ⟨fun hnil => absurd hnil (by simp), h.delivered,
    fun metadata frames finish headerBytes hreq henc => ?_⟩
  rw [SocketCall.calls_sends] at hreq
  rcases concat_eq_requestCalls hreq with
    ⟨rfl, hnil, rfl, rfl⟩ | ⟨earlier, b, rfl, rfl, rfl, heq⟩ | ⟨rfl, rfl, heq⟩
  · obtain ⟨rfl, rfl⟩ := h.fresh hnil
    exact .live (.queued rfl rfl rfl rfl) rfl rfl
  · have hitems : itemsOf (earlier ++ [b]) false = itemsOf earlier false ++ [.message b] := by
      simp [itemsOf]
    exact (h.described _ _ _ _ heq henc).push hitems _
  · have hitems : itemsOf frames true = itemsOf frames false ++ [.finishSend] := by simp [itemsOf]
    exact (h.described _ _ _ _ heq henc).push hitems _

/-- The socket opens, a message comes, or it closes. -/
theorem move (h : SocketInv s events) {m : SocketMove}
    {r : SocketCall M × Option (TransportEvent M)} (hr : s.move m = some r) :
    SocketInv r.1 (events ++ r.2.toList) := by
  cases m with
  | opens =>
    obtain ⟨l, hl, rfl⟩ := Option.map_eq_some_iff.1 hr
    rw [Option.toList_none, List.append_nil]
    exact h.ofLink (by simp) hl fun henc hd => hd.opens henc hl
  | message =>
    simp only [SocketCall.move] at hr
    split at hr
    · rename_i ws earlier b hsockets hb
      split at hr <;> cases hr
      rename_i hopened
      have hopened : ws.readyState = .opened := hopened.1
      have hlt : s.delivered < s.response.length := (List.getElem?_eq_some_iff.1 hb).1
      refine ⟨fun hnil => ?_, hlt, fun metadata frames finish headerBytes hreq henc => ?_⟩
      · obtain ⟨rfl, -⟩ := h.fresh hnil
        cases hsockets
      · cases h.described _ _ _ _ hreq henc with
        | live carries up events =>
          refine .live carries up ?_
          rw [events, SocketCall.chunks_message hb]
          rfl
        | cut queue state sent transport ends before carried finished carries broken front events =>
          rw [transport] at hsockets
          cases hsockets
          obtain rfl : state = .opened := hopened
          refine .cut queue .opened sent transport ends before carried finished carries broken front
            ?_
          rw [events, SocketCall.chunks_message hb]
          simp
    · cases hr
  | closes =>
    obtain ⟨t, ht, rfl⟩ := Option.map_eq_some_iff.1 hr
    refine ⟨fun hnil => ?_, h.delivered, fun _ _ _ _ hreq henc => ?_⟩
    · obtain ⟨rfl, -⟩ := h.fresh hnil
      cases ht
    · exact (h.described _ _ _ _ hreq henc).closes ht

/-- The handler has done more. -/
theorem grow (h : SocketInv s events) (hrun : s.handling = true) {t : SocketCall M}
    (hlink : t.toLink = s.toLink) (hfailed : t.failedAt = s.failedAt)
    (hdelivered : t.delivered = s.delivered) (hresponse : s.response <+: t.response) :
    SocketInv t events := by
  have hchunks := SocketCall.chunks_of_prefix h.delivered hresponse hdelivered
  refine ⟨fun hnil => ?_, ?_, fun _ _ _ _ hreq henc => ?_⟩
  · obtain ⟨rfl, -⟩ := h.fresh (hlink ▸ hnil)
    cases hrun
  · rw [hdelivered]
    exact h.delivered.trans hresponse.length_le
  · exact (h.described _ _ _ _ (hlink ▸ hreq) henc).grow hlink hfailed hchunks

theorem serve (h : SocketInv s events) {b : ServerMove} {t : SocketCall M}
    (ht : s.serve b = some t) : SocketInv t events := by
  cases b with
  | accept =>
    obtain ⟨hbinary, ht⟩ := Option.ite_none_right_eq_some.1 ht
    obtain ⟨l, hl, rfl⟩ := Option.map_eq_some_iff.1 ht
    exact h.ofLink (by simp) hl fun henc hd => hd.accept henc hbinary hl
  | read n =>
    obtain ⟨-, ht⟩ := Option.ite_none_right_eq_some.1 ht
    obtain ⟨l, hl, rfl⟩ := Option.map_eq_some_iff.1 ht
    exact h.ofLink (by simp) hl fun henc hd => hd.read henc hl
  | op op =>
    obtain ⟨hrun, rfl⟩ := Option.ite_none_right_eq_some.1 ht |>.imp_right Option.some.inj
    exact h.grow hrun rfl rfl rfl (SocketCall.response_op (close_of_handling hrun) op)
  | finish orders =>
    obtain ⟨hrun, rfl⟩ := Option.ite_none_right_eq_some.1 ht |>.imp_right Option.some.inj
    exact h.grow hrun rfl rfl rfl (SocketCall.response_finish (close_of_handling hrun) orders)
  | fails arriving part err =>
    obtain ⟨hconnected, rfl⟩ := Option.ite_none_right_eq_some.1 ht |>.imp_right Option.some.inj
    have hfails {headerBytes : Bytes} {metadata : M} {frames : List Bytes} {finish : Bool}
        (hd : Described headerBytes metadata frames finish s events) :=
      hd.fails hconnected s.response.length arriving part err
    obtain ⟨reader, failedAt, heq⟩ :=
      s.exists_failConnection s.response.length arriving part err
    rw [heq] at hfails ⊢
    refine ⟨fun hnil => ?_, h.delivered, fun _ _ _ _ hreq henc => ?_⟩
    · obtain ⟨rfl, -⟩ := h.fresh hnil
      cases hconnected
    · exact hfails (h.described _ _ _ _ hreq henc)

/-- **A step of the client's side.** -/
theorem record {r t : SocketCall M × List (TransportEvent M)} (h : SocketInv r.1 r.2)
    {b : TransportAction M SocketMove}
    (ht : SocketCall.socketTransport.record r b = some t) : SocketInv t.1 t.2 := by
  obtain ⟨e, he, hevents⟩ := recording_eq_some.1 ht
  obtain ⟨s, events⟩ := r
  obtain ⟨t, given⟩ := t
  simp only at hevents
  subst hevents
  cases b with
  | call c =>
    have hnone : SocketCall.socketTransport.answer s c = none := by cases c <;> rfl
    simp only [Transport.step, hnone] at he
    cases he
    rw [Option.toList_none, List.append_nil]
    exact h.call c rfl
  | move m => exact h.move he
  | returns =>
    cases he
    rwa [Option.toList_none, List.append_nil]
  | throws e =>
    cases he
    rwa [Option.toList_none, List.append_nil]

/-- **Every step of the system** keeps the invariant. -/
theorem step {methodDefinition : MethodDefinition Req Res} {x y : Exchange M Res (SocketCall M)}
    (h : SocketInv x.transport x.events) {a : SocketAction M Req}
    (hstep : SocketCall.step methodDefinition x a = some y) : SocketInv y.transport y.events := by
  cases a with
  | exchange a =>
    have hreach := Exchange.reaches_transport_step (List.mem_singleton_self a) hstep
    exact hreach.invariant (P := fun r => SocketInv r.1 r.2) (fun _ _ _ hr _ ht => hr.record ht) h
  | server b =>
    obtain ⟨t, ht, rfl⟩ := Option.map_eq_some_iff.1 hstep
    exact h.serve ht

end SocketInv

/-! ## Runs -/

/-- A client on a new transport. -/
def socketExchange (s : Session M Res) : Exchange M Res (SocketCall M) where
  session := s
  transport := {}

/-- What the handler does in a run. -/
def handlerOps (as : List (SocketAction M Req)) : List HandlerOp :=
  as.filterMap fun a => match a with
    | .server (.op op) => some op.1
    | _ => none

theorem run_of_record {r t : SocketCall M × List (TransportEvent M)}
    {b : TransportAction M SocketMove} (ht : SocketCall.socketTransport.record r b = some t) :
    t.1.run = r.1.run ∧ t.1.close = r.1.close := by
  obtain ⟨e, he, -⟩ := recording_eq_some.1 ht
  obtain ⟨t, given⟩ := t
  cases b with
  | call c =>
    simp only [Transport.step] at he
    cases he
    exact ⟨rfl, rfl⟩
  | move m =>
    cases m with
    | opens =>
      obtain ⟨l, hl, heq⟩ := Option.map_eq_some_iff.1 he
      cases heq
      exact ⟨rfl, rfl⟩
    | message =>
      simp only [Transport.step, SocketCall.socketTransport, SocketCall.move] at he
      split at he
      · split at he <;> cases he
        exact ⟨rfl, rfl⟩
      · cases he
    | closes =>
      obtain ⟨u, hu, heq⟩ := Option.map_eq_some_iff.1 he
      cases heq
      exact ⟨rfl, rfl⟩
  | returns =>
    cases he
    exact ⟨rfl, rfl⟩
  | throws e =>
    cases he
    exact ⟨rfl, rfl⟩

variable {methodDefinition : MethodDefinition Req Res} {x y : Exchange M Res (SocketCall M)}
  {l : Listener} {as : List (SocketAction M Req)}

theorem handler_of_exec {s : Session M Res}
    (h : exec (SocketCall.step methodDefinition) (socketExchange s) as = some y) :
    y.transport.run.map Prod.fst = handlerOps as ∧
      ∀ orders ∈ y.transport.close, .server (.finish orders) ∈ as := by
  have hstart : (socketExchange s : Exchange M Res (SocketCall M)).transport.run.map Prod.fst =
        handlerOps ([] : List (SocketAction M Req)) ∧
      ∀ orders ∈ (socketExchange s : Exchange M Res (SocketCall M)).transport.close,
        .server (.finish orders) ∈ ([] : List (SocketAction M Req)) :=
    ⟨rfl, fun _ ho => by cases ho⟩
  refine exec_history (P := fun past (x : Exchange M Res (SocketCall M)) =>
    x.transport.run.map Prod.fst = handlerOps past ∧
      ∀ orders ∈ x.transport.close, .server (.finish orders) ∈ past)
    (fun past x a z hx hstep => ?_) hstart h
  obtain ⟨hrun, hclose⟩ := hx
  rw [handlerOps, List.filterMap_append, ← handlerOps, ← hrun]
  cases a with
  | exchange a =>
    have hsame : z.transport.run = x.transport.run ∧ z.transport.close = x.transport.close :=
      (Exchange.reaches_transport_step (List.mem_singleton_self a) hstep).invariant
        (P := fun r => r.1.run = x.transport.run ∧ r.1.close = x.transport.close)
        (fun _ _ _ hr _ ht => ⟨(run_of_record ht).1.trans hr.1, (run_of_record ht).2.trans hr.2⟩)
        ⟨rfl, rfl⟩
    rw [hsame.1, hsame.2]
    exact ⟨(List.append_nil _).symm, fun o ho => List.mem_append_left _ (hclose o ho)⟩
  | server b =>
    obtain ⟨t, ht, rfl⟩ := Option.map_eq_some_iff.1 hstep
    cases b with
    | accept =>
      obtain ⟨-, ht⟩ := Option.ite_none_right_eq_some.1 ht
      obtain ⟨l, -, rfl⟩ := Option.map_eq_some_iff.1 ht
      exact ⟨(List.append_nil _).symm, fun o ho => List.mem_append_left _ (hclose o ho)⟩
    | read n =>
      obtain ⟨-, ht⟩ := Option.ite_none_right_eq_some.1 ht
      obtain ⟨l, -, rfl⟩ := Option.map_eq_some_iff.1 ht
      exact ⟨(List.append_nil _).symm, fun o ho => List.mem_append_left _ (hclose o ho)⟩
    | op op =>
      obtain ⟨-, rfl⟩ := Option.ite_none_right_eq_some.1 ht |>.imp_right Option.some.inj
      exact ⟨by simp, fun o ho => List.mem_append_left _ (hclose o ho)⟩
    | finish orders =>
      obtain ⟨-, rfl⟩ := Option.ite_none_right_eq_some.1 ht |>.imp_right Option.some.inj
      refine ⟨(List.append_nil _).symm, fun o ho => ?_⟩
      cases ho
      simp
    | fails arriving part err =>
      obtain ⟨-, rfl⟩ := Option.ite_none_right_eq_some.1 ht |>.imp_right Option.some.inj
      obtain ⟨reader, failedAt, heq⟩ :=
        x.transport.exists_failConnection x.transport.response.length arriving part err
      simp only [heq]
      exact ⟨(List.append_nil _).symm, fun o ho => List.mem_append_left _ (hclose o ho)⟩

/-- The calls that the transport has received. -/
theorem keeps_calls :
    Exchange.Keeps (SocketCall.socketTransport (M := M)) fun s cs => s.calls = cs where
  call hs h := by
    cases h
    rw [SocketCall.calls_sends, ← hs]
  move {t cs m r} hs h := by
    cases m with
    | opens =>
      obtain ⟨l, hl, rfl⟩ := Option.map_eq_some_iff.1 h
      exact (SocketInv.calls_of_step (by simp) hl).1.trans hs
    | message =>
      simp only [SocketCall.socketTransport, SocketCall.move] at h
      split at h
      · split at h <;> cases h
        exact hs
      · cases h
    | closes =>
      obtain ⟨u, hu, rfl⟩ := Option.map_eq_some_iff.1 h
      exact hs
  returns hs := hs
  throws _ hs := hs

theorem calls_of_serve {s t : SocketCall M} {b : ServerMove} (h : s.serve b = some t) :
    t.calls = s.calls := by
  cases b with
  | accept =>
    obtain ⟨-, h⟩ := Option.ite_none_right_eq_some.1 h
    obtain ⟨l, hl, rfl⟩ := Option.map_eq_some_iff.1 h
    exact (SocketInv.calls_of_step (by simp) hl).1
  | read n =>
    obtain ⟨-, h⟩ := Option.ite_none_right_eq_some.1 h
    obtain ⟨l, hl, rfl⟩ := Option.map_eq_some_iff.1 h
    exact (SocketInv.calls_of_step (by simp) hl).1
  | op op =>
    obtain ⟨-, rfl⟩ := Option.ite_none_right_eq_some.1 h |>.imp_right Option.some.inj
    rfl
  | finish orders =>
    obtain ⟨-, rfl⟩ := Option.ite_none_right_eq_some.1 h |>.imp_right Option.some.inj
    rfl
  | fails arriving part err =>
    obtain ⟨-, rfl⟩ := Option.ite_none_right_eq_some.1 h |>.imp_right Option.some.inj
    obtain ⟨reader, failedAt, heq⟩ := s.exists_failConnection s.response.length arriving part err
    rw [heq]

/-- **A run of the system**: the calls and the events are those of the invariant. -/
theorem socketInv_of_exec {s : Session M Res} (hlog : s.log = [])
    (h : exec (SocketCall.step methodDefinition) (socketExchange s) as = some y) :
    SocketInv y.transport y.events ∧ y.transport.calls = transportCalls y.session.log := by
  refine exec_preserves (P := fun x : Exchange M Res (SocketCall M) =>
    SocketInv x.transport x.events ∧ x.transport.calls = transportCalls x.session.log)
    (fun x a z hx hstep => ⟨hx.1.step hstep, ?_⟩) ⟨.init, ?_⟩ h
  · cases a with
    | exchange a => exact keeps_calls.step hx.2 hstep
    | server b =>
      obtain ⟨t, ht, rfl⟩ := Option.map_eq_some_iff.1 hstep
      exact (calls_of_serve ht).trans hx.2
  · rw [socketExchange, hlog]
    rfl

/-- What a listener is shown. -/
theorem view_of_exec {s : Session M Res} (hs : Awaiting l s)
    (hclose : .exchange (.client (.call .close)) ∉ as)
    (h : exec (SocketCall.step methodDefinition) (socketExchange s) as = some y)
    (hidle : y.session.stack = []) :
    l.view y.session.log = (receive methodDefinition y.events : Reception M Res).seen := by
  have hstart : Exchange.Faithful methodDefinition l (socketExchange s) := by
    refine ⟨hs.listening, ?_⟩
    rw [Session.outcome, socketExchange, hs.stack, List.foldl_nil, hs.reception]
    rfl
  have hend : Exchange.Faithful methodDefinition l y :=
    exec_preserves_along (fun x a z hx (ha : a ∈ as) hstep => by
      cases a with
      | exchange a =>
        refine hx.step (fun heq => hclose ?_) hstep
        rw [← heq]
        exact ha
      | server b =>
        obtain ⟨t, -, rfl⟩ := Option.map_eq_some_iff.1 hstep
        exact ⟨hx.listening, hx.outcome⟩) hstart along_mem h
  have houtcome := hend.outcome
  rw [Session.outcome, hidle, List.foldl_nil] at houtcome
  rw [← houtcome]
  rfl

/-! ## The request -/

omit [Unicode] [BrowserHeaders M] in
/-- **What the handler has read** of the items that were sent. -/
theorem Carries.reads {l : Link M} (h : Carries headerBytes metadata frames finish l) :
    (∀ block ∈ l.header, block = headerBytes) ∧ bytesOf l.results <+: frames.flatten ∧
      (AllRead l → bytesOf l.results = frames.flatten) ∧ l.reader.canceled = false ∧
      ∀ r ∈ l.results, ∀ e ∈ r.err, e = .eof ∧ bytesOf l.results = frames.flatten ∧
        Queued.finishSend ∈ itemsOf frames finish := by
  have unread (hheader : l.header = none) (hresults : l.results = [])
      (hcanceled : l.reader.canceled = false) :
      (∀ block ∈ l.header, block = headerBytes) ∧ bytesOf l.results <+: frames.flatten ∧
        (AllRead l → bytesOf l.results = frames.flatten) ∧ l.reader.canceled = false ∧
        ∀ r ∈ l.results, ∀ e ∈ r.err, e = .eof ∧ bytesOf l.results = frames.flatten ∧
          Queued.finishSend ∈ itemsOf frames finish := by
    rw [hheader, hresults]
    refine ⟨nofun, List.nil_prefix, fun hall => ?_, hcanceled, nofun⟩
    have hsome := hall.1
    rw [hheader] at hsome
    cases hsome
  cases h with
  | queued transport header reader results => exact unread header results (by rw [reader])
  | opened queue transport header reader results => exact unread header results (by rw [reader])
  | reading queue done rest transport header reading =>
    have hsplit : frames.flatten =
        bytesOf l.results ++ (l.reader.remainingBuffer.getD [] ++ rest.flatMap payload) := by
      rw [← payload_itemsOf frames finish, reading.split, List.flatMap_append, ← reading.bytes,
        List.append_assoc]
    refine ⟨?_, ?_, ?_, reading.canceled, fun r hr e he => ?_⟩
    · rw [header]
      rintro block ⟨⟩
      rfl
    · rw [hsplit]
      exact List.prefix_append _ _
    · rintro ⟨-, hwire, hbuffer⟩
      rw [reading.wire, List.map_eq_nil_iff] at hwire
      rw [hsplit, hbuffer, hwire]
      simp
    · rcases reading.errors r hr with hnone | ⟨heof, hbuffer, before, rfl⟩
      · rw [hnone] at he
        cases he
      · have hitems := reading.split
        rw [List.append_assoc, List.singleton_append] at hitems
        obtain rfl := eq_nil_of_finishSend hitems
        rw [heof] at he
        refine ⟨(Option.some.inj he).symm, ?_, by simp [hitems]⟩
        rw [hsplit, hbuffer]
        simp

omit [Unicode] [BrowserHeaders M] in
/-- What the handler has read, and what is still on its way, is what was sent. -/
theorem Carries.conserves {l : Link M} (h : Carries headerBytes metadata frames finish l)
    (htaken : l.header.isSome = true) (hbuffer : l.reader.remainingBuffer = none) :
    bytesOf l.results ++ l.reader.wsConn.flatMap ConnRead.data = frames.flatten := by
  cases h with
  | queued _ header | opened _ _ header =>
    rw [header] at htaken
    cases htaken
  | reading queue done rest transport header reading =>
    have hbytes := reading.bytes
    rw [hbuffer, Option.getD_none, List.append_nil] at hbytes
    rw [← payload_itemsOf frames finish, reading.split, List.flatMap_append, ← hbytes, reading.wire,
      List.flatMap_map]
    simp only [data_toRead]

/-- **The handler reads the request**, in every run of client, socket and server in which the client
has made the calls of a request with metadata that can be encoded, also when the socket closes
early or the connection fails: the first message is the header block, and what has been read is a
front part of the frames. The request is cancelled only by the failure of the connection, which
alone causes errors but `io.EOF`; and unless it has been cancelled, `io.EOF` comes behind all of the
frames and only if the client has finished sending. -/
theorem socket_call_request {s : Session M Res} (hlog : s.log = [])
    (h : exec (SocketCall.step methodDefinition) (socketExchange s) as = some y)
    (hcalls : transportCalls y.session.log = requestCalls metadata frames finish)
    (henc : headersToBytes metadata = .ok headerBytes) :
    (∀ block ∈ y.transport.header, block = headerBytes) ∧
      bytesOf y.transport.results <+: frames.flatten ∧
      (.onEnd ∉ y.events → y.transport.failedAt = none → AllRead y.transport.toLink →
        bytesOf y.transport.results = frames.flatten) ∧
      (y.transport.reader.canceled = true → y.transport.failedAt.isSome = true) ∧
      ∀ r ∈ y.transport.results, ∀ e ∈ r.err,
        (e = .eof ∨ y.transport.failedAt.isSome = true) ∧
        (e = .eof → y.transport.reader.canceled = false →
          bytesOf y.transport.results = frames.flatten ∧ finish = true) := by
  obtain ⟨hinv, hmade⟩ := socketInv_of_exec hlog h
  cases hinv.described _ _ _ _ (hmade.trans hcalls) henc with
  | live carries up events =>
    obtain ⟨hheader, hbytes, hall, hcanceled, hend⟩ := carries.reads
    refine ⟨hheader, hbytes, fun _ _ => hall, fun hcancel => ?_, fun r hr e he => ?_⟩
    · rw [hcanceled] at hcancel
      cases hcancel
    · obtain ⟨heof, hwhole, hfinish⟩ := hend r hr e he
      exact ⟨.inl heof, fun _ _ => ⟨hwhole, finishSend_mem_itemsOf.1 hfinish⟩⟩
  | cut queue state sent transport ends before carried finished carries broken front events =>
    obtain ⟨hheader, hbytes, -, hcanceled, hend⟩ := carries.reads
    obtain ⟨more, hresults, hmore⟩ := broken.results_eq
    have hcarried : bytesOf y.transport.results <+: carried.flatten := by
      rcases hmore with rfl | ⟨-, htaken, hbuffer, hdata, -⟩
      · rw [hresults, List.append_nil]
        exact hbytes
      · rw [hresults, bytesOf, List.flatMap_append, ← carries.conserves htaken hbuffer]
        exact List.prefix_append_right_inj _ |>.2 hdata
    have hfront : carried.flatten <+: frames.flatten := by
      obtain ⟨rest, hrest⟩ := front
      rw [← payload_itemsOf frames finish, ← hrest, List.flatMap_append, payload_itemsOf]
      exact List.prefix_append _ _
    -- nothing follows the finish signal, so a request that has been read to its end is whole
    have hlast (hsignal : Queued.finishSend ∈ itemsOf carried finished) :
        carried.flatten = frames.flatten ∧ finish = true := by
      obtain ⟨rest, hrest⟩ := front
      obtain rfl := finishSend_mem_itemsOf.1 hsignal
      have hsplit : itemsOf frames finish = carried.map .message ++ .finishSend :: rest := by
        rw [← hrest]
        simp [itemsOf]
      obtain rfl := eq_nil_of_finishSend hsplit
      have hmem : Queued.finishSend ∈ itemsOf frames finish := by
        rw [hsplit]
        simp
      refine ⟨?_, finishSend_mem_itemsOf.1 hmem⟩
      rw [← payload_itemsOf frames finish, ← payload_itemsOf carried true, ← hrest, List.append_nil]
    refine ⟨broken.header_eq ▸ hheader, hcarried.trans hfront, fun hopen hup => ?_,
      broken.down_of_canceled hcanceled, fun r hr e he => ?_⟩
    · obtain rfl : state = .closed := by
        refine ends.resolve_right fun hfailed => ?_
        rw [hup] at hfailed
        cases hfailed.2
      exact absurd (by simp [events]) hopen
    · rw [hresults] at hr
      rcases List.mem_append.1 hr with hold | hnew
      · obtain ⟨heof, hwhole, hsignal⟩ := hend r hold e he
        obtain ⟨hall, hfinish⟩ := hlast hsignal
        refine ⟨.inl heof, fun _ _ => ⟨?_, hfinish⟩⟩
        -- what was read behind the end can be nothing
        have hback : bytesOf before.results <+: bytesOf y.transport.results := by
          rw [hresults, bytesOf, bytesOf, List.flatMap_append]
          exact List.prefix_append _ _
        rw [← hall]
        exact hcarried.eq_of_length_le (hwhole ▸ hback.length_le)
      · obtain ⟨hdown, -, -, -, hcancel⟩ := hmore.resolve_left (List.ne_nil_of_mem hnew)
        refine ⟨.inr hdown, fun heof hcanceled' => ?_⟩
        rw [hcancel r hnew (by rw [Option.mem_def.1 he, heof])] at hcanceled'
        cases hcanceled'

/-! ## The response -/

omit [BrowserHeaders M] in
/-- The messages that the server has sent are the first of the whole response. -/
theorem response_prefix {s : SocketCall M} {g : HandlerRun} {orders : LoopOrders}
    (hrun : s.run.map Prod.fst <+: g.ops)
    (hclose : ∀ o ∈ s.close, o = orders ∧ s.run.map Prod.fst = g.ops) :
    ∃ run : List (HandlerOp × LoopOrders), run.map Prod.fst = g.ops ∧
      s.response <+: handleGrpcWebsocketRequest run orders ∧
      (s.close.isSome = true → s.response = handleGrpcWebsocketRequest run orders) := by
  rcases hs : s.close with _ | o
  · obtain ⟨more, hmore⟩ := hrun
    refine ⟨s.run ++ more.map fun op => (op, orders), ?_, ?_, nofun⟩
    · rw [← hmore]
      simp [Function.comp_def]
    · have hsent : s.response <+: ((s.run ++ more.map fun op => (op, orders)).foldl
          WebSocketResponseWriter.step {}).sent := by
        rw [SocketCall.response, hs, List.foldl_append, messages_run (List.foldl _ _ _)]
        exact List.prefix_append _ _
      exact hsent.trans (List.prefix_append _ _)
  · obtain ⟨rfl, hwhole⟩ := hclose o hs
    have hresponse : s.response = handleGrpcWebsocketRequest s.run o := by
      rw [SocketCall.response, hs]
    exact ⟨s.run, hwhole, hresponse ▸ List.prefix_refl _, fun _ => hresponse⟩

variable [LawfulBrowserHeaders M] [LawfulUnicode]

/-- **The application is shown the response**, in every run of client, socket and server, wherever
the socket closes. Until it has closed, the application has been shown a front part of the headers
and messages of the handler; and then either all of them and the end of the handler, or a front part
and the status `Unknown`, and that not when the whole response had come. -/
theorem socket_call_response {s : Session M Res} (hs : Awaiting l s) (hlog : s.log = [])
    (hclose : .exchange (.client (.call .close)) ∉ as)
    (h : exec (SocketCall.step methodDefinition) (socketExchange s) as = some y)
    (hidle : y.session.stack = [])
    (hcalls : transportCalls y.session.log = requestCalls metadata frames finish)
    (henc : headersToBytes metadata = .ok headerBytes) {g : HandlerRun}
    (hmessage : g.MessagePrintable) (hops : handlerOps as <+: g.ops) {orders : LoopOrders}
    (hreturned : ∀ o, .server (.finish o) ∈ as → o = orders ∧ handlerOps as = g.ops)
    (hfirst : Framable (g.first orders)) (hblock : g.Started → g.trailerMap.write.length < 2 ^ 32)
    {messages : List Res} (hmessages : Deserializes methodDefinition g.payloads messages) :
    ∃ m trailers : M,
      BrowserHeaders.construct (.text (fromCharCodes (g.first orders).write)) = .ok m ∧
      (g.Started → g.HasFields trailers) ∧ (¬ g.Started → trailers = BrowserHeaders.copy m) ∧
      let shown := .headers (BrowserHeaders.copy m) :: messages.map .message
      (.onEnd ∉ y.events → l.view y.session.log <+: shown) ∧
      (.onEnd ∈ y.events →
        l.view y.session.log = shown ++ [.ended (.int g.grpcStatus) g.messageText trailers] ∨
        ¬ (y.transport.close.isSome = true ∧
            y.transport.delivered = y.transport.response.length) ∧
          ∃ front text t, front <+: shown ∧
            l.view y.session.log = front ++ [.ended (Code.unknown : Number) text t]) := by
  obtain ⟨hinv, hmade⟩ := socketInv_of_exec hlog h
  obtain ⟨hrun, hfinish⟩ := handler_of_exec h
  have hview := view_of_exec hs hclose h hidle
  have hclosed : ∀ o ∈ y.transport.close, o = orders ∧ y.transport.run.map Prod.fst = g.ops :=
    fun o ho => (hreturned o (hfinish o ho)).imp_right fun heq => hrun.trans heq
  obtain ⟨run, hwhole, hpart, hsent⟩ := response_prefix (hrun ▸ hops) hclosed
  obtain ⟨m, trailers, hm, hfields, hsame, hcut⟩ :=
    cut_socket (M := M) hmessage hwhole orders hfirst hblock hmessages
  have hchunks : y.transport.chunks =
      ((handleGrpcWebsocketRequest run orders).take y.transport.delivered).map .onChunk := by
    obtain ⟨more, hmore⟩ := hpart
    rw [SocketCall.chunks, ← hmore, List.take_append_of_le_length hinv.delivered]
  have hopen := hcut y.transport.delivered
  rw [← hchunks] at hopen
  refine ⟨m, trailers, hm, hfields, hsame, ?_⟩
  rcases (hinv.described _ _ _ _ (hmade.trans hcalls) henc).events_eq with events | events
  · refine ⟨fun _ => ?_, fun hend => ?_⟩
    · rw [hview, events]
      exact hopen.seen
    · rw [events, SocketCall.chunks] at hend
      obtain ⟨b, -, ⟨⟩⟩ := List.mem_map.1 hend
  · refine ⟨fun hend => absurd (by simp [events]) hend, fun _ => ?_⟩
    have hend : l.view y.session.log = (receive methodDefinition y.transport.chunks :
        Reception M Res).takeEnd.seen := by
      rw [hview, events, receive_concat]
      rfl
    rw [hend]
    refine hopen.takeEnd.imp_right fun ⟨hno, front, text, t, hfront, hseen⟩ =>
      ⟨fun ⟨hclosed, hall⟩ => hno ?_, front, text, t, hfront, hseen⟩
    rw [← hsent hclosed, hall]

end

/-! ## A run -/

section

local instance socketUnicode : Unicode := Unicode.byBytes

local instance socketLawful : LawfulUnicode := Unicode.lawful_byBytes

def socketMetadata : HeaderFields :=
  ⟨[(js "content-type", [js "application/grpc-web+proto"]), (js "x-grpc-web", [js "1"])]⟩

/-- Calls of `Header`, `Write` and `Flush`. -/
def socketOps (ops : List HandlerOp) : List (SocketAction HeaderFields Bytes) :=
  ops.map fun op => .server (.op (op, .of .sorted))

def socketEvents (as : List (ExchangeAction HeaderFields Bytes SocketMove)) :
    List (SocketAction HeaderFields Bytes) := as.map .exchange

/-- The second message is sent while the handler writes, which has read half of the first. -/
def socketRun : List (SocketAction HeaderFields Bytes) :=
  List.flatten [
    socketEvents [.client (.call (.start none)), .client (.call (.send [1])), .move .opens],
    [.server .accept, .server (.read 4)], socketOps (twoPieces.ops.take 2),
    socketEvents [.move .message, .client .tick, .handled, .client (.call (.send [2])),
      .move .message], socketEvents messageRun, [.server (.read 9), .server (.read 9)],
    socketOps (twoPieces.ops.drop 2), [.server (.finish (.of .sorted))],
    socketEvents [.move .message, .client .tick, .handled, .move .message],
    socketEvents messageRun, socketEvents [.move .message, .client .tick, .handled, .move .message],
    socketEvents trailersRun, socketEvents [.move .closes], socketEvents callbackRun,
    socketEvents [.handled]]

theorem socketRun_idle : ∃ y : Exchange HeaderFields Bytes (SocketCall HeaderFields),
    exec (SocketCall.step (bytesMethod true)) (socketExchange (Session.withCallbacks true 1 1 1))
      socketRun = some y ∧ y.session.stack = [] ∧
      transportCalls y.session.log =
        requestCalls socketMetadata [frameBytes [1], frameBytes [2]] false ∧
      .onEnd ∈ y.events ∧ y.transport.close.isSome = true ∧
        y.transport.delivered = y.transport.response.length := by
  have hend : (exec (SocketCall.step (bytesMethod true))
      (socketExchange (Session.withCallbacks true 1 1 1)) socketRun).map (fun y =>
        decide (y.session.stack = [] ∧ transportCalls y.session.log =
          requestCalls socketMetadata [frameBytes [1], frameBytes [2]] false ∧
          .onEnd ∈ y.events ∧ y.transport.close.isSome = true ∧
            y.transport.delivered = y.transport.response.length)) = some true := by
    decide +kernel
  obtain ⟨y, hy, heq⟩ := Option.map_eq_some_iff.1 hend
  exact ⟨y, hy, of_decide_eq_true heq⟩

def socketHeader : Bytes := ascii "content-type: application/grpc-web+proto\r\nx-grpc-web: 1\r\n"

theorem socket_call_request_socketRun :
    ∃ y : Exchange HeaderFields Bytes (SocketCall HeaderFields),
      exec (SocketCall.step (bytesMethod true)) (socketExchange (Session.withCallbacks true 1 1 1))
        socketRun = some y ∧
      (∀ block ∈ y.transport.header, block = socketHeader) ∧
      bytesOf y.transport.results <+: [frameBytes [1], frameBytes [2]].flatten ∧
      (.onEnd ∉ y.events → y.transport.failedAt = none → AllRead y.transport.toLink →
        bytesOf y.transport.results = [frameBytes [1], frameBytes [2]].flatten) ∧
      (y.transport.reader.canceled = true → y.transport.failedAt.isSome = true) ∧
      ∀ r ∈ y.transport.results, ∀ e ∈ r.err,
        (e = .eof ∨ y.transport.failedAt.isSome = true) ∧
        (e = .eof → y.transport.reader.canceled = false →
          bytesOf y.transport.results = [frameBytes [1], frameBytes [2]].flatten ∧
            false = true) := by
  obtain ⟨y, hy, -, hcalls, -⟩ := socketRun_idle
  exact ⟨y, hy, socket_call_request rfl hy hcalls (by decide +kernel)⟩

theorem socket_call_response_socketRun :
    ∃ (y : Exchange HeaderFields Bytes (SocketCall HeaderFields)) (m trailers : HeaderFields),
      exec (SocketCall.step (bytesMethod true)) (socketExchange (Session.withCallbacks true 1 1 1))
        socketRun = some y ∧
      (⟨0, 0, 0⟩ : Listener).view y.session.log =
        [.headers (BrowserHeaders.copy m), .message [7],
          .ended (.int 5) twoPieces.messageText trailers] := by
  obtain ⟨y, hy, hidle, hcalls, hend, hall⟩ := socketRun_idle
  have hreturned : ∀ o, .server (.finish o) ∈ socketRun →
      o = .of .sorted ∧ handlerOps socketRun = twoPieces.ops := by
    refine fun o ho => ⟨?_, rfl⟩
    simpa [socketRun, socketEvents, socketOps, messageRun, callbackRun, trailersRun, twoPieces,
      HandlerRun.ops] using ho
  obtain ⟨m, trailers, -, -, -, -, hshown⟩ := socket_call_response (l := ⟨0, 0, 0⟩)
    (g := twoPieces)
    (awaiting_withCallbacks true (by decide) (by decide) (by decide)) rfl
    (by simp [socketRun, socketEvents, socketOps, messageRun, callbackRun, trailersRun, twoPieces,
      HandlerRun.ops])
    hy hidle hcalls (by decide +kernel : headersToBytes socketMetadata = .ok socketHeader)
    (by decide +kernel) ⟨[], rfl⟩ hreturned (by decide +kernel) (fun _ => by decide +kernel)
    (.cons rfl .nil)
  exact ⟨y, m, trailers, hy, (hshown hend).resolve_right fun hcut => hcut.1 hall⟩

end

end GrpcWeb.EndToEnd

import GrpcWeb.Client.WebsocketTransport
import GrpcWeb.Server.WrappedReader

/-!
# A request over a WebSocket

The transport of the client and the request body of the server, on the two ends of a socket that
carries binary messages whole and in order. The first message is taken by the server as the header
block; the handler reads the others through `webSocketWrappedReader`. Calls of the client, the
opening of the socket and the reads of the handler come in any order that is possible.

`Carries` describes every state that calls in the order of the client lead to: before the socket
opens everything is queued, and afterwards what was sent is the header block, what has been read,
what the reader keeps and what is still on its way (`carries_exec`). `request_fidelity` is what
follows for the handler.
-/

namespace GrpcWeb.EndToEnd

open Js Client Server

variable {M : Type}

/-- Both ends of a socket. The messages that are on their way are those that the reader's connection
still has. -/
structure Link (M : Type) where
  transport : WebsocketTransport M := {}
  calls : List (TransportCall M) := []
  header : Option Bytes := none
  reader : WebSocketWrappedReader := {}
  results : List (ReadResult UInt8 GoError) := []

/-- A message as the server's connection returns it. -/
def toRead (message : Bytes) : ConnRead := ⟨.binary, message, none⟩

/-- What the latest socket has sent. -/
def sentOf (t : WebsocketTransport M) : List Bytes := (t.sockets.head?.map WebSocket.sent).getD []

namespace Link

/-- The transport changes, and what it sends by that goes on its way. -/
def update (t : WebsocketTransport M) (s : Link M) : Link M :=
  { s with
    transport := t
    reader :=
      { s.reader with
        wsConn := s.reader.wsConn ++ ((sentOf t).drop (sentOf s.transport).length).map toRead } }

/-- What can happen: the client calls the transport, the socket opens, the server takes the header
block, the handler reads into a buffer of length `n`. -/
inductive Action (M : Type)
  | call (c : TransportCall M)
  | opens
  | accept
  | read (n : ℕ)

def step [BrowserHeaders M] (s : Link M) : Action M → Option (Link M)
  | .call c => some { s.update (s.transport.call c) with calls := s.calls ++ [c] }
  | .opens => (s.transport.step (.opens 0)).map fun t => s.update t
  | .accept =>
    match s.header, s.reader.wsConn with
    | none, f :: rest =>
      some { s with header := some f.framePayload, reader := { s.reader with wsConn := rest } }
    | _, _ => none
  | .read n =>
    match s.header with
    | none => none
    | some _ => (s.reader.read n).map fun r =>
        { s with reader := r.2, results := s.results ++ [r.1] }

end Link

/-- The calls of a request, in the order that the client enforces. -/
def requestCalls (metadata : M) (frames : List Bytes) (finish : Bool) : List (TransportCall M) :=
  .start metadata :: frames.map .sendMessage ++ if finish then [.finishSend] else []

/-- The calls of a request but the last one. -/
theorem concat_eq_requestCalls {cs : List (TransportCall M)} {c : TransportCall M} {metadata : M}
    {frames : List Bytes} {finish : Bool} (h : cs ++ [c] = requestCalls metadata frames finish) :
    (c = .start metadata ∧ cs = [] ∧ frames = [] ∧ finish = false) ∨
    (∃ earlier b, c = .sendMessage b ∧ finish = false ∧ frames = earlier ++ [b] ∧
      cs = requestCalls metadata earlier false) ∨
    (c = .finishSend ∧ finish = true ∧ cs = requestCalls metadata frames false) := by
  cases finish with
  | false =>
    rcases List.eq_nil_or_concat frames with rfl | ⟨earlier, b, rfl⟩
    · left
      simp only [requestCalls, List.map_nil, List.append_nil, Bool.false_eq_true, if_false] at h
      obtain ⟨rfl, h⟩ := List.append_eq_singleton_iff.1 h |>.resolve_right (by simp)
      exact ⟨by simpa using h, rfl, rfl, rfl⟩
    · right; left
      have : requestCalls metadata (earlier ++ [b]) false =
          requestCalls metadata earlier false ++ [.sendMessage b] := by simp [requestCalls]
      rw [List.concat_eq_append, this] at h
      obtain ⟨rfl, h⟩ := List.append_inj' h rfl
      exact ⟨earlier, b, by simpa using h, rfl, by simp, rfl⟩
  | true =>
    right; right
    have : requestCalls metadata frames true =
        requestCalls metadata frames false ++ [.finishSend] := by
      simp [requestCalls]
    rw [this] at h
    obtain ⟨rfl, h⟩ := List.append_inj' h rfl
    exact ⟨by simpa using h, rfl, rfl⟩

/-! ## The messages of a request -/

/-- What the transport sends after the header block. -/
def itemsOf (frames : List Bytes) (finish : Bool) : List Queued :=
  frames.map .message ++ if finish then [.finishSend] else []

/-- The bytes of an item of the queue. -/
def payload : Queued → Bytes
  | .message msgBytes => msgBytes
  | .finishSend => []

theorem payload_itemsOf (frames : List Bytes) (finish : Bool) :
    (itemsOf frames finish).flatMap payload = frames.flatten := by
  have hframes : (frames.map Queued.message).flatMap payload = frames.flatten := by
    induction frames with
    | nil => rfl
    | cons b frames ih => simp [payload, ih]
  cases finish <;> simp [itemsOf, hframes, payload]

theorem finishSend_mem_itemsOf {frames : List Bytes} {finish : Bool} :
    Queued.finishSend ∈ itemsOf frames finish ↔ finish = true := by
  cases finish <;> simp [itemsOf]

/-- Nothing follows the finish signal. -/
theorem eq_nil_of_finishSend {frames : List Bytes} {finish : Bool} {done rest : List Queued}
    (h : itemsOf frames finish = done ++ .finishSend :: rest) : rest = [] := by
  cases finish with
  | false =>
    have hmem : Queued.finishSend ∈ itemsOf frames false := by simp [h]
    exact absurd (finishSend_mem_itemsOf.1 hmem) (by simp)
  | true =>
    rcases List.eq_nil_or_concat rest with rfl | ⟨rest, item, rfl⟩
    · rfl
    · have heq : frames.map Queued.message ++ [.finishSend] =
          (done ++ .finishSend :: rest) ++ [item] := by simpa [itemsOf] using h
      obtain ⟨hfront, -⟩ := List.append_inj' heq rfl
      have hmem : Queued.finishSend ∈ frames.map Queued.message := by simp [hfront]
      simp at hmem

/-- **A read of the messages of a request**: what it hands out and what it keeps is what was kept,
and the bytes of the message it took. -/
theorem read_items {w w' : WebSocketWrappedReader} {items : List Queued} {n : ℕ}
    {r : ReadResult UInt8 GoError} (hw : w.wsConn = items.map fun i => toRead i.frame)
    (he : w.remainingError = none) (h : w.read n = some (r, w')) :
    ∃ taken rest, items = taken ++ rest ∧ w'.wsConn = rest.map (fun i => toRead i.frame) ∧
      w'.remainingError = none ∧ w'.canceled = w.canceled ∧
      r.bytes ++ w'.remainingBuffer.getD [] = w.remainingBuffer.getD [] ++ taken.flatMap payload ∧
      (r.err = none ∨ r.err = some .eof ∧ taken = [.finishSend] ∧ w.remainingBuffer = none ∧
        w'.remainingBuffer = none) := by
  unfold WebSocketWrappedReader.read at h
  split at h
  · rename_i remaining hr
    split at h
    · cases h
      exact ⟨[], items, rfl, hw, rfl, rfl, by simp [hr], .inl he⟩
    · cases h
      exact ⟨[], items, rfl, hw, he, rfl, by simp [hr], .inl rfl⟩
  · rename_i hr
    rcases items with _ | ⟨item, rest⟩
    · rw [hw] at h
      cases h
    rw [hw] at h
    simp only [List.map_cons] at h
    cases item with
    | message msgBytes =>
      have hclosed : (toRead (0 :: msgBytes)).isClosed = false := rfl
      have hfinish : (0 :: msgBytes : Bytes) ≠ [1] := by simp
      have hbinary : (toRead (0 :: msgBytes)).messageType = .binary := rfl
      have hpayload : (toRead (0 :: msgBytes)).framePayload = 0 :: msgBytes := rfl
      simp only [Queued.frame, hclosed, hbinary, hpayload, hfinish, Bool.false_eq_true,
        if_false, ne_eq, not_true_eq_false, reduceCtorEq, List.drop_one, List.tail_cons] at h
      split at h
      · cases h
        exact ⟨[.message msgBytes], rest, rfl, rfl, he, rfl, by simp [hr, payload], .inl rfl⟩
      · cases h
        exact ⟨[.message msgBytes], rest, rfl, rfl, rfl, rfl, by simp [hr, payload], .inl rfl⟩
    | finishSend =>
      cases h
      exact ⟨[.finishSend], rest, rfl, rfl, he, rfl, by simp [hr, payload],
        .inr ⟨rfl, rfl, hr, hr⟩⟩

/-! ## The transport of a request -/

/-- A socket that is open sends every item. -/
theorem sendAll_opened (items : List Queued) (queue : List Queued) (metadata : M)
    (sent : List Bytes) :
    WebsocketTransport.sendAll items ⟨queue, [⟨metadata, .opened, sent⟩]⟩ =
      ⟨queue, [⟨metadata, .opened, sent ++ items.map Queued.frame⟩]⟩ := by
  induction items generalizing sent with
  | nil => simp [WebsocketTransport.sendAll]
  | cons item items ih =>
    have hsend : WebsocketTransport.sendToWebsocket item ⟨queue, [⟨metadata, .opened, sent⟩]⟩ =
        some ⟨queue, [⟨metadata, .opened, sent ++ [item.frame]⟩]⟩ := rfl
    rw [WebsocketTransport.sendAll, hsend]
    simp only
    rw [ih, List.map_cons, List.append_assoc]
    rfl

/-- What the handler has read of the items that the client has sent. -/
structure Reading (items : List Queued) (reader : WebSocketWrappedReader)
    (results : List (ReadResult UInt8 GoError)) (done rest : List Queued) : Prop where
  split : items = done ++ rest
  wire : reader.wsConn = rest.map fun i => toRead i.frame
  remainingError : reader.remainingError = none
  canceled : reader.canceled = false
  bytes : bytesOf results ++ reader.remainingBuffer.getD [] = done.flatMap payload
  errors : ∀ r ∈ results, r.err = none ∨
    r.err = some .eof ∧ reader.remainingBuffer = none ∧ ∃ before, done = before ++ [.finishSend]

/-- The state that the calls of a request lead to. -/
inductive Carries (headerBytes : Bytes) (metadata : M) (frames : List Bytes) (finish : Bool)
    (s : Link M) : Prop
  /-- the socket has not opened, and everything is queued -/
  | queued (transport : s.transport = ⟨itemsOf frames finish, [⟨metadata, .connecting, []⟩]⟩)
      (header : s.header = none) (reader : s.reader = {}) (results : s.results = [])
  /-- the socket is open, and the server has not taken the header block -/
  | opened (queue : List Queued)
      (transport : s.transport =
        ⟨queue, [⟨metadata, .opened, headerBytes :: (itemsOf frames finish).map Queued.frame⟩]⟩)
      (header : s.header = none)
      (reader : s.reader =
        { wsConn := toRead headerBytes :: (itemsOf frames finish).map fun i => toRead i.frame })
      (results : s.results = [])
  /-- the handler reads -/
  | reading (queue done rest : List Queued)
      (transport : s.transport =
        ⟨queue, [⟨metadata, .opened, headerBytes :: (itemsOf frames finish).map Queued.frame⟩]⟩)
      (header : s.header = some headerBytes)
      (reading : Reading (itemsOf frames finish) s.reader s.results done rest)

/-- One more item goes on its way. -/
theorem Reading.send {items done rest : List Queued} {reader : WebSocketWrappedReader}
    {results : List (ReadResult UInt8 GoError)} (h : Reading items reader results done rest)
    (item : Queued) : Reading (items ++ [item])
      { reader with wsConn := reader.wsConn ++ [toRead item.frame] } results done
        (rest ++ [item]) where
  split := by rw [h.split, List.append_assoc]
  wire := by simp [h.wire]
  remainingError := h.remainingError
  canceled := h.canceled
  bytes := h.bytes
  errors := h.errors

/-- **A read of the handler**: none is possible once the finish signal has been read. -/
theorem Reading.read {frames : List Bytes} {finish : Bool} {done rest : List Queued}
    {reader w : WebSocketWrappedReader} {results : List (ReadResult UInt8 GoError)}
    (h : Reading (itemsOf frames finish) reader results done rest) {n : ℕ}
    {r : ReadResult UInt8 GoError} (hr : reader.read n = some (r, w)) :
    ∃ done' rest', Reading (itemsOf frames finish) w (results ++ [r]) done' rest' := by
  obtain ⟨taken, rest', rfl, hwire, herr, hcanceled, hbytes, hend⟩ :=
    read_items h.wire h.remainingError hr
  refine ⟨done ++ taken, rest', ⟨?_, hwire, herr, hcanceled.trans h.canceled, ?_, ?_⟩⟩
  · rw [h.split, List.append_assoc]
  · rw [bytesOf, List.flatMap_append, List.append_assoc]
    simp only [List.flatMap_cons, List.flatMap_nil, List.append_nil, List.flatMap_append, ← h.bytes,
      hbytes, bytesOf, List.append_assoc]
  · intro r' hr'
    rcases List.mem_append.1 hr' with hold | hnew
    · rcases h.errors r' hold with hnone | ⟨-, hbuffer, before, rfl⟩
      · exact .inl hnone
      · -- after the finish signal nothing is kept and nothing is on its way
        have hsplit := h.split
        rw [List.append_assoc, List.singleton_append] at hsplit
        have hrest := eq_nil_of_finishSend hsplit
        have hwire' := h.wire
        rw [hrest] at hwire'
        rw [WebSocketWrappedReader.read, hbuffer, hwire'] at hr
        cases hr
    · rw [List.mem_singleton.1 hnew]
      rcases hend with hnone | ⟨heof, rfl, -, hw⟩
      · exact .inl hnone
      · exact .inr ⟨heof, hw, done, rfl⟩

section Steps

variable {headerBytes : Bytes} {metadata : M} {frames : List Bytes} {finish : Bool} {s s' : Link M}

/-- The calls are not part of the description. -/
theorem Carries.withCalls (h : Carries headerBytes metadata frames finish s)
    (calls : List (TransportCall M)) :
    Carries headerBytes metadata frames finish { s with calls := calls } := by
  cases h with
  | queued transport header reader results => exact .queued transport header reader results
  | opened queue transport header reader results =>
      exact .opened queue transport header reader results
  | reading queue done rest transport header reading =>
    exact .reading queue done rest transport header reading

/-- An open socket sends an item at once. -/
theorem update_push {queue : List Queued} {sent : List Bytes}
    (h : s.transport = ⟨queue, [⟨metadata, .opened, sent⟩]⟩) (item : Queued) :
    s.update (s.transport.push item) =
      { s with
        transport := ⟨queue, [⟨metadata, .opened, sent ++ [item.frame]⟩]⟩
        reader := { s.reader with wsConn := s.reader.wsConn ++ [toRead item.frame] } } := by
  have hpush : s.transport.push item = ⟨queue, [⟨metadata, .opened, sent ++ [item.frame]⟩]⟩ := by
    rw [h]
    rfl
  rw [Link.update, hpush, h]
  simp [sentOf]

/-- **A message or the finish signal** goes to the queue or on its way. -/
theorem Carries.push (h : Carries headerBytes metadata frames finish s) {item : Queued}
    {frames' : List Bytes} {finish' : Bool}
    (hitems : itemsOf frames' finish' = itemsOf frames finish ++ [item]) :
    Carries headerBytes metadata frames' finish' (s.update (s.transport.push item)) := by
  cases h with
  | queued transport header reader results =>
    refine .queued ?_ header ?_ results
    · rw [Link.update, transport, hitems]
      rfl
    · rw [Link.update, transport, reader]
      rfl
  | opened queue transport header reader results =>
    rw [update_push transport]
    refine .opened queue ?_ header ?_ results
    · simp [hitems]
    · simp [hitems, reader]
  | reading queue done rest transport header reading =>
    rw [update_push transport]
    refine .reading queue done (rest ++ [item]) ?_ header ?_
    · simp [hitems]
    · rw [hitems]
      exact reading.send item

variable [BrowserHeaders M]

/-- **The socket opens**: the header block and what is queued go on their way. -/
theorem Carries.opens (henc : headersToBytes metadata = .ok headerBytes)
    (h : Carries headerBytes metadata frames finish s) (hs : s.step .opens = some s') :
    Carries headerBytes metadata frames finish s' := by
  obtain ⟨t, ht, rfl⟩ := Option.map_eq_some_iff.1 hs
  cases h with
  | queued transport header reader results =>
    have hopen : t = ⟨itemsOf frames finish, [⟨metadata, .opened,
        headerBytes :: (itemsOf frames finish).map Queued.frame⟩]⟩ := by
      rw [transport] at ht
      simp only [WebsocketTransport.step, List.getElem?_cons_zero, if_true, Option.some.injEq] at ht
      rw [← ht, WebsocketTransport.onopen, henc]
      exact sendAll_opened _ _ metadata [headerBytes]
    refine .opened (itemsOf frames finish) hopen header ?_ results
    rw [Link.update, transport, reader, hopen]
    simp [sentOf]
  | opened queue transport header reader results =>
    rw [transport] at ht
    cases ht
  | reading queue done rest transport header reading =>
    rw [transport] at ht
    cases ht

/-- **Every action but a call** keeps the description. -/
theorem Carries.step (henc : headersToBytes metadata = .ok headerBytes)
    (h : Carries headerBytes metadata frames finish s) {a : Link.Action M}
    (ha : ∀ c, a ≠ .call c) (hs : s.step a = some s') :
    Carries headerBytes metadata frames finish s' := by
  cases a with
  | call c => exact absurd rfl (ha c)
  | opens => exact h.opens henc hs
  | accept =>
    cases h with
    | queued transport header reader results =>
      simp [Link.step, header, reader] at hs
    | opened queue transport header reader results =>
      simp only [Link.step, header, reader, Option.some.injEq] at hs
      subst hs
      refine .reading queue [] (itemsOf frames finish) transport rfl ⟨rfl, rfl, rfl, rfl, ?_, ?_⟩
      · rw [results]
        rfl
      · rw [results]
        exact fun r hr => absurd hr List.not_mem_nil
    | reading queue done rest transport header reading =>
      simp [Link.step, header] at hs
  | read n =>
    cases h with
    | queued transport header reader results =>
      simp [Link.step, header] at hs
    | opened queue transport header reader results =>
      simp [Link.step, header] at hs
    | reading queue done rest transport header reading =>
      simp only [Link.step, header] at hs
      obtain ⟨⟨r, w⟩, hr, rfl⟩ := Option.map_eq_some_iff.1 hs
      obtain ⟨done', rest', hreading⟩ := reading.read hr
      exact .reading queue done' rest' transport rfl hreading

/-- What is known of every state: nothing has happened before the first call, and calls in the order
of a request lead to the states of one. -/
structure LinkInv (s : Link M) : Prop where
  fresh : s.calls = [] → s = {}
  carries : ∀ metadata frames finish headerBytes, s.calls = requestCalls metadata frames finish →
    headersToBytes metadata = .ok headerBytes → Carries headerBytes metadata frames finish s

/-- **Every step** keeps to the states of a request. -/
theorem LinkInv.step (h : LinkInv s) {a : Link.Action M} (hs : s.step a = some s') :
    LinkInv s' := by
  by_cases ha : ∃ c, a = .call c
  · obtain ⟨c, rfl⟩ := ha
    cases hs
    refine ⟨fun hnil => absurd hnil (by simp),
      fun metadata frames finish headerBytes hcalls henc => ?_⟩
    rcases concat_eq_requestCalls hcalls with
      ⟨rfl, hnil, rfl, rfl⟩ | ⟨earlier, b, rfl, rfl, rfl, heq⟩ | ⟨rfl, rfl, heq⟩
    · obtain rfl := h.fresh hnil
      exact .queued rfl rfl rfl rfl
    · have hitems : itemsOf (earlier ++ [b]) false = itemsOf earlier false ++ [.message b] := by
        simp [itemsOf]
      exact ((h.carries _ _ _ _ heq henc).push hitems).withCalls _
    · have hitems : itemsOf frames true = itemsOf frames false ++ [.finishSend] := by simp [itemsOf]
      exact ((h.carries _ _ _ _ heq henc).push hitems).withCalls _
  · have hne : ∀ c, a ≠ .call c := fun c hc => ha ⟨c, hc⟩
    have hcalls : s'.calls = s.calls := by
      cases a with
      | call c => exact absurd rfl (hne c)
      | opens =>
        obtain ⟨t, -, rfl⟩ := Option.map_eq_some_iff.1 hs
        rfl
      | accept =>
        simp only [Link.step] at hs
        split at hs <;> cases hs
        rfl
      | read n =>
        simp only [Link.step] at hs
        split at hs
        · cases hs
        · obtain ⟨r, -, rfl⟩ := Option.map_eq_some_iff.1 hs
          rfl
    refine ⟨fun hnil => ?_, fun metadata frames finish headerBytes hreq henc => ?_⟩
    · obtain rfl := h.fresh (hcalls ▸ hnil)
      cases a <;> first | exact absurd rfl (hne _) | cases hs
    · exact (h.carries _ _ _ _ (hcalls ▸ hreq) henc).step henc hne hs

/-- Nothing that the client has sent is left: the server has taken the header block, and the reader
has taken every message and keeps nothing. -/
def AllRead (s : Link M) : Prop :=
  s.header.isSome = true ∧ s.reader.wsConn = [] ∧ s.reader.remainingBuffer = none

/-- **The handler reads the request.** In every run in which the client has made the calls of a
request with metadata that can be encoded, the first message of the socket is the header block, and
what the handler has read is a front part of the frames, all of them once everything has been read.
`io.EOF` is returned only after all of them and only if the client has finished sending. -/
theorem request_fidelity {as : List (Link.Action M)} {s : Link M}
    (h : exec Link.step {} as = some s) {metadata : M} {frames : List Bytes} {finish : Bool}
    (hcalls : s.calls = requestCalls metadata frames finish) {headerBytes : Bytes}
    (henc : headersToBytes metadata = .ok headerBytes) :
    (∀ ws ∈ s.transport.sockets, ∀ first ∈ ws.sent.head?, first = headerBytes) ∧
    (∀ block ∈ s.header, block = headerBytes) ∧
    bytesOf s.results <+: frames.flatten ∧
    (AllRead s → bytesOf s.results = frames.flatten) ∧
    ∀ r ∈ s.results, ∀ e ∈ r.err, e = .eof ∧ bytesOf s.results = frames.flatten ∧
      finish = true := by
  have hinit : LinkInv ({} : Link M) :=
    ⟨fun _ => rfl, fun metadata frames finish _ hreq _ => by simp [requestCalls] at hreq⟩
  have hinv : LinkInv s := exec_preserves (fun _ _ _ hP hs => hP.step hs) hinit h
  have nothing {r : ReadResult UInt8 GoError} {P : Prop} (hnil : s.results = [])
      (hr : r ∈ s.results) : P := by
    rw [hnil] at hr
    cases hr
  cases hinv.carries _ _ _ _ hcalls henc with
  | queued transport header reader results =>
    refine ⟨?_, ?_, ?_, ?_, fun r hr => nothing results hr⟩
    · rw [transport]
      rintro ws (_ | ⟨_, ⟨⟩⟩) first ⟨⟩
    · rw [header]
      exact nofun
    · rw [results]
      exact List.nil_prefix
    · rintro ⟨hsome, -, -⟩
      rw [header] at hsome
      cases hsome
  | opened queue transport header reader results =>
    refine ⟨?_, ?_, ?_, ?_, fun r hr => nothing results hr⟩
    · rw [transport]
      rintro ws (_ | ⟨_, ⟨⟩⟩) first ⟨⟩
      rfl
    · rw [header]
      exact nofun
    · rw [results]
      exact List.nil_prefix
    · rintro ⟨hsome, -, -⟩
      rw [header] at hsome
      cases hsome
  | reading queue done rest transport header reading =>
    have hall : frames.flatten =
        bytesOf s.results ++ (s.reader.remainingBuffer.getD [] ++ rest.flatMap payload) := by
      rw [← payload_itemsOf frames finish, reading.split, List.flatMap_append, ← reading.bytes,
        List.append_assoc]
    refine ⟨?_, ?_, ?_, ?_, ?_⟩
    · rw [transport]
      rintro ws (_ | ⟨_, ⟨⟩⟩) first ⟨⟩
      rfl
    · rw [header]
      rintro block ⟨⟩
      rfl
    · rw [hall]
      exact List.prefix_append _ _
    · rintro ⟨-, hwire, hbuffer⟩
      rw [reading.wire, List.map_eq_nil_iff] at hwire
      rw [hall, hwire, hbuffer]
      simp
    · intro r hr e he
      rcases reading.errors r hr with hnone | ⟨heof, hbuffer, before, rfl⟩
      · rw [hnone] at he
        cases he
      · have hsplit := reading.split
        rw [List.append_assoc, List.singleton_append] at hsplit
        have hrest : rest = [] := eq_nil_of_finishSend hsplit
        rw [heof] at he
        refine ⟨(Option.some.inj he).symm, ?_, ?_⟩
        · rw [hall, hrest, hbuffer]
          simp
        · have hmem : Queued.finishSend ∈ itemsOf frames finish := by simp [hsplit]
          exact finishSend_mem_itemsOf.1 hmem

end Steps

/-- A message before the socket opens, one after the handler has begun to read, and the finish
signal, read with buffers of different lengths. -/
def twoMessages : List (Link.Action HeaderFields) :=
  [.call (.start ⟨[(js "a", [js "b"])]⟩), .call (.sendMessage (frameBytes [7])), .opens, .accept,
    .read 4, .call (.sendMessage (frameBytes [8, 9])), .read 0, .read 2, .read 9, .call .finishSend,
    .read 9]

theorem request_fidelity_twoMessages : ∃ s : Link HeaderFields,
    exec Link.step {} twoMessages = some s ∧
      (∀ ws ∈ s.transport.sockets, ∀ first ∈ ws.sent.head?, first = ascii "a: b\r\n") ∧
      (∀ block ∈ s.header, block = ascii "a: b\r\n") ∧
      bytesOf s.results <+: [frameBytes [7], frameBytes [8, 9]].flatten ∧
      (AllRead s → bytesOf s.results = [frameBytes [7], frameBytes [8, 9]].flatten) ∧
      (∀ r ∈ s.results, ∀ e ∈ r.err,
        e = .eof ∧ bytesOf s.results = [frameBytes [7], frameBytes [8, 9]].flatten ∧ true = true) ∧
      failure s.results = some .eof := by
  obtain ⟨s, hs, hcalls⟩ := Option.map_eq_some_iff.1
    (by decide +kernel : (exec Link.step ({} : Link HeaderFields) twoMessages).map
      (fun s => (s.calls, failure s.results)) =
        some (requestCalls ⟨[(js "a", [js "b"])]⟩ [frameBytes [7], frameBytes [8, 9]] true,
          some .eof))
  obtain ⟨h1, h2, h3, h4, h5⟩ := request_fidelity hs (congrArg Prod.fst hcalls)
    (by decide +kernel : headersToBytes (⟨[(js "a", [js "b"])]⟩ : HeaderFields) =
      .ok (ascii "a: b\r\n"))
  exact ⟨s, hs, h1, h2, h3, h4, h5, congrArg Prod.snd hcalls⟩

end GrpcWeb.EndToEnd

import GrpcWeb.Client.GrpcClient

/-!
# The WebSocket transport

`websocketRequest` of the client as a machine. A call of `start` makes a new socket, whose handlers
keep its metadata; until the socket has opened, messages and the finish signal are queued. The
handler of its open event sends the header block and then the queue. All handlers send on the latest
socket, the variable `ws`, whichever socket they belong to.

`step` is a call that the transport receives, the opening of a socket or its close. A socket leaves
`connecting` in the step in which its handler runs; an exception in the handler ends the handler and
nothing else. What the sockets receive goes on to the client and does not touch this state.

`headersToBytes` can throw, and then nothing has been sent when the socket counts as open.
`header_first` says which runs keep the header block first on every socket (`SendsEncodable`), and
`message_for_header` is a run that does not.
-/

namespace GrpcWeb.Client

open Js

variable {M : Type}

/-! ## Header blocks -/

/-- `ss.join(sep)`. -/
def joinStrings (sep : JsString) (ss : List JsString) : JsString := (ss.intersperse sep).flatten

/-- The text of a header block. -/
def headersText (fields : List (JsString × List JsString)) : JsString :=
  fields.flatMap fun f => f.1 ++ js ": " ++ joinStrings (js ", ") f.2 ++ js "\r\n"

def headersToBytes [BrowserHeaders M] (headers : M) : Except JsString Bytes :=
  encodeASCII (headersText (BrowserHeaders.entries headers))

/-! ## State -/

inductive ReadyState
  | connecting
  | opened
  | closing
  | closed
  deriving DecidableEq

/-- A socket: the metadata that its handlers hold, and the messages it has sent. -/
structure WebSocket (M : Type) where
  metadata : M
  readyState : ReadyState := .connecting
  sent : List Bytes := []
  deriving DecidableEq

/-- What is queued: a message, or the signal that no message will follow. -/
inductive Queued
  | message (msgBytes : Bytes)
  | finishSend
  deriving DecidableEq

/-- The variables of `websocketRequest`. The latest socket, which is `ws`, comes first. -/
structure WebsocketTransport (M : Type) where
  sendQueue : List Queued := []
  sockets : List (WebSocket M) := []
  deriving DecidableEq

def finishSendFrame : Bytes := [1]

/-- What is sent for an item of the queue: a control byte and the bytes of a message. -/
def Queued.frame : Queued → Bytes
  | .message msgBytes => 0 :: msgBytes
  | .finishSend => finishSendFrame

namespace WebsocketTransport

/-- `ws.send(data)`; `none` when it throws. A socket that is closing or closed drops its data. -/
def send (data : Bytes) (t : WebsocketTransport M) : Option (WebsocketTransport M) :=
  match t.sockets with
  | [] => none
  | ws :: earlier =>
    match ws.readyState with
    | .connecting => none
    | .opened => some { t with sockets := { ws with sent := ws.sent ++ [data] } :: earlier }
    | .closing | .closed => some t

def sendToWebsocket (toSend : Queued) (t : WebsocketTransport M) : Option (WebsocketTransport M) :=
  t.send toSend.frame

/-- `sendQueue.forEach(sendToWebsocket)`, up to an exception. -/
def sendAll : List Queued → WebsocketTransport M → WebsocketTransport M
  | [], t => t
  | toSend :: rest, t =>
    match t.sendToWebsocket toSend with
    | none => t
    | some t => sendAll rest t

/-- Queue an item until the socket is open, or send it. -/
def push (toSend : Queued) (t : WebsocketTransport M) : WebsocketTransport M :=
  match t.sockets with
  | [] => { t with sendQueue := t.sendQueue ++ [toSend] }
  | ws :: _ =>
    if ws.readyState = .connecting then { t with sendQueue := t.sendQueue ++ [toSend] }
    else (t.sendToWebsocket toSend).getD t

def sendMessage (msgBytes : Bytes) : WebsocketTransport M → WebsocketTransport M :=
  push (.message msgBytes)

def finishSend : WebsocketTransport M → WebsocketTransport M := push .finishSend

def start (metadata : M) (t : WebsocketTransport M) : WebsocketTransport M :=
  { t with sockets := { metadata := metadata } :: t.sockets }

/-- `ws.close()`. -/
def cancel (t : WebsocketTransport M) : WebsocketTransport M :=
  match t.sockets with
  | [] => t
  | ws :: earlier =>
    if ws.readyState = .closed then t
    else { t with sockets := { ws with readyState := .closing } :: earlier }

def call (t : WebsocketTransport M) : TransportCall M → WebsocketTransport M
  | .start metadata => t.start metadata
  | .sendMessage msgBytes => t.sendMessage msgBytes
  | .finishSend => t.finishSend
  | .cancel => t.cancel

/-- The handler of the open event of a socket. -/
def onopen [BrowserHeaders M] (metadata : M) (t : WebsocketTransport M) : WebsocketTransport M :=
  match headersToBytes metadata with
  | .error _ => t
  | .ok headerBytes =>
    match t.send headerBytes with
    | none => t
    | some t => t.sendAll t.sendQueue

/-- A socket changes its state. -/
def setState (i : ℕ) (readyState : ReadyState) (t : WebsocketTransport M) : WebsocketTransport M :=
  { t with sockets := t.sockets.modify i fun ws => { ws with readyState := readyState } }

/-- The moves of a transport; a socket is named by its place, the latest one by 0. -/
inductive Action (M : Type)
  | call (c : TransportCall M)
  | opens (i : ℕ)
  | closes (i : ℕ)

def step [BrowserHeaders M] (t : WebsocketTransport M) : Action M → Option (WebsocketTransport M)
  | .call c => some (t.call c)
  | .opens i =>
    match t.sockets[i]? with
    | none => none
    | some ws =>
      if ws.readyState = .connecting then some ((t.setState i .opened).onopen ws.metadata) else none
  | .closes i =>
    match t.sockets[i]? with
    | none => none
    | some ws => if ws.readyState = .closed then none else some (t.setState i .closed)

end WebsocketTransport

/-! ## The header block comes first -/

variable [BrowserHeaders M]

/-- The metadata can be encoded. -/
def Encodable (metadata : M) : Prop := (headersToBytes metadata).isOk = true

instance (metadata : M) : Decidable (Encodable metadata) := inferInstanceAs (Decidable (_ = true))

/-- The first message of a socket is the header block of its metadata. -/
def WebSocket.HeaderFirst (ws : WebSocket M) : Prop :=
  ∀ first ∈ ws.sent.head?, headersToBytes ws.metadata = .ok first

/-- An action that would send on an open socket finds its metadata encodable. -/
def SendsEncodable (t : WebsocketTransport M) : WebsocketTransport.Action M → Prop
  | .call (.sendMessage _) | .call .finishSend =>
    ∀ ws ∈ t.sockets.head?, ws.readyState = .opened → Encodable ws.metadata
  | .opens i => ∀ w ∈ t.sockets[i]?, Encodable w.metadata →
      ∀ ws ∈ t.sockets.head?, ws.readyState = .opened → Encodable ws.metadata
  | _ => True

/-- Whatever has been sent on a socket began with its header block, and the latest socket has sent
that when it is open and can. -/
structure HeaderInv (t : WebsocketTransport M) : Prop where
  first : ∀ ws ∈ t.sockets, ws.HeaderFirst
  unopened : ∀ ws ∈ t.sockets, ws.readyState = .connecting → ws.sent = []
  started : ∀ ws ∈ t.sockets.head?, ws.readyState = .opened → Encodable ws.metadata → ws.sent ≠ []

/-- A message may be sent: the latest socket, when it is open, has sent something. -/
def Ready (t : WebsocketTransport M) : Prop :=
  ∀ ws ∈ t.sockets.head?, ws.readyState = .opened → ws.sent ≠ []

omit [BrowserHeaders M] in
/-- **What `send` does**: nothing on a socket that is closing or closed, and one message more on an
open one. -/
theorem send_eq_some {t u : WebsocketTransport M} {data : Bytes} (h : t.send data = some u) :
    u = t ∨ ∃ ws earlier, t.sockets = ws :: earlier ∧ ws.readyState = .opened ∧
      u = { t with sockets := { ws with sent := ws.sent ++ [data] } :: earlier } := by
  unfold WebsocketTransport.send at h
  split at h
  · cases h
  rename_i ws earlier hs
  split at h
  · cases h
  · rename_i hstate
    cases h
    exact .inr ⟨ws, earlier, hs, hstate, rfl⟩
  · cases h
    exact .inl rfl
  · cases h
    exact .inl rfl

/-- The sockets behind the latest one. -/
def SoundEarlier (earlier : List (WebSocket M)) : Prop :=
  ∀ w ∈ earlier, w.HeaderFirst ∧ (w.readyState = .connecting → w.sent = [])

theorem HeaderInv.earlier {t : WebsocketTransport M} {ws : WebSocket M}
    {earlier : List (WebSocket M)} (h : HeaderInv t) (hs : t.sockets = ws :: earlier) :
    SoundEarlier earlier := fun w hw =>
  ⟨h.first w (hs ▸ List.mem_cons_of_mem _ hw), h.unopened w (hs ▸ List.mem_cons_of_mem _ hw)⟩

/-- The invariant says three things of the latest socket. -/
theorem HeaderInv.latest {queue : List Queued} {ws : WebSocket M} {earlier : List (WebSocket M)}
    (hfirst : ws.HeaderFirst) (hunopened : ws.readyState = .connecting → ws.sent = [])
    (hstarted : ws.readyState = .opened → Encodable ws.metadata → ws.sent ≠ [])
    (hearlier : SoundEarlier earlier) :
    HeaderInv (⟨queue, ws :: earlier⟩ : WebsocketTransport M) where
  first := List.forall_mem_cons.2 ⟨hfirst, fun w hw => (hearlier w hw).1⟩
  unopened := List.forall_mem_cons.2 ⟨hunopened, fun w hw => (hearlier w hw).2⟩
  started := by
    rintro w ⟨⟩
    exact hstarted

/-- **A message behind another one** leaves the first ones alone. -/
theorem HeaderInv.send {t u : WebsocketTransport M} (h : HeaderInv t) (hr : Ready t) {data : Bytes}
    (hu : t.send data = some u) : HeaderInv u ∧ Ready u := by
  rcases send_eq_some hu with rfl | ⟨ws, earlier, hs, hstate, rfl⟩
  · exact ⟨h, hr⟩
  have hne : ws.sent ≠ [] := hr ws (by simp [hs]) hstate
  have happend : ws.sent ++ [data] ≠ [] := by simp
  refine ⟨.latest ?_ (fun hc => ?_) (fun _ _ => happend) (h.earlier hs), ?_⟩
  · intro first hfirst
    obtain ⟨b, bs, hb⟩ := List.exists_cons_of_ne_nil hne
    simp only [hb, List.cons_append, List.head?_cons, Option.mem_def, Option.some.injEq] at hfirst
    exact h.first ws (by simp [hs]) first (by simp [hb, hfirst])
  · exact absurd (hstate.symm.trans hc) (by decide)
  · rintro w ⟨⟩ -
    exact happend

theorem HeaderInv.sendAll {t : WebsocketTransport M} (h : HeaderInv t) (hr : Ready t)
    (items : List Queued) : HeaderInv (t.sendAll items) := by
  induction items generalizing t with
  | nil => exact h
  | cons toSend items ih =>
    rw [WebsocketTransport.sendAll]
    rcases hs : t.sendToWebsocket toSend with _ | u
    · exact h
    · obtain ⟨hu, hru⟩ := h.send hr hs
      exact ih hu hru

theorem HeaderInv.push {t : WebsocketTransport M} (h : HeaderInv t) (hr : Ready t)
    (toSend : Queued) : HeaderInv (t.push toSend) := by
  have hqueue : HeaderInv { t with sendQueue := t.sendQueue ++ [toSend] } :=
    ⟨h.first, h.unopened, h.started⟩
  unfold WebsocketTransport.push
  split
  · exact hqueue
  · split
    · exact hqueue
    · rcases hs : t.sendToWebsocket toSend with _ | u
      · exact h
      · exact (h.send hr hs).1

theorem Ready.of_encodable {t : WebsocketTransport M} (h : HeaderInv t)
    (hok : ∀ ws ∈ t.sockets.head?, ws.readyState = .opened → Encodable ws.metadata) : Ready t :=
  fun ws hws hopen => h.started ws hws hopen (hok ws hws hopen)

omit [BrowserHeaders M] in
theorem mem_setState {t : WebsocketTransport M} {i : ℕ} {readyState : ReadyState} {w : WebSocket M}
    (h : w ∈ (t.setState i readyState).sockets) :
    ∃ v ∈ t.sockets, w = v ∨ w = { v with readyState := readyState } := by
  obtain ⟨j, hj⟩ := List.mem_iff_getElem?.1 h
  rw [WebsocketTransport.setState, List.getElem?_modify] at hj
  obtain ⟨v, hv, hw⟩ := Option.map_eq_some_iff.1 hj
  refine ⟨v, List.mem_of_getElem? hv, ?_⟩
  split at hw
  · exact .inr hw.symm
  · exact .inl hw.symm

/-- A socket leaves `connecting`, or is closed. -/
theorem HeaderInv.setState {t : WebsocketTransport M} (h : HeaderInv t) (i : ℕ)
    {readyState : ReadyState} (hc : readyState ≠ .connecting)
    (hstarted : ∀ ws ∈ (t.setState i readyState).sockets.head?, ws.readyState = .opened →
      Encodable ws.metadata → ws.sent ≠ []) : HeaderInv (t.setState i readyState) where
  first w hw := by
    obtain ⟨v, hv, rfl | rfl⟩ := mem_setState hw
    · exact h.first w hv
    · exact h.first v hv
  unopened w hw hcw := by
    obtain ⟨v, hv, rfl | rfl⟩ := mem_setState hw
    · exact h.unopened w hv hcw
    · exact absurd hcw hc
  started := hstarted

/-- **The handler of the open event** sends the header block first, or nothing. -/
theorem HeaderInv.opens {t : WebsocketTransport M} (h : HeaderInv t) {i : ℕ}
    (hok : SendsEncodable t (.opens i)) {ws : WebSocket M} (hws : t.sockets[i]? = some ws)
    (hc : ws.readyState = .connecting) :
    HeaderInv ((t.setState i .opened).onopen ws.metadata) := by
  rcases hs : t.sockets with _ | ⟨latest, earlier⟩
  · simp [hs] at hws
  cases i with
  | zero =>
    obtain rfl : latest = ws := by simpa [hs] using hws
    have hsent : latest.sent = [] := h.unopened latest (by simp [hs]) hc
    have hset : (t.setState 0 .opened).sockets =
        { latest with readyState := .opened } :: earlier := by
      simp [WebsocketTransport.setState, hs]
    rw [WebsocketTransport.onopen]
    rcases hb : headersToBytes latest.metadata with e | headerBytes
    · refine h.setState 0 (by decide) ?_
      rw [hset]
      rintro w ⟨⟩ - henc
      rw [Encodable, hb] at henc
      cases henc
    · have hsend : (t.setState 0 .opened).send headerBytes = some
          { t with sockets := ⟨latest.metadata, .opened, [headerBytes]⟩ :: earlier } := by
        rw [WebsocketTransport.send, hset]
        simp only [hsent, List.nil_append]
        rfl
      simp only [hsend]
      refine HeaderInv.sendAll (.latest ?_ ?_ (fun _ _ => by simp) (h.earlier hs)) ?_ _
      · rintro first ⟨⟩
        exact hb
      · rintro ⟨⟩
      · rintro w ⟨⟩ -
        simp
  | succ i =>
    have hhead : (t.setState (i + 1) .opened).sockets.head? = some latest := by
      simp [WebsocketTransport.setState, hs]
    have hinv : HeaderInv (t.setState (i + 1) .opened) := by
      refine h.setState (i + 1) (by decide) ?_
      rw [hhead]
      rintro w ⟨⟩ hopen henc
      exact h.started latest (by simp [hs]) hopen henc
    rw [WebsocketTransport.onopen]
    rcases hb : headersToBytes ws.metadata with e | headerBytes
    · exact hinv
    · have henc : Encodable ws.metadata := by
        rw [Encodable, hb]
        rfl
      have hready : Ready (t.setState (i + 1) .opened) := by
        refine .of_encodable hinv ?_
        rw [hhead]
        rintro w ⟨⟩ hopen
        exact hok ws hws henc latest (by simp [hs]) hopen
      simp only
      rcases hsend : (t.setState (i + 1) .opened).send headerBytes with _ | u
      · exact hinv
      · obtain ⟨hu, hru⟩ := hinv.send hready hsend
        exact hu.sendAll hru _

/-- **Every step** that would send only where the header block can be sent keeps it first. -/
theorem HeaderInv.step {t u : WebsocketTransport M} (h : HeaderInv t)
    {a : WebsocketTransport.Action M} (hok : SendsEncodable t a) (hu : t.step a = some u) :
    HeaderInv u := by
  cases a with
  | call c =>
    cases hu
    cases c with
    | start metadata =>
      have hfirst : ({ metadata := metadata } : WebSocket M).HeaderFirst := nofun
      exact .latest hfirst (fun _ => rfl) nofun fun w hw => ⟨h.first w hw, h.unopened w hw⟩
    | sendMessage msgBytes => exact h.push (.of_encodable h hok) _
    | finishSend => exact h.push (.of_encodable h hok) _
    | cancel =>
      simp only [WebsocketTransport.call, WebsocketTransport.cancel]
      split
      · exact h
      rename_i ws earlier hs
      split
      · exact h
      exact .latest (h.first ws (hs ▸ List.mem_cons_self)) nofun nofun (h.earlier hs)
  | opens i =>
    simp only [WebsocketTransport.step] at hu
    split at hu
    · cases hu
    rename_i ws hws
    split at hu
    · cases hu
      exact h.opens hok hws ‹_›
    · cases hu
  | closes i =>
    simp only [WebsocketTransport.step] at hu
    split at hu
    · cases hu
    rename_i ws hws
    split at hu
    · cases hu
    cases hu
    refine h.setState i (by decide) ?_
    intro w hw hopen henc
    rcases hs : t.sockets with _ | ⟨latest, earlier⟩
    · simp [hs] at hws
    cases i with
    | zero =>
      simp only [WebsocketTransport.setState, hs, List.modify_zero_cons, List.head?_cons] at hw
      cases hw
      cases hopen
    | succ i =>
      simp only [WebsocketTransport.setState, hs, List.modify_succ_cons, List.head?_cons] at hw
      cases hw
      exact h.started w (by simp [hs]) hopen henc

/-- **Nothing is sent in place of the header block**: in a run whose actions never send on an open
socket with metadata that cannot be encoded, the first message of every socket is the encoding of
its metadata, and a socket whose metadata cannot be encoded sends nothing. -/
theorem header_first {as : List (WebsocketTransport.Action M)} {t : WebsocketTransport M}
    (hok : Along WebsocketTransport.step SendsEncodable {} as)
    (h : exec WebsocketTransport.step {} as = some t) :
    ∀ ws ∈ t.sockets, (∀ first ∈ ws.sent.head?, headersToBytes ws.metadata = .ok first) ∧
      (¬ Encodable ws.metadata → ws.sent = []) := by
  have hinit : HeaderInv ({} : WebsocketTransport M) :=
    ⟨fun w hw => absurd hw List.not_mem_nil, fun w hw => absurd hw List.not_mem_nil, nofun⟩
  have hinv := exec_preserves_along (fun _ _ _ hP hok hstep => HeaderInv.step hP hok hstep)
    hinit hok h
  intro ws hws
  refine ⟨hinv.first ws hws, fun henc => ?_⟩
  rcases hsent : ws.sent with _ | ⟨first, rest⟩
  · rfl
  · have hfirst := hinv.first ws hws first (by simp [hsent])
    rw [Encodable, hfirst] at henc
    exact absurd rfl henc

instance (t : WebsocketTransport M) : ∀ a, Decidable (SendsEncodable t a)
  | .call (.sendMessage _) | .call .finishSend =>
    inferInstanceAs (Decidable (∀ ws ∈ t.sockets.head?, _ → Encodable ws.metadata))
  | .opens i => inferInstanceAs (Decidable (∀ w ∈ t.sockets[i]?, Encodable w.metadata →
      ∀ ws ∈ t.sockets.head?, _ → Encodable ws.metadata))
  | .call (.start _) | .call .cancel | .closes _ => .isTrue trivial

/-- A message before the socket opens, and one after. -/
def queuedRun : List (WebsocketTransport.Action HeaderFields) :=
  [.call (.start ⟨[(js "a", [js "b"])]⟩), .call (.sendMessage [7]), .opens 0,
    .call (.sendMessage [8]), .call .finishSend]

theorem header_first_queuedRun : ∃ t : WebsocketTransport HeaderFields,
    exec WebsocketTransport.step {} queuedRun = some t ∧
      (∀ ws ∈ t.sockets, (∀ first ∈ ws.sent.head?, headersToBytes ws.metadata = .ok first) ∧
        (¬ Encodable ws.metadata → ws.sent = [])) ∧
      t.sockets.map WebSocket.sent = [[ascii "a: b\r\n", [0, 7], [0, 8], [1]]] := by
  obtain ⟨t, ht, hsent⟩ := Option.map_eq_some_iff.1
    (by decide +kernel : (exec WebsocketTransport.step ({} : WebsocketTransport HeaderFields)
      queuedRun).map (fun t => t.sockets.map WebSocket.sent) =
        some [[ascii "a: b\r\n", [0, 7], [0, 8], [1]]])
  exact ⟨t, ht, header_first (by decide +kernel) ht, hsent⟩

/-- Metadata with the value `é`, and a message when the socket is open. -/
def unencodableRun : List (WebsocketTransport.Action HeaderFields) :=
  [.call (.start ⟨[(js "a", [[0xE9]])]⟩), .opens 0, .call (.sendMessage [7])]

/-- **A message in place of the header block**: the encoding throws in the handler of the open
event, and the next message goes out as the first one of the socket. -/
theorem message_for_header :
    (exec WebsocketTransport.step {} unencodableRun).map (fun t => t.sockets.map WebSocket.sent) =
        some [[[0, 7]]] ∧
      ¬ Encodable (⟨[(js "a", [[0xE9]])]⟩ : HeaderFields) := by
  decide +kernel

end GrpcWeb.Client

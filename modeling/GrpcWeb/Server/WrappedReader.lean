import GrpcWeb.Foundations.BigEndian
import GrpcWeb.Foundations.Reader
import GrpcWeb.Go.Strings

/-!
# The request body of a WebSocket

`webSocketWrappedReader` turns the messages of a socket into the body of a request. Its `read` takes
one result of `wsConn.Read` at a time, strips the control byte, and keeps the bytes that do not fit
its buffer, with the error that came with them, for the reads that follow.

`stream` is what a sequence of results means: the bytes behind the control bytes, up to the first
result that ends it, and the error with which it ends. `readerOf_stream` says that `read` hands out
just this, and `wrappedReader_reads` what follows for any results and any buffers.
-/

namespace GrpcWeb.Server

open Go

/-- An error: `io.EOF`, or one with a text. -/
inductive GoError
  | eof
  | new (text : GoString)
  deriving DecidableEq

/-- The type of a WebSocket message; `none` is the 0 of a read that failed. -/
inductive MessageType
  | none
  | text
  | binary
  deriving DecidableEq

/-- A result of `wsConn.Read`. -/
structure ConnRead where
  messageType : MessageType
  framePayload : Bytes
  err : Option GoError
  deriving DecidableEq

/-- The reader, with the results that the connection still has for it. After the finish frame the
rest of the connection belongs to a goroutine that waits for its end. -/
structure WebSocketWrappedReader where
  remainingBuffer : Option Bytes := Option.none
  remainingError : Option GoError := Option.none
  wsConn : List ConnRead := []
  canceled : Bool := false
  draining : Bool := false
  deriving DecidableEq

def notBinary : GoError := .new (ascii "websocket frame was not a binary frame")

/-- The connection has been closed, or has failed. -/
def ConnRead.isClosed (f : ConnRead) : Bool := f.err = some .eof || f.messageType = .none

/-- A finish frame. -/
def ConnRead.isFinish (f : ConnRead) : Bool :=
  !f.isClosed && f.messageType = .binary && f.framePayload = [1]

namespace WebSocketWrappedReader

/-- `Read` of a buffer of length `p`; `none` when the connection has no further result. -/
def read (p : ℕ) (w : WebSocketWrappedReader) :
    Option (ReadResult UInt8 GoError × WebSocketWrappedReader) :=
  match w.remainingBuffer with
  | some remaining =>
    if remaining.length ≤ p then
      some (⟨remaining, w.remainingError⟩,
        { w with remainingBuffer := none, remainingError := none })
    else
      some (⟨remaining.take p, none⟩, { w with remainingBuffer := some (remaining.drop p) })
  | none =>
    match w.wsConn with
    | [] => none
    | f :: rest =>
      let w := { w with wsConn := rest }
      if f.isClosed then some (⟨[], some .eof⟩, { w with canceled := true })
      else if f.messageType ≠ .binary then some (⟨[], some notBinary⟩, w)
      else if f.framePayload = [1] then some (⟨[], some .eof⟩, { w with draining := true })
      else if f.framePayload = [] then some (⟨[], f.err⟩, w)
      else
        let dataPayload := f.framePayload.drop 1
        if dataPayload.length ≤ p then some (⟨dataPayload, f.err⟩, w)
        else
          some (⟨dataPayload.take p, none⟩,
            { w with remainingBuffer := some (dataPayload.drop p), remainingError := f.err })

end WebSocketWrappedReader

/-! ## What the results mean -/

/-- The bytes of a result: those behind the control byte of a binary message. -/
def ConnRead.data (f : ConnRead) : Bytes :=
  if f.isClosed ∨ f.messageType ≠ .binary then [] else f.framePayload.drop 1

/-- The error with which a result ends the stream. -/
def ConnRead.ending (f : ConnRead) : Option GoError :=
  if f.isClosed then some .eof
  else if f.messageType ≠ .binary then some notBinary
  else if f.framePayload = [1] then some .eof
  else f.err

/-- The bytes up to the first result that ends the stream, and the error it ends with. -/
def stream : List ConnRead → Bytes × Option GoError
  | [] => ([], none)
  | f :: fs =>
    match f.ending with
    | some e => (f.data, some e)
    | none => (f.data ++ (stream fs).1, (stream fs).2)

/-- What a reader has still to hand out. -/
def WebSocketWrappedReader.contents (w : WebSocketWrappedReader) : Bytes × Option GoError :=
  match w.remainingBuffer with
  | none => stream w.wsConn
  | some remaining =>
    match w.remainingError with
    | some e => (remaining, some e)
    | none => (remaining ++ (stream w.wsConn).1, (stream w.wsConn).2)

/-- The results that do not end the stream, and the one that does. -/
theorem stream_eq_some {fs : List ConnRead} {data : Bytes} {e : GoError}
    (h : stream fs = (data, some e)) : ∃ before f after, fs = before ++ f :: after ∧
      (∀ g ∈ before, g.ending = none) ∧ f.ending = some e ∧
      data = before.flatMap ConnRead.data ++ f.data := by
  induction fs generalizing data with
  | nil => cases h
  | cons f fs ih =>
    rw [stream] at h
    rcases hf : f.ending with _ | e'
    · rw [hf] at h
      obtain ⟨rfl, he⟩ := Prod.mk.inj h
      obtain ⟨before, g, after, rfl, hbefore, hg, heq⟩ := ih (Prod.ext rfl he)
      refine ⟨f :: before, g, after, rfl, ?_, hg, by simp [heq]⟩
      rintro g' (_ | ⟨_, hg'⟩)
      · exact hf
      · exact hbefore g' hg'
    · rw [hf] at h
      obtain ⟨rfl, ⟨⟩⟩ := Prod.mk.inj h
      exact ⟨[], f, fs, rfl, by simp, hf, by simp⟩

theorem stream_eq_none {fs : List ConnRead} (h : (stream fs).2 = none) :
    (∀ f ∈ fs, f.ending = none) ∧ (stream fs).1 = fs.flatMap ConnRead.data := by
  induction fs with
  | nil => simp [stream]
  | cons f fs ih =>
    rw [stream] at h ⊢
    rcases hf : f.ending with _ | e
    · rw [hf] at h
      obtain ⟨h1, h2⟩ := ih h
      simp only [List.forall_mem_cons, List.flatMap_cons]
      exact ⟨⟨hf, h1⟩, by rw [h2]⟩
    · rw [hf] at h
      cases h

/-- What one read hands out. -/
def HandsOut (n : ℕ) (w : WebSocketWrappedReader) : Prop :=
  match w.read n with
  | none => w.contents = ([], none)
  | some (r, w') => r.bytes.length ≤ n ∧
      match r.err with
      | none => w.contents = (r.bytes ++ w'.contents.1, w'.contents.2)
      | some e => w.contents = (r.bytes, some e)

/-- A read of bytes that were kept. -/
theorem handsOut_remaining {w : WebSocketWrappedReader} {remaining : Bytes}
    (hw : w.remainingBuffer = some remaining) (n : ℕ) : HandsOut n w := by
  unfold HandsOut WebSocketWrappedReader.read
  simp only [hw]
  by_cases hfit : remaining.length ≤ n
  · rw [if_pos hfit]
    rcases he : w.remainingError with _ | e
    · simp [WebSocketWrappedReader.contents, hw, he, hfit]
    · simp [WebSocketWrappedReader.contents, hw, he, hfit]
  · rw [if_neg hfit]
    rcases he : w.remainingError with _ | e
    · simp [WebSocketWrappedReader.contents, hw, he, ← List.append_assoc]
    · simp [WebSocketWrappedReader.contents, hw, he]

/-- A read of the next result of the connection. -/
theorem handsOut_next {w : WebSocketWrappedReader} (hw : w.remainingBuffer = none) (n : ℕ) :
    HandsOut n w := by
  unfold HandsOut WebSocketWrappedReader.read
  simp only [hw]
  rcases hconn : w.wsConn with _ | ⟨f, rest⟩
  · simp [WebSocketWrappedReader.contents, hw, hconn, stream]
  have hcontents : w.contents = stream (f :: rest) := by
    simp [WebSocketWrappedReader.contents, hw, hconn]
  rw [hcontents, stream]
  by_cases hclosed : f.isClosed = true
  · simp [hclosed, ConnRead.ending, ConnRead.data]
  by_cases hbinary : f.messageType = .binary
  · by_cases hfinish : f.framePayload = [1]
    · simp [hclosed, hbinary, hfinish, ConnRead.ending, ConnRead.data]
    · have hdata : f.data = f.framePayload.drop 1 := by simp [ConnRead.data, hclosed, hbinary]
      have hending : f.ending = f.err := by simp [ConnRead.ending, hclosed, hbinary, hfinish]
      rw [hdata, hending]
      by_cases hempty : f.framePayload = []
      · rcases he : f.err with _ | e <;>
          simp [hclosed, hbinary, hempty, he, WebSocketWrappedReader.contents]
      · simp only [hclosed, hbinary, hfinish, hempty, Bool.false_eq_true, if_false, ne_eq,
          not_true_eq_false]
        by_cases hfit : (f.framePayload.drop 1).length ≤ n
        · rw [if_pos hfit]
          rcases f.err with _ | e <;>
            simp only [WebSocketWrappedReader.contents, and_self, hfit]
        · rw [if_neg hfit]
          rcases he : f.err with _ | e
          · simp only [WebSocketWrappedReader.contents, ← List.append_assoc, List.take_append_drop]
            exact ⟨List.length_take_le n _, trivial⟩
          · simp only [WebSocketWrappedReader.contents, List.take_append_drop]
            exact ⟨List.length_take_le n _, trivial⟩
  · simp [hclosed, hbinary, ConnRead.ending, ConnRead.data]

/-- **`read` hands out the stream.** -/
theorem readerOf_stream : ReaderOf WebSocketWrappedReader.read WebSocketWrappedReader.contents := by
  have key (n : ℕ) (w : WebSocketWrappedReader) : HandsOut n w := by
    rcases hw : w.remainingBuffer with _ | remaining
    · exact handsOut_next hw n
    · exact handsOut_remaining hw n
  unfold HandsOut at key
  refine ⟨fun {n w r t} h => ?_, fun {n w r t} h he => ?_, fun {n w r t e} h he => ?_,
    fun {n w} h => ?_⟩
  all_goals
    have hkey := key n w
    rw [h] at hkey
  · exact hkey.1
  · simpa [he] using hkey.2
  · simpa [he] using hkey.2
  · exact hkey

/-! ## Any reads of any results -/

/-- A bound on the reads, into buffers that are not empty, that what is left can take. -/
def WebSocketWrappedReader.size (w : WebSocketWrappedReader) : ℕ :=
  (w.remainingBuffer.map List.length).getD 0 +
    (w.wsConn.map fun f => f.framePayload.length + 1).sum +
    if w.remainingBuffer.isSome then 1 else 0

theorem size_lt_of_read {n : ℕ} {w w' : WebSocketWrappedReader} {r : ReadResult UInt8 GoError}
    (h : w.read n = some (r, w')) (hr : r.err = none) (hn : 0 < n) : w'.size < w.size := by
  unfold WebSocketWrappedReader.read at h
  split at h
  · rename_i remaining hw
    split at h
    · cases h
      simp only [WebSocketWrappedReader.size, hw, Option.map_none, Option.getD_none,
        Option.map_some, Option.getD_some, Option.isSome_none, Option.isSome_some,
        Bool.false_eq_true, if_false, if_true]
      omega
    · rename_i hfit
      cases h
      simp only [WebSocketWrappedReader.size, hw, Option.map_some, Option.getD_some,
        Option.isSome_some, if_true, List.length_drop]
      omega
  · rename_i hw
    split at h
    · cases h
    rename_i f rest hconn
    have hsize : w.size =
        f.framePayload.length + 1 + (rest.map fun f => f.framePayload.length + 1).sum := by
      simp [WebSocketWrappedReader.size, hw, hconn]
    have hrest (c d : Bool) : WebSocketWrappedReader.size
        { w with wsConn := rest, canceled := c, draining := d } < w.size := by
      rw [hsize]
      simp [WebSocketWrappedReader.size, hw]
    simp only at h
    split at h
    · cases h
      exact hrest _ _
    split at h
    · cases h
      exact hrest _ _
    split at h
    · cases h
      exact hrest _ _
    split at h
    · cases h
      exact hrest _ _
    split at h
    · cases h
      exact hrest _ _
    · rename_i hfit
      cases h
      rw [List.length_drop] at hfit
      rw [hsize]
      simp only [WebSocketWrappedReader.size, Option.map_some, Option.getD_some, Option.isSome_some,
        if_true, List.length_drop]
      omega

/-- A stream ends with `io.EOF` only at a finish frame or at the end of the connection. -/
theorem ending_eq_eof {f : ConnRead} (h : f.ending = some .eof) :
    f.isClosed = true ∨ f.isFinish = true := by
  unfold ConnRead.ending at h
  split at h
  · exact .inl ‹_›
  split at h
  · cases h
  split at h
  · right
    simp_all [ConnRead.isFinish]
  · left
    simp [ConnRead.isClosed, h]

/-- **The contract of a reader**, for any results of the connection and any buffers. A read puts at
most as many bytes into its buffer as fit, and only the last one returns an error. When it does, the
reads have handed out the bytes of all results up to the one that ends the stream, and the error is
that of this result; it is `io.EOF` only for a finish frame or a connection that was closed or
failed. Until then they have handed out a front part, with the rest and its error still to come, and
a read that blocks means that no result has ended the stream. -/
theorem wrappedReader_reads (fs : List ConnRead) (ns : List ℕ) :
    let rs := (readAll WebSocketWrappedReader.read ns { wsConn := fs }).1
    let w := (readAll WebSocketWrappedReader.read ns { wsConn := fs }).2
    (∀ p ∈ rs.zip ns, p.1.bytes.length ≤ p.2) ∧ (∀ r ∈ rs.dropLast, r.err = none) ∧
    (∀ e, failure rs = some e → ∃ before f after, fs = before ++ f :: after ∧
      (∀ g ∈ before, g.ending = none) ∧ f.ending = some e ∧
      bytesOf rs = before.flatMap ConnRead.data ++ f.data ∧
      (e = .eof → f.isClosed = true ∨ f.isFinish = true)) ∧
    (failure rs = none → stream fs = (bytesOf rs ++ w.contents.1, w.contents.2)) ∧
    (failure rs = none → rs.length < ns.length →
      (∀ f ∈ fs, f.ending = none) ∧ bytesOf rs = fs.flatMap ConnRead.data) ∧
    ((∀ n ∈ ns, 0 < n) → rs.length ≤ (fs.map fun f => f.framePayload.length + 1).sum + 1) := by
  intro rs w
  have hcontents : (WebSocketWrappedReader.contents { wsConn := fs }) = stream fs := rfl
  have hall := readerOf_stream.readAll ns { wsConn := fs }
  obtain ⟨hfits, herr⟩ := readerOf_stream.readAll_fits ns { wsConn := fs }
  refine ⟨hfits, herr, fun e he => ?_, fun he => ?_, fun he hlt => ?_, fun hns => ?_⟩
  · rw [hcontents, he] at hall
    obtain ⟨before, f, after, hfs, hbefore, hf, hdata⟩ := stream_eq_some hall
    exact ⟨before, f, after, hfs, hbefore, hf, hdata, fun heof => ending_eq_eof (heof ▸ hf)⟩
  · rw [hcontents, he] at hall
    exact hall
  · have hblocked := readerOf_stream.readAll_of_lt hlt he
    rw [hcontents] at hblocked
    obtain ⟨hnone, hdata⟩ := stream_eq_none (congrArg Prod.snd hblocked)
    exact ⟨hnone, (congrArg Prod.fst hblocked).symm.trans hdata⟩
  · have hle := length_readAll_le WebSocketWrappedReader.size
      (fun h hr hn => size_lt_of_read h hr hn) hns { wsConn := fs }
    simpa [WebSocketWrappedReader.size] using hle

/-- **The error of a text message is lost**: the read that finds the message returns an error of its
own, and no read returns the one that came with it. -/
theorem text_error_lost :
    (readAll WebSocketWrappedReader.read [8]
        { wsConn := [⟨.text, ascii "x", some (.new (ascii "reset"))⟩] }).1 =
          [⟨[], some notBinary⟩] ∧
      ∀ ns, ∀ r ∈ (readAll WebSocketWrappedReader.read ns
        { wsConn := [⟨.text, ascii "x", some (.new (ascii "reset"))⟩] }).1,
        r.err ≠ some (.new (ascii "reset")) := by
  have hone (n : ℕ) (ns : List ℕ) : (readAll WebSocketWrappedReader.read (n :: ns)
      { wsConn := [⟨.text, ascii "x", some (.new (ascii "reset"))⟩] }).1 = [⟨[], some notBinary⟩] :=
    rfl
  refine ⟨hone 8 [], fun ns r hr => ?_⟩
  rcases ns with _ | ⟨n, ns⟩
  · cases hr
  · rw [hone n ns, List.mem_singleton] at hr
    rw [hr]
    decide

end GrpcWeb.Server

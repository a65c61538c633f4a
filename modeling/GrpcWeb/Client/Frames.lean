import Mathlib.Data.List.GetD
import GrpcWeb.Foundations.Stream
import GrpcWeb.Client.ChunkParser

/-!
# What the chunk parser reads

A `Frame` is a byte of flags and a payload; `Frame.write` is its encoding with a four-byte length,
and `frames` the parser of the first frame of a stream, an `ItemParser`. The stream at a
`ChunkParser` is what its buffer holds from its position on (`ChunkParser.pending`), and
`ChunkParser.parse_eq` says what a call does in these terms: it reads the frames of the pending
bytes and the new ones up to the first trailers frame, and leaves the rest pending. Everything the
client's results need of the parser is derived from it.
-/

namespace GrpcWeb.Client

open Js

/-- A frame of the body: its flags and its payload. -/
structure Frame where
  flag : UInt8
  payload : Bytes
  deriving DecidableEq, Repr

namespace Frame

def isTrailer (f : Frame) : Bool := f.flag &&& 0x80 == 0x80

/-- The encoding of a frame. The length wraps around at `2 ^ 32`. -/
def write (f : Frame) : Bytes := f.flag :: putUint32 (UInt32.ofNat f.payload.length) ++ f.payload

/-- The first frame of a stream and what follows it. -/
def next (s : Bytes) : Option (Frame × Bytes) :=
  if headerSize + readLengthFromHeader s ≤ s.length then
    some (⟨s.getD 0 0, (s.drop headerSize).take (readLengthFromHeader s)⟩,
      s.drop (headerSize + readLengthFromHeader s))
  else none

theorem next_length {s r : Bytes} {f : Frame} (h : next s = some (f, r)) :
    r.length < s.length := by
  unfold next at h
  split at h
  · rename_i hs
    simp only [Option.some.injEq, Prod.mk.injEq] at h
    rw [← h.2, List.length_drop]
    simp only [headerSize] at hs ⊢
    omega
  · cases h

theorem readLengthFromHeader_append {s : Bytes} (h : headerSize ≤ s.length) (t : Bytes) :
    readLengthFromHeader (s ++ t) = readLengthFromHeader s := by
  obtain ⟨a, b, c, d, e, r, rfl⟩ : ∃ a b c d e r, s = a :: b :: c :: d :: e :: r := by
    match s, h with
    | a :: b :: c :: d :: e :: r, _ => exact ⟨a, b, c, d, e, r, rfl⟩
  rfl

theorem next_append {s r : Bytes} {f : Frame} (t : Bytes) (h : next s = some (f, r)) :
    next (s ++ t) = some (f, r ++ t) := by
  unfold next at h ⊢
  split at h
  · rename_i hs
    have h5 : headerSize ≤ s.length := by omega
    simp only [Option.some.injEq, Prod.mk.injEq] at h
    obtain ⟨rfl, rfl⟩ := h
    have hget : (s ++ t).getD 0 0 = s.getD 0 0 := by
      rw [List.getD_append _ _ _ _ (by simp only [headerSize] at h5; omega)]
    rw [readLengthFromHeader_append h5, if_pos (by rw [List.length_append]; omega), hget,
      List.drop_append_of_le_length h5, List.drop_append_of_le_length hs,
      List.take_append_of_le_length (by rw [List.length_drop]; omega)]
  · cases h

/-- A frame whose length fits in four bytes reads back, whatever follows. -/
theorem next_write {f : Frame} (h : f.payload.length < 2 ^ 32) (t : Bytes) :
    next (f.write ++ t) = some (f, t) := by
  have hlen : readLengthFromHeader (f.write ++ t) = f.payload.length := by
    rw [readLengthFromHeader, write, List.append_assoc, List.cons_append, List.drop_succ_cons,
      List.drop_zero, getUint32_putUint32, toNat_ofNat_of_lt h]
  have hw : f.write ++ t = f.flag :: putUint32 (UInt32.ofNat f.payload.length) ++
      (f.payload ++ t) := by
    rw [write, List.append_assoc]
  have hdrop : (f.write ++ t).drop headerSize = f.payload ++ t := by
    rw [hw, List.drop_left' (by simp [headerSize])]
  rw [next, hlen, if_pos (by rw [hw]; simp [headerSize]; omega), ← List.drop_drop, hdrop]
  simp [write]

theorem next_nil : next [] = none := by
  rw [next, if_neg]
  simp [headerSize]

/-- The chunk that a frame becomes, or what parsing it throws. -/
def toChunk {M : Type} [BrowserHeaders M] (f : Frame) : Except JsString (Chunk M) :=
  if f.isTrailer then (parseTrailerData f.payload).map .trailers else .ok (.message f.payload)

end Frame

/-- The frames of a stream. -/
def frames : ItemParser UInt8 Frame where
  next := Frame.next
  next_length := Frame.next_length
  next_append := Frame.next_append

theorem next_frames : frames.next = Frame.next := rfl

theorem frames_next_nil : frames.next [] = none := by
  rw [next_frames, Frame.next_nil]

/-- Chunks of a list of frames, or what parsing the first that cannot be parsed throws. -/
def toChunks {M : Type} [BrowserHeaders M] : List Frame → Except JsString (List (Chunk M))
  | [] => .ok []
  | f :: fs => f.toChunk.bind fun c => (toChunks fs).map (c :: ·)

variable {M : Type} [BrowserHeaders M]

theorem toChunk_message {f : Frame} (h : f.isTrailer = false) :
    (f.toChunk : Except JsString (Chunk M)) = .ok (.message f.payload) := by
  simp [Frame.toChunk, h]

/-- What a frame that was parsed has become. -/
theorem toChunk_eq_ok {f : Frame} {c : Chunk M} (h : f.toChunk = .ok c) :
    (f.isTrailer = false ∧ c = .message f.payload) ∨
      (f.isTrailer = true ∧ ∃ m, parseTrailerData f.payload = .ok m ∧ c = .trailers m) := by
  by_cases hf : f.isTrailer = true
  · rcases hm : (parseTrailerData f.payload : Except JsString M) with e | m
    · simp [Frame.toChunk, hf, hm, Except.map] at h
    · simp only [Frame.toChunk, hf, hm, Except.map, if_true, Except.ok.injEq] at h
      exact .inr ⟨hf, m, rfl, h.symm⟩
  · simp only [Frame.toChunk, hf, if_false, Bool.false_eq_true, Except.ok.injEq] at h
    exact .inl ⟨by simpa using hf, h.symm⟩

theorem toChunks_cons {f : Frame} {fs : List Frame} {c : Chunk M} {cs : List (Chunk M)}
    (hf : f.toChunk = .ok c) (hfs : toChunks fs = .ok cs) : toChunks (f :: fs) = .ok (c :: cs) := by
  simp [toChunks, hf, hfs, Except.bind, Except.map]

theorem toChunks_cons_eq_ok {f : Frame} {fs : List Frame} {ds : List (Chunk M)}
    (h : toChunks (f :: fs) = .ok ds) :
    ∃ c cs, f.toChunk = .ok c ∧ toChunks fs = .ok cs ∧ ds = c :: cs := by
  rw [toChunks] at h
  rcases hc : (f.toChunk : Except JsString (Chunk M)) with e | c
  · simp [hc, Except.bind] at h
  rcases hcs : (toChunks fs : Except JsString (List (Chunk M))) with e | cs
  · simp [hc, hcs, Except.bind, Except.map] at h
  simp only [hc, hcs, Except.bind, Except.map, Except.ok.injEq] at h
  exact ⟨c, cs, rfl, rfl, h.symm⟩

theorem toChunks_append {fs gs : List Frame} {cs ds : List (Chunk M)}
    (hf : toChunks fs = .ok cs) (hg : toChunks gs = .ok ds) :
    toChunks (fs ++ gs) = .ok (cs ++ ds) := by
  induction fs generalizing cs with
  | nil =>
    cases hf
    exact hg
  | cons f fs ih =>
    obtain ⟨c, cs, hc, hcs, rfl⟩ := toChunks_cons_eq_ok hf
    exact toChunks_cons hc (ih hcs)

theorem toChunks_append_eq_ok {fs gs : List Frame} {ds : List (Chunk M)}
    (h : toChunks (fs ++ gs) = .ok ds) :
    ∃ cs es, toChunks fs = .ok cs ∧ toChunks gs = .ok es ∧ ds = cs ++ es := by
  induction fs generalizing ds with
  | nil => exact ⟨[], ds, rfl, h, rfl⟩
  | cons f fs ih =>
    obtain ⟨c, ds, hc, hds, rfl⟩ := toChunks_cons_eq_ok h
    obtain ⟨cs, es, h1, h2, rfl⟩ := ih hds
    exact ⟨c :: cs, es, toChunks_cons hc h1, h2, rfl⟩

/-- Message frames become message chunks. -/
theorem toChunks_messages {fs : List Frame} (h : ∀ f ∈ fs, f.isTrailer = false) :
    (toChunks fs : Except JsString (List (Chunk M))) =
      .ok (fs.map fun f => .message f.payload) := by
  induction fs with
  | nil => rfl
  | cons f fs ih =>
    exact toChunks_cons (toChunk_message (h f (by simp))) (ih fun g hg => h g (by simp [hg]))

/-- An MSB frame that cannot be parsed costs the frames before it. -/
theorem toChunks_error {fs : List Frame} {g : Frame} {e : JsString}
    (h : ∀ f ∈ fs, f.isTrailer = false) (hg : g.isTrailer = true)
    (he : (parseTrailerData g.payload : Except JsString M) = .error e) :
    (toChunks (fs ++ [g]) : Except JsString (List (Chunk M))) = .error e := by
  induction fs with
  | nil => simp [toChunks, Frame.toChunk, hg, he, Except.map, Except.bind]
  | cons f fs ih =>
    rw [List.cons_append, toChunks, toChunk_message (h f (by simp)),
      ih fun f' hf' => h f' (by simp [hf'])]
    rfl

/-! ## A call of the parser -/

theorem getD_drop_take {b : Bytes} {i n : ℕ} (h : i < n) :
    ∀ k, ((b.take (k + n)).drop k).getD i 0 = (b.drop k).getD i 0 := by
  intro k
  simp only [List.getD_eq_getElem?_getD, List.getElem?_drop]
  rw [List.getElem?_take_of_lt (by omega)]

/-- Within the buffer the loop that stands in for `slice` takes the same bytes. -/
theorem sliceUint8Array_eq {hasSlice : Bool} {buffer : Bytes} {start stop : ℕ}
    (h : stop ≤ buffer.length) :
    sliceUint8Array hasSlice buffer start (some stop) = (buffer.take stop).drop start := by
  unfold sliceUint8Array
  cases hasSlice with
  | true => rfl
  | false =>
    refine List.ext_getElem (by simp; omega) fun i h1 h2 => ?_
    have hi : i < stop - start := by simpa using h1
    simp only [Option.getD_some, Bool.false_eq_true, if_false, List.getElem_map, List.getElem_range,
      List.getElem_drop, List.getElem_take]
    rw [List.getD_eq_getElem _ _ (by omega)]

theorem readLengthFromHeader_take (b : Bytes) (k : ℕ) :
    readLengthFromHeader ((b.take (k + headerSize)).drop k) = readLengthFromHeader (b.drop k) := by
  have h : ∀ i < 4, (((b.take (k + headerSize)).drop k).drop 1).getD i 0 =
      ((b.drop k).drop 1).getD i 0 := by
    intro i hi
    have := getD_drop_take (b := b) (i := i + 1) (n := headerSize)
      (by simp only [headerSize]; omega) k
    simpa only [List.getD_eq_getElem?_getD, List.getElem?_drop, Nat.add_comm 1] using this
  simp only [readLengthFromHeader, getUint32, h 0 (by omega), h 1 (by omega), h 2 (by omega),
    h 3 (by omega)]

/-- Where no frame is complete, its message is not. -/
theorem not_hasEnoughBytes_of_next {buffer : Bytes} {position : ℕ}
    (h : Frame.next (buffer.drop position) = none) :
    ¬ hasEnoughBytes buffer position
      (headerSize + readLengthFromHeader (buffer.drop position)) = true := by
  intro hl
  have hl' := hasEnoughBytes_iff.1 hl
  rw [Frame.next, if_pos (by rw [List.length_drop]; omega)] at h
  cases h

/-- **What the loop finds where a frame stands**: its flag in the header, its payload behind that, and
the rest of the buffer behind both. -/
theorem views_of_next {buffer r : Bytes} {position : ℕ} {f : Frame}
    (h : Frame.next (buffer.drop position) = some (f, r)) (hp : position ≤ buffer.length) :
    let msgLength := readLengthFromHeader (buffer.drop position)
    position + (headerSize + msgLength) ≤ buffer.length ∧
      buffer.drop (position + (headerSize + msgLength)) = r ∧
      isTrailerHeader ((buffer.take (position + headerSize)).drop position) = f.isTrailer ∧
      (buffer.take (position + headerSize + msgLength)).drop (position + headerSize) =
        f.payload := by
  intro msgLength
  unfold Frame.next at h
  split at h
  · rename_i hl
    rw [List.length_drop] at hl
    obtain ⟨rfl, rfl⟩ : _ ∧ _ := by simpa only [Option.some.injEq, Prod.mk.injEq] using h
    refine ⟨by omega, by rw [List.drop_drop], ?_, ?_⟩
    · rw [isTrailerHeader, getD_drop_take (by simp [headerSize]), Frame.isTrailer]
    · rw [List.drop_drop, List.take_drop]
  · cases h

theorem parseLoop_of_none {hasSlice : Bool} {buffer : Bytes} {position : ℕ}
    (h : Frame.next (buffer.drop position) = none) (chunkData : List (Chunk M)) :
    parseLoop hasSlice buffer position chunkData = (.ok chunkData, position) := by
  rw [parseLoop]
  split
  · rename_i h5
    have h5' := hasEnoughBytes_iff.1 h5
    simp only [sliceUint8Array_eq h5', readLengthFromHeader_take]
    rw [dif_neg (not_hasEnoughBytes_of_next h)]
  · rfl

theorem parseLoop_of_some (hasSlice : Bool) {buffer r : Bytes} {position : ℕ} {f : Frame}
    (h : Frame.next (buffer.drop position) = some (f, r)) (hp : position ≤ buffer.length)
    (chunkData : List (Chunk M)) :
    ∃ position' > position, position' ≤ buffer.length ∧ buffer.drop position' = r ∧
      parseLoop hasSlice buffer position chunkData =
        if f.isTrailer then
          match parseTrailerData f.payload with
          | .error e => (.error e, position')
          | .ok trailers => (.ok (chunkData ++ [.trailers trailers]), position')
        else parseLoop hasSlice buffer position' (chunkData ++ [.message f.payload]) := by
  obtain ⟨hlen, hrest, hflag, hpayload⟩ := views_of_next h hp
  have h5 : position + headerSize ≤ buffer.length := by omega
  refine ⟨position + (headerSize + readLengthFromHeader (buffer.drop position)), ?_, hlen, hrest,
    ?_⟩
  · simp only [headerSize]
    omega
  · rw [parseLoop, if_pos (hasEnoughBytes_iff.2 h5)]
    simp only [sliceUint8Array_eq h5, readLengthFromHeader_take, hflag]
    rw [dif_pos (hasEnoughBytes_iff.2 hlen), sliceUint8Array_eq (by omega)]
    exact hpayload ▸ rfl

/-- **The loop of `parse`** reads the frames from its position to the first trailers frame, and
stops in front of what it has not read. -/
theorem parseLoop_eq (hasSlice : Bool) (buffer : Bytes) {position : ℕ}
    (hp : position ≤ buffer.length) (chunkData : List (Chunk M)) :
    let d := frames.drainTo Frame.isTrailer (buffer.drop position)
    let r := parseLoop hasSlice buffer position chunkData
    r.1 = (toChunks d.1).map (chunkData ++ ·) ∧ buffer.drop r.2 = d.2 ∧ r.2 ≤ buffer.length := by
  induction hn : buffer.length - position using Nat.strongRecOn generalizing position chunkData with
  | ind n ih =>
  rcases h : Frame.next (buffer.drop position) with _ | ⟨f, r⟩
  · rw [frames.drainTo_of_none _ h, parseLoop_of_none h]
    exact ⟨by simp [toChunks, Except.map], rfl, hp⟩
  · obtain ⟨position', hlt, hle, rfl, hloop⟩ := parseLoop_of_some hasSlice h hp chunkData
    rw [frames.drainTo_of_some _ h, hloop]
    by_cases hm : f.isTrailer = true
    · simp only [hm, if_true, toChunks, Frame.toChunk]
      rcases (parseTrailerData f.payload : Except JsString M) with e | m
      · exact ⟨rfl, rfl, hle⟩
      · exact ⟨rfl, rfl, hle⟩
    · simp only [hm, if_false, Bool.false_eq_true]
      obtain ⟨h1, h2, h3⟩ := ih _ (by omega) hle (chunkData ++ [.message f.payload]) rfl
      refine ⟨?_, h2, h3⟩
      rw [h1, toChunks, toChunk_message (by simpa using hm)]
      cases (toChunks _ : Except JsString (List (Chunk M))) <;> simp [Except.map, Except.bind]

namespace ChunkParser

/-- The bytes received and not yet read. -/
def pending (p : ChunkParser) : Bytes := (p.buffer.getD []).drop p.position

theorem refill_eq (p : ChunkParser) (bytes : Bytes) :
    p.refill bytes = p.pending ++ bytes := by
  unfold refill pending
  rcases p.buffer with _ | buffer
  · simp
  · simp only [Option.getD_some]
    split
    · rename_i hp
      simp [hp]
    · rw [show sliceUint8Array p.hasSlice buffer p.position none =
        sliceUint8Array p.hasSlice buffer p.position (some buffer.length) from rfl,
        sliceUint8Array_eq le_rfl, List.take_length]

/-- **A call of `parse`** reads the frames of what was pending and the bytes it is given, to the
first trailers frame, and leaves the rest pending. -/
theorem parse_eq (p : ChunkParser) (bytes : Bytes) :
    let d := frames.drainTo Frame.isTrailer (p.pending ++ bytes)
    let r : Except JsString (List (Chunk M)) × ChunkParser := p.parse bytes
    r.1 = toChunks d.1 ∧ r.2.pending = d.2 := by
  obtain ⟨h1, h2, -⟩ :=
    parseLoop_eq (M := M) p.hasSlice (p.refill bytes) (Nat.zero_le _) []
  rw [refill_eq, List.drop_zero] at h1 h2
  simp only [parse, Bool.false_eq_true, and_false, if_false]
  refine ⟨?_, ?_⟩
  · rw [refill_eq, h1]
    cases (toChunks _ : Except JsString (List (Chunk M))) <;> rfl
  · simpa only [pending, refill_eq, Option.getD_some] using h2

/-- Calls of `parse` return what the frames come to that a stopping reader is fed, when all of these
can be parsed. -/
theorem parseAll_feed {p : ChunkParser} {cs : List Bytes} {ds : List (Chunk M)}
    (hds : toChunks (feed (frames.drainTo Frame.isTrailer) p.pending cs).1 = .ok ds) :
    ∃ rs : List (List (Chunk M)), (p.parseAll cs).1 = rs.map .ok ∧ rs.flatten = ds ∧
      (p.parseAll (M := M) cs).2.pending =
        (feed (frames.drainTo Frame.isTrailer) p.pending cs).2 := by
  induction cs generalizing p ds with
  | nil =>
    cases hds
    exact ⟨[], rfl, rfl, rfl⟩
  | cons c cs ih =>
    obtain ⟨hr, hpend⟩ := p.parse_eq (M := M) c
    rw [feed, ← hpend] at hds ⊢
    obtain ⟨ds₁, ds₂, h1, h2, rfl⟩ := toChunks_append_eq_ok hds
    obtain ⟨rs, hrs, rfl, hrest⟩ := ih h2
    refine ⟨ds₁ :: rs, ?_, rfl, hrest⟩
    rw [parseAll, hr, h1, hrs]
    rfl

/-- **Calls of `parse` on the pieces of a stream** return what the whole stream comes to, however
it is cut, when no frame but the last is a trailers frame and all of them can be parsed. -/
theorem parseAll_eq {p : ChunkParser} {cs : List Bytes} {ds : List (Chunk M)}
    (hp : frames.next p.pending = none)
    (hlast : ∀ f ∈ (frames.drain (p.pending ++ cs.flatten)).1.dropLast, f.isTrailer = false)
    (hds : toChunks (frames.drain (p.pending ++ cs.flatten)).1 = .ok ds) :
    ∃ rs : List (List (Chunk M)), (p.parseAll cs).1 = rs.map .ok ∧ rs.flatten = ds ∧
      (p.parseAll (M := M) cs).2.pending = (frames.drain (p.pending ++ cs.flatten)).2 := by
  rw [← frames.feed_drainTo hp hlast] at hds ⊢
  exact parseAll_feed hds

/-- A parser that has not been given anything. -/
theorem pending_fresh (hasSlice : Bool) : (⟨hasSlice, none, 0⟩ : ChunkParser).pending = [] := rfl

end ChunkParser

end GrpcWeb.Client

import Mathlib.Data.List.Chain
import GrpcWeb.Client.Frames

/-!
# What the chunk parser does with its bytes

`ChunkParser` keeps a cursor over a buffer that it replaces, whatever it is given: bytes that are
malformed, empty calls, the flush of a call, and calls after one that threw. `parseLoopTraced` is
the loop of `parse` that also records its rounds (`parseLoopTraced_fst`): where each one begins,
which slices of the buffer it takes, and where it leaves the position.

* `Trace.spec`: the slices lie within the buffer, every round but the last moves the position by at
  least a header, and what a round reads is one frame.
* `parser_conserves`: after any calls the position lies within the buffer, what has been fed is the
  frames that were read and then the rest of the buffer, and nothing depends on whether the engine
  has a `slice` method.
-/

namespace GrpcWeb.Client

open Js

variable {M : Type} [BrowserHeaders M]

/-! ## The loop and its rounds -/

/-- A round of the loop: the position it begins at, the arguments of its calls of `sliceUint8Array`,
and the position it leaves. -/
structure Round where
  start : ℕ
  slices : List (ℕ × ℕ)
  stop : ℕ
  deriving DecidableEq

/-- `parseLoop`, and its rounds. -/
def parseLoopTraced (hasSlice : Bool) (buffer : Bytes) (position : ℕ) (chunkData : List (Chunk M)) :
    (Except JsString (List (Chunk M)) × ℕ) × List Round :=
  if hasEnoughBytes buffer position headerSize then
    let headerView := sliceUint8Array hasSlice buffer position (some (position + headerSize))
    let header := (position, position + headerSize)
    let msgLength := readLengthFromHeader headerView
    if h : hasEnoughBytes buffer position (headerSize + msgLength) then
      let messageData := sliceUint8Array hasSlice buffer (position + headerSize)
        (some (position + headerSize + msgLength))
      let message := (position + headerSize, position + headerSize + msgLength)
      let position' := position + (headerSize + msgLength)
      if isTrailerHeader headerView then
        match parseTrailerData messageData with
        | .error e => ((.error e, position'), [⟨position, [header, message], position'⟩])
        | .ok trailers =>
          ((.ok (chunkData ++ [.trailers trailers]), position'),
            [⟨position, [header, message], position'⟩])
      else
        (parseLoopTraced hasSlice buffer position' (chunkData ++ [.message messageData])).map id
          (⟨position, [header, message], position'⟩ :: ·)
    else ((.ok chunkData, position), [⟨position, [header], position⟩])
  else ((.ok chunkData, position), [⟨position, [], position⟩])
termination_by buffer.length - position
decreasing_by
  have := hasEnoughBytes_iff.1 h
  simp only [headerSize] at this ⊢
  omega

/-! ## What a round reads -/

/-- The bytes between the positions of a round. -/
def Round.piece (buffer : Bytes) (r : Round) : Bytes := (buffer.take r.stop).drop r.start

/-- A frame as it stands in the buffer: a header and as many bytes as it declares. -/
def IsFrame (piece : Bytes) : Prop :=
  readLengthFromHeader piece < 2 ^ 32 ∧ piece.length = headerSize + readLengthFromHeader piece

/-- A round stays within the buffer, and when it moves the position it reads one frame. -/
structure Round.Valid (buffer : Bytes) (r : Round) : Prop where
  start_le : r.start ≤ r.stop
  stop_le : r.stop ≤ buffer.length
  slices : ∀ s ∈ r.slices, r.start ≤ s.1 ∧ s.1 ≤ s.2 ∧ s.2 ≤ buffer.length
  frame : r.start < r.stop → IsFrame (r.piece buffer)

/-- The rounds that lead from one position to another: each goes on where the one before it left the
position, and each but the last moves it by a header or more. -/
inductive Trace (buffer : Bytes) : ℕ → List Round → ℕ → Prop
  | last {r : Round} : r.Valid buffer → Trace buffer r.start [r] r.stop
  | cons {r : Round} {rs : List Round} {stop : ℕ} : r.Valid buffer → r.start + headerSize ≤ r.stop →
      Trace buffer r.stop rs stop → Trace buffer r.start (r :: rs) stop

theorem readLengthFromHeader_lt (headerView : Bytes) :
    readLengthFromHeader headerView < 2 ^ 32 := by
  have hbyte : ∀ i, ((headerView.drop 1).getD i 0).toNat < 256 := fun i => UInt8.toNat_lt _
  have h0 := hbyte 0
  have h1 := hbyte 1
  have h2 := hbyte 2
  have h3 := hbyte 3
  rw [readLengthFromHeader, getUint32]
  omega

/-- The frame at a position of the buffer. -/
theorem isFrame_at {buffer : Bytes} {position msgLength : ℕ}
    (hlen : readLengthFromHeader (buffer.drop position) = msgLength)
    (h : position + (headerSize + msgLength) ≤ buffer.length) :
    IsFrame ((buffer.take (position + (headerSize + msgLength))).drop position) := by
  have hread :
      readLengthFromHeader ((buffer.take (position + (headerSize + msgLength))).drop position) =
        msgLength := by
    rw [← hlen, ← List.take_drop,
      ← Frame.readLengthFromHeader_append (t := (buffer.drop position).drop _),
      List.take_append_drop]
    rw [List.length_take, List.length_drop]
    omega
  refine ⟨readLengthFromHeader_lt _, ?_⟩
  rw [hread, List.length_drop, List.length_take_of_le h]
  omega

/-- The last round finds no frame. -/
theorem parseLoopTraced_of_none (hasSlice : Bool) {buffer : Bytes} {position : ℕ}
    (h : Frame.next (buffer.drop position) = none) (hp : position ≤ buffer.length)
    (chunkData : List (Chunk M)) :
    ∃ r : Round, r.Valid buffer ∧ r.start = position ∧ r.stop = position ∧
      parseLoopTraced hasSlice buffer position chunkData = ((.ok chunkData, position), [r]) := by
  rw [parseLoopTraced]
  by_cases h5 : hasEnoughBytes buffer position headerSize = true
  · have h5' := hasEnoughBytes_iff.1 h5
    rw [if_pos h5]
    simp only [sliceUint8Array_eq h5', readLengthFromHeader_take]
    rw [dif_neg (not_hasEnoughBytes_of_next h)]
    refine ⟨_, ⟨le_rfl, hp, ?_, fun hlt => absurd hlt (lt_irrefl _)⟩, rfl, rfl, rfl⟩
    simp only [List.mem_singleton, forall_eq]
    exact ⟨le_rfl, Nat.le_add_right _ _, h5'⟩
  · rw [if_neg h5]
    exact ⟨⟨position, [], position⟩, ⟨le_rfl, hp, by simp, fun hlt => absurd hlt (lt_irrefl _)⟩,
      rfl, rfl, rfl⟩

/-- A round that finds a frame reads it. -/
theorem parseLoopTraced_of_some (hasSlice : Bool) {buffer rest : Bytes} {position : ℕ} {f : Frame}
    (h : Frame.next (buffer.drop position) = some (f, rest)) (hp : position ≤ buffer.length)
    (chunkData : List (Chunk M)) :
    ∃ r : Round, r.Valid buffer ∧ r.start = position ∧ r.start + headerSize ≤ r.stop ∧
      buffer.drop r.stop = rest ∧
      parseLoopTraced hasSlice buffer position chunkData =
        if f.isTrailer then
          match parseTrailerData f.payload with
          | .error e => ((.error e, r.stop), [r])
          | .ok trailers => ((.ok (chunkData ++ [.trailers trailers]), r.stop), [r])
        else
          (parseLoopTraced hasSlice buffer r.stop (chunkData ++ [.message f.payload])).map id
            (r :: ·) := by
  obtain ⟨hlen, hrest, hflag, hpayload⟩ := views_of_next h hp
  have h5 : position + headerSize ≤ buffer.length := by omega
  refine ⟨⟨position, [(position, position + headerSize), (position + headerSize,
    position + headerSize + readLengthFromHeader (buffer.drop position))],
    position + (headerSize + readLengthFromHeader (buffer.drop position))⟩,
    ⟨Nat.le_add_right _ _, hlen, ?_, fun _ => isFrame_at rfl hlen⟩, rfl, ?_, hrest, ?_⟩
  · have hnn := Nat.zero_le (readLengthFromHeader (buffer.drop position))
    simp only [List.mem_cons, List.not_mem_nil, or_false, forall_eq_or_imp, forall_eq]
    omega
  · show position + headerSize ≤ position + (headerSize + _)
    omega
  · rw [parseLoopTraced, if_pos (hasEnoughBytes_iff.2 h5)]
    simp only [sliceUint8Array_eq h5, readLengthFromHeader_take, hflag]
    rw [dif_pos (hasEnoughBytes_iff.2 hlen), sliceUint8Array_eq (by omega)]
    exact hpayload ▸ rfl

/-- Two positions of a buffer with the same bytes behind them are the same. -/
theorem position_eq {buffer : Bytes} {p q : ℕ} (hp : p ≤ buffer.length) (hq : q ≤ buffer.length)
    (h : buffer.drop p = buffer.drop q) : p = q := by
  have hlen := congrArg List.length h
  rw [List.length_drop, List.length_drop] at hlen
  omega

/-- **The traced loop** does what the loop does, in rounds that are a trace. -/
theorem parseLoopTraced_spec (hasSlice : Bool) {buffer : Bytes} {position : ℕ}
    (hp : position ≤ buffer.length) (chunkData : List (Chunk M)) :
    let t := parseLoopTraced hasSlice buffer position chunkData
    t.1 = parseLoop hasSlice buffer position chunkData ∧ Trace buffer position t.2 t.1.2 := by
  induction hn : buffer.length - position using Nat.strongRecOn generalizing position chunkData with
  | ind n ih =>
  rcases h : Frame.next (buffer.drop position) with _ | ⟨f, rest⟩
  · obtain ⟨r, hr, hstart, hstop, ht⟩ := parseLoopTraced_of_none hasSlice h hp chunkData
    rw [ht, parseLoop_of_none h]
    refine ⟨rfl, ?_⟩
    have htrace : Trace buffer r.start [r] r.stop := .last hr
    rwa [hstart, hstop] at htrace
  · obtain ⟨r, hr, hstart, hmove, hrest, ht⟩ := parseLoopTraced_of_some hasSlice h hp chunkData
    obtain ⟨position', -, hle, hdrop, hloop⟩ := parseLoop_of_some hasSlice h hp chunkData
    obtain rfl : position' = r.stop := position_eq hle hr.stop_le (hdrop.trans hrest.symm)
    have hlast : Trace buffer position [r] r.stop := hstart ▸ .last hr
    rw [ht, hloop]
    split
    · cases (parseTrailerData f.payload : Except JsString M) with
      | error e => exact ⟨rfl, hlast⟩
      | ok trailers => exact ⟨rfl, hlast⟩
    · have hsmall : buffer.length - r.stop < n := by
        simp only [headerSize] at hmove
        have := hr.stop_le
        omega
      obtain ⟨hsame, htrace⟩ := ih _ hsmall hr.stop_le (chunkData ++ [.message f.payload]) rfl
      exact ⟨hsame, hstart ▸ .cons hr hmove htrace⟩

/-! ## The frames of a trace -/

/-- The frames that the rounds have read. -/
def piecesRead (buffer : Bytes) (rs : List Round) : List Bytes :=
  (rs.filter fun r => r.start < r.stop).map (Round.piece buffer)

theorem Trace.bounds {buffer : Bytes} {rs : List Round} {start stop : ℕ}
    (h : Trace buffer start rs stop) : start ≤ stop ∧ stop ≤ buffer.length := by
  induction h with
  | last hr => exact ⟨hr.start_le, hr.stop_le⟩
  | cons hr _ _ ih => exact ⟨hr.start_le.trans ih.1, ih.2⟩

theorem Trace.isFrame {buffer : Bytes} {rs : List Round} {start stop : ℕ}
    (h : Trace buffer start rs stop) : ∀ piece ∈ piecesRead buffer rs, IsFrame piece := by
  have hvalid : ∀ r ∈ rs, r.Valid buffer := by
    induction h with
    | last hr => simpa using hr
    | cons hr _ _ ih => exact List.forall_mem_cons.2 ⟨hr, ih⟩
  intro piece hpiece
  obtain ⟨r, hr, rfl⟩ := List.mem_map.1 hpiece
  obtain ⟨hr, hmove⟩ := List.mem_filter.1 hr
  exact (hvalid r hr).frame (by simpa using hmove)

/-- The bytes behind a round's start are its piece and what is behind its stop. -/
theorem Round.Valid.drop_eq {buffer : Bytes} {r : Round} (h : r.Valid buffer) :
    buffer.drop r.start = (piecesRead buffer [r]).flatten ++ buffer.drop r.stop := by
  have hpiece : buffer.drop r.start = r.piece buffer ++ buffer.drop r.stop := by
    rw [Round.piece, ← List.drop_append_of_le_length, List.take_append_drop]
    rw [List.length_take_of_le h.stop_le]
    exact h.start_le
  by_cases hmove : r.start < r.stop
  · simpa [piecesRead, hmove] using hpiece
  · rw [le_antisymm h.start_le (not_lt.1 hmove)]
    simp [piecesRead, hmove]

/-- **What a trace reads**: the bytes between its ends, frame by frame. -/
theorem Trace.drop_eq {buffer : Bytes} {rs : List Round} {start stop : ℕ}
    (h : Trace buffer start rs stop) :
    buffer.drop start = (piecesRead buffer rs).flatten ++ buffer.drop stop := by
  induction h with
  | last hr => exact hr.drop_eq
  | @cons r rs stop hr _ _ ih =>
    have hcons : (piecesRead buffer (r :: rs)).flatten =
        (piecesRead buffer [r]).flatten ++ (piecesRead buffer rs).flatten := by
      rw [← List.flatten_append, piecesRead, piecesRead, piecesRead, ← List.map_append,
        ← List.filter_append, List.singleton_append]
    rw [hr.drop_eq, ih, hcons, List.append_assoc]

/-! ## Calls -/

namespace ChunkParser

variable (M)

/-- The rounds of a call. -/
def rounds (p : ChunkParser) (bytes : Bytes) (flush : Bool) : List Round :=
  if bytes.length = 0 ∧ flush then []
  else (parseLoopTraced (M := M) p.hasSlice (p.refill bytes) 0 []).2

/-- The frames that a call reads. -/
def consumed (p : ChunkParser) (bytes : Bytes) (flush : Bool) : List Bytes :=
  piecesRead (p.refill bytes) (p.rounds M bytes flush)

/-- Calls of `parse` with their flush arguments: what each of them returns or throws. -/
def parseCalls (p : ChunkParser) :
    List (Bytes × Bool) → List (Except JsString (List (Chunk M))) × ChunkParser
  | [] => ([], p)
  | c :: cs =>
    let r : Except JsString (List (Chunk M)) × ChunkParser := p.parse c.1 c.2
    let rs := r.2.parseCalls cs
    (r.1 :: rs.1, rs.2)

/-- The frames that the calls have read. -/
def consumedBy (p : ChunkParser) : List (Bytes × Bool) → List Bytes
  | [] => []
  | c :: cs =>
    let r : Except JsString (List (Chunk M)) × ChunkParser := p.parse c.1 c.2
    p.consumed M c.1 c.2 ++ r.2.consumedBy cs

variable {M}

/-- The position lies within the buffer. -/
def InBounds (p : ChunkParser) : Prop := p.position ≤ (p.buffer.getD []).length

/-- **One call**, whether it returns or throws: its rounds are a trace of the refilled buffer, and
the bytes that were pending and the new ones are the frames it reads and what is pending behind
it. -/
theorem parse_conserves (p : ChunkParser) (hp : p.InBounds) (bytes : Bytes) (flush : Bool) :
    let q : ChunkParser := (p.parse (M := M) bytes flush).2
    q.InBounds ∧ q.hasSlice = p.hasSlice ∧
      (¬(bytes.length = 0 ∧ flush = true) →
        Trace (p.refill bytes) 0 (p.rounds M bytes flush) q.position) ∧
      (∀ piece ∈ p.consumed M bytes flush, IsFrame piece) ∧
      p.pending ++ bytes = (p.consumed M bytes flush).flatten ++ q.pending := by
  by_cases hflush : bytes.length = 0 ∧ flush = true
  · have hbytes : bytes = [] := List.length_eq_zero_iff.1 hflush.1
    simp [parse, consumed, rounds, piecesRead, hflush, hp, hbytes]
  · obtain ⟨hsame, htrace⟩ := parseLoopTraced_spec (M := M) p.hasSlice
      (Nat.zero_le (p.refill bytes).length) []
    rw [hsame] at htrace
    simp only [parse, rounds, consumed, hflush, if_false]
    refine ⟨htrace.bounds.2, trivial, fun _ => htrace, htrace.isFrame, ?_⟩
    rw [← refill_eq]
    exact htrace.drop_eq

/-- **Calls one after the other.** -/
theorem parseCalls_conserves (p : ChunkParser) (hp : p.InBounds) (calls : List (Bytes × Bool)) :
    let q := (p.parseCalls M calls).2
    q.InBounds ∧ (∀ piece ∈ p.consumedBy M calls, IsFrame piece) ∧
      p.pending ++ calls.flatMap (·.1) = (p.consumedBy M calls).flatten ++ q.pending := by
  induction calls generalizing p with
  | nil => exact ⟨hp, nofun, by simp [consumedBy, parseCalls]⟩
  | cons c calls ih =>
    obtain ⟨hq, -, -, hframes, hbytes⟩ := parse_conserves (M := M) p hp c.1 c.2
    obtain ⟨hend, hmore, hrest⟩ := ih _ hq
    refine ⟨hend, fun piece hpiece => ?_, ?_⟩
    · rcases List.mem_append.1 hpiece with hpiece | hpiece
      · exact hframes piece hpiece
      · exact hmore piece hpiece
    · rw [List.flatMap_cons, ← List.append_assoc, hbytes, List.append_assoc, hrest, consumedBy,
        List.flatten_append, List.append_assoc]
      rfl

/-- The loop does the same with the fallback as with `slice`. -/
theorem parseLoop_hasSlice (b c : Bool) {buffer : Bytes} {position : ℕ}
    (hp : position ≤ buffer.length) (chunkData : List (Chunk M)) :
    parseLoop b buffer position chunkData = parseLoop c buffer position chunkData := by
  obtain ⟨hb, hbd, hble⟩ := parseLoop_eq b buffer hp chunkData
  obtain ⟨hc, hcd, hcle⟩ := parseLoop_eq c buffer hp chunkData
  exact Prod.ext (hb.trans hc.symm) (position_eq hble hcle (hbd.trans hcd.symm))

/-- A call does the same with the fallback as with `slice`. -/
theorem parse_hasSlice (p : ChunkParser) (b : Bool) (bytes : Bytes) (flush : Bool) :
    ({ p with hasSlice := b }.parse (M := M) bytes flush) =
      ((p.parse bytes flush).1, { (p.parse (M := M) bytes flush).2 with hasSlice := b }) := by
  have hrefill : { p with hasSlice := b }.refill bytes = p.refill bytes := by
    rw [refill_eq, refill_eq]
    rfl
  unfold parse
  split
  · rfl
  · simp only [hrefill]
    rw [parseLoop_hasSlice b p.hasSlice (Nat.zero_le _)]

theorem parseCalls_hasSlice (p : ChunkParser) (b : Bool) (calls : List (Bytes × Bool)) :
    ({ p with hasSlice := b }.parseCalls M calls) =
      ((p.parseCalls M calls).1, { (p.parseCalls M calls).2 with hasSlice := b }) := by
  induction calls generalizing p with
  | nil => rfl
  | cons c calls ih => simp only [parseCalls, parse_hasSlice, ih]

end ChunkParser

/-- **Conservation in the chunk parser**: after any calls of `parse`, whatever bytes they were
given, with flush or without, and whether they returned or threw, the position lies within the
buffer; the bytes fed are the frames that were read, each as long as it declares, and then the rest
of the buffer; the rounds of any further call stay within its buffer, go on from one another and
each but the last moves the position by a header or more; and a parser that has to do without
`slice` returns the same and is left in the same state. -/
theorem parser_conserves (M : Type) [BrowserHeaders M] (hasSlice : Bool)
    (calls : List (Bytes × Bool)) :
    let fresh : ChunkParser := { hasSlice := hasSlice }
    let p := (fresh.parseCalls M calls).2
    p.position ≤ (p.buffer.getD []).length ∧
      calls.flatMap (·.1) =
        (fresh.consumedBy M calls).flatten ++ (p.buffer.getD []).drop p.position ∧
      (∀ piece ∈ fresh.consumedBy M calls,
        readLengthFromHeader piece < 2 ^ 32 ∧
          piece.length = headerSize + readLengthFromHeader piece) ∧
      (∀ bytes flush, ¬(bytes.length = 0 ∧ flush = true) →
        Trace (p.refill bytes) 0 (p.rounds M bytes flush)
          (p.parse (M := M) bytes flush).2.position) ∧
      ({ hasSlice := false : ChunkParser }.parseCalls M calls) =
        ((fresh.parseCalls M calls).1, { p with hasSlice := false }) := by
  intro fresh p
  have hfresh : fresh.InBounds := Nat.zero_le _
  obtain ⟨hp, hframes, hbytes⟩ := ChunkParser.parseCalls_conserves (M := M) fresh hfresh calls
  refine ⟨hp, hbytes, hframes, fun bytes flush hcall => ?_, ?_⟩
  · exact (ChunkParser.parse_conserves (M := M) p hp bytes flush).2.2.1 hcall
  · exact ChunkParser.parseCalls_hasSlice fresh false calls

end GrpcWeb.Client

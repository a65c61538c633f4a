import GrpcWeb.Client.Fragments

/-!
# The status of a call

Which code a call ends with, said of the history of its events alone. `decides before e` is the code
that an event decides on when the events `before` have come: headers whose status is not OK, a chunk
that cannot be parsed, or the end of the transport. What the end decides rests on the collections
that the response has brought (`blocks`): the last MSB frame that counted as trailers, or else the
latest response headers. An MSB frame counts as trailers unless nothing has come before it.

`status_of_call` says that a call ends once, with the code of its first deciding event, and that it
ends with OK exactly if that event is the end of the transport and the collection that is handed to
`onEnd` has a `grpc-status` of 0.
-/

namespace GrpcWeb.Client

open Js

variable {M Req Res : Type}

/-- A collection that a response brings: with its headers, or in an MSB frame. -/
inductive Block (M : Type)
  | headers (collection : M)
  | frame (collection : M)

/-- The collection of the headers. -/
def Block.headers? : Block M → Option M
  | .headers c => some c
  | .frame _ => none

/-- The collection of an MSB frame. -/
def Block.frame? : Block M → Option M
  | .headers _ => none
  | .frame c => some c

/-- The response headers: the latest ones, or an MSB frame that came before anything else. -/
def latestHeaders (bs : List (Block M)) : Option M :=
  (bs.filterMap Block.headers?).getLast?.or (bs.head?.bind Block.frame?)

/-- The last MSB frame that counted as trailers. -/
def lastTrailers (bs : List (Block M)) : Option M := (bs.tail.filterMap Block.frame?).getLast?

/-- The collection that the end of the transport hands to `onEnd`. -/
def finalBlock (bs : List (Block M)) : Option M := (lastTrailers bs).or (latestHeaders bs)

theorem latestHeaders_headers (bs : List (Block M)) (h : M) :
    latestHeaders (bs ++ [.headers h]) = some h := by
  simp [latestHeaders, Block.headers?]

theorem latestHeaders_eq_none {bs : List (Block M)} : latestHeaders bs = none ↔ bs = [] := by
  rcases bs with _ | ⟨b | b, bs⟩ <;> simp [latestHeaders, Block.headers?, Block.frame?]

theorem latestHeaders_frame (bs : List (Block M)) (t : M) :
    latestHeaders (bs ++ [.frame t]) = (latestHeaders bs).or (some t) := by
  rcases bs with _ | ⟨b, bs⟩
  · rfl
  · have hne : latestHeaders (b :: bs) ≠ none := fun h => by simpa using latestHeaders_eq_none.1 h
    have hmap : (b :: bs ++ [Block.frame t]).filterMap Block.headers? =
        (b :: bs).filterMap Block.headers? := by
      rw [List.filterMap_append]
      exact List.append_nil _
    have hsame : latestHeaders (b :: bs ++ [.frame t]) = latestHeaders (b :: bs) := by
      rw [latestHeaders, hmap]
      rfl
    obtain ⟨h, hh⟩ := Option.ne_none_iff_exists'.1 hne
    rw [hsame, hh]
    rfl

theorem lastTrailers_headers (bs : List (Block M)) (h : M) :
    lastTrailers (bs ++ [.headers h]) = lastTrailers bs := by
  rcases bs with _ | ⟨b, bs⟩ <;> simp [lastTrailers, Block.frame?]

theorem lastTrailers_frame (bs : List (Block M)) (t : M) :
    lastTrailers (bs ++ [.frame t]) = if bs = [] then none else some t := by
  rcases bs with _ | ⟨b, bs⟩ <;> simp [lastTrailers, Block.frame?]

theorem Block.headers?_eq_some {b : Block M} {t : M} (h : b.headers? = some t) :
    b = .headers t := by
  cases b with
  | headers c => rw [Option.some.inj h]
  | frame c => cases h

theorem Block.frame?_eq_some {b : Block M} {t : M} (h : b.frame? = some t) : b = .frame t := by
  cases b with
  | headers c => cases h
  | frame c => rw [Option.some.inj h]

/-- The final collection came with headers or in an MSB frame. -/
theorem mem_of_finalBlock {bs : List (Block M)} {t : M} (h : finalBlock bs = some t) :
    Block.headers t ∈ bs ∨ Block.frame t ∈ bs := by
  rcases Option.or_eq_some_iff.1 h with h | ⟨-, h⟩
  · obtain ⟨b, hb, hbt⟩ := List.mem_filterMap.1 (List.mem_of_getLast? h)
    rw [Block.frame?_eq_some hbt] at hb
    exact .inr (List.mem_of_mem_tail hb)
  · rcases Option.or_eq_some_iff.1 h with h | ⟨-, h⟩
    · obtain ⟨b, hb, hbt⟩ := List.mem_filterMap.1 (List.mem_of_getLast? h)
      rw [Block.headers?_eq_some hbt] at hb
      exact .inl hb
    · obtain ⟨b, hb, hbt⟩ := Option.bind_eq_some_iff.1 h
      rw [Block.frame?_eq_some hbt] at hb
      exact .inr (List.mem_of_mem_head? hb)

/-- The MSB frames of a chunk. -/
def framesOf [BrowserHeaders M] (ds : List (Chunk M)) : List (Block M) :=
  ds.filterMap fun d => match d with
    | .message _ => none
    | .trailers t => some (.frame (BrowserHeaders.copy t))

/-! ## The history of a response -/

section History

variable [BrowserHeaders M]

/-- What `parse` reads when bytes come after those that it has left unread. -/
def readChunk (unread bytes : Bytes) : Except JsString (List (Chunk M)) :=
  toChunks (frames.drainTo Frame.isTrailer (unread ++ bytes)).1

/-- The bytes left unread after an event. -/
def unreadOf (unread : Bytes) : TransportEvent M → Bytes
  | .onChunk bytes => (frames.drainTo Frame.isTrailer (unread ++ bytes)).2
  | _ => unread

/-- The collections that an event brings. -/
def blocksOf (unread : Bytes) : TransportEvent M → List (Block M)
  | .onHeaders headers status => if status = 0 then [] else [.headers headers]
  | .onChunk bytes =>
    match readChunk unread bytes with
    | .error _ => []
    | .ok ds => framesOf ds
  | .onEnd => []

/-- The bytes left unread after all the events. -/
def unreadAfter (events : List (TransportEvent M)) : Bytes := events.foldl unreadOf []

/-- The collections that a response has brought. -/
def blocksFrom (unread : Bytes) : List (TransportEvent M) → List (Block M)
  | [] => []
  | e :: es => blocksOf unread e ++ blocksFrom (unreadOf unread e) es

def blocks (events : List (TransportEvent M)) : List (Block M) := blocksFrom [] events

omit [BrowserHeaders M] in
theorem unreadAfter_concat (events : List (TransportEvent M)) (e : TransportEvent M) :
    unreadAfter (events ++ [e]) = unreadOf (unreadAfter events) e := by
  rw [unreadAfter, List.foldl_append]
  rfl

theorem blocks_concat (events : List (TransportEvent M)) (e : TransportEvent M) :
    blocks (events ++ [e]) = blocks events ++ blocksOf (unreadAfter events) e := by
  have key (u : Bytes) : blocksFrom u (events ++ [e]) =
      blocksFrom u events ++ blocksOf (events.foldl unreadOf u) e := by
    induction events generalizing u with
    | nil => simp [blocksFrom]
    | cons e' es ih => simp [blocksFrom, ih]
  exact key []

/-- The code that an event decides on, when the events `before` have come. -/
def decides (before : List (TransportEvent M)) : TransportEvent M → Option Number
  | .onHeaders headers status =>
    if status = 0 then none
    else
      match (getStatusFromHeaders headers).filter Number.isPositive with
      | some n => some n
      | none => if httpStatusToCode status = .ok then none else some (httpStatusToCode status)
  | .onChunk bytes =>
    match (readChunk (unreadAfter before) bytes : Except JsString (List (Chunk M))) with
    | .error _ => some Code.internal
    | .ok _ => none
  | .onEnd =>
    match lastTrailers (blocks before) with
    | some trailers => some ((getStatusFromHeaders trailers).getD Code.internal)
    | none =>
      match latestHeaders (blocks before) with
      | some headers => some ((getStatusFromHeaders headers).getD Code.unknown)
      | none => some Code.unknown

/-- The code that the first deciding one of the events decides on. -/
def decision (before : List (TransportEvent M)) : List (TransportEvent M) → Option Number
  | [] => none
  | e :: es =>
    match decides before e with
    | some code => some code
    | none => decision (before ++ [e]) es

theorem decision_append (before xs ys : List (TransportEvent M)) :
    decision before (xs ++ ys) = (decision before xs).or (decision (before ++ xs) ys) := by
  induction xs generalizing before with
  | nil => simp [decision]
  | cons x xs ih =>
    rw [List.cons_append, decision, decision]
    rcases decides before x with _ | code
    · simpa using ih (before ++ [x])
    · rfl

theorem decision_eq_some {before events : List (TransportEvent M)} {code : Number}
    (h : decision before events = some code) :
    ∃ xs e ys, events = xs ++ e :: ys ∧ decision before xs = none ∧
      decides (before ++ xs) e = some code := by
  induction events generalizing before with
  | nil => cases h
  | cons e es ih =>
    rw [decision] at h
    rcases hd : decides before e with _ | c
    · rw [hd] at h
      obtain ⟨xs, e', ys, rfl, h1, h2⟩ := ih h
      refine ⟨e :: xs, e', ys, rfl, ?_, by simpa using h2⟩
      rw [decision, hd]
      exact h1
    · rw [hd] at h
      exact ⟨[], e, es, rfl, rfl, by simpa [hd] using h⟩

/-- No message that `parse` reads at an event makes `deserializeBinary` throw. -/
def LegibleAt (methodDefinition : MethodDefinition Req Res) (before : List (TransportEvent M)) :
    TransportEvent M → Prop
  | .onChunk bytes =>
    ∀ ds : List (Chunk M), readChunk (unreadAfter before) bytes = .ok ds →
      Readable methodDefinition ds
  | _ => True

/-- No message that `parse` reads before an event has decided makes `deserializeBinary` throw. -/
def Legible (methodDefinition : MethodDefinition Req Res)
    (events : List (TransportEvent M)) : Prop :=
  ∀ before e after, events = before ++ e :: after → decision [] before = none →
    LegibleAt methodDefinition before e

variable {methodDefinition : MethodDefinition Req Res}

theorem MethodDefinition.Total.legible (h : methodDefinition.Total)
    (events : List (TransportEvent M)) : Legible methodDefinition events := by
  intro before e after _ _
  cases e with
  | onChunk bytes => exact fun _ _ data _ => h data
  | onHeaders headers status => trivial
  | onEnd => trivial

theorem Legible.of_append {xs ys : List (TransportEvent M)}
    (h : Legible methodDefinition (xs ++ ys)) : Legible methodDefinition xs := by
  rintro before e after rfl hd
  exact h before e (after ++ ys) (by simp) hd

/-! ## A reception and its history -/

/-- The collections of a reception are those of a history. -/
structure Describes (bs : List (Block M)) (r : Reception M Res) : Prop where
  headers : r.headers = latestHeaders bs
  trailers : r.trailers = lastTrailers bs

theorem Describes.takeChunks {ds : List (Chunk M)}
    (hd : Readable methodDefinition ds) {bs : List (Block M)} {r : Reception M Res}
    (h : Describes bs r) : Describes (bs ++ framesOf ds) (r.takeChunks methodDefinition ds) := by
  induction ds generalizing bs r with
  | nil => simpa [framesOf, Reception.takeChunks] using h
  | cons d ds ih =>
    have hds : Readable methodDefinition ds := fun data hm => hd data (List.mem_cons_of_mem _ hm)
    cases d with
    | message data =>
      obtain ⟨res, hres⟩ := hd data List.mem_cons_self
      rw [Reception.takeChunks, hres]
      exact ih hds ⟨by simpa using h.headers, by simpa using h.trailers⟩
    | trailers t =>
      have hsplit : bs ++ framesOf (.trailers t :: ds) =
          bs ++ [.frame (BrowserHeaders.copy t)] ++ framesOf ds := by
        simp [framesOf]
      rw [hsplit, Reception.takeChunks]
      rcases hr : r.headers with _ | headers
      · have hbs : bs = [] := latestHeaders_eq_none.1 (h.headers.symm.trans hr)
        refine ih hds ⟨?_, ?_⟩
        · rw [latestHeaders_frame, hbs]
          simp [latestHeaders]
        · rw [lastTrailers_frame, if_pos hbs, Reception.trailers_see]
          exact h.trailers.trans (by rw [hbs]; rfl)
      · have hbs : bs ≠ [] := fun hbs => by
          rw [h.headers, latestHeaders_eq_none.2 hbs] at hr
          cases hr
        refine ih hds ⟨?_, ?_⟩
        · obtain ⟨u, hu⟩ := Option.ne_none_iff_exists'.1 (mt latestHeaders_eq_none.1 hbs)
          rw [latestHeaders_frame, hu]
          exact hr.symm.trans (h.headers.trans hu)
        · rw [lastTrailers_frame, if_neg hbs]

theorem Describes.handle {before : List (TransportEvent M)} {r : Reception M Res}
    (h : Describes (blocks before) r) (hu : r.unread = unreadAfter before) {e : TransportEvent M}
    (hl : LegibleAt methodDefinition before e) :
    Describes (blocks (before ++ [e])) (r.handle methodDefinition e) ∧
      (r.handle methodDefinition e).unread = unreadAfter (before ++ [e]) := by
  rw [blocks_concat, unreadAfter_concat, ← hu]
  cases e with
  | onHeaders headers status =>
    rw [Reception.handle, Reception.takeHeaders, blocksOf]
    split
    · simpa [unreadOf] using h
    · simp only
      have hbs : Describes (blocks before ++ [.headers headers])
          ({ r with headers := some headers }.see (.headers headers)) :=
        ⟨by simp [latestHeaders_headers], by simp [lastTrailers_headers, h.trailers]⟩
      split
      · exact ⟨⟨by simpa using hbs.headers, by simpa using hbs.trailers⟩, by simp [unreadOf]⟩
      · exact ⟨hbs, by simp [unreadOf]⟩
  | onChunk bytes =>
    rw [Reception.handle, Reception.takeBytes, blocksOf, readChunk, unreadOf]
    rcases hread : (toChunks (frames.drainTo Frame.isTrailer (r.unread ++ bytes)).1 :
      Except JsString (List (Chunk M))) with e | ds
    · exact ⟨⟨by simpa using h.headers, by simpa using h.trailers⟩, by simp⟩
    · simp only [Reception.takeChunks_leave]
      obtain ⟨h1, h2⟩ := h.takeChunks (hl ds (by rw [← hu]; exact hread))
      exact ⟨⟨h1, h2⟩, rfl⟩
  | onEnd =>
    refine ⟨⟨?_, ?_⟩, ?_⟩
    · simpa [Reception.handle, Reception.takeEnd, blocksOf] using h.headers
    · simpa [Reception.handle, Reception.takeEnd, blocksOf] using h.trailers
    · simp [Reception.handle, Reception.takeEnd, unreadOf]

/-! ## What decides -/

omit [BrowserHeaders M] in
theorem endsSeen_see {d : Dispatch M Res} (hd : endsSeen [d] = []) (r : Reception M Res) :
    endsSeen (r.see d).seen = endsSeen r.seen := by
  unfold Reception.see
  split
  · rfl
  · rw [endsSeen, List.filterMap_append]
    exact (congrArg _ hd).trans (List.append_nil _)

omit [BrowserHeaders M] in
theorem endsSeen_finish {r : Reception M Res} (hc : r.completed = false) (code : Number)
    (message : JsString) (trailers : M) :
    endsSeen (r.finish code message trailers).seen =
      endsSeen r.seen ++ [(code, message, trailers)] := by
  simp [Reception.finish, Reception.see, hc, endsSeen, List.filterMap_append]

/-- Chunks that were parsed do not end a call. -/
theorem endsSeen_takeChunks (methodDefinition : MethodDefinition Req Res) (ds : List (Chunk M))
    (r : Reception M Res) :
    (r.takeChunks methodDefinition ds).completed = r.completed ∧
      endsSeen (r.takeChunks methodDefinition ds).seen = endsSeen r.seen := by
  induction ds generalizing r with
  | nil => exact ⟨rfl, rfl⟩
  | cons d ds ih =>
    cases d with
    | message data =>
      rw [Reception.takeChunks]
      rcases methodDefinition.deserializeBinary data with e | res
      · exact ⟨rfl, by simp [endsSeen]⟩
      · obtain ⟨h1, h2⟩ := ih (r.see (.message res))
        exact ⟨h1.trans (by simp), h2.trans (endsSeen_see rfl r)⟩
    | trailers t =>
      rw [Reception.takeChunks]
      rcases r.headers with _ | headers
      · obtain ⟨h1, h2⟩ := ih
          ({ r with headers := some (BrowserHeaders.copy t) }.see
            (.headers (BrowserHeaders.copy t)))
        exact ⟨h1.trans (by simp), h2.trans (endsSeen_see rfl _)⟩
      · exact ih _

theorem endOf_code (headers trailers : Option M) :
    (endOf headers trailers).1 =
      match trailers with
      | some trailers => (getStatusFromHeaders trailers).getD Code.internal
      | none =>
        match headers with
        | some headers => (getStatusFromHeaders headers).getD Code.unknown
        | none => Code.unknown := by
  unfold endOf
  rcases trailers with _ | trailers
  · rcases headers with _ | headers
    · rfl
    · rcases hst : getStatusFromHeaders headers <;> simp [hst]
  · rcases hst : getStatusFromHeaders trailers <;> simp [hst]

/-- The code of a response whose headers decide. -/
theorem decides_onHeaders (before : List (TransportEvent M)) (headers : M) {status : ℕ}
    (hs : status ≠ 0) : decides before (.onHeaders headers status) =
      if codeOfHeaders (getStatusFromHeaders headers) status = Code.ok then none
      else some (codeOfHeaders (getStatusFromHeaders headers) status) := by
  rw [decides, if_neg hs]
  unfold codeOfHeaders
  rcases getStatusFromHeaders headers with _ | n
  · simp [Code.toNat_eq_ok]
  · simp only [Option.filter_some]
    rw [← Number.isPositive_eq]
    by_cases hn : n.isPositive = true
    · have hne : n ≠ (Code.ok : Number) := n.ne_zero_of_isPositive hn
      simp [hn, hne]
    · simp [hn, Code.toNat_eq_ok]

omit [BrowserHeaders M] in
theorem map_endsSeen_finish {r : Reception M Res} (hc : r.completed = false) (code : Number)
    (message : JsString) (trailers : M) :
    (endsSeen (r.finish code message trailers).seen).map Prod.fst =
      (endsSeen r.seen).map Prod.fst ++ [code] := by
  rw [endsSeen_finish hc]
  simp

/-- **What an event does to a call that has not completed**: it ends it with the code it decides
on, or it does not end it. -/
theorem handle_decides (methodDefinition : MethodDefinition Req Res)
    {before : List (TransportEvent M)} {r : Reception M Res} (hd : Describes (blocks before) r)
    (hu : r.unread = unreadAfter before) (hc : r.completed = false) (e : TransportEvent M) :
    (r.handle methodDefinition e).completed = (decides before e).isSome ∧
      (endsSeen (r.handle methodDefinition e).seen).map Prod.fst =
        (endsSeen r.seen).map Prod.fst ++ (decides before e).toList := by
  cases e with
  | onHeaders headers status =>
    rw [Reception.handle, Reception.takeHeaders]
    by_cases hs : status = 0
    · simp [hs, hc, decides]
    · rw [if_neg hs, decides_onHeaders before headers hs]
      simp only
      have hc' : ({ r with headers := some headers }.see (.headers headers)).completed = false := by
        simpa using hc
      by_cases hcode : codeOfHeaders (getStatusFromHeaders headers) status = Code.ok
      · rw [if_neg (not_not.2 hcode), if_pos hcode, endsSeen_see rfl]
        simp [hc]
      · rw [if_pos hcode, if_neg hcode, map_endsSeen_finish hc', endsSeen_see rfl]
        exact ⟨rfl, rfl⟩
  | onChunk bytes =>
    rw [Reception.handle, Reception.takeBytes, decides, readChunk, hu]
    rcases (toChunks (frames.drainTo Frame.isTrailer (unreadAfter before ++ bytes)).1 :
      Except JsString (List (Chunk M))) with e | ds
    · simp only
      rw [map_endsSeen_finish (by exact hc)]
      exact ⟨rfl, rfl⟩
    · obtain ⟨h1, h2⟩ := endsSeen_takeChunks methodDefinition ds
        (r.leave (frames.drainTo Frame.isTrailer (unreadAfter before ++ bytes)).2)
      simp only
      rw [h1, h2]
      exact ⟨hc, by simp⟩
  | onEnd =>
    rw [Reception.handle, Reception.takeEnd, map_endsSeen_finish hc, hd.headers, hd.trailers,
      endOf_code, decides]
    refine ⟨?_, ?_⟩
    · simp only [Reception.finish]
      rcases lastTrailers (blocks before) with _ | trailers
      · rcases latestHeaders (blocks before) with _ | headers <;> rfl
      · rfl
    · rcases lastTrailers (blocks before) with _ | trailers
      · rcases latestHeaders (blocks before) with _ | headers <;> rfl
      · rfl

/-! ## Runs -/

/-- A reception to which no event has put an end. -/
structure Undecided (events : List (TransportEvent M)) (r : Reception M Res) : Prop where
  completed : r.completed = false
  ends : endsSeen r.seen = []
  describes : Describes (blocks events) r
  unread : r.unread = unreadAfter events

/-- **Until an event decides**, the history of the events describes what has been received. -/
theorem receive_undecided {events : List (TransportEvent M)} (hl : Legible methodDefinition events)
    (h : decision [] events = none) :
    Undecided events (receive methodDefinition events : Reception M Res) := by
  induction events using List.reverseRecOn with
  | nil => exact ⟨rfl, rfl, ⟨rfl, rfl⟩, rfl⟩
  | append_singleton events e ih =>
    rw [decision_append, Option.or_eq_none_iff] at h
    have hopen := ih hl.of_append h.1
    obtain ⟨h1, h2⟩ := handle_decides methodDefinition hopen.describes hopen.unread
      hopen.completed e
    obtain ⟨h3, h4⟩ := hopen.describes.handle hopen.unread (hl events e [] rfl h.1)
    have he : decides events e = none := by
      rcases hde : decides events e with _ | code
      · rfl
      · simp [decision, hde] at h
    rw [he, hopen.ends] at h2
    rw [receive_concat]
    exact ⟨by rw [h1, he]; rfl, List.map_eq_nil_iff.1 h2, h3, h4⟩

/-- **The first deciding event ends the call.** -/
theorem receive_decided {before after : List (TransportEvent M)} {e : TransportEvent M}
    {code : Number} (hl : Legible methodDefinition (before ++ e :: after))
    (h : decision [] before = none) (he : decides before e = some code) :
    (receive methodDefinition (before ++ e :: after) : Reception M Res).seen =
        ((receive methodDefinition before).handle methodDefinition e).seen ∧
      (endsSeen (receive methodDefinition (before ++ e :: after) : Reception M Res).seen).map
        Prod.fst = [code] := by
  have hopen : Undecided before (receive methodDefinition before : Reception M Res) :=
    receive_undecided hl.of_append h
  obtain ⟨h1, h2⟩ := handle_decides methodDefinition hopen.describes hopen.unread hopen.completed e
  have hseen : (receive methodDefinition (before ++ e :: after) : Reception M Res).seen =
      ((receive methodDefinition before).handle methodDefinition e).seen := by
    rw [receive, List.foldl_append, List.foldl_cons]
    exact (Reception.foldl_handle_of_completed (by rw [← receive, h1, he]; rfl) after).2
  refine ⟨hseen, ?_⟩
  rw [hseen, h2, hopen.ends, he]
  rfl

/-- The end of the transport comes before any other event has decided, and the collection `t` that
it hands to `onEnd` has a first `grpc-status` that parses to 0. -/
def EndsOk (events : List (TransportEvent M)) (t : M) : Prop :=
  ∃ before after, events = before ++ .onEnd :: after ∧ decision [] before = none ∧
    finalBlock (blocks before) = some t ∧
    ∃ v vs, BrowserHeaders.get t (js "grpc-status") = v :: vs ∧ parseInt v = Code.ok

theorem getStatusFromHeaders_eq_ok {t : M} : getStatusFromHeaders t = some (Code.ok : Number) ↔
    ∃ v vs, BrowserHeaders.get t (js "grpc-status") = v :: vs ∧ parseInt v = Code.ok := by
  unfold getStatusFromHeaders
  rcases BrowserHeaders.get t (js "grpc-status") with _ | ⟨v, vs⟩ <;> simp

/-- The end of the transport when the final collection has a status. -/
theorem endOf_of_status {headers trailers : Option M} {n : Number} {t : M}
    (h : trailers.or headers = some t) (hn : getStatusFromHeaders t = some n) :
    endOf headers trailers =
      (n, decodeGRPCStatus (BrowserHeaders.get t (js "grpc-message")).head?, t) := by
  unfold endOf
  rcases trailers with _ | trailers
  · obtain rfl : headers = some t := by simpa using h
    simp only [hn]
  · obtain rfl : trailers = t := by simpa using h
    simp only [hn]

/-- What ends a call with OK. -/
theorem endOf_eq_ok {headers trailers : Option M} {message : JsString} {t : M}
    (h : ((Code.ok : Number), message, t) = endOf headers trailers) :
    trailers.or headers = some t ∧ getStatusFromHeaders t = some (Code.ok : Number) := by
  have hcode := congrArg Prod.fst h
  rw [endOf_code] at hcode
  rcases hfinal : trailers.or headers with _ | u
  · obtain ⟨rfl, rfl⟩ := Option.or_eq_none_iff.1 hfinal
    simp only at hcode
    exact absurd hcode (by decide)
  · rcases hst : getStatusFromHeaders u with _ | n
    · rcases trailers with _ | trailers
      · obtain rfl : headers = some u := by simpa using hfinal
        simp only [hst] at hcode
        exact absurd hcode (by decide)
      · obtain rfl : trailers = u := by simpa using hfinal
        simp only [hst] at hcode
        exact absurd hcode (by decide)
    · rw [endOf_of_status hfinal hst] at h
      simp only [Prod.mk.injEq] at h
      obtain ⟨rfl, -, rfl⟩ := h
      exact ⟨rfl, hst⟩

/-- Headers and chunks do not decide on OK. -/
theorem decides_ok {before : List (TransportEvent M)} {e : TransportEvent M}
    (h : decides before e = some (Code.ok : Number)) : e = .onEnd := by
  cases e with
  | onHeaders headers status =>
    by_cases hs : status = 0
    · simp [decides, hs] at h
    · rw [decides_onHeaders before headers hs] at h
      split at h
      · cases h
      · rename_i hne
        exact absurd (Option.some.inj h) hne
  | onChunk bytes =>
    rw [decides] at h
    split at h
    · exact absurd (Option.some.inj h) (by decide)
    · cases h
  | onEnd => rfl

theorem exists_decides_onEnd (before : List (TransportEvent M)) :
    ∃ code, decides before .onEnd = some code := by
  rw [decides]
  rcases lastTrailers (blocks before) with _ | t
  · rcases latestHeaders (blocks before) with _ | t <;> exact ⟨_, rfl⟩
  · exact ⟨_, rfl⟩

/-- What a listener has seen of the end when the end of the transport decides. -/
theorem endsSeen_onEnd {before after : List (TransportEvent M)}
    (hl : Legible methodDefinition (before ++ .onEnd :: after)) (h : decision [] before = none) :
    endsSeen (receive methodDefinition (before ++ .onEnd :: after) : Reception M Res).seen =
      [endOf (latestHeaders (blocks before)) (lastTrailers (blocks before))] := by
  have hopen : Undecided before (receive methodDefinition before : Reception M Res) :=
    receive_undecided hl.of_append h
  obtain ⟨code, he⟩ := exists_decides_onEnd before
  rw [(receive_decided hl h he).1, Reception.handle, Reception.takeEnd,
    endsSeen_finish hopen.completed, hopen.ends, hopen.describes.headers, hopen.describes.trailers]
  rfl

theorem mem_blocks_append (before after : List (TransportEvent M)) {b : Block M}
    (h : b ∈ blocks before) : b ∈ blocks (before ++ after) := by
  induction after using List.reverseRecOn with
  | nil => simpa using h
  | append_singleton after e ih =>
    rw [← List.append_assoc, blocks_concat]
    exact List.mem_append_left _ ih

/-- The collections of headers come with events. -/
theorem mem_of_headers {events : List (TransportEvent M)} {t : M}
    (h : Block.headers t ∈ blocks events) :
    ∃ status, status ≠ 0 ∧ TransportEvent.onHeaders t status ∈ events := by
  induction events using List.reverseRecOn with
  | nil => cases h
  | append_singleton events e ih =>
    rw [blocks_concat, List.mem_append] at h
    rcases h with h | h
    · obtain ⟨status, hs, hmem⟩ := ih h
      exact ⟨status, hs, List.mem_append_left _ hmem⟩
    · cases e with
      | onHeaders headers status =>
        rw [blocksOf] at h
        split at h
        · cases h
        · rename_i hs
          obtain rfl : t = headers := by simpa using h
          exact ⟨status, hs, by simp⟩
      | onChunk bytes =>
        rw [blocksOf] at h
        split at h
        · cases h
        · obtain ⟨d, -, hd⟩ := List.mem_filterMap.1 h
          cases d with
          | message data => cases hd
          | trailers t => cases hd
      | onEnd => cases h

/-- **The code of a call** is that of its first deciding event. -/
theorem endsSeen_code {events : List (TransportEvent M)} (hl : Legible methodDefinition events) :
    (endsSeen (receive methodDefinition events : Reception M Res).seen).map Prod.fst =
      (decision [] events).toList := by
  rcases hd : decision [] events with _ | code
  · rw [(receive_undecided hl hd).ends]
    rfl
  · obtain ⟨before, e, after, rfl, h1, h2⟩ := decision_eq_some hd
    exact (receive_decided hl h1 h2).2

/-- **A call that ends with OK** was ended by the end of the transport, with a collection that has
the status. -/
theorem endsOk_of_mem {events : List (TransportEvent M)} (hl : Legible methodDefinition events)
    {message : JsString} {t : M} (h : ((Code.ok : Number), message, t) ∈
      endsSeen (receive methodDefinition events : Reception M Res).seen) : EndsOk events t := by
  have hcode : (Code.ok : Number) ∈ (decision [] events).toList :=
    endsSeen_code hl ▸ List.mem_map_of_mem h
  obtain ⟨before, e, after, rfl, h1, h2⟩ := decision_eq_some (Option.mem_toList.1 hcode)
  obtain rfl := decides_ok h2
  rw [endsSeen_onEnd hl h1, List.mem_singleton] at h
  obtain ⟨h3, h4⟩ := endOf_eq_ok h
  exact ⟨before, after, rfl, h1, h3, getStatusFromHeaders_eq_ok.1 h4⟩

/-- **What decides the status.** A call ends with the code of its first deciding event, and not at
all when there is none. It ends with OK exactly if that event is the end of the transport and the
collection handed to `onEnd` has a `grpc-status` of 0. When the response has brought no MSB frame
this collection is that of its headers. -/
theorem status_of_call (htotal : methodDefinition.Total) {l : Listener}
    {events : List (TransportEvent M)} {seen : List (Dispatch M Res)}
    (h : Shows methodDefinition l events seen) :
    (endsSeen seen).map Prod.fst = (decision [] events).toList ∧
    (∀ t, (∃ message, ((Code.ok : Number), message, t) ∈ endsSeen seen) ↔ EndsOk events t) ∧
    ∀ message t, ((Code.ok : Number), message, t) ∈ endsSeen seen →
      (∀ c, Block.frame c ∉ blocks events) →
      ∃ status, status ≠ 0 ∧ TransportEvent.onHeaders t status ∈ events := by
  obtain rfl := shows_iff.1 h
  have hl : Legible methodDefinition events := htotal.legible events
  refine ⟨endsSeen_code hl, fun t => ⟨fun ⟨message, hmem⟩ => endsOk_of_mem hl hmem, ?_⟩, ?_⟩
  · rintro ⟨before, after, rfl, h1, h3, h4⟩
    rw [endsSeen_onEnd hl h1, endOf_of_status h3 (getStatusFromHeaders_eq_ok.2 h4)]
    exact ⟨_, List.mem_singleton.2 rfl⟩
  · intro message t hmem hframes
    obtain ⟨before, after, rfl, -, h3, -⟩ := endsOk_of_mem hl hmem
    have hb : Block.headers t ∈ blocks before :=
      (mem_of_finalBlock h3).resolve_right fun hc => hframes t (mem_blocks_append before _ hc)
    obtain ⟨status, hs, hmem'⟩ := mem_of_headers hb
    exact ⟨status, hs, List.mem_append_left _ hmem'⟩

end History

/-- A message, and trailers with the status 0 in a chunk of their own. -/
def okResponse : List (TransportEvent HeaderFields) :=
  responseOf [frameBytes [7], (⟨0x80, ascii "grpc-status:0"⟩ : Frame).write]

theorem status_of_call_okResponse : ∃ seen : List (Dispatch HeaderFields Bytes),
    Shows (bytesMethod false) ⟨0, 0, 0⟩ okResponse seen ∧
      (endsSeen seen).map Prod.fst = [(Code.ok : Number)] ∧ ∃ t, EndsOk okResponse t := by
  have h : Shows (bytesMethod false) ⟨0, 0, 0⟩ okResponse
      (receive (bytesMethod false) okResponse).seen := shows_iff.2 rfl
  obtain ⟨hcode, hok, -⟩ := status_of_call (fun data => ⟨data, rfl⟩) h
  have hdecision : decision [] okResponse = some (Code.ok : Number) := by decide +kernel
  rw [hdecision] at hcode
  obtain ⟨e, hmem, he⟩ := List.mem_map.1 (hcode ▸ List.mem_singleton.2 rfl :
    (Code.ok : Number) ∈ (endsSeen (receive (bytesMethod false) okResponse).seen).map Prod.fst)
  obtain ⟨code, message, t⟩ := e
  obtain rfl : code = (Code.ok : Number) := he
  exact ⟨_, h, hcode, t, (hok t).1 ⟨message, hmem⟩⟩

end GrpcWeb.Client

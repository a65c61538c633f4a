import GrpcWeb.Client.Status

/-!
# Lost messages

Does a call that ends with OK have all its messages? `ok_delivers`: it has, when `deserializeBinary`
throws on none of the messages that are read before the call ends. The frames of the body are then
those that were read (`framesRead`) followed by those that were not; each message among the former
was dispatched, in order; and the frame that the trailers come from is among them.

An exception of `deserializeBinary` leaves `onTransportChunk` and is caught by nobody, unlike one of
`parse`: the transport goes on, and the trailers of a later chunk end the call with OK
(`ok_loses_message`).
-/

namespace GrpcWeb.Client

open Js

variable {M Req Res : Type}

/-- The chunks of the body. -/
def chunksOf (events : List (TransportEvent M)) : List Bytes :=
  events.filterMap fun e => match e with
    | .onChunk bytes => some bytes
    | _ => none

theorem chunksOf_append (es fs : List (TransportEvent M)) :
    chunksOf (es ++ fs) = chunksOf es ++ chunksOf fs := List.filterMap_append

/-- The frames that have been read. -/
def framesRead (events : List (TransportEvent M)) : List Frame :=
  (feed (frames.drainTo Frame.isTrailer) [] (chunksOf events)).1

/-- The message frames of a list of frames. -/
def messageFrames (fs : List Frame) : List Frame := fs.filter fun f => !f.isTrailer

/-- Each message frame was dispatched, in order. -/
def Delivers (methodDefinition : MethodDefinition Req Res) (fs : List Frame) (ress : List Res) :
    Prop :=
  List.Forall₂ (fun f res => methodDefinition.deserializeBinary f.payload = .ok res)
    (messageFrames fs) ress

theorem unreadAfter_eq (events : List (TransportEvent M)) :
    unreadAfter events = (feed (frames.drainTo Frame.isTrailer) [] (chunksOf events)).2 := by
  induction events using List.reverseRecOn with
  | nil => rfl
  | append_singleton events e ih =>
    rw [unreadAfter_concat, ih, chunksOf_append, feed_append]
    cases e <;> rfl

theorem framesRead_onChunk (events : List (TransportEvent M)) (bytes : Bytes) :
    framesRead (events ++ [.onChunk bytes]) =
      framesRead events ++ (frames.drainTo Frame.isTrailer (unreadAfter events ++ bytes)).1 := by
  rw [framesRead, chunksOf_append, feed_append, unreadAfter_eq]
  simp [feed, framesRead, chunksOf]

theorem framesRead_of_not_chunk (events : List (TransportEvent M)) {e : TransportEvent M}
    (he : e.isChunk = false) : framesRead (events ++ [e]) = framesRead events := by
  have hnone : chunksOf [e] = [] := by
    cases e with
    | onChunk bytes => cases he
    | onHeaders headers status => rfl
    | onEnd => rfl
  rw [framesRead, chunksOf_append, hnone, List.append_nil, framesRead]

/-- **What has been read is an initial segment of the body**, and all of it as long as no MSB frame
has been read. -/
theorem framesRead_append (events : List (TransportEvent M)) :
    ∃ unread, (frames.drain (chunksOf events).flatten).1 = framesRead events ++ unread ∧
      ((∀ f ∈ framesRead events, f.isTrailer = false) → unread = []) := by
  refine ⟨_, congrArg Prod.fst (frames.drain_feed_drainTo Frame.isTrailer [] (chunksOf events)),
    fun h => ?_⟩
  have hnext : frames.next [] = none := frames_next_nil
  rw [frames.drain_of_none (frames.next_feed_drainTo hnext h)]

variable [BrowserHeaders M] {methodDefinition : MethodDefinition Req Res}

omit [BrowserHeaders M] in
/-- The message of a chunk. -/
def Chunk.message? : Chunk M → Option Bytes
  | .message data => some data
  | .trailers _ => none

/-- The messages of frames that were parsed. -/
theorem messages_toChunks {fs : List Frame} {ds : List (Chunk M)} (h : toChunks fs = .ok ds) :
    ds.filterMap Chunk.message? = (messageFrames fs).map Frame.payload := by
  induction fs generalizing ds with
  | nil =>
    cases h
    rfl
  | cons f fs ih =>
    obtain ⟨c, cs, hc, hcs, rfl⟩ := toChunks_cons_eq_ok h
    rcases toChunk_eq_ok hc with ⟨hf, rfl⟩ | ⟨hf, m, -, rfl⟩
    · simp [messageFrames, hf, Chunk.message?, ih hcs]
    · have hskip : messageFrames (f :: fs) = messageFrames fs := by simp [messageFrames, hf]
      rw [hskip, ← ih hcs]
      rfl

/-- The MSB frames among frames that were parsed. -/
theorem mem_framesOf_toChunks {fs : List Frame} {ds : List (Chunk M)} (h : toChunks fs = .ok ds)
    {t : M} (ht : Block.frame t ∈ framesOf ds) :
    ∃ g ∈ fs, g.isTrailer = true ∧ ∃ m : M, parseTrailerData g.payload = .ok m ∧
      t = BrowserHeaders.copy m := by
  induction fs generalizing ds with
  | nil =>
    cases h
    cases ht
  | cons f fs ih =>
    obtain ⟨c, cs, hc, hcs, rfl⟩ := toChunks_cons_eq_ok h
    rcases toChunk_eq_ok hc with ⟨hf, rfl⟩ | ⟨hf, m, hm, rfl⟩
    · obtain ⟨g, hg, h'⟩ := ih hcs (by simpa [framesOf] using ht)
      exact ⟨g, List.mem_cons_of_mem _ hg, h'⟩
    · have ht' : t = BrowserHeaders.copy m ∨ Block.frame t ∈ framesOf cs := by
        simpa [framesOf] using ht
      rcases ht' with rfl | ht'
      · exact ⟨f, List.mem_cons_self, hf, m, hm, rfl⟩
      · obtain ⟨g, hg, h'⟩ := ih hcs ht'
        exact ⟨g, List.mem_cons_of_mem _ hg, h'⟩

omit [BrowserHeaders M] in
theorem messagesSeen_see {r : Reception M Res} {d : Dispatch M Res} (hd : messagesSeen [d] = []) :
    messagesSeen (r.see d).seen = messagesSeen r.seen := by
  unfold Reception.see
  split
  · rfl
  · rw [messagesSeen, List.filterMap_append]
    exact (congrArg _ hd).trans (List.append_nil _)

/-- The messages of chunks that can be read, in a call that has not completed. -/
theorem messagesSeen_takeChunks {ds : List (Chunk M)} (hd : Readable methodDefinition ds)
    {r : Reception M Res} (hc : r.completed = false) :
    ∃ ress, List.Forall₂ (fun data res => methodDefinition.deserializeBinary data = .ok res)
        (ds.filterMap Chunk.message?) ress ∧
      messagesSeen (r.takeChunks methodDefinition ds).seen = messagesSeen r.seen ++ ress := by
  induction ds generalizing r with
  | nil => exact ⟨[], .nil, by simp [Reception.takeChunks]⟩
  | cons d ds ih =>
    have hds : Readable methodDefinition ds := fun data h => hd data (List.mem_cons_of_mem _ h)
    cases d with
    | message data =>
      obtain ⟨res, hres⟩ := hd data List.mem_cons_self
      obtain ⟨ress, h1, h2⟩ := ih hds (r := r.see (.message res)) (by simpa using hc)
      refine ⟨res :: ress, .cons hres h1, ?_⟩
      rw [Reception.takeChunks, hres]
      simp only
      rw [h2, Reception.seen_see hc]
      simp [messagesSeen]
    | trailers t =>
      rw [Reception.takeChunks]
      rcases r.headers with _ | headers
      · obtain ⟨ress, h1, h2⟩ := ih hds (r := { r with headers := some (BrowserHeaders.copy t) }.see
          (.headers (BrowserHeaders.copy t))) (by simpa using hc)
        exact ⟨ress, h1, h2.trans (by rw [messagesSeen_see rfl])⟩
      · exact ih hds hc

/-- **Until an event decides**, every message that has been read has been dispatched. -/
theorem delivers_undecided {events : List (TransportEvent M)} (hl : Legible methodDefinition events)
    (h : decision [] events = none) :
    Delivers methodDefinition (framesRead events)
      (messagesSeen (receive methodDefinition events : Reception M Res).seen) := by
  induction events using List.reverseRecOn with
  | nil => exact .nil
  | append_singleton events e ih =>
    rw [decision_append, Option.or_eq_none_iff] at h
    have hopen : Undecided events (receive methodDefinition events : Reception M Res) :=
      receive_undecided hl.of_append h.1
    have hrest := ih hl.of_append h.1
    have he : decides events e = none := by
      rcases hde : decides events e with _ | code
      · rfl
      · simp [decision, hde] at h
    rw [receive_concat]
    generalize (receive methodDefinition events : Reception M Res) = r at hopen hrest
    cases e with
    | onHeaders headers status =>
      rw [framesRead_of_not_chunk _ rfl, Reception.handle, Reception.takeHeaders]
      by_cases hs : status = 0
      · rwa [if_pos hs]
      · rw [decides_onHeaders events headers hs] at he
        have hcode : codeOfHeaders (getStatusFromHeaders headers) status = Code.ok := by
          by_contra hne
          rw [if_neg hne] at he
          cases he
        simp only [hs, hcode, if_false, ne_eq, not_true_eq_false]
        rwa [messagesSeen_see rfl]
    | onChunk bytes =>
      rw [framesRead_onChunk, Reception.handle, Reception.takeBytes, hopen.unread]
      rw [decides, readChunk] at he
      rcases hread : (toChunks (frames.drainTo Frame.isTrailer (unreadAfter events ++ bytes)).1 :
        Except JsString (List (Chunk M))) with e | ds
      · rw [hread] at he
        cases he
      · have hlegible : Readable methodDefinition ds := hl events _ [] rfl h.1 ds hread
        obtain ⟨ress, h1, h2⟩ := messagesSeen_takeChunks hlegible
          (r := r.leave (frames.drainTo Frame.isTrailer (unreadAfter events ++ bytes)).2)
          hopen.completed
        simp only
        rw [h2, Delivers, messageFrames, List.filter_append, ← messageFrames, ← messageFrames]
        refine List.rel_append hrest ?_
        rwa [messages_toChunks hread, List.forall₂_map_left_iff] at h1
    | onEnd =>
      obtain ⟨code, hcode⟩ := exists_decides_onEnd events
      rw [hcode] at he
      cases he

/-- The collections of MSB frames come from frames that have been read. -/
theorem mem_of_frame {events : List (TransportEvent M)} {t : M}
    (h : Block.frame t ∈ blocks events) :
    ∃ g ∈ framesRead events, g.isTrailer = true ∧ ∃ m : M, parseTrailerData g.payload = .ok m ∧
      t = BrowserHeaders.copy m := by
  induction events using List.reverseRecOn with
  | nil => cases h
  | append_singleton events e ih =>
    rw [blocks_concat, List.mem_append] at h
    cases e with
    | onHeaders headers status =>
      rw [framesRead_of_not_chunk _ rfl]
      refine ih (h.resolve_right fun h => ?_)
      rw [blocksOf] at h
      split at h <;> simp at h
    | onChunk bytes =>
      rw [framesRead_onChunk]
      rcases h with h | h
      · obtain ⟨g, hg, h'⟩ := ih h
        exact ⟨g, List.mem_append_left _ hg, h'⟩
      · rw [blocksOf] at h
        split at h
        · cases h
        · rename_i ds hread
          obtain ⟨g, hg, h'⟩ := mem_framesOf_toChunks hread h
          exact ⟨g, List.mem_append_right _ hg, h'⟩
    | onEnd =>
      rw [framesRead_of_not_chunk _ rfl]
      exact ih (h.resolve_right fun h => by cases h)

/-- **A call that ends with OK has all its messages**, when `deserializeBinary` throws on none of
those that are read before it ends. Of the frames that the transport had brought when it ended, all
that were read have been dispatched, in order; the MSB frame that the trailers come from is one of
them, or the trailers are the response headers; and without an MSB frame all of them were read. -/
theorem ok_delivers {l : Listener} {events : List (TransportEvent M)}
    {seen : List (Dispatch M Res)} (hl : Legible methodDefinition events)
    (h : Shows methodDefinition l events seen) {message : JsString} {t : M}
    (hok : ((Code.ok : Number), message, t) ∈ endsSeen seen) :
    ∃ before after unread, events = before ++ .onEnd :: after ∧
      (frames.drain (chunksOf before).flatten).1 = framesRead before ++ unread ∧
      Delivers methodDefinition (framesRead before) (messagesSeen seen) ∧
      ((∃ g ∈ framesRead before, g.isTrailer = true ∧ ∃ m : M, parseTrailerData g.payload = .ok m ∧
          t = BrowserHeaders.copy m) ∨
        ∃ status, TransportEvent.onHeaders t status ∈ before) ∧
      ((∀ f ∈ framesRead before, f.isTrailer = false) → unread = []) := by
  obtain rfl := shows_iff.1 h
  obtain ⟨before, after, rfl, hd, hfinal, -⟩ := endsOk_of_mem hl hok
  obtain ⟨unread, hframes, hall⟩ := framesRead_append before
  obtain ⟨code, hcode⟩ := exists_decides_onEnd before
  have hmessages : messagesSeen
      (receive methodDefinition (before ++ .onEnd :: after) : Reception M Res).seen =
        messagesSeen (receive methodDefinition before : Reception M Res).seen := by
    rw [(receive_decided hl hd hcode).1, Reception.handle, Reception.takeEnd, Reception.finish]
    exact messagesSeen_see rfl
  refine ⟨before, after, unread, rfl, hframes, ?_, ?_, hall⟩
  · rw [hmessages]
    exact delivers_undecided hl.of_append hd
  · rcases mem_of_finalBlock hfinal with h | h
    · obtain ⟨status, -, hmem⟩ := mem_of_headers h
      exact .inr ⟨status, hmem⟩
    · exact .inl (mem_of_frame h)

theorem ok_delivers_okResponse :
    ∃ (seen : List (Dispatch HeaderFields Bytes)) (unread : List Frame),
    Shows (bytesMethod false) ⟨0, 0, 0⟩ okResponse seen ∧
      ∃ before after, okResponse = before ++ .onEnd :: after ∧
        (frames.drain (chunksOf before).flatten).1 = framesRead before ++ unread ∧
        Delivers (bytesMethod false) (framesRead before) (messagesSeen seen) := by
  have h : Shows (bytesMethod false) ⟨0, 0, 0⟩ okResponse
      (receive (bytesMethod false) okResponse).seen := shows_iff.2 rfl
  have hlegible : Legible (bytesMethod false) okResponse :=
    MethodDefinition.Total.legible (fun data => ⟨data, rfl⟩) okResponse
  obtain ⟨⟨code, message, t⟩, hmem, hcode⟩ := List.mem_map.1 (by decide +kernel :
    (Code.ok : Number) ∈ (endsSeen (receive (bytesMethod false) okResponse).seen).map Prod.fst)
  obtain rfl : code = (Code.ok : Number) := hcode
  obtain ⟨before, after, unread, h1, h2, h3, -⟩ := ok_delivers hlegible h hmem
  exact ⟨_, unread, h, before, after, h1, h2, h3⟩

/-- A method that cannot read the message 7. -/
def partialMethod : MethodDefinition Bytes Bytes where
  requestStream := false
  serializeBinary := .ok
  deserializeBinary data := if data = [7] then .error (js "unreadable") else .ok data

/-- **A call that ends with OK without its message**: the message makes `deserializeBinary` throw,
and the trailers come in a chunk of their own. -/
theorem ok_loses_message : ∃ seen : List (Dispatch HeaderFields Bytes),
    Shows partialMethod ⟨0, 0, 0⟩ okResponse seen ∧
      (endsSeen seen).map Prod.fst = [(Code.ok : Number)] ∧
      messageFrames (frames.drain (chunksOf okResponse).flatten).1 = [⟨0, [7]⟩] ∧
      messagesSeen seen = [] :=
  ⟨_, shows_iff.2 rfl, by decide +kernel, by decide +kernel, by decide +kernel⟩

end GrpcWeb.Client

import GrpcWeb.Client.Reception

/-!
# The cut of a response body

The network cuts a response body anywhere. `foldl_chunks` says what a body comes to, however it is
cut, when its only MSB frame is its last frame and can be parsed; this is the case of every response
of a server. `foldl_chunks_error` is the case of a first MSB frame that cannot be parsed.

`fragmentation_independence` compares two cuts of one body, as a listener sees them. `parse` stops
behind an MSB frame, and a call that throws loses the messages that it had read. So the calls of
`onEnd` agree when no frame follows the first MSB frame, or that frame cannot be parsed, and the
calls of `onMessage` do as well when it can be parsed or no message comes before it.
`fragmentation_dependence` shows what happens to other bodies.
-/

namespace GrpcWeb.Client

open Js

variable {M Req Res : Type}

namespace Reception

@[simp] theorem completed_see (d : Dispatch M Res) (r : Reception M Res) :
    (r.see d).completed = r.completed := by
  unfold see
  split <;> rfl

@[simp] theorem unread_see (d : Dispatch M Res) (r : Reception M Res) :
    (r.see d).unread = r.unread := by
  unfold see
  split <;> rfl

@[simp] theorem headers_see (d : Dispatch M Res) (r : Reception M Res) :
    (r.see d).headers = r.headers := by
  unfold see
  split <;> rfl

@[simp] theorem trailers_see (d : Dispatch M Res) (r : Reception M Res) :
    (r.see d).trailers = r.trailers := by
  unfold see
  split <;> rfl

@[simp] theorem unread_finish (code : Number) (message : JsString) (trailers : M)
    (r : Reception M Res) : (r.finish code message trailers).unread = r.unread :=
  unread_see _ r

@[simp] theorem headers_finish (code : Number) (message : JsString) (trailers : M)
    (r : Reception M Res) : (r.finish code message trailers).headers = r.headers :=
  headers_see _ r

@[simp] theorem trailers_finish (code : Number) (message : JsString) (trailers : M)
    (r : Reception M Res) : (r.finish code message trailers).trailers = r.trailers :=
  trailers_see _ r

theorem seen_see {r : Reception M Res} (h : r.completed = false) (d : Dispatch M Res) :
    (r.see d).seen = r.seen ++ [d] := by
  simp [see, h]

theorem see_leave (d : Dispatch M Res) (u : Bytes) (r : Reception M Res) :
    (r.leave u).see d = (r.see d).leave u := by
  unfold see leave
  split <;> rfl

end Reception

/-- Every message of a chunk can be deserialized. -/
def Readable (methodDefinition : MethodDefinition Req Res) (ds : List (Chunk M)) : Prop :=
  ∀ data, .message data ∈ ds → ∃ res, methodDefinition.deserializeBinary data = .ok res

/-- `deserializeBinary` never throws. -/
def MethodDefinition.Total (methodDefinition : MethodDefinition Req Res) : Prop :=
  ∀ data, ∃ res, methodDefinition.deserializeBinary data = .ok res

/-- The messages that a listener has seen. -/
def messagesSeen (seen : List (Dispatch M Res)) : List Res :=
  seen.filterMap fun d => match d with
    | .message res => some res
    | _ => none

/-- The ends of the call that a listener has seen. -/
def endsSeen (seen : List (Dispatch M Res)) : List (Number × JsString × M) :=
  seen.filterMap fun d => match d with
    | .ended code message trailers => some (code, message, trailers)
    | _ => none

variable [BrowserHeaders M] {methodDefinition : MethodDefinition Req Res}

namespace Reception

theorem takeChunks_leave (ds : List (Chunk M)) (u : Bytes) (r : Reception M Res) :
    takeChunks methodDefinition ds (r.leave u) = (takeChunks methodDefinition ds r).leave u := by
  induction ds generalizing r with
  | nil => rfl
  | cons d ds ih =>
    cases d with
    | message data =>
      simp only [takeChunks]
      rcases methodDefinition.deserializeBinary data with e | res
      · rfl
      · simp only [see_leave, ih]
    | trailers trailers =>
      simp only [takeChunks, leave]
      rcases r.headers with _ | headers
      · simp only
        rw [← leave, ← ih, ← see_leave]
        rfl
      · simp only
        rw [← leave, ← ih]
        rfl

theorem takeChunks_append {ds : List (Chunk M)} (hd : Readable methodDefinition ds)
    (es : List (Chunk M)) (r : Reception M Res) :
    takeChunks methodDefinition (ds ++ es) r =
      takeChunks methodDefinition es (takeChunks methodDefinition ds r) := by
  induction ds generalizing r with
  | nil => rfl
  | cons d ds ih =>
    have hds : Readable methodDefinition ds := fun data h => hd data (List.mem_cons_of_mem _ h)
    cases d with
    | message data =>
      obtain ⟨res, hres⟩ := hd data List.mem_cons_self
      simp only [List.cons_append, takeChunks, hres, ih hds]
    | trailers trailers =>
      simp only [List.cons_append, takeChunks]
      rcases r.headers with _ | headers <;> exact ih hds _

/-- The messages of a call that has not completed. -/
theorem takeChunks_messages {datas : List Bytes} {ress : List Res}
    (h : List.Forall₂ (fun data res => methodDefinition.deserializeBinary data = .ok res)
      datas ress)
    {r : Reception M Res} (hc : r.completed = false) :
    takeChunks methodDefinition (datas.map .message) r =
      { r with seen := r.seen ++ ress.map .message } := by
  induction h generalizing r with
  | nil => simp [takeChunks]
  | cons hres h ih =>
    rw [List.map_cons, takeChunks, hres]
    simp only
    rw [ih (by simpa using hc)]
    simp [see, hc]

/-- Chunks show nothing once the call has completed. -/
theorem takeChunks_of_completed (ds : List (Chunk M)) {r : Reception M Res}
    (hc : r.completed = true) :
    (takeChunks methodDefinition ds r).completed = true ∧
      (takeChunks methodDefinition ds r).seen = r.seen := by
  induction ds generalizing r with
  | nil => exact ⟨hc, rfl⟩
  | cons d ds ih =>
    cases d with
    | message data =>
      rw [takeChunks]
      rcases methodDefinition.deserializeBinary data with e | res
      · exact ⟨hc, rfl⟩
      · simp only [see_of_completed hc]
        exact ih hc
    | trailers trailers =>
      simp only [takeChunks]
      rcases r.headers with _ | headers
      · simp only
        rw [see_of_completed (by exact hc)]
        exact ih hc
      · exact ih hc

/-- **Nothing more is shown of a call that has completed.** -/
theorem handle_of_completed (methodDefinition : MethodDefinition Req Res) {r : Reception M Res}
    (hc : r.completed = true) (e : TransportEvent M) :
    (r.handle methodDefinition e).completed = true ∧
      (r.handle methodDefinition e).seen = r.seen := by
  cases e with
  | onHeaders headers status =>
    rw [handle, takeHeaders]
    split
    · exact ⟨hc, rfl⟩
    · rw [see_of_completed (by exact hc)]
      simp only
      split
      · rw [finish_of_completed (by exact hc)]
        exact ⟨hc, rfl⟩
      · exact ⟨hc, rfl⟩
  | onChunk chunkBytes =>
    rw [handle, takeBytes]
    rcases (toChunks (frames.drainTo Frame.isTrailer (r.unread ++ chunkBytes)).1 :
      Except JsString (List (Chunk M))) with e | ds
    · simp only
      rw [finish_of_completed (by exact hc)]
      exact ⟨hc, rfl⟩
    · exact takeChunks_of_completed ds (by exact hc)
  | onEnd =>
    rw [handle, takeEnd, finish_of_completed hc]
    exact ⟨hc, rfl⟩

theorem foldl_handle_of_completed {r : Reception M Res} (hc : r.completed = true)
    (es : List (TransportEvent M)) :
    (es.foldl (handle methodDefinition) r).completed = true ∧
      (es.foldl (handle methodDefinition) r).seen = r.seen := by
  induction es generalizing r with
  | nil => exact ⟨hc, rfl⟩
  | cons e es ih =>
    obtain ⟨h1, h2⟩ := handle_of_completed methodDefinition hc e
    obtain ⟨h3, h4⟩ := ih h1
    exact ⟨h3, h4.trans h2⟩

/-! ## Bodies -/

/-- What chunks come to: the frames that a stopping reader is fed, when all of these can be
parsed. -/
theorem foldl_feed {cs : List Bytes} {r : Reception M Res} {ds : List (Chunk M)}
    (hds : toChunks (feed (frames.drainTo Frame.isTrailer) r.unread cs).1 = .ok ds)
    (hread : Readable methodDefinition ds) :
    (cs.map TransportEvent.onChunk).foldl (handle methodDefinition) r =
      (takeChunks methodDefinition ds r).leave
        (feed (frames.drainTo Frame.isTrailer) r.unread cs).2 := by
  induction cs generalizing r ds with
  | nil =>
    cases hds
    rfl
  | cons c cs ih =>
    rw [feed] at hds ⊢
    obtain ⟨ds₁, ds₂, h1, h2, rfl⟩ := toChunks_append_eq_ok hds
    have hr₁ : Readable methodDefinition ds₁ := fun data h => hread data (List.mem_append_left _ h)
    have hr₂ : Readable methodDefinition ds₂ := fun data h => hread data (List.mem_append_right _ h)
    have hstep : r.handle methodDefinition (.onChunk c) =
        (takeChunks methodDefinition ds₁ r).leave
          (frames.drainTo Frame.isTrailer (r.unread ++ c)).2 := by
      rw [handle, takeBytes, ← takeChunks_leave]
      simp only [h1]
    rw [List.map_cons, List.foldl_cons, hstep, ih h2 hr₂, takeChunks_leave, takeChunks_append hr₁]
    rfl

/-- **A body comes to the same however it is cut**, when no frame but the last is an MSB frame and
that one can be parsed. -/
theorem foldl_chunks {cs : List Bytes} {r : Reception M Res} {ds : List (Chunk M)}
    (hnext : frames.next r.unread = none)
    (hlast : ∀ f ∈ (frames.drain (r.unread ++ cs.flatten)).1.dropLast, f.isTrailer = false)
    (hds : toChunks (frames.drain (r.unread ++ cs.flatten)).1 = .ok ds)
    (hread : Readable methodDefinition ds) :
    (cs.map TransportEvent.onChunk).foldl (handle methodDefinition) r =
      (takeChunks methodDefinition ds r).leave (frames.drain (r.unread ++ cs.flatten)).2 := by
  rw [← frames.feed_drainTo hnext hlast] at hds ⊢
  exact foldl_feed hds hread

theorem exists_deserialized (ht : methodDefinition.Total) (datas : List Bytes) :
    ∃ ress, List.Forall₂ (fun data res => methodDefinition.deserializeBinary data = .ok res) datas
      ress := by
  induction datas with
  | nil => exact ⟨[], .nil⟩
  | cons data datas ih =>
    obtain ⟨res, hres⟩ := ht data
    obtain ⟨ress, h⟩ := ih
    exact ⟨res :: ress, .cons hres h⟩

/-- **A body whose first MSB frame cannot be parsed** ends the call there. Of the messages before
that frame, those are lost that come in the chunk in which it is completed. -/
theorem foldl_chunks_error (ht : methodDefinition.Total) {cs : List Bytes} {r : Reception M Res}
    {msgs rest : List Frame} {g : Frame} {e : JsString} (hc : r.completed = false)
    (hnext : frames.next r.unread = none)
    (hF : (frames.drain (r.unread ++ cs.flatten)).1 = msgs ++ g :: rest)
    (hm : ∀ f ∈ msgs, f.isTrailer = false) (hg : g.isTrailer = true)
    (he : (parseTrailerData g.payload : Except JsString M) = .error e) :
    ∃ ress : List Res,
      ((cs.map TransportEvent.onChunk).foldl (handle methodDefinition) r).completed = true ∧
      ((cs.map TransportEvent.onChunk).foldl (handle methodDefinition) r).seen =
        r.seen ++ ress.map .message ++
          [.ended Code.internal (js "parsing error: " ++ e) BrowserHeaders.empty] ∧
      (msgs = [] → ress = []) := by
  induction cs generalizing r msgs with
  | nil =>
    rw [List.flatten_nil, List.append_nil, frames.drain_of_none hnext] at hF
    simp at hF
  | cons c cs ih =>
    rw [List.flatten_cons, ← List.append_assoc, frames.drain_append] at hF
    rw [List.map_cons, List.foldl_cons]
    -- the first MSB frame is completed by a later chunk, or by this one
    have hsplit : (∃ post, msgs = (frames.drain (r.unread ++ c)).1 ++ post ∧
        (frames.drain ((frames.drain (r.unread ++ c)).2 ++ cs.flatten)).1 = post ++ g :: rest) ∨
        ∃ post, (frames.drain (r.unread ++ c)).1 = msgs ++ g :: post := by
      rcases List.append_eq_append_iff.1 hF with ⟨post, h1, h2⟩ | ⟨fs, h1, h2⟩
      · exact .inl ⟨post, h1, h2⟩
      · rcases fs with _ | ⟨f, fs⟩
        · exact .inl ⟨[], by simpa using h1.symm, h2.symm⟩
        · obtain ⟨rfl, -⟩ : g = f ∧ _ := by simpa using h2
          exact .inr ⟨fs, h1⟩
    rcases hsplit with ⟨post, rfl, hE⟩ | ⟨post, hD⟩
    · have hD : ∀ f ∈ (frames.drain (r.unread ++ c)).1, f.isTrailer = false :=
        fun f hf => hm f (List.mem_append_left _ hf)
      have hread : frames.drainTo Frame.isTrailer (r.unread ++ c) = frames.drain (r.unread ++ c) :=
        frames.drainTo_eq_drain fun f hf => hD f (List.mem_of_mem_dropLast hf)
      obtain ⟨ress, hress⟩ :=
        exists_deserialized ht ((frames.drain (r.unread ++ c)).1.map Frame.payload)
      have hstep : r.handle methodDefinition (.onChunk c) =
          { r.leave (frames.drain (r.unread ++ c)).2 with
            seen := r.seen ++ ress.map .message } := by
        have hc' : (r.leave (frames.drain (r.unread ++ c)).2).completed = false := hc
        rw [handle, takeBytes, hread, toChunks_messages hD]
        have hmsgs := takeChunks_messages hress hc'
        rw [List.map_map] at hmsgs
        exact hmsgs
      obtain ⟨ress', h1, h2, h3⟩ := ih (r := r.handle methodDefinition (.onChunk c))
        (by rw [hstep]; exact hc) (by rw [hstep]; exact frames.next_drain _)
        (by rw [hstep]; exact hE) (fun f hf => hm f (List.mem_append_right _ hf))
      refine ⟨ress ++ ress', h1, ?_, fun hnil => ?_⟩
      · rw [h2, hstep]
        simp
      · obtain ⟨hnil1, hnil2⟩ := List.append_eq_nil_iff.1 hnil
        rw [hnil1] at hress
        cases hress
        rw [h3 hnil2]
        rfl
    · have hread := frames.drainTo_of_stop hD hm hg
      have hstep : r.handle methodDefinition (.onChunk c) =
          (r.leave (frames.drainTo Frame.isTrailer (r.unread ++ c)).2).finish Code.internal
            (js "parsing error: " ++ e) BrowserHeaders.empty := by
        rw [handle, takeBytes, hread, toChunks_error hm hg he]
      obtain ⟨h1, h2⟩ := foldl_handle_of_completed (r := r.handle methodDefinition (.onChunk c))
        (by rw [hstep]; rfl) (cs.map TransportEvent.onChunk)
      refine ⟨[], h1, ?_, fun _ => rfl⟩
      rw [h2, hstep]
      simp [finish, see, leave, hc]

end Reception

/-! ## Two cuts of one body -/

/-- An event that is no part of the body and ends the call. -/
def TransportEvent.endsCall : TransportEvent M → Bool
  | .onHeaders headers status =>
    status ≠ 0 && codeOfHeaders (getStatusFromHeaders headers) status ≠ Code.ok
  | .onChunk _ => false
  | .onEnd => true

omit [BrowserHeaders M] in
/-- A part of the body. -/
def TransportEvent.isChunk : TransportEvent M → Bool
  | .onChunk _ => true
  | _ => false

/-- The first MSB frame of a body is its last frame, if it can be parsed. -/
def EndsAtTrailers (M : Type) [BrowserHeaders M] (body : Bytes) : Prop :=
  ∀ msgs g rest, (frames.drain body).1 = msgs ++ g :: rest → (∀ f ∈ msgs, f.isTrailer = false) →
    g.isTrailer = true →
      rest = [] ∨ ∃ e, (parseTrailerData g.payload : Except JsString M) = .error e

/-- No message comes before the first MSB frame of a body, if that one cannot be parsed. -/
def LosesNone (M : Type) [BrowserHeaders M] (body : Bytes) : Prop :=
  ∀ msgs g rest, (frames.drain body).1 = msgs ++ g :: rest → (∀ f ∈ msgs, f.isTrailer = false) →
    g.isTrailer = true → msgs = [] ∨ ∃ m : M, parseTrailerData g.payload = .ok m

/-- What comes before the body leaves no bytes, and completes the call if one of the events does. -/
theorem receive_before (methodDefinition : MethodDefinition Req Res)
    {events : List (TransportEvent M)} (h : ∀ e ∈ events, e.isChunk = false) :
    (receive methodDefinition events).unread = [] ∧
      (receive methodDefinition events).completed = events.any TransportEvent.endsCall := by
  have key (r : Reception M Res) (hr : r.unread = []) :
      (events.foldl (Reception.handle methodDefinition) r).unread = [] ∧
        (events.foldl (Reception.handle methodDefinition) r).completed =
          (r.completed || events.any TransportEvent.endsCall) := by
    induction events generalizing r with
    | nil => simp [hr]
    | cons e events ih =>
      have hstep : (r.handle methodDefinition e).unread = [] ∧
          (r.handle methodDefinition e).completed = (r.completed || e.endsCall) := by
        cases e with
        | onHeaders headers status =>
          rw [Reception.handle, Reception.takeHeaders, TransportEvent.endsCall]
          by_cases hs : status = 0
          · simp [hs, hr]
          · by_cases hcode : codeOfHeaders (getStatusFromHeaders headers) status = Code.ok
            · simp [hs, hcode, hr]
            · simp [hs, hcode, hr, Reception.finish]
        | onChunk chunkBytes =>
          exact absurd (h _ List.mem_cons_self) (by simp [TransportEvent.isChunk])
        | onEnd => simp [Reception.handle, Reception.takeEnd, Reception.finish, hr,
            TransportEvent.endsCall]
      obtain ⟨h1, h2⟩ := ih (fun e he => h e (List.mem_cons_of_mem _ he)) _ hstep.1
      refine ⟨h1, ?_⟩
      rw [List.foldl_cons, h2, hstep.2, List.any_cons, Bool.or_assoc]
  simpa [receive] using key {} rfl

/-- The frames of a body up to the first MSB frame. -/
theorem exists_first (fs : List Frame) : (∀ f ∈ fs, f.isTrailer = false) ∨
    ∃ msgs g rest, fs = msgs ++ g :: rest ∧ (∀ f ∈ msgs, f.isTrailer = false) ∧
      g.isTrailer = true := by
  induction fs with
  | nil => exact .inl (by simp)
  | cons f fs ih =>
    by_cases hf : f.isTrailer = true
    · exact .inr ⟨[], f, fs, rfl, by simp, hf⟩
    · rcases ih with h | ⟨msgs, g, rest, rfl, hm, hg⟩
      · exact .inl (List.forall_mem_cons.2 ⟨by simpa using hf, h⟩)
      · exact .inr ⟨f :: msgs, g, rest, rfl, List.forall_mem_cons.2 ⟨by simpa using hf, hm⟩, hg⟩

/-- **A listener cannot tell how a body was cut**, when its first MSB frame is its last frame or
cannot be parsed, or when the call had ended before: the `onEnd` calls are the same, and so are the
`onMessage` calls unless the MSB frame cannot be parsed and messages come before it. What comes
before the body and after it is the same in both runs. -/
theorem fragmentation_independence (htotal : methodDefinition.Total) {l : Listener}
    {before after : List (TransportEvent M)} (hbefore : ∀ e ∈ before, e.isChunk = false)
    {cs₁ cs₂ : List Bytes} (hbody : cs₁.flatten = cs₂.flatten)
    (hends : (∃ e ∈ before, e.endsCall = true) ∨ EndsAtTrailers M cs₁.flatten)
    {seen₁ seen₂ : List (Dispatch M Res)}
    (h₁ : Shows methodDefinition l (before ++ cs₁.map .onChunk ++ after) seen₁)
    (h₂ : Shows methodDefinition l (before ++ cs₂.map .onChunk ++ after) seen₂) :
    endsSeen seen₁ = endsSeen seen₂ ∧
      ((∃ e ∈ before, e.endsCall = true) ∨ LosesNone M cs₁.flatten →
        messagesSeen seen₁ = messagesSeen seen₂) := by
  obtain ⟨hu, hcomp⟩ := receive_before methodDefinition hbefore
  have hany : (receive methodDefinition before : Reception M Res).completed = true ↔
      ∃ e ∈ before, e.endsCall = true := by rw [hcomp, List.any_eq_true]
  rw [shows_iff, receive, List.foldl_append, List.foldl_append, ← receive] at h₁ h₂
  generalize (receive methodDefinition before : Reception M Res) = r at h₁ h₂ hu hany
  rw [← hany] at hends ⊢
  by_cases hc : r.completed = true
  · have quiet (cs : List Bytes) : (after.foldl (Reception.handle methodDefinition)
        ((cs.map .onChunk).foldl (Reception.handle methodDefinition) r)).seen = r.seen := by
      obtain ⟨h1, h2⟩ := Reception.foldl_handle_of_completed hc (cs.map .onChunk)
      rw [(Reception.foldl_handle_of_completed h1 after).2, h2]
    rw [h₁, h₂, quiet, quiet]
    exact ⟨rfl, fun _ => rfl⟩
  replace hends : EndsAtTrailers M cs₁.flatten := hends.resolve_left hc
  have hnext : frames.next r.unread = none := by
    rw [hu, frames_next_nil]
  -- when the chunks can be read to the end of the body, the cut does not matter at all
  have same {ds : List (Chunk M)}
      (hlast : ∀ f ∈ (frames.drain cs₁.flatten).1.dropLast, f.isTrailer = false)
      (hds : toChunks (frames.drain cs₁.flatten).1 = .ok ds) : seen₁ = seen₂ := by
    have hread : Readable methodDefinition ds := fun data _ => htotal data
    have fold {cs : List Bytes} (hcs : cs₁.flatten = cs.flatten) :
        (cs.map .onChunk).foldl (Reception.handle methodDefinition) r =
          (Reception.takeChunks methodDefinition ds r).leave (frames.drain cs₁.flatten).2 := by
      have hcs' : r.unread ++ cs.flatten = cs₁.flatten := by rw [hu, hcs, List.nil_append]
      rw [Reception.foldl_chunks hnext (by rwa [hcs']) (by rwa [hcs']) hread, hcs']
    rw [h₁, h₂, fold rfl, fold hbody]
  rcases exists_first (frames.drain cs₁.flatten).1 with hall | ⟨msgs, g, rest, hF, hm, hg⟩
  · obtain rfl := same (fun f hf => hall f (List.mem_of_mem_dropLast hf)) (toChunks_messages hall)
    exact ⟨rfl, fun _ => rfl⟩
  rcases hparse : (parseTrailerData g.payload : Except JsString M) with e | m
  · have ended {cs : List Bytes} (hcs : cs₁.flatten = cs.flatten) :
        ∃ ress : List Res, (after.foldl (Reception.handle methodDefinition)
          ((cs.map .onChunk).foldl (Reception.handle methodDefinition) r)).seen =
            r.seen ++ ress.map .message ++
              [.ended Code.internal (js "parsing error: " ++ e) BrowserHeaders.empty] ∧
          (msgs = [] → ress = []) := by
      have hF' : (frames.drain (r.unread ++ cs.flatten)).1 = msgs ++ g :: rest := by
        rw [hu, List.nil_append, ← hcs, hF]
      obtain ⟨ress, h1, h2, h3⟩ := Reception.foldl_chunks_error htotal (by simpa using hc) hnext hF'
        hm hg hparse
      exact ⟨ress, (Reception.foldl_handle_of_completed h1 after).2.trans h2, h3⟩
    obtain ⟨ress₁, hseen₁, hnil₁⟩ := ended rfl
    obtain ⟨ress₂, hseen₂, hnil₂⟩ := ended hbody
    rw [h₁, h₂, hseen₁, hseen₂]
    constructor
    · simp [endsSeen, List.filterMap_append, List.filterMap_map]
    · intro hloses
      have hmsgs : msgs = [] := by
        rcases (hloses.resolve_left hc) msgs g rest hF hm hg with h | ⟨m, hm⟩
        · exact h
        · rw [hparse] at hm
          cases hm
      rw [hnil₁ hmsgs, hnil₂ hmsgs]
  · obtain rfl : rest = [] := by
      rcases hends msgs g rest hF hm hg with h | ⟨e, he⟩
      · exact h
      · rw [hparse] at he
        cases he
    have hlast : ∀ f ∈ (frames.drain cs₁.flatten).1.dropLast, f.isTrailer = false := by
      rwa [hF, List.dropLast_concat]
    have hds : toChunks (frames.drain cs₁.flatten).1 =
        .ok (msgs.map (fun f => Chunk.message f.payload) ++ [Chunk.trailers m]) := by
      rw [hF]
      exact toChunks_append (toChunks_messages hm)
        (by simp [toChunks, Frame.toChunk, hg, hparse, Except.map, Except.bind])
    obtain rfl := same hlast hds
    exact ⟨rfl, fun _ => rfl⟩

theorem endsAtTrailers_of_dropLast {body : Bytes}
    (h : ∀ f ∈ (frames.drain body).1.dropLast, f.isTrailer = false) : EndsAtTrailers M body := by
  intro msgs g rest hF _ hg
  rcases rest with _ | ⟨f, rest⟩
  · exact .inl rfl
  · have hmem : g ∈ (frames.drain body).1.dropLast := by
      rw [hF, List.dropLast_append_of_ne_nil (by simp), List.dropLast_cons_of_ne_nil (by simp)]
      simp
    rw [h g hmem] at hg
    cases hg

theorem losesNone_of_isOk {body : Bytes} (h : ∀ f ∈ (frames.drain body).1, f.isTrailer = true →
    (parseTrailerData f.payload : Except JsString M).isOk = true) : LosesNone M body := by
  intro msgs g rest hF _ htrailer
  have hg := h g (by rw [hF]; simp) htrailer
  rcases hparse : (parseTrailerData g.payload : Except JsString M) with e | m
  · rw [hparse] at hg
    cases hg
  · exact .inr ⟨m, rfl⟩

/-- A response whose body is cut in the given way. -/
def responseOf (cs : List Bytes) : List (TransportEvent HeaderFields) :=
  [.onHeaders ⟨[]⟩ 200] ++ cs.map .onChunk ++ [.onEnd]

/-- A message and trailers, whole and cut inside the header of the second frame. -/
theorem fragmentation_independence_cutHeader :
    let body := frameBytes [7] ++ (⟨0x80, ascii "grpc-status:0"⟩ : Frame).write
    ∃ seen₁ seen₂ : List (Dispatch HeaderFields Bytes),
      Shows (bytesMethod false) ⟨0, 0, 0⟩ (responseOf [body]) seen₁ ∧
      Shows (bytesMethod false) ⟨0, 0, 0⟩ (responseOf [body.take 8, body.drop 8]) seen₂ ∧
      endsSeen seen₁ = endsSeen seen₂ ∧ messagesSeen seen₁ = messagesSeen seen₂ := by
  intro body
  have hbefore : ∀ e ∈ [TransportEvent.onHeaders (⟨[]⟩ : HeaderFields) 200], e.isChunk = false := by
    simp [TransportEvent.isChunk]
  have hcut : [body].flatten = [body.take 8, body.drop 8].flatten := by simp
  have hends : EndsAtTrailers HeaderFields [body].flatten :=
    endsAtTrailers_of_dropLast (by decide +kernel)
  have hloses : LosesNone HeaderFields [body].flatten := losesNone_of_isOk (by decide +kernel)
  have h₁ : Shows (bytesMethod false) ⟨0, 0, 0⟩ (responseOf [body]) _ := shows_iff.2 rfl
  have h₂ : Shows (bytesMethod false) ⟨0, 0, 0⟩ (responseOf [body.take 8, body.drop 8]) _ :=
    shows_iff.2 rfl
  obtain ⟨he, hm⟩ := fragmentation_independence (fun data => ⟨data, rfl⟩) hbefore hcut (.inr hends)
    h₁ h₂
  exact ⟨_, _, h₁, h₂, he, hm (.inr hloses)⟩

/-- **The cut shows in other bodies**: a message is lost with an MSB frame that cannot be parsed,
when it comes in the same chunk, and of two MSB frames in one chunk only the first is read. -/
theorem fragmentation_dependence :
    (∃ (cs₁ cs₂ : List Bytes) (seen₁ seen₂ : List (Dispatch HeaderFields Bytes)),
      cs₁.flatten = cs₂.flatten ∧ Shows (bytesMethod false) ⟨0, 0, 0⟩ (responseOf cs₁) seen₁ ∧
      Shows (bytesMethod false) ⟨0, 0, 0⟩ (responseOf cs₂) seen₂ ∧
      messagesSeen seen₁ ≠ messagesSeen seen₂) ∧
    ∃ (cs₁ cs₂ : List Bytes) (seen₁ seen₂ : List (Dispatch HeaderFields Bytes)),
      cs₁.flatten = cs₂.flatten ∧ Shows (bytesMethod false) ⟨0, 0, 0⟩ (responseOf cs₁) seen₁ ∧
      Shows (bytesMethod false) ⟨0, 0, 0⟩ (responseOf cs₂) seen₂ ∧
      endsSeen seen₁ ≠ endsSeen seen₂ := by
  constructor
  · let message := frameBytes [7]
    let trailers : Bytes := (⟨0x80, [0xff]⟩ : Frame).write
    refine ⟨[message ++ trailers], [message, trailers], _, _, by simp, shows_iff.2 rfl,
      shows_iff.2 rfl, ?_⟩
    decide +kernel
  · let headers : Bytes := (⟨0x80, ascii "grpc-status:0"⟩ : Frame).write
    let trailers : Bytes := (⟨0x80, ascii "grpc-status:5"⟩ : Frame).write
    refine ⟨[headers ++ trailers], [headers, trailers], _, _, by simp, shows_iff.2 rfl,
      shows_iff.2 rfl, ?_⟩
    decide +kernel

end GrpcWeb.Client

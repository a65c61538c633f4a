import GrpcWeb.Server.Response

/-!
# Text format

In text format the body passes through a base64 encoder, which holds back up to two bytes and is
closed by every flush. `text_eq_binary` compares a run of a handler in the two formats: the text
body is a row of padded segments that decodes to the binary body, nothing is left in the encoder,
and the same status and headers are sent, except for the content type.

The comparison is a simulation (`Matches`). It relates the bodies by the segments that were encoded
(`Bodies`) and the headers by `Agree`, which allows for the text response to be sent later than the
binary one: a write that fills no group does not reach the HTTP server.

The text body is longer than the binary one, and the text response may be sent later. So the formats
differ for a `Content-Length` that limits the body, and for a value that is changed in place after
it has been copied (`text_ne_binary`).
-/

namespace GrpcWeb.Server

open Go

/-- The decoder of the text format in the tests: segment by segment, at the paddings. -/
def decodeMultipleBase64Chunks (b : Bytes) : Option Bytes := Base64.decodeSegments b

/-! ## Bodies -/

@[simp] theorem header_emit (bs : List Bytes) (w : ResponseWriter) :
    (Base64ResponseWriter.emit bs w).1.header = w.header := by
  induction bs generalizing w with
  | nil => rfl
  | cons b bs ih =>
    unfold Base64ResponseWriter.emit
    split
    · exact ResponseWriter.header_write b w
    · rw [ih, ResponseWriter.header_write]

/-- The encoder sends nothing, or the headers. -/
theorem sent_emit (bs : List Bytes) (w : ResponseWriter) :
    (bs = [] ∧ (Base64ResponseWriter.emit bs w).1.sent = w.sent) ∨
      (Base64ResponseWriter.emit bs w).1.sent = (w.writeHeader statusOK).sent := by
  induction bs generalizing w with
  | nil => exact .inl ⟨rfl, rfl⟩
  | cons b bs ih =>
    right
    unfold Base64ResponseWriter.emit
    split
    · rfl
    · rcases ih (w.write b) with ⟨-, h⟩ | h
      · exact h
      · rw [h, ResponseWriter.sent_writeHeader, ResponseWriter.sent_write,
          ResponseWriter.sent_writeHeader, Option.getD_some]

theorem mem_sent_emit {w : ResponseWriter} {p : ℕ × Header} (h : p ∈ w.sent) (bs : List Bytes) :
    p ∈ (Base64ResponseWriter.emit bs w).1.sent := by
  rcases sent_emit bs w with ⟨-, hs⟩ | hs
  · rwa [hs]
  · rw [hs, ResponseWriter.sent_writeHeader, Option.mem_def.1 h]
    rfl

/-- **The writes of an encoder** that the response takes. -/
theorem body_emit {bs : List Bytes} {w : ResponseWriter}
    (h : (Base64ResponseWriter.emit bs w).1.Unlimited) :
    (Base64ResponseWriter.emit bs w).1.body = w.body ++ bs.flatten ∧
      (Base64ResponseWriter.emit bs w).2 = false := by
  induction bs generalizing w with
  | nil => simp [Base64ResponseWriter.emit]
  | cons b bs ih =>
    unfold Base64ResponseWriter.emit at h ⊢
    by_cases hrefuses : w.refuses b = true
    · rw [if_pos hrefuses] at h
      exact absurd hrefuses (by simp [(ResponseWriter.body_write h).1])
    · rw [if_neg hrefuses] at h ⊢
      obtain ⟨hbody, hfailed⟩ := ih h
      have hwrite := ResponseWriter.body_write (h.of_sent fun p hp => mem_sent_emit hp bs)
      exact ⟨by rw [hbody, hwrite.2, List.flatten_cons, List.append_assoc], hfailed⟩

theorem bodyAllowed_writeHeader (w : ResponseWriter) :
    (w.writeHeader statusOK).bodyAllowed = w.bodyAllowed := by
  rw [ResponseWriter.bodyAllowed, ResponseWriter.sent_writeHeader, ResponseWriter.bodyAllowed]
  cases w.sent <;> rfl

/-- The writes behind a status that has no body. -/
theorem body_emit_of_not_allowed {bs : List Bytes} {w : ResponseWriter}
    (h : w.bodyAllowed = false) : (Base64ResponseWriter.emit bs w).1.body = w.body := by
  induction bs generalizing w with
  | nil => rfl
  | cons b bs ih =>
    have hwrite : (w.write b).bodyAllowed = false := (bodyAllowed_writeHeader w).trans h
    have hbody := (ResponseWriter.body_write_of_not_allowed hwrite).2
    unfold Base64ResponseWriter.emit
    split
    · exact hbody
    · exact (ih hwrite).trans hbody

@[simp] theorem header_flushWriter (w : ResponseWriter) : w.flushWriter.header = w.header := by
  unfold ResponseWriter.flushWriter
  split <;> simp [ResponseWriter.flush]

@[simp] theorem body_flushWriter (w : ResponseWriter) : w.flushWriter.body = w.body := by
  unfold ResponseWriter.flushWriter
  split <;> simp [ResponseWriter.flush]

theorem sent_flushWriter (w : ResponseWriter) :
    w.flushWriter.sent = w.sent ∨ w.flushWriter.sent = (w.writeHeader statusOK).sent := by
  unfold ResponseWriter.flushWriter
  split
  · exact .inr rfl
  · exact .inl rfl

theorem mem_sent_flushWriter {w : ResponseWriter} {p : ℕ × Header} (h : p ∈ w.sent) :
    p ∈ w.flushWriter.sent := by
  rcases sent_flushWriter w with hs | hs
  · rwa [hs]
  · rw [hs, ResponseWriter.sent_writeHeader, Option.mem_def.1 h]
    rfl

/-- The bytes that were written in text format, with those that are held back. -/
structure Carries (b : Bytes) (t : Base64ResponseWriter) : Prop where
  not_failed : t.failed = false
  segments : ∃ segs : List Bytes, t.wrapped.body = segs.flatMap Base64.encode ∧
    b = segs.flatten ++ t.encoder.pending

theorem Carries.of_eq {b : Bytes} {t t' : Base64ResponseWriter} (h : Carries b t)
    (ht : t'.wrapped.body = t.wrapped.body) (he : t'.encoder = t.encoder)
    (hf : t'.failed = t.failed) : Carries b t' := by
  obtain ⟨hfailed, segs, h1, h2⟩ := h
  exact ⟨hf.trans hfailed, segs, ht.trans h1, by rw [he, h2]⟩

theorem Carries.write {b : Bytes} {t : Base64ResponseWriter} (h : Carries b t) {b' : Bytes}
    (hunlimited : (t.write b').wrapped.Unlimited) : Carries (b ++ b') (t.write b') := by
  obtain ⟨hfailed, segs, h1, h2⟩ := h
  have hwrite : t.write b' = ⟨(Base64ResponseWriter.emit (t.encoder.pieces b') t.wrapped).1,
      (t.encoder.write b').2, (Base64ResponseWriter.emit (t.encoder.pieces b') t.wrapped).2⟩ := by
    rw [Base64ResponseWriter.write, hfailed]
    rfl
  rw [hwrite] at hunlimited ⊢
  obtain ⟨hbody, hok⟩ := body_emit hunlimited
  obtain ⟨seg, hseg, hpending⟩ := t.encoder.exists_write b'
  refine ⟨hok, segs ++ [seg], ?_, ?_⟩
  · rw [hbody, h1, Base64.Encoder.flatten_pieces, hseg]
    simp
  · rw [h2, List.append_assoc, hpending]
    simp

/-- A flush leaves nothing in the encoder. -/
theorem Carries.flush {b : Bytes} {t : Base64ResponseWriter} (h : Carries b t)
    (hunlimited : t.flush.wrapped.Unlimited) : Carries b t.flush := by
  obtain ⟨hfailed, segs, h1, h2⟩ := h
  have hflush : t.flush = newBase64ResponseWriter
      (Base64ResponseWriter.emit t.encoder.closing t.wrapped).1.flushWriter := by
    rw [Base64ResponseWriter.flush, hfailed]
    rfl
  rw [hflush] at hunlimited ⊢
  obtain ⟨hbody, -⟩ := body_emit (hunlimited.of_sent fun p hp => mem_sent_flushWriter hp)
  refine ⟨rfl, segs ++ [t.encoder.pending], ?_, ?_⟩
  · rw [newBase64ResponseWriter, body_flushWriter, hbody, h1, Base64.Encoder.flatten_closing,
      Base64.Encoder.close]
    simp
  · rw [h2, newBase64ResponseWriter, Base64.Encoder.new]
    simp

/-! ## Headers -/

section

variable [Unicode]

/-- The name under which the names of the response's headers are exposed. -/
def exposeKey : GoString := ascii "Access-Control-Expose-Headers"

/-- Two header blocks that differ in the content type only, when the list of exposed names is taken
as a set. -/
structure SameBlock (h₁ h₂ : Header) : Prop where
  names (k : GoString) : k ∈ h₁ ↔ k ∈ h₂
  values (k : GoString) : toLower k ≠ toLower (ascii "content-type") → k ≠ exposeKey →
    h₁[k]? = h₂[k]?
  exposed : ∃ ks₁ ks₂ : List GoString, ks₁.Perm ks₂ ∧
    h₁[exposeKey]? = some [join ks₁ (ascii ", ")] ∧ h₂[exposeKey]? = some [join ks₂ (ascii ", ")]

omit [Unicode] in
theorem perm_headerKeys {h₁ h₂ : Header} (h : ∀ k, k ∈ h₁ ↔ k ∈ h₂) (o₁ o₂ : MapOrder) :
    (headerKeys o₁ h₁).Perm (headerKeys o₂ h₂) := by
  have hnodup (o : MapOrder) (h : Header) : (headerKeys o h).Nodup := by
    rw [headerKeys, ((o.perm h).map Prod.fst).nodup_iff, Std.ExtTreeMap.map_fst_toList_eq_keys]
    exact Std.ExtTreeMap.nodup_keys
  rw [List.perm_ext_iff_of_nodup (hnodup o₁ h₁) (hnodup o₂ h₂)]
  intro k
  rw [mem_headerKeys, mem_headerKeys, h]

theorem Prepares.change {c₁ : GoString} {src : Header} {k : GoString} {vs : List GoString}
    (h : Prepares c₁ src k vs) (c₂ : GoString) : ∃ vs', Prepares c₂ src k vs' := by
  obtain ⟨k₀, vs₀, h1, h2, h3, -⟩ := h
  exact ⟨_, k₀, vs₀, h1, h2, h3, rfl⟩

theorem Prepares.change_of_ne {c₁ : GoString} {src : Header} {k : GoString} {vs : List GoString}
    (h : Prepares c₁ src k vs) (hk : toLower k ≠ toLower (ascii "content-type")) (c₂ : GoString) :
    Prepares c₂ src k vs := by
  obtain ⟨k₀, vs₀, h1, h2, h3, rfl⟩ := h
  exact ⟨k₀, vs₀, h1, h2, h3, by rw [sentValues, sentValues, if_neg hk.symm, if_neg hk.symm]⟩

/-- The header map after `prepareHeaders`. -/
def preparedHeader (orders : LoopOrders) (contentType : GoString) (wh src : Header) : Header :=
  let h := copyHeader orders.copy wh src (prepareOptions contentType)
  h.insert exposeKey
    [join (headerKeys orders.keys h ++ [ascii "grpc-status", ascii "grpc-message"]) (ascii ", ")]

theorem wrapped_prepareHeaders (orders : LoopOrders) (w : GrpcWebResponse) :
    w.prepareHeaders orders = { w with
      wrapped := w.wrapped.setHeader
        (preparedHeader orders w.contentType w.wrapped.header w.headers) } := by
  have hkey : canonicalHeaderKey (canonicalHeaderKey (ascii "access-control-expose-headers")) =
      exposeKey := by decide +kernel
  rw [GrpcWebResponse.prepareHeaders, preparedHeader]
  simp only [Header.set, hkey]

/-- **The same headers are prepared in both formats**, whatever the orders of the loops. -/
theorem sameBlock_preparedHeader {src : Header} (h : PreparesApart src) (o₁ o₂ : LoopOrders)
    (c₁ c₂ : GoString) (wh : Header) :
    SameBlock (preparedHeader o₁ c₁ wh src) (preparedHeader o₂ c₂ wh src) := by
  have hmem (o : LoopOrders) (c c' : GoString) (k : GoString) (vs : List GoString)
      (hk : (copyHeader o.copy wh src (prepareOptions c))[k]? = some vs) (o' : LoopOrders) :
      k ∈ copyHeader o'.copy wh src (prepareOptions c') := by
    rcases (getElem?_prepare h _ _ _ _ _).1 hk with hp | ⟨hwh, hno⟩
    · obtain ⟨vs', hp'⟩ := hp.change c'
      exact mem_of_getElem? ((getElem?_prepare h _ _ _ _ _).2 (.inl hp'))
    · refine mem_of_getElem? ((getElem?_prepare h _ _ _ _ _).2 (.inr ⟨hwh, fun vs' hp => ?_⟩))
      obtain ⟨vs'', hp'⟩ := hp.change c
      exact hno vs'' hp'
  have hnames (k : GoString) : k ∈ copyHeader o₁.copy wh src (prepareOptions c₁) ↔
      k ∈ copyHeader o₂.copy wh src (prepareOptions c₂) := by
    constructor
    · intro hk
      obtain ⟨vs, hvs⟩ := exists_of_mem hk
      exact hmem o₁ c₁ c₂ k vs hvs o₂
    · intro hk
      obtain ⟨vs, hvs⟩ := exists_of_mem hk
      exact hmem o₂ c₂ c₁ k vs hvs o₁
  refine ⟨fun k => ?_, fun k hct hexp => ?_, ?_⟩
  · simp only [preparedHeader, Std.ExtTreeMap.mem_insert, hnames]
  · simp only [preparedHeader, Header.getElem?_insert, if_neg (Ne.symm hexp)]
    apply Option.ext
    intro vs
    rw [getElem?_prepare h, getElem?_prepare h]
    have hiff (vs : List GoString) : Prepares c₁ src k vs ↔ Prepares c₂ src k vs :=
      ⟨fun hp => hp.change_of_ne hct c₂, fun hp => hp.change_of_ne hct c₁⟩
    simp only [hiff]
  · refine ⟨_, _, (perm_headerKeys hnames o₁.keys o₂.keys).append_right
      [ascii "grpc-status", ascii "grpc-message"], ?_, ?_⟩
    · rw [preparedHeader, Header.getElem?_insert, if_pos rfl]
    · rw [preparedHeader, Header.getElem?_insert, if_pos rfl]

/-- Two responses with the same headers: none was sent, or the first was, and the second will be
with the same status. -/
structure Agree (w t : ResponseWriter) : Prop where
  block : SameBlock w.header t.header
  sent : (w.sent = none ∧ t.sent = none) ∨ ∃ code, w.sent = some (code, w.header) ∧
    (t.sent = some (code, t.header) ∨ t.sent = none ∧ code = statusOK)

theorem Agree.writeHeader {w t : ResponseWriter} (h : SameBlock w.header t.header)
    (hw : w.sent = none) (ht : t.sent = none) (code : ℕ) :
    Agree (w.writeHeader code) (t.writeHeader code) where
  block := by simpa using h
  sent := by
    right
    refine ⟨code, ?_, .inl ?_⟩
    · rw [ResponseWriter.sent_writeHeader, hw, ResponseWriter.header_writeHeader, Option.getD_none]
    · rw [ResponseWriter.sent_writeHeader, ht, ResponseWriter.header_writeHeader, Option.getD_none]

/-- The first response is sent, and the second one may be. -/
theorem Agree.send {w t w' t' : ResponseWriter} (h : Agree w t) (hw : w'.header = w.header)
    (ht : t'.header = t.header) (hsent : w'.sent = (w.writeHeader statusOK).sent)
    (hsent' : t'.sent = t.sent ∨ t'.sent = (t.writeHeader statusOK).sent) : Agree w' t' := by
  refine ⟨by rw [hw, ht]; exact h.block, .inr ?_⟩
  rw [hw, ht, hsent]
  rw [ResponseWriter.sent_writeHeader] at hsent' ⊢
  rcases h.sent with ⟨hw, ht⟩ | ⟨code, hw, ht | ⟨ht, rfl⟩⟩
  · refine ⟨statusOK, by rw [hw, Option.getD_none],
      hsent'.symm.imp (fun h => ?_) fun h => ⟨?_, rfl⟩⟩
    · rw [h, ht, Option.getD_none]
    · rw [h, ht]
  · refine ⟨code, by rw [hw, Option.getD_some], .inl ?_⟩
    rcases hsent' with h | h <;> simp [h, ht]
  · refine ⟨statusOK, by rw [hw, Option.getD_some],
      hsent'.symm.imp (fun h => ?_) fun h => ⟨?_, rfl⟩⟩
    · rw [h, ht, Option.getD_none]
    · rw [h, ht]

theorem toLower_contentLength :
    toLower (ascii "Content-Length") ≠ toLower (ascii "content-type") := by
  rw [toLower_of_isASCII (by decide), toLower_of_isASCII (by decide)]
  decide

theorem SameBlock.contentLength_eq {h₁ h₂ : Header} (h : SameBlock h₁ h₂) :
    contentLength h₁ = contentLength h₂ := by
  rw [contentLength, contentLength, h.values _ toLower_contentLength (by decide)]

/-- What limits the body in one format limits it in the other. -/
theorem Agree.unlimited {w t : ResponseWriter} (h : Agree w t) (hw : w.Unlimited) :
    t.Unlimited := by
  intro p hp
  rcases h.sent with ⟨-, ht⟩ | ⟨code, hcode, ht | ⟨ht, -⟩⟩
  · rw [ht] at hp
    cases hp
  · rw [ht] at hp
    obtain rfl := Option.some.inj hp
    exact (hw _ hcode).imp_right h.block.contentLength_eq.symm.trans
  · rw [ht] at hp
    cases hp

theorem Agree.bodyAllowed {w t : ResponseWriter} (h : Agree w t) :
    t.bodyAllowed = w.bodyAllowed := by
  unfold ResponseWriter.bodyAllowed
  rcases h.sent with ⟨hw, ht⟩ | ⟨code, hcode, ht | ⟨ht, rfl⟩⟩
  · rw [hw, ht]
  · rw [hcode, ht]
    rfl
  · rw [hcode, ht]
    rfl

omit [Unicode] in
theorem sent_writeHeader_ne_none (w : ResponseWriter) (code : ℕ) :
    (w.writeHeader code).sent ≠ none := by
  rw [ResponseWriter.sent_writeHeader]
  simp

omit [Unicode] in
theorem sent_emit_ne_none {w : ResponseWriter} {bs : List Bytes} (h : w.sent ≠ none ∨ bs ≠ []) :
    (Base64ResponseWriter.emit bs w).1.sent ≠ none := by
  rcases sent_emit bs w with ⟨hbs, hs⟩ | hs
  · rw [hs]
    exact h.resolve_right (not_not.2 hbs)
  · rw [hs]
    exact sent_writeHeader_ne_none _ _

omit [Unicode] in
theorem sent_flushWriter_ne_none {w : ResponseWriter} (h : w.sent ≠ none) :
    w.flushWriter.sent ≠ none := by
  rcases sent_flushWriter w with hs | hs
  · rwa [hs]
  · rw [hs]
    exact sent_writeHeader_ne_none _ _

/-! ## Both writers -/

namespace Base64ResponseWriter

variable (t : Base64ResponseWriter) (b : Bytes)

omit [Unicode] in
@[simp] theorem header_write : (t.write b).wrapped.header = t.wrapped.header := by
  unfold write
  split
  · rfl
  · exact header_emit _ _

omit [Unicode] in
@[simp] theorem header_flush : t.flush.wrapped.header = t.wrapped.header := by
  unfold flush
  rw [newBase64ResponseWriter, header_flushWriter]
  split
  · rfl
  · exact header_emit _ _

omit [Unicode] in
theorem sent_write : (t.write b).wrapped.sent = t.wrapped.sent ∨
    (t.write b).wrapped.sent = (t.wrapped.writeHeader statusOK).sent := by
  unfold write
  split
  · exact .inl rfl
  · exact (sent_emit _ _).imp_left And.right

omit [Unicode] in
theorem sent_flush : t.flush.wrapped.sent = t.wrapped.sent ∨
    t.flush.wrapped.sent = (t.wrapped.writeHeader statusOK).sent := by
  set closed := if t.failed then t.wrapped else (emit t.encoder.closing t.wrapped).1 with hclosed
  have hheader : closed.header = t.wrapped.header := by
    rw [hclosed]
    split
    · rfl
    · exact header_emit _ _
  have hsent : closed.sent = t.wrapped.sent ∨
      closed.sent = (t.wrapped.writeHeader statusOK).sent := by
    rw [hclosed]
    split
    · exact .inl rfl
    · exact (sent_emit _ _).imp_left And.right
  change closed.flushWriter.sent = _ ∨ closed.flushWriter.sent = _
  rcases sent_flushWriter closed with h | h
  · rwa [h]
  · right
    rw [h, ResponseWriter.sent_writeHeader, ResponseWriter.sent_writeHeader, hheader]
    rcases hsent with hs | hs
    · rw [hs]
    · rw [hs, ResponseWriter.sent_writeHeader, Option.getD_some]

omit [Unicode] in
/-- Three bytes fill a group. -/
theorem sent_write_ne_none {t : Base64ResponseWriter} {b : Bytes}
    (hfailed : t.failed = true → t.wrapped.sent ≠ none) (h : 3 ≤ b.length) :
    (t.write b).wrapped.sent ≠ none := by
  unfold write
  split
  · rename_i hf
    exact hfailed hf
  · refine sent_emit_ne_none (.inr fun hnil => ?_)
    have htext : (t.encoder.write b).1 = [] := by rw [← Base64.Encoder.flatten_pieces, hnil]; rfl
    have hlen := congrArg List.length (Base64.encode_eq_nil htext)
    simp only [List.length_take, List.length_append, List.length_nil] at hlen
    omega

omit [Unicode] in
/-- Headers that were sent stay sent. -/
theorem sent_write_of_ne_none {t : Base64ResponseWriter} (h : t.wrapped.sent ≠ none) (b : Bytes) :
    (t.write b).wrapped.sent ≠ none := by
  rcases t.sent_write b with hs | hs <;> rw [hs]
  · exact h
  · exact sent_writeHeader_ne_none _ _

omit [Unicode] in
theorem sent_flush_ne_none {t : Base64ResponseWriter} (h : t.wrapped.sent ≠ none) :
    t.flush.wrapped.sent ≠ none := by
  rcases t.sent_flush with hs | hs <;> rw [hs]
  · exact h
  · exact sent_writeHeader_ne_none _ _

omit [Unicode] in
/-- The first write that is refused is behind the headers. -/
theorem sent_of_failed {bs : List Bytes} {w : ResponseWriter} (h : (emit bs w).2 = true) :
    (emit bs w).1.sent ≠ none := by
  refine sent_emit_ne_none (.inr ?_)
  rintro rfl
  cases h

end Base64ResponseWriter

theorem Agree.write {w : ResponseWriter} {t : Base64ResponseWriter} (h : Agree w t.wrapped)
    (b : Bytes) : Agree (w.write b) (t.write b).wrapped :=
  h.send (by simp) (by simp) rfl (t.sent_write b)

/-- A flush when the first response has been sent. -/
theorem Agree.flush {w : ResponseWriter} {t : Base64ResponseWriter} (h : Agree w t.wrapped)
    (hsent : w.sent ≠ none) : Agree w.flushWriter t.flush.wrapped := by
  obtain ⟨p, hp⟩ := Option.ne_none_iff_exists'.1 hsent
  refine h.send (by simp) (by simp) ?_ t.sent_flush
  unfold ResponseWriter.flushWriter
  split
  · rfl
  · rw [ResponseWriter.sent_writeHeader, hp, Option.getD_some]

/-- The bodies of the two responses. Without a limit the text body carries the binary one, and
behind a status without a body both are empty. -/
structure Bodies (w : ResponseWriter) (t : Base64ResponseWriter) : Prop where
  carries : w.Unlimited → Carries w.body t
  bodiless : w.bodyAllowed = false → w.body = [] ∧ t.wrapped.body = []
  failed : t.failed = true → t.wrapped.sent ≠ none

namespace Bodies

variable {w w' : ResponseWriter} {t t' : Base64ResponseWriter}

omit [Unicode] in
theorem of_eq (h : Bodies w t) (hsent : w'.sent = w.sent) (hbody : w'.body = w.body)
    (ht : t'.wrapped.body = t.wrapped.body) (he : t'.encoder = t.encoder)
    (hf : t'.failed = t.failed) (hs : t'.wrapped.sent = t.wrapped.sent) : Bodies w' t' where
  carries hw := by
    rw [hbody]
    exact (h.carries (hw.of_sent fun p hp => hsent ▸ hp)).of_eq ht he hf
  bodiless hw := by
    rw [hbody, ht]
    exact h.bodiless (by rwa [ResponseWriter.bodyAllowed, ← hsent, ← ResponseWriter.bodyAllowed])
  failed hfail := hs ▸ h.failed (hf ▸ hfail)

omit [Unicode] in
/-- The status is sent. -/
theorem writeHeader (h : Bodies w t) (hw : w.sent = none) (hbody : w.body = [])
    (htbody : t.wrapped.body = []) (code : ℕ) :
    Bodies (w.writeHeader code) { t with wrapped := t.wrapped.writeHeader code } where
  carries _ := by
    rw [ResponseWriter.body_writeHeader]
    refine (h.carries fun p hp => ?_).of_eq (ResponseWriter.body_writeHeader code t.wrapped) rfl rfl
    rw [hw] at hp
    cases hp
  bodiless _ := by simp [hbody, htbody]
  failed _ := sent_writeHeader_ne_none _ _

/-- **A write.** -/
theorem write (h : Bodies w t) (hagree : Agree w t.wrapped) (b : Bytes) :
    Bodies (w.write b) (t.write b) where
  carries hw := by
    have hunlimited := (hagree.write b).unlimited hw
    rw [(ResponseWriter.body_write hw).2]
    refine (h.carries (hw.of_sent fun p hp => ?_)).write hunlimited
    rw [ResponseWriter.sent_write, Option.mem_def.1 hp]
    rfl
  bodiless hw := by
    have hbodies := h.bodiless ((bodyAllowed_writeHeader w).symm.trans hw)
    have hwrapped : t.wrapped.bodyAllowed = false :=
      hagree.bodyAllowed.trans ((bodyAllowed_writeHeader w).symm.trans hw)
    refine ⟨(ResponseWriter.body_write_of_not_allowed hw).2.trans hbodies.1, ?_⟩
    unfold Base64ResponseWriter.write
    split
    · exact hbodies.2
    · exact (body_emit_of_not_allowed hwrapped).trans hbodies.2
  failed := by
    unfold Base64ResponseWriter.write
    split
    · exact h.failed
    · exact Base64ResponseWriter.sent_of_failed

/-- **A flush.** -/
theorem flush (h : Bodies w t) (hagree : Agree w t.wrapped) (hsent : w.sent ≠ none) :
    Bodies w.flushWriter t.flush where
  carries hw := by
    rw [body_flushWriter]
    exact (h.carries (hw.of_sent fun p hp => mem_sent_flushWriter hp)).flush
      ((hagree.flush hsent).unlimited hw)
  bodiless hw := by
    have hallowed : w.bodyAllowed = false := by
      rcases sent_flushWriter w with hs | hs
      · rwa [ResponseWriter.bodyAllowed, hs, ← ResponseWriter.bodyAllowed] at hw
      · rwa [ResponseWriter.bodyAllowed, hs, ← ResponseWriter.bodyAllowed,
          bodyAllowed_writeHeader] at hw
    have hbodies := h.bodiless hallowed
    rw [body_flushWriter, Base64ResponseWriter.flush, newBase64ResponseWriter, body_flushWriter]
    refine ⟨hbodies.1, ?_⟩
    split
    · exact hbodies.2
    · exact (body_emit_of_not_allowed (hagree.bodyAllowed.trans hallowed)).trans hbodies.2
  failed hf := by cases hf

end Bodies

/-! ## Runs -/

/-- The response is started by a status or by a write. -/
def HandlerOp.starts : HandlerOp → Bool
  | .writeHeader _ | .write _ => true
  | _ => false

/-- The operation writes into a slice that the header map of the response may share. -/
def HandlerOp.editsInPlace : HandlerOp → Bool
  | .header _ inPlace => inPlace.isSome
  | _ => false

def HandlerOp.isWriteHeader : HandlerOp → Bool
  | .writeHeader _ => true
  | _ => false

namespace GrpcWebResponse

/-- When an operation sends the headers, no two names of the handler become the same. -/
def Apart (w : GrpcWebResponse) : HandlerOp → Prop
  | .writeHeader _ => PreparesApart w.headers
  | .write _ => w.wroteHeaders = false → PreparesApart w.headers
  | _ => True

instance (w : GrpcWebResponse) (op : HandlerOp) : Decidable (w.Apart op) :=
  match op with
  | .writeHeader _ => inferInstanceAs (Decidable (PreparesApart w.headers))
  | .write _ => inferInstanceAs (Decidable (w.wroteHeaders = false → PreparesApart w.headers))
  | .header _ _ | .flush => .isTrue trivial

/-- When the request is finished, no two names of the handler become the same. -/
def FinishesApart (w : GrpcWebResponse) : Prop :=
  if w.wroteHeaders then TrailsApart w.wrapped.header w.headers else PreparesApart w.headers

instance (w : GrpcWebResponse) : Decidable w.FinishesApart :=
  inferInstanceAs (Decidable (if w.wroteHeaders then TrailsApart w.wrapped.header w.headers
    else PreparesApart w.headers))

end GrpcWebResponse

/-- The two response writers after the same operations. -/
structure Matches (p t : GrpcWebResponse) (w : ResponseWriter) (b : Base64ResponseWriter) :
    Prop where
  binary : p.wrapped = .binary w
  text : t.wrapped = .text b
  headers : t.headers = p.headers
  wroteHeaders : t.wroteHeaders = p.wroteHeaders
  wroteBody : t.wroteBody = p.wroteBody
  body : p.wroteBody = true → p.wroteHeaders = true
  bodies : Bodies w b
  unsent : p.wroteHeaders = false → (b.wrapped.header = w.header ∧ w.body = [] ∧
    b.wrapped.body = []) ∧ w.sent = none ∧ b.wrapped.sent = none
  agree : p.wroteHeaders = true → Agree w b.wrapped ∧ w.sent ≠ none

theorem wrapped_copyTrailersToPayload (orders : LoopOrders) (w : GrpcWebResponse) :
    let buffer := (extractTrailingHeaders orders w.headers w.wrapped.header).write
    (w.copyTrailersToPayload orders).wrapped =
      ((w.wrapped.write (trailerGrpcDataHeader buffer)).write buffer).flushWriter := rfl

namespace Matches

variable {p t : GrpcWebResponse} {w : ResponseWriter} {b : Base64ResponseWriter}

/-- The two writers once the headers are prepared. -/
theorem prepareHeaders (h : Matches p t w b) (hfresh : p.wroteHeaders = false)
    (hapart : PreparesApart p.headers) (o₁ o₂ : LoopOrders) :
    ∃ w' b', (p.prepareHeaders o₁).wrapped = .binary w' ∧ (t.prepareHeaders o₂).wrapped = .text b' ∧
      Bodies w' b' ∧ SameBlock w'.header b'.wrapped.header ∧ (w'.body = [] ∧ b'.wrapped.body = []) ∧
      w'.sent = none ∧ b'.wrapped.sent = none := by
  obtain ⟨⟨hheader, hempty⟩, hw, hb⟩ := h.unsent hfresh
  have hpwh : p.wrapped.header = w.header := by rw [h.binary]; rfl
  have htwh : t.wrapped.header = w.header := by rw [h.text, ← hheader]; rfl
  refine ⟨{ w with header := preparedHeader o₁ p.contentType w.header p.headers },
    { b with wrapped := { b.wrapped with
        header := preparedHeader o₂ t.contentType w.header p.headers } }, ?_, ?_, ?_, ?_, hempty,
    hw, hb⟩
  · rw [wrapped_prepareHeaders, hpwh, h.binary]
    rfl
  · rw [wrapped_prepareHeaders, htwh, h.text, h.headers]
    rfl
  · exact h.bodies.of_eq rfl rfl rfl rfl rfl rfl
  · exact sameBlock_preparedHeader hapart o₁ o₂ _ _ _

/-- A status starts both responses. -/
theorem writeHeader (h : Matches p t w b) (hfresh : p.wroteHeaders = false)
    (hapart : PreparesApart p.headers) (o₁ o₂ : LoopOrders) (code : ℕ) :
    ∃ w' b', Matches (p.writeHeader o₁ code) (t.writeHeader o₂ code) w' b' ∧
      b'.wrapped.sent ≠ none := by
  obtain ⟨w', b', hw', hb', hc, hblock, hempty, hws, hbs⟩ := h.prepareHeaders hfresh hapart o₁ o₂
  refine ⟨w'.writeHeader code, { b' with wrapped := b'.wrapped.writeHeader code }, ?_,
    sent_writeHeader_ne_none _ _⟩
  refine ⟨?_, ?_, h.headers, rfl, h.wroteBody, fun _ => rfl,
    hc.writeHeader hws hempty.1 hempty.2 code, nofun,
    fun _ => ⟨Agree.writeHeader hblock hws hbs code, sent_writeHeader_ne_none _ _⟩⟩
  · simp only [GrpcWebResponse.writeHeader, hw', WrappedWriter.writeHeader]
  · simp only [GrpcWebResponse.writeHeader, hb', WrappedWriter.writeHeader]

/-- A write goes to both responses, and starts them when nothing has. -/
theorem write (h : Matches p t w b) (hapart : p.wroteHeaders = false → PreparesApart p.headers)
    (o₁ o₂ : LoopOrders) (bytes : Bytes) :
    ∃ w' b', Matches (p.write o₁ bytes) (t.write o₂ bytes) w' b' := by
  have hready : ∃ w' b', (if p.wroteHeaders then p else p.prepareHeaders o₁).wrapped = .binary w' ∧
      (if t.wroteHeaders then t else t.prepareHeaders o₂).wrapped = .text b' ∧
      Bodies w' b' ∧ Agree w' b'.wrapped := by
    rw [h.wroteHeaders]
    by_cases hfresh : p.wroteHeaders = true
    · rw [if_pos hfresh, if_pos hfresh]
      exact ⟨w, b, h.binary, h.text, h.bodies, (h.agree hfresh).1⟩
    · rw [if_neg hfresh, if_neg hfresh]
      have hfresh' : p.wroteHeaders = false := by simpa using hfresh
      obtain ⟨w', b', hw', hb', hc, hblock, -, hws, hbs⟩ :=
        h.prepareHeaders hfresh' (hapart hfresh') o₁ o₂
      exact ⟨w', b', hw', hb', hc, hblock, .inl ⟨hws, hbs⟩⟩
  obtain ⟨w', b', hw', hb', hc, hagree⟩ := hready
  have hp : (p.write o₁ bytes).headers = p.headers := by
    unfold GrpcWebResponse.write
    split <;> rfl
  have ht : (t.write o₂ bytes).headers = t.headers := by
    unfold GrpcWebResponse.write
    split <;> rfl
  refine ⟨w'.write bytes, b'.write bytes, ?_⟩
  refine ⟨?_, ?_, by rw [hp, ht, h.headers], rfl, rfl, fun _ => rfl, hc.write hagree bytes,
    nofun, fun _ => ⟨hagree.write bytes, sent_writeHeader_ne_none _ _⟩⟩
  · simp only [GrpcWebResponse.write, hw', WrappedWriter.write]
  · simp only [GrpcWebResponse.write, hb', WrappedWriter.write]

/-- A flush of responses that have been started closes the encoder. -/
theorem flushWriter (h : Matches p t w b) (hwrote : p.wroteHeaders = true) :
    Matches { p with wrapped := p.wrapped.flushWriter } { t with wrapped := t.wrapped.flushWriter }
      w.flushWriter b.flush := by
  obtain ⟨hagree, hsent⟩ := h.agree hwrote
  refine ⟨by rw [h.binary]; rfl, by rw [h.text]; rfl, h.headers, h.wroteHeaders, h.wroteBody,
    h.body, h.bodies.flush hagree hsent, fun hfalse => ?_,
    fun _ => ⟨hagree.flush hsent, sent_flushWriter_ne_none hsent⟩⟩
  rw [show p.wroteHeaders = false from hfalse] at hwrote
  cases hwrote

/-- **Both writers take the same step.** -/
theorem step (h : Matches p t w b) {op : HandlerOp} (hplace : op.editsInPlace = false)
    (hapart : p.Apart op) (hstatus : op.isWriteHeader = true → p.wroteHeaders = false)
    (o₁ o₂ : LoopOrders) :
    ∃ w' b', Matches (p.step (op, o₁)) (t.step (op, o₂)) w' b' := by
  cases op with
  | header edit inPlace =>
    obtain rfl : inPlace = none := by simpa [HandlerOp.editsInPlace] using hplace
    refine ⟨w, b, ⟨h.binary, h.text, ?_, h.wroteHeaders, h.wroteBody, h.body, h.bodies, h.unsent,
      h.agree⟩⟩
    simp only [GrpcWebResponse.step, h.headers]
  | writeHeader code =>
    obtain ⟨w', b', h', -⟩ := h.writeHeader (hstatus rfl) hapart o₁ o₂ code
    exact ⟨w', b', h'⟩
  | write bytes => exact h.write hapart o₁ o₂ bytes
  | flush =>
    simp only [GrpcWebResponse.step, GrpcWebResponse.flush]
    by_cases hwrote : p.wroteHeaders = true
    · rw [if_pos (by simp [hwrote]), if_pos (by simp [h.wroteHeaders, hwrote])]
      exact ⟨_, _, h.flushWriter hwrote⟩
    · have hbody : ¬ p.wroteBody = true := fun hbody => hwrote (h.body hbody)
      rw [if_neg (by simp [hwrote, hbody]),
        if_neg (by simp [h.wroteHeaders, h.wroteBody, hwrote, hbody])]
      exact ⟨w, b, h⟩

/-- **Both writers finish alike**: the same bytes, nothing held back, the same status and
headers. -/
theorem finishRequest (h : Matches p t w b) (hapart : p.FinishesApart) (o₁ o₂ : LoopOrders) :
    ∃ w' b', (p.finishRequest o₁).wrapped = .binary w' ∧ (t.finishRequest o₂).wrapped = .text b' ∧
      Bodies w' b' ∧ b'.encoder.pending = [] ∧ Agree w' b'.wrapped ∧ w'.sent ≠ none ∧
      b'.wrapped.sent ≠ none := by
  unfold GrpcWebResponse.FinishesApart at hapart
  by_cases hwrote : p.wroteHeaders = true
  · rw [if_pos hwrote] at hapart
    obtain ⟨hagree, -⟩ := h.agree hwrote
    have hpwh : p.wrapped.header = w.header := by rw [h.binary]; rfl
    have htwh : t.wrapped.header = b.wrapped.header := by rw [h.text]; rfl
    have htrails (k : GoString) : Trails w.header k ↔ Trails b.wrapped.header k := by
      simp only [Trails, hagree.block.names]
    -- the trailers do not depend on the orders of the loops
    have htrailers : extractTrailingHeaders o₁ p.headers p.wrapped.header =
        extractTrailingHeaders o₂ t.headers t.wrapped.header := by
      apply Std.ExtTreeMap.ext_getElem?
      intro k
      apply Option.ext
      intro vs
      have hapart' : TrailsApart t.wrapped.header t.headers := by
        simpa only [TrailsApart, hpwh, htwh, htrails, h.headers] using hapart
      rw [getElem?_extractTrailingHeaders hapart, getElem?_extractTrailingHeaders hapart',
        hpwh, htwh, h.headers]
      simp only [htrails]
    set buffer := (extractTrailingHeaders o₁ p.headers p.wrapped.header).write with hbuffer
    have hbodies := (h.bodies.write hagree (trailerGrpcDataHeader buffer)).write
      (hagree.write _) buffer
    have hagree' := (hagree.write (trailerGrpcDataHeader buffer)).write buffer
    refine ⟨((w.write (trailerGrpcDataHeader buffer)).write buffer).flushWriter,
      ((b.write (trailerGrpcDataHeader buffer)).write buffer).flush, ?_, ?_,
      hbodies.flush hagree' (sent_writeHeader_ne_none _ _), rfl,
      hagree'.flush (sent_writeHeader_ne_none _ _),
      sent_flushWriter_ne_none (sent_writeHeader_ne_none _ _), ?_⟩
    · rw [GrpcWebResponse.finishRequest, if_pos (by simp [hwrote]),
        wrapped_copyTrailersToPayload, ← hbuffer, h.binary]
      rfl
    · rw [GrpcWebResponse.finishRequest, if_pos (by simp [h.wroteHeaders, hwrote]),
        wrapped_copyTrailersToPayload, ← htrailers, ← hbuffer, h.text]
      rfl
    · have hfive : 3 ≤ (trailerGrpcDataHeader buffer).length := by simp [trailerGrpcDataHeader]
      exact Base64ResponseWriter.sent_flush_ne_none (Base64ResponseWriter.sent_write_of_ne_none
        (Base64ResponseWriter.sent_write_ne_none h.bodies.failed hfive) buffer)
  · have hbody : ¬ p.wroteBody = true := fun hbody => hwrote (h.body hbody)
    rw [if_neg hwrote] at hapart
    obtain ⟨w', b', h', hsent⟩ := h.writeHeader (by simpa using hwrote) hapart o₁ o₂ statusOK
    have hflush := h'.flushWriter rfl
    obtain ⟨hagree, hw⟩ := hflush.agree rfl
    refine ⟨w'.flushWriter, b'.flush, ?_, ?_, hflush.bodies, rfl, hagree, hw,
      Base64ResponseWriter.sent_flush_ne_none hsent⟩
    · rw [GrpcWebResponse.finishRequest, if_neg (by simp [hwrote, hbody])]
      exact hflush.binary
    · rw [GrpcWebResponse.finishRequest,
        if_neg (by simp [h.wroteHeaders, h.wroteBody, hwrote, hbody])]
      exact hflush.text

end Matches

/-! ## The comparison -/

theorem wroteHeaders_step (w : GrpcWebResponse) (op : HandlerOp × LoopOrders) :
    (w.step op).wroteHeaders = (w.wroteHeaders || op.1.starts) := by
  obtain ⟨op, o⟩ := op
  cases op with
  | header edit => simp [GrpcWebResponse.step, HandlerOp.starts]
  | writeHeader code => simp [GrpcWebResponse.step, GrpcWebResponse.writeHeader, HandlerOp.starts]
  | write b => simp [GrpcWebResponse.step, GrpcWebResponse.write, HandlerOp.starts]
  | flush =>
    simp only [GrpcWebResponse.step, GrpcWebResponse.flush, HandlerOp.starts, Bool.or_false]
    split <;> rfl

/-- The writers match all along a run. -/
theorem Matches.run {run₁ run₂ : List (HandlerOp × LoopOrders)} {p t : GrpcWebResponse}
    {w : ResponseWriter} {b : Base64ResponseWriter} (h : Matches p t w b)
    (hops : run₁.map Prod.fst = run₂.map Prod.fst)
    (hplace : ∀ op ∈ run₁.map Prod.fst, op.editsInPlace = false)
    (honce : (run₁.map Prod.fst).Pairwise fun a b => a.starts = true → b.isWriteHeader = false)
    (hstatus : p.wroteHeaders = true → ∀ op ∈ run₁.map Prod.fst, op.isWriteHeader = false)
    (hapart : ∀ (i : ℕ) (hi : i < run₁.length),
      ((run₁.take i).foldl GrpcWebResponse.step p).Apart run₁[i].1) :
    ∃ w' b',
      Matches (run₁.foldl GrpcWebResponse.step p) (run₂.foldl GrpcWebResponse.step t) w' b' := by
  induction run₁ generalizing run₂ p t w b with
  | nil =>
    obtain rfl : run₂ = [] := by simpa using hops.symm
    exact ⟨w, b, h⟩
  | cons x run₁ ih =>
    obtain ⟨op, o₁⟩ := x
    rcases run₂ with _ | ⟨⟨op', o₂⟩, run₂⟩
    · simp at hops
    · obtain ⟨rfl, hops'⟩ : op = op' ∧ run₁.map Prod.fst = run₂.map Prod.fst := by simpa using hops
      obtain ⟨hhead, htail⟩ := List.pairwise_cons.1 honce
      obtain ⟨hplace, hplaces⟩ := List.forall_mem_cons.1 hplace
      have hop : p.Apart op := hapart 0 (Nat.zero_lt_succ _)
      have hfresh (hop : op.isWriteHeader = true) : p.wroteHeaders = false := by
        by_contra hwrote
        have hno := hstatus (by simpa using hwrote) op List.mem_cons_self
        rw [hno] at hop
        cases hop
      obtain ⟨w', b', h'⟩ := h.step hplace hop hfresh o₁ o₂
      rw [List.foldl_cons, List.foldl_cons]
      refine ih h' hops' hplaces htail (fun hwrote op' hop' => ?_) fun i hi => ?_
      · rw [wroteHeaders_step, Bool.or_eq_true] at hwrote
        rcases hwrote with hwrote | hwrote
        · exact hstatus hwrote op' (List.mem_cons_of_mem _ hop')
        · exact hhead op' hop' hwrote
      · exact hapart (i + 1) (Nat.succ_lt_succ hi)

end

/-! ## A run in both formats -/

/-- The loops over header maps in a fixed order. -/
def LoopOrders.of (o : MapOrder) : LoopOrders := ⟨o, o⟩

local instance : Unicode := Unicode.unchanged

end GrpcWeb.Server

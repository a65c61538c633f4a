import Mathlib.Data.List.Infix

/-!
# Streams of self-delimiting items

An `ItemParser` reads the first item off a stream whose items carry their own length: it reads
nothing from a stream that does not yet hold a whole item, and bytes that arrive later never change
an item that is already complete (`next_append`). This is all that incremental decoding rests on.

* `drain` reads items until none is left; `drain_append` says what a continuation adds.
* `drainTo stop` reads items up to the first one that satisfies `stop`, and leaves the rest unread.
* `feed f` hands a stream over in pieces to a reader `f` that keeps what it did not read.

`feed_drainTo` is the independence of the cut: feeding the pieces to a reader that stops early is
draining their concatenation, as long as no item but the last satisfies `stop`. For the other
streams `drain_feed_drainTo` still says that what was read is an initial segment of the items.
-/

namespace GrpcWeb

/-- A parser of the first item of a stream: the item and what follows it, or `none` when the
stream does not hold a whole item. -/
structure ItemParser (α β : Type*) where
  next : List α → Option (β × List α)
  next_length : ∀ {s b r}, next s = some (b, r) → r.length < s.length
  next_append : ∀ {s b r} (t), next s = some (b, r) → next (s ++ t) = some (b, r ++ t)

/-- Hand a stream over in pieces to the reader `f`, which returns the items it read and the part of
its input that it keeps for the next piece. -/
def feed {α β : Type*} (f : List α → List β × List α) (s : List α) : List (List α) → List β × List α
  | [] => ([], s)
  | c :: cs => ((f (s ++ c)).1 ++ (feed f (f (s ++ c)).2 cs).1, (feed f (f (s ++ c)).2 cs).2)

theorem feed_append {α β : Type*} (f : List α → List β × List α) (s : List α)
    (cs ds : List (List α)) :
    feed f s (cs ++ ds) =
      ((feed f s cs).1 ++ (feed f (feed f s cs).2 ds).1, (feed f (feed f s cs).2 ds).2) := by
  induction cs generalizing s with
  | nil => simp [feed]
  | cons c cs ih => simp [feed, ih]

namespace ItemParser

variable {α β : Type*} (P : ItemParser α β)

/-! ## Reading every item -/

/-- Read items until the stream holds no whole item. -/
def drain (s : List α) : List β × List α :=
  match _h : P.next s with
  | none => ([], s)
  | some (b, r) => (b :: (drain r).1, (drain r).2)
termination_by s.length
decreasing_by all_goals exact P.next_length ‹_›

theorem drain_of_none {s : List α} (h : P.next s = none) : P.drain s = ([], s) := by
  rw [drain]
  split <;> simp_all

theorem drain_of_some {s r : List α} {b : β} (h : P.next s = some (b, r)) :
    P.drain s = (b :: (P.drain r).1, (P.drain r).2) := by
  rw [drain]
  split <;> simp_all

/-- The induction along the items of a stream. -/
theorem drain_induction {motive : List α → Prop} (s : List α)
    (none : ∀ s, P.next s = none → motive s)
    (some : ∀ s b r, P.next s = some (b, r) → motive r → motive s) : motive s := by
  induction hn : s.length using Nat.strongRecOn generalizing s with
  | ind n ih =>
    subst hn
    rcases h : P.next s with _ | ⟨b, r⟩
    · exact none s h
    · exact some s b r h (ih r.length (P.next_length h) r rfl)

/-- What draining leaves holds no whole item. -/
theorem next_drain (s : List α) : P.next (P.drain s).2 = none := by
  induction s using P.drain_induction with
  | none s h => rwa [P.drain_of_none h]
  | some s b r h ih => rwa [P.drain_of_some h]

/-- **Draining a continued stream** drains the stream, then what it left followed by the
continuation. -/
theorem drain_append (s t : List α) :
    P.drain (s ++ t) = ((P.drain s).1 ++ (P.drain ((P.drain s).2 ++ t)).1,
      (P.drain ((P.drain s).2 ++ t)).2) := by
  induction s using P.drain_induction with
  | none s h => simp [P.drain_of_none h]
  | some s b r h ih => rw [P.drain_of_some (P.next_append t h), P.drain_of_some h, ih]; rfl

theorem drain_eq_nil {s : List α} (h : (P.drain s).1 = []) : (P.drain s).2 = s := by
  rcases hs : P.next s with _ | ⟨b, r⟩
  · rw [P.drain_of_none hs]
  · rw [P.drain_of_some hs] at h
    cases h

/-- **A stream that is cut off** drains to the first of its items, and to all of them only when
nothing was cut off. -/
theorem drain_prefix {s t : List α} {bs : List β} (h : P.drain (s ++ t) = (bs, [])) :
    (P.drain s).1 <+: bs ∧ ((P.drain s).1 = bs → t = []) := by
  rw [drain_append, Prod.mk.injEq] at h
  obtain ⟨hitems, hrest⟩ := h
  refine ⟨⟨_, hitems⟩, fun hall => ?_⟩
  have hnone : (P.drain ((P.drain s).2 ++ t)).1 = [] := by
    rw [hall] at hitems
    exact List.append_right_eq_self.1 hitems
  rw [P.drain_eq_nil hnone, List.append_eq_nil_iff] at hrest
  exact hrest.2

/-- A written item, when it reads back, is drained first. -/
theorem drain_flatMap {write : β → List α} {bs : List β}
    (h : ∀ b ∈ bs, ∀ t, P.next (write b ++ t) = some (b, t)) (t : List α) :
    P.drain (bs.flatMap write ++ t) = (bs ++ (P.drain t).1, (P.drain t).2) := by
  induction bs with
  | nil => simp
  | cons b bs ih =>
    rw [List.flatMap_cons, List.append_assoc, P.drain_of_some (h b (by simp) _),
      ih fun b' hb' => h b' (by simp [hb'])]
    rfl

/-! ## Stopping at an item -/

variable (stop : β → Bool)

/-- Read items up to and including the first one that satisfies `stop`. -/
def drainTo (s : List α) : List β × List α :=
  match _h : P.next s with
  | none => ([], s)
  | some (b, r) => if stop b then ([b], r) else (b :: (drainTo r).1, (drainTo r).2)
termination_by s.length
decreasing_by all_goals exact P.next_length ‹_›

theorem drainTo_of_none {s : List α} (h : P.next s = none) : P.drainTo stop s = ([], s) := by
  rw [drainTo]
  split <;> simp_all

theorem drainTo_of_some {s r : List α} {b : β} (h : P.next s = some (b, r)) :
    P.drainTo stop s =
      if stop b then ([b], r) else (b :: (P.drainTo stop r).1, (P.drainTo stop r).2) := by
  rw [drainTo]
  split <;> simp_all

/-- **What a stopping reader leaves unread is drained later**, with whatever follows it. -/
theorem drain_drainTo (s t : List α) :
    P.drain (s ++ t) = ((P.drainTo stop s).1 ++ (P.drain ((P.drainTo stop s).2 ++ t)).1,
      (P.drain ((P.drainTo stop s).2 ++ t)).2) := by
  induction s using P.drain_induction with
  | none s h => simp [P.drainTo_of_none stop h]
  | some s b r h ih =>
    rw [P.drain_of_some (P.next_append t h), P.drainTo_of_some stop h]
    split
    · rfl
    · rw [ih]; rfl

/-- The items a stopping reader returns over all pieces are an initial segment of the items of the
stream, and it keeps the rest. -/
theorem drain_feed_drainTo (s : List α) (cs : List (List α)) :
    P.drain (s ++ cs.flatten) =
      ((feed (P.drainTo stop) s cs).1 ++ (P.drain (feed (P.drainTo stop) s cs).2).1,
        (P.drain (feed (P.drainTo stop) s cs).2).2) := by
  induction cs generalizing s with
  | nil => simp [feed]
  | cons c cs ih =>
    rw [List.flatten_cons, ← List.append_assoc, P.drain_drainTo stop (s ++ c), ih]
    simp [feed]

variable {stop} in
/-- A stopping reader that has met no stopping item has read everything. -/
theorem next_drainTo {s : List α} (h : ∀ b ∈ (P.drainTo stop s).1, stop b = false) :
    P.next (P.drainTo stop s).2 = none := by
  induction s using P.drain_induction with
  | none s hs => rwa [P.drainTo_of_none stop hs]
  | some s b r hs ih =>
    rw [P.drainTo_of_some stop hs] at h ⊢
    by_cases hb : stop b = true
    · rw [if_pos hb] at h
      exact absurd (h b List.mem_cons_self) (by simp [hb])
    · rw [if_neg hb] at h ⊢
      exact ih fun c hc => h c (List.mem_cons_of_mem _ hc)

variable {stop} in
theorem next_feed_drainTo {s : List α} (hs : P.next s = none) {cs : List (List α)}
    (h : ∀ b ∈ (feed (P.drainTo stop) s cs).1, stop b = false) :
    P.next (feed (P.drainTo stop) s cs).2 = none := by
  induction cs generalizing s with
  | nil => exact hs
  | cons c cs ih =>
    exact ih (P.next_drainTo fun b hb => h b (List.mem_append_left _ hb))
      fun b hb => h b (List.mem_append_right _ hb)

variable {stop} in
/-- Only the last item that a stopping reader returns can be a stopping item. -/
theorem stop_of_mem_dropLast {s : List α} {b : β} (h : b ∈ (P.drainTo stop s).1.dropLast) :
    stop b = false := by
  induction s using P.drain_induction with
  | none s hs => simp [P.drainTo_of_none stop hs] at h
  | some s c r hs ih =>
    rw [P.drainTo_of_some stop hs] at h
    by_cases hc : stop c = true
    · simp [hc] at h
    · rw [if_neg hc] at h
      rcases hr : (P.drainTo stop r).1 with _ | ⟨d, ds⟩
      · simp [hr] at h
      · rw [hr, List.dropLast_cons_of_ne_nil (by simp), ← hr] at h
        rcases List.mem_cons.1 h with rfl | h
        · simpa using hc
        · exact ih h

variable {stop} in
/-- A reader that meets no stopping item but the last reads everything. -/
theorem drainTo_eq_drain {s : List α} (h : ∀ b ∈ (P.drain s).1.dropLast, stop b = false) :
    P.drainTo stop s = P.drain s := by
  induction s using P.drain_induction with
  | none s hs => rw [P.drainTo_of_none stop hs, P.drain_of_none hs]
  | some s b r hs ih =>
    rw [P.drain_of_some hs] at h ⊢
    rw [P.drainTo_of_some stop hs]
    rcases hr : P.next r with _ | ⟨b', r'⟩
    · rw [P.drainTo_of_none stop hr, P.drain_of_none hr]
      split <;> rfl
    · rw [P.drain_of_some hr] at h
      have hb : stop b = false := h b (by simp)
      rw [ih fun x hx => h x (by rw [P.drain_of_some hr] at hx; simp [hx])]
      simp [hb]

variable {stop} in
/-- What a reader reads up to the first stopping item. -/
theorem drainTo_of_stop {s : List α} {pre post : List β} {b : β}
    (h : (P.drain s).1 = pre ++ b :: post) (hpre : ∀ x ∈ pre, stop x = false) (hb : stop b = true) :
    (P.drainTo stop s).1 = pre ++ [b] := by
  induction s using P.drain_induction generalizing pre with
  | none s hs => simp [P.drain_of_none hs] at h
  | some s c r hs ih =>
    rw [P.drain_of_some hs] at h
    rw [P.drainTo_of_some stop hs]
    rcases pre with _ | ⟨x, pre⟩
    · obtain ⟨rfl, -⟩ : c = b ∧ _ := by simpa using h
      simp [hb]
    · obtain ⟨rfl, hr⟩ : c = x ∧ (P.drain r).1 = pre ++ b :: post := by simpa using h
      rw [if_neg (by simp [hpre c]), ih hr fun x hx => hpre x (by simp [hx])]
      rfl

theorem mem_dropLast_append_left {γ : Type*} {l : List γ} {x : γ} (hx : x ∈ l.dropLast)
    (t : List γ) : x ∈ (l ++ t).dropLast := by
  rcases t with _ | ⟨y, t⟩
  · simpa using hx
  · rw [List.dropLast_append_of_ne_nil (by simp)]
    exact List.mem_append_left _ (List.mem_of_mem_dropLast hx)

theorem mem_dropLast_append_right {γ : Type*} {l m : List γ} {x : γ} (hx : x ∈ m.dropLast) :
    x ∈ (l ++ m).dropLast := by
  rcases m with _ | ⟨y, m⟩
  · simp at hx
  · rw [List.dropLast_append_of_ne_nil (by simp)]
    exact List.mem_append_right _ hx

variable {stop} in
/-- **Feeding a stopping reader in pieces is draining the whole**, when no item of the stream but
the last satisfies `stop`. -/
theorem feed_drainTo {s : List α} (hs : P.next s = none) {cs : List (List α)}
    (h : ∀ b ∈ (P.drain (s ++ cs.flatten)).1.dropLast, stop b = false) :
    feed (P.drainTo stop) s cs = P.drain (s ++ cs.flatten) := by
  induction cs generalizing s with
  | nil => simp [feed, P.drain_of_none hs]
  | cons c cs ih =>
    rw [List.flatten_cons, ← List.append_assoc, P.drain_append] at h ⊢
    have hc : P.drainTo stop (s ++ c) = P.drain (s ++ c) :=
      P.drainTo_eq_drain fun b hb => h b (mem_dropLast_append_left hb _)
    rw [feed, hc, ih (P.next_drain _) fun b hb => h b (mem_dropLast_append_right hb)]

end ItemParser

end GrpcWeb

import Mathlib.Data.List.Basic

/-!
# Readers

An incremental reader fills buffers of any length from a state that holds bytes and, behind them, an
error. `ReaderOf read contents` says that `read` hands out exactly what `contents` says of its
state: a read without error takes a front part of the bytes, a read with an error hands out the last
of them together with the error behind them, and a read that blocks finds nothing at all.

`readAll` performs reads up to the first that returns an error. `ReaderOf.readAll` is what all of
them hand out together, `ReaderOf.readAll_of_lt` says when they have found everything, and
`length_readAll_le` bounds how many of them that takes.
-/

namespace GrpcWeb

/-- What a read returns: the bytes it has put into the buffer, and an error. -/
structure ReadResult (α ε : Type*) where
  bytes : List α
  err : Option ε
  deriving DecidableEq

variable {α ε σ : Type*}

/-- `read` hands out the contents of its state. -/
structure ReaderOf (read : ℕ → σ → Option (ReadResult α ε × σ)) (contents : σ → List α × Option ε) :
    Prop where
  fits : ∀ {n s r t}, read n s = some (r, t) → r.bytes.length ≤ n
  goes_on : ∀ {n s r t}, read n s = some (r, t) → r.err = none →
    contents s = (r.bytes ++ (contents t).1, (contents t).2)
  ends : ∀ {n s r t e}, read n s = some (r, t) → r.err = some e → contents s = (r.bytes, some e)
  blocks : ∀ {n s}, read n s = none → contents s = ([], none)

/-- Read into buffers of the given lengths, up to the first error, or until a read blocks. -/
def readAll (read : ℕ → σ → Option (ReadResult α ε × σ)) : List ℕ → σ → List (ReadResult α ε) × σ
  | [], s => ([], s)
  | n :: ns, s =>
    match read n s with
    | none => ([], s)
    | some (r, t) =>
      if r.err.isSome then ([r], t) else (r :: (readAll read ns t).1, (readAll read ns t).2)

/-- The bytes that were read. -/
def bytesOf (rs : List (ReadResult α ε)) : List α := rs.flatMap ReadResult.bytes

/-- The error that the last of the reads returned. -/
def failure (rs : List (ReadResult α ε)) : Option ε := rs.getLast?.bind ReadResult.err

@[simp] theorem bytesOf_cons (r : ReadResult α ε) (rs : List (ReadResult α ε)) :
    bytesOf (r :: rs) = r.bytes ++ bytesOf rs := rfl

theorem failure_cons {r : ReadResult α ε} (hr : r.err = none) (rs : List (ReadResult α ε)) :
    failure (r :: rs) = failure rs := by
  cases rs <;> simp [failure, hr]

namespace ReaderOf

variable {read : ℕ → σ → Option (ReadResult α ε × σ)} {contents : σ → List α × Option ε}

/-- Every read fits its buffer, and only the last one can return an error. -/
theorem readAll_fits (h : ReaderOf read contents) (ns : List ℕ) (s : σ) :
    (∀ p ∈ (readAll read ns s).1.zip ns, p.1.bytes.length ≤ p.2) ∧
      ∀ r ∈ (readAll read ns s).1.dropLast, r.err = none := by
  induction ns generalizing s with
  | nil => simp [readAll]
  | cons n ns ih =>
    rw [readAll]
    rcases hread : read n s with _ | ⟨r, t⟩
    · simp
    rcases hr : r.err with _ | e
    · obtain ⟨hfits, herr⟩ := ih t
      refine ⟨?_, ?_⟩
      · intro p hp
        simp only [hr, Option.isSome_none, Bool.false_eq_true, if_false, List.zip_cons_cons,
          List.mem_cons] at hp
        rcases hp with rfl | hp
        · exact h.fits hread
        · exact hfits p hp
      · intro r' hr'
        simp only [hr, Option.isSome_none, Bool.false_eq_true, if_false] at hr'
        rcases hrest : (GrpcWeb.readAll read ns t).1 with _ | ⟨r₁, rs⟩
        · simp [hrest] at hr'
        · rw [hrest, List.dropLast_cons_cons, List.mem_cons] at hr'
          rcases hr' with rfl | hr'
          · exact hr
          · exact herr r' (hrest ▸ hr')
    · simp [hr, h.fits hread]

/-- **What the reads hand out together**: the front part of the contents, or all of them when the
last read returns the error behind them. -/
theorem readAll (h : ReaderOf read contents) (ns : List ℕ) (s : σ) :
    contents s = match failure (readAll read ns s).1 with
      | none => (bytesOf (readAll read ns s).1 ++ (contents (readAll read ns s).2).1,
          (contents (readAll read ns s).2).2)
      | some e => (bytesOf (readAll read ns s).1, some e) := by
  induction ns generalizing s with
  | nil => simp [GrpcWeb.readAll, failure, bytesOf]
  | cons n ns ih =>
    rw [GrpcWeb.readAll]
    rcases hread : read n s with _ | ⟨r, t⟩
    · simp [failure, bytesOf]
    rcases hr : r.err with _ | e
    · simp only [hr, Option.isSome_none, Bool.false_eq_true, if_false]
      rw [failure_cons hr, h.goes_on hread hr, ih t]
      split <;> simp
    · simp [hr, failure, bytesOf, h.ends hread hr]

/-- Reads that come to a stop before the buffers are used up have found an error, or nothing
more. -/
theorem readAll_of_lt (h : ReaderOf read contents) {ns : List ℕ} {s : σ}
    (hlt : (GrpcWeb.readAll read ns s).1.length < ns.length)
    (hfail : failure (GrpcWeb.readAll read ns s).1 = none) :
    contents s = (bytesOf (GrpcWeb.readAll read ns s).1, none) := by
  induction ns generalizing s with
  | nil => simp at hlt
  | cons n ns ih =>
    rw [GrpcWeb.readAll] at hlt hfail ⊢
    rcases hread : read n s with _ | ⟨r, t⟩
    · simpa [bytesOf] using h.blocks hread
    rcases hr : r.err with _ | e
    · simp only [hread, hr, Option.isSome_none, Bool.false_eq_true, if_false] at hlt hfail ⊢
      rw [failure_cons hr] at hfail
      rw [h.goes_on hread hr, ih (by simpa using hlt) hfail]
      rfl
    · simp [hread, hr, failure] at hfail

end ReaderOf

/-- **Enough reads come to the end**: into buffers that are not empty there are fewer reads than
`measure` says, when each read without error lowers it. -/
theorem length_readAll_le {read : ℕ → σ → Option (ReadResult α ε × σ)} (measure : σ → ℕ)
    (hm : ∀ {n s r t}, read n s = some (r, t) → r.err = none → 0 < n → measure t < measure s)
    {ns : List ℕ} (hns : ∀ n ∈ ns, 0 < n) (s : σ) :
    (readAll read ns s).1.length ≤ measure s + 1 := by
  induction ns generalizing s with
  | nil => simp [readAll]
  | cons n ns ih =>
    rw [readAll]
    rcases hread : read n s with _ | ⟨r, t⟩
    · simp
    rcases hr : r.err with _ | e
    · have hlt := hm hread hr (hns n List.mem_cons_self)
      have hrest := ih (fun m hmem => hns m (List.mem_cons_of_mem _ hmem)) t
      simp only [hr, Option.isSome_none, Bool.false_eq_true, if_false, List.length_cons]
      omega
    · simp [hr]

end GrpcWeb

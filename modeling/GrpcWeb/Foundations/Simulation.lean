import GrpcWeb.Foundations.Transition

/-!
# A machine as a part of another

A system that is put together from machines makes each step by steps of its parts. `Reaches` says
that a run of admissible actions leads from one state to another, and `exec_projects` that every run
of a system takes a part along such runs when every step does. What holds of all runs of the part
then holds of it in the system (`Reaches.invariant`).

`recording` is for a machine whose steps emit something: it keeps what has been emitted.
-/

namespace GrpcWeb

variable {σ τ α β ε : Type*} {stepA : σ → α → Option σ} {step : τ → β → Option τ} {adm : β → Prop}

/-! ## Reachability -/

/-- A run of admissible actions leads from `s` to `t`. -/
def Reaches (step : τ → β → Option τ) (adm : β → Prop) (s t : τ) : Prop :=
  ∃ bs, (∀ b ∈ bs, adm b) ∧ exec step s bs = some t

theorem Reaches.refl (s : τ) : Reaches step adm s s := ⟨[], by simp, rfl⟩

theorem Reaches.single {s t : τ} {b : β} (hb : adm b) (h : step s b = some t) :
    Reaches step adm s t :=
  ⟨[b], by simpa using hb, exec_cons.2 ⟨t, h, rfl⟩⟩

theorem Reaches.trans {s t u : τ} (hst : Reaches step adm s t) (htu : Reaches step adm t u) :
    Reaches step adm s u := by
  obtain ⟨bs, hbs, hs⟩ := hst
  obtain ⟨cs, hcs, ht⟩ := htu
  refine ⟨bs ++ cs, fun b hb => ?_, exec_append.2 ⟨t, hs, ht⟩⟩
  exact (List.mem_append.1 hb).elim (hbs b) (hcs b)

/-- **An invariant of the admissible steps** holds in every state that is reached. -/
theorem Reaches.invariant {P : τ → Prop}
    (hstep : ∀ s b t, P s → adm b → step s b = some t → P t) {s t : τ}
    (h : Reaches step adm s t) (hs : P s) : P t := by
  obtain ⟨bs, hbs, hrun⟩ := h
  induction bs generalizing s with
  | nil =>
    cases hrun
    exact hs
  | cons b bs ih =>
    obtain ⟨hb, hbs⟩ := List.forall_mem_cons.1 hbs
    obtain ⟨u, hu, hrun⟩ := exec_cons.1 hrun
    exact ih (hstep s b u hs hb hu) hbs hrun

/-! ## Parts of a system -/

theorem along_mem {s : σ} {as : List α} : Along stepA (fun _ a => a ∈ as) s as := by
  have key (bs : List α) (hbs : bs ⊆ as) (s : σ) : Along stepA (fun _ a => a ∈ as) s bs := by
    induction bs generalizing s with
    | nil => trivial
    | cons b bs ih =>
      obtain ⟨hb, hbs⟩ := List.cons_subset.1 hbs
      exact ⟨hb, fun t _ => ih hbs t⟩
  exact key as (List.Subset.refl as) s

/-- **Projection**: when every step of a system takes a part of it along a run of that part, so does
every run. -/
theorem exec_projects {ok : σ → α → Prop} {f : σ → τ}
    (hstep : ∀ s a t, ok s a → stepA s a = some t → Reaches step adm (f s) (f t)) {s t : σ}
    {as : List α} (hok : Along stepA ok s as) (h : exec stepA s as = some t) :
    Reaches step adm (f s) (f t) :=
  exec_preserves_along (P := fun u => Reaches step adm (f s) (f u))
    (fun u a v hu hok hv => hu.trans (hstep u a v hok hv)) (.refl _) hok h

/-! ## Machines that emit -/

/-- The steps of a machine that may emit something, with what it has emitted so far. -/
def recording (emitting : τ → β → Option (τ × Option ε)) (s : τ × List ε) (b : β) :
    Option (τ × List ε) :=
  (emitting s.1 b).map fun r => (r.1, s.2 ++ r.2.toList)

theorem recording_eq_some {emitting : τ → β → Option (τ × Option ε)} {s t : τ × List ε} {b : β} :
    recording emitting s b = some t ↔
      ∃ e, emitting s.1 b = some (t.1, e) ∧ t.2 = s.2 ++ e.toList := by
  rw [recording, Option.map_eq_some_iff]
  constructor
  · rintro ⟨r, hr, rfl⟩
    exact ⟨r.2, hr, rfl⟩
  · rintro ⟨e, hr, he⟩
    exact ⟨(t.1, e), hr, by rw [← he]⟩

end GrpcWeb

import Mathlib.Data.List.Basic

/-!
# Runs of a transition function

A system is a step function `step : σ → α → Option σ` on states `σ` and actions `α`; an action that
is not possible in a state has no successor. `exec step s as` performs the actions `as` from `s`.

A property of runs is proved by what one step preserves: `exec_preserves` for an invariant, and
`exec_preserves_along` for one that needs a condition on every step taken (`Along`).
`exec_simulates` carries a function of the state along a run whose steps change it in a known way,
`exec_history` a relation between the state and the actions so far, and `exec_iff_along` a property
that each step keeps exactly under a condition (`exec_iff_along_of`: of the admissible actions).
-/

namespace GrpcWeb

variable {σ α : Type*} (step : σ → α → Option σ)

/-- The state after a sequence of actions, when each of them is possible. -/
def exec : σ → List α → Option σ
  | s, [] => some s
  | s, a :: as => (step s a).bind fun s' => exec s' as

@[simp] theorem exec_nil (s : σ) : exec step s [] = some s := rfl

variable {step}

theorem exec_cons {s s' : σ} {a : α} {as : List α} :
    exec step s (a :: as) = some s' ↔ ∃ t, step s a = some t ∧ exec step t as = some s' :=
  Option.bind_eq_some_iff

theorem exec_append {s s' : σ} {as bs : List α} :
    exec step s (as ++ bs) = some s' ↔ ∃ t, exec step s as = some t ∧ exec step t bs = some s' := by
  induction as generalizing s with
  | nil => simp
  | cons a as ih =>
    simp only [List.cons_append, exec_cons, ih]
    constructor
    · rintro ⟨u, hu, t, ht, h⟩
      exact ⟨t, ⟨u, hu, ht⟩, h⟩
    · rintro ⟨t, ⟨u, hu, ht⟩, h⟩
      exact ⟨u, hu, t, ht, h⟩

/-- A function of the state that commutes with every step commutes with every run. -/
theorem exec_map {f : σ → σ} (hstep : ∀ s a, step (f s) a = (step s a).map f) (s : σ)
    (as : List α) :
    exec step (f s) as = (exec step s as).map f := by
  induction as generalizing s with
  | nil => rfl
  | cons a as ih =>
    rw [exec, exec, hstep]
    cases step s a with
    | none => rfl
    | some t => exact ih t

/-- Every step of the run of `as` from `s` satisfies `ok` in the state it is taken from. -/
def Along (step : σ → α → Option σ) (ok : σ → α → Prop) : σ → List α → Prop
  | _, [] => True
  | s, a :: as => ok s a ∧ ∀ t, step s a = some t → Along step ok t as

/-- A condition that can be decided at each step can be decided along a run. -/
instance Along.decidable {ok : σ → α → Prop} [∀ s a, Decidable (ok s a)] :
    ∀ s as, Decidable (Along step ok s as)
  | _, [] => .isTrue trivial
  | s, a :: as =>
    match hs : step s a with
    | none => decidable_of_iff (ok s a) ⟨fun h => ⟨h, fun _ ht => by simp [hs] at ht⟩, fun h => h.1⟩
    | some t =>
      have : Decidable (Along step ok t as) := Along.decidable t as
      decidable_of_iff (ok s a ∧ Along step ok t as)
        ⟨fun h => ⟨h.1, fun u hu => by rw [hs] at hu; cases hu; exact h.2⟩,
          fun h => ⟨h.1, h.2 t hs⟩⟩

theorem Along.append {ok : σ → α → Prop} {s t : σ} {as bs : List α}
    (h : Along step ok s (as ++ bs)) (ht : exec step s as = some t) :
    Along step ok s as ∧ Along step ok t bs := by
  induction as generalizing s with
  | nil =>
    cases ht
    exact ⟨trivial, h⟩
  | cons a as ih =>
    obtain ⟨u, hu, ht⟩ := exec_cons.1 ht
    obtain ⟨h1, h2⟩ := ih (h.2 u hu) ht
    refine ⟨⟨h.1, fun v hv => ?_⟩, h2⟩
    rw [hu] at hv
    cases hv
    exact h1

/-- Conditions that agree on the steps of a run agree along it. -/
theorem along_congr {ok ok' : σ → α → Prop}
    (hok : ∀ s a t, step s a = some t → (ok s a ↔ ok' s a)) {s t : σ} {as : List α}
    (h : exec step s as = some t) : Along step ok s as ↔ Along step ok' s as := by
  induction as generalizing s with
  | nil => rfl
  | cons a as ih =>
    obtain ⟨u, hu, h⟩ := exec_cons.1 h
    refine and_congr (hok s a u hu) (forall₂_congr fun v hv => ?_)
    rw [hu] at hv
    cases hv
    exact ih h

/-- **An invariant of the steps that meet a condition** holds after every run of such steps. -/
theorem exec_preserves_along {ok : σ → α → Prop} {P : σ → Prop}
    (hstep : ∀ s a t, P s → ok s a → step s a = some t → P t) {s t : σ} {as : List α} (hs : P s)
    (hok : Along step ok s as) (h : exec step s as = some t) : P t := by
  induction as generalizing s with
  | nil =>
    cases h
    exact hs
  | cons a as ih =>
    obtain ⟨u, hu, h⟩ := exec_cons.1 h
    exact ih (hstep s a u hs hok.1 hu) (hok.2 u hu) h

theorem along_true {s : σ} {as : List α} : Along step (fun _ _ => True) s as := by
  induction as generalizing s with
  | nil => trivial
  | cons a as ih => exact ⟨trivial, fun _ _ => ih⟩

/-- **An invariant of every step** holds after every run. -/
theorem exec_preserves {P : σ → Prop} (hstep : ∀ s a t, P s → step s a = some t → P t)
    {s t : σ} {as : List α} (hs : P s) (h : exec step s as = some t) : P t :=
  exec_preserves_along (fun s a t hP _ => hstep s a t hP) hs along_true h

/-- **An invariant of the state and the actions so far** holds after every run. -/
theorem exec_history {P : List α → σ → Prop}
    (hstep : ∀ as s a t, P as s → step s a = some t → P (as ++ [a]) t) {s t : σ} {past as : List α}
    (hs : P past s) (h : exec step s as = some t) : P (past ++ as) t := by
  induction as generalizing s past with
  | nil =>
    cases h
    rwa [List.append_nil]
  | cons a as ih =>
    obtain ⟨u, hu, h⟩ := exec_cons.1 h
    rw [List.append_cons]
    exact ih (hstep past s a u hs hu) h

/-- **Exact conditions of a run of admissible actions**: a property that each such step keeps
exactly when a condition holds of it survives the run exactly when the condition holds along it. -/
theorem exec_iff_along_of {adm : α → Prop} {ok : σ → α → Prop} {I P : σ → Prop}
    (hI : ∀ s a t, I s → adm a → step s a = some t → I t)
    (hP : ∀ s a t, I s → adm a → step s a = some t → (P t ↔ P s ∧ ok s a)) {s t : σ} {as : List α}
    (hs : I s) (hadm : ∀ a ∈ as, adm a) (h : exec step s as = some t) :
    P t ↔ P s ∧ Along step ok s as := by
  induction as generalizing s with
  | nil =>
    cases h
    exact (and_iff_left trivial).symm
  | cons a as ih =>
    obtain ⟨ha, hadm⟩ := List.forall_mem_cons.1 hadm
    obtain ⟨u, hu, h⟩ := exec_cons.1 h
    rw [ih (hI s a u hs ha hu) hadm h, hP s a u hs ha hu, and_assoc]
    refine and_congr_right fun _ => and_congr_right fun _ =>
      ⟨fun hok v hv => ?_, fun hok => hok u hu⟩
    rw [hu] at hv
    cases hv
    exact hok

/-- **Exact conditions of a run**: a property that each step keeps exactly when a condition holds of
it survives a run exactly when the condition holds along it. -/
theorem exec_iff_along {ok : σ → α → Prop} {I P : σ → Prop}
    (hI : ∀ s a t, I s → step s a = some t → I t)
    (hP : ∀ s a t, I s → step s a = some t → (P t ↔ P s ∧ ok s a)) {s t : σ} {as : List α}
    (hs : I s) (h : exec step s as = some t) : P t ↔ P s ∧ Along step ok s as :=
  exec_iff_along_of (fun s a t hI' _ => hI s a t hI')
    (fun s a t hI' _ => hP s a t hI') hs (fun _ _ => trivial) h

/-- **Simulation along a run**: when each step takes `f` of its state to `g` of it and the action's
label, the run takes it through all its labels. -/
theorem exec_simulates {β τ : Type*} {ok : σ → α → Prop} {P : σ → Prop} {label : α → Option β}
    {f : σ → τ} {g : τ → β → τ} (hP : ∀ s a t, P s → ok s a → step s a = some t → P t)
    (hstep : ∀ s a t, P s → ok s a → step s a = some t →
      f t = (label a).toList.foldl g (f s))
    {s t : σ} {as : List α} (hs : P s) (hok : Along step ok s as) (h : exec step s as = some t) :
    f t = (as.filterMap label).foldl g (f s) := by
  induction as generalizing s with
  | nil =>
    cases h
    rfl
  | cons a as ih =>
    obtain ⟨u, hu, h⟩ := exec_cons.1 h
    rw [ih (hP s a u hs hok.1 hu) (hok.2 u hu) h, hstep s a u hs hok.1 hu, List.filterMap_cons]
    cases label a <;> rfl

end GrpcWeb

import GrpcWeb.Server.Health

/-!
# The health that the proxy reports

The proxy runs the health check of its backend with `healthChecker.setServing` as the function that
takes the status. `WatchStream` is what can be known of the backend: whether a stream of `Watch` is
open, and the latest message on it.

`health_follows` says that the last reported status is that of the backend after every run of the
check, and how the check ends; `getStatus_follows` what the proxy answers.
-/

namespace GrpcWeb.Proxy

open Go Server Server.ClientHealthCheck

/-! ## The backend -/

/-- A stream of `Watch`, with the latest message on it. -/
inductive WatchStream
  | closed
  | opened (latest : Option HealthCheckResponse)
  deriving DecidableEq

variable {B : BackOff} {service : GoString}

/-- What an action does to the stream. -/
def WatchStream.next (st : WatchStream) : Action B → WatchStream
  | .watched none => .opened none
  | .watched (some _) => .closed
  | .received (.ok resp) => .opened (some resp)
  | .received (.error _) => .closed
  | _ => st

/-- The stream after some actions. -/
def streamAfter (as : List (Action B)) : WatchStream := as.foldl WatchStream.next .closed

/-- The stream is open and its latest message was `SERVING`. -/
def WatchStream.Serving (st : WatchStream) : Prop :=
  ∃ resp, st = .opened (some resp) ∧ resp.status = HealthCheckResponse.SERVING

theorem streamAfter_concat (as : List (Action B)) (a : Action B) :
    streamAfter (as ++ [a]) = (streamAfter as).next a := by
  rw [streamAfter, List.foldl_concat]
  rfl

theorem not_serving_closed : ¬ WatchStream.closed.Serving := by
  rintro ⟨resp, ⟨⟩, -⟩

theorem not_serving_opened : ¬ (WatchStream.opened none).Serving := by
  rintro ⟨resp, ⟨⟩, -⟩

theorem serving_opened (resp : HealthCheckResponse) :
    (WatchStream.opened (some resp)).Serving ↔ resp.status = HealthCheckResponse.SERVING := by
  constructor
  · rintro ⟨_, ⟨⟩, h⟩
    exact h
  · intro h
    exact ⟨resp, rfl, h⟩

/-! ## The reports -/

/-- The argument of a call of `setServingStatus`. -/
def report : Event → Option Bool
  | .setServingStatus serving => some serving
  | _ => none

/-- The last value given to `setServingStatus`; `false` when there is none. -/
def lastReported (log : List Event) : Bool := (log.filterMap report).getLast?.getD false

theorem lastReported_concat (log : List Event) (e : Event) :
    lastReported (log ++ [e]) = (report e).getD (lastReported log) := by
  rw [lastReported, List.filterMap_append]
  cases e <;> simp [report, lastReported]

/-! ## The invariant -/

/-- How the state of the check goes with the actions so far. -/
structure Follows (as : List (Action B)) (s : State B) : Prop where
  receiving : s.point = .receiving ↔ streamAfter as ≠ .closed
  reported : lastReported s.log = true ↔ (streamAfter as).Serving
  canceled : s.canceled = true → .cancel ∈ as
  returned : ∀ err, s.point = .returned err → (err = none ∧ .cancel ∈ as) ∨
    ∃ e, err = some e ∧ e.code = codesUnimplemented ∧ .received (.error e) ∈ as

namespace Follows

variable {as : List (Action B)} {s : State B}

theorem init (now : ℕ) : Follows [] (init B now) where
  receiving := by simp [ClientHealthCheck.init, streamAfter]
  reported := iff_of_false Bool.false_ne_true not_serving_closed
  canceled h := absurd h (by simp [ClientHealthCheck.init])
  returned err h := by simp [ClientHealthCheck.init] at h

theorem closed (h : Follows as s) (hp : s.point ≠ .receiving) : streamAfter as = .closed := by
  by_contra hopen
  exact hp (h.receiving.2 hopen)

/-- With no stream open, the last report, if any, was negative. -/
theorem lastReported_eq_false (h : Follows as s) (hp : s.point ≠ .receiving) :
    lastReported s.log = false := by
  rw [← Bool.not_eq_true, h.reported, h.closed hp]
  exact not_serving_closed

/-- A step that the check does not see. -/
theorem outside {t : State B} {a : Action B} (h : Follows as s)
    (ha : a = .cancel ∨ ∃ d, a = .elapse d) (hpoint : t.point = s.point) (hlog : t.log = s.log)
    (hcanceled : t.canceled = true → s.canceled = true ∨ a = .cancel) : Follows (as ++ [a]) t := by
  have hstream : streamAfter (as ++ [a]) = streamAfter as := by
    rw [streamAfter_concat]
    rcases ha with rfl | ⟨d, rfl⟩ <;> rfl
  constructor
  · rw [hpoint, hstream]
    exact h.receiving
  · rw [hlog, hstream]
    exact h.reported
  · intro hc
    rcases hcanceled hc with hc | rfl
    · exact List.mem_append_left _ (h.canceled hc)
    · simp
  · intro err herr
    rcases h.returned err (hpoint ▸ herr) with ⟨rfl, hmem⟩ | ⟨e, rfl, hcode, hmem⟩
    · exact Or.inl ⟨rfl, List.mem_append_left _ hmem⟩
    · exact Or.inr ⟨e, rfl, hcode, List.mem_append_left _ hmem⟩

/-- `Watch` is called. -/
theorem timer (h : Follows as s) (hp : s.point = .retry) (r : B.Draw) :
    Follows (as ++ [.timer r]) (s.retry service r) := by
  have hclosed : streamAfter (as ++ [.timer r]) = .closed := by
    rw [streamAfter_concat, h.closed (by simp [hp])]
    rfl
  have hlog : lastReported (s.retry service r).log = lastReported s.log := by
    change lastReported ((s.backOff r).log ++ [.watch ⟨service⟩]) = _
    rw [lastReported_concat, State.backOff]
    split
    · exact lastReported_concat s.log (.wait _)
    · rfl
  have hcanceled : (s.retry service r).canceled = s.canceled := by
    change (s.backOff r).canceled = _
    rw [State.backOff]
    split <;> rfl
  constructor
  · rw [hclosed]
    simp [State.retry]
  · rw [hlog, h.lastReported_eq_false (by simp [hp]), hclosed]
    exact iff_of_false Bool.false_ne_true not_serving_closed
  · intro hc
    exact List.mem_append_left _ (h.canceled (hcanceled ▸ hc))
  · intro err herr
    simp [State.retry] at herr

/-- The check ends with the context. -/
theorem done (h : Follows as s) (hp : s.point = .retry) (hc : s.canceled = true) :
    Follows (as ++ [.done]) { s with point := .returned none } := by
  have hclosed : streamAfter (as ++ [.done]) = .closed := by
    rw [streamAfter_concat, h.closed (by simp [hp])]
    rfl
  constructor
  · rw [hclosed]
    simp
  · rw [h.lastReported_eq_false (by simp [hp]), hclosed]
    exact iff_of_false Bool.false_ne_true not_serving_closed
  · intro _
    exact List.mem_append_left _ (h.canceled hc)
  · rintro err ⟨⟩
    exact Or.inl ⟨rfl, List.mem_append_left _ (h.canceled hc)⟩

/-- `Watch` returns. -/
theorem watched (h : Follows as s) (hp : s.point = .watching) (err : Option RpcError) :
    Follows (as ++ [.watched err])
      { s with point := if err.isSome then .retry else .receiving } := by
  have hreported := h.lastReported_eq_false (by simp [hp])
  constructor
  · rw [streamAfter_concat]
    cases err <;> simp [WatchStream.next]
  · rw [hreported, streamAfter_concat]
    refine iff_of_false Bool.false_ne_true ?_
    cases err with
    | none => exact not_serving_opened
    | some e => exact not_serving_closed
  · intro hc
    exact List.mem_append_left _ (h.canceled hc)
  · intro err' herr
    cases err <;> simp at herr

/-- `RecvMsg` returns. -/
theorem received (h : Follows as s) (hp : s.point = .receiving)
    (res : Except RpcError HealthCheckResponse) :
    Follows (as ++ [.received res]) (s.receive res) := by
  cases res with
  | error err =>
    constructor
    · rw [streamAfter_concat]
      simp only [State.receive, WatchStream.next, ne_eq, not_true_eq_false, iff_false]
      split <;> simp
    · rw [streamAfter_concat]
      refine iff_of_false ?_ not_serving_closed
      change lastReported (s.log ++ [.setServingStatus false]) ≠ true
      rw [lastReported_concat]
      exact Bool.false_ne_true
    · intro hc
      exact List.mem_append_left _ (h.canceled hc)
    · intro err' herr
      simp only [State.receive] at herr
      split at herr
      · rename_i hcode
        cases herr
        exact Or.inr ⟨err, rfl, hcode, by simp⟩
      · cases herr
  | ok resp =>
    constructor
    · rw [streamAfter_concat]
      simp [State.receive, WatchStream.next, hp]
    · rw [streamAfter_concat]
      change lastReported (_ ++ [.setServingStatus _]) = true ↔ _
      rw [lastReported_concat]
      exact decide_eq_true_iff.trans (serving_opened resp).symm
    · intro hc
      exact List.mem_append_left _ (h.canceled hc)
    · intro err herr
      rw [show (s.receive (.ok resp)).point = s.point from rfl, hp] at herr
      cases herr

/-- Every step keeps the invariant. -/
theorem step {t : State B} {a : Action B} (h : Follows as s)
    (hstep : ClientHealthCheck.step service s a = some t) : Follows (as ++ [a]) t := by
  cases a with
  | elapse d =>
    cases hstep
    exact h.outside (Or.inr ⟨d, rfl⟩) rfl rfl Or.inl
  | cancel =>
    cases hstep
    exact h.outside (Or.inl rfl) rfl rfl fun _ => Or.inr rfl
  | timer r =>
    obtain ⟨hp, ⟨⟩⟩ := Option.ite_none_right_eq_some.1 hstep
    exact h.timer hp r
  | done =>
    obtain ⟨⟨hp, -, hc⟩, ⟨⟩⟩ := Option.ite_none_right_eq_some.1 hstep
    exact h.done hp hc
  | watched err =>
    obtain ⟨hp, ⟨⟩⟩ := Option.ite_none_right_eq_some.1 hstep
    exact h.watched hp err
  | received res =>
    obtain ⟨hp, ⟨⟩⟩ := Option.ite_none_right_eq_some.1 hstep
    exact h.received hp res

end Follows

/-! ## Runs -/

theorem follows_run {now : ℕ} {as : List (Action B)} {t : State B}
    (h : exec (step service) (init B now) as = some t) : Follows as t :=
  exec_history (P := Follows) (fun _ _ _ _ hs => hs.step) (Follows.init now) h

/-- **The reported health follows the backend**: after every run the last reported status is `true`
just when a stream is open and its latest message was `SERVING`. The check returns only after a
cancellation, with no error, or with an error of the stream that is `Unimplemented`, and leaves no
`true` behind. -/
theorem health_follows {now : ℕ} {as : List (Action B)} {t : State B}
    (h : exec (step service) (init B now) as = some t) :
    (lastReported t.log = true ↔ (streamAfter as).Serving) ∧
      ∀ err, t.point = .returned err → lastReported t.log = false ∧
        ((err = none ∧ .cancel ∈ as) ∨
          ∃ e, err = some e ∧ e.code = codesUnimplemented ∧ .received (.error e) ∈ as) := by
  have hf := follows_run h
  refine ⟨hf.reported, fun err herr => ⟨hf.lastReported_eq_false ?_, hf.returned err herr⟩⟩
  simp [herr]

/-! ## The proxy -/

/-- `healthChecker`, with an HTTP status. -/
structure HealthChecker where
  status : ℕ
  deriving DecidableEq

namespace HealthChecker

/-- `http.StatusOK`. -/
def statusOK : ℕ := 200

/-- `http.StatusServiceUnavailable`. -/
def statusServiceUnavailable : ℕ := 503

def getStatus (h : HealthChecker) : ℕ := h.status

def setServing (_h : HealthChecker) (serving : Bool) : HealthChecker :=
  if serving then ⟨statusOK⟩ else ⟨statusServiceUnavailable⟩

/-- The checker after the events of a health check. -/
def runHealthChecker (log : List Event) : HealthChecker :=
  (log.filterMap report).foldl setServing ⟨statusServiceUnavailable⟩

theorem getStatus_run (log : List Event) :
    (runHealthChecker log).getStatus =
      if lastReported log then statusOK else statusServiceUnavailable := by
  rw [runHealthChecker, lastReported]
  rcases (log.filterMap report).eq_nil_or_concat' with h | ⟨reports, serving, h⟩
  · rw [h]
    rfl
  · rw [h, List.foldl_concat, List.getLast?_concat]
    cases serving <;> rfl

end HealthChecker

/-- **What the proxy answers** for the health of its backend, after every run of the check. -/
theorem getStatus_follows {now : ℕ} {as : List (Action B)} {t : State B}
    (h : exec (step service) (init B now) as = some t) :
    (HealthChecker.runHealthChecker t.log).getStatus = HealthChecker.statusOK ↔
      (streamAfter as).Serving := by
  rw [HealthChecker.getStatus_run, ← (follows_run h).reported]
  by_cases hl : lastReported t.log = true
  · simp [hl]
  · simp only [hl, Bool.false_eq_true, if_false, iff_false]
    decide

/-- A backend that serves, and stops. -/
def servedRun : List (Action ExponentialBackOff.backOff) :=
  [.timer (0 : ℕ), .watched none, .received (.ok ⟨HealthCheckResponse.SERVING⟩),
    .received (.error ⟨codesUnimplemented, ascii "unknown service"⟩)]

theorem health_follows_served :
    ∃ t, exec (step []) (init ExponentialBackOff.backOff 0) servedRun = some t ∧
      (lastReported t.log = true ↔ (streamAfter servedRun).Serving) ∧
      ∀ err, t.point = .returned err → lastReported t.log = false ∧
        ((err = none ∧ .cancel ∈ servedRun) ∨
          ∃ e, err = some e ∧ e.code = codesUnimplemented ∧ .received (.error e) ∈ servedRun) :=
  ⟨_, rfl, health_follows rfl⟩

end GrpcWeb.Proxy

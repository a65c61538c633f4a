import GrpcWeb.Foundations.Transition
import GrpcWeb.Go.Strings

/-!
# The health check of a backend

`ClientHealthCheck` watches the health of a backend: it calls `Watch`, reports the status of each
message that it receives on the stream, and calls `Watch` again when the stream fails, after a wait
when the attempt brought no message. A run of it is a sequence of actions (`Action`): what `Watch`
and `RecvMsg` return, a cancellation of the context, and the time that passes.

`paced_iff` says in which runs each retry after an attempt without a message waits first: those in
which each wait is still within the 15 minutes after which the backoff of the library gives up
(`InTime`).
-/

namespace GrpcWeb.Server

open Go

/-! ## The backoff -/

/-- 15 minutes, in nanoseconds. -/
def maxElapsedTime : ℕ := 15 * 60 * 1000000000

/-- `backoff.Stop`. -/
def backoffStop : ℤ := -1

/-- `backoff.NewExponentialBackOff()` with its documented behaviour: a call of `NextBackOff` draws a
positive duration, and returns it as long as it ends within the maximal time since the last
reset. -/
structure BackOff where
  State : Type
  /-- The random number of a call. -/
  Draw : Type
  new : ℕ → State
  reset : State → ℕ → State
  nextBackOff : State → ℕ → Draw → ℤ × State
  startTime : State → ℕ
  interval : State → Draw → ℕ
  startTime_new (now : ℕ) : startTime (new now) = now
  startTime_reset (s : State) (now : ℕ) : startTime (reset s now) = now
  startTime_next (s : State) (now : ℕ) (r : Draw) :
    startTime (nextBackOff s now r).2 = startTime s
  interval_pos (s : State) (r : Draw) : 0 < interval s r
  nextBackOff_eq (s : State) (now : ℕ) (r : Draw) :
    (nextBackOff s now r).1 =
      if now - startTime s + interval s r ≤ maxElapsedTime then (interval s r : ℤ) else backoffStop

namespace BackOff

/-- A call of `NextBackOff` at `now` still ends within the maximal time since the last reset. -/
def InTime (B : BackOff) (s : B.State) (now : ℕ) (r : B.Draw) : Prop :=
  now - B.startTime s + B.interval s r ≤ maxElapsedTime

instance (B : BackOff) (s : B.State) (now : ℕ) (r : B.Draw) : Decidable (B.InTime s now r) :=
  inferInstanceAs (Decidable (_ ≤ _))

/-- It returns a positive duration just then. -/
theorem nextBackOff_pos_iff (B : BackOff) (s : B.State) (now : ℕ) (r : B.Draw) :
    0 < (B.nextBackOff s now r).1 ↔ B.InTime s now r := by
  have hpos := B.interval_pos s r
  rw [B.nextBackOff_eq, InTime]
  by_cases h : now - B.startTime s + B.interval s r ≤ maxElapsedTime
  · simp only [h, if_true, iff_true]
    omega
  · simp only [h, if_false, iff_false, backoffStop]
    omega

end BackOff

/-! ## The function -/

/-- A gRPC error, with its code. -/
structure RpcError where
  code : UInt32
  desc : GoString
  deriving DecidableEq

/-- `codes.Unimplemented`. -/
def codesUnimplemented : UInt32 := 12

structure HealthCheckRequest where
  service : GoString
  deriving DecidableEq

/-- A status is an open enumeration. -/
structure HealthCheckResponse where
  status : Int32
  deriving DecidableEq

/-- `HealthCheckResponse_SERVING`. -/
def HealthCheckResponse.SERVING : Int32 := 1

/-- What the function does that can be seen: it waits for a timer, calls `Watch`, receives a
message, calls `setServingStatus`. -/
inductive Event
  | wait (d : ℤ)
  | watch (req : HealthCheckRequest)
  | message (resp : HealthCheckResponse)
  | setServingStatus (serving : Bool)
  deriving DecidableEq

namespace ClientHealthCheck

/-- Where the function is: at the top of its loop, in `Watch`, in `RecvMsg`, or behind its end. -/
inductive Point
  | retry
  | watching
  | receiving
  | returned (err : Option RpcError)
  deriving DecidableEq

structure State (B : BackOff) where
  point : Point
  shouldBackoff : Bool
  backoffSrc : B.State
  /-- The clock. -/
  now : ℕ
  /-- The context has been cancelled. -/
  canceled : Bool
  /-- What it has done, in order. -/
  log : List Event

/-- The function is called. -/
def init (B : BackOff) (now : ℕ) : State B where
  point := .retry
  shouldBackoff := false
  backoffSrc := B.new now
  now := now
  canceled := false
  log := []

/-- What happens to the function. -/
inductive Action (B : BackOff)
  /-- Time passes. -/
  | elapse (d : ℕ)
  | cancel
  /-- The timer of the backoff, when there is one, fires. -/
  | timer (r : B.Draw)
  /-- The select sees that the context is done. -/
  | done
  | watched (err : Option RpcError)
  | received (res : Except RpcError HealthCheckResponse)

variable {B : BackOff} (service : GoString)

/-- The wait for the timer. -/
def State.backOff (r : B.Draw) (s : State B) : State B :=
  if s.shouldBackoff then
    let (d, backoffSrc) := B.nextBackOff s.backoffSrc s.now r
    -- a negative duration fires at once
    { s with backoffSrc := backoffSrc, now := s.now + d.toNat, log := s.log ++ [.wait d] }
  else s

/-- From the top of the loop to the call of `Watch`. -/
def State.retry (r : B.Draw) (s : State B) : State B :=
  let s := s.backOff r
  { s with
    point := .watching
    shouldBackoff := true
    log := s.log ++ [.watch ⟨service⟩] }

/-- `RecvMsg` returns. -/
def State.receive (res : Except RpcError HealthCheckResponse) (s : State B) : State B :=
  match res with
  | .error err =>
    { s with
      point := if err.code = codesUnimplemented then .returned (some err) else .retry
      log := s.log ++ [.setServingStatus false] }
  | .ok resp =>
    { s with
      shouldBackoff := false
      backoffSrc := B.reset s.backoffSrc s.now
      log := s.log ++ [.message resp] ++
        [.setServingStatus (resp.status = HealthCheckResponse.SERVING)] }

def step (s : State B) : Action B → Option (State B)
  | .elapse d => some { s with now := s.now + d }
  | .cancel => some { s with canceled := true }
  | .timer r => if s.point = .retry then some (s.retry service r) else none
  | .done =>
    if s.point = .retry ∧ s.shouldBackoff ∧ s.canceled then
      some { s with point := .returned none }
    else none
  | .watched err =>
    if s.point = .watching then
      some { s with point := if err.isSome then .retry else .receiving }
    else none
  | .received res => if s.point = .receiving then some (s.receive res) else none

end ClientHealthCheck

/-! ## Pauses between attempts -/

/-- Since the last call of `Watch`, if any, a message has been received or a positive time
waited. -/
def Rested (log : List Event) : Prop :=
  ∀ before req after, log = before ++ .watch req :: after → (∀ req, .watch req ∉ after) →
    (∃ resp, .message resp ∈ after) ∨ ∃ d, .wait d ∈ after ∧ 0 < d

/-- Each call of `Watch` that follows an attempt without a message follows a positive wait. -/
def Paced (log : List Event) : Prop :=
  ∀ before req after, log = before ++ .watch req :: after → Rested before

/-- An event that lets the next attempt start. -/
def Event.Rests : Event → Prop
  | .wait d => 0 < d
  | .message _ => True
  | _ => False

theorem rested_nil : Rested [] := by
  intro before req after h
  simp at h

theorem not_rested_watch (log : List Event) (req : HealthCheckRequest) :
    ¬ Rested (log ++ [.watch req]) := by
  intro h
  simpa using h log req [] rfl (by simp)

/-- Whether a log that ends with something else is rested. -/
theorem rested_concat {log : List Event} {e : Event} (he : ∀ req, e ≠ .watch req) :
    Rested (log ++ [e]) ↔ Rested log ∨ e.Rests := by
  constructor
  · intro h
    by_cases hrests : e.Rests
    · exact Or.inr hrests
    · refine Or.inl fun before req after hlog hafter => ?_
      have hno : ∀ req, .watch req ∉ after ++ [e] := by
        intro req' hmem
        rcases List.mem_append.1 hmem with hmem | hmem
        · exact hafter req' hmem
        · exact he req' (List.mem_singleton.1 hmem).symm
      rcases h before req (after ++ [e]) (by rw [hlog]; simp) hno with ⟨resp, hmem⟩ | ⟨d, hmem, hd⟩
      · rcases List.mem_append.1 hmem with hmem | hmem
        · exact Or.inl ⟨resp, hmem⟩
        · rw [← List.mem_singleton.1 hmem] at hrests
          exact absurd trivial hrests
      · rcases List.mem_append.1 hmem with hmem | hmem
        · exact Or.inr ⟨d, hmem, hd⟩
        · rw [← List.mem_singleton.1 hmem] at hrests
          exact absurd hd hrests
  · intro h before req after hlog hafter
    rcases after.eq_nil_or_concat' with rfl | ⟨after, e', rfl⟩
    · obtain ⟨-, h1⟩ := List.append_inj' hlog rfl
      exact absurd (List.cons.inj h1).1 (he req)
    · rw [← List.cons_append, ← List.append_assoc] at hlog
      obtain ⟨hbefore, h1⟩ := List.append_inj' hlog rfl
      cases h1
      rcases h with h | h
      · have hno : ∀ req, .watch req ∉ after := fun req' hmem =>
          hafter req' (List.mem_append_left _ hmem)
        rcases h before req after hbefore hno with ⟨resp, hmem⟩ | ⟨d, hmem, hd⟩
        · exact Or.inl ⟨resp, List.mem_append_left _ hmem⟩
        · exact Or.inr ⟨d, List.mem_append_left _ hmem, hd⟩
      · cases e with
        | wait d => exact Or.inr ⟨d, by simp, h⟩
        | message resp => exact Or.inl ⟨resp, by simp⟩
        | watch req => exact absurd rfl (he req)
        | setServingStatus serving => exact absurd h id

theorem paced_concat {log : List Event} {e : Event} :
    Paced (log ++ [e]) ↔ Paced log ∧ ∀ req, e = .watch req → Rested log := by
  constructor
  · intro h
    refine ⟨fun before req after hlog => h before req (after ++ [e]) (by rw [hlog]; simp), ?_⟩
    rintro req rfl
    exact h log req [] rfl
  · rintro ⟨h, he⟩ before req after hlog
    rcases after.eq_nil_or_concat' with rfl | ⟨after, e', rfl⟩
    · obtain ⟨rfl, h1⟩ := List.append_inj' hlog rfl
      exact he req (List.cons.inj h1).1
    · rw [← List.cons_append, ← List.append_assoc] at hlog
      exact h before req after (List.append_inj' hlog rfl).1

/-! ## One step -/

namespace ClientHealthCheck

variable {B : BackOff} {service : GoString}

/-- `shouldBackoff` tells whether a wait is due. -/
def State.Tracks (s : State B) : Prop := Rested s.log ↔ s.shouldBackoff = false

/-- The timer of a wait that is due is still within the time of the backoff. -/
def State.InTime (s : State B) : Action B → Prop
  | .timer r => s.shouldBackoff = true → B.InTime s.backoffSrc s.now r
  | _ => True

instance (s : State B) : ∀ a, Decidable (s.InTime a)
  | .timer r => inferInstanceAs (Decidable (_ → B.InTime s.backoffSrc s.now r))
  | .elapse _ | .cancel | .done | .watched _ | .received _ => inferInstanceAs (Decidable True)

theorem tracks_init (now : ℕ) : (init B now).Tracks :=
  ⟨fun _ => rfl, fun _ => rested_nil⟩

theorem paced_init (now : ℕ) : Paced (init B now).log := by
  intro before req after h
  simp [init] at h

/-- After the wait the log is rested, if the backoff was in time, and no `Watch` has been called. -/
theorem rested_backOff {s : State B} (hs : s.Tracks) (r : B.Draw) :
    (Rested (s.backOff r).log ↔ s.InTime (.timer r)) ∧ (Paced (s.backOff r).log ↔ Paced s.log) := by
  unfold State.backOff State.InTime
  by_cases hb : s.shouldBackoff = true
  · have hrested : ¬ Rested s.log := fun h => by simp [hs.1 h] at hb
    simp only [hb, if_true, forall_const]
    constructor
    · rw [rested_concat (by simp), or_iff_right hrested]
      exact B.nextBackOff_pos_iff s.backoffSrc s.now r
    · rw [paced_concat]
      exact and_iff_left (by simp)
  · have hfalse : s.shouldBackoff = false := by simpa using hb
    simp only [hfalse, Bool.false_eq_true, if_false, IsEmpty.forall_iff, iff_true, and_true]
    exact hs.2 hfalse

/-- A retry is paced when its wait was in time. -/
theorem paced_retry {s : State B} (hs : s.Tracks) (r : B.Draw) :
    Paced (s.retry service r).log ↔ Paced s.log ∧ s.InTime (.timer r) := by
  obtain ⟨hrested, hpaced⟩ := rested_backOff hs r
  change Paced ((s.backOff r).log ++ [.watch ⟨service⟩]) ↔ _
  rw [paced_concat, hpaced, ← hrested]
  refine and_congr_right fun _ => ⟨fun h => h _ rfl, fun h _ _ => h⟩

theorem tracks_receive {s : State B} (hs : s.Tracks) (res : Except RpcError HealthCheckResponse) :
    (s.receive res).Tracks := by
  cases res with
  | error err =>
    change Rested (s.log ++ [.setServingStatus false]) ↔ s.shouldBackoff = false
    rw [rested_concat (by simp)]
    exact (or_iff_left id).trans hs
  | ok resp =>
    change Rested (s.log ++ [.message resp] ++ [.setServingStatus _]) ↔ false = false
    rw [rested_concat (by simp), rested_concat (by simp)]
    exact iff_of_true (Or.inl (Or.inr trivial)) rfl

theorem paced_receive (s : State B) (res : Except RpcError HealthCheckResponse) :
    Paced (s.receive res).log ↔ Paced s.log := by
  cases res with
  | error err => exact paced_concat.trans (and_iff_left (by simp))
  | ok resp =>
    change Paced (s.log ++ [.message resp] ++ [.setServingStatus _]) ↔ _
    rw [paced_concat, paced_concat]
    simp

/-- A step retries, receives, or leaves the log and the flag alone. -/
theorem step_cases {s t : State B} {a : Action B} (h : step service s a = some t) :
    (∃ r, a = .timer r ∧ t = s.retry service r) ∨ (∃ res, a = .received res ∧ t = s.receive res) ∨
      (t.log = s.log ∧ t.shouldBackoff = s.shouldBackoff ∧ s.InTime a) := by
  cases a with
  | timer r =>
    obtain ⟨-, ⟨⟩⟩ := Option.ite_none_right_eq_some.1 h
    exact Or.inl ⟨r, rfl, rfl⟩
  | received res =>
    obtain ⟨-, ⟨⟩⟩ := Option.ite_none_right_eq_some.1 h
    exact Or.inr (Or.inl ⟨res, rfl, rfl⟩)
  | elapse d | cancel =>
    cases h
    exact Or.inr (Or.inr ⟨rfl, rfl, trivial⟩)
  | done | watched err =>
    obtain ⟨-, ⟨⟩⟩ := Option.ite_none_right_eq_some.1 h
    exact Or.inr (Or.inr ⟨rfl, rfl, trivial⟩)

theorem tracks_step {s t : State B} {a : Action B} (hs : s.Tracks)
    (h : step service s a = some t) : t.Tracks := by
  obtain ⟨r, -, rfl⟩ | ⟨res, -, rfl⟩ | ⟨hlog, hflag, -⟩ := step_cases h
  · exact iff_of_false (not_rested_watch _ _) Bool.noConfusion
  · exact tracks_receive hs res
  · rw [State.Tracks, hlog, hflag]
    exact hs

theorem paced_step {s t : State B} {a : Action B} (hs : s.Tracks)
    (h : step service s a = some t) : Paced t.log ↔ Paced s.log ∧ s.InTime a := by
  obtain ⟨r, rfl, rfl⟩ | ⟨res, rfl, rfl⟩ | ⟨hlog, -, hok⟩ := step_cases h
  · exact paced_retry hs r
  · exact (paced_receive s res).trans (and_iff_left trivial).symm
  · rw [hlog]
    exact (and_iff_left hok).symm

/-! ## Runs -/

/-- **When the retries of a run are paced**: just when each wait of it is in time. -/
theorem paced_iff {now : ℕ} {as : List (Action B)} {t : State B}
    (h : exec (step service) (init B now) as = some t) :
    Paced t.log ↔ Along (step service) State.InTime (init B now) as :=
  (exec_iff_along (fun _ _ _ => tracks_step) (fun _ _ _ => paced_step) (tracks_init now) h).trans
    (and_iff_right (paced_init now))

end ClientHealthCheck

/-! ## An exponential backoff -/

/-- The state of the backoff: the time of its last reset, and its interval. -/
structure ExponentialBackOff where
  startTime : ℕ
  currentInterval : ℕ
  pos : 0 < currentInterval

namespace ExponentialBackOff

/-- It starts with half a second. -/
def new (now : ℕ) : ExponentialBackOff := ⟨now, 500000000, by decide⟩

/-- A duration of one half to three halves of the interval. -/
def interval (b : ExponentialBackOff) (random : ℕ) : ℕ :=
  let delta := b.currentInterval / 2
  b.currentInterval - delta + random % (2 * delta + 1)

/-- Half as much again, up to a minute. -/
def increment (b : ExponentialBackOff) : ExponentialBackOff :=
  { b with
    currentInterval := min 60000000000 (b.currentInterval + b.currentInterval / 2)
    pos := lt_min (by decide) (Nat.add_pos_left b.pos _) }

theorem interval_pos (b : ExponentialBackOff) (random : ℕ) : 0 < b.interval random := by
  have h := b.pos
  simp only [interval]
  omega

/-- The backoff of the library, with its default parameters. -/
def backOff : BackOff where
  State := ExponentialBackOff
  Draw := ℕ
  new := new
  reset _ now := new now
  nextBackOff b now random :=
    (if now - b.startTime + b.interval random ≤ maxElapsedTime then (b.interval random : ℤ)
      else backoffStop, b.increment)
  startTime := startTime
  interval := interval
  startTime_new _ := rfl
  startTime_reset _ _ := rfl
  startTime_next _ _ _ := rfl
  interval_pos := interval_pos
  nextBackOff_eq _ _ _ := rfl

end ExponentialBackOff

namespace ClientHealthCheck

/-- A backend that cannot be reached. -/
def unavailable : RpcError := ⟨14, ascii "connection refused"⟩

/-- Two failed attempts, one after the other. -/
def downRun : List (Action ExponentialBackOff.backOff) :=
  [.timer (0 : ℕ), .watched (some unavailable), .timer (0 : ℕ), .watched (some unavailable),
    .timer (0 : ℕ)]

theorem paced_iff_down :
    ∃ t, exec (step []) (init ExponentialBackOff.backOff 0) downRun = some t ∧
      (Paced t.log ↔ Along (step []) State.InTime (init _ 0) downRun) :=
  ⟨_, rfl, paced_iff rfl⟩

/-- A stream that is quiet for 16 minutes and then fails, as does the attempt after it. -/
def quietRun : List (Action ExponentialBackOff.backOff) :=
  [.timer (0 : ℕ), .watched none, .received (.ok ⟨HealthCheckResponse.SERVING⟩),
    .elapse (16 * 60 * 1000000000), .received (.error unavailable), .timer (0 : ℕ),
    .watched (some unavailable), .timer (0 : ℕ)]

/-- What happens in it before the failed attempt. -/
def quietLog : List Event :=
  [.watch ⟨[]⟩, .message ⟨1⟩, .setServingStatus true, .setServingStatus false]

/-- **After a stream that was quiet for 16 minutes** the check retries at once. -/
theorem quiet_hot :
    ∃ t, exec (step []) (init ExponentialBackOff.backOff 0) quietRun = some t ∧
      t.canceled = false ∧ ¬ Paced t.log := by
  refine ⟨_, rfl, rfl, fun h => ?_⟩
  have hrested : Rested (quietLog ++ [.watch ⟨[]⟩, .wait backoffStop]) := h _ ⟨[]⟩ [] rfl
  rcases hrested quietLog ⟨[]⟩ _ rfl (by simp) with ⟨resp, hmem⟩ | ⟨d, hmem, hd⟩
  · simp at hmem
  · simp only [List.mem_singleton, Event.wait.injEq] at hmem
    rw [hmem] at hd
    exact absurd hd (by decide)

end ClientHealthCheck

end GrpcWeb.Server

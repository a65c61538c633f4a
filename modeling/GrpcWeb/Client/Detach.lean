import GrpcWeb.Client.Xhr
import GrpcWeb.Foundations.Transition

/-!
# Deferred callbacks of the React Native transport

The React Native transport calls the client from timers only: `detach` queues a callback in
`awaitingExecution`, and `runCallbacks`, the handler of a timer, runs what is queued. A callback may
detach others while it runs, and it may throw; then the callbacks behind it go back to the front of
the queue.

`step` is a call of `detach`, the firing of a timer, or the end of the running callback. A handler
runs to its end, or to an exception, before the next one starts.

* `CallbackQueue.Inv`: what has run, what stands behind the running callback and what is queued are
  the callbacks detached, in order; and a timer is pending exactly when something is queued.
* `detach_exact`: every callback runs once and in order, and when no timer is pending all have run.
-/

namespace GrpcWeb.Client

variable {α : Type}

/-! ## The queue -/

/-- The variable `awaitingExecution` (`none` is null), the pending timers whose handler is
`runCallbacks`, the callbacks behind the one that is running (`none` when no handler runs), and the
callbacks passed to `detach` and those started so far. -/
structure CallbackQueue (α : Type) where
  awaitingExecution : Option (List α) := none
  timers : ℕ := 0
  running : Option (List α) := none
  detached : List α := []
  started : List α := []
  deriving DecidableEq

namespace CallbackQueue

def detach (cb : α) (s : CallbackQueue α) : CallbackQueue α :=
  match s.awaitingExecution with
  | some callbacks =>
    { s with awaitingExecution := some (callbacks ++ [cb]), detached := s.detached ++ [cb] }
  | none =>
    { s with
      awaitingExecution := some [cb], timers := s.timers + 1, detached := s.detached ++ [cb] }

/-- The loop of `runCallbacks` goes on with the callbacks of its set that are left. -/
def runSet (s : CallbackQueue α) : List α → CallbackQueue α
  | [] => { s with running := none }
  | cb :: rest => { s with running := some rest, started := s.started ++ [cb] }

def runCallbacks (s : CallbackQueue α) : CallbackQueue α :=
  match s.awaitingExecution with
  | none => s
  | some thisCallbackSet => { s with awaitingExecution := none }.runSet thisCallbackSet

/-- The handler of an exception: the callbacks of the set that are left go to the front, the last
one first, and the exception ends the handler. -/
def requeue (rest : List α) (s : CallbackQueue α) : CallbackQueue α :=
  match s.awaitingExecution with
  | some callbacks =>
    { s with awaitingExecution := some (rest.foldr List.cons callbacks), running := none }
  | none =>
    { s with awaitingExecution := some (rest.foldr List.cons []), timers := s.timers + 1,
             running := none }

inductive Action (α : Type)
  | detach (cb : α)
  | fire
  | returns
  | throws

def step (s : CallbackQueue α) : Action α → Option (CallbackQueue α)
  | .detach cb => some (s.detach cb)
  | .fire =>
    if s.running = none ∧ 0 < s.timers then some { s with timers := s.timers - 1 }.runCallbacks
    else none
  | .returns => s.running.map s.runSet
  | .throws => s.running.map fun rest => s.requeue rest

/-! ## What one step keeps -/

/-- What is detached and not yet started: the rest of the set that is running, and then the
queue. -/
def waiting (s : CallbackQueue α) : List α := s.running.getD [] ++ s.awaitingExecution.getD []

/-- Nothing is lost or doubled, and a timer is pending exactly when there is a queue. -/
structure Inv (s : CallbackQueue α) : Prop where
  detached : s.detached = s.started ++ s.waiting
  timers : s.timers = if s.awaitingExecution.isSome then 1 else 0

theorem Inv.detach {s : CallbackQueue α} (h : s.Inv) (cb : α) : (s.detach cb).Inv := by
  unfold CallbackQueue.detach
  split
  · rename_i callbacks hs
    refine ⟨?_, ?_⟩
    · simp [h.detached, waiting, hs]
    · simp [h.timers, hs]
  · rename_i hs
    refine ⟨?_, ?_⟩
    · simp [h.detached, waiting, hs]
    · simp [h.timers, hs]

/-- The next callback of a set is started, or the handler ends. -/
theorem Inv.runSet {s : CallbackQueue α} {rest : List α}
    (hd : s.detached = s.started ++ (rest ++ s.awaitingExecution.getD []))
    (ht : s.timers = if s.awaitingExecution.isSome then 1 else 0) : (s.runSet rest).Inv := by
  cases rest with
  | nil => exact ⟨by simpa [CallbackQueue.runSet, waiting] using hd, ht⟩
  | cons cb rest => exact ⟨by simpa [CallbackQueue.runSet, waiting] using hd, ht⟩

/-- The pending timer fires: there is a queue, and its callbacks become the running set. -/
theorem Inv.fire {s : CallbackQueue α} (h : s.Inv) (hidle : s.running = none) (ht : 0 < s.timers) :
    ({ s with timers := s.timers - 1 }.runCallbacks).Inv := by
  have htimers := h.timers
  rcases hs : s.awaitingExecution with _ | thisCallbackSet
  · simp only [hs, Option.isSome_none, Bool.false_eq_true, if_false] at htimers
    omega
  · simp only [hs, Option.isSome_some, if_true] at htimers
    simp only [CallbackQueue.runCallbacks]
    apply Inv.runSet
    · simpa [waiting, hidle, hs] using h.detached
    · simp [htimers]

/-- The rest of the set goes in front of what the callbacks of the set have detached. -/
theorem Inv.requeue {s : CallbackQueue α} (h : s.Inv) {rest : List α} (hr : s.running = some rest) :
    (s.requeue rest).Inv := by
  have hd := h.detached
  unfold CallbackQueue.requeue
  split
  · rename_i callbacks hs
    refine ⟨?_, ?_⟩
    · simpa [waiting, hr, hs] using hd
    · simp [h.timers, hs]
  · rename_i hs
    refine ⟨?_, ?_⟩
    · simpa [waiting, hr, hs] using hd
    · simp [h.timers, hs]

/-- **Every step keeps the invariant.** -/
theorem Inv.step {s t : CallbackQueue α} {a : Action α} (h : s.Inv) (hstep : s.step a = some t) :
    t.Inv := by
  cases a with
  | detach cb =>
    cases hstep
    exact h.detach cb
  | fire =>
    obtain ⟨⟨hidle, ht⟩, rfl⟩ := Option.ite_none_right_eq_some.1 hstep |>.imp_right Option.some.inj
    exact h.fire hidle ht
  | returns =>
    obtain ⟨rest, hr, rfl⟩ := Option.map_eq_some_iff.1 hstep
    exact Inv.runSet (by simpa [waiting, hr] using h.detached) h.timers
  | throws =>
    obtain ⟨rest, hr, rfl⟩ := Option.map_eq_some_iff.1 hstep
    exact h.requeue hr

/-! ## Runs -/

/-- The callback that an action detaches. -/
def Action.detached : Action α → Option α
  | .detach cb => some cb
  | _ => none

theorem detached_step {s t : CallbackQueue α} {a : Action α} (hstep : s.step a = some t) :
    t.detached = s.detached ++ a.detached.toList := by
  have hset : ∀ (u : CallbackQueue α) rest, (u.runSet rest).detached = u.detached := by
    intro u rest
    cases rest <;> rfl
  cases a with
  | detach cb =>
    cases hstep
    simp only [CallbackQueue.detach, Action.detached]
    split <;> rfl
  | fire =>
    obtain ⟨-, rfl⟩ := Option.ite_none_right_eq_some.1 hstep |>.imp_right Option.some.inj
    simp only [CallbackQueue.runCallbacks, Action.detached]
    split
    · simp
    · simp [hset]
  | returns =>
    obtain ⟨rest, -, rfl⟩ := Option.map_eq_some_iff.1 hstep
    simp [hset, Action.detached]
  | throws =>
    obtain ⟨rest, -, rfl⟩ := Option.map_eq_some_iff.1 hstep
    simp only [CallbackQueue.requeue, Action.detached]
    split <;> simp

/-- The queue remembers the callbacks passed to `detach`, in order. -/
theorem detached_exec {as : List (Action α)} {t : CallbackQueue α} (h : exec step {} as = some t) :
    t.detached = as.filterMap Action.detached := by
  have hstart : ({} : CallbackQueue α).detached =
      ([] : List (Action α)).filterMap Action.detached := rfl
  refine exec_history (P := fun as s => s.detached = as.filterMap Action.detached) ?_ hstart h
  intro as s a t hs hstep
  rw [detached_step hstep, hs, List.filterMap_append]
  cases ha : a.detached <;> simp [ha]

theorem inv_exec {as : List (Action α)} {t : CallbackQueue α} (h : exec step {} as = some t) :
    t.Inv :=
  exec_preserves (P := Inv) (fun _ _ _ hs hstep => hs.step hstep) ⟨rfl, rfl⟩ h

end CallbackQueue

open CallbackQueue in
/-- **Deferred callbacks run once and in order.** In every run, with callbacks detached at any time
and any of them throwing: the callbacks started so far are the first ones detached, each of them
once; exactly one timer is pending while there is a queue; and when no timer is pending, only the
rest of the set that a handler is running has not been started, so that between two handlers every
callback has run. -/
theorem detach_exact {as : List (Action α)} {t : CallbackQueue α} (h : exec step {} as = some t) :
    t.started = (as.filterMap Action.detached).take t.started.length ∧
      (t.awaitingExecution ≠ none → t.timers = 1) ∧
      (t.timers = 0 → as.filterMap Action.detached = t.started ++ t.running.getD []) ∧
      (t.timers = 0 → t.running = none → t.started = as.filterMap Action.detached) := by
  have hinv := inv_exec h
  have hall : as.filterMap Action.detached = t.started ++ t.waiting := by
    rw [← detached_exec h, hinv.detached]
  have hlast : t.timers = 0 → as.filterMap Action.detached = t.started ++ t.running.getD [] := by
    intro h0
    have hnone : t.awaitingExecution = none := by
      have htimers := hinv.timers
      by_contra hsome
      rw [if_pos (Option.isSome_iff_ne_none.2 hsome)] at htimers
      omega
    rw [hall, waiting, hnone, Option.getD_none, List.append_nil]
  refine ⟨?_, ?_, hlast, ?_⟩
  · rw [hall, List.take_left]
  · intro hsome
    rw [hinv.timers, if_pos (Option.isSome_iff_ne_none.2 hsome)]
  · intro h0 hidle
    rw [hlast h0, hidle, Option.getD_none, List.append_nil]

/-- The first callback of two throws after it has detached a third: the handler of the timer that
this armed runs the second and the third. -/
def throwingRun : List (CallbackQueue.Action ℕ) :=
  [.detach 1, .detach 2, .fire, .detach 3, .throws, .fire, .returns, .returns]

theorem detach_exact_throwing : ∃ t, exec CallbackQueue.step {} throwingRun = some t ∧
    t.started = [1, 2, 3] := by
  obtain ⟨t, ht⟩ : ∃ t, exec CallbackQueue.step {} throwingRun = some t := ⟨_, rfl⟩
  have hend : t.timers = 0 ∧ t.running = none := by
    cases ht
    exact ⟨rfl, rfl⟩
  exact ⟨t, ht, (detach_exact ht).2.2.2 hend.1 hend.2⟩

/-! ## The events of a request -/

/-- The calls of the client that the transport defers. -/
inductive ClientCall
  | onChunk (chunk : Bytes) (flush : Bool)
  | onEnd

/-- `ArrayBufferXHR.onLoadEvent` with the whole response. -/
def ArrayBufferXHR.onLoadEvent (resp : Bytes) : List (CallbackQueue.Action ClientCall) :=
  [.detach (.onChunk resp true), .detach .onEnd]

/-- **A response that has loaded is given to the client**, and its end directly behind it, once no
timer is pending any more, whatever the other callbacks do. -/
theorem ArrayBufferXHR.onLoadEvent_delivered {resp : Bytes}
    {before after : List (CallbackQueue.Action ClientCall)} {t : CallbackQueue ClientCall}
    (h : exec CallbackQueue.step {} (before ++ onLoadEvent resp ++ after) = some t)
    (ht : t.timers = 0) (hidle : t.running = none) :
    ∃ earlier later, t.started = earlier ++ [.onChunk resp true, .onEnd] ++ later := by
  rw [(detach_exact h).2.2.2 ht hidle, List.filterMap_append, List.filterMap_append]
  exact ⟨_, _, rfl⟩

end GrpcWeb.Client

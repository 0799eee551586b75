/-
Waiting for a condition and ending a thread, statement by statement.

Here the statements of `k_proc_WaitCondition`, `k_proc_YieldThread`,
`k_proc_SwitchToThread` and `k_proc_TerminateThread` are steps of their own: each
thread stands before one of them or is in its own code.  The timer preempts the
running thread anywhere, and signals arrive whenever a thread runs.  The other
calls and the scheduler, which has interrupts disabled, take one step each, as in
the atomic model.  `passed` and `moments` are histories that the code does not keep.
-/

import DoggOS.Proc.SchedulerRuns

namespace DoggOS.Proc

/-- What called `k_proc_YieldThread`. -/
inductive Caller where
  | thread
  /-- `k_proc_WaitCondition`, and the thread of the `k_proc_WaitThread` that called it. -/
  | waitCondition (condition : Nat) (target : Option Nat)
  | terminateThread
deriving DecidableEq, Repr

/-- The statement that a thread runs next. -/
inductive Point where
  | own
  /-- `if(condition && !(*condition))` -/
  | testCondition (condition : Nat) (target : Option Nat)
  /-- `current_thread->wait_condition = condition` -/
  | setWaitCondition (condition : Nat) (target : Option Nat)
  /-- `current_thread->state = K_PROC_THREAD_STATE_COND_WAIT` -/
  | setCondWait (condition : Nat) (target : Option Nat)
  /-- The `nop`s of `k_proc_YieldThread`. -/
  | yieldThread (caller : Caller)
  /-- `k_proc_core_state.next_thread = thread`, with a null pointer. -/
  | setNextThread (caller : Caller)
  /-- `int 38` -/
  | switchToThread (caller : Caller)
  /-- The way back from `int 38` or, when there is nothing to wait for, from the test. -/
  | returning (caller : Caller)
  /-- `k_proc_WaitThread` once it has waited. -/
  | finishWait (thread : Nat)
  /-- `if(thread->flags & K_PROC_THREAD_FLAG_DETACHED)` -/
  | testDetached (returnValue : Nat)
  /-- `thread->state = K_PROC_THREAD_STATE_DETACHED` -/
  | setDetached
  /-- `thread->state = K_PROC_THREAD_STATE_TERMINATED` -/
  | setTerminated (returnValue : Nat)
  /-- `thread->return_data = return_value` -/
  | setReturnData (returnValue : Nat)
  /-- `k_rt_SignalCondition(&thread->condition)` -/
  | signalCondition
deriving DecidableEq, Repr

structure PointCore where
  core : Core
  nextThread : Nat
  point : Nat → Point
  /-- What each thread last passed to `k_proc_TerminateThread`. -/
  passed : Nat → Nat
  /-- The condition words in every state since the last call of `k_proc_WaitCondition`, by thread. -/
  moments : Nat → List (Nat → Nat)

theorem Core.exists_running (core : Core) (p : Nat → Prop) :
    (∃ thread, core.control = .thread thread ∧ p thread) ↔
      core.control = .thread core.current ∧ p core.current := by
  constructor
  · rintro ⟨thread, control, holds⟩
    have same : core.current = thread := by
      unfold Core.current
      rw [control]
    rw [same]
    exact ⟨control, holds⟩
  · exact fun running => ⟨_, running⟩

instance (core : Core) (p : Nat → Prop) [DecidablePred p] :
    Decidable (∃ thread, core.control = .thread thread ∧ p thread) :=
  decidable_of_iff _ (core.exists_running p).symm

instance (core : Core) : Decidable (∃ thread, core.control = .thread thread) :=
  decidable_of_iff (∃ thread, core.control = .thread thread ∧ True)
    (exists_congr fun _ => and_iff_left trivial)

instance (core : Core) (thread : Nat) : Decidable (core.Pointer thread) :=
  inferInstanceAs (Decidable (_ ∨ _))

instance (core : Core) (page : Nat) : Decidable (core.FreshPage page) :=
  inferInstanceAs (Decidable (_ ∧ _))

namespace PointCore

variable (state : PointCore)

def goTo (thread : Nat) (point : Point) : PointCore :=
  { state with point := Function.update state.point thread point }

def withCore (core : Core) : PointCore := { state with core }

/-- `k_proc_PreemptThread_a` in a thread, for the timer and for `int 38`. -/
def preemptThread (thread : Nat) : Option PointCore :=
  if state.nextThread = 0 then (state.core.yieldThread thread).map state.withCore
  else some { state with
    core := { state.core with control := .thread state.nextThread }
    nextThread := 0 }

def statement (thread : Nat) : Point → Option PointCore
  | .own => none
  | .testCondition condition target =>
      some (state.goTo thread (if state.core.mustWait condition then
        .setWaitCondition condition target else .returning (.waitCondition condition target)))
  | .setWaitCondition condition target =>
      some ((state.withCore { state.core with
        waitConditions := Function.update state.core.waitConditions thread condition }).goTo
          thread (.setCondWait condition target))
  | .setCondWait condition target =>
      some ((state.withCore (state.core.setState thread .condWait)).goTo thread
        (.yieldThread (.waitCondition condition target)))
  | .yieldThread caller => some (state.goTo thread (.setNextThread caller))
  | .setNextThread caller =>
      some (({ state with nextThread := 0 } : PointCore).goTo thread (.switchToThread caller))
  | .switchToThread caller => (state.goTo thread (.returning caller)).preemptThread thread
  | .returning .thread => some (state.goTo thread .own)
  | .returning (.waitCondition _ none) => some (state.goTo thread .own)
  | .returning (.waitCondition _ (some target)) => some (state.goTo thread (.finishWait target))
  | .returning .terminateThread => none
  | .finishWait target =>
      some ((state.withCore (state.core.finishWaitThread thread target).2).goTo thread .own)
  | .testDetached returnValue =>
      some (state.goTo thread (if state.core.flags thread &&& threadFlagDetached ≠ 0 then
        .setDetached else .setTerminated returnValue))
  | .setDetached =>
      some ((state.withCore (state.core.setState thread .detached)).goTo thread .signalCondition)
  | .setTerminated returnValue =>
      some ((state.withCore (state.core.setState thread .terminated)).goTo thread
        (.setReturnData returnValue))
  | .setReturnData returnValue =>
      some ((state.withCore { state.core with
        returnData := Function.update state.core.returnData thread returnValue }).goTo thread
          .signalCondition)
  | .signalCondition =>
      some ((state.withCore (state.core.signalCondition (threadCondition thread))).goTo thread
        (.yieldThread .terminateThread))

/-- A thread calls `k_proc_WaitCondition`. -/
def startWait (thread condition : Nat) (target : Option Nat) : PointCore :=
  { state.goTo thread (.testCondition condition target) with
    moments := Function.update state.moments thread [] }

/-- The tests of `k_proc_WaitThread`, and its end when there is nothing to wait for. -/
def waitThread (current thread : Nat) : PointCore :=
  if state.core.valid thread ∧ current ≠ thread ∧
      state.core.flags thread &&& threadFlagDetached = 0 then
    if state.core.state thread ≠ .terminated then
      state.startWait current (threadCondition thread) (some thread)
    else state.withCore (state.core.finishWaitThread current thread).2
  else state

inductive Turn where
  | createThread (init : ThreadInit) (page : Nat)
  | detachThread (thread : Nat)
  | waitThread (thread : Nat)
  | waitCondition (condition : Nat)
  | yieldThread
  | terminateThread (returnValue : Nat)
  | signalCondition (condition : Nat)
  | statement
  | timer
  | runScheduler
  | wakeThreads
  | cleanupThreads
  | dispatchThread
deriving DecidableEq, Repr

def Calling (thread : Nat) : Prop :=
  state.core.control = .thread thread ∧ state.point thread = .own

def Enabled : Turn → Prop
  | .createThread _ page => (state.core.control = .boot ∨ ∃ thread, state.Calling thread) ∧
      (state.core.poolThreads = 0 → state.core.FreshPage page)
  | .detachThread thread => (state.core.control = .boot ∨ ∃ thread, state.Calling thread) ∧
      state.core.Pointer thread
  | .waitThread thread => (∃ thread, state.Calling thread) ∧ state.core.Pointer thread
  | .waitCondition _ | .yieldThread | .terminateThread _ => ∃ thread, state.Calling thread
  | .signalCondition _ => state.core.control ≠ .scheduler ∧ state.core.control ≠ .dispatch
  | .statement | .timer => ∃ thread, state.core.control = .thread thread
  | .runScheduler => state.core.control = .boot
  | .wakeThreads => state.core.control = .scheduler
  | .cleanupThreads => state.core.control = .cleanup
  | .dispatchThread => state.core.control = .dispatch

instance : Decidable (∃ thread, state.Calling thread) :=
  inferInstanceAs (Decidable (∃ thread, state.core.control = .thread thread ∧ state.point thread = .own))

instance (label : Turn) : Decidable (state.Enabled label) :=
  match label with
  | .createThread _ _ | .detachThread _ | .waitThread _ | .signalCondition _ =>
      inferInstanceAs (Decidable (_ ∧ _))
  | .waitCondition _ | .yieldThread | .terminateThread _ =>
      inferInstanceAs (Decidable (∃ thread, state.Calling thread))
  | .statement | .timer =>
      inferInstanceAs (Decidable (∃ thread, state.core.control = .thread thread))
  | .runScheduler | .wakeThreads | .cleanupThreads | .dispatchThread =>
      inferInstanceAs (Decidable (state.core.control = _))

def createThread (init : ThreadInit) (page : Nat) : Option PointCore :=
  (state.core.createThread init page).map fun made =>
    { state with
      core := made.2
      point := if made.1 = 0 then state.point else Function.update state.point made.1 .own }

def turn : Turn → Option PointCore
  | .createThread init page => state.createThread init page
  | .detachThread thread => some (state.withCore (state.core.detachThread thread))
  | .waitThread thread => some (state.waitThread state.core.current thread)
  | .waitCondition condition => some (state.startWait state.core.current condition none)
  | .yieldThread => some (state.goTo state.core.current (.yieldThread .thread))
  | .terminateThread returnValue =>
      some { state.goTo state.core.current (.testDetached returnValue) with
        passed := Function.update state.passed state.core.current returnValue }
  | .signalCondition condition => some (state.withCore (state.core.signalCondition condition))
  | .statement => state.statement state.core.current (state.point state.core.current)
  | .timer => state.preemptThread state.core.current
  | .runScheduler => some (state.withCore { state.core with control := .scheduler })
  | .wakeThreads => state.core.wakeThreads.map state.withCore
  | .cleanupThreads => state.core.cleanupThreads.map state.withCore
  -- `k_proc_RunThread` sets `next_thread` and the switch clears it, both without interrupts.
  | .dispatchThread => some { state.withCore state.core.dispatchThread with nextThread := 0 }

def note : PointCore :=
  { state with moments := fun thread => state.core.conditions :: state.moments thread }

def next (label : Turn) : Option PointCore := (state.turn label).map note

def attempt (label : Turn) : Option PointCore :=
  if state.Enabled label then state.next label else none

def machine : Machine PointCore Turn where
  start state := schedulerMachine.start state.core ∧ state.nextThread = 0 ∧
    ∀ thread, state.point thread = .own
  step before label after := before.Enabled label ∧ before.next label = some after

theorem step_of_attempt {before after : PointCore} {label : Turn}
    (attempted : before.attempt label = some after) : machine.step before label after := by
  unfold attempt at attempted
  split at attempted
  · next enabled => exact ⟨enabled, attempted⟩
  · cases attempted

end PointCore

end DoggOS.Proc

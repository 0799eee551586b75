/-
Threads and the scheduler on one core, statement by statement.

Each thread and the scheduler has the statements that it still has to run; a
statement that calls a function or takes a branch puts more statements in front.
The timer takes the core from a thread between any two statements and gives it
to the scheduler, which has interrupts disabled.  Statements that follow each
other under one lock and write only what it protects are taken together, and so
is the setup of a new thread.  The lock word is kept with its owner.  The lists
and the slots are those of the atomic model; its `control` field has no use here.
-/

import DoggOS.Library.Machine
import DoggOS.Proc.Scheduler

namespace DoggOS.Proc

/-- `k_proc_ready_lock`, `k_proc_cond_wait_lock`, `delete_list_lock` and the lock of the thread
pool. -/
inductive SpinLock where
  | ready
  | condWait
  | deleteList
  | threadPool
deriving DecidableEq, Repr

inductive ThreadCall where
  | createThread (init : ThreadInit) (page : Nat)
  | detachThread (thread : Nat)
  | waitThread (thread : Nat)
  | yieldThread
  | terminateThread (returnValue : Nat)
deriving DecidableEq, Repr

inductive Statement where
  | spinLock (lock : SpinLock)
  | spinUnlock (lock : SpinLock)
  /-- `k_proc_QueueReadyThread`, and a turn of its loop. -/
  | queueReady (thread : Nat)
  | linkReady (thread : Nat)
  /-- `k_proc_QueueWaitingThread` -/
  | queueWaiting (thread : Nat)
  | linkWaiting (thread : Nat)
  /-- `k_proc_QueueDetachedThread` -/
  | queueDetached (thread : Nat)
  | linkDeleted (thread : Nat)
  /-- `k_proc_CreateThread` -/
  | createThread (init : ThreadInit) (page : Nat)
  | takeThread (page : Nat)
  | initThread (thread : Nat)
  /-- `k_proc_DetachThread`, and its test for a terminated thread. -/
  | detachThread (thread : Nat)
  | detachTerminated (thread : Nat)
  /-- `k_proc_WaitThread`, its tests and its end. -/
  | waitThread (thread : Nat)
  | testDetached (thread : Nat)
  | testTerminated (thread : Nat)
  | finishWait (thread : Nat)
  /-- `k_proc_WaitCondition` -/
  | waitCondition (condition : Nat)
  | setWaitCondition (condition : Nat)
  /-- An assignment to the state of the current thread, and to what it returns. -/
  | setState (threadState : ThreadState)
  | setReturnData (returnValue : Nat)
  /-- `k_proc_TerminateThread` -/
  | terminateThread (returnValue : Nat)
  | signalThread
  /-- `k_proc_YieldThread` -/
  | yieldThread
  /-- A round of `k_proc_CleanupThread`. -/
  | cleanup
  | takeDeleted
  | destroy (thread : Nat)
  /-- A round of `k_proc_RunScheduler`. -/
  | schedule
  | takeWaiting
  | wake (waiting resume : Nat)
  | pickReady
  /-- `k_proc_RunThread` up to the switch, and after it. -/
  | runThread (thread : Nat)
  | afterSwitch (thread : Nat)
deriving DecidableEq, Repr

/-- The thread that runs, or none for the scheduler. -/
structure PreemptiveCore where
  core : Core
  locks : SpinLock → Option (Option Nat)
  running : Option Nat
  code : Option Nat → List Statement

namespace PreemptiveCore

variable (state : PreemptiveCore)

def withCore (core : Core) : PreemptiveCore := { state with core := core }

def setLock (lock : SpinLock) (owner : Option (Option Nat)) : PreemptiveCore :=
  { state with locks := Function.update state.locks lock owner }

/-- `k_proc_GetCurrentThread` in a thread. -/
def current : Nat := state.running.getD 0

/-- The state after a statement of the running party, and the statements that it puts in front. -/
def execute : Statement → PreemptiveCore × List Statement
  | .spinLock lock =>
      if state.locks lock = none then (state.setLock lock (some state.running), [])
      else (state, [.spinLock lock])
  | .spinUnlock lock => (state.setLock lock none, [])
  | .queueReady thread =>
      (state, if state.core.valid thread then [.spinLock .ready, .linkReady thread] else [])
  | .linkReady thread =>
      if thread = 0 then (state, [.spinUnlock .ready])
      else (state.withCore (state.core.linkReady thread), [.linkReady (state.core.queueNext thread)])
  | .queueWaiting thread =>
      (state, if state.core.valid thread ∧ thread ≠ state.core.cleanupThread then
        [.spinLock .condWait, .linkWaiting thread] else [])
  | .linkWaiting thread =>
      (state.withCore (state.core.linkWaiting thread), [.spinUnlock .condWait])
  | .queueDetached thread =>
      (state, if state.core.valid thread ∧ state.core.state thread = .detached ∧
          thread ≠ state.core.cleanupThread then
        [.spinLock .deleteList, .linkDeleted thread] else [])
  | .linkDeleted thread =>
      (state.withCore { state.core.setQueueNext thread state.core.deleteList with
        deleteList := thread }, [.spinUnlock .deleteList])
  | .createThread init page =>
      (state, if init.ring0StackPage = 0 ∨ init.ring0StackBase = 0 ∨ init.entryPoint = 0 then []
        else [.spinLock .threadPool, .takeThread page])
  | .takeThread page =>
      let filled := state.core.fillPool page
      (state.withCore (filled.takeThread filled.poolThreads),
        [.spinUnlock .threadPool, .initThread filled.poolThreads, .queueReady filled.poolThreads])
  | .initThread thread =>
      ({ state with
        core := state.core.initThread thread
        code := Function.update state.code (some thread) [] }, [])
  | .detachThread thread =>
      if thread ≠ 0 ∧ state.core.flags thread &&& threadFlagDetached = 0 then
        (state.withCore (state.core.setFlags thread (state.core.flags thread ||| threadFlagDetached)),
          [.detachTerminated thread])
      else (state, [])
  | .detachTerminated thread =>
      if state.core.state thread = .terminated then
        (state.withCore (state.core.setState thread .detached), [.queueDetached thread])
      else (state, [])
  | .waitThread thread =>
      (state, if state.core.valid thread ∧ state.current ≠ thread then [.testDetached thread] else [])
  | .testDetached thread =>
      (state, if state.core.flags thread &&& threadFlagDetached ≠ 0 then []
        else [.testTerminated thread, .finishWait thread])
  | .testTerminated thread =>
      (state, if state.core.state thread ≠ .terminated then
        [.waitCondition (threadCondition thread)] else [])
  | .finishWait thread =>
      (state.withCore { state.core with
        waitConditions := Function.update state.core.waitConditions state.current 0 },
        [.detachThread thread])
  | .waitCondition condition =>
      (state, if state.core.mustWait condition then
        [.setWaitCondition condition, .setState .condWait, .yieldThread] else [])
  | .setWaitCondition condition =>
      (state.withCore { state.core with
        waitConditions := Function.update state.core.waitConditions state.current condition }, [])
  | .setState threadState => (state.withCore (state.core.setState state.current threadState), [])
  | .setReturnData returnValue =>
      (state.withCore { state.core with
        returnData := Function.update state.core.returnData state.current returnValue }, [])
  | .terminateThread returnValue =>
      (state,
        (if state.core.flags state.current &&& threadFlagDetached ≠ 0 then [.setState .detached]
        else [.setState .terminated, .setReturnData returnValue]) ++ [.signalThread, .yieldThread])
  | .signalThread =>
      (state.withCore (state.core.signalCondition (threadCondition state.current)), [])
  | .yieldThread => ({ state with running := none }, [])
  | .cleanup =>
      if state.locks .threadPool = none then
        (state.setLock .threadPool (some state.running), [.spinLock .deleteList, .takeDeleted])
      else (state, [.yieldThread, .cleanup])
  | .takeDeleted =>
      (state.withCore { state.core with deleteList := 0 },
        [.spinUnlock .deleteList, .destroy state.core.deleteList])
  | .destroy thread =>
      if thread = 0 then (state, [.spinUnlock .threadPool, .yieldThread, .cleanup])
      else (state.withCore (state.core.destroyThread thread), [.destroy (state.core.queueNext thread)])
  | .schedule => (state, [.spinLock .condWait, .takeWaiting])
  | .takeWaiting =>
      (state.withCore { state.core with condWaitThreads := 0, condWaitLastThread := 0 },
        [.spinUnlock .condWait, .wake state.core.condWaitThreads 0])
  | .wake waiting resume =>
      if waiting = 0 then
        (state, (if resume ≠ 0 then [.queueReady resume] else []) ++
          [.runThread state.core.cleanupThread, .spinLock .ready, .pickReady])
      else if state.core.conditions (state.core.waitConditions waiting) ≠ 0 then
        (state.withCore (state.core.setQueueNext waiting resume),
          [.wake (state.core.queueNext waiting) waiting])
      else (state, [.queueWaiting waiting, .wake (state.core.queueNext waiting) resume])
  | .pickReady =>
      let next := state.core.readyThreads
      if next ≠ 0 then
        (state.withCore { state.core.setQueueNext next 0 with
          readyThreads := state.core.queueNext next }, [.spinUnlock .ready, .runThread next, .schedule])
      else (state.withCore { state.core with lastReadyThread := 0 }, [.spinUnlock .ready, .schedule])
  | .runThread thread =>
      ({ state with core := state.core.setState thread .running, running := some thread },
        [.afterSwitch thread])
  | .afterSwitch thread =>
      if thread ≠ state.core.cleanupThread then
        (state, match state.core.state thread with
          | .detached => [.queueDetached thread]
          | .condWait => [.queueWaiting thread]
          | .running => [.queueReady thread]
          | _ => [])
      else (state.withCore (state.core.setState thread .ready), [])

def next : Option PreemptiveCore :=
  match state.code state.running with
  | [] => none
  | statement :: rest =>
      let after := (state.execute statement).1
      some { after with
        code := Function.update after.code state.running ((state.execute statement).2 ++ rest) }

def statementOf : ThreadCall → Statement
  | .createThread init page => .createThread init page
  | .detachThread thread => .detachThread thread
  | .waitThread thread => .waitThread thread
  | .yieldThread => .yieldThread
  | .terminateThread returnValue => .terminateThread returnValue

def begin (call : ThreadCall) : Option PreemptiveCore :=
  match state.running with
  | none => none
  | some thread =>
      if state.code (some thread) = [] then
        some { state with code := Function.update state.code (some thread) [statementOf call] }
      else none

/-- The timer preempts a thread; the scheduler runs with interrupts disabled. -/
def preempt : Option PreemptiveCore :=
  match state.running with
  | none => none
  | some _ => some { state with running := none }

inductive Turn where
  | statement
  | call (call : ThreadCall)
  | timer
deriving DecidableEq, Repr

def after : Turn → Option PreemptiveCore
  | .statement => state.next
  | .call call => state.begin call
  | .timer => state.preempt

structure Start : Prop where
  free : ∀ lock, state.locks lock = none
  running : state.running = none
  scheduler : state.code none = [.schedule]
  threads : ∀ thread, state.code (some thread) = [] ∨ state.code (some thread) = [.cleanup]

def machine : Machine PreemptiveCore Turn where
  start := Start
  step before turn after := before.after turn = some after

end PreemptiveCore

end DoggOS.Proc

/-
The scheduler of one core: threads, the lists they are queued on, and the loop.

A thread is the address of its slot in a thread page; each field of the slot is
a function of that address.  `k_proc_RunThread` is split at the switch: its
first half gives the core to the thread, `afterSwitch` is what follows when the
thread has given it back.  `queued` and `ran` are histories that the code does
not keep: the threads in the order they were linked into the ready list, and in
the order they were taken from it.
-/

import DoggOS.Library.WhileLoop
import Mathlib.Logic.Function.Basic

namespace DoggOS.Proc

inductive ThreadState where
  | condWait | suspended | terminated | running | created | ready | detached | invalid
deriving DecidableEq, Repr

/-- `K_PROC_THREAD_FLAG_DETACHED`. -/
def threadFlagDetached : Nat := 1

/-- `sizeof(struct k_proc_thread_t)`: fifteen words and a small heap of twenty-one. -/
def threadBytes : Nat := 144

def threadPageHeaderBytes : Nat := 8

/-- `K_PROC_THREAD_PAGE_THREAD_COUNT`. -/
def threadPageThreadCount : Nat := (4096 - threadPageHeaderBytes) / threadBytes

def threadSlot (page threadIndex : Nat) : Nat :=
  page + threadPageHeaderBytes + threadBytes * threadIndex

def threadPageSlots (page : Nat) : List Nat :=
  (List.range threadPageThreadCount).map (threadSlot page)

/-- `&thread->condition`. -/
def threadCondition (thread : Nat) : Nat := thread + 52

inductive Control where
  /-- `k_Init` and `k_main`, before `k_proc_RunScheduler`. -/
  | boot
  /-- The top of the scheduler loop. -/
  | scheduler
  | cleanup
  /-- The scheduler, after the cleanup thread has yielded. -/
  | dispatch
  | thread (thread : Nat)
deriving DecidableEq, Repr

structure Core where
  queueNext : Nat → Nat
  state : Nat → ThreadState
  flags : Nat → Nat
  returnData : Nat → Nat
  waitConditions : Nat → Nat
  /-- Condition words, by address. -/
  conditions : Nat → Nat
  /-- The thread named by the `k_proc_WaitThread` frame on a thread's stack. -/
  waitFrames : Nat → Option Nat
  readyThreads : Nat
  lastReadyThread : Nat
  condWaitThreads : Nat
  condWaitLastThread : Nat
  deleteList : Nat
  poolThreads : Nat
  poolPages : List Nat
  cleanupThread : Nat
  control : Control
  /-- Every thread that `k_proc_CreateThread` has returned. -/
  created : List Nat
  queued : List Nat
  ran : List Nat

/-- The fields of `k_proc_thread_init_t` that decide whether a thread is created. -/
structure ThreadInit where
  entryPoint : Nat
  ring0StackPage : Nat
  ring0StackBase : Nat
deriving DecidableEq, Repr

inductive Status where
  | ok | detachedThread | invalidThread
deriving DecidableEq, Repr

namespace Core

def slots (core : Core) : List Nat := core.poolPages.flatMap threadPageSlots

/-- `K_PROC_THREAD_VALID`. -/
def valid (core : Core) (thread : Nat) : Prop := thread ≠ 0 ∧ core.state thread ≠ .invalid

instance (core : Core) (thread : Nat) : Decidable (core.valid thread) :=
  inferInstanceAs (Decidable (_ ∧ _))

def setState (core : Core) (thread : Nat) (state : ThreadState) : Core :=
  { core with state := Function.update core.state thread state }

def setFlags (core : Core) (thread flags : Nat) : Core :=
  { core with flags := Function.update core.flags thread flags }

def setQueueNext (core : Core) (thread next : Nat) : Core :=
  { core with queueNext := Function.update core.queueNext thread next }

/-- One turn of the loop in `k_proc_QueueReadyThread`. -/
def linkReady (core : Core) (thread : Nat) : Core :=
  let marked := core.setState thread .ready
  let linked :=
    if core.readyThreads = 0 then { marked with readyThreads := thread }
    else marked.setQueueNext core.lastReadyThread thread
  { linked.setQueueNext thread 0 with
    lastReadyThread := thread
    queued := core.queued ++ [thread] }

def queueReadyTurn : Nat × Core → Option (Nat × Core)
  | (thread, core) =>
      if thread = 0 then none else some (core.queueNext thread, core.linkReady thread)

def queueReadyThread (core : Core) (thread : Nat) : Option Core :=
  if core.valid thread then
    (whileLoop queueReadyTurn (core.slots.length + 1) (thread, core)).map Prod.snd
  else some core

def linkWaiting (core : Core) (thread : Nat) : Core :=
  let linked :=
    if core.condWaitThreads = 0 then { core with condWaitThreads := thread }
    else core.setQueueNext core.condWaitLastThread thread
  { linked.setQueueNext thread 0 with condWaitLastThread := thread }

def queueWaitingThread (core : Core) (thread : Nat) : Core :=
  if core.valid thread ∧ thread ≠ core.cleanupThread then core.linkWaiting thread else core

def queueDetachedThread (core : Core) (thread : Nat) : Core :=
  if core.valid thread ∧ core.state thread = .detached ∧ thread ≠ core.cleanupThread then
    { core.setQueueNext thread core.deleteList with deleteList := thread }
  else core

/-- What `k_proc_RunThread` does once the thread has switched back. -/
def afterSwitch (core : Core) (thread : Nat) : Option Core :=
  if thread ≠ core.cleanupThread then
    match core.state thread with
    | .detached => some (core.queueDetachedThread thread)
    | .condWait => some (core.queueWaitingThread thread)
    | .running => core.queueReadyThread thread
    | _ => some core
  else some (core.setState thread .ready)

/-- `k_proc_YieldThread`, and the way back to the top of the scheduler loop. -/
def yieldThread (core : Core) (thread : Nat) : Option Core :=
  (core.afterSwitch thread).map (fun after => { after with control := .scheduler })

def linkThreads (page : Nat) : Nat → (Nat → Nat) → Nat → Nat
  | 0, next => next
  | count + 1, next =>
      Function.update (linkThreads page count next) (threadSlot page count)
        (threadSlot page (count + 1))

/-- The branch of `k_proc_CreateThread` for an empty pool, with the page from `k_rt_Malloc`. -/
def addThreadPage (core : Core) (page : Nat) : Core :=
  { core with
    queueNext := Function.update (linkThreads page (threadPageThreadCount - 1) core.queueNext)
      (threadSlot page (threadPageThreadCount - 1)) 0
    poolPages := page :: core.poolPages
    poolThreads := threadSlot page 0 }

def initThread (core : Core) (thread : Nat) : Core :=
  { core with
    queueNext := Function.update core.queueNext thread 0
    state := Function.update core.state thread .created
    flags := Function.update core.flags thread 0
    conditions := Function.update core.conditions (threadCondition thread) 0
    waitConditions := Function.update core.waitConditions thread 0
    waitFrames := Function.update core.waitFrames thread none
    created := thread :: core.created }

def fillPool (core : Core) (page : Nat) : Core :=
  if core.poolThreads = 0 then core.addThreadPage page else core

def takeThread (core : Core) (thread : Nat) : Core :=
  { core with poolThreads := core.queueNext thread }

def createThread (core : Core) (init : ThreadInit) (page : Nat) : Option (Nat × Core) :=
  if init.ring0StackPage = 0 ∨ init.ring0StackBase = 0 ∨ init.entryPoint = 0 then some (0, core)
  else
    let filled := core.fillPool page
    let thread := filled.poolThreads
    (((filled.takeThread thread).initThread thread).queueReadyThread thread).map
      (fun after => (thread, after))

def detachThread (core : Core) (thread : Nat) : Core :=
  if thread ≠ 0 ∧ core.flags thread &&& threadFlagDetached = 0 then
    let flagged := core.setFlags thread (core.flags thread ||| threadFlagDetached)
    if core.state thread = .terminated then
      (flagged.setState thread .detached).queueDetachedThread thread
    else flagged
  else core

def destroyThread (core : Core) (thread : Nat) : Core :=
  if core.valid thread then
    { (core.setState thread .invalid).setQueueNext thread core.poolThreads with
      poolThreads := thread }
  else core

def signalCondition (core : Core) (condition : Nat) : Core :=
  { core with conditions := Function.update core.conditions condition 1 }

/-- The test of `k_proc_WaitCondition`. -/
def mustWait (core : Core) (condition : Nat) : Prop :=
  condition ≠ 0 ∧ core.conditions condition = 0

instance (core : Core) (condition : Nat) : Decidable (core.mustWait condition) :=
  inferInstanceAs (Decidable (_ ∧ _))

def waitCondition (core : Core) (current condition : Nat) : Option Core :=
  if core.mustWait condition then
    ({ core with
      waitConditions := Function.update core.waitConditions current condition
      state := Function.update core.state current .condWait } : Core).yieldThread current
  else some core

/-- The end of `k_proc_WaitThread`: the status and what is stored through `value`. -/
def finishWaitThread (core : Core) (current thread : Nat) : (Status × Option Nat) × Core :=
  ((.ok, some (core.returnData thread)),
    ({ core with
      waitConditions := Function.update core.waitConditions current 0
      waitFrames := Function.update core.waitFrames current none } : Core).detachThread thread)

/-- There is no status yet when the calling thread has to wait. -/
def waitThread (core : Core) (current thread : Nat) :
    Option (Option (Status × Option Nat) × Core) :=
  if core.valid thread ∧ current ≠ thread then
    if core.flags thread &&& threadFlagDetached ≠ 0 then
      some (some (.detachedThread, none), core)
    else if core.state thread ≠ .terminated ∧ core.mustWait (threadCondition thread) then
      (({ core with waitFrames := Function.update core.waitFrames current (some thread) } : Core
        ).waitCondition current (threadCondition thread)).map (fun after => (none, after))
    else
      some (some (core.finishWaitThread current thread).1, (core.finishWaitThread current thread).2)
  else some (some (.invalidThread, none), core)

def terminateThread (core : Core) (current returnValue : Nat) : Option Core :=
  let ended :=
    if core.flags current &&& threadFlagDetached ≠ 0 then core.setState current .detached
    else { core.setState current .terminated with
      returnData := Function.update core.returnData current returnValue }
  (ended.signalCondition (threadCondition current)).yieldThread current

/-- The first half of `k_proc_RunThread`. -/
def switchTo (core : Core) (thread : Nat) (control : Control) : Core :=
  { core.setState thread .running with control }

/-- One turn over the waiting threads: `waiting_thread`, `resume_thread` and the core. -/
def wakeTurn : Nat × Nat × Core → Option (Nat × Nat × Core)
  | (waiting, resume, core) =>
      if waiting = 0 then none
      else if core.conditions (core.waitConditions waiting) ≠ 0 then
        some (core.queueNext waiting, waiting, core.setQueueNext waiting resume)
      else some (core.queueNext waiting, resume, core.queueWaitingThread waiting)

/-- The scheduler loop up to the switch to the cleanup thread. -/
def wakeThreads (core : Core) : Option Core :=
  let taken := { core with condWaitThreads := 0, condWaitLastThread := 0 }
  match whileLoop wakeTurn (core.slots.length + 1) (core.condWaitThreads, 0, taken) with
  | none => none
  | some (_, resume, woken) =>
      (if resume ≠ 0 then woken.queueReadyThread resume else some woken).map
        (fun after => after.switchTo after.cleanupThread .cleanup)

def destroyTurn : Nat × Core → Option (Nat × Core)
  | (deleted, core) =>
      if deleted = 0 then none else some (core.queueNext deleted, core.destroyThread deleted)

/-- One round of `k_proc_CleanupThread`, and its switch back to the scheduler. -/
def cleanupThreads (core : Core) : Option Core :=
  match whileLoop destroyTurn (core.slots.length + 1)
      (core.deleteList, { core with deleteList := 0 }) with
  | none => none
  | some (_, cleaned) =>
      (cleaned.afterSwitch cleaned.cleanupThread).map
        (fun after => { after with control := .dispatch })

/-- The end of the scheduler loop. -/
def dispatchThread (core : Core) : Core :=
  let next := core.readyThreads
  if next ≠ 0 then
    ({ core.setQueueNext next 0 with
      readyThreads := core.queueNext next
      ran := core.ran ++ [next] } : Core).switchTo next (.thread next)
  else { core with lastReadyThread := 0, control := .scheduler }

/-- The statements of `k_proc_Init` about threads. -/
def init (core : Core) (threadInit : ThreadInit) (page : Nat) : Option Core :=
  (core.createThread threadInit page).map (fun made =>
    { made.2.setQueueNext made.1 0 with
      readyThreads := 0
      lastReadyThread := 0
      cleanupThread := made.1
      deleteList := 0
      queued := []
      ran := [] })

end Core

end DoggOS.Proc

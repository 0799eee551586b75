/-
How long a thread waits for the processor.

The ready list is a queue, so a thread with `k` threads in front of it runs at
the `k`-th turn from now, whatever the threads that run before it call.  A
thread whose condition is set when the scheduler scans the waiting threads
enters the queue in that scan.
-/

import DoggOS.Proc.SchedulerRuns

namespace DoggOS.Proc

namespace Core

structure Advances (core after : Core) : Prop where
  queued : core.queued <+: after.queued
  ran : core.ran <+: after.ran

variable {core middle after : Core} {thread : Nat}

namespace Advances

theorem same (queued : after.queued = core.queued) (ran : after.ran = core.ran) :
    core.Advances after :=
  ⟨queued ▸ List.prefix_rfl, ran ▸ List.prefix_rfl⟩

theorem trans (one : core.Advances middle) (two : middle.Advances after) : core.Advances after :=
  ⟨one.queued.trans two.queued, one.ran.trans two.ran⟩

theorem since (later : middle.Advances after) (queued : middle.queued = core.queued)
    (ran : middle.ran = core.ran) : core.Advances after :=
  trans (same queued ran) later

end Advances

structure Scans (core after : Core) : Prop where
  queued : core.queued <+: after.queued
  ran : after.ran = core.ran
  pages : after.poolPages = core.poolPages

namespace Scans

theorem same (queued : after.queued = core.queued) (ran : after.ran = core.ran)
    (pages : after.poolPages = core.poolPages) : core.Scans after :=
  ⟨queued ▸ List.prefix_rfl, ran, pages⟩

theorem trans (one : core.Scans middle) (two : middle.Scans after) : core.Scans after :=
  ⟨one.queued.trans two.queued, two.ran.trans one.ran, two.pages.trans one.pages⟩

theorem advances (scans : core.Scans after) : core.Advances after :=
  ⟨scans.queued, scans.ran ▸ List.prefix_rfl⟩

end Scans

theorem linkReady_scans (core : Core) (thread : Nat) : core.Scans (core.linkReady thread) := by
  unfold linkReady
  constructor
  · exact List.prefix_append _ _
  · simp only
    split <;> rfl
  · simp only
    split <;> rfl

theorem queueReadyThread_scans (ran : core.queueReadyThread thread = some after) :
    core.Scans after := by
  unfold queueReadyThread at ran
  split at ran
  · obtain ⟨last, loop, rfl⟩ := Option.map_eq_some_iff.mp ran
    have kept : ∀ state next : Nat × Core, core.Scans state.2 →
        queueReadyTurn state = some next → core.Scans next.2 := by
      intro state next scans turned
      simp only [queueReadyTurn] at turned
      split at turned
      · cases turned
      · cases turned
        exact scans.trans (linkReady_scans _ _)
    exact WhileLoop.keeps kept (.same rfl rfl rfl) loop
  · cases ran
    exact .same rfl rfl rfl

theorem queueWaitingThread_scans (core : Core) (thread : Nat) :
    core.Scans (core.queueWaitingThread thread) := by
  unfold queueWaitingThread linkWaiting
  split
  · simp only
    split <;> exact .same rfl rfl rfl
  · exact .same rfl rfl rfl

theorem queueDetachedThread_advances (core : Core) (thread : Nat) :
    core.Advances (core.queueDetachedThread thread) := by
  unfold queueDetachedThread
  split <;> exact .same rfl rfl

theorem afterSwitch_advances (switch : core.afterSwitch thread = some after) :
    core.Advances after := by
  unfold afterSwitch at switch
  split at switch
  · split at switch
    · cases switch
      exact queueDetachedThread_advances core thread
    · cases switch
      exact (queueWaitingThread_scans core thread).advances
    · exact (queueReadyThread_scans switch).advances
    · cases switch
      exact .same rfl rfl
  · cases switch
    exact .same rfl rfl

theorem yieldThread_advances (ran : core.yieldThread thread = some after) :
    core.Advances after := by
  obtain ⟨switched, switch, rfl⟩ := Option.map_eq_some_iff.mp ran
  exact (afterSwitch_advances switch).trans (.same rfl rfl)

theorem waitCondition_advances {condition : Nat}
    (ran : core.waitCondition thread condition = some after) : core.Advances after := by
  unfold waitCondition at ran
  split at ran
  · exact (yieldThread_advances ran).since rfl rfl
  · cases ran
    exact .same rfl rfl

theorem detachThread_advances (core : Core) (thread : Nat) :
    core.Advances (core.detachThread thread) := by
  unfold detachThread
  split
  · simp only
    split
    · exact (queueDetachedThread_advances _ thread).since rfl rfl
    · exact .same rfl rfl
  · exact .same rfl rfl

theorem createThread_advances {init : ThreadInit} {page : Nat} {made : Nat × Core}
    (ran : core.createThread init page = some made) : core.Advances made.2 := by
  unfold createThread at ran
  split at ran
  · cases ran
    exact .same rfl rfl
  · obtain ⟨queued, ready, rfl⟩ := Option.map_eq_some_iff.mp ran
    refine Advances.trans ?_ (queueReadyThread_scans ready).advances
    unfold fillPool
    split <;> exact .same rfl rfl

theorem waitThread_advances {current : Nat} {result : Option (Status × Option Nat) × Core}
    (ran : core.waitThread current thread = some result) : core.Advances result.2 := by
  unfold waitThread at ran
  split at ran
  · split at ran
    · cases ran
      exact .same rfl rfl
    · split at ran
      · obtain ⟨waits, waited, rfl⟩ := Option.map_eq_some_iff.mp ran
        exact (waitCondition_advances waited).since rfl rfl
      · cases ran
        exact (detachThread_advances _ thread).since rfl rfl
  · cases ran
    exact .same rfl rfl

theorem terminateThread_advances {returnValue : Nat}
    (ran : core.terminateThread thread returnValue = some after) : core.Advances after := by
  refine Advances.trans ?_ (yieldThread_advances ran)
  unfold signalCondition
  split <;> exact .same rfl rfl

theorem wakeTurn_scans {state next : Nat × Nat × Core} (turned : wakeTurn state = some next) :
    state.2.2.Scans next.2.2 := by
  obtain ⟨waiting, resume, core⟩ := state
  simp only [wakeTurn] at turned
  split at turned
  · cases turned
  · split at turned
    · cases turned
      exact .same rfl rfl rfl
    · cases turned
      exact queueWaitingThread_scans core waiting

theorem wakeThreads_scans (ran : core.wakeThreads = some after) : core.Scans after := by
  unfold wakeThreads at ran
  simp only at ran
  split at ran
  · cases ran
  · rename_i last resume woken loop
    have kept : ∀ state next : Nat × Nat × Core, core.Scans state.2.2 →
        wakeTurn state = some next → core.Scans next.2.2 := by
      intro state next scans turned
      exact scans.trans (wakeTurn_scans turned)
    have woke : core.Scans woken := WhileLoop.keeps kept (.same rfl rfl rfl) loop
    obtain ⟨ready, queued, rfl⟩ := Option.map_eq_some_iff.mp ran
    have readied : core.Scans ready := by
      split at queued
      · exact woke.trans (queueReadyThread_scans queued)
      · cases queued
        exact woke
    exact readied.trans (.same rfl rfl rfl)

theorem cleanupThreads_advances (ran : core.cleanupThreads = some after) :
    core.Advances after := by
  unfold cleanupThreads at ran
  split at ran
  · cases ran
  · rename_i last cleaned loop
    have kept : ∀ state next : Nat × Core, core.Advances state.2 →
        destroyTurn state = some next → core.Advances next.2 := by
      intro state next advances turned
      simp only [destroyTurn] at turned
      split at turned
      · cases turned
      · cases turned
        refine advances.trans ?_
        unfold destroyThread
        split <;> exact .same rfl rfl
    have cleans : core.Advances cleaned := WhileLoop.keeps kept (.same rfl rfl) loop
    obtain ⟨switched, switch, rfl⟩ := Option.map_eq_some_iff.mp ran
    exact (cleans.trans (afterSwitch_advances switch)).trans (.same rfl rfl)

theorem dispatchThread_advances (core : Core) : core.Advances core.dispatchThread := by
  unfold dispatchThread
  simp only
  split
  · exact ⟨List.prefix_rfl, List.prefix_append _ _⟩
  · exact .same rfl rfl

theorem call_advances {label : SchedulerCall} (ran : core.call label = some after) :
    core.Advances after := by
  cases label with
  | createThread init page =>
      obtain ⟨made, created, rfl⟩ := Option.map_eq_some_iff.mp ran
      exact createThread_advances created
  | detachThread thread =>
      cases ran
      exact detachThread_advances core thread
  | waitThread thread =>
      obtain ⟨result, waited, rfl⟩ := Option.map_eq_some_iff.mp ran
      exact waitThread_advances waited
  | finishWaitThread =>
      obtain ⟨target, _, rfl⟩ := Option.map_eq_some_iff.mp ran
      exact (detachThread_advances _ target).since rfl rfl
  | waitCondition condition => exact waitCondition_advances ran
  | signalCondition condition =>
      cases ran
      exact .same rfl rfl
  | yieldThread => exact yieldThread_advances ran
  | terminateThread returnValue => exact terminateThread_advances ran
  | runScheduler =>
      cases ran
      exact .same rfl rfl
  | wakeThreads => exact (wakeThreads_scans ran).advances
  | cleanupThreads => exact cleanupThreads_advances ran
  | dispatchThread =>
      cases ran
      exact dispatchThread_advances core

/-- The thread waits for the processor, or the scheduler is about to find its condition set. -/
def Due (core : Core) (thread : Nat) : Prop :=
  core.At .readyList thread ∨
    core.control = .scheduler ∧ core.At .condWaitList thread ∧
      core.conditions (core.waitConditions thread) ≠ 0

end Core

open Proc.Core

variable {before after : Core} {thread : Nat}

theorem path_advances (path : Relation.ReflTransGen schedulerMachine.Moves before after) :
    before.Advances after := by
  induction path with
  | refl => exact .same rfl rfl
  | tail _ move ih =>
      obtain ⟨label, _, step⟩ := move
      exact ih.trans (call_advances step)

theorem path_reachable (reachable : schedulerMachine.Reachable before)
    (path : Relation.ReflTransGen schedulerMachine.Moves before after) :
    schedulerMachine.Reachable after := by
  obtain ⟨first, initial, earlier⟩ := reachable
  exact ⟨first, initial, earlier.trans path⟩

/-- The thread at a position of the ready list is the one that runs at that turn from now. -/
theorem ready_runs (reachable : schedulerMachine.Reachable before) {threads : List Nat}
    (queue : Chain before.queueNext before.readyThreads threads) {position : Nat}
    (here : threads[position]? = some thread)
    (path : Relation.ReflTransGen schedulerMachine.Moves before after)
    (turns : before.ran.length + position < after.ran.length) :
    after.ran[before.ran.length + position]? = some thread := by
  obtain ⟨listed, ⟨chain, _, _⟩, fifo⟩ := (scheduler_tracked reachable).consistent.ready
  obtain ⟨later, _, fifoAfter⟩ :=
    (scheduler_tracked (path_reachable reachable path)).consistent.ready
  rw [chain.unique queue] at fifo
  obtain ⟨more, grown⟩ := (path_advances path).queued
  have queued : before.queued[before.ran.length + position]? = some thread := by
    rw [fifo, List.getElem?_append_right (Nat.le_add_right _ _), Nat.add_sub_cancel_left]
    exact here
  have inQueued : after.queued[before.ran.length + position]? = some thread := by
    obtain ⟨bound, _⟩ := List.getElem?_eq_some_iff.mp queued
    rw [← grown, List.getElem?_append_left bound]
    exact queued
  rw [fifoAfter, List.getElem?_append_left turns] at inQueued
  exact inQueued

theorem scan_readies (reachable : schedulerMachine.Reachable before)
    (waiting : before.At .condWaitList thread)
    (signalled : before.conditions (before.waitConditions thread) ≠ 0)
    (scanned : before.wakeThreads = some after) : after.At .readyList thread := by
  have tracked := scheduler_tracked reachable
  obtain ⟨lists, placed⟩ := tracked.placed
  have member : thread ∈ lists .condWait := (Tracked.at_list placed rfl thread).mp waiting
  obtain ⟨slot, notHeld, _, asleep, _⟩ := placed.listed .condWait thread member
  obtain ⟨woken, lists', ran, moved, _, sameData, unset, states⟩ :=
    placed.wakeThreads (Tracked.cleanup_held before)
  rw [scanned, Option.some_inj] at ran
  have pages := (wakeThreads_scans scanned).pages
  have slot' : thread ∈ woken.slots := by
    have samePages : woken.poolPages = before.poolPages := by
      rw [← pages, ran]
      rfl
    unfold slots
    rw [samePages]
    exact slot
  have created : thread ∈ woken.created := by
    rw [sameData.created]
    exact (placed.listed .condWait thread member).2.2.1 nofun
  have notWaiting : lists' .waiting = [] := moved.nil_of_head rfl
  have notResume : lists' .resume = [] := moved.nil_of_head rfl
  have notDeleted : lists' .deleted = [] := moved.nil_of_head rfl
  rcases moved.covered thread slot' with held | ⟨key, listed⟩ | ended
  · exact absurd held notHeld
  · have fits := (moved.listed key thread listed).2.2.2
    cases key with
    | ready =>
        rw [ran]
        exact ⟨lists' .ready, moved.queues.chain .ready, listed⟩
    | condWait => exact absurd (unset thread listed) signalled
    | delete =>
        rcases states thread with same | ⟨_, _, isReady⟩
        · rw [show woken.state thread = .detached from fits, asleep] at same
          cases same
        · rw [show woken.state thread = .detached from fits] at isReady
          cases isReady
    | pool =>
        have invalid : woken.state thread = .invalid := fits created
        rcases states thread with same | ⟨_, _, isReady⟩
        · rw [invalid, asleep] at same
          cases same
        · rw [invalid] at isReady
          cases isReady
    | waiting =>
        rw [notWaiting] at listed
        cases listed
    | resume =>
        rw [notResume] at listed
        cases listed
    | deleted =>
        rw [notDeleted] at listed
        cases listed
  · rcases states thread with same | ⟨_, _, isReady⟩
    · rw [ended.2, asleep] at same
      cases same
    · rw [ended.2] at isReady
      cases isReady

theorem ready_runs_within (reachable : schedulerMachine.Reachable before)
    (ready : before.At .readyList thread)
    (path : Relation.ReflTransGen schedulerMachine.Moves before after)
    (turns : before.ran.length + before.slots.length ≤ after.ran.length) :
    thread ∈ after.ran.drop before.ran.length := by
  obtain ⟨lists, placed⟩ := (scheduler_tracked reachable).placed
  have member : thread ∈ lists .ready := (Tracked.at_list placed rfl thread).mp ready
  obtain ⟨position, bound, here⟩ := List.mem_iff_getElem.mp member
  have short := placed.length_le .ready
  have runs := ready_runs reachable (placed.queues.chain .ready)
    (List.getElem?_eq_some_iff.mpr ⟨bound, here⟩) path (by omega)
  have dropped : (after.ran.drop before.ran.length)[position]? = some thread := by
    rw [List.getElem?_drop]
    exact runs
  exact List.mem_of_getElem? dropped

theorem scheduler_scans (control : before.control = .scheduler)
    (move : schedulerMachine.Moves before after) : before.wakeThreads = some after := by
  obtain ⟨label, enabled, step⟩ := move
  have notCalling : ¬ before.Calling := by
    rintro ⟨thread, running, _⟩
    rw [control] at running
    cases running
  cases label with
  | wakeThreads => exact step
  | createThread _ _ => exact absurd (enabled.1.resolve_left (by simp [control])) notCalling
  | detachThread _ => exact absurd (enabled.1.resolve_left (by simp [control])) notCalling
  | waitThread _ => exact absurd enabled.1 notCalling
  | finishWaitThread =>
      obtain ⟨thread, _, running, _⟩ := enabled
      rw [control] at running
      cases running
  | waitCondition _ => exact absurd enabled notCalling
  | signalCondition _ => exact absurd (enabled.resolve_left (by simp [control])) notCalling
  | yieldThread =>
      obtain ⟨thread, running⟩ := enabled
      rw [control] at running
      cases running
  | terminateThread _ => exact absurd enabled notCalling
  | runScheduler =>
      rw [show before.control = .boot from enabled] at control
      cases control
  | cleanupThreads =>
      rw [show before.control = .cleanup from enabled] at control
      cases control
  | dispatchThread =>
      rw [show before.control = .dispatch from enabled] at control
      cases control

/-- No thread starves: of the turns from any moment on, as many as there are thread slots are
enough for each thread that is due, and a queued thread runs at its position. -/
theorem scheduler_fair (reachable : schedulerMachine.Reachable before)
    (path : Relation.ReflTransGen schedulerMachine.Moves before after) :
    (∀ threads, Chain before.queueNext before.readyThreads threads →
      ∀ position thread, threads[position]? = some thread →
        before.ran.length + position < after.ran.length →
          after.ran[before.ran.length + position]? = some thread) ∧
    ∀ thread, before.Due thread → before.ran.length + before.slots.length ≤ after.ran.length →
      thread ∈ after.ran.drop before.ran.length := by
  constructor
  · intro threads queue position thread here turns
    exact ready_runs reachable queue here path turns
  · intro thread due turns
    rcases due with ready | ⟨control, waiting, signalled⟩
    · exact ready_runs_within reachable ready path turns
    · obtain ⟨lists, placed⟩ := (scheduler_tracked reachable).placed
      have slot := (placed.listed .condWait thread ((Tracked.at_list placed rfl thread).mp waiting)).1
      have positive := List.length_pos_of_mem slot
      rcases Relation.ReflTransGen.cases_head path with same | ⟨middle, move, rest⟩
      · rw [same] at turns positive
        omega
      · have scanned := scheduler_scans control move
        have scans := wakeThreads_scans scanned
        have ready := scan_readies reachable waiting signalled scanned
        have sameSlots : middle.slots = before.slots := by
          unfold Core.slots
          rw [scans.pages]
        rw [← scans.ran, ← sameSlots] at turns
        rw [← scans.ran]
        exact ready_runs_within (path_reachable reachable (.single move)) ready rest turns

def twoTurns : List SchedulerCall :=
  [.runScheduler, .wakeThreads, .cleanupThreads, .dispatchThread, .yieldThread, .wakeThreads,
    .cleanupThreads, .dispatchThread]

def secondTurn : Core := (Machine.follow Core.call createdCore twoTurns).getD createdCore

theorem secondTurn_path :
    Relation.ReflTransGen schedulerMachine.Moves createdCore secondTurn := by
  refine .head ⟨.runScheduler, show createdCore.control = .boot by rfl, rfl⟩ ?_
  refine .head ⟨.wakeThreads, rfl, rfl⟩ ?_
  refine .head ⟨.cleanupThreads, rfl, rfl⟩ ?_
  refine .head ⟨.dispatchThread, rfl, rfl⟩ ?_
  refine .head ⟨.yieldThread, ⟨4248, rfl⟩, rfl⟩ ?_
  refine .head ⟨.wakeThreads, rfl, rfl⟩ ?_
  refine .head ⟨.cleanupThreads, rfl, rfl⟩ ?_
  exact .single ⟨.dispatchThread, rfl, rfl⟩

/-- The second thread in the queue runs second. -/
theorem scheduler_fair_second : secondTurn.ran[1]? = some 4392 :=
  (scheduler_fair createdCore_reachable secondTurn_path).1 [4248, 4392]
    ⟨rfl, by decide, rfl, by decide, rfl⟩ 1 4392 rfl (by decide)

end DoggOS.Proc

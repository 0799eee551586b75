/-
Runs of the scheduler with any threads.

The running thread makes any calls it likes, may be preempted between two of
them, and passes as a thread only what `k_proc_CreateThread` has returned.  The
cleanup thread is queued nowhere: the scheduler runs it by name in every round.
-/

import DoggOS.Library.Machine
import DoggOS.Proc.SchedulerSteps

namespace DoggOS.Proc

inductive SchedulerCall where
  | createThread (init : ThreadInit) (page : Nat)
  | detachThread (thread : Nat)
  | waitThread (thread : Nat)
  /-- The rest of `k_proc_WaitThread`, once the thread runs again. -/
  | finishWaitThread
  | waitCondition (condition : Nat)
  | signalCondition (condition : Nat)
  | yieldThread
  | terminateThread (returnValue : Nat)
  | runScheduler
  | wakeThreads
  | cleanupThreads
  | dispatchThread
deriving DecidableEq, Repr

namespace Core

/-- `k_proc_GetCurrentThread`, when it is not the scheduler thread. -/
def current (core : Core) : Nat :=
  match core.control with
  | .thread thread => thread
  | _ => 0

def Calling (core : Core) : Prop :=
  ∃ thread, core.control = .thread thread ∧ core.waitFrames thread = none

def Pointer (core : Core) (thread : Nat) : Prop := thread = 0 ∨ thread ∈ core.created

def Enabled (core : Core) : SchedulerCall → Prop
  | .createThread _ page =>
      (core.control = .boot ∨ core.Calling) ∧ (core.poolThreads = 0 → core.FreshPage page)
  | .detachThread thread => (core.control = .boot ∨ core.Calling) ∧ core.Pointer thread
  | .waitThread thread => core.Calling ∧ core.Pointer thread
  | .finishWaitThread => ∃ thread target, core.control = .thread thread ∧
      core.waitFrames thread = some target
  | .waitCondition _ => core.Calling
  | .signalCondition _ => core.control = .boot ∨ core.Calling
  | .yieldThread => ∃ thread, core.control = .thread thread
  | .terminateThread _ => core.Calling
  | .runScheduler => core.control = .boot
  | .wakeThreads => core.control = .scheduler
  | .cleanupThreads => core.control = .cleanup
  | .dispatchThread => core.control = .dispatch

def call (core : Core) : SchedulerCall → Option Core
  | .createThread init page => (core.createThread init page).map Prod.snd
  | .detachThread thread => some (core.detachThread thread)
  | .waitThread thread => (core.waitThread core.current thread).map Prod.snd
  | .finishWaitThread =>
      (core.waitFrames core.current).map (fun target => (core.finishWaitThread core.current target).2)
  | .waitCondition condition => core.waitCondition core.current condition
  | .signalCondition condition => some (core.signalCondition condition)
  | .yieldThread => core.yieldThread core.current
  | .terminateThread returnValue => core.terminateThread core.current returnValue
  | .runScheduler => some { core with control := .scheduler }
  | .wakeThreads => core.wakeThreads
  | .cleanupThreads => core.cleanupThreads
  | .dispatchThread => some core.dispatchThread

/-- Memory and variables as `k_proc_Init` finds them; thread slots hold anything. -/
def AtBoot (core : Core) : Prop :=
  core.readyThreads = 0 ∧ core.condWaitThreads = 0 ∧ core.deleteList = 0 ∧ core.poolThreads = 0 ∧
    core.poolPages = [] ∧ core.created = [] ∧ core.queued = [] ∧ core.ran = [] ∧
    core.control = .boot ∧ ∀ thread, core.waitFrames thread = none

end Core

def schedulerMachine : Machine Core SchedulerCall where
  start core := ∃ (boot : Core) (init : ThreadInit) (page : Nat), boot.AtBoot ∧ boot.FreshPage page ∧
    ¬ (init.ring0StackPage = 0 ∨ init.ring0StackBase = 0 ∨ init.entryPoint = 0) ∧
    boot.init init page = some core
  step before label after := before.Enabled label ∧ before.call label = some after

inductive Place where
  | running | readyList | condWaitList | deleteList | poolList | terminated
deriving DecidableEq, Repr

def Place.key : Place → Option ListKey
  | .readyList => some .ready
  | .condWaitList => some .condWait
  | .deleteList => some .delete
  | .poolList => some .pool
  | _ => none

theorem Place.key_inj {one two : Place} {key : ListKey} (first : one.key = some key)
    (second : two.key = some key) : one = two := by
  cases one <;> cases two <;> first | rfl | cases first <;> cases second

namespace Core

def Listed (core : Core) (head thread : Nat) : Prop :=
  ∃ threads, Chain core.queueNext head threads ∧ thread ∈ threads

def At (core : Core) : Place → Nat → Prop
  | .running, thread => core.control = .thread thread ∨
      core.control = .cleanup ∧ thread = core.cleanupThread
  | .readyList, thread => core.Listed core.readyThreads thread
  | .condWaitList, thread => core.Listed core.condWaitThreads thread
  | .deleteList, thread => core.Listed core.deleteList thread
  | .poolList, thread => core.Listed core.poolThreads thread
  | .terminated, thread => core.Ended thread ∧ core.flags thread &&& threadFlagDetached = 0

def IsQueue (core : Core) (head last : Nat) (threads : List Nat) : Prop :=
  Chain core.queueNext head threads ∧ threads.Nodup ∧
    ∀ front back, threads = front ++ [back] → last = back

structure Consistent (core : Core) : Prop where
  places : ∀ thread ∈ core.slots, thread ≠ core.cleanupThread → ∃! place, core.At place thread
  created : ∀ thread ∈ core.created, thread ∈ core.slots
  cleanup : ∀ place, core.At place core.cleanupThread ↔ place = .running ∧ core.control = .cleanup
  ready : ∃ threads, core.IsQueue core.readyThreads core.lastReadyThread threads ∧
    core.queued = core.ran ++ threads
  condWait : ∃ threads, core.IsQueue core.condWaitThreads core.condWaitLastThread threads ∧
    ∀ thread ∈ threads, core.waitConditions thread ≠ 0
  returns : ∀ label, core.Enabled label → ∃ after, core.call label = some after

def held (core : Core) : List Nat :=
  match core.control with
  | .thread thread => [thread, core.cleanupThread]
  | _ => [core.cleanupThread]

structure Tracked (core : Core) : Prop where
  placed : ∃ lists, Placed core .none lists core.held
  created : ∀ thread ∈ core.held, thread ∈ core.created
  cleanup : core.state core.cleanupThread =
    if core.control = .cleanup then .running else .ready
  running : ∀ thread, core.control = .thread thread →
    core.state thread = .running ∧ core.queueNext thread = 0
  frames : ∀ thread target, core.waitFrames thread = some target → target ∈ core.created

namespace Tracked

variable {core after : Core} {thread : Nat}

theorem cleanup_held (core : Core) : core.cleanupThread ∈ core.held := by
  unfold held
  split <;> simp

theorem held_running (running : core.control = .thread thread) :
    core.held = [thread, core.cleanupThread] := by
  unfold held
  rw [running]

theorem held_idle (idle : ∀ thread, core.control ≠ .thread thread) :
    core.held = [core.cleanupThread] := by
  unfold held
  split
  · next running => exact absurd running (idle _)
  · rfl

theorem held_alive (tracked : core.Tracked) : ∀ held ∈ core.held, core.state held ≠ .terminated := by
  have cleanup : core.state core.cleanupThread ≠ .terminated := by
    rw [tracked.cleanup]
    split <;> decide
  intro other member
  unfold held at member
  cases running : core.control with
  | thread thread =>
      rw [running] at member
      rcases List.mem_cons.mp member with same | same
      · rw [same, (tracked.running thread running).1]
        decide
      · rw [List.mem_singleton.mp same]
        exact cleanup
  | boot | scheduler | cleanup | dispatch =>
      rw [running] at member
      rw [List.mem_singleton.mp member]
      exact cleanup

theorem of_keeps (tracked : core.Tracked) {lists : ListKey → List Nat}
    (placed : Placed after .none lists core.held) (keeps : core.Keeps after core.held) :
    after.Tracked := by
  have sameHeld : after.held = core.held := by
    unfold held
    rw [keeps.control, keeps.cleanupThread]
  constructor
  · exact ⟨lists, sameHeld ▸ placed⟩
  · intro thread member
    rw [sameHeld] at member
    exact keeps.created thread (tracked.created thread member)
  · rw [keeps.control, keeps.cleanupThread, keeps.state _ (cleanup_held core)]
    exact tracked.cleanup
  · intro thread running
    rw [keeps.control] at running
    have member : thread ∈ core.held := by
      unfold held
      rw [running]
      exact List.mem_cons_self
    rw [keeps.state thread member, keeps.queueNext thread member]
    exact tracked.running thread running
  · intro thread target frame
    exact keeps.created target (tracked.frames thread target (keeps.waitFrames thread target frame))

theorem createThread (tracked : core.Tracked) (init : ThreadInit) {page : Nat}
    (fresh : core.poolThreads = 0 → core.FreshPage page) :
    ∃ thread after, core.createThread init page = some (thread, after) ∧ after.Tracked := by
  by_cases missing : init.ring0StackPage = 0 ∨ init.ring0StackBase = 0 ∨ init.entryPoint = 0
  · refine ⟨0, core, ?_, tracked⟩
    unfold Core.createThread
    rw [if_pos missing]
  · obtain ⟨lists, placed⟩ := tracked.placed
    obtain ⟨thread, after, lists', ran, moved, keeps, -⟩ := placed.createThread fresh missing
    exact ⟨thread, after, ran, tracked.of_keeps moved keeps⟩

theorem detachThread (tracked : core.Tracked) (pointer : core.Pointer thread) :
    (core.detachThread thread).Tracked := by
  obtain ⟨lists, placed⟩ := tracked.placed
  obtain ⟨lists', moved, keeps⟩ :=
    placed.detachThread pointer tracked.held_alive (cleanup_held core)
  exact tracked.of_keeps moved keeps

theorem signalCondition (tracked : core.Tracked) (condition : Nat) :
    (core.signalCondition condition).Tracked := by
  obtain ⟨lists, placed⟩ := tracked.placed
  apply tracked.of_keeps (placed.retag _ _ _ _ _)
  exact ⟨rfl, rfl, fun _ member => member, fun _ _ frame => frame, fun _ _ => rfl, fun _ _ => rfl⟩

/-- The running thread goes where its state says, and the scheduler has the core. -/
theorem leave {middle : Core} (tracked : core.Tracked) (running : core.control = .thread thread)
    {lists : ListKey → List Nat} (placed : Placed middle .none lists core.held)
    (leaves : middle.Leaves thread) (cleanup : middle.cleanupThread = core.cleanupThread)
    (created : middle.created = core.created)
    (states : ∀ other, other ≠ thread → middle.state other = core.state other)
    (frames : ∀ other target, middle.waitFrames other = some target → target ∈ core.created) :
    ∃ after, middle.yieldThread thread = some after ∧ after.Tracked := by
  have isCreated : thread ∈ middle.created := by
    rw [created]
    apply tracked.created
    rw [held_running running]
    exact List.mem_cons_self
  rw [held_running running] at placed
  have notCleanup : core.cleanupThread ≠ thread := fun same =>
    (List.nodup_cons.mp placed.handsNodup).1 (same ▸ List.mem_cons_self)
  obtain ⟨after, lists', ran, moved, keeps, -, -⟩ :=
    placed.afterSwitch isCreated (by rw [cleanup]; exact notCleanup.symm) leaves
  have sameCleanup := keeps.cleanupThread.trans cleanup
  refine ⟨{ after with control := .scheduler }, ?_, ?_⟩
  · rw [yieldThread, ran]
    rfl
  · constructor
    · refine ⟨lists', ?_⟩
      change Placed _ _ _ [after.cleanupThread]
      rw [sameCleanup]
      exact moved.retag _ _ _ _ _
    · intro other member
      have same : other = core.cleanupThread := (List.mem_singleton.mp member).trans sameCleanup
      rw [same]
      apply keeps.created
      rw [created]
      exact tracked.created _ (cleanup_held core)
    · change after.state after.cleanupThread = .ready
      rw [sameCleanup, keeps.state _ List.mem_cons_self, states _ notCleanup, tracked.cleanup,
        running]
      rfl
    · exact nofun
    · intro other target frame
      apply keeps.created
      rw [created]
      exact frames other target (keeps.waitFrames other target frame)

theorem yieldThread (tracked : core.Tracked) (running : core.control = .thread thread) :
    ∃ after, core.yieldThread thread = some after ∧ after.Tracked := by
  obtain ⟨lists, placed⟩ := tracked.placed
  exact tracked.leave running placed (Or.inr (Or.inr (Or.inl (tracked.running thread running))))
    rfl rfl (fun _ _ => rfl) tracked.frames

theorem waitCondition (tracked : core.Tracked) (running : core.control = .thread thread)
    (condition : Nat) (waitFrames : Nat → Option Nat)
    (frames : ∀ other target, waitFrames other = some target → target ∈ core.created) :
    ∃ after, Core.waitCondition { core with waitFrames } thread condition = some after ∧
      after.Tracked := by
  obtain ⟨lists, placed⟩ := tracked.placed
  have framed : Placed { core with waitFrames } .none lists core.held := placed.retag _ _ _ _ _
  unfold Core.waitCondition
  by_cases waits : Core.mustWait { core with waitFrames } condition
  · rw [if_pos waits]
    have state : Function.update core.state thread ThreadState.condWait thread = .condWait :=
      Function.update_self _ _ _
    have waiting : Function.update core.waitConditions thread condition thread ≠ 0 := by
      rw [Function.update_self]
      exact waits.1
    have held : thread ∈ core.held := by
      rw [held_running running]
      exact List.mem_cons_self
    have marked : Placed { core with
        waitFrames
        waitConditions := Function.update core.waitConditions thread condition
        state := Function.update core.state thread .condWait } .none lists core.held := by
      apply framed.update held
      · exact ⟨rfl, fun _ _ => Iff.rfl, fun other different => Function.update_of_ne different _ _,
          fun _ _ => rfl, fun other different => Function.update_of_ne different _ _⟩
      · exact fun _ _ => rfl
      · funext key
        cases key <;> rfl
      · rfl
      · exact framed.fifo
      · exact fun ended => absurd (state.symm.trans ended.2) (by decide)
    exact tracked.leave running marked (Or.inr (Or.inl ⟨state, waiting⟩)) rfl rfl
      (fun other different => Function.update_of_ne different _ _) frames
  · rw [if_neg waits]
    refine ⟨_, rfl, ?_⟩
    exact ⟨⟨lists, framed⟩, tracked.created, tracked.cleanup, tracked.running, frames⟩

theorem finishWaitThread (tracked : core.Tracked) (running : core.control = .thread thread)
    {target : Nat} (created : target ∈ core.created) :
    (core.finishWaitThread thread target).2.Tracked := by
  obtain ⟨lists, placed⟩ := tracked.placed
  have held : thread ∈ core.held := by
    rw [held_running running]
    exact List.mem_cons_self
  have cleared : Placed { core with
      waitConditions := Function.update core.waitConditions thread 0
      waitFrames := Function.update core.waitFrames thread none } .none lists core.held := by
    apply placed.update held
    · exact ⟨rfl, fun _ _ => Iff.rfl, fun _ _ => rfl, fun _ _ => rfl,
        fun other different => Function.update_of_ne different _ _⟩
    · exact fun _ _ => rfl
    · funext key
      cases key <;> rfl
    · rfl
    · exact placed.fifo
    · exact placed.undetached thread
  have popped : ∀ other target, Function.update core.waitFrames thread none other = some target →
      core.waitFrames other = some target := by
    intro other target frame
    by_cases same : other = thread
    · simp [same] at frame
    · simpa [same] using frame
  refine detachThread (tracked.of_keeps cleared ?_) (Or.inr created)
  exact ⟨rfl, rfl, fun _ member => member, popped, fun _ _ => rfl, fun _ _ => rfl⟩

theorem waitThread (tracked : core.Tracked) (running : core.control = .thread thread)
    {target : Nat} (pointer : core.Pointer target) :
    ∃ result after, core.waitThread thread target = some (result, after) ∧ after.Tracked := by
  unfold Core.waitThread
  by_cases valid : core.valid target ∧ thread ≠ target
  · rw [if_pos valid]
    have created : target ∈ core.created := pointer.resolve_left valid.1.1
    by_cases detached : core.flags target &&& threadFlagDetached ≠ 0
    · rw [if_pos detached]
      exact ⟨_, core, rfl, tracked⟩
    · rw [if_neg detached]
      by_cases waits : core.state target ≠ .terminated ∧ core.mustWait (threadCondition target)
      · rw [if_pos waits]
        have frames : ∀ other frame,
            Function.update core.waitFrames thread (some target) other = some frame →
            frame ∈ core.created := by
          intro other frame found
          by_cases same : other = thread
          · rw [same, Function.update_self] at found
            exact Option.some_inj.mp found ▸ created
          · rw [Function.update_of_ne same] at found
            exact tracked.frames other frame found
        obtain ⟨after, ran, moved⟩ :=
          tracked.waitCondition running (threadCondition target) _ frames
        refine ⟨none, after, ?_, moved⟩
        rw [ran]
        rfl
      · rw [if_neg waits]
        exact ⟨_, _, rfl, tracked.finishWaitThread running created⟩
  · rw [if_neg valid]
    exact ⟨_, core, rfl, tracked⟩

theorem terminateThread (tracked : core.Tracked) (running : core.control = .thread thread)
    (returnValue : Nat) :
    ∃ after, core.terminateThread thread returnValue = some after ∧ after.Tracked := by
  obtain ⟨lists, placed⟩ := tracked.placed
  have held : thread ∈ core.held := by
    rw [held_running running]
    exact List.mem_cons_self
  have marked : ∀ state, (state = .terminated → core.flags thread &&& threadFlagDetached = 0) →
      Placed (core.setState thread state) .none lists core.held := by
    intro state unflagged
    have isState : (core.setState thread state).state thread = state := Function.update_self _ _ _
    apply placed.update held
    · exact agree_of_state rfl rfl rfl rfl rfl
    · exact fun _ _ => rfl
    · funext key
      cases key <;> rfl
    · rfl
    · exact placed.fifo
    · exact fun ended => unflagged (isState.symm.trans ended.2)
  unfold Core.terminateThread
  by_cases detached : core.flags thread &&& threadFlagDetached ≠ 0
  · simp only [detached, ne_eq, not_false_eq_true, if_true]
    apply tracked.leave running ((marked .detached nofun).retag _ _ _ _ _)
    · exact Or.inl (Function.update_self _ _ _)
    · rfl
    · rfl
    · exact fun other different => Function.update_of_ne different _ _
    · exact tracked.frames
  · simp only [detached, if_false]
    apply tracked.leave running
      ((marked .terminated fun _ => not_not.mp detached).retag _ _ _ _ _)
    · refine Or.inr (Or.inr (Or.inr ⟨?_, Function.update_self _ _ _⟩))
      exact tracked.created thread held
    · rfl
    · rfl
    · exact fun other different => Function.update_of_ne different _ _
    · exact tracked.frames

theorem wakeThreads (tracked : core.Tracked) (control : core.control = .scheduler) :
    ∃ after, core.wakeThreads = some after ∧ after.Tracked := by
  obtain ⟨lists, placed⟩ := tracked.placed
  have sameHeld : core.held = [core.cleanupThread] := held_idle (by simp [control])
  obtain ⟨woken, lists', ran, moved, keeps, -⟩ := placed.wakeThreads (cleanup_held core)
  refine ⟨_, ran, ?_⟩
  rw [sameHeld] at moved keeps
  have cleanupSame := keeps.cleanupThread
  constructor
  · refine ⟨lists', ?_⟩
    change Placed _ _ _ [woken.cleanupThread]
    rw [cleanupSame]
    exact moved.switchTo List.mem_cons_self _
  · intro other member
    have same : other = core.cleanupThread := (List.mem_singleton.mp member).trans cleanupSame
    rw [same]
    exact keeps.created _ (tracked.created _ (cleanup_held core))
  · exact Function.update_self _ _ _
  · exact nofun
  · intro other target frame
    exact keeps.created target (tracked.frames other target (keeps.waitFrames other target frame))

theorem cleanupThreads (tracked : core.Tracked) (control : core.control = .cleanup) :
    ∃ after, core.cleanupThreads = some after ∧ after.Tracked := by
  obtain ⟨lists, placed⟩ := tracked.placed
  have sameHeld : core.held = [core.cleanupThread] := held_idle (by simp [control])
  obtain ⟨cleaned, lists', ran, moved, keeps, -⟩ := placed.cleanupThreads
  refine ⟨_, ran, ?_⟩
  rw [sameHeld] at moved keeps
  have cleanupSame := keeps.cleanupThread
  have isReady : (cleaned.setState cleaned.cleanupThread .ready).state cleaned.cleanupThread =
      .ready := Function.update_self _ _ _
  have stopped : Placed (cleaned.setState cleaned.cleanupThread .ready) .none lists'
      [core.cleanupThread] := by
    rw [cleanupSame] at isReady ⊢
    apply moved.update List.mem_cons_self
    · exact agree_of_state rfl rfl rfl rfl rfl
    · exact fun _ _ => rfl
    · funext key
      cases key <;> rfl
    · rfl
    · exact moved.fifo
    · exact fun ended => absurd (isReady.symm.trans ended.2) (by decide)
  constructor
  · refine ⟨lists', ?_⟩
    change Placed _ _ _ [cleaned.cleanupThread]
    rw [cleanupSame] at stopped ⊢
    exact stopped.retag _ _ _ _ _
  · intro other member
    have same : other = core.cleanupThread := (List.mem_singleton.mp member).trans cleanupSame
    rw [same]
    exact keeps.created _ (tracked.created _ (cleanup_held core))
  · exact isReady
  · exact nofun
  · intro other target frame
    exact keeps.created target (tracked.frames other target (keeps.waitFrames other target frame))

theorem dispatchThread (tracked : core.Tracked) (control : core.control = .dispatch) :
    core.dispatchThread.Tracked := by
  obtain ⟨lists, placed⟩ := tracked.placed
  have sameHeld : core.held = [core.cleanupThread] := held_idle (by simp [control])
  have wasReady : core.state core.cleanupThread = .ready := by
    rw [tracked.cleanup, control]
    rfl
  have cleanupCreated := tracked.created _ (cleanup_held core)
  rw [sameHeld] at placed
  by_cases null : core.readyThreads = 0
  · obtain ⟨moved, keeps⟩ := placed.dispatch_empty null
    have cleanupSame := keeps.cleanupThread
    have ready := (keeps.state _ List.mem_cons_self).trans wasReady
    have frames := keeps.waitFrames
    unfold Core.dispatchThread at *
    rw [if_neg (not_not_intro null)] at *
    constructor
    · exact ⟨lists, moved⟩
    · intro other member
      exact (List.mem_singleton.mp member) ▸ cleanupCreated
    · exact ready
    · exact nofun
    · exact fun other target frame => tracked.frames other target (frames other target frame)
  · obtain ⟨lists', moved, keeps, created⟩ := placed.dispatch_ready null
    have cleanupSame := keeps.cleanupThread
    have ready := (keeps.state _ List.mem_cons_self).trans wasReady
    have frames := keeps.waitFrames
    unfold Core.dispatchThread at *
    rw [if_pos null] at *
    constructor
    · exact ⟨lists', moved⟩
    · intro other member
      rcases List.mem_cons.mp member with same | same
      · exact same ▸ created
      · exact (List.mem_singleton.mp same) ▸ cleanupCreated
    · exact ready
    · intro thread running
      cases running
      exact ⟨Function.update_self _ _ _, Function.update_self _ _ _⟩
    · exact fun other target frame => tracked.frames other target (frames other target frame)

theorem start (initial : schedulerMachine.start core) : core.Tracked := by
  obtain ⟨boot, init, page, atBoot, fresh, complete, ran⟩ := initial
  obtain ⟨noReady, noWait, noDelete, noPool, noPages, noneCreated, noneQueued, noneRan, atBoot,
    noFrames⟩ := atBoot
  have noSlots : boot.slots = [] := by
    unfold slots
    rw [noPages]
    rfl
  have empty : Placed boot .none (fun _ => []) [] := by
    constructor
    · constructor
      · intro key
        cases key <;> first | assumption | exact rfl
      · exact fun _ => List.nodup_nil
      · intro key other thread _ listed
        cases listed
    · intro key _ front last listed
      simp at listed
    · intro key thread listed
      cases listed
    · exact List.nodup_nil
    · intro thread held
      cases held
    · rw [noSlots]
      intro thread slot
      cases slot
    · rw [noneCreated]
      intro thread created
      cases created
    · rintro thread ⟨created, -⟩
      rw [noneCreated] at created
      cases created
    · rw [noPages]
      refine ⟨List.nodup_nil, ?_⟩
      intro page member
      cases member
    · rw [noneQueued, noneRan]
      rfl
  obtain ⟨thread, made, lists, created, placed, keeps, isCreated, order, others, -⟩ :=
    empty.createThread (fun _ => fresh) complete
  have member : thread ∈ lists .ready := by
    rw [order]
    exact List.mem_cons_self
  have ready := (placed.listed .ready thread member).2.2.2
  have noDeleted : made.deleteList = 0 := by
    have chain := placed.queues.chain .delete
    rw [others .delete (by decide) (by decide)] at chain
    exact chain
  have alone : made.queueNext thread = 0 := by
    have chain := placed.queues.chain .ready
    rw [order] at chain
    exact chain.2.2
  have taken : Placed { made with readyThreads := 0, queued := [], ran := [] } .none
      (Function.update lists .ready []) [thread] := by
    apply placed.take order
    · exact Agree.refl thread rfl rfl rfl rfl rfl
    · rfl
    · rw [alone]
      funext key
      cases key <;> rfl
    · rfl
    · rfl
    · exact placed.undetached thread
  have unlinked : Placed { made.setQueueNext thread 0 with
      readyThreads := 0, deleteList := 0, queued := [], ran := [] } .none
      (Function.update lists .ready []) [thread] := by
    apply taken.update List.mem_cons_self
    · exact Agree.refl thread rfl rfl rfl rfl rfl
    · exact fun other different => Function.update_of_ne different _ _
    · funext key
      cases key <;> first | rfl | exact noDeleted.symm
    · rfl
    · rfl
    · exact taken.undetached thread
  rw [Core.init, created, Option.map_some, Option.some_inj] at ran
  subst ran
  have control : made.control = .boot := keeps.control.trans atBoot
  constructor
  · refine ⟨Function.update lists .ready [], ?_⟩
    rw [held_idle (by simp [setQueueNext, control])]
    exact (unlinked.setLast rfl 0).retag _ _ _ thread _
  · rw [held_idle (by simp [setQueueNext, control])]
    intro other same
    exact (List.mem_singleton.mp same) ▸ isCreated
  · simp only [setQueueNext, control]
    exact ready
  · intro other running
    cases control.symm.trans running
  · intro other target frame
    cases (noFrames other).symm.trans (keeps.waitFrames other target frame)

/-- Every call that may be made returns and keeps the invariant. -/
theorem call (tracked : core.Tracked) {label : SchedulerCall} (enabled : core.Enabled label) :
    ∃ after, core.call label = some after ∧ after.Tracked := by
  have current : ∀ {thread}, core.control = .thread thread → core.current = thread := by
    intro thread running
    unfold Core.current
    rw [running]
  cases label with
  | createThread init page =>
      obtain ⟨thread, after, ran, moved⟩ := tracked.createThread init enabled.2
      exact ⟨after, by rw [Core.call, ran]; rfl, moved⟩
  | detachThread thread => exact ⟨_, rfl, tracked.detachThread enabled.2⟩
  | waitThread thread =>
      obtain ⟨⟨caller, running, -⟩, pointer⟩ := enabled
      obtain ⟨result, after, ran, moved⟩ := tracked.waitThread running pointer
      exact ⟨after, by rw [Core.call, current running, ran]; rfl, moved⟩
  | finishWaitThread =>
      obtain ⟨caller, target, running, frame⟩ := enabled
      refine ⟨_, ?_, tracked.finishWaitThread running (tracked.frames caller target frame)⟩
      rw [Core.call, current running, frame]
      rfl
  | waitCondition condition =>
      obtain ⟨caller, running, -⟩ := enabled
      rw [Core.call, current running]
      exact tracked.waitCondition running condition core.waitFrames tracked.frames
  | signalCondition condition => exact ⟨_, rfl, tracked.signalCondition condition⟩
  | yieldThread =>
      obtain ⟨caller, running⟩ := enabled
      rw [Core.call, current running]
      exact tracked.yieldThread running
  | terminateThread returnValue =>
      obtain ⟨caller, running, -⟩ := enabled
      rw [Core.call, current running]
      exact tracked.terminateThread running returnValue
  | runScheduler =>
      have booting : core.control = .boot := enabled
      obtain ⟨lists, placed⟩ := tracked.placed
      rw [held_idle (by simp [booting])] at placed
      have created := tracked.created _ (cleanup_held core)
      have cleanup := tracked.cleanup
      rw [booting] at cleanup
      refine ⟨_, rfl, ⟨⟨lists, placed.retag _ _ _ _ _⟩, fun other same => ?_, cleanup, nofun,
        tracked.frames⟩⟩
      exact (List.mem_singleton.mp same) ▸ created
  | wakeThreads => exact tracked.wakeThreads enabled
  | cleanupThreads => exact tracked.cleanupThreads enabled
  | dispatchThread => exact ⟨_, rfl, tracked.dispatchThread enabled⟩

theorem at_list {lists : ListKey → List Nat} (placed : Placed core .none lists core.held)
    {place : Place} {key : ListKey} (named : place.key = some key) (thread : Nat) :
    core.At place thread ↔ thread ∈ lists key := by
  have listed : ∀ key, core.Listed (core.heads .none key) thread ↔ thread ∈ lists key := by
    intro key
    have chain := placed.queues.chain key
    constructor
    · rintro ⟨threads, other, member⟩
      exact chain.unique other ▸ member
    · exact fun member => ⟨lists key, chain, member⟩
  cases place with
  | readyList => exact Option.some_inj.mp named ▸ listed .ready
  | condWaitList => exact Option.some_inj.mp named ▸ listed .condWait
  | deleteList => exact Option.some_inj.mp named ▸ listed .delete
  | poolList => exact Option.some_inj.mp named ▸ listed .pool
  | running => cases named
  | terminated => cases named

theorem held_of_running (running : core.At .running thread) : thread ∈ core.held := by
  rcases running with control | ⟨-, same⟩
  · rw [held_running control]
    exact List.mem_cons_self
  · exact same ▸ cleanup_held core

theorem place_of_listed {lists : ListKey → List Nat} (placed : Placed core .none lists core.held)
    {key : ListKey} (member : thread ∈ lists key) {place : Place} (here : core.At place thread) :
    place.key = some key := by
  obtain ⟨-, free, fits⟩ := placed.listed key thread member
  cases named : place.key with
  | some other =>
      have inOther := (at_list placed named thread).mp here
      by_cases same : other = key
      · exact congrArg some same
      · exact absurd member (placed.queues.apart other key same thread inOther)
  | none =>
      cases place with
      | running => exact absurd (held_of_running here) free
      | terminated => exact absurd here.1 fits.not_ended
      | readyList | condWaitList | deleteList | poolList => cases named

theorem place_of_unlisted {lists : ListKey → List Nat}
    (placed : Placed core .none lists core.held) (unlisted : ∀ key, thread ∉ lists key)
    {place : Place} (here : core.At place thread) : place = .running ∨ place = .terminated := by
  cases named : place.key with
  | some key => exact absurd ((at_list placed named thread).mp here) (unlisted key)
  | none => cases place <;> simp_all [Place.key]

theorem exists_place (tracked : core.Tracked) (slot : thread ∈ core.slots)
    (notCleanup : thread ≠ core.cleanupThread) : ∃! place, core.At place thread := by
  obtain ⟨lists, placed⟩ := tracked.placed
  rcases placed.covered thread slot with held | ⟨key, member⟩ | ended
  · have running : core.At .running thread := by
      cases control : core.control with
      | thread current =>
          rw [held_running control] at held
          rcases List.mem_cons.mp held with same | same
          · exact Or.inl (same ▸ control)
          · exact absurd (List.mem_singleton.mp same) notCleanup
      | boot | scheduler | cleanup | dispatch =>
          rw [held_idle (by simp [control])] at held
          exact absurd (List.mem_singleton.mp held) notCleanup
    refine ⟨.running, running, fun place here => ?_⟩
    rcases place_of_unlisted placed (placed.unlisted held) here with same | same
    · exact same
    · subst same
      exact absurd here.1.2 (tracked.held_alive thread held)
  · have named : ∃ place : Place, place.key = some key := by
      cases key with
      | ready => exact ⟨.readyList, rfl⟩
      | condWait => exact ⟨.condWaitList, rfl⟩
      | delete => exact ⟨.deleteList, rfl⟩
      | pool => exact ⟨.poolList, rfl⟩
      | waiting | resume | deleted =>
          rw [placed.nil_of_head rfl] at member
          cases member
    obtain ⟨place, named⟩ := named
    refine ⟨place, (at_list placed named thread).mpr member, fun other here => ?_⟩
    exact Place.key_inj (place_of_listed placed member here) named
  · refine ⟨.terminated, ⟨ended, placed.undetached thread ended⟩, fun place here => ?_⟩
    rcases place_of_unlisted placed (placed.ended_unlisted ended) here with same | same
    · subst same
      exact absurd ended.2 (tracked.held_alive thread (held_of_running here))
    · exact same

theorem consistent (tracked : core.Tracked) : core.Consistent := by
  obtain ⟨lists, placed⟩ := tracked.placed
  constructor
  · exact fun thread slot notCleanup => tracked.exists_place slot notCleanup
  · exact placed.created
  · intro place
    have held := cleanup_held core
    constructor
    · intro here
      rcases place_of_unlisted placed (placed.unlisted held) here with same | same
      · subst same
        refine ⟨rfl, ?_⟩
        rcases here with control | ⟨control, -⟩
        · have nodup := placed.handsNodup
          rw [held_running control] at nodup
          exact absurd List.mem_cons_self (List.nodup_cons.mp nodup).1
        · exact control
      · subst same
        exact absurd here.1.2 (tracked.held_alive _ held)
    · rintro ⟨same, control⟩
      exact same ▸ Or.inr ⟨control, rfl⟩
  · exact ⟨lists .ready, ⟨placed.queues.chain .ready, placed.queues.nodup .ready,
      placed.tails .ready (Or.inl rfl)⟩, placed.fifo⟩
  · refine ⟨lists .condWait, ⟨placed.queues.chain .condWait, placed.queues.nodup .condWait,
      placed.tails .condWait (Or.inr rfl)⟩, fun thread member => ?_⟩
    exact (placed.listed .condWait thread member).2.2.2.2
  · intro label enabled
    obtain ⟨after, ran, -⟩ := tracked.call enabled
    exact ⟨after, ran⟩

end Tracked

end Core

theorem scheduler_tracked {core : Core} (reachable : schedulerMachine.Reachable core) :
    core.Tracked := by
  apply Machine.invariant schedulerMachine _ _ reachable
  · intro state initial
    exact Core.Tracked.start initial
  · intro before label after tracked step
    obtain ⟨enabled, ran⟩ := step
    obtain ⟨expected, ran', moved⟩ := tracked.call enabled
    exact Option.some_inj.mp (ran'.symm.trans ran) ▸ moved

/-- Every slot but the cleanup thread's is in exactly one place, and the queues are queues. -/
theorem scheduler_conserves (core : Core) (reachable : schedulerMachine.Reachable core) :
    core.Consistent :=
  (scheduler_tracked reachable).consistent

def bootCore : Core where
  queueNext _ := 0
  state _ := .condWait
  flags _ := 0
  returnData _ := 0
  waitConditions _ := 0
  conditions _ := 0
  waitFrames _ := none
  readyThreads := 0
  lastReadyThread := 0
  condWaitThreads := 0
  condWaitLastThread := 0
  deleteList := 0
  poolThreads := 0
  poolPages := []
  cleanupThread := 0
  control := .boot
  created := []
  queued := []
  ran := []

/-- `bootCore` after `k_proc_Init`, with its first thread page at 4 KiB. -/
def initCore : Core := (bootCore.init ⟨1, 1, 1⟩ 4096).get (by decide)

theorem initCore_starts : schedulerMachine.start initCore := by
  have made : bootCore.init ⟨1, 1, 1⟩ 4096 = some initCore := (Option.some_get _).symm
  refine ⟨bootCore, ⟨1, 1, 1⟩, 4096, ?_, ?_, by decide, made⟩
  · exact ⟨rfl, rfl, rfl, rfl, rfl, rfl, rfl, rfl, rfl, fun _ => rfl⟩
  · exact ⟨by decide, by decide, List.not_mem_nil⟩

theorem scheduler_reaches_loop :
    schedulerMachine.Reachable { initCore with control := .scheduler } := by
  have step : schedulerMachine.step initCore .runScheduler { initCore with control := .scheduler } :=
    ⟨show initCore.control = .boot by decide, rfl⟩
  exact Machine.reachable_step _ (Machine.reachable_start _ initCore_starts) step

def createdCore : Core :=
  (Machine.follow Core.call initCore
    [.createThread ⟨1, 1, 1⟩ 0, .createThread ⟨1, 1, 1⟩ 0]).getD initCore

theorem createdCore_reachable : schedulerMachine.Reachable createdCore := by
  refine ⟨initCore, initCore_starts, ?_⟩
  refine .head ⟨.createThread ⟨1, 1, 1⟩ 0, ⟨.inl (by decide), fun null => absurd null (by decide)⟩,
    rfl⟩ ?_
  exact .single ⟨.createThread ⟨1, 1, 1⟩ 0,
    ⟨.inl (by decide), fun null => absurd null (by decide)⟩, rfl⟩

def joiningCore : Core :=
  (Machine.follow Core.call createdCore
    [.runScheduler, .wakeThreads, .cleanupThreads, .dispatchThread, .waitThread 4392]).getD createdCore

theorem joiningCore_reachable : schedulerMachine.Reachable joiningCore := by
  obtain ⟨first, initial, created⟩ := createdCore_reachable
  refine ⟨first, initial, created.trans ?_⟩
  refine .head ⟨.runScheduler, show createdCore.control = .boot by decide, rfl⟩ ?_
  refine .head ⟨.wakeThreads, rfl, rfl⟩ ?_
  refine .head ⟨.cleanupThreads, rfl, rfl⟩ ?_
  refine .head ⟨.dispatchThread, rfl, rfl⟩ ?_
  exact .single ⟨.waitThread 4392, ⟨⟨4248, rfl, rfl⟩, .inr (by decide)⟩, rfl⟩

theorem scheduler_conserves_join : joiningCore.Consistent ∧ joiningCore.condWaitThreads = 4248 ∧
    joiningCore.readyThreads = 4392 :=
  ⟨scheduler_conserves joiningCore joiningCore_reachable, by decide, by decide⟩

/-- At the top of the loop the cleanup thread's slot is in none of the places. -/
theorem cleanupThread_in_no_place : ∃ core, schedulerMachine.Reachable core ∧
    core.control = .scheduler ∧ core.cleanupThread = 4104 ∧ core.cleanupThread ∈ core.created ∧
      ∀ place, ¬ core.At place core.cleanupThread := by
  refine ⟨_, scheduler_reaches_loop, rfl, by decide, by decide, fun place here => ?_⟩
  have consistent := (scheduler_tracked scheduler_reaches_loop).consistent
  cases ((consistent.cleanup place).mp here).2

end DoggOS.Proc

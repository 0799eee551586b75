/-
What each thread knows at each of its statements.

`Progress` says what the state of a thread may be at each of its statements: a
thread that is about to give up the core for a condition either waits for that
condition on its list or has been resumed, and then the condition was set in
some state since its call.  `Evolves` is all that the rest of the system can do
to a thread, and `Progress` survives it.
-/

import DoggOS.Proc.ThreadPointViews

namespace DoggOS.Proc

def Caller.target : Caller → Option Nat
  | .waitCondition _ target => target
  | _ => none

def Point.target : Point → Option Nat
  | .testCondition _ target | .setWaitCondition _ target | .setCondWait _ target => target
  | .yieldThread caller | .setNextThread caller | .switchToThread caller | .returning caller =>
      caller.target
  | .finishWait thread => some thread
  | _ => none

namespace Core

def Alive (core : Core) (thread : Nat) : Prop :=
  core.state thread = .running ∨ core.state thread = .ready

def Stopped (core : Core) (thread : Nat) : Prop :=
  core.state thread = .terminated ∨ core.state thread = .detached

def Evolves (core after : Core) (thread : Nat) : Prop :=
  after.waitConditions thread = core.waitConditions thread ∧
    (after.state thread = core.state thread ∨ core.Alive thread ∧ after.Alive thread ∨
      core.state thread = .condWait ∧ after.state thread = .ready ∧
        after.conditions (core.waitConditions thread) ≠ 0 ∨
      core.state thread = .terminated ∧ after.state thread = .detached ∨
      after.state thread = .invalid)

variable {core after : Core} {thread : Nat}

theorem Evolves.of_same (state : after.state thread = core.state thread)
    (waits : after.waitConditions thread = core.waitConditions thread) :
    core.Evolves after thread :=
  ⟨waits, Or.inl state⟩

theorem Alive.evolves (alive : core.Alive thread) (evolves : core.Evolves after thread)
    (valid : after.state thread ≠ .invalid) : after.Alive thread := by
  obtain ⟨-, same | alive' | waits | ended | invalid⟩ := evolves
  · unfold Alive at *
    rwa [same]
  · exact alive'.2
  · exact Or.inr waits.2.1
  · rcases alive with running | ready
    · exact absurd (running.symm.trans ended.1) (by decide)
    · exact absurd (ready.symm.trans ended.1) (by decide)
  · exact absurd invalid valid

theorem Stopped.evolves (stopped : core.Stopped thread) (evolves : core.Evolves after thread)
    (valid : after.state thread ≠ .invalid) : after.Stopped thread := by
  obtain ⟨-, same | alive | waits | ended | invalid⟩ := evolves
  · unfold Stopped at *
    rwa [same]
  · rcases stopped with old | old <;> rcases alive.1 with new | new <;>
      exact absurd (old.symm.trans new) (by decide)
  · rcases stopped with old | old <;> exact absurd (old.symm.trans waits.1) (by decide)
  · exact Or.inr ended.2
  · exact absurd invalid valid

theorem Evolves.valid_before (evolves : core.Evolves after thread)
    (valid : after.state thread ≠ .invalid) : core.state thread ≠ .invalid := by
  intro before
  obtain ⟨-, same | alive | waits | ended | invalid⟩ := evolves
  · exact valid (same.trans before)
  · rcases alive.1 with old | old <;> exact absurd (old.symm.trans before) (by decide)
  · exact absurd (waits.1.symm.trans before) (by decide)
  · exact absurd (ended.1.symm.trans before) (by decide)
  · exact valid invalid

end Core

namespace PointCore

def Seen (state : PointCore) (thread condition : Nat) : Prop :=
  ∃ words ∈ state.moments thread, words condition ≠ 0

def Yields (state : PointCore) (thread : Nat) : Caller → Prop
  | .thread => state.core.Alive thread
  | .waitCondition condition _ =>
      state.core.state thread = .condWait ∧ state.core.waitConditions thread = condition ∧
          condition ≠ 0 ∨
        state.core.Alive thread ∧ (condition = 0 ∨ state.Seen thread condition)
  | .terminateThread => state.core.Stopped thread

def Progress (state : PointCore) (thread : Nat) : Point → Prop
  | .setWaitCondition condition _ => state.core.Alive thread ∧ condition ≠ 0
  | .setCondWait condition _ => state.core.Alive thread ∧
      state.core.waitConditions thread = condition ∧ condition ≠ 0
  | .yieldThread caller | .setNextThread caller | .switchToThread caller | .returning caller =>
      state.Yields thread caller
  | .setReturnData _ | .signalCondition => state.core.Stopped thread
  | _ => state.core.Alive thread

structure Steady (state : PointCore) : Prop where
  tracked : state.core.plain.Tracked
  nextThread : state.nextThread = 0
  current : ∀ thread, state.core.control = .thread thread →
    state.core.state thread ≠ .ready ∧ state.core.state thread ≠ .invalid ∧
      ∀ caller, state.point thread = .returning caller → state.core.state thread = .running
  progress : ∀ thread ∈ state.core.created, state.core.state thread ≠ .invalid →
    state.Progress thread (state.point thread)
  targets : ∀ thread target, (state.point thread).target = some target →
    target ∈ state.core.created

variable {state after : PointCore} {thread : Nat}

section Progress

theorem Yields.evolves {caller : Caller} (yields : state.Yields thread caller)
    (evolves : state.core.Evolves after.core thread) (valid : after.core.state thread ≠ .invalid)
    (seen : ∀ condition, state.Seen thread condition ∨ after.core.conditions condition ≠ 0 →
      after.Seen thread condition) : after.Yields thread caller := by
  cases caller with
  | thread => exact Core.Alive.evolves yields evolves valid
  | terminateThread => exact Core.Stopped.evolves yields evolves valid
  | waitCondition condition target =>
      rcases yields with ⟨waits, recorded, nonNull⟩ | ⟨alive, set⟩
      · obtain ⟨kept, same | alive | ⟨-, ready, signalled⟩ | ended | invalid⟩ := evolves
        · exact Or.inl ⟨same.trans waits, kept.trans recorded, nonNull⟩
        · rcases alive.1 with old | old <;> exact absurd (waits.symm.trans old) (by decide)
        · rw [recorded] at signalled
          exact Or.inr ⟨Or.inr ready, Or.inr (seen condition (Or.inr signalled))⟩
        · exact absurd (waits.symm.trans ended.1) (by decide)
        · exact absurd invalid valid
      · refine Or.inr ⟨alive.evolves evolves valid, ?_⟩
        exact set.imp_right fun earlier => seen condition (Or.inl earlier)

theorem Progress.evolves {point : Point} (progress : state.Progress thread point)
    (evolves : state.core.Evolves after.core thread) (valid : after.core.state thread ≠ .invalid)
    (seen : ∀ condition, state.Seen thread condition ∨ after.core.conditions condition ≠ 0 →
      after.Seen thread condition) : after.Progress thread point := by
  cases point with
  | setWaitCondition condition target =>
      exact ⟨progress.1.evolves evolves valid, progress.2⟩
  | setCondWait condition target =>
      obtain ⟨alive, recorded, nonNull⟩ := progress
      exact ⟨alive.evolves evolves valid, evolves.1.trans recorded, nonNull⟩
  | yieldThread caller | setNextThread caller | switchToThread caller | returning caller =>
      exact Yields.evolves progress evolves valid seen
  | setReturnData returnValue | signalCondition =>
      exact Core.Stopped.evolves progress evolves valid
  | _ => exact Core.Alive.evolves progress evolves valid

theorem Progress.congr {point : Point} (progress : state.Progress thread point)
    (states : after.core.state thread = state.core.state thread)
    (waits : after.core.waitConditions thread = state.core.waitConditions thread)
    (moments : after.moments thread = state.moments thread) : after.Progress thread point := by
  have alive : state.core.Alive thread → after.core.Alive thread := by
    unfold Core.Alive
    rw [states]
    exact id
  have stopped : state.core.Stopped thread → after.core.Stopped thread := by
    unfold Core.Stopped
    rw [states]
    exact id
  have yields : ∀ caller, state.Yields thread caller → after.Yields thread caller := by
    intro caller old
    cases caller with
    | thread => exact alive old
    | terminateThread => exact stopped old
    | waitCondition condition target =>
        unfold Yields Seen at *
        rw [states, waits, moments]
        exact old.imp_right fun found => ⟨alive found.1, found.2⟩
  cases point with
  | setWaitCondition condition target => exact ⟨alive progress.1, progress.2⟩
  | setCondWait condition target =>
      exact ⟨alive progress.1, waits.trans progress.2.1, progress.2.2⟩
  | yieldThread caller | setNextThread caller | switchToThread caller | returning caller =>
      exact yields caller progress
  | setReturnData returnValue | signalCondition => exact stopped progress
  | _ => exact alive progress

theorem seen_note {middle : PointCore} (moments : middle.moments thread = state.moments thread)
    (condition : Nat) (seen : state.Seen thread condition ∨ middle.core.conditions condition ≠ 0) :
    middle.note.Seen thread condition := by
  rcases seen with ⟨words, member, set⟩ | set
  · exact ⟨words, List.mem_cons_of_mem _ (moments ▸ member), set⟩
  · exact ⟨middle.core.conditions, List.mem_cons_self, set⟩

/-- At every statement the thread is in a state that `k_proc_RunThread` knows how to queue. -/
theorem Progress.leaves {point : Point} (progress : state.Progress thread point)
    (created : thread ∈ state.core.created) (alone : state.core.queueNext thread = 0)
    (notReady : state.core.state thread ≠ .ready) : state.core.unflagged.Leaves thread := by
  have ofAlive : state.core.Alive thread → state.core.unflagged.Leaves thread :=
    fun alive => Or.inr (Or.inr (Or.inl ⟨alive.resolve_right notReady, alone⟩))
  have ofStopped : state.core.Stopped thread → state.core.unflagged.Leaves thread := by
    rintro (terminated | detached)
    · exact Or.inr (Or.inr (Or.inr ⟨created, terminated⟩))
    · exact Or.inl detached
  have ofYields : ∀ caller, state.Yields thread caller → state.core.unflagged.Leaves thread := by
    intro caller yields
    cases caller with
    | thread => exact ofAlive yields
    | terminateThread => exact ofStopped yields
    | waitCondition condition target =>
        rcases yields with ⟨waits, recorded, nonNull⟩ | ⟨alive, -⟩
        · exact Or.inr (Or.inl ⟨waits, fun null => nonNull (recorded.symm.trans null)⟩)
        · exact ofAlive alive
  cases point with
  | setWaitCondition condition target => exact ofAlive progress.1
  | setCondWait condition target => exact ofAlive progress.1
  | yieldThread caller | setNextThread caller | switchToThread caller | returning caller =>
      exact ofYields caller progress
  | setReturnData returnValue | signalCondition => exact ofStopped progress
  | _ => exact ofAlive progress

end Progress

namespace Steady

theorem held (steady : state.Steady) (control : state.core.control = .thread thread) :
    thread ∈ state.core.created ∧ state.core.queueNext thread = 0 ∧
      thread ≠ state.core.cleanupThread := by
  have running : state.core.plain.control = .thread thread :=
    (Core.plain_control _).trans control
  have member : thread ∈ state.core.plain.held := by
    rw [Core.Tracked.held_running running]
    exact List.mem_cons_self
  have created := steady.tracked.created thread member
  have alone := (steady.tracked.running thread running).2
  obtain ⟨lists, placed⟩ := steady.tracked.placed
  have nodup := placed.handsNodup
  rw [Core.Tracked.held_running running] at nodup
  rw [Core.plain_running control] at created alone nodup
  refine ⟨created, alone, fun same => ?_⟩
  exact (List.nodup_cons.mp nodup).1 (List.mem_singleton.mpr same)

theorem other (steady : state.Steady) {middle : PointCore}
    (created : thread ∈ state.core.created)
    (evolves : state.core.Evolves middle.core thread)
    (point : middle.point thread = state.point thread)
    (moments : middle.moments thread = state.moments thread)
    (valid : middle.core.state thread ≠ .invalid) :
    middle.note.Progress thread (middle.point thread) := by
  rw [point]
  have before := steady.progress thread created (evolves.valid_before valid)
  have after : middle.note.Progress thread (state.point thread) :=
    @Progress.evolves state middle.note thread _ before evolves valid (seen_note moments)
  exact after

def mark (state : PointCore) (thread : Nat) (threadState : ThreadState) (waitCondition : Nat)
    (returnData conditions : Nat → Nat) (point : Point) : PointCore :=
  ({ state with core := { state.core with
      state := Function.update state.core.state thread threadState
      waitConditions := Function.update state.core.waitConditions thread waitCondition
      returnData, conditions } } : PointCore).goTo thread point

theorem plain_mark (control : state.core.control = .thread thread) (threadState : ThreadState)
    (waitCondition : Nat) (returnData conditions : Nat → Nat) (point : Point) :
    (mark state thread threadState waitCondition returnData conditions point).core.plain =
      { state.core.plain with
        waitConditions := Function.update state.core.plain.waitConditions thread waitCondition
        returnData, conditions } := by
  have running : (mark state thread threadState waitCondition returnData conditions
      point).core.control = .thread thread := control
  rw [Core.plain_running running, Core.plain_running control]
  simp [mark, goTo, Core.unflagged, Core.setState]

theorem tracked_mark {core : Core} (tracked : core.Tracked)
    (control : core.control = .thread thread) (waitCondition : Nat)
    (returnData conditions : Nat → Nat) :
    Core.Tracked { core with
      waitConditions := Function.update core.waitConditions thread waitCondition
      returnData, conditions } := by
  obtain ⟨lists, placed⟩ := tracked.placed
  have held : thread ∈ core.held := by
    rw [Core.Tracked.held_running control]
    exact List.mem_cons_self
  have recorded : Core.Placed { core with
      waitConditions := Function.update core.waitConditions thread waitCondition } .none lists
      core.held := by
    apply placed.update held
    · exact ⟨rfl, fun _ _ => Iff.rfl, fun _ _ => rfl, fun _ _ => rfl,
        fun other different => Function.update_of_ne different _ _⟩
    · exact fun _ _ => rfl
    · funext key
      cases key <;> rfl
    · rfl
    · exact placed.fifo
    · exact placed.undetached thread
  exact tracked.of_keeps (recorded.retag _ _ _ _ _)
    ⟨rfl, rfl, fun _ member => member, fun _ _ frame => frame, fun _ _ => rfl, fun _ _ => rfl⟩

theorem noted (steady : state.Steady) : state.note.Steady := by
  refine ⟨steady.tracked, steady.nextThread, steady.current, fun other created valid => ?_,
    steady.targets⟩
  exact steady.other created (Core.Evolves.of_same rfl rfl) rfl rfl valid

theorem step (steady : state.Steady) (control : state.core.control = .thread thread)
    (threadState : ThreadState) (waitCondition : Nat) (returnData conditions : Nat → Nat)
    (point : Point) (passed : Nat → Nat) (moments : List (Nat → Nat))
    (current : threadState ≠ .ready ∧ threadState ≠ .invalid ∧
      ∀ caller, point = .returning caller → threadState = .running)
    (targets : ∀ target, point.target = some target → target ∈ state.core.created)
    (progress : PointCore.Progress
      { mark state thread threadState waitCondition returnData conditions point with
        passed, moments := Function.update state.moments thread moments } thread point) :
    PointCore.Steady { mark state thread threadState waitCondition returnData conditions point with
      passed, moments := Function.update state.moments thread moments } := by
  have isState : Function.update state.core.state thread threadState thread = threadState :=
    Function.update_self _ _ _
  have isPoint : Function.update state.point thread point thread = point :=
    Function.update_self _ _ _
  constructor
  · change (mark state thread threadState waitCondition returnData conditions point).core.plain.Tracked
    rw [plain_mark control]
    exact tracked_mark steady.tracked ((Core.plain_control _).trans control) _ _ _
  · exact steady.nextThread
  · intro other running
    have same : other = thread := Control.thread.inj (running.symm.trans control)
    subst same
    refine ⟨fun ready => current.1 (isState.symm.trans ready),
      fun invalid => current.2.1 (isState.symm.trans invalid), fun caller back => ?_⟩
    exact isState.trans (current.2.2 caller (isPoint.symm.trans back))
  · intro other created valid
    by_cases same : other = thread
    · subst same
      change PointCore.Progress _ other (Function.update state.point other point other)
      rw [isPoint]
      exact progress
    · have stays : Function.update state.core.state thread threadState other =
          state.core.state other := Function.update_of_ne same _ _
      have samePoint : Function.update state.point thread point other = state.point other :=
        Function.update_of_ne same _ _
      have before := steady.progress other created fun invalid => valid (stays.trans invalid)
      change PointCore.Progress _ other (Function.update state.point thread point other)
      rw [samePoint]
      exact before.congr stays (Function.update_of_ne same _ _) (Function.update_of_ne same _ _)
  · intro other target isTarget
    by_cases same : other = thread
    · subst same
      exact targets target (isPoint ▸ isTarget)
    · have samePoint : Function.update state.point thread point other = state.point other :=
        Function.update_of_ne same _ _
      exact steady.targets other target (samePoint ▸ isTarget)

theorem goes (steady : state.Steady) (control : state.core.control = .thread thread)
    (point : Point)
    (current : ∀ caller, point = .returning caller → state.core.state thread = .running)
    (targets : ∀ target, point.target = some target → target ∈ state.core.created)
    (progress : state.Progress thread point) : (state.goTo thread point).Steady := by
  obtain ⟨notReady, valid, -⟩ := steady.current thread control
  have same : state.goTo thread point = { mark state thread (state.core.state thread)
      (state.core.waitConditions thread) state.core.returnData state.core.conditions point with
      passed := state.passed
      moments := Function.update state.moments thread (state.moments thread) } := by
    simp [mark, goTo]
  rw [same]
  apply steady.step control
  · exact ⟨notReady, valid, current⟩
  · exact targets
  · rw [← same]
    exact progress.congr rfl rfl rfl

theorem writes (steady : state.Steady) (control : state.core.control = .thread thread)
    (threadState : ThreadState) (waitCondition : Nat) (returnData conditions : Nat → Nat)
    (point : Point)
    (current : threadState ≠ .ready ∧ threadState ≠ .invalid ∧
      ∀ caller, point = .returning caller → threadState = .running)
    (targets : ∀ target, point.target = some target → target ∈ state.core.created)
    (progress : (mark state thread threadState waitCondition returnData conditions
      point).Progress thread point) :
    (mark state thread threadState waitCondition returnData conditions point).Steady := by
  have same : mark state thread threadState waitCondition returnData conditions point =
      { mark state thread threadState waitCondition returnData conditions point with
        passed := state.passed
        moments := Function.update state.moments thread (state.moments thread) } := by
    simp [mark, goTo]
  rw [same]
  apply steady.step control _ _ _ _ _ _ _ current targets
  rw [← same]
  exact progress

/-- A thread is detached while no call of another one is half done. -/
theorem detach (steady : state.Steady)
    (running : ∀ thread, state.core.control = .thread thread → state.core.state thread = .running)
    {target : Nat} (pointer : state.core.Pointer target) :
    (state.withCore (state.core.detachThread target)).note.Steady := by
  obtain ⟨control, cleanup, created, waits, data, conditions⟩ :=
    Core.detachThread_keeps state.core target
  have states := Core.detachThread_state state.core target
  constructor
  · exact steady.tracked.detaches running pointer
  · exact steady.nextThread
  · intro thread control'
    have wasRunning := running thread (control.symm.trans control')
    have stays : (state.core.detachThread target).state thread = .running := by
      rcases states thread with same | ⟨same, terminated, -⟩
      · exact same.trans wasRunning
      · exact absurd (wasRunning.symm.trans (same ▸ terminated)) (by decide)
    refine ⟨?_, ?_, fun _ _ => stays⟩
    · change (state.core.detachThread target).state thread ≠ .ready
      rw [stays]
      decide
    · change (state.core.detachThread target).state thread ≠ .invalid
      rw [stays]
      decide
  · intro thread isCreated valid
    have old : thread ∈ state.core.created := created ▸ isCreated
    have evolves : state.core.Evolves (state.core.detachThread target) thread := by
      refine ⟨congrFun waits thread, ?_⟩
      rcases states thread with same | ⟨same, terminated, detached⟩
      · exact Or.inl same
      · subst same
        exact Or.inr (Or.inr (Or.inr (Or.inl ⟨terminated, detached⟩)))
    exact @other state thread steady (state.withCore (state.core.detachThread target)) old evolves
      rfl rfl valid
  · intro thread other isTarget
    have old := steady.targets thread other isTarget
    exact created.symm ▸ old

theorem finish (steady : state.Steady) (control : state.core.control = .thread thread)
    (running : state.core.state thread = .running) {target : Nat}
    (created : target ∈ state.core.created) :
    ((state.withCore (state.core.finishWaitThread thread target).2).goTo thread .own).note.Steady := by
  have unchanged : Function.update state.core.state thread .running = state.core.state :=
    Function.update_eq_self_iff.mpr running.symm
  have cleared := steady.writes control .running 0 state.core.returnData state.core.conditions .own
    ⟨by decide, by decide, nofun⟩ nofun (Or.inl (Function.update_self _ _ _))
  unfold mark at cleared
  rw [unchanged] at cleared
  let recorded : Core := { state.core with
    waitConditions := Function.update state.core.waitConditions thread 0 }
  let popped : Core :=
    { recorded with waitFrames := Function.update state.core.waitFrames thread none }
  have tracked : recorded.unflagged.Tracked := by
    have old : recorded.plain.Tracked := cleared.tracked
    have plain : recorded.plain = recorded.unflagged := Core.plain_of_running control running
    exact plain ▸ old
  have popTracked : popped.plain.Tracked := by
    have plain : popped.plain = popped.unflagged := Core.plain_of_running control running
    rw [plain]
    obtain ⟨lists, placed⟩ := tracked.placed
    refine ⟨⟨lists, placed.retag _ _ _ _ _⟩, tracked.created, tracked.cleanup, tracked.running, ?_⟩
    intro other frame isFrame
    by_cases same : other = thread
    · rw [same] at isFrame
      cases (Function.update_self _ _ _).symm.trans isFrame
    · exact tracked.frames other frame ((Function.update_of_ne same _ _).symm.trans isFrame)
  have left : ((state.withCore popped).goTo thread .own).Steady := by
    refine ⟨popTracked, cleared.nextThread, cleared.current, fun other isCreated valid => ?_,
      cleared.targets⟩
    exact (cleared.progress other isCreated valid).congr rfl rfl rfl
  have only : ∀ other, state.core.control = .thread other → state.core.state other = .running :=
    fun other control' => Control.thread.inj (control'.symm.trans control) ▸ running
  exact left.detach only (Or.inr created)

end Steady

end PointCore

end DoggOS.Proc

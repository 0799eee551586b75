/-
No wakeup is lost.

Each turn of the machine keeps the run invariant, so it holds in every reachable
state.  The scan then leaves a waiting thread on its list only when its condition
is not set, and a thread gets out of `k_proc_WaitCondition` only by finding the
condition set itself or by a scan that found it set.
-/

import DoggOS.Proc.ThreadPointSteps

namespace DoggOS.Proc.PointCore

variable {state middle after : PointCore} {thread : Nat}

namespace Steady

/-- The timer or `int 38` takes the core from the running thread. -/
theorem preempt (steady : state.Steady) (control : state.core.control = .thread thread)
    {point : Point} (progress : state.Progress thread point)
    (targets : ∀ target, point.target = some target → target ∈ state.core.created)
    (ran : (state.goTo thread point).preemptThread thread = some middle) : middle.note.Steady := by
  obtain ⟨created, alone, -⟩ := steady.held control
  obtain ⟨notReady, -, -⟩ := steady.current thread control
  have noNext : (state.goTo thread point).nextThread = 0 := steady.nextThread
  rw [preemptThread, if_pos noNext] at ran
  obtain ⟨core, yielded, same⟩ := Option.map_eq_some_iff.mp ran
  subst same
  obtain ⟨core', yielded', tracked, idle, data, own, others⟩ :=
    steady.tracked.yields control (progress.leaves created alone notReady)
  obtain rfl : core' = core := Option.some_inj.mp (yielded'.symm.trans yielded)
  have evolves : ∀ other, state.core.Evolves core' other := by
    intro other
    refine ⟨congrFun data.waitConditions other, ?_⟩
    by_cases same : other = thread
    · subst same
      by_cases running : state.core.state other = .running
      · rw [if_pos running] at own
        exact Or.inr (Or.inl ⟨Or.inl running, Or.inr own⟩)
      · rw [if_neg running] at own
        exact Or.inl own
    · exact Or.inl (others other same)
  constructor
  · exact tracked
  · exact steady.nextThread
  · intro other control'
    cases idle.symm.trans control'
  · intro other isCreated valid
    have old : other ∈ state.core.created := data.created ▸ isCreated
    have seen : ∀ condition, state.Seen other condition ∨ core'.conditions condition ≠ 0 →
        ((state.goTo thread point).withCore core').note.Seen other condition :=
      @seen_note state other ((state.goTo thread point).withCore core') rfl
    have before : state.Progress other ((state.goTo thread point).point other) := by
      by_cases same : other = thread
      · subst same
        rw [show (state.goTo other point).point other = point from Function.update_self _ _ _]
        exact progress
      · rw [show (state.goTo thread point).point other = state.point other from
          Function.update_of_ne same _ _]
        exact steady.progress other old ((evolves other).valid_before valid)
    have kept : ((state.goTo thread point).withCore core').note.Progress other
        ((state.goTo thread point).point other) := before.evolves (evolves other) valid seen
    exact kept
  · intro other target isTarget
    have isCreated : target ∈ state.core.created := by
      by_cases same : other = thread
      · subst same
        have isPoint : Function.update state.point other point other = point :=
          Function.update_self _ _ _
        exact targets target (isPoint ▸ isTarget)
      · have isPoint : Function.update state.point thread point other = state.point other :=
          Function.update_of_ne same _ _
        exact steady.targets other target (isPoint ▸ isTarget)
    exact data.created.symm ▸ isCreated

theorem statement (steady : state.Steady) (control : state.core.control = .thread thread)
    (ran : state.statement thread (state.point thread) = some middle) : middle.note.Steady := by
  obtain ⟨created, -, -⟩ := steady.held control
  obtain ⟨notReady, valid, running⟩ := steady.current thread control
  have progress := steady.progress thread created valid
  have targets := steady.targets thread
  have noTarget : ∀ target : Nat, none = some target → target ∈ state.core.created := by
    intro target impossible
    cases impossible
  cases point : state.point thread with
  | own =>
      rw [point] at ran
      cases ran
  | testCondition condition target =>
      rw [point] at ran progress targets
      by_cases waits : state.core.mustWait condition
      · simp only [PointCore.statement, waits, if_true, Option.some_inj] at ran
        have going := steady.goes control (.setWaitCondition condition target) (by simp) targets
          ⟨progress, waits.1⟩
        exact ran ▸ going.noted
      · simp only [PointCore.statement, waits, if_false, Option.some_inj] at ran
        have found : condition = 0 ∨ state.note.Seen thread condition := by
          by_cases null : condition = 0
          · exact Or.inl null
          · have set : state.core.conditions condition ≠ 0 := fun unset => waits ⟨null, unset⟩
            exact Or.inr ⟨state.core.conditions, List.mem_cons_self, set⟩
        have gone := steady.noted.goes control (.returning (.waitCondition condition target))
          (fun _ _ => progress.resolve_right notReady) targets (Or.inr ⟨progress, found⟩)
        exact ran ▸ gone
  | setWaitCondition condition target =>
      rw [point] at ran progress targets
      have same : mark state thread (state.core.state thread) condition
          state.core.returnData state.core.conditions (.setCondWait condition target) = middle := by
        rw [← Option.some_inj.mp ran]
        simp [mark, withCore, goTo]
      have alive : Function.update state.core.state thread (state.core.state thread) thread =
          .running := by
        rw [Function.update_self]
        exact progress.1.resolve_right notReady
      have wrote := steady.writes control (state.core.state thread) condition
        state.core.returnData state.core.conditions (.setCondWait condition target)
        ⟨notReady, valid, by simp⟩ targets
        ⟨Or.inl alive, Function.update_self _ _ _, progress.2⟩
      exact same ▸ wrote.noted
  | setCondWait condition target =>
      rw [point] at ran progress targets
      have same : mark state thread .condWait (state.core.waitConditions thread)
          state.core.returnData state.core.conditions
          (.yieldThread (.waitCondition condition target)) = middle := by
        rw [← Option.some_inj.mp ran]
        simp [mark, withCore, goTo, Core.setState]
      have recorded : Function.update state.core.waitConditions thread
          (state.core.waitConditions thread) thread = condition := by
        rw [Function.update_self]
        exact progress.2.1
      have wrote := steady.writes control .condWait (state.core.waitConditions thread)
        state.core.returnData state.core.conditions (.yieldThread (.waitCondition condition target))
        ⟨by decide, by decide, by simp⟩ targets
        (Or.inl ⟨Function.update_self _ _ _, recorded, progress.2.2⟩)
      exact same ▸ wrote.noted
  | yieldThread caller =>
      rw [point] at ran progress targets
      have going := steady.goes control (.setNextThread caller) (by simp) targets progress
      exact Option.some_inj.mp ran ▸ going.noted
  | setNextThread caller =>
      rw [point] at ran progress targets
      have same : ({ state with nextThread := 0 } : PointCore) = state := by
        rw [← steady.nextThread]
      simp only [PointCore.statement, same, Option.some_inj] at ran
      have going := steady.goes control (.switchToThread caller) (by simp) targets progress
      exact ran ▸ going.noted
  | switchToThread caller =>
      rw [point] at ran progress targets
      have back : state.Progress thread (.returning caller) := progress
      exact steady.preempt control back targets ran
  | returning caller =>
      rw [point] at ran progress targets
      have alive : state.core.Alive thread := Or.inl (running caller point)
      cases caller with
      | thread =>
          exact Option.some_inj.mp ran ▸ (steady.goes control .own (by simp) noTarget alive).noted
      | terminateThread => cases ran
      | waitCondition condition target =>
          cases target with
          | none =>
              exact Option.some_inj.mp ran ▸ (steady.goes control .own (by simp) noTarget alive).noted
          | some target =>
              exact Option.some_inj.mp ran ▸
                (steady.goes control (.finishWait target) (by simp) targets alive).noted
  | finishWait target =>
      rw [point] at ran progress targets
      have isRunning : state.core.state thread = .running :=
        Or.resolve_right progress notReady
      exact Option.some_inj.mp ran ▸ steady.finish control isRunning (targets target rfl)
  | testDetached returnValue =>
      rw [point] at ran progress
      by_cases detached : state.core.flags thread &&& threadFlagDetached ≠ 0
      · simp only [PointCore.statement, detached, ne_eq, not_false_eq_true, if_true,
          Option.some_inj] at ran
        exact ran ▸ (steady.goes control .setDetached (by simp) noTarget progress).noted
      · simp only [PointCore.statement, detached, if_false, Option.some_inj] at ran
        have going := steady.goes control (.setTerminated returnValue) (by simp) noTarget progress
        exact ran ▸ going.noted
  | setDetached =>
      rw [point] at ran
      have same : mark state thread .detached (state.core.waitConditions thread)
          state.core.returnData state.core.conditions .signalCondition = middle := by
        rw [← Option.some_inj.mp ran]
        simp [mark, withCore, goTo, Core.setState]
      have wrote := steady.writes control .detached (state.core.waitConditions thread)
        state.core.returnData state.core.conditions .signalCondition
        ⟨by decide, by decide, by simp⟩ noTarget (Or.inr (Function.update_self _ _ _))
      exact same ▸ wrote.noted
  | setTerminated returnValue =>
      rw [point] at ran
      have same : mark state thread .terminated (state.core.waitConditions thread)
          state.core.returnData state.core.conditions (.setReturnData returnValue) = middle := by
        rw [← Option.some_inj.mp ran]
        simp [mark, withCore, goTo, Core.setState]
      have wrote := steady.writes control .terminated (state.core.waitConditions thread)
        state.core.returnData state.core.conditions (.setReturnData returnValue)
        ⟨by decide, by decide, by simp⟩ noTarget (Or.inl (Function.update_self _ _ _))
      exact same ▸ wrote.noted
  | setReturnData returnValue =>
      rw [point] at ran progress
      have same : mark state thread (state.core.state thread) (state.core.waitConditions thread)
          (Function.update state.core.returnData thread returnValue) state.core.conditions
          .signalCondition = middle := by
        rw [← Option.some_inj.mp ran]
        simp [mark, withCore, goTo]
      have stopped : (mark state thread (state.core.state thread)
          (state.core.waitConditions thread)
          (Function.update state.core.returnData thread returnValue) state.core.conditions
          .signalCondition).core.Stopped thread := by
        unfold Core.Stopped
        rw [same, ← Option.some_inj.mp ran]
        exact progress
      have wrote := steady.writes control (state.core.state thread)
        (state.core.waitConditions thread)
        (Function.update state.core.returnData thread returnValue) state.core.conditions
        .signalCondition ⟨notReady, valid, by simp⟩ noTarget stopped
      exact same ▸ wrote.noted
  | signalCondition =>
      rw [point] at ran progress
      have same : mark state thread (state.core.state thread) (state.core.waitConditions thread)
          state.core.returnData
          (Function.update state.core.conditions (threadCondition thread) 1)
          (.yieldThread .terminateThread) = middle := by
        rw [← Option.some_inj.mp ran]
        simp [mark, withCore, goTo, Core.signalCondition]
      have stopped : (mark state thread (state.core.state thread)
          (state.core.waitConditions thread) state.core.returnData
          (Function.update state.core.conditions (threadCondition thread) 1)
          (.yieldThread .terminateThread)).core.Stopped thread := by
        unfold Core.Stopped
        rw [same, ← Option.some_inj.mp ran]
        exact progress
      have wrote := steady.writes control (state.core.state thread)
        (state.core.waitConditions thread) state.core.returnData
        (Function.update state.core.conditions (threadCondition thread) 1)
        (.yieldThread .terminateThread) ⟨notReady, valid, by simp⟩ noTarget stopped
      exact same ▸ wrote.noted

theorem calling (steady : state.Steady)
    (caller : state.core.control = .boot ∨ ∃ thread, state.Calling thread) :
    ∀ thread, state.core.control = .thread thread → state.core.state thread = .running := by
  intro thread control
  rcases caller with boot | ⟨other, control', own⟩
  · cases boot.symm.trans control
  · obtain rfl : other = thread := Control.thread.inj (control'.symm.trans control)
    obtain ⟨notReady, valid, -⟩ := steady.current other control
    have progress := steady.progress other (steady.held control).1 valid
    rw [own] at progress
    exact Or.resolve_right progress notReady

theorem createThread (steady : state.Steady)
    (caller : state.core.control = .boot ∨ ∃ thread, state.Calling thread) (init : ThreadInit)
    {page : Nat} (fresh : state.core.poolThreads = 0 → state.core.FreshPage page)
    (ran : state.createThread init page = some middle) : middle.note.Steady := by
  have running := steady.calling caller
  rcases steady.tracked.creates running init fresh with refused | ⟨thread, core, made, tracked,
    nonNull, control, cleanup, creates, notRunning, notCleanup, unused, ready, states⟩
  · rw [PointCore.createThread, refused] at ran
    exact Option.some_inj.mp ran ▸ steady.noted
  · rw [PointCore.createThread, made, Option.map_some, Option.some_inj] at ran
    dsimp only at ran
    rw [if_neg nonNull] at ran
    subst ran
    have ne : ∀ {other}, core.control = .thread other → other ≠ thread :=
      fun control' same => notRunning (same ▸ control.symm.trans control')
    have isPoint : Function.update state.point thread .own thread = Point.own :=
      Function.update_self _ _ _
    constructor
    · exact tracked
    · exact steady.nextThread
    · intro other control'
      have isRunning := (states other (ne control')).trans
        (running other (control.symm.trans control'))
      refine ⟨?_, ?_, fun _ _ => isRunning⟩
      · exact fun isReady => absurd (isRunning.symm.trans isReady) (by decide)
      · exact fun invalid => absurd (isRunning.symm.trans invalid) (by decide)
    · intro other isCreated valid
      by_cases same : other = thread
      · subst same
        change PointCore.Progress _ other (Function.update state.point other .own other)
        rw [isPoint]
        exact Or.inr ready
      · have old : other ∈ state.core.created := by
          have member : other ∈ core.created := isCreated
          rw [creates.created] at member
          exact (List.mem_cons.mp member).resolve_left same
        have waits : core.waitConditions other = state.core.waitConditions other := by
          rw [creates.waitConditions]
          exact Function.update_of_ne same _ _
        exact @Steady.other _ other steady { state with
          core, point := Function.update state.point thread .own } old
          (Core.Evolves.of_same (states other same) waits) (Function.update_of_ne same _ _) rfl valid
    · intro other target isTarget
      change target ∈ core.created
      rw [creates.created]
      by_cases same : other = thread
      · subst same
        have none : (Function.update state.point other .own other).target = some target := isTarget
        rw [isPoint] at none
        cases none
      · have samePoint : Function.update state.point thread .own other = state.point other :=
          Function.update_of_ne same _ _
        exact List.mem_cons_of_mem _ (steady.targets other target (samePoint ▸ isTarget))

theorem begins (steady : state.Steady) (own : state.Calling thread) (point : Point)
    (passed : Nat → Nat) (moments : List (Nat → Nat))
    (back : ∀ caller, point ≠ .returning caller)
    (targets : ∀ target, point.target = some target → target ∈ state.core.created)
    (progress : ∀ after : PointCore, after.core.Alive thread → after.Progress thread point) :
    PointCore.Steady { state.goTo thread point with
      passed, moments := Function.update state.moments thread moments } := by
  have running := steady.calling (Or.inr ⟨thread, own⟩) thread own.1
  obtain ⟨notReady, valid, -⟩ := steady.current thread own.1
  have same : ({ state.goTo thread point with
      passed, moments := Function.update state.moments thread moments } : PointCore) =
      { mark state thread (state.core.state thread) (state.core.waitConditions thread)
        state.core.returnData state.core.conditions point with
        passed, moments := Function.update state.moments thread moments } := by
    simp [mark, goTo]
  rw [same]
  apply steady.step own.1
  · exact ⟨notReady, valid, fun caller isBack => absurd isBack (back caller)⟩
  · exact targets
  · apply progress
    rw [← same]
    exact Or.inl running

theorem startWait (steady : state.Steady) (own : state.Calling thread) (condition : Nat)
    {target : Option Nat} (created : ∀ thread, target = some thread → thread ∈ state.core.created) :
    (state.startWait thread condition target).Steady :=
  steady.begins own (.testCondition condition target) state.passed [] nofun created
    fun _ alive => alive

theorem waitThread (steady : state.Steady) (own : state.Calling thread) {target : Nat}
    (pointer : state.core.Pointer target) : (state.waitThread thread target).note.Steady := by
  unfold PointCore.waitThread
  split
  · next waits =>
      have created := pointer.resolve_left waits.1.1
      split
      · apply (steady.startWait own _ _).noted
        exact fun other same => Option.some_inj.mp same ▸ created
      · have running := steady.calling (Or.inr ⟨thread, own⟩) thread own.1
        have finished := steady.finish own.1 running created
        have stays : (state.withCore (state.core.finishWaitThread thread target).2).goTo thread
            .own = state.withCore (state.core.finishWaitThread thread target).2 := by
          have point : Function.update state.point thread .own = state.point :=
            Function.update_eq_self_iff.mpr own.2.symm
          unfold goTo withCore
          rw [point]
        rwa [stays] at finished
  · exact steady.noted

theorem signalCondition (steady : state.Steady) (condition : Nat) :
    (state.withCore (state.core.signalCondition condition)).note.Steady := by
  have plain : (state.core.signalCondition condition).plain =
      state.core.plain.signalCondition condition := by
    unfold Core.plain Core.signalCondition
    dsimp only
    split <;> rfl
  refine Steady.noted ⟨?_, steady.nextThread, steady.current, fun other created valid => ?_,
    steady.targets⟩
  · change (state.core.signalCondition condition).plain.Tracked
    rw [plain]
    exact steady.tracked.signalCondition condition
  · exact (steady.progress other created valid).congr rfl rfl rfl

theorem runScheduler (steady : state.Steady) (control : state.core.control = .boot) :
    (state.withCore { state.core with control := .scheduler }).note.Steady := by
  have boot : state.core.plain.control = .boot := (Core.plain_control _).trans control
  obtain ⟨started, ran, tracked⟩ := @Core.Tracked.call state.core.plain steady.tracked .runScheduler boot
  have same : started = ({ state.core with control := .scheduler } : Core).plain := by
    rw [← Option.some_inj.mp ran, Core.plain_idle (by simp [control]), Core.plain_idle (by simp)]
    rfl
  refine Steady.noted ⟨same ▸ tracked, steady.nextThread, nofun, fun other created valid => ?_,
    steady.targets⟩
  exact (steady.progress other created valid).congr rfl rfl rfl

/-- A step of the scheduler, which changes only the states of the threads. -/
theorem schedules (steady : state.Steady) {core : Core} (tracked : core.plain.Tracked)
    (data : state.core.SameData core)
    (current : ∀ thread, core.control = .thread thread → core.state thread = .running)
    (evolves : ∀ thread, state.core.Evolves core thread) :
    (state.withCore core).note.Steady := by
  constructor
  · exact tracked
  · exact steady.nextThread
  · intro thread control
    have running : core.state thread = .running := current thread control
    refine ⟨?_, ?_, fun _ _ => running⟩
    · exact fun ready => absurd (running.symm.trans ready) (by decide)
    · exact fun invalid => absurd (running.symm.trans invalid) (by decide)
  · intro thread created valid
    have old : thread ∈ state.core.created := data.created ▸ created
    exact @other _ thread steady (state.withCore core) old (evolves thread) rfl rfl valid
  · intro thread target isTarget
    exact data.created.symm ▸ steady.targets thread target isTarget

theorem wakeThreads (steady : state.Steady) (control : state.core.control = .scheduler) :
    ∃ core, state.core.wakeThreads = some core ∧ (state.withCore core).note.Steady := by
  obtain ⟨core, ran, tracked, control', data, -, wasReady, running, states, -⟩ :=
    steady.tracked.wakes control
  refine ⟨core, ran, steady.schedules tracked data ?_ fun thread => ?_⟩
  · intro thread control''
    cases control'.symm.trans control''
  · refine ⟨congrFun data.waitConditions thread, ?_⟩
    by_cases same : thread = state.core.cleanupThread
    · rw [same]
      exact Or.inr (Or.inl ⟨Or.inr wasReady, Or.inl running⟩)
    · rcases states thread same with unchanged | ⟨waits, set, ready⟩
      · exact Or.inl unchanged
      · rw [← data.conditions] at set
        exact Or.inr (Or.inr (Or.inl ⟨waits, ready, set⟩))

theorem cleanupThreads (steady : state.Steady) (control : state.core.control = .cleanup) :
    ∃ core, state.core.cleanupThreads = some core ∧ (state.withCore core).note.Steady := by
  obtain ⟨core, ran, tracked, control', -, wasRunning, ready, states⟩ :=
    steady.tracked.cleans control
  have data := Core.cleanupThreads_sameData ran
  refine ⟨core, ran, steady.schedules tracked data ?_ fun thread => ?_⟩
  · intro thread control''
    cases control'.symm.trans control''
  · refine ⟨congrFun data.waitConditions thread, ?_⟩
    by_cases same : thread = state.core.cleanupThread
    · rw [same]
      exact Or.inr (Or.inl ⟨Or.inl wasRunning, Or.inr ready⟩)
    · rcases states thread same with unchanged | ⟨-, invalid⟩
      · exact Or.inl unchanged
      · exact Or.inr (Or.inr (Or.inr (Or.inr invalid)))

theorem dispatchThread (steady : state.Steady) (control : state.core.control = .dispatch) :
    (state.withCore state.core.dispatchThread).note.Steady := by
  obtain ⟨tracked, runs⟩ := steady.tracked.dispatches control
  have data := Core.dispatchThread_sameData state.core
  refine steady.schedules tracked data ?_ fun thread => ?_
  · intro thread control'
    rcases runs with ⟨idle, -⟩ | ⟨next, running, -, states⟩
    · cases idle.symm.trans control'
    · obtain rfl : next = thread := Control.thread.inj (running.symm.trans control')
      rw [states]
      exact Function.update_self _ _ _
  · refine ⟨congrFun data.waitConditions thread, ?_⟩
    rcases runs with ⟨-, states⟩ | ⟨next, -, ready, states⟩
    · exact Or.inl (congrFun states thread)
    · by_cases same : thread = next
      · subst same
        exact Or.inr (Or.inl ⟨Or.inr ready, Or.inl (by rw [states, Function.update_self])⟩)
      · exact Or.inl (by rw [states, Function.update_of_ne same])

theorem start (initial : machine.start state) : state.Steady := by
  obtain ⟨starts, noNext, own⟩ := initial
  have tracked := Core.Tracked.start starts
  obtain ⟨boot, alone, -⟩ := Core.start_alone starts
  constructor
  · rw [Core.plain_idle (by simp [boot])]
    exact tracked.unflag
  · exact noNext
  · intro thread control
    cases boot.symm.trans control
  · intro thread created valid
    rw [alone] at created
    rw [own thread, List.mem_singleton.mp created]
    have cleanup := tracked.cleanup
    rw [boot] at cleanup
    exact Or.inr cleanup
  · intro thread target isTarget
    rw [own thread] at isTarget
    cases isTarget

theorem turn (steady : state.Steady) {label : Turn} (enabled : state.Enabled label)
    (ran : state.next label = some after) : after.Steady := by
  have current : ∀ {thread}, state.core.control = .thread thread → state.core.current = thread := by
    intro thread running
    unfold Core.current
    rw [running]
  obtain ⟨middle, turned, same⟩ := Option.map_eq_some_iff.mp ran
  subst same
  cases label with
  | createThread init page => exact steady.createThread enabled.1 init enabled.2 turned
  | detachThread target =>
      rw [← Option.some_inj.mp turned]
      exact steady.detach (steady.calling enabled.1) enabled.2
  | waitThread target =>
      obtain ⟨⟨thread, own⟩, pointer⟩ := enabled
      rw [← Option.some_inj.mp turned, current own.1]
      exact steady.waitThread own pointer
  | waitCondition condition =>
      obtain ⟨thread, own⟩ := enabled
      have begun : (state.startWait thread condition none).Steady :=
        steady.startWait own condition nofun
      rw [← Option.some_inj.mp turned, current own.1]
      exact begun.noted
  | yieldThread =>
      obtain ⟨thread, own⟩ := enabled
      rw [← Option.some_inj.mp turned, current own.1]
      have begun := steady.begins own (.yieldThread .thread) state.passed (state.moments thread)
        nofun nofun fun _ alive => alive
      rw [Function.update_eq_self] at begun
      exact begun.noted
  | terminateThread returnValue =>
      obtain ⟨thread, own⟩ := enabled
      rw [← Option.some_inj.mp turned, current own.1]
      have begun := steady.begins own (.testDetached returnValue)
        (Function.update state.passed thread returnValue) (state.moments thread)
        nofun nofun fun _ alive => alive
      rw [Function.update_eq_self] at begun
      exact begun.noted
  | signalCondition condition =>
      rw [← Option.some_inj.mp turned]
      exact steady.signalCondition condition
  | statement =>
      obtain ⟨thread, running⟩ := enabled
      have ran : state.statement state.core.current (state.point state.core.current) =
          some middle := turned
      rw [current running] at ran
      exact steady.statement running ran
  | timer =>
      obtain ⟨thread, running⟩ := enabled
      have ran : state.preemptThread state.core.current = some middle := turned
      obtain ⟨-, valid, -⟩ := steady.current thread running
      have progress := steady.progress thread (steady.held running).1 valid
      have stays : state.goTo thread (state.point thread) = state := by
        unfold goTo
        rw [Function.update_eq_self]
      rw [current running, ← stays] at ran
      exact steady.preempt running progress (steady.targets thread) ran
  | runScheduler =>
      rw [← Option.some_inj.mp turned]
      exact steady.runScheduler enabled
  | wakeThreads =>
      obtain ⟨core, woken, moved⟩ := steady.wakeThreads enabled
      obtain ⟨core', woken', same⟩ := Option.map_eq_some_iff.mp turned
      rw [← same, ← Option.some_inj.mp (woken.symm.trans woken')]
      exact moved
  | cleanupThreads =>
      obtain ⟨core, cleaned, moved⟩ := steady.cleanupThreads enabled
      obtain ⟨core', cleaned', same⟩ := Option.map_eq_some_iff.mp turned
      rw [← same, ← Option.some_inj.mp (cleaned.symm.trans cleaned')]
      exact moved
  | dispatchThread =>
      have dispatched := steady.dispatchThread enabled
      have noNext : ({ state.withCore state.core.dispatchThread with nextThread := 0 } : PointCore) =
          state.withCore state.core.dispatchThread := by
        unfold withCore
        rw [← steady.nextThread]
      rw [← Option.some_inj.mp turned, noNext]
      exact dispatched

end Steady

theorem steady_of_reachable (reachable : machine.Reachable state) : state.Steady := by
  apply Machine.invariant machine _ _ reachable
  · exact fun _ initial => Steady.start initial
  · intro before label after steady step
    exact steady.turn step.1 step.2

/-- What waiting for a condition promises in a state, and of a scan that begins in it. -/
structure KeepsWakeups (state : PointCore) : Prop where
  returns : ∀ thread condition target, state.core.control = .thread thread →
    state.point thread = .returning (.waitCondition condition target) → condition ≠ 0 →
    ∃ words ∈ state.moments thread, words condition ≠ 0
  scans : state.core.control = .scheduler → ∃ after, machine.step state .wakeThreads after
  waiting : ∀ after, machine.step state .wakeThreads after → ∀ thread ∈ after.core.created,
    after.core.state thread = .condWait → after.core.OnWaitList thread ∧
      after.core.conditions (after.core.waitConditions thread) = 0
  woken : ∀ after, machine.step state .wakeThreads after → ∀ thread ∈ state.core.created,
    state.core.state thread = .condWait →
    state.core.conditions (state.core.waitConditions thread) ≠ 0 →
    after.core.state thread = .ready ∧ after.core.At .readyList thread

/-- A created thread that is ready and does not run is on the ready list. -/
theorem at_ready {core : Core} (tracked : core.plain.Tracked) (control : core.control = .cleanup)
    (running : core.state core.cleanupThread = .running) (created : thread ∈ core.created)
    (ready : core.state thread = .ready) : core.At .readyList thread := by
  rw [Core.plain_idle (by simp [control])] at tracked
  obtain ⟨lists, placed⟩ := tracked.placed
  have free : thread ∉ core.unflagged.held := by
    rw [Core.Tracked.held_idle (by simp [Core.unflagged, control])]
    intro member
    have same : thread = core.cleanupThread := List.mem_singleton.mp member
    rw [same, running] at ready
    cases ready
  have member := Core.listed_of_state placed created free (Or.inr (Or.inl ⟨ready, rfl⟩))
  exact ⟨lists .ready, placed.queues.chain .ready, member⟩

theorem Steady.keepsWakeups (steady : state.Steady) : state.KeepsWakeups := by
  have scanned : ∀ after, machine.step state .wakeThreads after →
      ∃ core, state.core.wakeThreads = some core ∧ after = (state.withCore core).note := by
    rintro after ⟨-, ran⟩
    obtain ⟨middle, turned, rfl⟩ := Option.map_eq_some_iff.mp ran
    obtain ⟨core, woken, rfl⟩ := Option.map_eq_some_iff.mp turned
    exact ⟨core, woken, rfl⟩
  constructor
  · intro thread condition target control point nonNull
    obtain ⟨-, valid, running⟩ := steady.current thread control
    have progress := steady.progress thread (steady.held control).1 valid
    rw [point] at progress
    rcases progress with ⟨waits, -⟩ | ⟨-, null | seen⟩
    · exact absurd ((running _ point).symm.trans waits) (by decide)
    · exact absurd null nonNull
    · exact seen
  · intro control
    obtain ⟨core, woken, -⟩ := steady.wakeThreads control
    refine ⟨(state.withCore core).note, control, ?_⟩
    change (state.core.wakeThreads.map state.withCore).map note = _
    rw [woken]
    rfl
  · intro after step thread created waits
    obtain ⟨core, woken, rfl⟩ := scanned after step
    obtain ⟨core', woken', -, -, -, -, -, -, -, unset⟩ := steady.tracked.wakes step.1
    obtain rfl : core' = core := Option.some_inj.mp (woken'.symm.trans woken)
    exact unset thread created waits
  · intro after step thread created waits set
    obtain ⟨core, woken, rfl⟩ := scanned after step
    obtain ⟨core', woken', tracked, control, data, sameCleanup, wasReady, running, states, unset⟩ :=
      steady.tracked.wakes step.1
    obtain rfl : core' = core := Option.some_inj.mp (woken'.symm.trans woken)
    have different : thread ≠ state.core.cleanupThread := by
      rintro rfl
      exact absurd (waits.symm.trans wasReady) (by decide)
    have created' : thread ∈ core'.created := data.created.symm ▸ created
    have ready : core'.state thread = .ready := by
      rcases states thread different with same | ⟨-, -, ready⟩
      · have still := (unset thread created' (same.trans waits)).2
        rw [data.conditions, data.waitConditions] at still
        exact absurd still set
      · exact ready
    rw [← sameCleanup] at running
    exact ⟨ready, at_ready tracked control running created' ready⟩

/-- Nothing is lost between the test of a condition and the scan, wherever the timer strikes. -/
theorem wakeups_kept (state : PointCore) (reachable : machine.Reachable state) :
    state.KeepsWakeups :=
  (steady_of_reachable reachable).keepsWakeups

def initState : PointCore where
  core := initCore
  nextThread := 0
  point _ := .own
  passed _ := 0
  moments _ := []

theorem initState_starts : machine.start initState := ⟨initCore_starts, rfl, fun _ => rfl⟩

/-- A thread is preempted before it has recorded the condition, which another one sets then. -/
def signalledRun : List Turn :=
  [.createThread ⟨1, 1, 1⟩ 8192, .createThread ⟨1, 1, 1⟩ 8192, .runScheduler,
    .wakeThreads, .cleanupThreads, .dispatchThread, .waitCondition 99, .statement, .timer,
    .wakeThreads, .cleanupThreads, .dispatchThread, .signalCondition 99, .timer,
    .wakeThreads, .cleanupThreads, .dispatchThread,
    .statement, .statement, .statement, .statement, .statement,
    .wakeThreads, .cleanupThreads, .dispatchThread, .timer,
    .wakeThreads, .cleanupThreads, .dispatchThread]

theorem signalledRun_returns : ((Machine.follow attempt initState signalledRun).map fun state =>
    decide (state.point state.core.current = .returning (.waitCondition 99 none))) = some true := by
  decide +kernel

theorem wakeups_kept_signalled : ∃ state, machine.Reachable state ∧
    state.point state.core.current = .returning (.waitCondition 99 none) ∧ state.KeepsWakeups := by
  obtain ⟨state, followed, returns⟩ := Option.map_eq_some_iff.mp signalledRun_returns
  have reachable := machine.follow_reachable (fun _ _ _ => step_of_attempt)
    (machine.reachable_start initState_starts) followed
  exact ⟨state, reachable, of_decide_eq_true returns, wakeups_kept state reachable⟩

end DoggOS.Proc.PointCore

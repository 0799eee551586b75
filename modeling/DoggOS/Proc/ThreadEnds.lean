/-
How a thread ends when the timer strikes inside `k_proc_TerminateThread`.

`k_proc_RunThread` queues a thread by its state alone, so a thread that is preempted
between the assignment of its state and `k_rt_SignalCondition` never runs again: its
condition is not signalled, and what it returns may not be stored.  Where the timer
spares these two statements, every ended thread has told what it returns, and the
next scan wakes whoever waits for it.
-/

import DoggOS.Proc.ThreadPointRuns

namespace DoggOS.Proc

/-- The statements between the assignment of the last state and the end of the signal. -/
def Point.Ending (point : Point) : Prop :=
  point = .signalCondition ∨ ∃ returnValue, point = .setReturnData returnValue

namespace PointCore

variable {state middle after : PointCore} {thread : Nat}

def Told (state : PointCore) (thread : Nat) : Prop :=
  state.core.conditions (threadCondition thread) ≠ 0 ∧
    (state.core.state thread = .terminated → state.core.returnData thread = state.passed thread)

def Carries (state : PointCore) (thread : Nat) : Point → Prop
  | .testDetached returnValue | .setTerminated returnValue | .setReturnData returnValue =>
      state.passed thread = returnValue
  | .signalCondition => state.core.state thread = .terminated →
      state.core.returnData thread = state.passed thread
  | _ => True

/-- Every ended thread is told, or runs and is about to tell. -/
structure Telling (state : PointCore) : Prop where
  stopped : ∀ thread ∈ state.core.created, state.core.Stopped thread → state.Told thread ∨
    state.core.control = .thread thread ∧ (state.point thread).Ending
  carries : ∀ thread ∈ state.core.created, state.core.state thread ≠ .invalid →
    state.Carries thread (state.point thread)

/-- The timer does not preempt a thread that has its last state and has not signalled. -/
def SparesEnding (state : PointCore) (label : Turn) : Prop :=
  label = .timer → ∀ thread, state.core.control = .thread thread →
    ¬ (state.point thread).Ending

structure Leaves (state after : PointCore) (thread : Nat) : Prop where
  created : thread ∈ state.core.created
  passed : after.passed thread = state.passed thread
  returnData : after.core.returnData thread = state.core.returnData thread
  conditions : state.core.conditions (threadCondition thread) ≠ 0 →
    after.core.conditions (threadCondition thread) ≠ 0
  valid : after.core.state thread ≠ .invalid → state.core.state thread ≠ .invalid
  stopped : after.core.Stopped thread → state.core.Stopped thread
  terminated : after.core.state thread = .terminated → state.core.state thread = .terminated

namespace Leaves

theorem of_same (created : thread ∈ state.core.created)
    (passed : after.passed thread = state.passed thread)
    (returnData : after.core.returnData thread = state.core.returnData thread)
    (conditions : state.core.conditions (threadCondition thread) ≠ 0 →
      after.core.conditions (threadCondition thread) ≠ 0)
    (same : after.core.state thread = state.core.state thread) : state.Leaves after thread where
  created := created
  passed := passed
  returnData := returnData
  conditions := conditions
  valid valid := same ▸ valid
  stopped stopped := by
    unfold Core.Stopped at *
    rwa [same] at stopped
  terminated terminated := same.symm.trans terminated

theorem of_other (created : thread ∈ state.core.created)
    (passed : after.passed thread = state.passed thread)
    (returnData : after.core.returnData thread = state.core.returnData thread)
    (conditions : state.core.conditions (threadCondition thread) ≠ 0 →
      after.core.conditions (threadCondition thread) ≠ 0)
    (valid : after.core.state thread ≠ .invalid → state.core.state thread ≠ .invalid)
    (running : ¬ after.core.Stopped thread) : state.Leaves after thread where
  created := created
  passed := passed
  returnData := returnData
  conditions := conditions
  valid := valid
  stopped stopped := absurd stopped running
  terminated terminated := absurd (Or.inl terminated) running

theorem told (leaves : state.Leaves after thread) (told : state.Told thread) :
    after.Told thread := by
  refine ⟨leaves.conditions told.1, fun terminated => ?_⟩
  rw [leaves.returnData, leaves.passed]
  exact told.2 (leaves.terminated terminated)

theorem carries (leaves : state.Leaves after thread) {point : Point}
    (carries : state.Carries thread point) : after.Carries thread point := by
  cases point with
  | testDetached returnValue | setTerminated returnValue | setReturnData returnValue =>
      exact leaves.passed.trans carries
  | signalCondition =>
      intro terminated
      rw [leaves.returnData, leaves.passed]
      exact carries (leaves.terminated terminated)
  | _ => trivial

end Leaves

theorem not_stopped_of_alive {core : Core} (alive : core.Alive thread) : ¬ core.Stopped thread := by
  rintro (terminated | detached)
  · rcases alive with old | old <;> exact absurd (old.symm.trans terminated) (by decide)
  · rcases alive with old | old <;> exact absurd (old.symm.trans detached) (by decide)

theorem ne_of_signalled {conditions : Nat → Nat} {signalled condition : Nat}
    (set : conditions condition ≠ 0) : Function.update conditions signalled 1 condition ≠ 0 := by
  by_cases same : condition = signalled
  · rw [same, Function.update_self]
    decide
  · rwa [Function.update_of_ne same]

namespace Telling

theorem moves (telling : state.Telling)
    (leaves : ∀ thread ∈ after.core.created, state.Leaves after thread)
    (points : ∀ thread ∈ after.core.created, after.point thread = state.point thread ∨
      ¬ (state.point thread).Ending ∧ after.Carries thread (after.point thread))
    (control : ∀ thread, state.core.control = .thread thread →
      (state.point thread).Ending → after.core.control = .thread thread) :
    after.Telling := by
  constructor
  · intro thread created stopped
    have left := leaves thread created
    rcases telling.stopped thread left.created (left.stopped stopped) with told | ⟨runs, ending⟩
    · exact Or.inl (left.told told)
    · rcases points thread created with same | ⟨notEnding, -⟩
      · exact Or.inr ⟨control thread runs ending, same.symm ▸ ending⟩
      · exact absurd ending notEnding
  · intro thread created valid
    have left := leaves thread created
    rcases points thread created with same | ⟨-, carries⟩
    · rw [same]
      exact left.carries (telling.carries thread left.created (left.valid valid))
    · exact carries

/-- A statement of the running thread that ends it. -/
theorem ends (telling : state.Telling) (control : state.core.control = .thread thread)
    (others : ∀ other ∈ after.core.created, other ≠ thread →
      state.Leaves after other ∧ after.point other = state.point other)
    (stopped : after.Told thread ∨
      after.core.control = .thread thread ∧ (after.point thread).Ending)
    (carries : after.Carries thread (after.point thread)) : after.Telling := by
  constructor
  · intro other created isStopped
    by_cases same : other = thread
    · exact same ▸ stopped
    · obtain ⟨left, -⟩ := others other created same
      rcases telling.stopped other left.created (left.stopped isStopped) with told | ⟨runs, -⟩
      · exact Or.inl (left.told told)
      · exact absurd (Control.thread.inj (runs.symm.trans control)) same
  · intro other created valid
    by_cases same : other = thread
    · exact same ▸ carries
    · obtain ⟨left, point⟩ := others other created same
      rw [point]
      exact left.carries (telling.carries other left.created (left.valid valid))

/-- The running thread goes to a statement that neither starts nor follows its end. -/
theorem goes (telling : state.Telling) (control : state.core.control = .thread thread)
    (ending : ¬ (state.point thread).Ending) {point : Point}
    (carries : state.Carries thread point) : (state.goTo thread point).note.Telling := by
  have leaves : ∀ other ∈ state.core.created,
      state.Leaves (state.goTo thread point).note other :=
    fun other created => Leaves.of_same created rfl rfl id rfl
  apply telling.moves leaves
  · intro other created
    by_cases same : other = thread
    · subst same
      have isPoint : Function.update state.point other point other = point :=
        Function.update_self _ _ _
      refine Or.inr ⟨ending, ?_⟩
      change Carries _ other (Function.update state.point other point other)
      rw [isPoint]
      exact (leaves other created).carries carries
    · exact Or.inl (Function.update_of_ne same _ _)
  · exact fun _ running _ => running

theorem preempt (telling : state.Telling) (steady : state.Steady)
    (control : state.core.control = .thread thread) {point : Point}
    (progress : state.Progress thread point) (ending : ¬ (state.point thread).Ending)
    (carries : state.Carries thread point)
    (ran : (state.goTo thread point).preemptThread thread = some middle) :
    middle.note.Telling := by
  obtain ⟨created, alone, -⟩ := steady.held control
  obtain ⟨notReady, valid, -⟩ := steady.current thread control
  have noNext : (state.goTo thread point).nextThread = 0 := steady.nextThread
  rw [preemptThread, if_pos noNext] at ran
  obtain ⟨core, yielded, same⟩ := Option.map_eq_some_iff.mp ran
  subst same
  obtain ⟨core', yielded', -, -, data, own, others⟩ :=
    steady.tracked.yields control (progress.leaves created alone notReady)
  obtain rfl : core' = core := Option.some_inj.mp (yielded'.symm.trans yielded)
  have kept : ∀ other, state.core.conditions (threadCondition other) ≠ 0 →
      core'.conditions (threadCondition other) ≠ 0 := by
    rw [data.conditions]
    exact fun _ set => set
  have leaves : ∀ other ∈ core'.created,
      state.Leaves ((state.goTo thread point).withCore core').note other := by
    intro other isCreated
    have old : other ∈ state.core.created := data.created ▸ isCreated
    have returnData := congrFun data.returnData other
    by_cases same : other = thread
    · subst same
      by_cases running : state.core.state other = .running
      · rw [if_pos running] at own
        exact Leaves.of_other old rfl returnData (kept other) (fun _ => valid)
          (not_stopped_of_alive (Or.inr own))
      · rw [if_neg running] at own
        exact Leaves.of_same old rfl returnData (kept other) own
    · exact Leaves.of_same old rfl returnData (kept other) (others other same)
  apply telling.moves leaves
  · intro other isCreated
    by_cases same : other = thread
    · subst same
      have isPoint : Function.update state.point other point other = point :=
        Function.update_self _ _ _
      refine Or.inr ⟨ending, ?_⟩
      change Carries _ other (Function.update state.point other point other)
      rw [isPoint]
      exact (leaves other isCreated).carries carries
    · exact Or.inl (Function.update_of_ne same _ _)
  · intro other running isEnding
    obtain rfl := Control.thread.inj (running.symm.trans control)
    exact absurd isEnding ending

/-- A detached thread has told before, or not ended. -/
theorem detach (telling : state.Telling) (target : Nat) : (state.withCore (state.core.detachThread target)).note.Telling := by
  obtain ⟨control, -, created, -, data, conditions⟩ := Core.detachThread_keeps state.core target
  have states := Core.detachThread_state state.core target
  apply telling.moves
  · intro thread isCreated
    have old : thread ∈ state.core.created := created ▸ isCreated
    have kept : state.core.conditions (threadCondition thread) ≠ 0 →
        (state.core.detachThread target).conditions (threadCondition thread) ≠ 0 := by
      rw [conditions]
      exact id
    rcases states thread with same | ⟨rfl, terminated, detached⟩
    · exact Leaves.of_same old rfl (congrFun data thread) kept same
    · refine ⟨old, rfl, congrFun data thread, kept, fun _ => ?_, fun _ => Or.inl terminated,
        fun _ => terminated⟩
      rw [terminated]
      decide
  · exact fun _ _ => Or.inl rfl
  · exact fun thread runs _ => control.trans runs

theorem finish (telling : state.Telling) (control : state.core.control = .thread thread)
    (ending : ¬ (state.point thread).Ending) (target : Nat) :
    ((state.withCore (state.core.finishWaitThread thread target).2).goTo thread
      .own).note.Telling := by
  let cleared : Core := { state.core with
    waitConditions := Function.update state.core.waitConditions thread 0
    waitFrames := Function.update state.core.waitFrames thread none }
  have gone : (state.goTo thread .own).note.Telling := telling.goes control ending trivial
  have left : ((state.withCore cleared).goTo thread .own).Telling := by
    refine ⟨fun other created stopped => ?_, fun other created valid => ?_⟩
    · exact gone.stopped other created stopped
    · have old := gone.carries other created valid
      exact @Leaves.carries (state.goTo thread .own).note _ other
        (Leaves.of_same created rfl rfl id rfl) _ old
  exact left.detach target

theorem marks (telling : state.Telling) (control : state.core.control = .thread thread)
    (valid : state.core.state thread ≠ .invalid) (ending : ¬ (state.point thread).Ending)
    (threadState : ThreadState) (waitCondition : Nat) {point : Point}
    (lives : threadState ≠ .terminated ∧ threadState ≠ .detached)
    (carries : state.Carries thread point) :
    (Steady.mark state thread threadState waitCondition state.core.returnData
      state.core.conditions point).note.Telling := by
  have isState : Function.update state.core.state thread threadState thread = threadState :=
    Function.update_self _ _ _
  have leaves : ∀ other ∈ state.core.created, state.Leaves (Steady.mark state thread threadState
      waitCondition state.core.returnData state.core.conditions point).note other := by
    intro other created
    by_cases same : other = thread
    · subst same
      refine Leaves.of_other created rfl rfl ?_ (fun _ => valid) ?_
      · exact id
      rintro (terminated | detached)
      · exact lives.1 (isState.symm.trans terminated)
      · exact lives.2 (isState.symm.trans detached)
    · exact Leaves.of_same created rfl rfl id (Function.update_of_ne same _ _)
  apply telling.moves leaves
  · intro other created
    by_cases same : other = thread
    · subst same
      have isPoint : Function.update state.point other point other = point :=
        Function.update_self _ _ _
      refine Or.inr ⟨ending, ?_⟩
      change Carries _ other (Function.update state.point other point other)
      rw [isPoint]
      exact (leaves other created).carries carries
    · exact Or.inl (Function.update_of_ne same _ _)
  · exact fun _ running _ => running

/-- The running thread writes what ends it or tells of its end. -/
theorem writes (telling : state.Telling) (control : state.core.control = .thread thread)
    (threadState : ThreadState) (returnData conditions : Nat → Nat) (point : Point)
    (data : ∀ other, other ≠ thread → returnData other = state.core.returnData other)
    (set : ∀ condition, state.core.conditions condition ≠ 0 → conditions condition ≠ 0)
    (told : point.Ending ∨ conditions (threadCondition thread) ≠ 0 ∧
      (threadState = .terminated → returnData thread = state.passed thread))
    (carries : ∀ after : PointCore, after.core.state thread = threadState →
      after.core.returnData thread = returnData thread →
      after.passed thread = state.passed thread → after.Carries thread point) :
    (Steady.mark state thread threadState (state.core.waitConditions thread) returnData conditions
      point).note.Telling := by
  have isState : Function.update state.core.state thread threadState thread = threadState :=
    Function.update_self _ _ _
  have isPoint : Function.update state.point thread point thread = point :=
    Function.update_self _ _ _
  apply telling.ends control
  · intro other created different
    exact ⟨Leaves.of_same created rfl (data other different) (set _)
      (Function.update_of_ne different _ _), Function.update_of_ne different _ _⟩
  · rcases told with ending | ⟨signalled, value⟩
    · refine Or.inr ⟨control, ?_⟩
      change (Function.update state.point thread point thread).Ending
      rw [isPoint]
      exact ending
    · exact Or.inl ⟨signalled, fun terminated => value (isState.symm.trans terminated)⟩
  · change Carries _ thread (Function.update state.point thread point thread)
    rw [isPoint]
    exact carries _ isState rfl rfl

theorem statement (telling : state.Telling) (steady : state.Steady)
    (control : state.core.control = .thread thread)
    (ran : state.statement thread (state.point thread) = some middle) : middle.note.Telling := by
  obtain ⟨created, -, -⟩ := steady.held control
  obtain ⟨notReady, valid, -⟩ := steady.current thread control
  have progress := steady.progress thread created valid
  have carries := telling.carries thread created valid
  cases point : state.point thread with
  | own =>
      rw [point] at ran
      cases ran
  | testCondition condition target =>
      rw [point] at ran
      have ending : ¬ (state.point thread).Ending := by simp [Point.Ending, point]
      by_cases waits : state.core.mustWait condition
      · simp only [PointCore.statement, waits, if_true, Option.some_inj] at ran
        exact ran ▸ telling.goes control ending trivial
      · simp only [PointCore.statement, waits, if_false, Option.some_inj] at ran
        exact ran ▸ telling.goes control ending trivial
  | setWaitCondition condition target =>
      rw [point] at ran progress
      have ending : ¬ (state.point thread).Ending := by simp [Point.Ending, point]
      have running : state.core.state thread = .running := progress.1.resolve_right notReady
      have same : Steady.mark state thread (state.core.state thread) condition
          state.core.returnData state.core.conditions (.setCondWait condition target) = middle := by
        rw [← Option.some_inj.mp ran]
        simp [Steady.mark, withCore, goTo]
      have lives : state.core.state thread ≠ .terminated ∧ state.core.state thread ≠ .detached := by
        rw [running]
        decide
      exact same ▸ telling.marks control valid ending _ condition lives trivial
  | setCondWait condition target =>
      rw [point] at ran
      have ending : ¬ (state.point thread).Ending := by simp [Point.Ending, point]
      have same : Steady.mark state thread .condWait (state.core.waitConditions thread)
          state.core.returnData state.core.conditions
          (.yieldThread (.waitCondition condition target)) = middle := by
        rw [← Option.some_inj.mp ran]
        simp [Steady.mark, withCore, goTo, Core.setState]
      exact same ▸ telling.marks control valid ending .condWait _ (by decide) trivial
  | yieldThread caller =>
      rw [point] at ran
      have ending : ¬ (state.point thread).Ending := by simp [Point.Ending, point]
      exact Option.some_inj.mp ran ▸ telling.goes control ending trivial
  | setNextThread caller =>
      rw [point] at ran
      have ending : ¬ (state.point thread).Ending := by simp [Point.Ending, point]
      have same : ({ state with nextThread := 0 } : PointCore) = state := by
        rw [← steady.nextThread]
      simp only [PointCore.statement, same, Option.some_inj] at ran
      exact ran ▸ telling.goes control ending trivial
  | switchToThread caller =>
      rw [point] at ran progress
      have ending : ¬ (state.point thread).Ending := by simp [Point.Ending, point]
      have back : state.Progress thread (.returning caller) := progress
      exact telling.preempt steady control back ending trivial ran
  | returning caller =>
      rw [point] at ran
      have ending : ¬ (state.point thread).Ending := by simp [Point.Ending, point]
      cases caller with
      | thread => exact Option.some_inj.mp ran ▸ telling.goes control ending trivial
      | terminateThread => cases ran
      | waitCondition condition target =>
          cases target with
          | none => exact Option.some_inj.mp ran ▸ telling.goes control ending trivial
          | some target => exact Option.some_inj.mp ran ▸ telling.goes control ending trivial
  | finishWait target =>
      rw [point] at ran
      have ending : ¬ (state.point thread).Ending := by simp [Point.Ending, point]
      exact Option.some_inj.mp ran ▸ telling.finish control ending target
  | testDetached returnValue =>
      have ending : ¬ (state.point thread).Ending := by simp [Point.Ending, point]
      rw [point] at ran carries
      by_cases detached : state.core.flags thread &&& threadFlagDetached ≠ 0
      · simp only [PointCore.statement, detached, ne_eq, not_false_eq_true, if_true,
          Option.some_inj] at ran
        exact ran ▸ telling.goes control ending trivial
      · simp only [PointCore.statement, detached, if_false, Option.some_inj] at ran
        have passed : state.Carries thread (.setTerminated returnValue) := carries
        exact ran ▸ telling.goes control ending passed
  | setDetached =>
      rw [point] at ran
      have same : Steady.mark state thread .detached (state.core.waitConditions thread)
          state.core.returnData state.core.conditions .signalCondition = middle := by
        rw [← Option.some_inj.mp ran]
        simp [Steady.mark, withCore, goTo, Core.setState]
      have wrote := telling.writes control .detached state.core.returnData state.core.conditions
        .signalCondition (fun _ _ => rfl) (fun _ => id) (Or.inl (Or.inl rfl))
        fun after isState _ _ terminated => absurd (isState.symm.trans terminated) (by decide)
      exact same ▸ wrote
  | setTerminated returnValue =>
      rw [point] at ran carries
      have same : Steady.mark state thread .terminated (state.core.waitConditions thread)
          state.core.returnData state.core.conditions (.setReturnData returnValue) = middle := by
        rw [← Option.some_inj.mp ran]
        simp [Steady.mark, withCore, goTo, Core.setState]
      have wrote := telling.writes control .terminated state.core.returnData state.core.conditions
        (.setReturnData returnValue) (fun _ _ => rfl) (fun _ => id)
        (Or.inl (Or.inr ⟨returnValue, rfl⟩)) fun after _ _ passed => passed.trans carries
      exact same ▸ wrote
  | setReturnData returnValue =>
      rw [point] at ran carries
      have same : Steady.mark state thread (state.core.state thread)
          (state.core.waitConditions thread)
          (Function.update state.core.returnData thread returnValue) state.core.conditions
          .signalCondition = middle := by
        rw [← Option.some_inj.mp ran]
        simp [Steady.mark, withCore, goTo]
      have stored : Function.update state.core.returnData thread returnValue thread =
          state.passed thread := by
        rw [Function.update_self]
        exact Eq.symm carries
      have wrote := telling.writes control (state.core.state thread)
        (Function.update state.core.returnData thread returnValue) state.core.conditions
        .signalCondition (fun _ different => Function.update_of_ne different _ _) (fun _ => id)
        (Or.inl (Or.inl rfl))
        fun after _ data passed _ => data.trans (stored.trans passed.symm)
      exact same ▸ wrote
  | signalCondition =>
      rw [point] at ran carries
      have same : Steady.mark state thread (state.core.state thread)
          (state.core.waitConditions thread) state.core.returnData
          (Function.update state.core.conditions (threadCondition thread) 1)
          (.yieldThread .terminateThread) = middle := by
        rw [← Option.some_inj.mp ran]
        simp [Steady.mark, withCore, goTo, Core.signalCondition]
      have wrote := telling.writes control (state.core.state thread) state.core.returnData
        (Function.update state.core.conditions (threadCondition thread) 1)
        (.yieldThread .terminateThread) (fun _ _ => rfl)
        (fun condition set => ne_of_signalled set)
        (Or.inr ⟨by rw [Function.update_self]; decide, carries⟩) fun _ _ _ _ => trivial
      exact same ▸ wrote

theorem createThread (telling : state.Telling) (steady : state.Steady)
    (caller : state.core.control = .boot ∨ ∃ thread, state.Calling thread) (init : ThreadInit)
    {page : Nat} (fresh : state.core.poolThreads = 0 → state.core.FreshPage page)
    (ran : state.createThread init page = some middle) : middle.note.Telling := by
  rcases steady.tracked.creates (steady.calling caller) init fresh with refused | ⟨thread, core, made,
    -, nonNull, control, -, creates, notRunning, -, -, ready, states⟩
  · rw [PointCore.createThread, refused] at ran
    refine Option.some_inj.mp ran ▸ telling.moves ?_ (fun _ _ => Or.inl rfl) fun _ runs _ => runs
    exact fun other created => Leaves.of_same created rfl rfl id rfl
  · rw [PointCore.createThread, made, Option.map_some, Option.some_inj] at ran
    dsimp only at ran
    rw [if_neg nonNull] at ran
    subst ran
    have leaves : ∀ other ∈ core.created, other ≠ thread → state.Leaves (note { state with
        core, point := Function.update state.point thread .own }) other := by
      intro other isCreated different
      rw [creates.created] at isCreated
      have old := (List.mem_cons.mp isCreated).resolve_left different
      refine Leaves.of_same old rfl (congrFun creates.returnData other) ?_ (states other different)
      change _ → core.conditions (threadCondition other) ≠ 0
      rw [creates.conditions, Function.update_of_ne fun same => different (threadCondition_inj same)]
      exact id
    constructor
    · intro other isCreated stopped
      by_cases same : other = thread
      · exact absurd stopped (not_stopped_of_alive (Or.inr (same ▸ ready)))
      · have left := leaves other isCreated same
        rcases telling.stopped other left.created (left.stopped stopped) with told | ⟨runs, ending⟩
        · exact Or.inl (left.told told)
        · refine Or.inr ⟨control.trans runs, ?_⟩
          change (Function.update state.point thread .own other).Ending
          rw [Function.update_of_ne same]
          exact ending
    · intro other isCreated valid
      change Carries _ other (Function.update state.point thread .own other)
      by_cases same : other = thread
      · rw [same, Function.update_self]
        trivial
      · have left := leaves other isCreated same
        rw [Function.update_of_ne same]
        exact left.carries (telling.carries other left.created (left.valid valid))

theorem begins (telling : state.Telling) (own : state.Calling thread) (point : Point)
    (passed : Nat → Nat) (moments : Nat → List (Nat → Nat))
    (kept : ∀ other, other ≠ thread → passed other = state.passed other)
    (running : ¬ state.core.Stopped thread)
    (carries : ∀ after : PointCore, after.passed thread = passed thread →
      after.Carries thread point) :
    (note { state.goTo thread point with passed, moments }).Telling := by
  have isPoint : Function.update state.point thread point thread = point :=
    Function.update_self _ _ _
  constructor
  · intro other created stopped
    by_cases same : other = thread
    · exact absurd stopped (same ▸ running)
    · rcases telling.stopped other created stopped with told | ⟨runs, -⟩
      · exact Or.inl ⟨told.1, fun terminated => (told.2 terminated).trans (kept other same).symm⟩
      · exact absurd (Control.thread.inj (runs.symm.trans own.1)) same
  · intro other created valid
    change Carries _ other (Function.update state.point thread point other)
    by_cases same : other = thread
    · subst same
      rw [isPoint]
      exact carries _ rfl
    · rw [Function.update_of_ne same]
      have left : state.Leaves (note { state.goTo thread point with passed, moments }) other := by
        refine Leaves.of_same created (kept other same) rfl ?_ rfl
        exact id
      exact left.carries (telling.carries other created valid)

theorem schedules (telling : state.Telling) {core : Core} (data : state.core.SameData core)
    (idle : ∀ thread, state.core.control ≠ .thread thread)
    (states : ∀ thread, core.state thread = state.core.state thread ∨
      core.Alive thread ∧ state.core.state thread ≠ .invalid ∨ core.state thread = .invalid) :
    (state.withCore core).note.Telling := by
  apply telling.moves
  · intro thread isCreated
    have old : thread ∈ state.core.created := data.created ▸ isCreated
    have kept : state.core.conditions (threadCondition thread) ≠ 0 →
        core.conditions (threadCondition thread) ≠ 0 := by
      rw [data.conditions]
      exact id
    have returnData := congrFun data.returnData thread
    rcases states thread with same | ⟨alive, valid⟩ | invalid
    · exact Leaves.of_same old rfl returnData kept same
    · exact Leaves.of_other old rfl returnData kept (fun _ => valid) (not_stopped_of_alive alive)
    · refine Leaves.of_other old rfl returnData kept (fun valid => absurd invalid valid) ?_
      rintro (terminated | detached)
      · exact absurd (invalid.symm.trans terminated) (by decide)
      · exact absurd (invalid.symm.trans detached) (by decide)
  · exact fun _ _ => Or.inl rfl
  · exact fun thread control _ => absurd control (idle thread)

theorem turn (telling : state.Telling) (steady : state.Steady) {label : Turn}
    (spares : state.SparesEnding label) (enabled : state.Enabled label)
    (ran : state.next label = some after) : after.Telling := by
  have current : ∀ {thread}, state.core.control = .thread thread → state.core.current = thread := by
    intro thread running
    unfold Core.current
    rw [running]
  have still : state.note.Telling :=
    telling.moves (fun _ created => Leaves.of_same created rfl rfl id rfl) (fun _ _ => Or.inl rfl)
      fun _ running _ => running
  have notStopped : ∀ {thread}, state.Calling thread → ¬ state.core.Stopped thread :=
    fun own => not_stopped_of_alive (Or.inl (steady.calling (Or.inr ⟨_, own⟩) _ own.1))
  obtain ⟨middle, turned, same⟩ := Option.map_eq_some_iff.mp ran
  subst same
  cases label with
  | createThread init page => exact telling.createThread steady enabled.1 init enabled.2 turned
  | detachThread target =>
      rw [← Option.some_inj.mp turned]
      exact telling.detach target
  | waitThread target =>
      obtain ⟨⟨thread, own⟩, pointer⟩ := enabled
      rw [← Option.some_inj.mp turned, current own.1]
      unfold PointCore.waitThread
      split
      · split
        · exact telling.begins own _ _ _ (fun _ _ => rfl) (notStopped own) fun _ _ => trivial
        · have ending : ¬ (state.point thread).Ending := by simp [Point.Ending, own.2]
          have finished := telling.finish own.1 ending target
          have stays : (state.withCore (state.core.finishWaitThread thread target).2).goTo thread
              .own = state.withCore (state.core.finishWaitThread thread target).2 := by
            have point : Function.update state.point thread .own = state.point :=
              Function.update_eq_self_iff.mpr own.2.symm
            unfold goTo withCore
            rw [point]
          rwa [stays] at finished
      · exact still
  | waitCondition condition =>
      obtain ⟨thread, own⟩ := enabled
      rw [← Option.some_inj.mp turned, current own.1]
      exact telling.begins own _ _ _ (fun _ _ => rfl) (notStopped own) fun _ _ => trivial
  | yieldThread =>
      obtain ⟨thread, own⟩ := enabled
      rw [← Option.some_inj.mp turned, current own.1]
      exact telling.begins own (.yieldThread .thread) state.passed state.moments (fun _ _ => rfl)
        (notStopped own) fun _ _ => trivial
  | terminateThread returnValue =>
      obtain ⟨thread, own⟩ := enabled
      rw [← Option.some_inj.mp turned, current own.1]
      exact telling.begins own (.testDetached returnValue) _ state.moments
        (fun _ different => Function.update_of_ne different _ _) (notStopped own)
        fun _ passed => passed.trans (Function.update_self _ _ _)
  | signalCondition condition =>
      rw [← Option.some_inj.mp turned]
      apply telling.moves
      · exact fun _ created => Leaves.of_same created rfl rfl ne_of_signalled rfl
      · exact fun _ _ => Or.inl rfl
      · exact fun _ running _ => running
  | statement =>
      obtain ⟨thread, running⟩ := enabled
      have ran : state.statement state.core.current (state.point state.core.current) =
          some middle := turned
      rw [current running] at ran
      exact telling.statement steady running ran
  | timer =>
      obtain ⟨thread, running⟩ := enabled
      have ran : state.preemptThread state.core.current = some middle := turned
      obtain ⟨-, valid, -⟩ := steady.current thread running
      have created := (steady.held running).1
      have stays : state.goTo thread (state.point thread) = state := by
        unfold goTo
        rw [Function.update_eq_self]
      rw [current running, ← stays] at ran
      exact telling.preempt steady running (steady.progress thread created valid)
        (spares rfl thread running) (telling.carries thread created valid) ran
  | runScheduler =>
      rw [← Option.some_inj.mp turned]
      have booting : state.core.control = .boot := enabled
      apply telling.moves
      · exact fun _ created => Leaves.of_same created rfl rfl id rfl
      · exact fun _ _ => Or.inl rfl
      · exact fun _ running _ => absurd (booting.symm.trans running) nofun
  | wakeThreads =>
      obtain ⟨core, woken, -, -, data, -, wasReady, running, states, -⟩ :=
        steady.tracked.wakes enabled
      obtain ⟨core', woken', same⟩ := Option.map_eq_some_iff.mp turned
      rw [← same, ← Option.some_inj.mp (woken.symm.trans woken')]
      have scheduling : state.core.control = .scheduler := enabled
      refine telling.schedules data (by simp [scheduling]) fun thread => ?_
      by_cases isCleanup : thread = state.core.cleanupThread
      · rw [isCleanup]
        exact Or.inr (Or.inl ⟨Or.inl running, by rw [wasReady]; decide⟩)
      · rcases states thread isCleanup with unchanged | ⟨waits, -, ready⟩
        · exact Or.inl unchanged
        · exact Or.inr (Or.inl ⟨Or.inr ready, by rw [waits]; decide⟩)
  | cleanupThreads =>
      obtain ⟨core, cleaned, -, -, -, wasRunning, ready, states⟩ := steady.tracked.cleans enabled
      obtain ⟨core', cleaned', same⟩ := Option.map_eq_some_iff.mp turned
      rw [← same, ← Option.some_inj.mp (cleaned.symm.trans cleaned')]
      have cleaning : state.core.control = .cleanup := enabled
      refine telling.schedules (Core.cleanupThreads_sameData cleaned) (by simp [cleaning])
        fun thread => ?_
      by_cases isCleanup : thread = state.core.cleanupThread
      · rw [isCleanup]
        exact Or.inr (Or.inl ⟨Or.inr ready, by rw [wasRunning]; decide⟩)
      · rcases states thread isCleanup with unchanged | ⟨-, invalid⟩
        · exact Or.inl unchanged
        · exact Or.inr (Or.inr invalid)
  | dispatchThread =>
      obtain ⟨-, runs⟩ := steady.tracked.dispatches enabled
      have dispatching : state.core.control = .dispatch := enabled
      have noNext : ({ state.withCore state.core.dispatchThread with nextThread := 0 } : PointCore) =
          state.withCore state.core.dispatchThread := by
        unfold withCore
        rw [← steady.nextThread]
      rw [← Option.some_inj.mp turned, noNext]
      refine telling.schedules (Core.dispatchThread_sameData state.core) (by simp [dispatching])
        fun thread => ?_
      rcases runs with ⟨-, states⟩ | ⟨next, -, ready, states⟩
      · exact Or.inl (congrFun states thread)
      · by_cases same : thread = next
        · subst same
          refine Or.inr (Or.inl ⟨Or.inl ?_, by rw [ready]; decide⟩)
          rw [states, Function.update_self]
        · exact Or.inl (by rw [states, Function.update_of_ne same])

theorem start (initial : machine.start state) : state.Telling := by
  obtain ⟨starts, -, own⟩ := initial
  have tracked := Core.Tracked.start starts
  obtain ⟨boot, alone, -⟩ := Core.start_alone starts
  constructor
  · intro thread created stopped
    rw [alone] at created
    have cleanup := tracked.cleanup
    rw [boot] at cleanup
    rw [List.mem_singleton.mp created] at stopped
    exact absurd stopped (not_stopped_of_alive (Or.inr cleanup))
  · intro thread _ _
    rw [own thread]
    trivial

end Telling

def OnDeleteList (state : PointCore) (thread : Nat) : Prop :=
  ∃ threads, Chain state.core.queueNext state.core.deleteList threads ∧ threads.count thread = 1

/-- What the end of a thread promises in a state, and of a scan that begins in it. -/
structure KeepsEndings (state : PointCore) : Prop where
  terminated : ∀ thread ∈ state.core.created, state.core.state thread = .terminated →
    state.core.conditions (threadCondition thread) ≠ 0 ∧
      state.core.returnData thread = state.passed thread
  detached : ∀ thread ∈ state.core.created, state.core.state thread = .detached →
    state.OnDeleteList thread
  waiters : ∀ after, machine.step state .wakeThreads after →
    ∀ thread ∈ state.core.created, state.core.Stopped thread → ∀ waiter ∈ state.core.created,
    state.core.state waiter = .condWait →
    state.core.waitConditions waiter = threadCondition thread →
    after.core.state waiter = .ready ∧ after.core.At .readyList waiter

theorem onDeleteList (steady : state.Steady) (idle : ∀ thread, state.core.control ≠ .thread thread)
    (created : thread ∈ state.core.created) (detached : state.core.state thread = .detached) :
    state.OnDeleteList thread := by
  have tracked := steady.tracked
  rw [Core.plain_idle idle] at tracked
  obtain ⟨lists, placed⟩ := tracked.placed
  have free : thread ∉ state.core.unflagged.held := by
    rw [@Core.Tracked.held_idle state.core.unflagged idle]
    intro member
    have cleanup := tracked.cleanup
    rw [← show thread = state.core.unflagged.cleanupThread from List.mem_singleton.mp member,
      show state.core.unflagged.state thread = .detached from detached] at cleanup
    split at cleanup <;> cases cleanup
  have member := Core.listed_of_state placed created free (Or.inr (Or.inr ⟨detached, rfl⟩))
  exact ⟨lists .delete, placed.queues.chain .delete,
    Core.count_of_nodup (placed.queues.nodup .delete) member⟩

/-- Where the timer spares the end of `k_proc_TerminateThread`, no end is lost. -/
theorem endings_kept (state : PointCore)
    (reachable : (machine.restrict SparesEnding).Reachable state)
    (choosing : ∀ thread, state.core.control ≠ .thread thread) : state.KeepsEndings := by
  obtain ⟨steady, telling⟩ : state.Steady ∧ state.Telling := by
    apply Machine.invariant (machine.restrict SparesEnding) _ _ reachable
    · exact fun _ initial => ⟨Steady.start initial, Telling.start initial⟩
    · rintro before label after ⟨steady, telling⟩ ⟨spares, enabled, ran⟩
      exact ⟨steady.turn enabled ran, telling.turn steady spares enabled ran⟩
  have told : ∀ thread ∈ state.core.created, state.core.Stopped thread → state.Told thread := by
    intro thread created stopped
    rcases telling.stopped thread created stopped with told | ⟨runs, -⟩
    · exact told
    · exact absurd runs (choosing thread)
  constructor
  · intro thread created terminated
    have known := told thread created (Or.inl terminated)
    exact ⟨known.1, known.2 terminated⟩
  · exact fun thread created detached => onDeleteList steady choosing created detached
  · intro after step thread created stopped waiter isCreated waits names
    apply steady.keepsWakeups.woken after step waiter isCreated waits
    rw [names]
    exact (told thread created stopped).1

/-- A thread waits for another one, which then returns 7. -/
def joinedRun : List Turn :=
  [.createThread ⟨1, 1, 1⟩ 8192, .createThread ⟨1, 1, 1⟩ 8192, .runScheduler,
    .wakeThreads, .cleanupThreads, .dispatchThread, .waitThread 4392,
    .statement, .statement, .statement, .statement, .statement, .statement,
    .wakeThreads, .cleanupThreads, .dispatchThread, .terminateThread 7,
    .statement, .statement, .statement, .statement, .statement, .statement, .statement]

theorem joinedRun_ends : ((Machine.follow attempt initState joinedRun).map fun state =>
    decide (state.core.control = .scheduler ∧ state.core.state 4392 = .terminated ∧
      state.core.state 4248 = .condWait)) = some true := by
  decide +kernel

theorem endings_kept_joined : ∃ state, (machine.restrict SparesEnding).Reachable state ∧
    state.core.state 4392 = .terminated ∧ state.core.state 4248 = .condWait ∧
    state.KeepsEndings := by
  obtain ⟨state, followed, ended⟩ := Option.map_eq_some_iff.mp joinedRun_ends
  obtain ⟨scheduling, terminated, waits⟩ := of_decide_eq_true ended
  have noTimer : ∀ label ∈ joinedRun, ∀ state, SparesEnding state label := by
    have spared : ∀ label ∈ joinedRun, label ≠ .timer := by decide
    exact fun label member _ isTimer => absurd isTimer (spared label member)
  have reachable := Machine.follow_restrict machine (fun _ _ _ => step_of_attempt) noTimer
    (Machine.reachable_start (machine.restrict SparesEnding) initState_starts) followed
  exact ⟨state, reachable, terminated, waits, endings_kept state reachable (by simp [scheduling])⟩

/-- The same, but the timer strikes right after the thread has been marked as terminated. -/
def struckRun : List Turn :=
  [.createThread ⟨1, 1, 1⟩ 8192, .createThread ⟨1, 1, 1⟩ 8192, .runScheduler,
    .wakeThreads, .cleanupThreads, .dispatchThread, .waitThread 4392,
    .statement, .statement, .statement, .statement, .statement, .statement,
    .wakeThreads, .cleanupThreads, .dispatchThread, .terminateThread 7,
    .statement, .statement, .timer]

theorem struckRun_ends : ((Machine.follow attempt initState struckRun).map fun state =>
    decide (state.core.control = .scheduler ∧ 4392 ∈ state.core.created ∧
      state.core.state 4392 = .terminated ∧ state.core.readyThreads = 0 ∧
      state.core.conditions (threadCondition 4392) = 0 ∧
      state.core.returnData 4392 = 0 ∧ state.passed 4392 = 7 ∧
      state.core.state 4248 = .condWait ∧
      state.core.waitConditions 4248 = threadCondition 4392)) = some true := by
  decide +kernel

/-- The thread is on no queue, its condition is not signalled and its value is not stored. -/
theorem struckThread_untold : ∃ state, machine.Reachable state ∧
    state.core.control = .scheduler ∧ 4392 ∈ state.core.created ∧
    state.core.state 4392 = .terminated ∧ ¬ state.core.At .readyList 4392 ∧
    state.core.conditions (threadCondition 4392) = 0 ∧
    state.core.returnData 4392 ≠ state.passed 4392 ∧
    state.core.state 4248 = .condWait ∧
    state.core.waitConditions 4248 = threadCondition 4392 := by
  obtain ⟨state, followed, ended⟩ := Option.map_eq_some_iff.mp struckRun_ends
  obtain ⟨scheduling, created, terminated, noneReady, unset, returned, passed, waits, names⟩ :=
    of_decide_eq_true ended
  have reachable := machine.follow_reachable (fun _ _ _ => step_of_attempt)
    (machine.reachable_start initState_starts) followed
  refine ⟨state, reachable, scheduling, created, terminated, ?_, unset, ?_, waits, names⟩
  · rintro ⟨threads, chain, member⟩
    rw [noneReady] at chain
    rw [chain.eq_nil_iff.mpr rfl] at member
    cases member
  · rw [returned, passed]
    decide

end PointCore

end DoggOS.Proc

/-
`k_proc_WaitThread` over whole runs.

A thread that is resumed in `k_proc_WaitThread` was woken by the end of the thread
that it waits for.  Where no slot is used again and no running thread is detached
while somebody waits for it, that thread is still the one of the call, and what it
passed is in its slot.
-/

import DoggOS.Proc.ThreadJoins

namespace DoggOS.Proc.JoinCore

variable {state before after : JoinCore} {thread : Nat}

theorem current_of (control : state.core.control = .thread thread) :
    state.core.current = thread := by
  unfold Core.current
  rw [control]

namespace Joining

/-- The history of the calls matters only to threads that wait. -/
theorem remember (joining : Joining state) (free : state.core.waitFrames thread = none)
    (birth : Nat) : Joining { state with calls := Function.update state.calls thread birth } := by
  refine ⟨joining.tracked, fun other created => ?_, fun waiter target frame => ?_⟩
  · have known := joining.known other created
    exact ⟨known.signalled, known.terminated, known.detached⟩
  · have different : waiter ≠ thread := by
      rintro rfl
      cases free.symm.trans frame
    obtain ⟨called, known⟩ := joining.frames waiter target frame
    exact ⟨(Function.update_of_ne different _ _).trans called, known⟩

theorem condition_ne_zero (thread : Nat) : threadCondition thread ≠ 0 := by
  unfold threadCondition
  omega

theorem gone_of_not_waiting (joining : Joining state) {target : Nat}
    (created : target ∈ state.core.created)
    (waits : ¬ (state.core.state target ≠ .terminated ∧
      state.core.mustWait (threadCondition target))) : Gone state.core target := by
  by_cases terminated : state.core.state target = .terminated
  · exact Or.inl terminated
  · apply (joining.known target created).signalled
    intro unset
    exact waits ⟨terminated, condition_ne_zero target, unset⟩

/-- A resumed thread finds what it waits for. -/
theorem done_of_running (joining : Joining state) (running : state.core.state thread = .running)
    {target : Nat} (frame : state.core.waitFrames thread = some target) :
    state.calls thread = state.births target ∧ Done state target := by
  obtain ⟨called, done | pending⟩ := joining.frames thread target frame
  · exact ⟨called, done⟩
  · exact absurd (running.symm.trans pending.1) (by decide)

theorem wait (joining : Joining state) {target : Nat}
    (control : state.core.control = .thread thread) (free : state.core.waitFrames thread = none)
    (pointer : state.core.Pointer target) {core : Core} (tracked : core.Tracked)
    (called : (state.core.waitThread thread target).map Prod.snd = some core) :
    Joining { state with
      core, calls := Function.update state.calls thread (state.births target) } := by
  have running := (joining.tracked.running thread control).1
  unfold Core.waitThread at called
  by_cases valid : state.core.valid target ∧ thread ≠ target
  · rw [if_pos valid] at called
    have created := pointer.resolve_left valid.1.1
    by_cases flagged : state.core.flags target &&& threadFlagDetached ≠ 0
    · rw [if_pos flagged] at called
      obtain rfl := Option.some_inj.mp called
      exact joining.remember free _
    · rw [if_neg flagged] at called
      by_cases waits : state.core.state target ≠ .terminated ∧
          state.core.mustWait (threadCondition target)
      · rw [if_pos waits] at called
        have living : ¬ Gone state.core target := by
          rintro (terminated | detached | invalid)
          · exact waits.1 terminated
          · exact flagged ((joining.known target created).detached detached)
          · exact valid.1.2 invalid
        have mustWait : Core.mustWait { state.core with
            waitFrames := Function.update state.core.waitFrames thread (some target) }
            (threadCondition target) := waits.2
        unfold Core.waitCondition at called
        rw [if_pos mustWait, Option.map_map] at called
        obtain ⟨core', ran, rfl⟩ := Option.map_eq_some_iff.mp called
        refine joining.lives control .condWait (threadCondition target)
          (Function.update state.core.waitFrames thread (some target)) _
          (Or.inr ⟨rfl, condition_ne_zero target⟩)
          (fun _ different => Function.update_of_ne different _ _)
          (fun _ different => Function.update_of_ne different _ _) tracked ?_ ran
        intro other frame
        rw [Function.update_self] at frame
        obtain rfl := Option.some_inj.mp frame
        exact ⟨created, Function.update_self _ _ _,
          Or.inr ⟨valid.2.symm, rfl, rfl, not_not.mp flagged, living⟩⟩
      · rw [if_neg waits] at called
        obtain rfl := Option.some_inj.mp called
        have finished := joining.finish control running tracked
          (joining.gone_of_not_waiting created waits)
        apply finished.remember
        change (Core.detachThread _ target).waitFrames thread = none
        rw [Core.detachThread_waitFrames]
        exact Function.update_self _ _ _
  · rw [if_neg valid] at called
    obtain rfl := Option.some_inj.mp called
    exact joining.remember free _

theorem call (joining : Joining state) {label : SchedulerCall} (enabled : state.Enabled label)
    (spares : state.SparesAwaited label) (ran : state.call label = some after) :
    Joining after := by
  obtain ⟨core, called, rfl⟩ := Option.map_eq_some_iff.mp ran
  obtain ⟨core', called', tracked⟩ := joining.tracked.call enabled.1
  obtain rfl : core' = core := Option.some_inj.mp (called'.symm.trans called)
  have running : ∀ thread, state.core.control = .thread thread →
      state.core.state thread = .running :=
    fun thread control => (joining.tracked.running thread control).1
  cases label with
  | createThread init page =>
      rcases joining.tracked.plain.creates running init enabled.1.2 with refused | ⟨thread, made,
        created, -, nonNull, -, -, creates, -, -, -, ready, others⟩
      · have same : core' = state.core := by
          rw [Core.call, refused] at called
          exact (Option.some_inj.mp called).symm
        have noThread : state.newThread init page = 0 := by
          rw [newThread, refused]
          rfl
        have births : state.birthsAfter (.createThread init page) = state.births := by
          rw [birthsAfter, if_pos noThread]
        rw [births, same]
        exact joining
      · obtain rfl : made = core' := by
          rw [Core.call, created] at called
          exact Option.some_inj.mp called
        have isThread : state.newThread init page = thread := by
          rw [newThread, created]
          rfl
        have births : state.birthsAfter (.createThread init page) =
            Function.update state.births thread (state.births thread + 1) := by
          rw [birthsAfter, isThread, if_neg nonNull]
        have spared : ∀ waiter, state.core.waitFrames waiter ≠ some thread := by
          intro waiter
          have free := spares waiter
          rw [isThread] at free
          exact free nonNull
        rw [births]
        exact joining.create tracked creates ready others spared
  | detachThread target =>
      obtain rfl := Option.some_inj.mp called
      refine joining.detach tracked fun waiter frame unflagged running => ?_
      exact absurd frame (spares unflagged running waiter)
  | waitThread target =>
      obtain ⟨⟨thread, control, free⟩, pointer⟩ := enabled.1
      rw [Core.call, current_of control] at called
      have calls : state.callsAfter (.waitThread target) =
          Function.update state.calls thread (state.births target) := by
        rw [callsAfter, current_of control]
      rw [calls]
      exact joining.wait control free pointer tracked called
  | finishWaitThread =>
      obtain ⟨thread, target, control, frame⟩ := enabled.1
      rw [Core.call, current_of control, frame] at called
      obtain rfl := Option.some_inj.mp called
      exact joining.finish control (running thread control) tracked
        (joining.done_of_running (running thread control) frame).2.2
  | waitCondition condition =>
      obtain ⟨thread, control, free⟩ := enabled.1
      rw [Core.call, current_of control] at called
      unfold Core.waitCondition at called
      by_cases waits : state.core.mustWait condition
      · rw [if_pos waits] at called
        refine joining.lives control .condWait condition state.core.waitFrames state.calls
          (Or.inr ⟨rfl, waits.1⟩) (fun _ _ => rfl) (fun _ _ => rfl) tracked ?_ called
        intro target frame
        cases free.symm.trans frame
      · rw [if_neg waits] at called
        obtain rfl := Option.some_inj.mp called
        exact joining
  | signalCondition condition =>
      obtain rfl := Option.some_inj.mp called
      obtain ⟨lists, placed⟩ := joining.tracked.placed
      refine ⟨tracked, fun thread created => ?_, joining.frames⟩
      obtain ⟨signalled, terminated, detached⟩ := joining.known thread created
      have other : threadCondition thread ≠ condition :=
        (enabled.2 thread (placed.created thread created)).symm
      refine ⟨fun set => signalled ?_, terminated, detached⟩
      exact fun unset => set ((Function.update_of_ne other _ _).trans unset)
  | yieldThread =>
      obtain ⟨thread, control⟩ := enabled.1
      rw [Core.call, current_of control] at called
      have states : Function.update state.core.state thread .running = state.core.state :=
        Function.update_eq_self_iff.mpr (running thread control).symm
      refine joining.lives control .running (state.core.waitConditions thread)
        state.core.waitFrames state.calls (Or.inl rfl) (fun _ _ => rfl) (fun _ _ => rfl) tracked ?_ ?_
      · intro target frame
        obtain ⟨isCall, done⟩ := joining.done_of_running (running thread control) frame
        exact ⟨joining.frame_created frame, isCall, Or.inl done⟩
      · rw [states, Function.update_eq_self]
        exact called
  | terminateThread returnValue =>
      obtain ⟨thread, control, free⟩ := enabled.1
      rw [Core.call, current_of control] at called
      have values : state.valuesAfter (.terminateThread returnValue) =
          Function.update state.values thread (Function.update (state.values thread)
            (state.births thread) (some returnValue)) := by
        rw [valuesAfter, current_of control]
      rw [values]
      exact joining.terminate control free tracked called
  | runScheduler =>
      obtain rfl := Option.some_inj.mp called
      exact joining.schedule tracked ⟨rfl, rfl, rfl, rfl, rfl, rfl⟩ fun _ => Or.inl rfl
  | wakeThreads =>
      obtain ⟨woken, ran, -, -, data, -, wasReady, isRunning, states, -⟩ :=
        joining.tracked.plain.wakes enabled.1
      obtain rfl : woken = core' := Option.some_inj.mp (ran.symm.trans called)
      refine joining.schedule tracked data fun thread => ?_
      by_cases isCleanup : thread = state.core.cleanupThread
      · rw [isCleanup]
        exact Or.inr (Or.inl ⟨Or.inr wasReady, Or.inl isRunning⟩)
      · rcases states thread isCleanup with same | woke
        · exact Or.inl same
        · exact Or.inr (Or.inr (Or.inl woke))
  | cleanupThreads =>
      obtain ⟨cleaned, cleans, -, -, -, wasRunning, isReady, states⟩ :=
        joining.tracked.plain.cleans enabled.1
      obtain rfl : cleaned = core' := Option.some_inj.mp (cleans.symm.trans called)
      refine joining.schedule tracked (Core.cleanupThreads_sameData cleans) fun thread => ?_
      by_cases isCleanup : thread = state.core.cleanupThread
      · rw [isCleanup]
        exact Or.inr (Or.inl ⟨Or.inl wasRunning, Or.inr isReady⟩)
      · rcases states thread isCleanup with same | destroyed
        · exact Or.inl same
        · exact Or.inr (Or.inr (Or.inr destroyed))
  | dispatchThread =>
      obtain rfl := Option.some_inj.mp called
      obtain ⟨-, runs⟩ := joining.tracked.plain.dispatches enabled.1
      refine joining.schedule tracked (Core.dispatchThread_sameData state.core) fun thread => ?_
      rcases runs with ⟨-, states⟩ | ⟨next, -, ready, states⟩
      · exact Or.inl (congrFun states thread)
      · by_cases same : thread = next
        · subst same
          refine Or.inr (Or.inl ⟨Or.inr ready, Or.inl ?_⟩)
          rw [states, Function.update_self]
        · exact Or.inl (by rw [states, Function.update_of_ne same])

end Joining

theorem finishWaitThread_same (core : Core) {current target other : Nat}
    (notCurrent : other ≠ current) (notTarget : other ≠ target) :
    SameThread core (core.finishWaitThread current target).2 other := by
  let cleared : Core := { core with
    waitConditions := Function.update core.waitConditions current 0
    waitFrames := Function.update core.waitFrames current none }
  obtain ⟨-, -, -, waits, data, conditions⟩ := Core.detachThread_keeps cleared target
  refine ⟨?_, (Core.detachThread_flags cleared target).1 other notTarget, congrFun data other, ?_,
    congrFun conditions _⟩
  · rcases Core.detachThread_state cleared target other with same | ⟨isTarget, -⟩
    · exact same
    · exact absurd isTarget notTarget
  · exact (congrFun waits other).trans (Function.update_of_ne notCurrent _ _)

theorem finish_rightly {label : SchedulerCall} (control : before.core.control = .thread thread)
    {target : Nat} (returned : before.returns label =
      some (target, (before.core.finishWaitThread thread target).1))
    (stored : after.core = (before.core.finishWaitThread thread target).2)
    (called : before.awaited label = before.births target) (done : Done before target) :
    JoinsRightly before after label := by
  constructor
  · intro slot value returns
    obtain ⟨rfl, result⟩ := Prod.mk.inj (Option.some_inj.mp (returned.symm.trans returns))
    refine ⟨before.core.returnData target, (Prod.mk.inj result).2.symm, ?_⟩
    rw [called]
    exact done.1
  · intro other different
    rw [current_of control] at different
    by_cases same : other = target
    · refine Or.inr ⟨some (before.core.returnData target), ?_, ?_⟩
      · rw [returned, same]
        rfl
      · rw [called, same]
    · rw [stored]
      exact Or.inl (finishWaitThread_same before.core different same)

theorem wait_rightly (joining : Joining before) {target : Nat}
    (control : before.core.control = .thread thread) (pointer : before.core.Pointer target)
    (called : (before.core.waitThread thread target).map Prod.snd = some after.core) :
    JoinsRightly before after (.waitThread target) := by
  have current := current_of control
  have returned : before.returns (.waitThread target) =
      (before.core.waitThread thread target).bind fun result =>
        result.1.map fun returned => (target, returned) := by
    rw [returns, current]
  unfold Core.waitThread at called returned
  by_cases valid : before.core.valid target ∧ thread ≠ target
  · rw [if_pos valid] at called returned
    have created := pointer.resolve_left valid.1.1
    by_cases flagged : before.core.flags target &&& threadFlagDetached ≠ 0
    · rw [if_pos flagged] at called returned
      have same : before.core = after.core := Option.some_inj.mp called
      refine ⟨fun slot value ok => ?_, fun other _ => Or.inl ?_⟩
      · exact absurd (returned.symm.trans ok) (by simp)
      · rw [← same]
        exact ⟨rfl, rfl, rfl, rfl, rfl⟩
    · rw [if_neg flagged] at called returned
      by_cases waits : before.core.state target ≠ .terminated ∧
          before.core.mustWait (threadCondition target)
      · rw [if_pos waits] at called returned
        have mustWait : Core.mustWait { before.core with
            waitFrames := Function.update before.core.waitFrames thread (some target) }
            (threadCondition target) := waits.2
        unfold Core.waitCondition at called returned
        rw [if_pos mustWait, Option.map_map] at called
        obtain ⟨core, ran, same⟩ := Option.map_eq_some_iff.mp called
        rw [if_pos mustWait, ran] at returned
        have frames : ∀ other frame, Function.update before.core.waitFrames thread (some target)
            other = some frame → frame ∈ before.core.created := by
          intro other frame isFrame
          by_cases own : other = thread
          · rw [own, Function.update_self] at isFrame
            exact Option.some_inj.mp isFrame ▸ created
          · rw [Function.update_of_ne own] at isFrame
            exact joining.frame_created isFrame
        obtain ⟨data, -, others⟩ := Joining.leaves_core joining.tracked control .condWait
          (threadCondition target) before.core.returnData before.core.conditions _ frames
          (Or.inr (Or.inl ⟨rfl, Joining.condition_ne_zero target⟩)) ran
        refine ⟨fun slot value ok => ?_, fun other different => Or.inl ?_⟩
        · cases returned.symm.trans ok
        · rw [current] at different
          rw [← show core = after.core from same]
          exact ⟨others other different, congrFun data.flags other, congrFun data.returnData other,
            (congrFun data.waitConditions other).trans (Function.update_of_ne different _ _),
            congrFun data.conditions _⟩
      · rw [if_neg waits] at called returned
        have gone := joining.gone_of_not_waiting created waits
        have terminated : before.core.state target = .terminated := by
          rcases gone with terminated | detached | invalid
          · exact terminated
          · exact absurd ((joining.known target created).detached detached) flagged
          · exact absurd invalid valid.1.2
        exact finish_rightly control returned (Option.some_inj.mp called).symm rfl
          ⟨(joining.known target created).terminated terminated, gone⟩
  · rw [if_neg valid] at called returned
    have same : before.core = after.core := Option.some_inj.mp called
    refine ⟨fun slot value ok => ?_, fun other _ => Or.inl ?_⟩
    · exact absurd (returned.symm.trans ok) (by simp)
    · rw [← same]
      exact ⟨rfl, rfl, rfl, rfl, rfl⟩

theorem Joining.rightly (joining : Joining before) {label : SchedulerCall}
    (enabled : before.Enabled label) (ran : before.call label = some after)
    (waits : Waits label) : JoinsRightly before after label := by
  obtain ⟨core, called, rfl⟩ := Option.map_eq_some_iff.mp ran
  cases label with
  | waitThread target =>
      obtain ⟨⟨thread, control, -⟩, pointer⟩ := enabled.1
      rw [Core.call, current_of control] at called
      exact wait_rightly joining control pointer called
  | finishWaitThread =>
      obtain ⟨thread, target, control, frame⟩ := enabled.1
      have running := (joining.tracked.running thread control).1
      obtain ⟨isCall, done⟩ := joining.done_of_running running frame
      have current := current_of control
      rw [Core.call, current, frame] at called
      refine finish_rightly control ?_ (Option.some_inj.mp called).symm ?_ done
      · rw [returns, current, frame]
        rfl
      · change before.calls before.core.current = before.births target
        rw [current]
        exact isCall
  | createThread _ _ | detachThread _ | waitCondition _ | signalCondition _ | yieldThread
  | terminateThread _ | runScheduler | wakeThreads | cleanupThreads | dispatchThread =>
      cases waits

theorem Joining.start (initial : machine.start state) : Joining state := by
  have tracked := Core.Tracked.start initial
  obtain ⟨booting, alone, unset, free⟩ := Core.start_alone initial
  have ready : state.core.state state.core.cleanupThread = .ready := by
    have cleanup := tracked.cleanup
    rw [booting] at cleanup
    exact cleanup
  have living := @not_gone_of_alive _ state.core (Or.inr ready)
  refine ⟨tracked, fun thread created => ?_, fun waiter thread frame => ?_⟩
  · rw [alone] at created
    obtain rfl := List.mem_singleton.mp created
    exact ⟨fun set => absurd unset set, fun ended => absurd (Or.inl ended) living,
      fun ended => absurd (Or.inr (Or.inl ended)) living⟩
  · cases (free waiter).symm.trans frame

/-- Where awaited threads are spared, `k_proc_WaitThread` returns their value and no more. -/
theorem joins_rightly (before after : JoinCore) (label : SchedulerCall)
    (reachable : (machine.restrict SparesAwaited).Reachable before)
    (step : machine.step before label after) (waits : Waits label) :
    JoinsRightly before after label := by
  have joining : Joining before := by
    apply Machine.invariant (machine.restrict SparesAwaited) _ _ reachable
    · exact fun _ => Joining.start
    · rintro state label next joining ⟨spares, enabled, ran⟩
      exact joining.call enabled spares ran
  exact joining.rightly step.1 step.2 waits

def initState : JoinCore where
  core := initCore
  births _ := 0
  values _ _ := none
  calls _ := 0

theorem initState_starts : machine.start initState := initCore_starts

theorem create_free {init : ThreadInit} {page : Nat}
    (reachable : (machine.restrict SparesAwaited).Reachable state)
    (free : ∀ waiter, state.core.waitFrames waiter = none)
    (attempted : state.attempt (.createThread init page) = some after) :
    (machine.restrict SparesAwaited).Reachable after ∧
      ∀ waiter, after.core.waitFrames waiter = none := by
  have step := step_of_attempt attempted
  have spares : state.SparesAwaited (.createThread init page) := by
    intro waiter _
    rw [free waiter]
    nofun
  refine ⟨Machine.reachable_step _ reachable ⟨spares, step⟩, ?_⟩
  obtain ⟨core, called, rfl⟩ := Option.map_eq_some_iff.mp step.2
  obtain ⟨⟨thread, made⟩, created, rfl⟩ := Option.map_eq_some_iff.mp called
  exact Core.createThread_free free created

def joinedRun : List SchedulerCall :=
  [.runScheduler, .wakeThreads, .cleanupThreads, .dispatchThread, .waitThread 4392,
    .wakeThreads, .cleanupThreads, .dispatchThread, .terminateThread 7,
    .wakeThreads, .cleanupThreads, .dispatchThread]

theorem joinedRun_returns : ((Machine.follow attempt initState
    (.createThread ⟨1, 1, 1⟩ 8192 :: .createThread ⟨1, 1, 1⟩ 8192 :: joinedRun)).bind fun state =>
      (state.attempt .finishWaitThread).map fun _ => state.returns .finishWaitThread) =
        some (some (4392, .ok, some 7)) := by
  decide +kernel

theorem joins_rightly_joined : ∃ before after, (machine.restrict SparesAwaited).Reachable before ∧
    machine.step before .finishWaitThread after ∧
    before.returns .finishWaitThread = some (4392, .ok, some 7) ∧
    JoinsRightly before after .finishWaitThread := by
  obtain ⟨before, followed, ended⟩ := Option.bind_eq_some_iff.mp joinedRun_returns
  obtain ⟨after, attempted, returned⟩ := Option.map_eq_some_iff.mp ended
  obtain ⟨one, first, rest⟩ := Option.bind_eq_some_iff.mp followed
  obtain ⟨two, second, rest⟩ := Option.bind_eq_some_iff.mp rest
  have started := Machine.reachable_start (machine.restrict SparesAwaited) initState_starts
  obtain ⟨reachable, free⟩ := create_free started (Core.start_alone initCore_starts).2.2.2 first
  obtain ⟨reachable, free⟩ := create_free reachable free second
  have spared : ∀ label ∈ joinedRun, ∀ state, SparesAwaited state label := by
    intro label member state
    simp only [joinedRun, List.mem_cons, List.not_mem_nil, or_false] at member
    rcases member with rfl | rfl | rfl | rfl | rfl | rfl | rfl | rfl | rfl | rfl | rfl | rfl <;>
      trivial
  have reached := Machine.follow_restrict machine (fun _ _ _ => step_of_attempt) spared
    reachable rest
  have step := step_of_attempt attempted
  exact ⟨before, after, reached, step, returned, joins_rightly before after _ reached step trivial⟩

/-- Two threads wait for a third one, and its slot is used again before the second resumes. -/
def reusedRun : List SchedulerCall :=
  [.createThread ⟨1, 1, 1⟩ 8192, .createThread ⟨1, 1, 1⟩ 8192, .createThread ⟨1, 1, 1⟩ 8192,
    .runScheduler, .wakeThreads, .cleanupThreads, .dispatchThread, .waitThread 4392,
    .wakeThreads, .cleanupThreads, .dispatchThread, .yieldThread,
    .wakeThreads, .cleanupThreads, .dispatchThread, .waitThread 4392,
    .wakeThreads, .cleanupThreads, .dispatchThread, .terminateThread 7,
    .wakeThreads, .cleanupThreads, .dispatchThread, .finishWaitThread, .yieldThread,
    .wakeThreads, .cleanupThreads, .dispatchThread, .yieldThread,
    .wakeThreads, .cleanupThreads, .dispatchThread, .createThread ⟨1, 1, 1⟩ 12288, .yieldThread,
    .wakeThreads, .cleanupThreads, .dispatchThread]

theorem reusedRun_returns : ((Machine.follow attempt initState reusedRun).bind fun before =>
    (before.attempt .finishWaitThread).map fun after =>
      decide (before.core.current = 4248 ∧
        before.returns .finishWaitThread = some (4392, .ok, some 7) ∧
        before.awaited .finishWaitThread = 1 ∧ before.births 4392 = 2 ∧
        before.core.flags 4392 &&& threadFlagDetached = 0 ∧
        after.core.flags 4392 &&& threadFlagDetached ≠ 0)) = some true := by
  decide +kernel

/-- The new thread of the slot is detached. -/
theorem reusedRun_detaches : ∃ before after, machine.Reachable before ∧
    machine.step before .finishWaitThread after ∧ before.core.current = 4248 ∧
    before.returns .finishWaitThread = some (4392, .ok, some 7) ∧
    ¬ JoinsRightly before after .finishWaitThread := by
  obtain ⟨before, followed, ended⟩ := Option.bind_eq_some_iff.mp reusedRun_returns
  obtain ⟨after, attempted, facts⟩ := Option.map_eq_some_iff.mp ended
  obtain ⟨current, returned, awaited, births, unflagged, flagged⟩ := of_decide_eq_true facts
  have reachable := machine.follow_reachable (fun _ _ _ => step_of_attempt)
    (machine.reachable_start initState_starts) followed
  refine ⟨before, after, reachable, step_of_attempt attempted, current, returned, fun rightly => ?_⟩
  have different : 4392 ≠ before.core.current := by
    rw [current]
    decide
  rcases rightly.others 4392 different with ⟨-, same, -⟩ | ⟨value, -, isAwaited⟩
  · rw [same] at flagged
    exact flagged unflagged
  · rw [births, awaited] at isAwaited
    exact absurd isAwaited (by decide)

end DoggOS.Proc.JoinCore

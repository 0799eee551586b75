/-
Waiting for another thread to end.

A slot is used for one thread after the other, and `k_proc_WaitThread` keeps only the
slot while it waits.  The histories tell the threads of a slot apart: `births` counts
them, `values` keeps what each of them passed to `k_proc_TerminateThread`, and `calls`
says which one a thread waits for.  A thread that has been waited for gets its slot
back only when it has been detached, so what matters is who is still inside
`k_proc_WaitThread` when the slot is used again or its thread is detached.
-/

import DoggOS.Proc.ThreadPointSteps

namespace DoggOS.Proc

structure JoinCore where
  core : Core
  births : Nat → Nat
  values : Nat → Nat → Option Nat
  calls : Nat → Nat

namespace JoinCore

variable (state : JoinCore)

/-- The slot that `k_proc_CreateThread` uses, or null. -/
def newThread (init : ThreadInit) (page : Nat) : Nat :=
  ((state.core.createThread init page).map Prod.fst).getD 0

def birthsAfter : SchedulerCall → Nat → Nat
  | .createThread init page =>
      if state.newThread init page = 0 then state.births
      else Function.update state.births (state.newThread init page)
        (state.births (state.newThread init page) + 1)
  | _ => state.births

def valuesAfter : SchedulerCall → Nat → Nat → Option Nat
  | .terminateThread returnValue =>
      Function.update state.values state.core.current
        (Function.update (state.values state.core.current) (state.births state.core.current)
          (some returnValue))
  | _ => state.values

def callsAfter : SchedulerCall → Nat → Nat
  | .waitThread thread => Function.update state.calls state.core.current (state.births thread)
  | _ => state.calls

def call (label : SchedulerCall) : Option JoinCore :=
  (state.core.call label).map fun core =>
    { core
      births := state.birthsAfter label
      values := state.valuesAfter label
      calls := state.callsAfter label }

/-- The condition of a thread is signalled by `k_proc_TerminateThread` only. -/
def Enabled (label : SchedulerCall) : Prop :=
  state.core.Enabled label ∧
    match label with
    | .signalCondition condition =>
        ∀ thread ∈ state.core.slots, condition ≠ threadCondition thread
    | _ => True

instance (core : Core) : Decidable core.Calling :=
  inferInstanceAs (Decidable (∃ thread, core.control = .thread thread ∧
    core.waitFrames thread = none))

instance (core : Core) :
    Decidable (∃ thread target, core.control = .thread thread ∧ core.waitFrames thread = some target) :=
  decidable_of_iff (∃ thread, core.control = .thread thread ∧ (core.waitFrames thread).isSome) (by
    simp only [Option.isSome_iff_exists, exists_and_left])

instance (core : Core) (label : SchedulerCall) : Decidable (core.Enabled label) :=
  match label with
  | .createThread _ _ | .detachThread _ | .waitThread _ => inferInstanceAs (Decidable (_ ∧ _))
  | .signalCondition _ => inferInstanceAs (Decidable (_ ∨ _))
  | .waitCondition _ | .terminateThread _ => inferInstanceAs (Decidable core.Calling)
  | .finishWaitThread => inferInstanceAs (Decidable (∃ thread target,
      core.control = .thread thread ∧ core.waitFrames thread = some target))
  | .yieldThread => inferInstanceAs (Decidable (∃ thread, core.control = .thread thread))
  | .runScheduler | .wakeThreads | .cleanupThreads | .dispatchThread =>
      inferInstanceAs (Decidable (core.control = _))

instance (label : SchedulerCall) : Decidable (state.Enabled label) :=
  match label with
  | .signalCondition condition => inferInstanceAs (Decidable (_ ∧
      ∀ thread ∈ state.core.slots, condition ≠ threadCondition thread))
  | .createThread _ _ | .detachThread _ | .waitThread _ | .finishWaitThread | .waitCondition _
  | .yieldThread | .terminateThread _ | .runScheduler | .wakeThreads | .cleanupThreads
  | .dispatchThread => inferInstanceAs (Decidable (_ ∧ True))

def attempt (label : SchedulerCall) : Option JoinCore :=
  if state.Enabled label then state.call label else none

def machine : Machine JoinCore SchedulerCall where
  start state := schedulerMachine.start state.core
  step before label after := before.Enabled label ∧ before.call label = some after

theorem step_of_attempt {before after : JoinCore} {label : SchedulerCall}
    (attempted : before.attempt label = some after) : machine.step before label after := by
  unfold attempt at attempted
  split at attempted
  · next enabled => exact ⟨enabled, attempted⟩
  · cases attempted

/-- The thread whose `k_proc_WaitThread` returns in a step, with what it returns. -/
def returns : SchedulerCall → Option (Nat × Status × Option Nat)
  | .waitThread thread =>
      (state.core.waitThread state.core.current thread).bind fun result =>
        result.1.map fun returned => (thread, returned)
  | .finishWaitThread =>
      (state.core.waitFrames state.core.current).map fun thread =>
        (thread, (state.core.finishWaitThread state.core.current thread).1)
  | _ => none

/-- Which thread of the slot was there at the time of the call. -/
def awaited : SchedulerCall → Nat
  | .waitThread thread => state.births thread
  | _ => state.calls state.core.current

def Waits : SchedulerCall → Prop
  | .waitThread _ | .finishWaitThread => True
  | _ => False

def SameThread (before after : Core) (thread : Nat) : Prop :=
  after.state thread = before.state thread ∧ after.flags thread = before.flags thread ∧
    after.returnData thread = before.returnData thread ∧
    after.waitConditions thread = before.waitConditions thread ∧
    after.conditions (threadCondition thread) = before.conditions (threadCondition thread)

/-- What a step of `k_proc_WaitThread` promises. -/
structure JoinsRightly (before after : JoinCore) (label : SchedulerCall) : Prop where
  value : ∀ thread value, before.returns label = some (thread, .ok, value) →
    ∃ returnValue, value = some returnValue ∧
      before.values thread (before.awaited label) = some returnValue
  others : ∀ other, other ≠ before.core.current → SameThread before.core after.core other ∨
    ∃ value, before.returns label = some (other, .ok, value) ∧
      before.births other = before.awaited label

/-- A slot is not used again, and a thread that runs is not detached, while it is waited for. -/
def SparesAwaited (label : SchedulerCall) : Prop :=
  match label with
  | .createThread init page => ∀ waiter, state.newThread init page ≠ 0 →
      state.core.waitFrames waiter ≠ some (state.newThread init page)
  | .detachThread thread => state.core.flags thread &&& threadFlagDetached = 0 →
      state.core.state thread ≠ .terminated →
      ∀ waiter, state.core.waitFrames waiter ≠ some thread
  | _ => True

def Gone (core : Core) (thread : Nat) : Prop :=
  core.state thread = .terminated ∨ core.state thread = .detached ∨ core.state thread = .invalid

def Done (state : JoinCore) (thread : Nat) : Prop :=
  state.values thread (state.births thread) = some (state.core.returnData thread) ∧
    Gone state.core thread

def Pending (state : JoinCore) (waiter thread : Nat) : Prop :=
  state.core.state waiter = .condWait ∧
    state.core.waitConditions waiter = threadCondition thread ∧
    state.core.flags thread &&& threadFlagDetached = 0 ∧ ¬ Gone state.core thread

structure Known (state : JoinCore) (thread : Nat) : Prop where
  signalled : state.core.conditions (threadCondition thread) ≠ 0 → Gone state.core thread
  terminated : state.core.state thread = .terminated →
    state.values thread (state.births thread) = some (state.core.returnData thread)
  detached : state.core.state thread = .detached →
    state.core.flags thread &&& threadFlagDetached ≠ 0

structure Joining (state : JoinCore) : Prop where
  tracked : state.core.Tracked
  known : ∀ thread ∈ state.core.created, Known state thread
  frames : ∀ waiter thread, state.core.waitFrames waiter = some thread →
    state.calls waiter = state.births thread ∧ (Done state thread ∨ Pending state waiter thread)

structure Stays (before after : JoinCore) (thread : Nat) : Prop where
  births : after.births thread = before.births thread
  values : after.values thread = before.values thread
  returnData : after.core.returnData thread = before.core.returnData thread
  flags : after.core.flags thread = before.core.flags thread
  waitConditions : after.core.waitConditions thread = before.core.waitConditions thread
  conditions : after.core.conditions (threadCondition thread) =
    before.core.conditions (threadCondition thread)
  state : after.core.state thread = before.core.state thread ∨
    before.core.Alive thread ∧ after.core.Alive thread ∨
    before.core.state thread = .condWait ∧
      before.core.conditions (before.core.waitConditions thread) ≠ 0 ∧
      after.core.state thread = .ready ∨
    before.core.state thread = .detached ∧ after.core.state thread = .invalid

variable {state before after : JoinCore} {thread waiter : Nat}

theorem not_gone_of_alive {core : Core} (alive : core.Alive thread) : ¬ Gone core thread := by
  rintro (gone | gone | gone) <;> rcases alive with old | old <;>
    exact absurd (old.symm.trans gone) (by decide)

theorem not_gone_of_condWait {core : Core} (waits : core.state thread = .condWait) :
    ¬ Gone core thread := by
  rintro (gone | gone | gone) <;> exact absurd (waits.symm.trans gone) (by decide)

namespace Stays

theorem gone_iff (stays : Stays before after thread) :
    Gone after.core thread ↔ Gone before.core thread := by
  rcases stays.state with same | ⟨old, new⟩ | ⟨waits, -, ready⟩ | ⟨detached, invalid⟩
  · unfold Gone
    rw [same]
  · exact iff_of_false (not_gone_of_alive new) (not_gone_of_alive old)
  · exact iff_of_false (not_gone_of_alive (Or.inr ready)) (not_gone_of_condWait waits)
  · exact iff_of_true (Or.inr (Or.inr invalid)) (Or.inr (Or.inl detached))

theorem ended (stays : Stays before after thread) {ended : ThreadState}
    (isEnd : ended = .terminated ∨ ended = .detached) (now : after.core.state thread = ended) :
    before.core.state thread = ended := by
  rcases stays.state with same | ⟨-, new⟩ | ⟨-, -, ready⟩ | ⟨-, invalid⟩
  · exact same.symm.trans now
  · rcases new with running | ready
    · rcases isEnd with rfl | rfl <;> exact absurd (running.symm.trans now) (by decide)
    · rcases isEnd with rfl | rfl <;> exact absurd (ready.symm.trans now) (by decide)
  · rcases isEnd with rfl | rfl <;> exact absurd (ready.symm.trans now) (by decide)
  · rcases isEnd with rfl | rfl <;> exact absurd (invalid.symm.trans now) (by decide)

theorem known (stays : Stays before after thread) (known : Known before thread) :
    Known after thread := by
  constructor
  · intro set
    rw [stays.conditions] at set
    exact stays.gone_iff.mpr (known.signalled set)
  · intro terminated
    rw [stays.values, stays.births, stays.returnData]
    exact known.terminated (stays.ended (Or.inl rfl) terminated)
  · intro detached
    rw [stays.flags]
    exact known.detached (stays.ended (Or.inr rfl) detached)

theorem done (stays : Stays before after thread) (done : Done before thread) :
    Done after thread := by
  refine ⟨?_, stays.gone_iff.mpr done.2⟩
  rw [stays.values, stays.births, stays.returnData]
  exact done.1

/-- A waiter is woken only by a signal, and then the thread it waits for has ended. -/
theorem pending (stays : Stays before after thread) (waits : Stays before after waiter)
    (known : Known before thread) (pending : Pending before waiter thread) :
    Pending after waiter thread := by
  obtain ⟨condWait, names, unflagged, living⟩ := pending
  refine ⟨?_, waits.waitConditions.trans names, ?_, fun gone => living (stays.gone_iff.mp gone)⟩
  · rcases waits.state with same | ⟨alive, -⟩ | ⟨-, set, -⟩ | ⟨detached, -⟩
    · exact same.trans condWait
    · rcases alive with old | old <;> exact absurd (condWait.symm.trans old) (by decide)
    · rw [names] at set
      exact absurd (known.signalled set) living
    · exact absurd (condWait.symm.trans detached) (by decide)
  · rw [stays.flags]
    exact unflagged

end Stays

namespace Joining

theorem frame_created (joining : Joining state)
    (frame : state.core.waitFrames waiter = some thread) : thread ∈ state.core.created :=
  joining.tracked.frames waiter thread frame

theorem of_stays (joining : Joining before) (tracked : after.core.Tracked)
    (created : ∀ thread ∈ after.core.created, thread ∈ before.core.created)
    (stays : ∀ thread, Stays before after thread) (calls : after.calls = before.calls)
    (frames : ∀ waiter thread, after.core.waitFrames waiter = some thread →
      before.core.waitFrames waiter = some thread) : Joining after := by
  refine ⟨tracked, fun thread isCreated => ?_, fun waiter thread frame => ?_⟩
  · exact (stays thread).known (joining.known thread (created thread isCreated))
  · have old := frames waiter thread frame
    obtain ⟨called, known⟩ := joining.frames waiter thread old
    have isKnown := joining.known thread (joining.frame_created old)
    refine ⟨?_, ?_⟩
    · rw [calls, (stays thread).births]
      exact called
    · rcases known with done | pending
      · exact Or.inl ((stays thread).done done)
      · exact Or.inr ((stays thread).pending (stays waiter) isKnown pending)

theorem of_others (joining : Joining before) (tracked : after.core.Tracked)
    (created : ∀ thread ∈ after.core.created, thread ≠ waiter → thread ∈ before.core.created)
    (stays : ∀ thread, thread ≠ waiter → Stays before after thread)
    (calls : ∀ thread, thread ≠ waiter → after.calls thread = before.calls thread)
    (known : waiter ∈ after.core.created → Known after waiter)
    (frames : ∀ other thread, other ≠ waiter → after.core.waitFrames other = some thread →
      before.core.waitFrames other = some thread)
    (own : ∀ thread, after.core.waitFrames waiter = some thread →
      after.calls waiter = after.births thread ∧
        (Done after thread ∨ Pending after waiter thread))
    (awaited : ∀ other, other ≠ waiter → before.core.waitFrames other = some waiter →
      before.calls other = before.births waiter → Done before waiter ∨
        Pending before other waiter → after.births waiter = before.births waiter ∧
          (Done after waiter ∨ Pending after other waiter)) : Joining after := by
  refine ⟨tracked, fun thread isCreated => ?_, fun other thread frame => ?_⟩
  · by_cases same : thread = waiter
    · exact same ▸ known (same ▸ isCreated)
    · exact (stays thread same).known (joining.known thread (created thread isCreated same))
  · by_cases isWaiter : other = waiter
    · subst isWaiter
      exact own thread frame
    · have old := frames other thread isWaiter frame
      obtain ⟨called, state⟩ := joining.frames other thread old
      have isKnown := joining.known thread (joining.frame_created old)
      rw [calls other isWaiter]
      by_cases same : thread = waiter
      · subst same
        obtain ⟨births, kept⟩ := awaited other isWaiter old called state
        exact ⟨called.trans births.symm, kept⟩
      · refine ⟨called.trans (stays thread same).births.symm, ?_⟩
        rcases state with done | pending
        · exact Or.inl ((stays thread same).done done)
        · exact Or.inr ((stays thread same).pending (stays other isWaiter) isKnown pending)

/-- A thread is detached that has ended or that nobody waits for. -/
theorem detach (joining : Joining state) {target : Nat}
    (tracked : (state.core.detachThread target).Tracked)
    (spared : ∀ waiter, state.core.waitFrames waiter = some target →
      state.core.flags target &&& threadFlagDetached = 0 →
      state.core.state target ≠ .terminated → Gone state.core target) :
    Joining { state with core := state.core.detachThread target } := by
  obtain ⟨-, -, created, waits, data, conditions⟩ := Core.detachThread_keeps state.core target
  have states := Core.detachThread_state state.core target
  have frames := Core.detachThread_waitFrames state.core target
  obtain ⟨flags, flagged⟩ := Core.detachThread_flags state.core target
  have gone : ∀ thread, Gone (state.core.detachThread target) thread ↔ Gone state.core thread := by
    intro thread
    rcases states thread with same | ⟨rfl, terminated, detached⟩
    · unfold Gone
      rw [same]
    · exact iff_of_true (Or.inr (Or.inl detached)) (Or.inl terminated)
  refine ⟨tracked, fun thread isCreated => ?_, fun waiter thread frame => ?_⟩
  · have old := joining.known thread (created ▸ isCreated)
    constructor
    · intro set
      rw [conditions] at set
      exact (gone thread).mpr (old.signalled set)
    · intro terminated
      have before : state.core.state thread = .terminated := by
        rcases states thread with same | ⟨rfl, -, detached⟩
        · exact same.symm.trans terminated
        · exact absurd (detached.symm.trans terminated) (by decide)
      change _ = some ((state.core.detachThread target).returnData thread)
      rw [data]
      exact old.terminated before
    · intro detached
      by_cases same : thread = target
      · have nonNull : target ≠ 0 :=
          same ▸ joining.tracked.created_ne_zero (created ▸ isCreated)
        exact same ▸ flagged nonNull
      · have before : state.core.state thread = .detached := by
          rcases states thread with unchanged | ⟨isTarget, -, -⟩
          · exact unchanged.symm.trans detached
          · exact absurd isTarget same
        change (state.core.detachThread target).flags thread &&& threadFlagDetached ≠ 0
        rw [flags thread same]
        exact old.detached before
  · rw [show ({ state with core := state.core.detachThread target } : JoinCore).core.waitFrames =
      state.core.waitFrames from frames] at frame
    obtain ⟨called, known⟩ := joining.frames waiter thread frame
    have stays : Done state thread →
        Done { state with core := state.core.detachThread target } thread := by
      rintro ⟨value, isGone⟩
      refine ⟨?_, (gone thread).mpr isGone⟩
      change _ = some ((state.core.detachThread target).returnData thread)
      rw [data]
      exact value
    refine ⟨called, ?_⟩
    rcases known with done | ⟨condWait, names, unflagged, living⟩
    · exact Or.inl (stays done)
    · by_cases same : thread = target
      · subst same
        have notTerminated : state.core.state thread ≠ .terminated := fun ended => living (Or.inl ended)
        exact absurd (spared waiter frame unflagged notTerminated) living
      · refine Or.inr ⟨?_, ?_, ?_, fun isGone => living ((gone thread).mp isGone)⟩
        · rcases states waiter with unchanged | ⟨rfl, terminated, -⟩
          · exact unchanged.trans condWait
          · exact absurd (condWait.symm.trans terminated) (by decide)
        · exact (congrFun waits waiter).trans names
        · change (state.core.detachThread target).flags thread &&& threadFlagDetached = 0
          rw [flags thread same]
          exact unflagged

theorem finish (joining : Joining state) {target : Nat}
    (control : state.core.control = .thread thread)
    (running : state.core.state thread = .running)
    (tracked : (state.core.finishWaitThread thread target).2.Tracked)
    (gone : Gone state.core target) :
    Joining { state with core := (state.core.finishWaitThread thread target).2 } := by
  let cleared : Core := { state.core with
    waitConditions := Function.update state.core.waitConditions thread 0
    waitFrames := Function.update state.core.waitFrames thread none }
  have trackedCleared : cleared.Tracked := by
    have recorded := PointCore.Steady.tracked_mark joining.tracked control 0
      state.core.returnData state.core.conditions
    obtain ⟨lists, placed⟩ := recorded.placed
    refine ⟨⟨lists, placed.retag _ _ _ _ _⟩, recorded.created, recorded.cleanup,
      recorded.running, ?_⟩
    intro other frame isFrame
    by_cases same : other = thread
    · rw [same] at isFrame
      cases (Function.update_self _ _ _).symm.trans isFrame
    · exact recorded.frames other frame ((Function.update_of_ne same _ _).symm.trans isFrame)
  have popped : Joining { state with core := cleared } := by
    refine ⟨trackedCleared, fun other created => ?_, fun other frame isFrame => ?_⟩
    · exact ⟨(joining.known other created).signalled, (joining.known other created).terminated,
        (joining.known other created).detached⟩
    · have different : other ≠ thread := by
        rintro rfl
        cases (Function.update_self _ _ _).symm.trans isFrame
      have old : state.core.waitFrames other = some frame :=
        (Function.update_of_ne different _ _).symm.trans isFrame
      obtain ⟨called, known⟩ := joining.frames other frame old
      refine ⟨called, known.imp_right fun pending => ?_⟩
      exact ⟨pending.1, (Function.update_of_ne different _ _).trans pending.2.1, pending.2.2⟩
  exact popped.detach tracked fun _ _ _ _ => gone

/-- The running thread writes its own fields and gives up the core. -/
theorem leaves_core {core after : Core} (tracked : core.Tracked)
    (control : core.control = .thread thread) (threadState : ThreadState) (waitCondition : Nat)
    (returnData conditions : Nat → Nat) (waitFrames : Nat → Option Nat)
    (frames : ∀ other target, waitFrames other = some target → target ∈ core.created)
    (leaves : threadState = .running ∨ threadState = .condWait ∧ waitCondition ≠ 0 ∨
      threadState = .detached ∨ threadState = .terminated)
    (ran : Core.yieldThread { core with
      state := Function.update core.state thread threadState
      waitConditions := Function.update core.waitConditions thread waitCondition
      returnData, conditions, waitFrames } thread = some after) :
    Core.SameData { core with
        state := Function.update core.state thread threadState
        waitConditions := Function.update core.waitConditions thread waitCondition
        returnData, conditions, waitFrames } after ∧
      (after.state thread = if threadState = .running then .ready else threadState) ∧
      ∀ other, other ≠ thread → after.state other = core.state other := by
  obtain ⟨running, alone⟩ := tracked.running thread control
  let middle : Core := { core with
    state := Function.update core.state thread threadState
    waitConditions := Function.update core.waitConditions thread waitCondition
    returnData, conditions, waitFrames }
  have isState : middle.state thread = threadState := Function.update_self _ _ _
  have view : middle.plain = { core.unflagged with
      waitConditions := Function.update core.waitConditions thread waitCondition
      returnData, conditions, waitFrames } := by
    have plain : middle.plain = middle.unflagged.setState thread .running :=
      Core.plain_running control
    have unchanged : Function.update core.state thread .running = core.state :=
      Function.update_eq_self_iff.mpr running.symm
    rw [plain]
    simp [middle, Core.unflagged, Core.setState, unchanged]
  have trackedMiddle : middle.plain.Tracked := by
    have recorded := PointCore.Steady.tracked_mark tracked.unflag control waitCondition returnData
      conditions
    obtain ⟨lists, placed⟩ := recorded.placed
    rw [view]
    exact ⟨⟨lists, placed.retag _ _ _ _ _⟩, recorded.created, recorded.cleanup, recorded.running,
      frames⟩
  have created : thread ∈ core.created := by
    apply tracked.created
    rw [Core.Tracked.held_running control]
    exact List.mem_cons_self
  have leavesMiddle : middle.unflagged.Leaves thread := by
    rcases leaves with rfl | ⟨rfl, nonNull⟩ | rfl | rfl
    · exact Or.inr (Or.inr (Or.inl ⟨isState, alone⟩))
    · refine Or.inr (Or.inl ⟨isState, ?_⟩)
      change Function.update core.waitConditions thread waitCondition thread ≠ 0
      rw [Function.update_self]
      exact nonNull
    · exact Or.inl isState
    · exact Or.inr (Or.inr (Or.inr ⟨created, isState⟩))
  obtain ⟨after', ran', -, -, data, own, others⟩ := trackedMiddle.yields control leavesMiddle
  obtain rfl : after' = after := Option.some_inj.mp (ran'.symm.trans ran)
  refine ⟨data, ?_, fun other different => ?_⟩
  · rw [isState] at own
    exact own
  · exact (others other different).trans (Function.update_of_ne different _ _)

theorem lives (joining : Joining state) (control : state.core.control = .thread thread)
    (threadState : ThreadState) (waitCondition : Nat) (waitFrames : Nat → Option Nat)
    (calls : Nat → Nat)
    (leaves : threadState = .running ∨ threadState = .condWait ∧ waitCondition ≠ 0)
    (frames : ∀ other, other ≠ thread → waitFrames other = state.core.waitFrames other)
    (kept : ∀ other, other ≠ thread → calls other = state.calls other)
    {core : Core} (tracked : core.Tracked)
    (own : ∀ target, waitFrames thread = some target → target ∈ state.core.created ∧
      calls thread = state.births target ∧ (Done state target ∨
        target ≠ thread ∧ threadState = .condWait ∧ waitCondition = threadCondition target ∧
          state.core.flags target &&& threadFlagDetached = 0 ∧ ¬ Gone state.core target))
    (ran : Core.yieldThread { state.core with
      state := Function.update state.core.state thread threadState
      waitConditions := Function.update state.core.waitConditions thread waitCondition
      waitFrames } thread = some core) :
    Joining { state with core, calls } := by
  have running := (joining.tracked.running thread control).1
  have targets : ∀ other target, waitFrames other = some target → target ∈ state.core.created := by
    intro other target frame
    by_cases same : other = thread
    · exact (own target (same ▸ frame)).1
    · exact joining.frame_created (frames other same ▸ frame)
  obtain ⟨data, state', others⟩ := leaves_core joining.tracked control threadState waitCondition
    state.core.returnData state.core.conditions waitFrames targets
    (leaves.imp_right Or.inl) ran
  have living : ¬ Gone core thread := by
    rcases leaves with rfl | ⟨rfl, -⟩
    · exact not_gone_of_alive (Or.inr state')
    · exact not_gone_of_condWait state'
  have notGone : ¬ Gone state.core thread := not_gone_of_alive (Or.inl running)
  have stays : ∀ other, other ≠ thread → Stays state { state with core, calls } other := by
    intro other different
    refine ⟨rfl, rfl, congrFun data.returnData other, congrFun data.flags other, ?_,
      congrFun data.conditions _, Or.inl (others other different)⟩
    exact (congrFun data.waitConditions other).trans (Function.update_of_ne different _ _)
  have sameFrames : core.waitFrames = waitFrames := data.waitFrames
  have flags : core.flags = state.core.flags := data.flags
  have created : core.created = state.core.created := data.created
  apply joining.of_others tracked
  · exact fun other isCreated _ => created ▸ isCreated
  · exact stays
  · exact kept
  · intro isCreated
    have old := joining.known thread (created ▸ isCreated)
    refine ⟨fun set => ?_, fun ended => absurd (Or.inl ended) living,
      fun ended => absurd (Or.inr (Or.inl ended)) living⟩
    have set' : state.core.conditions (threadCondition thread) ≠ 0 :=
      congrFun data.conditions (threadCondition thread) ▸ set
    exact absurd (old.signalled set') notGone
  · intro other target different frame
    rw [show ({ state with core, calls } : JoinCore).core.waitFrames = waitFrames from sameFrames,
      frames other different] at frame
    exact frame
  · intro target frame
    rw [show ({ state with core, calls } : JoinCore).core.waitFrames = waitFrames
      from sameFrames] at frame
    obtain ⟨-, called, known⟩ := own target frame
    refine ⟨called, ?_⟩
    rcases known with done | ⟨different, rfl, rfl, unflagged, alive⟩
    · by_cases same : target = thread
      · exact absurd done.2 (same ▸ notGone)
      · exact Or.inl ((stays target same).done done)
    · refine Or.inr ⟨state', ?_, ?_, ?_⟩
      · exact (congrFun data.waitConditions thread).trans (Function.update_self _ _ _)
      · change core.flags target &&& threadFlagDetached = 0
        rw [flags]
        exact unflagged
      · exact fun gone => alive ((stays target different).gone_iff.mp gone)
  · intro other different frame called known
    refine ⟨rfl, ?_⟩
    rcases known with done | ⟨condWait, names, unflagged, -⟩
    · exact absurd done.2 notGone
    · refine Or.inr ⟨(others other different).trans condWait, ?_, ?_, living⟩
      · exact (stays other different).waitConditions.trans names
      · change core.flags thread &&& threadFlagDetached = 0
        rw [flags]
        exact unflagged

theorem terminate (joining : Joining state) (control : state.core.control = .thread thread)
    (free : state.core.waitFrames thread = none) {returnValue : Nat} {core : Core}
    (tracked : core.Tracked) (ran : state.core.terminateThread thread returnValue = some core) :
    Joining { state with
      core
      values := Function.update state.values thread
        (Function.update (state.values thread) (state.births thread) (some returnValue)) } := by
  have running := (joining.tracked.running thread control).1
  have notGone : ¬ Gone state.core thread := not_gone_of_alive (Or.inl running)
  have sameWaits : Function.update state.core.waitConditions thread
      (state.core.waitConditions thread) = state.core.waitConditions := Function.update_eq_self _ _
  obtain ⟨returnData, data, state', others, stored, flagged⟩ : ∃ returnData,
      Core.SameData { state.core with
        returnData
        conditions := Function.update state.core.conditions (threadCondition thread) 1 } core ∧
      (core.state thread = .terminated ∨ core.state thread = .detached) ∧
      (∀ other, other ≠ thread → core.state other = state.core.state other) ∧
      (∀ other, other ≠ thread → returnData other = state.core.returnData other) ∧
      (core.state thread = .terminated ∧ returnData thread = returnValue ∨
        core.state thread = .detached ∧ state.core.flags thread &&& threadFlagDetached ≠ 0) := by
    unfold Core.terminateThread at ran
    by_cases detached : state.core.flags thread &&& threadFlagDetached ≠ 0
    · simp only [detached, ne_eq, not_false_eq_true, if_true] at ran
      have left := @leaves_core thread state.core core joining.tracked control .detached
        (state.core.waitConditions thread) state.core.returnData
        (Function.update state.core.conditions (threadCondition thread) 1) state.core.waitFrames
        (fun _ _ frame => joining.frame_created frame) (Or.inr (Or.inr (Or.inl rfl)))
      rw [sameWaits] at left
      obtain ⟨data, own, others⟩ := left ran
      exact ⟨_, ⟨data.flags, data.returnData, data.waitConditions, data.conditions, data.created,
        data.waitFrames⟩, Or.inr own, others, fun _ _ => rfl, Or.inr ⟨own, detached⟩⟩
    · simp only [detached, if_false] at ran
      have left := @leaves_core thread state.core core joining.tracked control .terminated
        (state.core.waitConditions thread)
        (Function.update state.core.returnData thread returnValue)
        (Function.update state.core.conditions (threadCondition thread) 1) state.core.waitFrames
        (fun _ _ frame => joining.frame_created frame) (Or.inr (Or.inr (Or.inr rfl)))
      rw [sameWaits] at left
      obtain ⟨data, own, others⟩ := left ran
      exact ⟨_, ⟨data.flags, data.returnData, data.waitConditions, data.conditions, data.created,
        data.waitFrames⟩, Or.inl own, others, fun _ different => Function.update_of_ne different _ _,
        Or.inl ⟨own, Function.update_self _ _ _⟩⟩
  have isGone : Gone core thread := state'.imp_right Or.inl
  have sameFrames : core.waitFrames = state.core.waitFrames := data.waitFrames
  have created : core.created = state.core.created := data.created
  have flags : core.flags = state.core.flags := data.flags
  have newValue : Function.update state.values thread (Function.update (state.values thread)
      (state.births thread) (some returnValue)) thread (state.births thread) = some returnValue := by
    rw [Function.update_self, Function.update_self]
  apply joining.of_others tracked
  · exact fun other isCreated _ => created ▸ isCreated
  · intro other different
    refine ⟨rfl, Function.update_of_ne different _ _,
      (congrFun data.returnData other).trans (stored other different), congrFun data.flags other,
      congrFun data.waitConditions other, ?_, Or.inl (others other different)⟩
    refine (congrFun data.conditions _).trans (Function.update_of_ne (fun same => ?_) _ _)
    exact different (threadCondition_inj same)
  · exact fun _ _ => rfl
  · intro _
    refine ⟨fun _ => isGone, fun terminated => ?_, fun detached => ?_⟩
    · rcases flagged with ⟨-, value⟩ | ⟨detached, -⟩
      · refine newValue.trans (congrArg some ?_)
        exact value.symm.trans (congrFun data.returnData thread).symm
      · exact absurd (detached.symm.trans terminated) (by decide)
    · rcases flagged with ⟨terminated, -⟩ | ⟨-, isFlagged⟩
      · exact absurd (detached.symm.trans terminated) (by decide)
      · change core.flags thread &&& threadFlagDetached ≠ 0
        rw [flags]
        exact isFlagged
  · exact fun other target _ frame => sameFrames ▸ frame
  · intro target frame
    have frame' : core.waitFrames thread = some target := frame
    rw [sameFrames, free] at frame'
    cases frame'
  · intro other different frame called known
    refine ⟨rfl, ?_⟩
    rcases known with done | ⟨-, -, unflagged, -⟩
    · exact absurd done.2 notGone
    · rcases flagged with ⟨-, value⟩ | ⟨-, isFlagged⟩
      · refine Or.inl ⟨newValue.trans (congrArg some ?_), isGone⟩
        exact value.symm.trans (congrFun data.returnData thread).symm
      · exact absurd unflagged isFlagged

/-- A thread is created in a slot that nobody waits for. -/
theorem create (joining : Joining state) {core : Core} (tracked : core.Tracked)
    (creates : state.core.Creates core thread) (ready : core.state thread = .ready)
    (others : ∀ other, other ≠ thread → core.state other = state.core.state other)
    (spared : ∀ waiter, state.core.waitFrames waiter ≠ some thread) :
    Joining { state with
      core, births := Function.update state.births thread (state.births thread + 1) } := by
  have living : ¬ Gone core thread := not_gone_of_alive (Or.inr ready)
  apply joining.of_others tracked
  · intro other isCreated different
    have member : other ∈ core.created := isCreated
    rw [creates.created] at member
    exact (List.mem_cons.mp member).resolve_left different
  · intro other different
    refine ⟨Function.update_of_ne different _ _, rfl, congrFun creates.returnData other, ?_, ?_, ?_,
      Or.inl (others other different)⟩
    · exact (congrFun creates.flags other).trans (Function.update_of_ne different _ _)
    · exact (congrFun creates.waitConditions other).trans (Function.update_of_ne different _ _)
    · refine (congrFun creates.conditions _).trans (Function.update_of_ne (fun same => ?_) _ _)
      exact different (threadCondition_inj same)
  · exact fun _ _ => rfl
  · intro _
    refine ⟨fun set => ?_, fun ended => absurd (Or.inl ended) living,
      fun ended => absurd (Or.inr (Or.inl ended)) living⟩
    have unset : core.conditions (threadCondition thread) = 0 :=
      (congrFun creates.conditions _).trans (Function.update_self _ _ _)
    exact absurd unset set
  · intro other target different frame
    have frame' : core.waitFrames other = some target := frame
    rw [creates.waitFrames, Function.update_of_ne different] at frame'
    exact frame'
  · intro target frame
    have frame' : core.waitFrames thread = some target := frame
    rw [creates.waitFrames, Function.update_self] at frame'
    cases frame'
  · exact fun other _ frame _ _ => absurd frame (spared other)

theorem schedule (joining : Joining state) {core : Core} (tracked : core.Tracked)
    (data : state.core.SameData core)
    (states : ∀ thread, core.state thread = state.core.state thread ∨
      state.core.Alive thread ∧ core.Alive thread ∨
      state.core.state thread = .condWait ∧
        state.core.conditions (state.core.waitConditions thread) ≠ 0 ∧
        core.state thread = .ready ∨
      state.core.state thread = .detached ∧ core.state thread = .invalid) :
    Joining { state with core } := by
  apply joining.of_stays tracked
  · exact fun thread created => data.created ▸ created
  · exact fun thread => ⟨rfl, rfl, congrFun data.returnData thread, congrFun data.flags thread,
      congrFun data.waitConditions thread, congrFun data.conditions _, states thread⟩
  · rfl
  · exact fun waiter thread frame => data.waitFrames ▸ frame

end Joining

end JoinCore

end DoggOS.Proc

/-
Threads on their lists while a call is half done.

A thread inside a call has a state that its code has not acted on yet, and it may
be flagged as detached between the test of the flag and what follows.  The lists
depend on neither: `plain` is the core with the flags cleared and the running
thread marked as running.  The scheduler's steps do not read the flags, so they
commute with clearing them.
-/

import DoggOS.Proc.ThreadPoints

namespace DoggOS.Proc

theorem threadCondition_inj {one two : Nat} (same : threadCondition one = threadCondition two) :
    one = two := by
  unfold threadCondition at same
  omega

namespace Core

def unflagged (core : Core) : Core := { core with flags := fun _ => 0 }

def plain (core : Core) : Core :=
  match core.control with
  | .thread thread => core.unflagged.setState thread .running
  | _ => core.unflagged

variable {core after : Core} {thread : Nat}

theorem plain_idle (idle : ∀ thread, core.control ≠ .thread thread) :
    core.plain = core.unflagged := by
  unfold plain
  split
  · next running => exact absurd running (idle _)
  · rfl

theorem plain_running (control : core.control = .thread thread) :
    core.plain = core.unflagged.setState thread .running := by
  unfold plain
  rw [control]

theorem plain_of_running (control : core.control = .thread thread)
    (running : core.state thread = .running) : core.plain = core.unflagged := by
  have same : Function.update core.state thread .running = core.state :=
    Function.update_eq_self_iff.mpr running.symm
  rw [plain_running control]
  exact congrArg (fun states => { core.unflagged with state := states }) same

theorem plain_control (core : Core) : core.plain.control = core.control := by
  unfold plain
  split <;> rfl

theorem unflagged_linkReady (core : Core) (thread : Nat) :
    core.unflagged.linkReady thread = (core.linkReady thread).unflagged := by
  by_cases empty : core.readyThreads = 0 <;>
    simp [linkReady, unflagged, setState, setQueueNext, empty]

theorem unflagged_queueReadyThread (core : Core) (thread : Nat) :
    core.unflagged.queueReadyThread thread = (core.queueReadyThread thread).map unflagged := by
  have turns : ∀ turn : Nat × Core, queueReadyTurn (turn.1, turn.2.unflagged) =
      (queueReadyTurn turn).map fun next => (next.1, next.2.unflagged) := by
    rintro ⟨first, middle⟩
    unfold queueReadyTurn
    by_cases null : first = 0
    · simp [null]
    · simp only [null, if_false, Option.map_some, unflagged_linkReady]
      rfl
  unfold queueReadyThread
  by_cases valid : core.valid thread
  · rw [if_pos valid, if_pos (show core.unflagged.valid thread from valid)]
    have loop := WhileLoop.map turns (core.slots.length + 1) (thread, core)
    rw [show core.unflagged.slots = core.slots from rfl, loop, Option.map_map, Option.map_map]
    rfl
  · rw [if_neg valid, if_neg (show ¬ core.unflagged.valid thread from valid)]
    rfl

theorem unflagged_linkWaiting (core : Core) (thread : Nat) :
    core.unflagged.linkWaiting thread = (core.linkWaiting thread).unflagged := by
  by_cases empty : core.condWaitThreads = 0 <;>
    simp [linkWaiting, unflagged, setQueueNext, empty]

theorem unflagged_queueWaitingThread (core : Core) (thread : Nat) :
    core.unflagged.queueWaitingThread thread = (core.queueWaitingThread thread).unflagged := by
  unfold queueWaitingThread
  by_cases queued : core.valid thread ∧ thread ≠ core.cleanupThread
  · rw [if_pos queued, if_pos (show core.unflagged.valid thread ∧
      thread ≠ core.unflagged.cleanupThread from queued), unflagged_linkWaiting]
  · rw [if_neg queued, if_neg (show ¬ (core.unflagged.valid thread ∧
      thread ≠ core.unflagged.cleanupThread) from queued)]

theorem unflagged_queueDetachedThread (core : Core) (thread : Nat) :
    core.unflagged.queueDetachedThread thread = (core.queueDetachedThread thread).unflagged := by
  unfold queueDetachedThread
  by_cases queued : core.valid thread ∧ core.state thread = .detached ∧ thread ≠ core.cleanupThread
  · rw [if_pos queued, if_pos (show core.unflagged.valid thread ∧
      core.unflagged.state thread = .detached ∧ thread ≠ core.unflagged.cleanupThread from queued)]
    rfl
  · rw [if_neg queued, if_neg (show ¬ (core.unflagged.valid thread ∧
      core.unflagged.state thread = .detached ∧ thread ≠ core.unflagged.cleanupThread) from queued)]

theorem unflagged_afterSwitch (core : Core) (thread : Nat) :
    core.unflagged.afterSwitch thread = (core.afterSwitch thread).map unflagged := by
  unfold afterSwitch
  by_cases cleanup : thread ≠ core.cleanupThread
  · rw [if_pos cleanup, if_pos (show thread ≠ core.unflagged.cleanupThread from cleanup)]
    rw [show core.unflagged.state = core.state from rfl]
    cases core.state thread with
    | detached => exact congrArg some (unflagged_queueDetachedThread core thread)
    | condWait => exact congrArg some (unflagged_queueWaitingThread core thread)
    | running => exact unflagged_queueReadyThread core thread
    | _ => rfl
  · rw [if_neg cleanup, if_neg (show ¬ thread ≠ core.unflagged.cleanupThread from cleanup)]
    rfl

theorem unflagged_yieldThread (core : Core) (thread : Nat) :
    core.unflagged.yieldThread thread = (core.yieldThread thread).map unflagged := by
  unfold yieldThread
  rw [unflagged_afterSwitch, Option.map_map, Option.map_map]
  rfl

theorem unflagged_wakeThreads (core : Core) :
    core.unflagged.wakeThreads = core.wakeThreads.map unflagged := by
  have turns : ∀ turn : Nat × Nat × Core, wakeTurn (turn.1, turn.2.1, turn.2.2.unflagged) =
      (wakeTurn turn).map fun next => (next.1, next.2.1, next.2.2.unflagged) := by
    rintro ⟨waiting, resume, middle⟩
    unfold wakeTurn
    by_cases null : waiting = 0
    · simp [null]
    · simp only [null, if_false]
      by_cases signalled : middle.conditions (middle.waitConditions waiting) ≠ 0
      · rw [if_pos signalled, if_pos (show middle.unflagged.conditions
          (middle.unflagged.waitConditions waiting) ≠ 0 from signalled)]
        rfl
      · rw [if_neg signalled, if_neg (show ¬ middle.unflagged.conditions
          (middle.unflagged.waitConditions waiting) ≠ 0 from signalled),
          unflagged_queueWaitingThread]
        rfl
  have loop := WhileLoop.map turns (core.slots.length + 1) (core.condWaitThreads, 0,
    { core with condWaitThreads := 0, condWaitLastThread := 0 })
  have loop' : whileLoop wakeTurn (core.unflagged.slots.length + 1)
      (core.unflagged.condWaitThreads, 0,
        { core.unflagged with condWaitThreads := 0, condWaitLastThread := 0 }) = _ := loop
  unfold wakeThreads
  simp only [loop']
  cases whileLoop wakeTurn (core.slots.length + 1) (core.condWaitThreads, 0,
      { core with condWaitThreads := 0, condWaitLastThread := 0 }) with
  | none => rfl
  | some reached =>
      simp only [Option.map_some]
      by_cases resumed : reached.2.1 ≠ 0
      · rw [if_pos resumed, if_pos resumed, unflagged_queueReadyThread, Option.map_map,
          Option.map_map]
        rfl
      · rw [if_neg resumed, if_neg resumed]
        rfl

theorem unflagged_destroyThread (core : Core) (thread : Nat) :
    core.unflagged.destroyThread thread = (core.destroyThread thread).unflagged := by
  unfold destroyThread
  by_cases valid : core.valid thread
  · rw [if_pos valid, if_pos (show core.unflagged.valid thread from valid)]
    rfl
  · rw [if_neg valid, if_neg (show ¬ core.unflagged.valid thread from valid)]

theorem unflagged_cleanupThreads (core : Core) :
    core.unflagged.cleanupThreads = core.cleanupThreads.map unflagged := by
  have turns : ∀ turn : Nat × Core, destroyTurn (turn.1, turn.2.unflagged) =
      (destroyTurn turn).map fun next => (next.1, next.2.unflagged) := by
    rintro ⟨deleted, middle⟩
    unfold destroyTurn
    by_cases null : deleted = 0
    · simp [null]
    · simp only [null, if_false, Option.map_some, unflagged_destroyThread]
      rfl
  have loop := WhileLoop.map turns (core.slots.length + 1)
    (core.deleteList, { core with deleteList := 0 })
  have loop' : whileLoop destroyTurn (core.unflagged.slots.length + 1)
      (core.unflagged.deleteList, { core.unflagged with deleteList := 0 }) = _ := loop
  unfold cleanupThreads
  simp only [loop']
  cases whileLoop destroyTurn (core.slots.length + 1)
      (core.deleteList, { core with deleteList := 0 }) with
  | none => rfl
  | some reached =>
      simp only [Option.map_some]
      rw [show reached.2.unflagged.cleanupThread = reached.2.cleanupThread from rfl,
        unflagged_afterSwitch, Option.map_map, Option.map_map]
      rfl

theorem unflagged_dispatchThread (core : Core) :
    core.unflagged.dispatchThread = core.dispatchThread.unflagged := by
  by_cases empty : core.readyThreads = 0 <;>
    simp [dispatchThread, unflagged, switchTo, setState, setQueueNext, empty]

theorem unflagged_createThread (core : Core) (init : ThreadInit) (page : Nat) :
    core.unflagged.createThread init page =
      (core.createThread init page).map fun made => (made.1, made.2.unflagged) := by
  unfold createThread
  by_cases missing : init.ring0StackPage = 0 ∨ init.ring0StackBase = 0 ∨ init.entryPoint = 0
  · rw [if_pos missing, if_pos missing]
    rfl
  · rw [if_neg missing, if_neg missing]
    have filled : core.unflagged.fillPool page = (core.fillPool page).unflagged := by
      by_cases empty : core.poolThreads = 0 <;> simp [fillPool, unflagged, addThreadPage, empty]
    rw [filled]
    generalize core.fillPool page = pool
    have started : (pool.unflagged.takeThread pool.poolThreads).initThread pool.poolThreads =
        ((pool.takeThread pool.poolThreads).initThread pool.poolThreads).unflagged := by
      have flags : Function.update (fun _ : Nat => 0) pool.poolThreads 0 = fun _ => 0 :=
        Function.update_eq_self pool.poolThreads (fun _ : Nat => 0)
      unfold initThread takeThread unflagged
      simp only [flags]
    dsimp only
    rw [show pool.unflagged.poolThreads = pool.poolThreads from rfl, started,
      unflagged_queueReadyThread, Option.map_map, Option.map_map]
    rfl

theorem Tracked.unflag (tracked : core.Tracked) : core.unflagged.Tracked := by
  obtain ⟨lists, placed⟩ := tracked.placed
  refine ⟨⟨lists, ?_⟩, tracked.created, tracked.cleanup, tracked.running, tracked.frames⟩
  exact ⟨placed.queues, placed.tails, placed.listed, placed.handsNodup, placed.inHand,
    placed.covered, placed.created, fun _ _ => Nat.zero_and _, placed.pages, placed.fifo⟩

theorem Tracked.plain (tracked : core.Tracked) : core.plain.Tracked := by
  by_cases isThread : ∃ thread, core.control = .thread thread
  · obtain ⟨thread, control⟩ := isThread
    rw [plain_of_running control (tracked.running thread control).1]
    exact tracked.unflag
  · rw [plain_idle fun thread control => isThread ⟨thread, control⟩]
    exact tracked.unflag

theorem Tracked.unflagged_detach (tracked : core.unflagged.Tracked)
    (pointer : core.Pointer thread) : (core.detachThread thread).unflagged.Tracked := by
  unfold Core.detachThread
  by_cases unflagged : thread ≠ 0 ∧ core.flags thread &&& threadFlagDetached = 0
  · rw [if_pos unflagged]
    by_cases terminated : core.state thread = .terminated
    · have moved := (@Tracked.detachThread core.unflagged thread tracked pointer).unflag
      have tested : thread ≠ 0 ∧ core.unflagged.flags thread &&& threadFlagDetached = 0 :=
        ⟨unflagged.1, Nat.zero_and _⟩
      have ended : core.unflagged.state thread = .terminated := terminated
      unfold Core.detachThread at moved
      rw [if_pos tested] at moved
      simp only [terminated, ended, if_true] at moved ⊢
      rw [← unflagged_queueDetachedThread] at moved ⊢
      exact moved
    · simp only [terminated, if_false]
      exact tracked
  · rw [if_neg unflagged]
    exact tracked

def OnWaitList (core : Core) (thread : Nat) : Prop :=
  ∃ threads, core.IsQueue core.condWaitThreads core.condWaitLastThread threads ∧
    threads.count thread = 1

theorem count_of_nodup {threads : List Nat} (nodup : threads.Nodup) (member : thread ∈ threads) :
    threads.count thread = 1 :=
  Nat.le_antisymm (List.nodup_iff_count_le_one.mp nodup thread) (List.count_pos_iff.mpr member)

theorem onWaitList {lists : ListKey → List Nat} {hands : List Nat}
    (placed : Placed core .none lists hands) (member : thread ∈ lists .condWait) :
    core.OnWaitList thread := by
  refine ⟨lists .condWait, ⟨placed.queues.chain .condWait, placed.queues.nodup .condWait,
    placed.tails .condWait (Or.inr rfl)⟩, ?_⟩
  exact count_of_nodup (placed.queues.nodup .condWait) member

/-- The list that a created thread is on follows from its state. -/
theorem listed_of_state {lists : ListKey → List Nat} {hands : List Nat} {key : ListKey}
    (placed : Placed core .none lists hands) (created : thread ∈ core.created)
    (free : thread ∉ hands) (waits : core.state thread = .condWait ∧ key = .condWait ∨
      core.state thread = .ready ∧ key = .ready ∨ core.state thread = .detached ∧ key = .delete) :
    thread ∈ lists key := by
  rcases placed.covered thread (placed.created thread created) with held | ⟨other, member⟩ | ended
  · exact absurd held free
  · have fits := (placed.listed other thread member).2.2.2
    cases other with
    | waiting | resume | deleted =>
        rw [placed.nil_of_head rfl] at member
        cases member
    | pool =>
        have invalid := fits created
        rcases waits with ⟨state, -⟩ | ⟨state, -⟩ | ⟨state, -⟩ <;>
          exact absurd (state.symm.trans invalid) (by decide)
    | ready =>
        rcases waits with ⟨state, -⟩ | ⟨-, same⟩ | ⟨state, -⟩
        · exact absurd (state.symm.trans fits) (by decide)
        · exact same ▸ member
        · exact absurd (state.symm.trans fits) (by decide)
    | condWait =>
        rcases waits with ⟨-, same⟩ | ⟨state, -⟩ | ⟨state, -⟩
        · exact same ▸ member
        · exact absurd (state.symm.trans fits.1) (by decide)
        · exact absurd (state.symm.trans fits.1) (by decide)
    | delete =>
        rcases waits with ⟨state, -⟩ | ⟨state, -⟩ | ⟨-, same⟩
        · exact absurd (state.symm.trans fits) (by decide)
        · exact absurd (state.symm.trans fits) (by decide)
        · exact same ▸ member
  · rcases waits with ⟨state, -⟩ | ⟨state, -⟩ | ⟨state, -⟩ <;>
      exact absurd (state.symm.trans ended.2) (by decide)

section Steps

theorem wakeThreads_sameData (ran : core.wakeThreads = some after) : core.SameData after := by
  unfold wakeThreads at ran
  dsimp only at ran
  split at ran
  · cases ran
  · next last resume woken loop =>
      have kept : ∀ turn next : Nat × Nat × Core, core.SameData turn.2.2 →
          wakeTurn turn = some next → core.SameData next.2.2 := by
        rintro ⟨waiting, resume, middle⟩ next same runs
        unfold wakeTurn at runs
        dsimp only at runs
        split at runs
        · cases runs
        · split at runs
          · exact Option.some_inj.mp runs ▸ same.trans ⟨rfl, rfl, rfl, rfl, rfl, rfl⟩
          · exact Option.some_inj.mp runs ▸ same.trans (queueWaitingThread_sameData middle waiting)
      have start : core.SameData (core.condWaitThreads, 0, { core with
          condWaitThreads := 0, condWaitLastThread := 0 }).2.2 := ⟨rfl, rfl, rfl, rfl, rfl, rfl⟩
      have scanned : core.SameData woken := WhileLoop.keeps kept start loop
      obtain ⟨ready, queued, same⟩ := Option.map_eq_some_iff.mp ran
      have moved : core.SameData ready := by
        split at queued
        · exact scanned.trans (queueReadyThread_sameData queued)
        · exact Option.some_inj.mp queued ▸ scanned
      exact same ▸ ⟨moved.flags, moved.returnData, moved.waitConditions, moved.conditions,
        moved.created, moved.waitFrames⟩

theorem cleanupThreads_sameData (ran : core.cleanupThreads = some after) :
    core.SameData after := by
  unfold cleanupThreads at ran
  split at ran
  · cases ran
  · next last cleaned loop =>
      have kept : ∀ turn next : Nat × Core, core.SameData turn.2 →
          destroyTurn turn = some next → core.SameData next.2 := by
        rintro ⟨deleted, middle⟩ next same runs
        unfold destroyTurn at runs
        dsimp only at runs
        split at runs
        · cases runs
        · exact Option.some_inj.mp runs ▸ same.trans (destroyThread_sameData middle deleted)
      have start : core.SameData (core.deleteList, { core with deleteList := 0 }).2 :=
        ⟨rfl, rfl, rfl, rfl, rfl, rfl⟩
      have destroyed : core.SameData cleaned := WhileLoop.keeps kept start loop
      obtain ⟨switched, left, same⟩ := Option.map_eq_some_iff.mp ran
      have moved := destroyed.trans (afterSwitch_sameData left)
      exact same ▸ ⟨moved.flags, moved.returnData, moved.waitConditions, moved.conditions,
        moved.created, moved.waitFrames⟩

theorem Tracked.yields (tracked : core.plain.Tracked) (control : core.control = .thread thread)
    (leaves : core.unflagged.Leaves thread) :
    ∃ after, core.yieldThread thread = some after ∧ after.plain.Tracked ∧
      after.control = .scheduler ∧ core.SameData after ∧
      (after.state thread = if core.state thread = .running then .ready else core.state thread) ∧
      ∀ other, other ≠ thread → after.state other = core.state other := by
  have running : core.plain.control = .thread thread := (plain_control core).trans control
  obtain ⟨lists, placed⟩ := tracked.placed
  have held : thread ∈ core.plain.held := by
    rw [held_running running]
    exact List.mem_cons_self
  have created := tracked.created thread held
  have states : ∀ other, other ≠ thread → core.unflagged.state other = core.plain.state other := by
    intro other different
    rw [plain_running control]
    exact (Function.update_of_ne different _ _).symm
  have unmarked : Placed core.unflagged .none lists core.plain.held := by
    apply placed.update held
    · rw [plain_running control] at states ⊢
      exact ⟨rfl, fun _ _ => Iff.rfl, states, fun _ _ => rfl, fun _ _ => rfl⟩
    · rw [plain_running control]
      exact fun _ _ => rfl
    · rw [plain_running control]
      funext key
      cases key <;> rfl
    · rw [plain_running control]
      rfl
    · rw [plain_running control] at placed
      exact placed.fifo
    · exact fun _ => Nat.zero_and _
  have sameCleanup : core.unflagged.cleanupThread = core.plain.cleanupThread := by
    rw [plain_running control]
    rfl
  have sameCreated : core.unflagged.created = core.plain.created := by
    rw [plain_running control]
    rfl
  have sameFrames : ∀ other target, core.unflagged.waitFrames other = some target →
      target ∈ core.plain.created := by
    intro other target frame
    apply tracked.frames other target
    rw [plain_running control]
    exact frame
  obtain ⟨view, ran, moved⟩ := tracked.leave running unmarked leaves sameCleanup sameCreated states
    sameFrames
  rw [held_running running] at unmarked
  have notCleanup : thread ≠ core.unflagged.cleanupThread := by
    rw [sameCleanup]
    exact fun same => (List.nodup_cons.mp unmarked.handsNodup).1 (List.mem_singleton.mpr same)
  obtain ⟨left, -, switched, -, -, own, others⟩ :=
    unmarked.afterSwitch (sameCreated ▸ created) notCleanup leaves
  rw [unflagged_yieldThread] at ran
  obtain ⟨after, yielded, seen⟩ := Option.map_eq_some_iff.mp ran
  rw [unflagged_afterSwitch] at switched
  obtain ⟨after', switched', seen'⟩ := Option.map_eq_some_iff.mp switched
  have data := afterSwitch_sameData switched'
  rw [Core.yieldThread, switched', Option.map_some, Option.some_inj] at yielded
  subst yielded
  refine ⟨_, by rw [Core.yieldThread, switched', Option.map_some], ?_, rfl, ?_, ?_, ?_⟩
  · rw [plain_idle (by simp), seen]
    exact moved
  · exact ⟨data.flags, data.returnData, data.waitConditions, data.conditions, data.created,
      data.waitFrames⟩
  · rw [← seen'] at own
    exact own
  · rw [← seen'] at others
    exact others

theorem Tracked.wakes (tracked : core.plain.Tracked) (control : core.control = .scheduler) :
    ∃ after, core.wakeThreads = some after ∧ after.plain.Tracked ∧ after.control = .cleanup ∧
      core.SameData after ∧ after.cleanupThread = core.cleanupThread ∧
      core.state core.cleanupThread = .ready ∧ after.state core.cleanupThread = .running ∧
      (∀ thread, thread ≠ core.cleanupThread → after.state thread = core.state thread ∨
        core.state thread = .condWait ∧ core.conditions (core.waitConditions thread) ≠ 0 ∧
          after.state thread = .ready) ∧
      ∀ thread ∈ after.created, after.state thread = .condWait →
        after.OnWaitList thread ∧ after.conditions (after.waitConditions thread) = 0 := by
  have idle : core.plain = core.unflagged := plain_idle (by simp [control])
  rw [idle] at tracked
  obtain ⟨view, ran, moved⟩ := tracked.wakeThreads control
  obtain ⟨lists, placed⟩ := tracked.placed
  obtain ⟨woken, lists', ran', placed', keeps, -, unset, states⟩ :=
    placed.wakeThreads (cleanup_held _)
  have sameView : woken.switchTo woken.cleanupThread .cleanup = view :=
    Option.some_inj.mp (ran'.symm.trans ran)
  have cleanupSame : woken.cleanupThread = core.cleanupThread := keeps.cleanupThread
  have wasReady : core.state core.cleanupThread = .ready := by
    have cleanup := tracked.cleanup
    rw [show core.unflagged.control = .scheduler from control] at cleanup
    exact cleanup
  rw [unflagged_wakeThreads] at ran
  obtain ⟨after, reached, seen⟩ := Option.map_eq_some_iff.mp ran
  have same : after.unflagged = woken.switchTo woken.cleanupThread .cleanup :=
    seen.trans sameView.symm
  have control' : after.control = .cleanup := congrArg Core.control same
  have states' : ∀ thread, after.state thread =
      Function.update woken.state woken.cleanupThread .running thread :=
    fun thread => congrFun (congrArg Core.state same) thread
  have same' := wakeThreads_sameData reached
  refine ⟨after, reached, ?_, control', same', ?_, wasReady, ?_, fun thread different => ?_,
    fun thread created waits => ?_⟩
  · rw [plain_idle (by simp [control']), seen]
    exact moved
  · exact (congrArg Core.cleanupThread same).trans cleanupSame
  · rw [states', cleanupSame]
    exact Function.update_self _ _ _
  · rw [states', cleanupSame, Function.update_of_ne different]
    exact states thread
  · have moves := placed'.switchTo (keeps.cleanupThread ▸ cleanup_held core.unflagged) .cleanup
    rw [← same] at moves
    have free : thread ∉ core.unflagged.held := by
      rw [held_idle (by simp [unflagged, control])]
      intro member
      have isCleanup : thread = woken.cleanupThread :=
        (List.mem_singleton.mp member).trans cleanupSame.symm
      rw [states', isCleanup, Function.update_self] at waits
      cases waits
    have member := listed_of_state moves created free (Or.inl ⟨waits, rfl⟩)
    have onList : after.unflagged.OnWaitList thread := onWaitList moves member
    refine ⟨onList, ?_⟩
    rw [same'.waitConditions, same'.conditions]
    exact unset thread member

theorem Tracked.cleans (tracked : core.plain.Tracked) (control : core.control = .cleanup) :
    ∃ after, core.cleanupThreads = some after ∧ after.plain.Tracked ∧ after.control = .dispatch ∧
      after.cleanupThread = core.cleanupThread ∧
      core.state core.cleanupThread = .running ∧ after.state core.cleanupThread = .ready ∧
      ∀ thread, thread ≠ core.cleanupThread → after.state thread = core.state thread ∨
        core.state thread = .detached ∧ after.state thread = .invalid := by
  have idle : core.plain = core.unflagged := plain_idle (by simp [control])
  rw [idle] at tracked
  obtain ⟨view, ran, moved⟩ := tracked.cleanupThreads control
  obtain ⟨lists, placed⟩ := tracked.placed
  obtain ⟨cleaned, lists', ran', placed', keeps, data, states⟩ := placed.cleanupThreads
  have cleanupSame : cleaned.cleanupThread = core.cleanupThread := keeps.cleanupThread
  have wasRunning : core.state core.cleanupThread = .running := by
    have cleanup := tracked.cleanup
    rw [show core.unflagged.control = .cleanup from control] at cleanup
    exact cleanup
  have sameView := Option.some_inj.mp (ran'.symm.trans ran)
  rw [unflagged_cleanupThreads] at ran
  obtain ⟨after, reached, seen⟩ := Option.map_eq_some_iff.mp ran
  have same := seen.trans sameView.symm
  have control' : after.control = .dispatch := congrArg Core.control same
  have states' : ∀ thread, after.state thread =
      Function.update cleaned.state cleaned.cleanupThread .ready thread :=
    fun thread => congrFun (congrArg Core.state same) thread
  refine ⟨after, reached, ?_, control', ?_, wasRunning, ?_, fun thread different => ?_⟩
  · rw [plain_idle (by simp [control']), seen]
    exact moved
  · exact (congrArg Core.cleanupThread same).trans cleanupSame
  · rw [states', cleanupSame]
    exact Function.update_self _ _ _
  · rw [states', cleanupSame, Function.update_of_ne different]
    exact states thread

theorem dispatchThread_sameData (core : Core) : core.SameData core.dispatchThread := by
  unfold dispatchThread
  dsimp only
  split <;> exact ⟨rfl, rfl, rfl, rfl, rfl, rfl⟩

/-- The end of a round: the first ready thread runs, if there is one. -/
theorem Tracked.dispatches (tracked : core.plain.Tracked) (control : core.control = .dispatch) :
    core.dispatchThread.plain.Tracked ∧
      (core.dispatchThread.control = .scheduler ∧ core.dispatchThread.state = core.state ∨
        ∃ next, core.dispatchThread.control = .thread next ∧ core.state next = .ready ∧
          core.dispatchThread.state = Function.update core.state next .running) := by
  have idle : core.plain = core.unflagged := plain_idle (by simp [control])
  rw [idle] at tracked
  have moved := tracked.dispatchThread control
  rw [unflagged_dispatchThread] at moved
  by_cases empty : core.readyThreads = 0
  · have same : core.dispatchThread = { core with lastReadyThread := 0, control := .scheduler } := by
      unfold Core.dispatchThread
      rw [if_neg (not_not_intro empty)]
    rw [same] at moved ⊢
    refine ⟨?_, Or.inl ⟨rfl, rfl⟩⟩
    rw [plain_idle (by simp)]
    exact moved
  · obtain ⟨lists, placed⟩ := tracked.placed
    have isHead : core.unflagged.heads .none .ready ≠ 0 := empty
    obtain ⟨rest, listed⟩ := placed.queues.exists_cons isHead
    have member : core.readyThreads ∈ lists .ready := by
      rw [listed]
      exact List.mem_cons_self
    have ready : core.state core.readyThreads = .ready := (placed.listed .ready _ member).2.2.2
    have control' : core.dispatchThread.control = .thread core.readyThreads := by
      unfold Core.dispatchThread
      rw [if_pos empty]
      rfl
    have states : core.dispatchThread.state =
        Function.update core.state core.readyThreads .running := by
      unfold Core.dispatchThread
      rw [if_pos empty]
      rfl
    refine ⟨?_, Or.inr ⟨core.readyThreads, control', ready, states⟩⟩
    rw [plain_of_running control' (by rw [states]; exact Function.update_self _ _ _)]
    exact moved

theorem fillPool_sameData (core : Core) (page : Nat) : core.SameData (core.fillPool page) := by
  unfold fillPool
  split <;> exact ⟨rfl, rfl, rfl, rfl, rfl, rfl⟩

structure Creates (core after : Core) (thread : Nat) : Prop where
  flags : after.flags = Function.update core.flags thread 0
  returnData : after.returnData = core.returnData
  waitConditions : after.waitConditions = Function.update core.waitConditions thread 0
  conditions : after.conditions = Function.update core.conditions (threadCondition thread) 0
  created : after.created = thread :: core.created
  waitFrames : after.waitFrames = Function.update core.waitFrames thread none

theorem createThread_creates {init : ThreadInit} {page : Nat}
    (complete : ¬ (init.ring0StackPage = 0 ∨ init.ring0StackBase = 0 ∨ init.entryPoint = 0))
    (ran : core.createThread init page = some (thread, after)) : core.Creates after thread := by
  unfold createThread at ran
  rw [if_neg complete] at ran
  have filled := fillPool_sameData core page
  generalize core.fillPool page = pool at *
  obtain ⟨ready, queued, same⟩ := Option.map_eq_some_iff.mp ran
  obtain ⟨rfl, rfl⟩ := Prod.mk.inj same
  have data := queueReadyThread_sameData queued
  constructor
  · rw [data.flags, ← filled.flags]
    rfl
  · rw [data.returnData, ← filled.returnData]
    rfl
  · rw [data.waitConditions, ← filled.waitConditions]
    rfl
  · rw [data.conditions, ← filled.conditions]
    rfl
  · rw [data.created, ← filled.created]
    rfl
  · rw [data.waitFrames, ← filled.waitFrames]
    rfl

theorem queueReadyThread_control (ran : core.queueReadyThread thread = some after) :
    after.control = core.control := by
  unfold queueReadyThread at ran
  split at ran
  · obtain ⟨⟨last, reached⟩, loop, same⟩ := Option.map_eq_some_iff.mp ran
    subst same
    have kept : ∀ turn next : Nat × Core, turn.2.control = core.control →
        queueReadyTurn turn = some next → next.2.control = core.control := by
      rintro ⟨first, middle⟩ next same runs
      by_cases null : first = 0
      · simp [queueReadyTurn, null] at runs
      · simp only [queueReadyTurn, null, if_false, Option.some.injEq] at runs
        subst runs
        have linked : (middle.linkReady first).control = middle.control := by
          unfold linkReady
          split <;> rfl
        exact linked.trans same
    have start : (thread, core).2.control = core.control := rfl
    exact WhileLoop.keeps kept start loop
  · exact Option.some_inj.mp ran ▸ rfl

theorem createThread_free {init : ThreadInit} {page : Nat}
    (free : ∀ waiter, core.waitFrames waiter = none)
    (ran : core.createThread init page = some (thread, after)) (waiter : Nat) :
    after.waitFrames waiter = none := by
  by_cases complete : init.ring0StackPage = 0 ∨ init.ring0StackBase = 0 ∨ init.entryPoint = 0
  · unfold createThread at ran
    rw [if_pos complete] at ran
    obtain ⟨-, rfl⟩ := Prod.mk.inj (Option.some_inj.mp ran)
    exact free waiter
  · have creates := createThread_creates complete ran
    rw [creates.waitFrames]
    by_cases same : waiter = thread
    · rw [same, Function.update_self]
    · rw [Function.update_of_ne same]
      exact free waiter

theorem start_alone (initial : schedulerMachine.start core) :
    core.control = .boot ∧ core.created = [core.cleanupThread] ∧
      core.conditions (threadCondition core.cleanupThread) = 0 ∧
      ∀ waiter, core.waitFrames waiter = none := by
  obtain ⟨boot, init, page, atBoot, -, complete, ran⟩ := initial
  obtain ⟨-, -, -, -, -, noneCreated, -, -, booting, noFrames⟩ := atBoot
  obtain ⟨⟨thread, made⟩, created, same⟩ := Option.map_eq_some_iff.mp ran
  subst same
  have creates := createThread_creates complete created
  have free := createThread_free noFrames created
  unfold createThread at created
  rw [if_neg complete] at created
  obtain ⟨ready, queued, same⟩ := Option.map_eq_some_iff.mp created
  obtain ⟨-, rfl⟩ := Prod.mk.inj same
  have control := queueReadyThread_control queued
  have filled : (boot.fillPool page).control = boot.control := by
    unfold fillPool
    split <;> rfl
  refine ⟨?_, ?_, ?_, free⟩
  · exact control.trans (filled.trans booting)
  · change ready.created = [thread]
    rw [creates.created, noneCreated]
  · exact (congrFun creates.conditions _).trans (Function.update_self _ _ _)

theorem Tracked.creates (tracked : core.plain.Tracked)
    (running : ∀ thread, core.control = .thread thread → core.state thread = .running)
    (init : ThreadInit) {page : Nat} (fresh : core.poolThreads = 0 → core.FreshPage page) :
    core.createThread init page = some (0, core) ∨
      ∃ thread after, core.createThread init page = some (thread, after) ∧
        after.plain.Tracked ∧ thread ≠ 0 ∧ after.control = core.control ∧
        after.cleanupThread = core.cleanupThread ∧ core.Creates after thread ∧
        core.control ≠ .thread thread ∧ thread ≠ core.cleanupThread ∧
        (thread ∈ core.created → core.state thread = .invalid) ∧ after.state thread = .ready ∧
        ∀ other, other ≠ thread → after.state other = core.state other := by
  have isUnflagged : core.plain = core.unflagged := by
    by_cases control : ∃ thread, core.control = .thread thread
    · obtain ⟨thread, control⟩ := control
      exact plain_of_running control (running thread control)
    · exact plain_idle fun thread control' => control ⟨thread, control'⟩
  by_cases missing : init.ring0StackPage = 0 ∨ init.ring0StackBase = 0 ∨ init.entryPoint = 0
  · left
    unfold Core.createThread
    rw [if_pos missing]
  · right
    rw [isUnflagged] at tracked
    obtain ⟨lists, placed⟩ := tracked.placed
    obtain ⟨thread, view, lists', ran, moved, keeps, isCreated, order, -, free, unused, states⟩ :=
      placed.createThread fresh missing
    obtain ⟨thread', view', ran', tracked'⟩ := tracked.createThread init fresh
    obtain ⟨rfl, rfl⟩ := Prod.mk.inj (Option.some_inj.mp (ran.symm.trans ran'))
    rw [unflagged_createThread] at ran
    obtain ⟨⟨made, after⟩, reached, seen⟩ := Option.map_eq_some_iff.mp ran
    obtain ⟨rfl, rfl⟩ := Prod.mk.inj seen
    have inReady : made ∈ lists' .ready := by
      rw [order]
      exact List.mem_append_right _ List.mem_cons_self
    have control : after.control = core.control := keeps.control
    have notRunning : core.control ≠ .thread made := by
      intro control'
      apply free
      rw [held_running (show core.unflagged.control = .thread made from control')]
      exact List.mem_cons_self
    refine ⟨made, after, reached, ?_, ?_, control, keeps.cleanupThread,
      createThread_creates missing reached, notRunning, ?_, unused, ?_, states⟩
    · by_cases control' : ∃ thread, after.control = .thread thread
      · obtain ⟨thread, control'⟩ := control'
        have different : thread ≠ made := fun same =>
          notRunning (same ▸ control.symm.trans control')
        have stays : after.state thread = .running :=
          (states thread different).trans (running thread (control.symm.trans control'))
        rw [plain_of_running control' stays]
        exact tracked'
      · rw [plain_idle fun thread control'' => control' ⟨thread, control''⟩]
        exact tracked'
    · exact moved.slot_ne_zero (moved.created made isCreated)
    · intro same
      exact free (same ▸ cleanup_held core.unflagged)
    · exact (moved.listed .ready made inReady).2.2.2

theorem detachThread_state (core : Core) (thread other : Nat) :
    (core.detachThread thread).state other = core.state other ∨ other = thread ∧
      core.state thread = .terminated ∧ (core.detachThread thread).state thread = .detached := by
  unfold Core.detachThread
  split
  · by_cases terminated : core.state thread = .terminated
    · simp only [terminated, if_true]
      rw [queueDetachedThread_state]
      by_cases same : other = thread
      · exact Or.inr ⟨same, trivial, Function.update_self _ _ _⟩
      · exact Or.inl (Function.update_of_ne same _ _)
    · simp only [terminated, if_false]
      exact Or.inl rfl
  · exact Or.inl rfl

theorem detachThread_keeps (core : Core) (thread : Nat) :
    (core.detachThread thread).control = core.control ∧
      (core.detachThread thread).cleanupThread = core.cleanupThread ∧
      (core.detachThread thread).created = core.created ∧
      (core.detachThread thread).waitConditions = core.waitConditions ∧
      (core.detachThread thread).returnData = core.returnData ∧
      (core.detachThread thread).conditions = core.conditions := by
  unfold Core.detachThread queueDetachedThread
  split
  · dsimp only
    split
    · split <;> exact ⟨rfl, rfl, rfl, rfl, rfl, rfl⟩
    · exact ⟨rfl, rfl, rfl, rfl, rfl, rfl⟩
  · exact ⟨rfl, rfl, rfl, rfl, rfl, rfl⟩

theorem detachThread_waitFrames (core : Core) (thread : Nat) :
    (core.detachThread thread).waitFrames = core.waitFrames := by
  unfold Core.detachThread queueDetachedThread
  split
  · dsimp only
    split
    · split <;> rfl
    · rfl
  · rfl

theorem detachThread_flags (core : Core) (thread : Nat) :
    (∀ other, other ≠ thread → (core.detachThread thread).flags other = core.flags other) ∧
      (thread ≠ 0 → (core.detachThread thread).flags thread &&& threadFlagDetached ≠ 0) := by
  unfold Core.detachThread
  by_cases unflagged : thread ≠ 0 ∧ core.flags thread &&& threadFlagDetached = 0
  · rw [if_pos unflagged]
    have flags : (if core.state thread = .terminated then
        ((core.setFlags thread (core.flags thread ||| threadFlagDetached)).setState thread
          .detached).queueDetachedThread thread
        else core.setFlags thread (core.flags thread ||| threadFlagDetached)).flags =
          Function.update core.flags thread (core.flags thread ||| threadFlagDetached) := by
      split
      · exact (queueDetachedThread_sameData _ thread).flags
      · rfl
    dsimp only
    rw [flags]
    refine ⟨fun other different => Function.update_of_ne different _ _, fun _ => ?_⟩
    rw [Function.update_self]
    simp [threadFlagDetached]
  · rw [if_neg unflagged]
    exact ⟨fun _ _ => rfl, fun nonNull zero => unflagged ⟨nonNull, zero⟩⟩

theorem Tracked.created_ne_zero (tracked : core.Tracked) (created : thread ∈ core.created) :
    thread ≠ 0 := by
  obtain ⟨lists, placed⟩ := tracked.placed
  exact placed.slot_ne_zero (placed.created thread created)

theorem Tracked.detaches (tracked : core.plain.Tracked)
    (running : ∀ thread, core.control = .thread thread → core.state thread = .running)
    (pointer : core.Pointer thread) : (core.detachThread thread).plain.Tracked := by
  have control := (detachThread_keeps core thread).1
  by_cases isThread : ∃ current, core.control = .thread current
  · obtain ⟨current, control'⟩ := isThread
    rw [plain_of_running control' (running current control')] at tracked
    have stays : (core.detachThread thread).state current = .running := by
      rcases detachThread_state core thread current with same | ⟨same, terminated, -⟩
      · exact same.trans (running current control')
      · rw [same] at control'
        exact absurd ((running thread control').symm.trans terminated) (by decide)
    rw [plain_of_running (control.trans control') stays]
    exact tracked.unflagged_detach pointer
  · rw [plain_idle fun current control' => isThread ⟨current, control'⟩] at tracked
    rw [plain_idle fun current control' => isThread ⟨current, control.symm.trans control'⟩]
    exact tracked.unflagged_detach pointer

end Steps

end Core

end DoggOS.Proc

/-
The atomic steps of the scheduler: creating, detaching, waiting for and ending
threads, and the three parts of a scheduler round.

A step is specified by where it leaves the threads.  The calls of a running
thread find it in hand and, when they give up the core, leave it on the list
that `k_proc_RunThread` chooses by its state.
-/

import DoggOS.Proc.ThreadCalls
import Mathlib.Logic.Equiv.Basic

namespace DoggOS.Proc.Core

variable {core : Core} {lists : ListKey → List Nat} {hands : List Nat} {thread page : Nat}

theorem Placed.fillPool (placed : Placed core .none lists hands)
    (fresh : core.poolThreads = 0 → core.FreshPage page) :
    ∃ lists', Placed (core.fillPool page) .none lists' hands ∧
      core.Keeps (core.fillPool page) hands ∧ (core.fillPool page).poolThreads ≠ 0 ∧
      ∀ key, key ≠ .pool → lists' key = lists key := by
  unfold Core.fillPool
  by_cases empty : core.poolThreads = 0
  · rw [if_pos empty]
    obtain ⟨filled, keeps⟩ := placed.addThreadPage (fresh empty) empty
    have slotNonNull : threadSlot page 0 ≠ 0 := by
      unfold threadSlot threadPageHeaderBytes
      omega
    exact ⟨_, filled, keeps, slotNonNull, fun key notPool => Function.update_of_ne notPool _ _⟩
  · rw [if_neg empty]
    exact ⟨lists, placed, Keeps.refl core hands, empty, fun _ _ => rfl⟩

theorem Placed.takeThread (placed : Placed core .none lists hands) (nonNull : core.poolThreads ≠ 0) :
    ∃ lists', Placed (core.takeThread core.poolThreads) .none lists' (core.poolThreads :: hands) ∧
      (∀ key, key ≠ .pool → lists' key = lists key) ∧ core.poolThreads ∉ hands ∧
      (core.poolThreads ∈ core.created → core.state core.poolThreads = .invalid) := by
  have poolHead : core.heads .none .pool ≠ 0 := nonNull
  obtain ⟨rest, listed⟩ := placed.queues.exists_cons poolHead
  have member : core.poolThreads ∈ lists .pool := by
    rw [listed]
    exact List.mem_cons_self
  obtain ⟨-, free, -, unused⟩ := placed.listed .pool _ member
  refine ⟨Function.update lists .pool rest, ?_,
    fun key notPool => Function.update_of_ne notPool _ _, free, unused⟩
  apply placed.take listed
  · exact Agree.refl _ rfl rfl rfl rfl rfl
  · rfl
  · funext key
    cases key <;> rfl
  · rfl
  · exact placed.fifo
  · exact placed.undetached _

theorem fillPool_state (core : Core) (page : Nat) : (core.fillPool page).state = core.state := by
  unfold Core.fillPool
  split <;> rfl

theorem fillPool_created (core : Core) (page : Nat) :
    (core.fillPool page).created = core.created := by
  unfold Core.fillPool
  split <;> rfl

theorem initThread_agree (core : Core) (thread : Nat) : core.Agree (core.initThread thread) thread := by
  constructor
  · rfl
  · exact fun other different => List.mem_cons.trans (or_iff_right different)
  all_goals exact fun other different => Function.update_of_ne different _ _

theorem initThread_state (core : Core) (thread : Nat) :
    (core.initThread thread).state thread = .created :=
  Function.update_self _ _ _

theorem Placed.initThread (placed : Placed core .none lists (thread :: hands)) :
    Placed (core.initThread thread) .none lists (thread :: hands) ∧
      core.Keeps (core.initThread thread) hands := by
  have free := (List.nodup_cons.mp placed.handsNodup).1
  have links : ∀ other, other ≠ thread →
      (core.initThread thread).queueNext other = core.queueNext other :=
    fun other different => Function.update_of_ne different _ _
  constructor
  · apply placed.update List.mem_cons_self (initThread_agree core thread) links
    · funext key
      cases key <;> rfl
    · rfl
    · exact placed.fifo
    · intro ended
      have state := ended.2
      rw [initThread_state] at state
      cases state
  · apply Keeps.of_agree (initThread_agree core thread) free rfl rfl
    · exact fun _ member => List.mem_cons_of_mem _ member
    · intro other target frame
      by_cases same : other = thread
      · simp [Core.initThread, same] at frame
      · simpa [Core.initThread, same] using frame
    · exact links

theorem Placed.createThread (placed : Placed core .none lists hands)
    (fresh : core.poolThreads = 0 → core.FreshPage page) {init : ThreadInit}
    (complete : ¬ (init.ring0StackPage = 0 ∨ init.ring0StackBase = 0 ∨ init.entryPoint = 0)) :
    ∃ thread after lists', core.createThread init page = some (thread, after) ∧
      Placed after .none lists' hands ∧ core.Keeps after hands ∧ thread ∈ after.created ∧
      lists' .ready = lists .ready ++ [thread] ∧
      (∀ key, key ≠ .pool → key ≠ .ready → lists' key = lists key) ∧
      thread ∉ hands ∧ (thread ∈ core.created → core.state thread = .invalid) ∧
      ∀ other, other ≠ thread → after.state other = core.state other := by
  obtain ⟨filledLists, filled, keepsFilled, nonNull, sameFilled⟩ := placed.fillPool fresh
  have sameStates := fillPool_state core page
  have sameCreated := fillPool_created core page
  unfold Core.createThread
  rw [if_neg complete]
  generalize core.fillPool page = pool at *
  obtain ⟨takenLists, taken, sameTaken, free, unused⟩ := filled.takeThread nonNull
  obtain ⟨started, keepsStarted⟩ := taken.initThread
  have state := initThread_state (pool.takeThread pool.poolThreads) pool.poolThreads
  obtain ⟨after, lists', ran, moved, keeps, order, others, states⟩ := started.ready_one
    List.mem_cons_self (Function.update_self _ _ _) (by rw [state]; decide) (by rw [state]; decide)
  have keepsTaken : pool.Keeps (pool.takeThread pool.poolThreads) hands :=
    ⟨rfl, rfl, fun _ member => member, fun _ _ frame => frame, fun _ _ => rfl, fun _ _ => rfl⟩
  have keepsAll := keepsFilled.trans (keepsTaken.trans (keepsStarted.trans keeps))
  refine ⟨pool.poolThreads, after, lists', ?_, moved, keepsAll, ?_, ?_, fun key notPool notReady => ?_,
    free, ?_, fun other different => ?_⟩
  · simp only [ran, Option.map_some]
  · exact keeps.created _ List.mem_cons_self
  · rw [order, sameTaken .ready (by decide), sameFilled .ready (by decide)]
  · rw [others key notReady, sameTaken key notPool, sameFilled key notPool]
  · rw [← sameStates, ← sameCreated]
    exact unused
  · rw [states other different, ← sameStates]
    exact Function.update_of_ne different _ _

theorem Placed.flag (placed : Placed core .none lists hands) (thread flags : Nat)
    (running : ¬ core.Ended thread) :
    Placed (core.setFlags thread flags) .none lists hands := by
  have undetached : ∀ other, core.Ended other →
      (core.setFlags thread flags).flags other &&& threadFlagDetached = 0 := by
    intro other ended
    have different : other ≠ thread := fun same => running (same ▸ ended)
    have kept : (core.setFlags thread flags).flags other = core.flags other :=
      Function.update_of_ne different _ _
    rw [kept]
    exact placed.undetached other ended
  exact ⟨placed.queues, placed.tails, placed.listed, placed.handsNodup, placed.inHand, placed.covered,
    placed.created, undetached, placed.pages, placed.fifo⟩

/-- Detaching an ended thread discards it; detaching any other only flags it. -/
theorem Placed.detachThread (placed : Placed core .none lists hands)
    (created : thread = 0 ∨ thread ∈ core.created)
    (alive : ∀ held ∈ hands, core.state held ≠ .terminated)
    (cleanup : core.cleanupThread ∈ hands) :
    ∃ lists', Placed (core.detachThread thread) .none lists' hands ∧
      core.Keeps (core.detachThread thread) hands := by
  unfold Core.detachThread
  by_cases unflagged : thread ≠ 0 ∧ core.flags thread &&& threadFlagDetached = 0
  · rw [if_pos unflagged]
    have isCreated : thread ∈ core.created := created.resolve_left unflagged.1
    by_cases terminated : core.state thread = .terminated
    · simp only [terminated, if_true]
      have notHeld : thread ∉ hands := fun held => alive thread held terminated
      have picked := placed.pickUp ⟨isCreated, terminated⟩ notHeld
      generalize core.flags thread ||| threadFlagDetached = flags
      have agree : core.Agree ((core.setFlags thread flags).setState thread .detached) thread := by
        constructor
        · rfl
        · exact fun _ _ => Iff.rfl
        · exact fun other different => Function.update_of_ne different _ _
        · exact fun other different => Function.update_of_ne different _ _
        · exact fun _ _ => rfl
      have isDetached : ((core.setFlags thread flags).setState thread .detached).state thread =
          .detached := Function.update_self _ _ _
      have marked := picked.update List.mem_cons_self agree (fun _ _ => rfl)
        (by funext key; cases key <;> rfl) rfl picked.fifo
        (fun ended => by
          have state := ended.2
          rw [isDetached] at state
          cases state)
      obtain ⟨discarded, keeps⟩ := marked.discard isCreated isDetached fun same => notHeld (same ▸ cleanup)
      refine ⟨_, discarded, Keeps.trans ?_ keeps⟩
      exact Keeps.of_agree agree notHeld rfl rfl (fun _ member => member) (fun _ _ frame => frame)
        fun _ _ => rfl
    · simp only [terminated, if_false]
      refine ⟨lists, placed.flag thread _ fun ended => terminated ended.2, ?_⟩
      exact ⟨rfl, rfl, fun _ member => member, fun _ _ frame => frame, fun _ _ => rfl, fun _ _ => rfl⟩
  · rw [if_neg unflagged]
    exact ⟨lists, placed, Keeps.refl core hands⟩

/-- What `k_proc_RunThread` expects of a thread that gives up the core. -/
def Leaves (core : Core) (thread : Nat) : Prop :=
  core.state thread = .detached ∨
    core.state thread = .condWait ∧ core.waitConditions thread ≠ 0 ∨
    core.state thread = .running ∧ core.queueNext thread = 0 ∨ core.Ended thread

theorem Placed.afterSwitch (placed : Placed core .none lists (thread :: hands))
    (created : thread ∈ core.created) (notCleanup : thread ≠ core.cleanupThread)
    (leaves : core.Leaves thread) :
    ∃ after lists', core.afterSwitch thread = some after ∧ Placed after .none lists' hands ∧
      core.Keeps after hands ∧
      (after.state thread = if core.state thread = .running then .ready else core.state thread) ∧
      ∀ other, other ≠ thread → after.state other = core.state other := by
  unfold Core.afterSwitch
  rw [if_pos notCleanup]
  rcases leaves with detached | waits | ⟨running, alone⟩ | ended
  · rw [detached]
    obtain ⟨discarded, keeps⟩ := placed.discard created detached notCleanup
    have states := queueDetachedThread_state core thread
    exact ⟨_, _, rfl, discarded, keeps, by rw [states]; exact detached, fun _ _ => by rw [states]⟩
  · rw [waits.1]
    obtain ⟨waiting, keeps⟩ := placed.wait created waits notCleanup
    have states := queueWaitingThread_state core thread
    exact ⟨_, _, rfl, waiting, keeps, by rw [states]; exact waits.1, fun _ _ => by rw [states]⟩
  · rw [running]
    obtain ⟨after, lists', ran, ready, keeps, order, -, states⟩ :=
      placed.ready_one created alone (by rw [running]; decide) (by rw [running]; decide)
    have member : thread ∈ lists' .ready := by
      rw [order]
      exact List.mem_append_right _ List.mem_cons_self
    exact ⟨after, lists', ran, ready, keeps, (ready.listed .ready thread member).2.2.2, states⟩
  · rw [ended.2]
    exact ⟨core, lists, rfl, placed.putDown ended, Keeps.refl core hands, ended.2, fun _ _ => rfl⟩

theorem afterSwitch_sameData {after : Core} (ran : core.afterSwitch thread = some after) :
    core.SameData after := by
  unfold Core.afterSwitch at ran
  split at ran
  · split at ran
    · exact Option.some_inj.mp ran ▸ queueDetachedThread_sameData core thread
    · exact Option.some_inj.mp ran ▸ queueWaitingThread_sameData core thread
    · exact queueReadyThread_sameData ran
    · exact Option.some_inj.mp ran ▸ SameData.refl core
  · exact Option.some_inj.mp ran ▸ ⟨rfl, rfl, rfl, rfl, rfl, rfl⟩

theorem Placed.takeList {locals locals' : Locals} {source target : ListKey}
    (placed : Placed core locals lists hands) (condWaitThreads condWaitLastThread deleteList : Nat)
    (untailed : ¬ target.Tailed) (notReady : source ≠ .ready) (empty : core.heads locals target = 0)
    (notPool : source ≠ .pool)
    (fits : ∀ thread, core.StateFits source thread → core.StateFits target thread)
    (heads : Core.heads { core with condWaitThreads, condWaitLastThread, deleteList } locals' =
      core.heads locals ∘ Equiv.swap source target)
    (tails : ∀ key, key ≠ source →
      Core.tails { core with condWaitThreads, condWaitLastThread, deleteList } key = core.tails key) :
    Placed { core with condWaitThreads, condWaitLastThread, deleteList } locals'
      (lists ∘ Equiv.swap source target) hands := by
  have noTarget : lists target = [] := placed.nil_of_head empty
  have targetNotReady : target ≠ .ready := fun same => untailed (Or.inl same)
  have noSource : (lists ∘ Equiv.swap source target) source = [] := by
    rw [Function.comp_apply, Equiv.swap_apply_left, noTarget]
  have others : ∀ key, key ≠ source → key ≠ target →
      (lists ∘ Equiv.swap source target) key = lists key := by
    intro key notSource notTarget
    rw [Function.comp_apply, Equiv.swap_apply_of_ne_of_ne notSource notTarget]
  constructor
  · rw [heads]
    exact placed.queues.rename (Equiv.injective _)
  · intro key tailed front last listed
    by_cases isSource : key = source
    · rw [isSource, noSource] at listed
      simp at listed
    · rw [others key isSource fun same => untailed (same ▸ tailed)] at listed
      rw [tails key isSource]
      exact placed.tails key tailed front last listed
  · intro key thread member
    obtain ⟨slot, free, old⟩ := placed.listed _ thread member
    refine ⟨slot, free, ?_⟩
    by_cases isTarget : key = target
    · subst isTarget
      rw [Equiv.swap_apply_right] at old
      exact ⟨fun _ => old.1 notPool, fits thread old.2⟩
    · by_cases isSource : key = source
      · rw [isSource, noSource] at member
        exact absurd member List.not_mem_nil
      · rwa [Equiv.swap_apply_of_ne_of_ne isSource isTarget] at old
  · exact placed.handsNodup
  · exact placed.inHand
  · intro thread slot
    rcases placed.covered thread slot with held | ⟨key, member⟩ | ended
    · exact Or.inl held
    · refine Or.inr (Or.inl ⟨Equiv.swap source target key, ?_⟩)
      rwa [Function.comp_apply, Equiv.swap_apply_self]
    · exact Or.inr (Or.inr ended)
  · exact placed.created
  · exact placed.undetached
  · exact placed.pages
  · rw [others .ready notReady.symm targetNotReady.symm]
    exact placed.fifo

theorem Placed.wake_turn {waiting resume : Nat}
    (placed : Placed core ⟨waiting, resume, 0⟩ lists hands) (nonNull : waiting ≠ 0)
    (cleanup : core.cleanupThread ∈ hands) :
    ∃ turn lists', wakeTurn (waiting, resume, core) = some turn ∧
      Placed turn.2.2 ⟨turn.1, turn.2.1, 0⟩ lists' hands ∧ core.Keeps turn.2.2 hands ∧
      (lists' .waiting).length < (lists .waiting).length ∧
      turn.2.2.state = core.state ∧ core.SameData turn.2.2 ∧ core.state waiting = .condWait ∧
      if core.conditions (core.waitConditions waiting) ≠ 0 then
        lists' .resume = waiting :: lists .resume ∧ lists' .condWait = lists .condWait
      else lists' .resume = lists .resume ∧ lists' .condWait = lists .condWait ++ [waiting] := by
  have isHead : core.heads ⟨waiting, resume, 0⟩ .waiting ≠ 0 := nonNull
  obtain ⟨rest, listed⟩ := placed.queues.exists_cons isHead
  have member : waiting ∈ lists .waiting := by
    rw [listed]
    exact List.mem_cons_self
  obtain ⟨-, free, created, waits⟩ := placed.listed .waiting waiting member
  have held : Placed core ⟨core.queueNext waiting, resume, 0⟩
      (Function.update lists .waiting rest) (waiting :: hands) := by
    apply placed.take listed (Agree.refl waiting rfl rfl rfl rfl rfl) rfl
    · funext key
      cases key <;> rfl
    · rfl
    · exact placed.fifo
    · exact placed.undetached waiting
  have shorter : rest.length < (lists .waiting).length := by
    rw [listed]
    exact Nat.lt_succ_self rest.length
  simp only [wakeTurn, if_neg nonNull]
  by_cases signalled : core.conditions (core.waitConditions waiting) ≠ 0
  · rw [if_pos signalled]
    refine ⟨_, Function.update (Function.update lists .waiting rest) .resume
      (waiting :: Function.update lists .waiting rest .resume), rfl, ?_, ?_, shorter, rfl,
      ⟨rfl, rfl, rfl, rfl, rfl, rfl⟩, waits.1, by rw [if_pos signalled]; exact ⟨rfl, rfl⟩⟩
    · apply held.putFront
      · rintro (same | same) <;> cases same
      · exact Agree.refl waiting rfl rfl rfl rfl rfl
      · rfl
      · funext key
        cases key <;> rfl
      · rfl
      · exact held.fifo
      · refine ⟨fun _ => created (by decide), ?_, ?_⟩ <;> rw [setQueueNext, waits.1] <;> decide
    · exact Keeps.of_agree (Agree.refl waiting rfl rfl rfl rfl rfl) free rfl rfl
        (fun _ member => member) (fun _ _ frame => frame)
        fun other different => Function.update_of_ne different _ _
  · rw [if_neg signalled]
    obtain ⟨waited, keeps⟩ := held.wait (created (by decide)) waits fun same => free (same ▸ cleanup)
    exact ⟨_, _, rfl, waited, keeps, shorter, queueWaitingThread_state core waiting,
      queueWaitingThread_sameData core waiting, waits.1, by rw [if_neg signalled]; exact ⟨rfl, rfl⟩⟩

theorem Placed.switchTo (placed : Placed core .none lists hands) (held : thread ∈ hands)
    (control : Control) : Placed (core.switchTo thread control) .none lists hands := by
  have running : (core.setState thread .running).state thread = .running :=
    Function.update_self _ _ _
  have marked : Placed (core.setState thread .running) .none lists hands := by
    apply placed.update held
    · exact agree_of_state rfl rfl rfl rfl rfl
    · exact fun _ _ => rfl
    · funext key
      cases key <;> rfl
    · rfl
    · exact placed.fifo
    · intro ended
      have state := ended.2
      rw [running] at state
      cases state
  exact marked.retag _ _ _ _ control

/-- Every signalled thread becomes ready, the others keep waiting, and the cleanup thread runs. -/
theorem Placed.wakeThreads (placed : Placed core .none lists hands)
    (cleanup : core.cleanupThread ∈ hands) :
    ∃ woken lists', core.wakeThreads = some (woken.switchTo woken.cleanupThread .cleanup) ∧
      Placed woken .none lists' hands ∧ core.Keeps woken hands ∧ core.SameData woken ∧
      (∀ thread ∈ lists' .condWait, core.conditions (core.waitConditions thread) = 0) ∧
      ∀ thread, woken.state thread = core.state thread ∨ core.state thread = .condWait ∧
        core.conditions (core.waitConditions thread) ≠ 0 ∧ woken.state thread = .ready := by
  have taken : Placed { core with condWaitThreads := 0, condWaitLastThread := 0 }
      ⟨core.condWaitThreads, 0, 0⟩ (lists ∘ Equiv.swap .condWait .waiting) hands := by
    apply placed.takeList 0 0 core.deleteList
    · rintro (same | same) <;> cases same
    · decide
    · rfl
    · decide
    · exact fun _ fits => fits
    · funext key
      cases key <;> rfl
    · intro key different
      cases key <;> first | rfl | exact absurd rfl different
  let waking (now : ListKey → List Nat) (turn : Nat × Nat × Core) : Prop :=
    Placed turn.2.2 ⟨turn.1, turn.2.1, 0⟩ now hands ∧ core.Keeps turn.2.2 hands ∧
      turn.2.2.state = core.state ∧ core.SameData turn.2.2 ∧
      (∀ thread ∈ now .resume, core.state thread = .condWait ∧
        core.conditions (core.waitConditions thread) ≠ 0) ∧
      ∀ thread ∈ now .condWait, core.conditions (core.waitConditions thread) = 0
  have turns : ∀ now turn next, waking now turn → wakeTurn turn = some next →
      ∃ now', waking now' next ∧ (now' .waiting).length < (now .waiting).length := by
    rintro now ⟨waiting, resume, middle⟩ next ⟨placed, keeps, states, data, resumed, unset⟩ runs
    by_cases null : waiting = 0
    · simp [wakeTurn, null] at runs
    · have inHands : middle.cleanupThread ∈ hands := keeps.cleanupThread ▸ cleanup
      obtain ⟨turn, now', ran, moved, kept, shorter, sameStates, sameData, waits, sorted⟩ :=
        placed.wake_turn null inHands
      have same : turn = next := Option.some_inj.mp (ran.symm.trans runs)
      rw [data.conditions, data.waitConditions] at sorted
      rw [states] at waits
      refine same ▸ ⟨now', ⟨moved, keeps.trans kept, sameStates.trans states,
        data.trans sameData, ?_, ?_⟩, shorter⟩
      · intro thread member
        split at sorted
        · next signalled =>
            rw [sorted.1] at member
            rcases List.mem_cons.mp member with first | later
            · exact first ▸ ⟨waits, signalled⟩
            · exact resumed thread later
        · exact resumed thread (sorted.1 ▸ member)
      · intro thread member
        split at sorted
        · exact unset thread (sorted.2 ▸ member)
        · next unsignalled =>
            rw [sorted.2] at member
            rcases List.mem_append.mp member with earlier | last
            · exact unset thread earlier
            · exact (List.mem_singleton.mp last) ▸ not_not.mp unsignalled
  have noResume : (lists ∘ Equiv.swap ListKey.condWait .waiting) .resume = [] :=
    taken.nil_of_head rfl
  have noWaiting : (lists ∘ Equiv.swap ListKey.condWait .waiting) .condWait = [] :=
    taken.nil_of_head rfl
  obtain ⟨now, ⟨waiting, resume, middle⟩, ran, ⟨moved, keeps, states, data, resumed, unset⟩,
      stopped⟩ :=
    WhileLoop.rule waking (fun now => (now .waiting).length) turns _
      (core.condWaitThreads, 0, { core with condWaitThreads := 0, condWaitLastThread := 0 })
      ⟨taken, ⟨rfl, rfl, fun _ member => member, fun _ _ frame => frame, fun _ _ => rfl,
        fun _ _ => rfl⟩, rfl, ⟨rfl, rfl, rfl, rfl, rfl, rfl⟩,
        fun thread member => absurd (noResume ▸ member) List.not_mem_nil,
        fun thread member => absurd (noWaiting ▸ member) List.not_mem_nil⟩
      (Nat.lt_succ_of_le (taken.length_le .waiting))
  have noneWaiting : waiting = 0 := by
    by_contra nonNull
    obtain ⟨turn, -, runs, -⟩ := moved.wake_turn nonNull (keeps.cleanupThread ▸ cleanup)
    rw [stopped] at runs
    cases runs
  subst noneWaiting
  have loop : whileLoop wakeTurn (core.slots.length + 1) (core.condWaitThreads, 0,
      { core with condWaitThreads := 0, condWaitLastThread := 0 }) = some (0, resume, middle) := ran
  by_cases noneResumed : resume = 0
  · subst noneResumed
    refine ⟨middle, now, ?_, moved, keeps, data, unset, fun thread => Or.inl (congrFun states thread)⟩
    simp only [Core.wakeThreads, loop, ne_eq, not_true_eq_false, if_false, Option.map_some]
  · have isHead : middle.heads ⟨0, resume, 0⟩ .resume ≠ 0 := noneResumed
    obtain ⟨rest, listed⟩ := moved.queues.exists_cons isHead
    have member : resume ∈ now .resume := by
      rw [listed]
      exact List.mem_cons_self
    have valid : middle.valid resume := ⟨noneResumed, (moved.listed .resume resume member).2.2.2.1⟩
    obtain ⟨after, lists', queued, ready, kept, order, others, unmoved⟩ := moved.ready_chain valid
    refine ⟨after, lists', ?_, ready, keeps.trans kept,
      data.trans (queueReadyThread_sameData queued), ?_, fun thread => ?_⟩
    · simp only [Core.wakeThreads, loop, ne_eq, noneResumed, not_false_eq_true, if_true, queued,
        Option.map_some]
    · rw [others .condWait (by decide) (by decide)]
      exact unset
    · by_cases moves : thread ∈ now .resume
      · have inReady : thread ∈ lists' .ready := by
          rw [order]
          exact List.mem_append_right _ moves
        obtain ⟨waits, signalled⟩ := resumed thread moves
        exact Or.inr ⟨waits, signalled, (ready.listed .ready thread inReady).2.2.2⟩
      · exact Or.inl ((unmoved thread moves).trans (congrFun states thread))

theorem Placed.destroy_turn {deleted : Nat}
    (placed : Placed core ⟨0, 0, deleted⟩ lists hands) (nonNull : deleted ≠ 0) :
    ∃ lists', Placed (core.destroyThread deleted) ⟨0, 0, core.queueNext deleted⟩ lists' hands ∧
      core.Keeps (core.destroyThread deleted) hands ∧
      (lists' .deleted).length < (lists .deleted).length ∧ core.state deleted = .detached := by
  have isHead : core.heads ⟨0, 0, deleted⟩ .deleted ≠ 0 := nonNull
  obtain ⟨rest, listed⟩ := placed.queues.exists_cons isHead
  have member : deleted ∈ lists .deleted := by
    rw [listed]
    exact List.mem_cons_self
  have detached := (placed.listed .deleted deleted member).2.2.2
  have held : Placed core ⟨0, 0, core.queueNext deleted⟩
      (Function.update lists .deleted rest) (deleted :: hands) := by
    apply placed.take listed (Agree.refl deleted rfl rfl rfl rfl rfl) rfl
    · funext key
      cases key <;> rfl
    · rfl
    · exact placed.fifo
    · exact placed.undetached deleted
  obtain ⟨destroyed, keeps⟩ := held.destroy detached
  refine ⟨_, destroyed, keeps, ?_, detached⟩
  rw [listed]
  exact Nat.lt_succ_self rest.length

theorem destroyThread_sameData (core : Core) (thread : Nat) :
    core.SameData (core.destroyThread thread) := by
  unfold destroyThread
  split <;> exact ⟨rfl, rfl, rfl, rfl, rfl, rfl⟩

theorem destroyThread_state (core : Core) (thread other : Nat) :
    (core.destroyThread thread).state other = core.state other ∨
      other = thread ∧ (core.destroyThread thread).state other = .invalid := by
  unfold destroyThread
  split
  · by_cases same : other = thread
    · exact Or.inr ⟨same, same ▸ Function.update_self _ _ _⟩
    · exact Or.inl (Function.update_of_ne same _ _)
  · exact Or.inl rfl

theorem Placed.cleanupThreads (placed : Placed core .none lists hands) :
    ∃ cleaned lists', core.cleanupThreads =
        some { cleaned.setState cleaned.cleanupThread .ready with control := .dispatch } ∧
      Placed cleaned .none lists' hands ∧ core.Keeps cleaned hands ∧ core.SameData cleaned ∧
      ∀ thread, cleaned.state thread = core.state thread ∨
        core.state thread = .detached ∧ cleaned.state thread = .invalid := by
  have taken : Placed { core with deleteList := 0 } ⟨0, 0, core.deleteList⟩
      (lists ∘ Equiv.swap .delete .deleted) hands := by
    apply placed.takeList core.condWaitThreads core.condWaitLastThread 0
    · rintro (same | same) <;> cases same
    · decide
    · rfl
    · decide
    · exact fun _ fits => fits
    · funext key
      cases key <;> rfl
    · exact fun key _ => rfl
  let destroying (now : ListKey → List Nat) (turn : Nat × Core) : Prop :=
    Placed turn.2 ⟨0, 0, turn.1⟩ now hands ∧ core.Keeps turn.2 hands ∧ core.SameData turn.2 ∧
      ∀ thread, turn.2.state thread = core.state thread ∨
        core.state thread = .detached ∧ turn.2.state thread = .invalid
  have turns : ∀ now turn next, destroying now turn → destroyTurn turn = some next →
      ∃ now', destroying now' next ∧ (now' .deleted).length < (now .deleted).length := by
    rintro now ⟨deleted, middle⟩ next ⟨placed, keeps, data, states⟩ runs
    by_cases null : deleted = 0
    · simp [destroyTurn, null] at runs
    · simp only [destroyTurn, null, if_false, Option.some.injEq] at runs
      subst runs
      obtain ⟨now', moved, kept, shorter, detached⟩ := placed.destroy_turn null
      refine ⟨now', ⟨moved, keeps.trans kept, data.trans (destroyThread_sameData middle deleted),
        fun thread => ?_⟩, shorter⟩
      rcases destroyThread_state middle deleted thread with same | ⟨same, invalid⟩
      · dsimp only
        rw [same]
        exact states thread
      · subst same
        rcases states thread with unchanged | ⟨-, invalid'⟩
        · exact Or.inr ⟨unchanged.symm.trans detached, invalid⟩
        · exact absurd (detached.symm.trans invalid') (by decide)
  obtain ⟨now, ⟨last, cleaned⟩, ran, ⟨moved, keeps, data, states⟩, stopped⟩ :=
    WhileLoop.rule destroying (fun now => (now .deleted).length) turns _
      (core.deleteList, { core with deleteList := 0 })
      ⟨taken, ⟨rfl, rfl, fun _ member => member, fun _ _ frame => frame, fun _ _ => rfl,
        fun _ _ => rfl⟩, ⟨rfl, rfl, rfl, rfl, rfl, rfl⟩, fun _ => Or.inl rfl⟩ (Nat.lt_succ_of_le (taken.length_le .deleted))
  have null : last = 0 := by
    by_contra nonNull
    simp [destroyTurn, nonNull] at stopped
  subst null
  have loop : whileLoop destroyTurn (core.slots.length + 1)
      (core.deleteList, { core with deleteList := 0 }) = some (0, cleaned) := ran
  refine ⟨cleaned, now, ?_, moved, keeps, data, states⟩
  simp only [Core.cleanupThreads, loop, Core.afterSwitch, ne_eq, not_true_eq_false, if_false,
    Option.map_some]

theorem Placed.dispatch_ready (placed : Placed core .none lists hands)
    (nonNull : core.readyThreads ≠ 0) :
    ∃ lists', Placed core.dispatchThread .none lists' (core.readyThreads :: hands) ∧
      core.Keeps { core.dispatchThread with control := core.control } hands ∧
      core.readyThreads ∈ core.created := by
  have isHead : core.heads .none .ready ≠ 0 := nonNull
  obtain ⟨rest, listed⟩ := placed.queues.exists_cons isHead
  have member : core.readyThreads ∈ lists .ready := by
    rw [listed]
    exact List.mem_cons_self
  obtain ⟨-, free, created, -⟩ := placed.listed .ready _ member
  have taken : Placed { core with
      readyThreads := core.queueNext core.readyThreads
      ran := core.ran ++ [core.readyThreads] } .none (Function.update lists .ready rest)
      (core.readyThreads :: hands) := by
    apply placed.take listed
    · exact Agree.refl _ rfl rfl rfl rfl rfl
    · rfl
    · funext key
      cases key <;> rfl
    · rfl
    · have fifo := placed.fifo
      rw [listed] at fifo
      rw [Function.update_self, List.append_assoc]
      exact fifo
    · exact placed.undetached _
  have unlinked : Placed { core.setQueueNext core.readyThreads 0 with
      readyThreads := core.queueNext core.readyThreads
      ran := core.ran ++ [core.readyThreads] } .none (Function.update lists .ready rest)
      (core.readyThreads :: hands) := by
    apply taken.update List.mem_cons_self
    · exact Agree.refl _ rfl rfl rfl rfl rfl
    · exact fun other different => Function.update_of_ne different _ _
    · funext key
      cases key <;> rfl
    · rfl
    · exact taken.fifo
    · exact taken.undetached _
  refine ⟨Function.update lists .ready rest, ?_, ?_, created (by decide)⟩
  · unfold Core.dispatchThread
    rw [if_pos nonNull]
    exact unlinked.switchTo List.mem_cons_self _
  · unfold Core.dispatchThread
    rw [if_pos nonNull]
    have different : ∀ other ∈ hands, other ≠ core.readyThreads :=
      fun other held same => free (same ▸ held)
    refine ⟨rfl, rfl, fun _ member => member, fun _ _ frame => frame, ?_, ?_⟩
    · exact fun other held => Function.update_of_ne (different other held) _ _
    · exact fun other held => Function.update_of_ne (different other held) _ _

/-- The pointer to the last ready thread does not matter while there is none. -/
theorem Placed.setLast {locals : Locals} (placed : Placed core locals lists hands)
    (noneReady : lists .ready = []) (lastReadyThread : Nat) :
    Placed { core with lastReadyThread } locals lists hands := by
  refine ⟨placed.queues, ?_, placed.listed, placed.handsNodup, placed.inHand, placed.covered,
    placed.created, placed.undetached, placed.pages, placed.fifo⟩
  intro key tailed front last listed
  rcases tailed with isReady | isWait
  · rw [isReady, noneReady] at listed
    simp at listed
  · subst isWait
    exact placed.tails .condWait (Or.inr rfl) front last listed

theorem Placed.dispatch_empty (placed : Placed core .none lists hands)
    (null : core.readyThreads = 0) :
    Placed core.dispatchThread .none lists hands ∧
      core.Keeps { core.dispatchThread with control := core.control } hands := by
  have noneReady : lists .ready = [] := placed.nil_of_head null
  unfold Core.dispatchThread
  rw [if_neg (not_not_intro null)]
  constructor
  · exact (placed.setLast noneReady 0).retag _ _ _ _ _
  · exact ⟨rfl, rfl, fun _ member => member, fun _ _ frame => frame, fun _ _ => rfl, fun _ _ => rfl⟩

end DoggOS.Proc.Core

/-
The queueing functions and the calls of the running thread, one at a time.

Each specification says where the threads are after the call; `Keeps` says
that the call leaves the threads in the hands of the running code alone.  The
loop of `k_proc_QueueReadyThread` moves a whole chain, and a single thread with
a null `queue_next` is a chain of one.
-/

import DoggOS.Proc.ThreadLists
import DoggOS.Library.Bits

namespace DoggOS.Proc.Core

structure Keeps (core after : Core) (hands : List Nat) : Prop where
  control : after.control = core.control
  cleanupThread : after.cleanupThread = core.cleanupThread
  created : ∀ thread ∈ core.created, thread ∈ after.created
  waitFrames : ∀ thread target, after.waitFrames thread = some target →
    core.waitFrames thread = some target
  state : ∀ thread ∈ hands, after.state thread = core.state thread
  queueNext : ∀ thread ∈ hands, after.queueNext thread = core.queueNext thread

namespace Keeps

variable {core middle after : Core} {hands : List Nat}

theorem refl (core : Core) (hands : List Nat) : core.Keeps core hands :=
  ⟨rfl, rfl, fun _ member => member, fun _ _ frame => frame, fun _ _ => rfl, fun _ _ => rfl⟩

theorem trans (one : core.Keeps middle hands) (two : middle.Keeps after hands) :
    core.Keeps after hands where
  control := two.control.trans one.control
  cleanupThread := two.cleanupThread.trans one.cleanupThread
  created thread member := two.created thread (one.created thread member)
  waitFrames thread target frame := one.waitFrames thread target (two.waitFrames thread target frame)
  state thread held := (two.state thread held).trans (one.state thread held)
  queueNext thread held := (two.queueNext thread held).trans (one.queueNext thread held)

theorem of_agree {thread : Nat} (agree : core.Agree after thread) (free : thread ∉ hands)
    (control : after.control = core.control) (cleanup : after.cleanupThread = core.cleanupThread)
    (created : ∀ thread ∈ core.created, thread ∈ after.created)
    (frames : ∀ thread target, after.waitFrames thread = some target →
      core.waitFrames thread = some target)
    (links : ∀ other, other ≠ thread → after.queueNext other = core.queueNext other) :
    core.Keeps after hands where
  control := control
  cleanupThread := cleanup
  created := created
  waitFrames := frames
  state other held := agree.state other fun same => free (same ▸ held)
  queueNext other held := links other fun same => free (same ▸ held)

end Keeps

structure SameData (core after : Core) : Prop where
  flags : after.flags = core.flags
  returnData : after.returnData = core.returnData
  waitConditions : after.waitConditions = core.waitConditions
  conditions : after.conditions = core.conditions
  created : after.created = core.created
  waitFrames : after.waitFrames = core.waitFrames

namespace SameData

variable {core middle after : Core}

theorem refl (core : Core) : core.SameData core := ⟨rfl, rfl, rfl, rfl, rfl, rfl⟩

theorem trans (one : core.SameData middle) (two : middle.SameData after) : core.SameData after where
  flags := two.flags.trans one.flags
  returnData := two.returnData.trans one.returnData
  waitConditions := two.waitConditions.trans one.waitConditions
  conditions := two.conditions.trans one.conditions
  created := two.created.trans one.created
  waitFrames := two.waitFrames.trans one.waitFrames

end SameData

variable {core : Core} {locals : Locals} {lists : ListKey → List Nat} {hands : List Nat}
  {thread : Nat}

/-- Fields that no list depends on. -/
theorem Placed.retag (placed : Placed core locals lists hands) (returnData conditions : Nat → Nat)
    (waitFrames : Nat → Option Nat) (cleanupThread : Nat) (control : Control) :
    Placed { core with returnData, conditions, waitFrames, cleanupThread, control }
      locals lists hands :=
  ⟨placed.queues, placed.tails, placed.listed, placed.handsNodup, placed.inHand, placed.covered,
    placed.created, placed.undetached, placed.pages, placed.fifo⟩

theorem agree_of_state {after : Core} (pages : after.poolPages = core.poolPages)
    (created : after.created = core.created) {state : ThreadState}
    (states : after.state = Function.update core.state thread state)
    (flags : after.flags = core.flags) (waits : after.waitConditions = core.waitConditions) :
    core.Agree after thread where
  poolPages := pages
  created _ _ := by rw [created]
  state other different := by rw [states, Function.update_of_ne different]
  flags _ _ := by rw [flags]
  waitConditions _ _ := by rw [waits]

/-- The thread whose link a queueing function overwrites is on that list. -/
theorem Placed.tail_not_held (placed : Placed core locals lists hands) {key : ListKey}
    (tailed : key.Tailed) (nonEmpty : core.heads locals key ≠ 0) {other : Nat}
    (held : other ∈ hands) : other ≠ core.tails key := by
  intro same
  have notNil : lists key ≠ [] := fun none =>
    nonEmpty (((placed.queues.chain key).eq_nil_iff).mp none)
  have isLast := placed.tails key tailed _ _ (List.dropLast_append_getLast notNil).symm
  apply placed.unlisted held key
  rw [same, isLast]
  exact List.getLast_mem notNil

theorem Placed.append {after : Core} {key : ListKey}
    (placed : Placed core locals lists (thread :: hands)) (tailed : key.Tailed)
    (agree : core.Agree after thread)
    (links : after.queueNext = Function.update (if core.heads locals key = 0 then core.queueNext
      else Function.update core.queueNext (core.tails key) thread) thread 0)
    (heads : after.heads locals = if core.heads locals key = 0 then
      Function.update (core.heads locals) key thread else core.heads locals)
    (tails : after.tails = Function.update core.tails key thread)
    (fifo : after.queued = after.ran ++
      Function.update lists key (lists key ++ [thread]) .ready)
    (fits : after.Fits key thread) (control : after.control = core.control)
    (cleanup : after.cleanupThread = core.cleanupThread) (created : after.created = core.created)
    (frames : after.waitFrames = core.waitFrames) :
    Placed after locals (Function.update lists key (lists key ++ [thread])) hands ∧
      core.Keeps after hands := by
  have free := (List.nodup_cons.mp placed.handsNodup).1
  constructor
  · exact placed.putBack tailed agree links heads tails fifo fits
  · constructor
    · exact control
    · exact cleanup
    · intro other member
      rw [created]
      exact member
    · intro other target frame
      rw [← frames]
      exact frame
    · exact fun other held => agree.state other fun same => free (same ▸ held)
    · intro other held
      have different : other ≠ thread := fun same => free (same ▸ held)
      rw [links, Function.update_of_ne different]
      by_cases empty : core.heads locals key = 0
      · rw [if_pos empty]
      · rw [if_neg empty]
        exact Function.update_of_ne
          (placed.tail_not_held tailed empty (List.mem_cons_of_mem thread held)) _ _

theorem Placed.push {after : Core} {key : ListKey}
    (placed : Placed core locals lists (thread :: hands)) (untailed : ¬ key.Tailed)
    (agree : core.Agree after thread)
    (links : after.queueNext = Function.update core.queueNext thread (core.heads locals key))
    (heads : after.heads locals = Function.update (core.heads locals) key thread)
    (tails : after.tails = core.tails) (fifo : after.queued = after.ran ++ lists .ready)
    (fits : after.Fits key thread) (control : after.control = core.control)
    (cleanup : after.cleanupThread = core.cleanupThread) (created : after.created = core.created)
    (frames : after.waitFrames = core.waitFrames) :
    Placed after locals (Function.update lists key (thread :: lists key)) hands ∧
      core.Keeps after hands := by
  have free := (List.nodup_cons.mp placed.handsNodup).1
  constructor
  · exact placed.putFront untailed agree links heads tails fifo fits
  · constructor
    · exact control
    · exact cleanup
    · intro other member
      rw [created]
      exact member
    · intro other target frame
      rw [← frames]
      exact frame
    · exact fun other held => agree.state other fun same => free (same ▸ held)
    · intro other held
      rw [links]
      exact Function.update_of_ne (fun same : other = thread => free (same ▸ held)) _ _

theorem linkReady_queueNext (core : Core) (thread : Nat) :
    (core.linkReady thread).queueNext = Function.update (if core.readyThreads = 0 then
      core.queueNext else Function.update core.queueNext core.lastReadyThread thread) thread 0 := by
  unfold linkReady
  split <;> rfl

theorem linkReady_heads (core : Core) (locals : Locals) (thread : Nat) :
    (core.linkReady thread).heads locals = if core.readyThreads = 0 then
      Function.update (core.heads locals) .ready thread else core.heads locals := by
  unfold linkReady
  split <;> (funext key; cases key <;> rfl)

theorem linkReady_sameData (core : Core) (thread : Nat) : core.SameData (core.linkReady thread) := by
  unfold linkReady
  split <;> exact ⟨rfl, rfl, rfl, rfl, rfl, rfl⟩

theorem queueReadyThread_sameData {after : Core} (ran : core.queueReadyThread thread = some after) :
    core.SameData after := by
  unfold queueReadyThread at ran
  split at ran
  · obtain ⟨⟨last, reached⟩, loop, same⟩ := Option.map_eq_some_iff.mp ran
    subst same
    have kept : ∀ turn next : Nat × Core, core.SameData turn.2 → queueReadyTurn turn = some next →
        core.SameData next.2 := by
      rintro ⟨first, middle⟩ next same runs
      by_cases null : first = 0
      · simp [queueReadyTurn, null] at runs
      · simp only [queueReadyTurn, null, if_false, Option.some.injEq] at runs
        exact runs ▸ same.trans (linkReady_sameData middle first)
    have start : core.SameData (thread, core).2 := SameData.refl core
    exact WhileLoop.keeps kept start loop
  · exact Option.some_inj.mp ran ▸ SameData.refl core

theorem queueWaitingThread_state (core : Core) (thread : Nat) :
    (core.queueWaitingThread thread).state = core.state := by
  unfold queueWaitingThread linkWaiting
  split
  · split <;> rfl
  · rfl

theorem queueWaitingThread_sameData (core : Core) (thread : Nat) :
    core.SameData (core.queueWaitingThread thread) := by
  unfold queueWaitingThread linkWaiting
  split
  · split <;> exact ⟨rfl, rfl, rfl, rfl, rfl, rfl⟩
  · exact SameData.refl core

theorem queueDetachedThread_state (core : Core) (thread : Nat) :
    (core.queueDetachedThread thread).state = core.state := by
  unfold queueDetachedThread
  split <;> rfl

theorem queueDetachedThread_sameData (core : Core) (thread : Nat) :
    core.SameData (core.queueDetachedThread thread) := by
  unfold queueDetachedThread
  split <;> exact ⟨rfl, rfl, rfl, rfl, rfl, rfl⟩

theorem linkReady_state (core : Core) (thread : Nat) :
    (core.linkReady thread).state = Function.update core.state thread .ready := by
  unfold linkReady
  split <;> rfl

theorem Placed.ready_link (placed : Placed core locals lists (thread :: hands))
    (created : thread ∈ core.created) :
    Placed (core.linkReady thread) locals
        (Function.update lists .ready (lists .ready ++ [thread])) hands ∧
      core.Keeps (core.linkReady thread) hands := by
  apply placed.append (Or.inl rfl)
  · apply @agree_of_state core thread _ _ _ .ready <;> unfold linkReady <;> split <;> rfl
  · exact linkReady_queueNext core thread
  · exact linkReady_heads core locals thread
  · unfold linkReady
    split <;> (funext key; cases key <;> rfl)
  · rw [Function.update_self, ← List.append_assoc]
    unfold linkReady
    split <;> exact congrArg (· ++ [thread]) placed.fifo
  · unfold linkReady
    split <;> exact ⟨fun _ => created, Function.update_self _ _ _⟩
  all_goals (unfold linkReady; split <;> rfl)

theorem linkWaiting_queueNext (core : Core) (thread : Nat) :
    (core.linkWaiting thread).queueNext = Function.update (if core.condWaitThreads = 0 then
      core.queueNext else Function.update core.queueNext core.condWaitLastThread thread) thread 0 := by
  unfold linkWaiting
  split <;> rfl

theorem linkWaiting_heads (core : Core) (locals : Locals) (thread : Nat) :
    (core.linkWaiting thread).heads locals = if core.condWaitThreads = 0 then
      Function.update (core.heads locals) .condWait thread else core.heads locals := by
  unfold linkWaiting
  split <;> (funext key; cases key <;> rfl)

theorem Placed.wait_link (placed : Placed core locals lists (thread :: hands))
    (created : thread ∈ core.created)
    (waits : core.state thread = .condWait ∧ core.waitConditions thread ≠ 0) :
    Placed (core.linkWaiting thread) locals
        (Function.update lists .condWait (lists .condWait ++ [thread])) hands ∧
      core.Keeps (core.linkWaiting thread) hands := by
  apply placed.append (Or.inr rfl)
  · apply Agree.refl <;> unfold linkWaiting <;> split <;> rfl
  · exact linkWaiting_queueNext core thread
  · exact linkWaiting_heads core locals thread
  · unfold linkWaiting
    split <;> (funext key; cases key <;> rfl)
  · unfold linkWaiting
    split <;> exact placed.fifo
  · unfold linkWaiting
    split <;> exact ⟨fun _ => created, waits⟩
  all_goals (unfold linkWaiting; split <;> rfl)

theorem Placed.wait (placed : Placed core locals lists (thread :: hands))
    (created : thread ∈ core.created)
    (waits : core.state thread = .condWait ∧ core.waitConditions thread ≠ 0)
    (notCleanup : thread ≠ core.cleanupThread) :
    Placed (core.queueWaitingThread thread) locals
        (Function.update lists .condWait (lists .condWait ++ [thread])) hands ∧
      core.Keeps (core.queueWaitingThread thread) hands := by
  have queued : core.valid thread ∧ thread ≠ core.cleanupThread :=
    ⟨⟨placed.slot_ne_zero (placed.inHand thread List.mem_cons_self), by rw [waits.1]; decide⟩,
      notCleanup⟩
  unfold queueWaitingThread
  rw [if_pos queued]
  exact placed.wait_link created waits

theorem Placed.ready_turn {waiting deleted : Nat}
    (placed : Placed core ⟨waiting, thread, deleted⟩ lists hands) (nonNull : thread ≠ 0) :
    ∃ rest, lists .resume = thread :: rest ∧
      Placed (core.linkReady thread) ⟨waiting, core.queueNext thread, deleted⟩
        (Function.update (Function.update lists .resume rest) .ready (lists .ready ++ [thread]))
        hands ∧
      core.Keeps (core.linkReady thread) hands := by
  have isHead : core.heads ⟨waiting, thread, deleted⟩ .resume ≠ 0 := nonNull
  obtain ⟨rest, listed⟩ := placed.queues.exists_cons isHead
  have held : Placed core ⟨waiting, core.queueNext thread, deleted⟩
      (Function.update lists .resume rest) (thread :: hands) := by
    apply placed.take listed (Agree.refl thread rfl rfl rfl rfl rfl) rfl
    · funext key
      cases key <;> rfl
    · rfl
    · exact placed.fifo
    · exact placed.undetached thread
  have member : thread ∈ lists .resume := by
    rw [listed]
    exact List.mem_cons_self
  have created := (placed.listed .resume thread member).2.2.1 (by decide)
  exact ⟨rest, listed, held.ready_link created⟩

/-- `k_proc_QueueReadyThread` moves a chain of threads behind the ready threads, in order. -/
theorem Placed.ready_chain {waiting deleted : Nat}
    (placed : Placed core ⟨waiting, thread, deleted⟩ lists hands) (valid : core.valid thread) :
    ∃ after lists', core.queueReadyThread thread = some after ∧
      Placed after ⟨waiting, 0, deleted⟩ lists' hands ∧ core.Keeps after hands ∧
      lists' .ready = lists .ready ++ lists .resume ∧
      (∀ key, key ≠ .ready → key ≠ .resume → lists' key = lists key) ∧
      ∀ other, other ∉ lists .resume → after.state other = core.state other := by
  let moving (now : ListKey → List Nat) (turn : Nat × Core) : Prop :=
    Placed turn.2 ⟨waiting, turn.1, deleted⟩ now hands ∧ core.Keeps turn.2 hands ∧
      now .ready ++ now .resume = lists .ready ++ lists .resume ∧
      (∀ key, key ≠ .ready → key ≠ .resume → now key = lists key) ∧
      now .resume ⊆ lists .resume ∧
      ∀ other, other ∉ lists .resume → turn.2.state other = core.state other
  have turns : ∀ now turn next, moving now turn → queueReadyTurn turn = some next →
      ∃ now', moving now' next ∧ (now' .resume).length < (now .resume).length := by
    rintro now ⟨first, middle⟩ next ⟨placed, keeps, total, others, within, states⟩ runs
    by_cases null : first = 0
    · simp [queueReadyTurn, null] at runs
    · simp only [queueReadyTurn, null, if_false, Option.some.injEq] at runs
      subst runs
      obtain ⟨rest, listed, linked, kept⟩ := placed.ready_turn null
      rw [listed] at within
      refine ⟨_, ⟨linked, keeps.trans kept, ?_, fun key notReady notResume => ?_, ?_,
        fun other unlisted => ?_⟩, ?_⟩
      · rw [← total, listed, Function.update_self, List.append_assoc]
        rfl
      · rw [Function.update_of_ne notReady, Function.update_of_ne notResume]
        exact others key notReady notResume
      · intro other member
        exact within (List.mem_cons_of_mem first member)
      · have different : other ≠ first := fun same =>
          unlisted (same ▸ within List.mem_cons_self)
        rw [linkReady_state, Function.update_of_ne different]
        exact states other unlisted
      · rw [listed]
        exact Nat.lt_succ_self rest.length
  obtain ⟨lists', ⟨last, after⟩, ran, ⟨ended, keeps, total, others, -, states⟩, stopped⟩ :=
    WhileLoop.rule moving (fun now => (now .resume).length) turns lists (thread, core)
      ⟨placed, Keeps.refl core hands, rfl, fun _ _ _ => rfl, fun _ member => member,
        fun _ _ => rfl⟩ (Nat.lt_succ_of_le (placed.length_le .resume))
  have null : last = 0 := by
    by_contra nonNull
    simp [queueReadyTurn, nonNull] at stopped
  subst null
  have noResume : lists' .resume = [] := ended.nil_of_head rfl
  refine ⟨after, lists', ?_, ended, keeps, ?_, others, states⟩
  · rw [queueReadyThread, if_pos valid, ran]
    rfl
  · rw [← total, noResume, List.append_nil]

theorem Placed.ready_one (placed : Placed core .none lists (thread :: hands))
    (created : thread ∈ core.created)
    (alone : core.queueNext thread = 0) (alive : core.state thread ≠ .invalid)
    (running : core.state thread ≠ .terminated) :
    ∃ after lists', core.queueReadyThread thread = some after ∧
      Placed after .none lists' hands ∧ core.Keeps after hands ∧
      lists' .ready = lists .ready ++ [thread] ∧
      (∀ key, key ≠ .ready → lists' key = lists key) ∧
      ∀ other, other ≠ thread → after.state other = core.state other := by
  have noResume : lists .resume = [] := placed.nil_of_head rfl
  have chained : Placed core ⟨0, thread, 0⟩
      (Function.update lists .resume (thread :: lists .resume)) hands := by
    apply placed.putFront
    · rintro (same | same) <;> cases same
    · exact Agree.refl thread rfl rfl rfl rfl rfl
    · exact (Function.update_eq_self_iff.mpr alone.symm).symm
    · funext key
      cases key <;> rfl
    · rfl
    · exact placed.fifo
    · exact ⟨fun _ => created, alive, running⟩
  obtain ⟨after, lists', ran, moved, keeps, order, others, states⟩ := chained.ready_chain
    ⟨placed.slot_ne_zero (placed.inHand thread List.mem_cons_self), alive⟩
  refine ⟨after, lists', ran, moved, keeps, ?_, fun key notReady => ?_, fun other different => ?_⟩
  · rw [order, Function.update_self, noResume]
    rfl
  · by_cases isResume : key = .resume
    · rw [isResume, noResume]
      exact moved.nil_of_head rfl
    · rw [others key notReady isResume, Function.update_of_ne isResume]
  · apply states other
    rw [Function.update_self, noResume]
    exact fun member => different (List.mem_singleton.mp member)

theorem Placed.discard (placed : Placed core locals lists (thread :: hands))
    (created : thread ∈ core.created)
    (detached : core.state thread = .detached) (notCleanup : thread ≠ core.cleanupThread) :
    Placed (core.queueDetachedThread thread) locals
        (Function.update lists .delete (thread :: lists .delete)) hands ∧
      core.Keeps (core.queueDetachedThread thread) hands := by
  have inFront : thread ∈ thread :: hands := List.mem_cons_self
  have queued : core.valid thread ∧ core.state thread = .detached ∧ thread ≠ core.cleanupThread :=
    ⟨⟨placed.slot_ne_zero (placed.inHand thread inFront), by rw [detached]; decide⟩, detached,
      notCleanup⟩
  unfold queueDetachedThread
  rw [if_pos queued]
  apply placed.push
  · rintro (same | same) <;> cases same
  · exact Agree.refl thread rfl rfl rfl rfl rfl
  · rfl
  · funext key
    cases key <;> rfl
  · rfl
  · exact placed.fifo
  · exact ⟨fun _ => created, detached⟩
  all_goals rfl

theorem Placed.destroy (placed : Placed core locals lists (thread :: hands))
    (detached : core.state thread = .detached) :
    Placed (core.destroyThread thread) locals
        (Function.update lists .pool (thread :: lists .pool)) hands ∧
      core.Keeps (core.destroyThread thread) hands := by
  have valid : core.valid thread :=
    ⟨placed.slot_ne_zero (placed.inHand thread List.mem_cons_self), by rw [detached]; decide⟩
  unfold destroyThread
  rw [if_pos valid]
  apply placed.push
  · rintro (same | same) <;> cases same
  · exact agree_of_state rfl rfl rfl rfl rfl
  · rfl
  · funext key
    cases key <;> rfl
  · rfl
  · exact placed.fifo
  · exact ⟨fun notPool => absurd rfl notPool, fun _ => Function.update_self _ _ _⟩
  all_goals rfl

theorem linkThreads_of_ne (page : Nat) (next : Nat → Nat) (count : Nat) {cell : Nat}
    (different : ∀ index, index < count → cell ≠ threadSlot page index) :
    linkThreads page count next cell = next cell := by
  induction count with
  | zero => rfl
  | succ count ih =>
      rw [linkThreads, Function.update_of_ne (different count (Nat.lt_succ_self count))]
      exact ih fun index small => different index (Nat.lt_succ_of_lt small)

theorem threadSlot_inj {page one two : Nat} (same : threadSlot page one = threadSlot page two) :
    one = two := by
  unfold threadSlot threadBytes at same
  omega

theorem linkThreads_slot (page : Nat) (next : Nat → Nat) {count index : Nat} (small : index < count) :
    linkThreads page count next (threadSlot page index) = threadSlot page (index + 1) := by
  induction count with
  | zero => omega
  | succ count ih =>
      rw [linkThreads]
      by_cases last : index = count
      · rw [last, Function.update_self]
      · rw [Function.update_of_ne (fun same => last (threadSlot_inj same))]
        exact ih (by omega)

theorem chain_threadPage {page : Nat} (next : Nat → Nat) (remaining index : Nat)
    (total : index + remaining + 1 = threadPageThreadCount) :
    Chain (Function.update (linkThreads page (threadPageThreadCount - 1) next)
        (threadSlot page (threadPageThreadCount - 1)) 0)
      (threadSlot page index)
      ((List.range' index (remaining + 1)).map (threadSlot page)) := by
  have nonNull : threadSlot page index ≠ 0 := by
    unfold threadSlot threadPageHeaderBytes
    omega
  induction remaining generalizing index with
  | zero =>
      have isLast : index = threadPageThreadCount - 1 := by omega
      refine ⟨rfl, nonNull, ?_⟩
      rw [isLast, Function.update_self]
      exact rfl
  | succ remaining ih =>
      refine ⟨rfl, nonNull, ?_⟩
      have notLast : threadSlot page index ≠ threadSlot page (threadPageThreadCount - 1) :=
        fun same => by
          have := threadSlot_inj same
          omega
      rw [Function.update_of_ne notLast, linkThreads_slot page next (by omega)]
      apply ih (index + 1) (by omega)
      unfold threadSlot threadPageHeaderBytes
      omega

/-- A page from `k_rt_Malloc(4096, 4096)` that no thread page overlaps. -/
def FreshPage (core : Core) (page : Nat) : Prop :=
  page ≠ 0 ∧ page % 4096 = 0 ∧ page ∉ core.poolPages

theorem mem_threadPageSlots {page slot : Nat} :
    slot ∈ threadPageSlots page ↔ ∃ index, index < threadPageThreadCount ∧
      threadSlot page index = slot := by
  unfold threadPageSlots
  rw [List.mem_map]
  exact exists_congr fun index => and_congr_left fun _ => List.mem_range

theorem page_of_slot {page slot : Nat} (aligned : page % 4096 = 0)
    (member : slot ∈ threadPageSlots page) : slot / 4096 * 4096 = page := by
  obtain ⟨index, small, same⟩ := mem_threadPageSlots.mp member
  have few : index < 28 := small
  unfold threadSlot threadPageHeaderBytes threadBytes at same
  omega

theorem FreshPage.slot_apart (placed : Placed core locals lists hands) {page : Nat}
    (fresh : core.FreshPage page) {slot : Nat} (member : slot ∈ threadPageSlots page) :
    slot ∉ core.slots := by
  intro old
  obtain ⟨other, inPages, inOther⟩ := List.mem_flatMap.mp old
  apply fresh.2.2
  rw [← page_of_slot fresh.2.1 member, page_of_slot (placed.pages.2 other inPages).2 inOther]
  exact inPages

theorem addThreadPage_queueNext (core : Core) (page : Nat) {cell : Nat}
    (outside : cell ∉ threadPageSlots page) :
    (core.addThreadPage page).queueNext cell = core.queueNext cell := by
  have different : ∀ index, index < threadPageThreadCount → cell ≠ threadSlot page index :=
    fun index small same => outside (mem_threadPageSlots.mpr ⟨index, small, same.symm⟩)
  have notLast := different (threadPageThreadCount - 1) (by decide)
  exact (Function.update_of_ne notLast _ _).trans (linkThreads_of_ne page _ _ fun index small =>
    different index (Nat.lt_of_lt_of_le small (by decide)))

theorem Placed.addThreadPage (placed : Placed core .none lists hands) {page : Nat}
    (fresh : core.FreshPage page) (empty : core.poolThreads = 0) :
    Placed (core.addThreadPage page) .none
        (Function.update lists .pool (threadPageSlots page)) hands ∧
      core.Keeps (core.addThreadPage page) hands := by
  have apart : ∀ slot ∈ threadPageSlots page, slot ∉ core.slots :=
    fun slot member => fresh.slot_apart placed member
  have frame : ∀ slot ∈ core.slots,
      (core.addThreadPage page).queueNext slot = core.queueNext slot :=
    fun slot old => addThreadPage_queueNext core page fun member => apart slot member old
  have noPool : lists .pool = [] := placed.nil_of_head empty
  have slots : ∀ slot, slot ∈ (core.addThreadPage page).slots ↔
      slot ∈ threadPageSlots page ∨ slot ∈ core.slots := fun slot => List.mem_append
  have mem_lists : ∀ key slot, slot ∈ Function.update lists .pool (threadPageSlots page) key ↔
      slot ∈ lists key ∨ key = .pool ∧ slot ∈ threadPageSlots page := by
    intro key slot
    by_cases same : key = .pool
    · subst same
      rw [Function.update_self, noPool]
      simp
    · rw [Function.update_of_ne same]
      simp [same]
  constructor
  · constructor
    · have heads : (core.addThreadPage page).heads .none =
          Function.update (core.heads .none) .pool (threadSlot page 0) := by
        funext key
        cases key <;> rfl
      rw [heads]
      apply placed.queues.replace
      · exact chain_threadPage core.queueNext (threadPageThreadCount - 1) 0 rfl
      · exact List.nodup_range.map fun one two same => threadSlot_inj same
      · intro other different slot member old
        exact apart slot member (placed.listed other slot old).1
      · intro other different slot old
        exact frame slot (placed.listed other slot old).1
    · intro key tailed front last listed
      have notPool : key ≠ .pool := by
        rintro rfl
        rcases tailed with same | same <;> cases same
      rw [Function.update_of_ne notPool] at listed
      exact placed.tails key tailed front last listed
    · intro key slot member
      rcases (mem_lists key slot).mp member with old | ⟨rfl, new⟩
      · obtain ⟨isSlot, free, fits⟩ := placed.listed key slot old
        exact ⟨(slots slot).mpr (Or.inr isSlot), free, fits⟩
      · refine ⟨(slots slot).mpr (Or.inl new), fun held => apart slot new (placed.inHand slot held), ?_⟩
        exact ⟨fun notPool => absurd rfl notPool,
          fun created => absurd (placed.created slot created) (apart slot new)⟩
    · exact placed.handsNodup
    · exact fun slot held => (slots slot).mpr (Or.inr (placed.inHand slot held))
    · intro slot isSlot
      rcases (slots slot).mp isSlot with new | old
      · exact Or.inr (Or.inl ⟨.pool, (mem_lists .pool slot).mpr (Or.inr ⟨rfl, new⟩)⟩)
      · rcases placed.covered slot old with held | ⟨key, member⟩ | ended
        · exact Or.inl held
        · exact Or.inr (Or.inl ⟨key, (mem_lists key slot).mpr (Or.inl member)⟩)
        · exact Or.inr (Or.inr ended)
    · exact fun slot created => (slots slot).mpr (Or.inr (placed.created slot created))
    · exact placed.undetached
    · refine ⟨List.nodup_cons.mpr ⟨fresh.2.2, placed.pages.1⟩, fun other member => ?_⟩
      rcases List.mem_cons.mp member with same | old
      · exact same ▸ ⟨fresh.1, fresh.2.1⟩
      · exact placed.pages.2 other old
    · exact placed.fifo
  · exact ⟨rfl, rfl, fun _ member => member, fun _ _ frame => frame, fun _ _ => rfl,
      fun slot held => frame slot (placed.inHand slot held)⟩

end DoggOS.Proc.Core

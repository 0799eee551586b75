/-
Runs of pushes and pops.

In a run that takes no recycled item for what it was, every access of a thread is
one step of the history of a queue, or none.  So no element is popped twice or
without being pushed, and between calls the items after `prev_head` hold what was
pushed and not popped, in the order of each thread.
-/

import DoggOS.Rt.QueueSteps

namespace DoggOS.Rt.Queue

variable {queue after : Queue} {role : Nat → ItemRole} {inside free : List Nat}
  {thread cell page element : Nat} {turn : QueueTurn}

namespace Tracked

theorem push (tracked : Tracked queue role inside free) (idle : queue.place thread = .idle)
    (fresh : element ∉ queue.called.map Prod.snd) :
    Kept queue inside { queue.move thread (.firstItem element) with
      called := queue.called ++ [(thread, element)] } := by
  refine ⟨role, inside, free, tracked.writes rfl rfl rfl rfl (fun _ _ => ⟨rfl, rfl⟩)
    (fun _ => nofun) trivial (fun _ => nofun) (fun _ => nofun),
    Or.inr ⟨.call thread element, ?_⟩⟩
  have notWaiting : (queue.view inside).waiting thread = none := congrArg QueuePlace.waiting idle
  have notReading : (queue.view inside).reading thread = none :=
    congrArg (fun place => (place.reading queue.next).map queue.item) idle
  have unread : Function.update (queue.view inside).reading thread none =
      (queue.view inside).reading := by
    rw [← notReading, Function.update_eq_self]
  have seen : Queue.view { queue.move thread (.firstItem element) with
      called := queue.called ++ [(thread, element)] } inside = { queue.view inside with
        called := (queue.view inside).called ++ [(thread, element)]
        waiting := Function.update (queue.view inside).waiting thread (some element) } := by
    refine Eq.trans (tracked.view_eq rfl (fun _ _ _ _ => rfl) fun _ _ _ _ => rfl) ?_
    exact congrArg (fun reading => ({ queue.view inside with
      called := (queue.view inside).called ++ [(thread, element)]
      waiting := Function.update (queue.view inside).waiting thread (some element)
      reading := reading } : QueueHistory Nat Nat)) unread
  rw [seen]
  exact .call notWaiting fresh

/-- A pop reads the element that it has taken. -/
theorem readItem (tracked : Tracked queue role inside free) {prevHead : Nat}
    (isPlace : queue.place thread = .readItem prevHead cell) :
    Kept queue inside { queue.move thread (.freeItems prevHead) with
      popped := queue.item cell :: queue.popped } := by
  refine ⟨role, inside, free, tracked.writes rfl rfl rfl rfl (fun _ _ => ⟨rfl, rfl⟩)
    (fun other member => ?_) trivial (fun _ => nofun) (fun _ => nofun),
    Or.inr ⟨.read thread (queue.item cell), ?_⟩⟩
  · rw [isPlace]
    exact member
  · have notWaiting : (queue.view inside).waiting thread = none :=
      congrArg QueuePlace.waiting isPlace
    have reads : (queue.view inside).reading thread = some (queue.item cell) :=
      congrArg (fun place => (place.reading queue.next).map queue.item) isPlace
    have unseen : Function.update (queue.view inside).waiting thread none =
        (queue.view inside).waiting := by
      rw [← notWaiting, Function.update_eq_self]
    have seen : Queue.view { queue.move thread (.freeItems prevHead) with
        popped := queue.item cell :: queue.popped } inside = { queue.view inside with
          popped := queue.item cell :: (queue.view inside).popped
          reading := Function.update (queue.view inside).reading thread none } := by
      refine Eq.trans (tracked.view_eq rfl (fun _ _ _ _ => rfl) fun _ _ _ _ => rfl) ?_
      exact congrArg (fun waiting => ({ queue.view inside with
        popped := queue.item cell :: (queue.view inside).popped
        waiting := waiting
        reading := Function.update (queue.view inside).reading thread none } :
          QueueHistory Nat Nat)) unseen
    rw [seen]
    exact .read reads

/-- An item that no pop has still to read is cleared. -/
theorem clearItem (tracked : Tracked queue role inside free)
    (isPlace : queue.place thread = .clearItem element cell)
    (unread : ∀ other, (queue.place other).reading queue.next ≠ some cell) :
    Kept queue inside { queue.move thread (.getTail element cell) with
      item := Function.update queue.item cell 0 } := by
  have held : role cell = .held thread := by
    apply tracked.owned thread
    rw [isPlace]
    exact List.mem_cons_self
  have ready := tracked.ready thread
  rw [isPlace] at ready
  refine tracked.quiet rfl rfl rfl rfl rfl rfl (fun other notHeld => ⟨rfl, ?_⟩)
    (fun other one reads => ?_) (fun one member => ?_) ready ?_ ?_ fun one isBlank other _ => ?_
  · apply Function.update_of_ne
    rintro rfl
    exact notHeld held
  · apply Function.update_of_ne
    rintro rfl
    exact unread other reads
  · rw [isPlace]
    exact member
  · rw [isPlace]
    rfl
  · rw [isPlace]
    rfl
  · rw [← Option.some.inj isBlank]
    exact unread other

theorem setItem (tracked : Tracked queue role inside free) {tail : Nat}
    (isPlace : queue.place thread = .setItem element cell tail) :
    Kept queue inside { queue.move thread (.testNext element cell tail tail) with
      item := Function.update queue.item cell element } := by
  have held : role cell = .held thread := by
    apply tracked.owned thread
    rw [isPlace]
    exact List.mem_cons_self
  have ready := tracked.ready thread
  rw [isPlace] at ready
  have unread : ∀ other, (queue.place other).reading queue.next ≠ some cell := by
    intro other
    apply tracked.blank thread
    rw [isPlace]
    rfl
  refine tracked.quiet rfl rfl rfl rfl rfl rfl (fun other notHeld => ⟨rfl, ?_⟩)
    (fun other one reads => ?_) (fun one member => ?_) ⟨ready, Function.update_self _ _ _⟩ ?_ ?_
    fun _ => nofun
  · apply Function.update_of_ne
    rintro rfl
    exact notHeld held
  · apply Function.update_of_ne
    rintro rfl
    exact unread other reads
  · rw [isPlace]
    exact member
  · rw [isPlace]
    rfl
  · rw [isPlace]
    rfl

end Tracked

theorem load_eq {field : Nat → Nat} {value : Nat} (loaded : load field cell = some value) :
    cell ≠ 0 ∧ field cell = value := by
  unfold load at loaded
  split at loaded
  · cases loaded
  · rename_i nonNull
    exact ⟨nonNull, Option.some.inj loaded⟩

/-- An access of a thread that finds no recycled item. -/
theorem Tracked.access (tracked : Tracked queue role inside free)
    (current : queue.Current (.access thread)) (stepped : queue.access thread = some after) :
    Kept queue inside after := by
  simp only [Current] at current
  unfold Queue.access at stepped
  have ready := tracked.ready thread
  have goes : ∀ {place : QueuePlace} {tail : Nat} {prev : Nat → Nat},
      (∀ cell ∈ place.owned, cell ∈ (queue.place thread).owned) →
      place.Ready queue.next queue.item → place.waiting = (queue.place thread).waiting →
      place.reading queue.next = (queue.place thread).reading queue.next →
      (∀ cell, place.blank = some cell → (queue.place thread).blank = some cell) →
      Kept queue inside { queue.move thread place with tail := tail, prev := prev } := tracked.goes
  have links : ∀ {place : QueuePlace} {next : Nat → Nat} {cell : Nat},
      cell ∈ (queue.place thread).owned → (∀ other, other ≠ cell → next other = queue.next other) →
      (∀ cell ∈ place.owned, cell ∈ (queue.place thread).owned) → place.Ready next queue.item →
      place.waiting = (queue.place thread).waiting →
      place.reading next = (queue.place thread).reading queue.next → place.blank = none →
      Kept queue inside { queue.move thread place with next := next } := tracked.links
  cases isPlace : queue.place thread with
  | idle | allocPage _ =>
      rw [isPlace] at stepped
      cases stepped
  | firstItem element =>
      rw [isPlace] at stepped goes
      cases stepped
      exact goes (fun _ => nofun) trivial rfl rfl fun _ => nofun
  | testItems element =>
      rw [isPlace] at stepped goes
      cases stepped
      split
      · exact goes (fun _ => nofun) trivial rfl rfl fun _ => nofun
      · exact goes (fun _ => nofun) trivial rfl rfl fun _ => nofun
  | pageNext element page =>
      rw [isPlace] at stepped ready links
      cases stepped
      have last : lastItem page ∈ queuePageItems page := mem_queuePageItems (by decide)
      refine links last (fun other different => Function.update_of_ne different _ _)
        (fun _ => id) (fun index small => ?_) rfl rfl rfl
      rw [Function.update_of_ne, ready index small]
      intro same
      have := queueItem_inj same
      omega
  | pageCmpXchg element page =>
      rw [isPlace] at stepped ready goes
      dsimp only at stepped
      split at stepped
      · rename_i found
        cases stepped
        exact tracked.addPage isPlace found
      · cases stepped
        exact goes (fun _ => id) ready rfl rfl fun _ => nofun
  | getItem element =>
      rw [isPlace] at stepped goes
      cases stepped
      exact goes (fun _ => nofun) trivial rfl rfl fun _ => nofun
  | itemNext element cell =>
      rw [isPlace] at stepped goes
      obtain ⟨next, loaded, rfl⟩ := Option.map_eq_some_iff.mp stepped
      exact goes (fun _ => nofun) (load_eq loaded).1 rfl rfl fun _ => nofun
  | itemCmpXchg element cell next =>
      rw [isPlace] at stepped current goes
      dsimp only at stepped
      split at stepped
      · rename_i found
        cases stepped
        exact tracked.takeItem isPlace found (current found)
      · cases stepped
        exact goes (fun _ => nofun) trivial rfl rfl fun _ => nofun
  | clearNext element cell =>
      rw [isPlace] at stepped links
      cases stepped
      exact links List.mem_cons_self (fun other different => Function.update_of_ne different _ _)
        (fun _ => id) (Function.update_self _ _ _) rfl rfl rfl
  | clearPrev element cell =>
      rw [isPlace] at stepped ready goes
      cases stepped
      exact goes (fun _ => id) ready rfl rfl fun _ => nofun
  | clearItem element cell =>
      rw [isPlace] at stepped current
      cases stepped
      exact tracked.clearItem isPlace current
  | getTail element cell =>
      rw [isPlace] at stepped ready goes
      cases stepped
      exact goes (fun _ => id) ready rfl rfl fun _ => id
  | setItem element cell tail =>
      rw [isPlace] at stepped
      cases stepped
      exact tracked.setItem isPlace
  | testNext element cell oldTail tail =>
      rw [isPlace] at stepped ready goes
      obtain ⟨next, -, rfl⟩ := Option.map_eq_some_iff.mp stepped
      split
      · exact goes (fun _ => id) ready rfl rfl fun _ => nofun
      · exact goes (fun _ => id) ready rfl rfl fun _ => nofun
  | followNext element cell oldTail tail =>
      rw [isPlace] at stepped ready goes
      cases stepped
      exact goes (fun _ => id) ready rfl rfl fun _ => nofun
  | nextCmpXchg element cell oldTail tail =>
      rw [isPlace] at stepped current ready goes
      dsimp only at stepped
      split at stepped
      · rename_i ended
        cases stepped
        exact tracked.linkItem isPlace (current ended)
      · cases stepped
        exact goes (fun _ => id) ready rfl rfl fun _ => nofun
  | tailCmpXchg cell oldTail =>
      rw [isPlace] at stepped goes
      cases stepped
      exact goes (fun _ => nofun) trivial rfl rfl fun _ => nofun
  | getHead =>
      rw [isPlace] at stepped goes
      cases stepped
      exact goes (fun _ => nofun) trivial rfl rfl fun _ => nofun
  | testHead prevHead =>
      rw [isPlace] at stepped goes
      obtain ⟨next, -, rfl⟩ := Option.map_eq_some_iff.mp stepped
      split
      · exact goes (fun _ => nofun) trivial rfl rfl fun _ => nofun
      · exact goes (fun _ => nofun) trivial rfl rfl fun _ => nofun
  | headNext prevHead =>
      rw [isPlace] at stepped goes
      cases stepped
      exact goes (fun _ => nofun) trivial rfl rfl fun _ => nofun
  | headCmpXchg prevHead next =>
      rw [isPlace] at stepped current goes
      dsimp only at stepped
      split at stepped
      · rename_i found
        cases stepped
        obtain ⟨nonNull, follows⟩ := current found
        exact tracked.takeHead isPlace found nonNull follows
      · cases stepped
        exact goes (fun _ => nofun) trivial rfl rfl fun _ => nofun
  | nextItem prevHead =>
      rw [isPlace] at stepped goes
      cases stepped
      exact goes (fun _ => id) rfl rfl rfl fun _ => nofun
  | readItem prevHead cell =>
      rw [isPlace] at stepped
      obtain ⟨element, loaded, rfl⟩ := Option.map_eq_some_iff.mp stepped
      rw [← (load_eq loaded).2]
      exact tracked.readItem isPlace
  | freeItems cell =>
      rw [isPlace] at stepped goes
      cases stepped
      exact goes (fun _ => id) trivial rfl rfl fun _ => nofun
  | freeNext cell next =>
      rw [isPlace] at stepped links
      cases stepped
      exact links List.mem_cons_self (fun other different => Function.update_of_ne different _ _)
        (fun _ => id) trivial rfl rfl rfl
  | freeCmp cell =>
      rw [isPlace] at stepped goes
      cases stepped
      exact goes (fun _ => id) trivial rfl rfl fun _ => nofun
  | freeCmpXchg cell next =>
      rw [isPlace] at stepped links
      dsimp only at stepped
      split at stepped
      · rename_i found
        cases stepped
        exact tracked.freeItem isPlace found
      · cases stepped
        exact links List.mem_cons_self (fun other different => Function.update_of_ne different _ _)
          (fun _ => id) trivial rfl rfl rfl

theorem Tracked.nextQueue (tracked : Tracked queue role inside free) (current : queue.Current turn)
    (stepped : queue.nextQueue turn = some after) : Kept queue inside after := by
  cases turn with
  | push thread element =>
      unfold nextQueue at stepped
      dsimp only at stepped
      split at stepped
      · rename_i enabled
        cases stepped
        exact tracked.push enabled.1 enabled.2.2
      · cases stepped
  | pop thread =>
      unfold nextQueue at stepped
      dsimp only at stepped
      split at stepped
      · rename_i idle
        cases stepped
        refine tracked.goes (fun _ => nofun) trivial ?_ ?_ fun _ => nofun
        · rw [idle]
          rfl
        · rw [idle]
          rfl
      · cases stepped
  | access thread => exact tracked.access current stepped
  | allocPage thread page =>
      unfold nextQueue at stepped
      dsimp only at stepped
      split at stepped
      · rename_i element isPlace
        split at stepped
        · rename_i fresh
          cases stepped
          exact tracked.allocPage isPlace fresh
        · cases stepped
      · cases stepped

theorem tracked_of_row (nonNull : page ≠ 0) (place : ∀ thread, queue.place thread = .idle)
    (prevHead : queue.prevHead = page) (freeItems : queue.freeItems = queueItem page 1)
    (pages : queue.pages = [page]) (alone : queue.next page = 0)
    (row : ∀ index, 0 < index → index + 1 < queuePageItemCount →
      queue.next (queueItem page index) = queueItem page (index + 1))
    (ends : queue.next (lastItem page) = 0) : ∃ role free, Tracked queue role [] free := by
  have count : queuePageItemCount = queuePageItemCount - 2 + 1 + 1 := by decide
  have items : queuePageItems page = queueItem page 0 ::
      (List.range (queuePageItemCount - 2 + 1)).map (queueItem page ∘ Nat.succ) := by
    unfold queuePageItems
    rw [count, List.range_succ_eq_map, List.map_cons, List.map_map]
    rfl
  have isFirst : queueItem page 0 = page := rfl
  have nodup := queuePageItems_nodup page
  rw [items, isFirst] at nodup
  obtain ⟨absent, nodup⟩ := List.nodup_cons.mp nodup
  have chain := @Chain.of_row queue.next (queueItem page ∘ Nat.succ) (queuePageItemCount - 2) []
    (fun index _ null => nonNull (Nat.eq_zero_of_add_eq_zero_right null))
    (fun index small => row (index + 1) (Nat.succ_pos index) (by omega)) ends
  rw [List.append_nil] at chain
  refine ⟨fun cell => if cell = page then .queue else
      if cell ∈ queuePageItems page then .free else .unused, _, ?_, ?_, fun cell member => ?_, ?_,
    nodup, fun cell member => ?_, fun thread cell member => ?_, fun thread => ?_,
    fun thread other cell isBlank => ?_, fun cell used => ?_, fun other member => ?_⟩
  · rw [prevHead]
    exact ⟨rfl, nonNull, alone⟩
  · exact List.nodup_singleton _
  · rw [prevHead] at member
    exact if_pos (List.mem_singleton.mp member)
  · rw [freeItems]
    exact chain
  · have different : cell ≠ page := by
      rintro rfl
      exact absent member
    rw [if_neg different]
    apply if_pos
    rw [items]
    exact List.mem_cons_of_mem _ member
  · rw [place] at member
    cases member
  · rw [place]
    trivial
  · rw [place] at isBlank
    cases isBlank
  · rw [pages]
    refine ⟨page, List.mem_cons_self, ?_⟩
    by_cases isPage : cell = page
    · rw [items, isPage]
      exact List.mem_cons_self
    · rw [if_neg isPage] at used
      by_contra outside
      exact used (if_neg outside)
  · rw [pages] at member
    exact List.mem_singleton.mp member ▸ nonNull

theorem Start.tracked (start : Start queue) :
    ∃ role free, Tracked queue role [] free ∧ (queue.view []).Empty := by
  obtain ⟨next, prev, item, page, nonNull, rfl⟩ := start
  have others : ∀ index, 0 < index → queueItem page index ≠ page := by
    intro index positive
    unfold queueItem queueItemSize
    omega
  obtain ⟨role, free, tracked⟩ := @tracked_of_row (create next prev item page) page nonNull
    (fun _ => rfl) rfl rfl rfl (Function.update_self _ _ _)
    (fun index positive small => by
      have notLast : queueItem page index ≠ lastItem page := by
        intro same
        have := queueItem_inj same
        omega
      unfold create
      dsimp only
      rw [Function.update_of_ne (others index positive), Function.update_of_ne notLast]
      exact linkItems_row _ _ _ (Nat.zero_le _) (by omega))
    (by
      unfold create
      dsimp only
      have notFirst : lastItem page ≠ page := others _ (by decide)
      rw [Function.update_of_ne notFirst, Function.update_self])
  exact ⟨role, free, tracked, rfl, rfl, rfl, fun _ => rfl, fun _ => rfl⟩

/-- No element is popped twice or without being pushed; between calls the items after `prev_head`
hold what was pushed and not popped, in the order in which each thread pushed it. -/
def Lossless (queue : Queue) : Prop :=
  queue.popped.Nodup ∧ (∀ element ∈ queue.popped, element ∈ queue.called.map Prod.snd) ∧
    ((∀ thread, queue.place thread = .idle) →
      ∃ inside, Chain queue.next queue.prevHead (queue.prevHead :: inside) ∧
        ∃ pushes : List (Nat × Nat), pushes.map Prod.snd = inside.map queue.item ∧
          ∀ thread, pushes.filter (·.1 = thread) =
            queue.called.filter fun push => push.1 = thread ∧ push.2 ∉ queue.popped)

/-- A run that takes no recycled item for what it was is a run of the history of a queue. -/
theorem reachable_tracked (reachable : (machine.restrict Current).Reachable queue) :
    ∃ role inside free, Tracked queue role inside free ∧
      QueueHistory.machine.Reachable (queue.view inside) := by
  apply (machine.restrict Current).invariant _ _ reachable
  · intro state start
    obtain ⟨role, free, tracked, empty⟩ := start.tracked
    exact ⟨role, [], free, tracked, QueueHistory.machine.reachable_start empty⟩
  · rintro before label after ⟨role, inside, free, tracked, history⟩ ⟨current, stepped⟩
    obtain ⟨role', inside', free', tracked', seen | ⟨turn, step⟩⟩ :=
      tracked.nextQueue current stepped
    · exact ⟨role', inside', free', tracked', seen ▸ history⟩
    · exact ⟨role', inside', free', tracked', QueueHistory.machine.reachable_step history step⟩

theorem queue_lossless (reachable : (machine.restrict Current).Reachable queue) :
    queue.Lossless := by
  obtain ⟨role, inside, free, tracked, history⟩ := reachable_tracked reachable
  obtain ⟨nodup, pushed, between⟩ := QueueHistory.reachable_lossless history
  refine ⟨nodup, pushed, fun idle => ⟨inside, tracked.chain, ?_⟩⟩
  apply between
  intro thread
  exact ⟨congrArg QueuePlace.waiting (idle thread),
    congrArg (fun place => (place.reading queue.next).map queue.item) (idle thread)⟩

def firstQueue : Queue := create (fun _ => 0) (fun _ => 0) (fun _ => 0) 4096

theorem firstQueue_start : Start firstQueue :=
  ⟨fun _ => 0, fun _ => 0, fun _ => 0, 4096, by decide, rfl⟩

def pushTurns (thread element : Nat) : List QueueTurn :=
  .push thread element :: List.replicate 13 (.access thread)

def popTurns (thread : Nat) : List QueueTurn := .pop thread :: List.replicate 10 (.access thread)

theorem access_place (stepped : queue.access thread = some after) :
    ∃ place, after.place = Function.update queue.place thread place := by
  unfold Queue.access at stepped
  cases isPlace : queue.place thread with
  | idle | allocPage _ =>
      rw [isPlace] at stepped
      cases stepped
  | itemNext _ _ | testNext _ _ _ _ | testHead _ | readItem _ _ =>
      rw [isPlace] at stepped
      obtain ⟨_, -, rfl⟩ := Option.map_eq_some_iff.mp stepped
      exact ⟨_, rfl⟩
  | pageCmpXchg _ _ | itemCmpXchg _ _ _ | nextCmpXchg _ _ _ _ | headCmpXchg _ _
  | freeCmpXchg _ _ =>
      rw [isPlace] at stepped
      dsimp only at stepped
      split at stepped
      · cases stepped
        exact ⟨_, rfl⟩
      · cases stepped
        exact ⟨_, rfl⟩
  | _ =>
      rw [isPlace] at stepped
      cases stepped
      exact ⟨_, rfl⟩

theorem nextQueue_place (stepped : queue.nextQueue turn = some after) :
    ∃ place, after.place = Function.update queue.place turn.thread place := by
  unfold nextQueue at stepped
  cases turn with
  | push thread element | pop thread =>
      dsimp only at stepped
      split at stepped
      · cases stepped
        exact ⟨_, rfl⟩
      · cases stepped
  | access thread => exact access_place stepped
  | allocPage thread page =>
      dsimp only at stepped
      split at stepped
      · split at stepped
        · cases stepped
          exact ⟨_, rfl⟩
        · cases stepped
      · cases stepped

theorem follow_place {turns : List QueueTurn} (others : ∀ turn ∈ turns, turn.thread ≠ thread)
    (followed : Machine.follow nextQueue queue turns = some after) :
    after.place thread = queue.place thread := by
  induction turns generalizing queue with
  | nil =>
      cases followed
      rfl
  | cons turn turns ih =>
      obtain ⟨middle, stepped, rest⟩ := Option.bind_eq_some_iff.mp followed
      obtain ⟨place, isPlace⟩ := nextQueue_place stepped
      have different := others turn List.mem_cons_self
      rw [ih (fun other member => others other (List.mem_cons_of_mem _ member)) rest, isPlace,
        Function.update_of_ne different.symm]

/-- An access of one of the first two threads while the others are idle, in a queue with at most
one element. -/
def currentOfTwo (queue : Queue) (turn : QueueTurn) : Bool :=
  decide (turn.thread < 2) &&
    match queue.place turn.thread with
    | .itemCmpXchg _ item next => queue.freeItems = item → queue.next item = next
    | .clearItem _ item => (queue.place 0).reading queue.next ≠ some item ∧
        (queue.place 1).reading queue.next ≠ some item
    | .nextCmpXchg _ _ _ tail => queue.next tail = 0 → tail ≠ 0 ∧ queue.prevHead ≠ 0 ∧
        (tail = queue.prevHead ∨ tail = queue.next queue.prevHead)
    | .headCmpXchg prevHead next =>
        queue.prevHead = prevHead → next ≠ 0 ∧ queue.next prevHead = next
    | _ => true

def nextOfTwo (queue : Queue) (turn : QueueTurn) : Option Queue :=
  if queue.currentOfTwo turn then queue.nextQueue turn else none

def OfTwo (queue : Queue) : Prop :=
  (∀ thread, 2 ≤ thread → queue.place thread = .idle) ∧
    (machine.restrict Current).Reachable queue

theorem current_of_two (idle : ∀ thread, 2 ≤ thread → queue.place thread = .idle)
    (checked : queue.currentOfTwo turn = true) : queue.Current turn := by
  simp only [currentOfTwo, Bool.and_eq_true] at checked
  obtain ⟨-, holds⟩ := checked
  cases turn with
  | push _ _ | pop _ | allocPage _ _ => trivial
  | access thread =>
      simp only [QueueTurn.thread] at holds
      cases isPlace : queue.place thread with
      | itemCmpXchg element item next =>
          rw [isPlace] at holds
          simp only [Current, isPlace]
          exact of_decide_eq_true holds
      | clearItem element item =>
          rw [isPlace] at holds
          obtain ⟨unreadFirst, unreadSecond⟩ := of_decide_eq_true holds
          simp only [Current, isPlace]
          intro other
          match other with
          | 0 => exact unreadFirst
          | 1 => exact unreadSecond
          | other + 2 =>
              rw [idle (other + 2) (by omega)]
              nofun
      | nextCmpXchg element item oldTail tail =>
          rw [isPlace] at holds
          have inQueue := of_decide_eq_true holds
          simp only [Current, isPlace]
          intro ends
          obtain ⟨nonNull, headNonNull, isHead | follows⟩ := inQueue ends
          · exact ⟨[], isHead.symm, nonNull, ends⟩
          · exact ⟨[queue.prevHead], rfl, headNonNull, follows.symm, nonNull, ends⟩
      | headCmpXchg prevHead next =>
          rw [isPlace] at holds
          simp only [Current, isPlace]
          exact of_decide_eq_true holds
      | _ => simp only [Current, isPlace]

theorem ofTwo_next (ofTwo : OfTwo queue) (stepped : queue.nextOfTwo turn = some after) :
    OfTwo after := by
  obtain ⟨idle, reachable⟩ := ofTwo
  unfold nextOfTwo at stepped
  split at stepped
  · rename_i checked
    refine ⟨fun other late => ?_, (machine.restrict Current).reachable_step reachable
      ⟨current_of_two idle checked, stepped⟩⟩
    simp only [currentOfTwo, Bool.and_eq_true, decide_eq_true_eq] at checked
    obtain ⟨place, isPlace⟩ := nextQueue_place stepped
    rw [isPlace, Function.update_of_ne (by omega)]
    exact idle other late
  · cases stepped

def alternating (count : Nat) : List QueueTurn :=
  (List.replicate count [QueueTurn.access 0, .access 1]).flatten

/-- Both threads push and take the same free item at first, so one of them takes it again; the
first thread pops while the other links its element and pushes the next one. -/
def interleaved : List QueueTurn :=
  [.push 0 7, .push 1 9] ++ alternating 13 ++ [.pop 0] ++ alternating 4 ++ [.push 1 11] ++
    alternating 8 ++ List.replicate 5 (.access 1)

theorem queue_lossless_interleaved : ∃ queue, (machine.restrict Current).Reachable queue ∧
    (∀ thread, queue.place thread = .idle) ∧ queue.called = [(0, 7), (1, 9), (1, 11)] ∧
    queue.popped = [7] ∧ queue.item (queue.next queue.prevHead) = 9 ∧ queue.Lossless := by
  have ran : (Machine.follow nextOfTwo firstQueue interleaved).map (fun queue =>
        ([queue.place 0, queue.place 1], queue.called, queue.popped,
          queue.item (queue.next queue.prevHead))) =
      some ([.idle, .idle], [(0, 7), (1, 9), (1, 11)], [7], 9) := by decide +kernel
  obtain ⟨queue, followed, fields⟩ := Option.map_eq_some_iff.mp ran
  have ofTwo : OfTwo queue := by
    refine (Machine.ofNext OfTwo nextOfTwo).invariant (fun _ => id)
      (fun _ _ _ => ofTwo_next) ((Machine.ofNext OfTwo nextOfTwo).follow_reachable
        (fun _ _ _ stepped => stepped) (Machine.reachable_start _ ?_) followed)
    exact ⟨fun _ _ => rfl, (machine.restrict Current).reachable_start firstQueue_start⟩
  simp only [Prod.mk.injEq, List.cons.injEq] at fields
  obtain ⟨⟨first, second, -⟩, called, popped, item⟩ := fields
  have idle : ∀ thread, queue.place thread = .idle
    | 0 => first
    | 1 => second
    | thread + 2 => ofTwo.1 (thread + 2) (by omega)
  exact ⟨queue, ofTwo.2, idle, called, popped, item, queue_lossless ofTwo.2⟩

/-- A pop has moved the head but not read its element when another pop frees the item and a push
takes it again. -/
def recycling : List QueueTurn :=
  pushTurns 0 1 ++ pushTurns 0 2 ++ (popTurns 1).take 6 ++ popTurns 2 ++ pushTurns 0 3 ++
    (popTurns 1).drop 6 ++ popTurns 2

theorem recycledItem_poppedTwice : ∃ queue, machine.Reachable queue ∧ queue.popped = [3, 3, 2] ∧
    ¬ queue.Lossless := by
  have ran : (Machine.follow nextQueue firstQueue recycling).map (fun queue => queue.popped) =
      some [3, 3, 2] := by decide +kernel
  obtain ⟨queue, followed, popped⟩ := Option.map_eq_some_iff.mp ran
  refine ⟨queue, machine.follow_reachable (fun _ _ _ stepped => stepped)
    (machine.reachable_start firstQueue_start) followed, popped, fun lossless => ?_⟩
  have nodup := lossless.1
  rw [popped] at nodup
  revert nodup
  decide

/-- Two pushes load the tail before either has linked its item; the tail stays behind, and its
item is freed while the tail still leads to it. -/
def lagging : List QueueTurn :=
  (pushTurns 0 1).take 10 ++ pushTurns 1 2 ++ List.replicate 6 (.access 0) ++ popTurns 0 ++
    popTurns 0 ++ pushTurns 0 3

theorem laggingTail_loses : ∃ queue, machine.Reachable queue ∧
    (∀ thread, queue.place thread = .idle) ∧ queue.called = [(0, 1), (1, 2), (0, 3)] ∧
    queue.popped = [1, 2] ∧ queue.prevHead ≠ 0 ∧ queue.next queue.prevHead = 0 ∧
    ¬ queue.Lossless := by
  have ran : (Machine.follow nextQueue firstQueue lagging).map (fun queue =>
      ([queue.place 0, queue.place 1], queue.called, queue.popped,
        [queue.prevHead, queue.next queue.prevHead])) =
      some ([.idle, .idle], [(0, 1), (1, 2), (0, 3)], [1, 2], [4108, 0]) := by decide +kernel
  obtain ⟨queue, followed, fields⟩ := Option.map_eq_some_iff.mp ran
  simp only [Prod.mk.injEq, List.cons.injEq] at fields
  obtain ⟨⟨first, second, -⟩, called, popped, prevHead, ends, -⟩ := fields
  have idle : ∀ thread, queue.place thread = .idle := by
    intro thread
    by_cases isFirst : thread = 0
    · rw [isFirst, first]
    · by_cases isSecond : thread = 1
      · rw [isSecond, second]
      · rw [follow_place (fun turn member => ?_) followed]
        · rfl
        · have few : ∀ turn ∈ lagging, turn.thread = 0 ∨ turn.thread = 1 := by decide
          rcases few turn member with same | same
          · exact fun isThread => isFirst (isThread.symm.trans same)
          · exact fun isThread => isSecond (isThread.symm.trans same)
  refine ⟨queue, machine.follow_reachable (fun _ _ _ stepped => stepped)
    (machine.reachable_start firstQueue_start) followed, idle, called, popped, ?_, ends,
    fun lossless => ?_⟩
  · rw [prevHead]
    decide
  · obtain ⟨inside, chain, pushes, elements, order⟩ := lossless.2.2 idle
    have empty : inside = [] := by
      have rest := chain.2.2
      rw [ends] at rest
      exact rest.eq_nil_iff.mpr rfl
    rw [empty] at elements
    have none : pushes = [] := List.map_eq_nil_iff.mp elements
    have first := order 0
    rw [none, called, popped] at first
    revert first
    decide

end DoggOS.Rt.Queue

/-
Where the items of a queue are while threads push and pop.

Every item of a page has one role: it is in the queue, it is free, or one thread
holds it between taking it from one list and putting it on the other.  `Tracked`
ties the links to these roles.  A thread writes to items that it holds, except
where a compare-and-swap moves an item from one role to another; what the other
threads hold stays as it was.
-/

import DoggOS.Library.QueueHistory
import DoggOS.Rt.Queue

namespace DoggOS.Rt

inductive ItemRole where
  | unused
  | queue
  | free
  | held (thread : Nat)
deriving DecidableEq, Repr

namespace QueuePlace

def owned : QueuePlace → List Nat
  | .pageNext _ page | .pageCmpXchg _ page => queuePageItems page
  | .clearNext _ item | .clearPrev _ item | .clearItem _ item | .getTail _ item
  | .setItem _ item _ | .testNext _ item _ _ | .followNext _ item _ _
  | .nextCmpXchg _ item _ _ => [item]
  | .nextItem prevHead | .readItem prevHead _ => [prevHead]
  | .freeItems item | .freeNext item _ | .freeCmp item | .freeCmpXchg item _ => [item]
  | _ => []

def waiting : QueuePlace → Option Nat
  | .firstItem element | .testItems element | .allocPage element | .pageNext element _
  | .pageCmpXchg element _ | .getItem element | .itemNext element _ | .itemCmpXchg element _ _
  | .clearNext element _ | .clearPrev element _ | .clearItem element _ | .getTail element _
  | .setItem element _ _ | .testNext element _ _ _ | .followNext element _ _ _
  | .nextCmpXchg element _ _ _ => some element
  | _ => none

/-- The item whose element a pop has taken and not read yet. -/
def reading (next : Nat → Nat) : QueuePlace → Option Nat
  | .nextItem prevHead => some (next prevHead)
  | .readItem _ item => some item
  | _ => none

def blank : QueuePlace → Option Nat
  | .getTail _ item | .setItem _ item _ => some item
  | _ => none

def Ready (next item : Nat → Nat) : QueuePlace → Prop
  | .pageNext _ page | .pageCmpXchg _ page =>
      ∀ index, index + 1 < queuePageItemCount → next (queueItem page index) = queueItem page (index + 1)
  | .itemCmpXchg _ cell _ => cell ≠ 0
  | .clearPrev _ cell | .clearItem _ cell | .getTail _ cell | .setItem _ cell _ => next cell = 0
  | .testNext element cell _ _ | .followNext element cell _ _ | .nextCmpXchg element cell _ _ =>
      next cell = 0 ∧ item cell = element
  | .readItem prevHead cell => next prevHead = cell
  | _ => True

variable {next item next' item' : Nat → Nat} {place : QueuePlace} {cell : Nat}

theorem Ready.frame (ready : place.Ready next item)
    (same : ∀ cell ∈ place.owned, next' cell = next cell ∧ item' cell = item cell) :
    place.Ready next' item' := by
  cases place with
  | pageNext element page | pageCmpXchg element page =>
      intro index small
      have member : queueItem page index ∈ queuePageItems page :=
        List.mem_map_of_mem (List.mem_range.mpr (Nat.lt_of_succ_lt small))
      exact (same _ member).1.trans (ready index small)
  | clearPrev _ held | clearItem _ held | getTail _ held | setItem _ held _ =>
      exact (same held List.mem_cons_self).1.trans ready
  | testNext _ held _ _ | followNext _ held _ _ | nextCmpXchg _ held _ _ =>
      obtain ⟨links, items⟩ := same held List.mem_cons_self
      exact ⟨links.trans ready.1, items.trans ready.2⟩
  | readItem prevHead _ => exact (same prevHead List.mem_cons_self).1.trans ready
  | itemCmpXchg _ _ _ => exact ready
  | _ => trivial

theorem reading_frame (same : ∀ cell ∈ place.owned, next' cell = next cell) :
    place.reading next' = place.reading next := by
  cases place with
  | nextItem prevHead => exact congrArg some (same prevHead List.mem_cons_self)
  | _ => rfl

theorem blank_owned (blank : place.blank = some cell) : cell ∈ place.owned := by
  cases place with
  | getTail _ held | setItem _ held _ => exact Option.some.inj blank ▸ List.mem_cons_self
  | _ => cases blank

end QueuePlace

namespace Queue

variable {queue after : Queue} {role role' : Nat → ItemRole} {inside inside' free free' : List Nat}
  {thread other cell page : Nat} {place : QueuePlace}

structure Tracked (queue : Queue) (role : Nat → ItemRole) (inside free : List Nat) : Prop where
  chain : Chain queue.next queue.prevHead (queue.prevHead :: inside)
  insideNodup : (queue.prevHead :: inside).Nodup
  insideRole : ∀ cell ∈ queue.prevHead :: inside, role cell = .queue
  freeChain : Chain queue.next queue.freeItems free
  freeNodup : free.Nodup
  freeRole : ∀ cell ∈ free, role cell = .free
  owned : ∀ thread, ∀ cell ∈ (queue.place thread).owned, role cell = .held thread
  ready : ∀ thread, (queue.place thread).Ready queue.next queue.item
  blank : ∀ thread other cell, (queue.place thread).blank = some cell →
    (queue.place other).reading queue.next ≠ some cell
  known : ∀ cell, role cell ≠ .unused → ∃ page ∈ queue.pages, cell ∈ queuePageItems page
  pages : ∀ page ∈ queue.pages, page ≠ 0

def view (queue : Queue) (inside : List Nat) : QueueHistory Nat Nat where
  called := queue.called
  popped := queue.popped
  content := inside.map queue.item
  waiting thread := (queue.place thread).waiting
  reading thread := ((queue.place thread).reading queue.next).map queue.item

namespace Tracked

theorem ne_zero (tracked : Tracked queue role inside free) (used : role cell ≠ .unused) :
    cell ≠ 0 := by
  obtain ⟨page, member, inPage⟩ := tracked.known cell used
  have nonNull := tracked.pages page member
  obtain ⟨index, -, rfl⟩ := List.mem_map.mp inPage
  unfold queueItem
  omega

/-- A step of one thread that leaves the items of the others as they were. -/
theorem step (tracked : Tracked queue role inside free)
    (isPlace : after.place = Function.update queue.place thread place)
    (chain : Chain after.next after.prevHead (after.prevHead :: inside'))
    (insideNodup : (after.prevHead :: inside').Nodup)
    (insideRole : ∀ cell ∈ after.prevHead :: inside', role' cell = .queue)
    (freeChain : Chain after.next after.freeItems free') (freeNodup : free'.Nodup)
    (freeRole : ∀ cell ∈ free', role' cell = .free)
    (others : ∀ other, other ≠ thread → ∀ cell, role cell = .held other →
      role' cell = .held other ∧ after.next cell = queue.next cell ∧ after.item cell = queue.item cell)
    (owned : ∀ cell ∈ place.owned, role' cell = .held thread)
    (ready : place.Ready after.next after.item)
    (reading : ∀ cell, place.reading after.next = some cell →
      (queue.place thread).reading queue.next = some cell ∨ role cell = .queue)
    (blank : ∀ cell, place.blank = some cell → ∀ other, other ≠ thread →
      (queue.place other).reading queue.next ≠ some cell)
    (known : ∀ cell, role' cell ≠ .unused → ∃ page ∈ after.pages, cell ∈ queuePageItems page)
    (pages : ∀ page ∈ after.pages, page ≠ 0) : Tracked after role' inside' free' := by
  have elsewhere : ∀ other, other ≠ thread → after.place other = queue.place other := by
    intro other different
    rw [isPlace, Function.update_of_ne different]
  have here : after.place thread = place := by
    rw [isPlace, Function.update_self]
  have readings : ∀ other, other ≠ thread →
      (after.place other).reading after.next = (queue.place other).reading queue.next := by
    intro other different
    rw [elsewhere other different]
    exact QueuePlace.reading_frame fun cell member =>
      (others other different cell (tracked.owned other cell member)).2.1
  refine ⟨chain, insideNodup, insideRole, freeChain, freeNodup, freeRole, fun one => ?_,
    fun one => ?_, fun one two cell isBlank reads => ?_, known, pages⟩
  · by_cases same : one = thread
    · rw [same, here]
      exact owned
    · rw [elsewhere one same]
      exact fun cell member => (others one same cell (tracked.owned one cell member)).1
  · by_cases same : one = thread
    · rw [same, here]
      exact ready
    · rw [elsewhere one same]
      exact (tracked.ready one).frame fun cell member =>
        (others one same cell (tracked.owned one cell member)).2
  · by_cases isOne : one = thread
    · rw [isOne, here] at isBlank
      by_cases isTwo : two = thread
      · rw [isTwo, here] at reads
        cases place with
        | getTail _ _ | setItem _ _ _ => cases reads
        | _ => cases isBlank
      · rw [readings two isTwo] at reads
        exact blank cell isBlank two isTwo reads
    · rw [elsewhere one isOne] at isBlank
      have held := tracked.owned one cell (QueuePlace.blank_owned isBlank)
      by_cases isTwo : two = thread
      · rw [isTwo, here] at reads
        rcases reading cell reads with before | inQueue
        · exact tracked.blank one thread cell isBlank before
        · rw [held] at inQueue
          cases inQueue
      · rw [readings two isTwo] at reads
        exact tracked.blank one two cell isBlank reads

theorem view_eq (tracked : Tracked queue role inside free)
    (isPlace : after.place = Function.update queue.place thread place)
    (others : ∀ other, other ≠ thread → ∀ cell, role cell = .held other →
      after.next cell = queue.next cell)
    (unread : ∀ other, other ≠ thread → ∀ cell,
      (queue.place other).reading queue.next = some cell → after.item cell = queue.item cell) :
    after.view inside' = {
      called := after.called
      popped := after.popped
      content := inside'.map after.item
      waiting := Function.update (queue.view inside).waiting thread place.waiting
      reading := Function.update (queue.view inside).reading thread
        ((place.reading after.next).map after.item) } := by
  have waiting : (fun other => (after.place other).waiting) =
      Function.update (queue.view inside).waiting thread place.waiting := by
    funext other
    by_cases same : other = thread
    · rw [same, isPlace, Function.update_self, Function.update_self]
    · rw [isPlace, Function.update_of_ne same, Function.update_of_ne same]
      rfl
  have reading : (fun other => ((after.place other).reading after.next).map after.item) =
      Function.update (queue.view inside).reading thread
        ((place.reading after.next).map after.item) := by
    funext other
    by_cases same : other = thread
    · rw [same, isPlace, Function.update_self, Function.update_self]
    · rw [isPlace, Function.update_of_ne same, Function.update_of_ne same]
      have frame := @QueuePlace.reading_frame queue.next after.next (queue.place other)
        fun cell member => others other same cell (tracked.owned other cell member)
      have seen : (queue.view inside).reading other =
          ((queue.place other).reading queue.next).map queue.item := rfl
      rw [frame, seen]
      cases reads : (queue.place other).reading queue.next with
      | none => rfl
      | some cell => rw [Option.map_some, Option.map_some, unread other same cell reads]
  unfold view at waiting reading ⊢
  rw [waiting, reading]

theorem view_same (tracked : Tracked queue role inside free)
    (isPlace : after.place = Function.update queue.place thread place)
    (others : ∀ other, other ≠ thread → ∀ cell, role cell = .held other →
      after.next cell = queue.next cell)
    (unread : ∀ other cell, (queue.place other).reading queue.next = some cell →
      after.item cell = queue.item cell)
    (called : after.called = queue.called) (popped : after.popped = queue.popped)
    (content : inside'.map after.item = inside.map queue.item)
    (waiting : place.waiting = (queue.place thread).waiting)
    (reading : place.reading after.next = (queue.place thread).reading queue.next) :
    after.view inside' = queue.view inside := by
  have sameWaiting : place.waiting = (queue.view inside).waiting thread := waiting
  have sameReading : (place.reading after.next).map after.item = (queue.view inside).reading thread := by
    have seen : (queue.view inside).reading thread =
        ((queue.place thread).reading queue.next).map queue.item := rfl
    rw [reading, seen]
    cases reads : (queue.place thread).reading queue.next with
    | none => rfl
    | some cell => rw [Option.map_some, Option.map_some, unread thread cell reads]
  rw [tracked.view_eq isPlace others fun other _ => unread other, sameReading, sameWaiting,
    Function.update_eq_self, Function.update_eq_self, called, popped, content]
  rfl

theorem writes (tracked : Tracked queue role inside free)
    (isPlace : after.place = Function.update queue.place thread place)
    (freeItems : after.freeItems = queue.freeItems) (prevHead : after.prevHead = queue.prevHead)
    (pages : after.pages = queue.pages)
    (memory : ∀ cell, role cell ≠ .held thread →
      after.next cell = queue.next cell ∧ after.item cell = queue.item cell)
    (owned : ∀ cell ∈ place.owned, cell ∈ (queue.place thread).owned)
    (ready : place.Ready after.next after.item)
    (reading : ∀ cell, place.reading after.next = some cell →
      (queue.place thread).reading queue.next = some cell)
    (blank : ∀ cell, place.blank = some cell → ∀ other, other ≠ thread →
      (queue.place other).reading queue.next ≠ some cell) :
    Tracked after role inside free := by
  have insideSame : ∀ cell ∈ queue.prevHead :: inside, after.next cell = queue.next cell := by
    intro cell member
    refine (memory cell fun held => ?_).1
    rw [tracked.insideRole cell member] at held
    cases held
  have freeSame : ∀ cell ∈ free, after.next cell = queue.next cell := by
    intro cell member
    refine (memory cell fun held => ?_).1
    rw [tracked.freeRole cell member] at held
    cases held
  apply tracked.step isPlace
  · rw [prevHead]
    exact tracked.chain.frame insideSame
  · rw [prevHead]
    exact tracked.insideNodup
  · rw [prevHead]
    exact tracked.insideRole
  · rw [freeItems]
    exact tracked.freeChain.frame freeSame
  · exact tracked.freeNodup
  · exact tracked.freeRole
  · intro other different cell held
    refine ⟨held, memory cell fun heldHere => ?_⟩
    rw [held] at heldHere
    exact different (ItemRole.held.inj heldHere)
  · exact fun cell member => tracked.owned thread cell (owned cell member)
  · exact ready
  · exact fun cell reads => Or.inl (reading cell reads)
  · exact blank
  · rw [pages]
    exact tracked.known
  · rw [pages]
    exact tracked.pages

theorem content_same (tracked : Tracked queue role inside free)
    (memory : ∀ cell, role cell ≠ .held thread → after.item cell = queue.item cell) :
    inside.map after.item = inside.map queue.item := by
  apply List.map_congr_left
  intro cell member
  refine memory cell fun held => ?_
  rw [tracked.insideRole cell (List.mem_cons_of_mem _ member)] at held
  cases held

end Tracked

end Queue

end DoggOS.Rt

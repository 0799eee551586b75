/-
The queue whose items are recycled through a free list.

Each field of an item is a function of its address.  Each label is one load, one
store or one `k_rt_CmpXchg` of a thread that pushes or pops; only the page that
`k_rt_AllocQueuePage` prepares is linked in one step, before any other thread can
see it.  `pages`, `called` and `popped` are histories that the code does not
keep: the pages, the pushes with their threads and what pops have read.  Page
zero is not mapped, so an access through a null pointer has no next state.
-/

import DoggOS.Library.LinkedQueues
import DoggOS.Library.Machine

namespace DoggOS.Rt

/-- `sizeof(struct k_rt_queue_item_t)` -/
def queueItemSize : Nat := 12

/-- `K_RT_QUEUE_PAGE_ITEM_COUNT` -/
def queuePageItemCount : Nat := 4096 / queueItemSize

/-- `page->items + index` -/
def queueItem (page index : Nat) : Nat := page + queueItemSize * index

def queuePageItems (page : Nat) : List Nat :=
  (List.range queuePageItemCount).map (queueItem page)

/-- The access that a thread makes next, with its local variables. -/
inductive QueuePlace where
  | idle
  -- `k_rt_AllocQueueItem` and `k_rt_AllocQueuePage` of a push
  | firstItem (element : Nat)
  | testItems (element : Nat)
  | allocPage (element : Nat)
  | pageNext (element page : Nat)
  | pageCmpXchg (element page : Nat)
  | getItem (element : Nat)
  | itemNext (element item : Nat)
  | itemCmpXchg (element item next : Nat)
  | clearNext (element item : Nat)
  | clearPrev (element item : Nat)
  | clearItem (element item : Nat)
  -- `k_rt_QueuePush`
  | getTail (element item : Nat)
  | setItem (element item tail : Nat)
  | testNext (element item oldTail tail : Nat)
  | followNext (element item oldTail tail : Nat)
  | nextCmpXchg (element item oldTail tail : Nat)
  | tailCmpXchg (item oldTail : Nat)
  -- `k_rt_QueuePop`
  | getHead
  | testHead (prevHead : Nat)
  | headNext (prevHead : Nat)
  | headCmpXchg (prevHead next : Nat)
  | nextItem (prevHead : Nat)
  | readItem (prevHead item : Nat)
  -- `k_rt_FreeQueueItem` of a pop
  | freeItems (item : Nat)
  | freeNext (item next : Nat)
  | freeCmp (item : Nat)
  | freeCmpXchg (item next : Nat)
deriving DecidableEq, Repr

/-- `struct k_rt_queue_t` with the items and the threads. -/
structure Queue where
  freeItems : Nat
  prevHead : Nat
  tail : Nat
  next : Nat → Nat
  prev : Nat → Nat
  item : Nat → Nat
  place : Nat → QueuePlace
  pages : List Nat
  called : List (Nat × Nat)
  popped : List Nat

inductive QueueTurn where
  | push (thread element : Nat)
  | pop (thread : Nat)
  | access (thread : Nat)
  | allocPage (thread page : Nat)
deriving DecidableEq, Repr

def QueueTurn.thread : QueueTurn → Nat
  | .push thread _ | .pop thread | .access thread | .allocPage thread _ => thread

namespace Queue

def move (queue : Queue) (thread : Nat) (place : QueuePlace) : Queue :=
  { queue with place := Function.update queue.place thread place }

/-- The loop of `k_rt_AllocQueuePage`. -/
def linkItems (page : Nat) : Nat → Nat → (Nat → Nat) → Nat → Nat
  | 0, _, next => next
  | count + 1, index, next =>
      linkItems page count (index + 1)
        (Function.update next (queueItem page index) (queueItem page (index + 1)))

def lastItem (page : Nat) : Nat := queueItem page (queuePageItemCount - 1)

def load (field : Nat → Nat) (item : Nat) : Option Nat := if item = 0 then none else some (field item)

def access (queue : Queue) (thread : Nat) : Option Queue :=
  match queue.place thread with
  | .idle | .allocPage _ => none
  | .firstItem element => some (queue.move thread (.testItems element))
  | .testItems element =>
      some (queue.move thread (if queue.freeItems = 0 then .allocPage element else .getItem element))
  | .pageNext element page =>
      some { queue.move thread (.pageCmpXchg element page) with
        next := Function.update queue.next (lastItem page) queue.freeItems }
  | .pageCmpXchg element page =>
      if queue.freeItems = queue.next (lastItem page) then
        some { queue.move thread (.getItem element) with freeItems := queueItem page 0 }
      else some (queue.move thread (.pageNext element page))
  | .getItem element => some (queue.move thread (.itemNext element queue.freeItems))
  | .itemNext element item =>
      (load queue.next item).map fun next => queue.move thread (.itemCmpXchg element item next)
  | .itemCmpXchg element item next =>
      if queue.freeItems = item then
        some { queue.move thread (.clearNext element item) with freeItems := next }
      else some (queue.move thread (.testItems element))
  | .clearNext element item =>
      some { queue.move thread (.clearPrev element item) with
        next := Function.update queue.next item 0 }
  | .clearPrev element item =>
      some { queue.move thread (.clearItem element item) with
        prev := Function.update queue.prev item 0 }
  | .clearItem element item =>
      some { queue.move thread (.getTail element item) with
        item := Function.update queue.item item 0 }
  | .getTail element item => some (queue.move thread (.setItem element item queue.tail))
  | .setItem element item tail =>
      some { queue.move thread (.testNext element item tail tail) with
        item := Function.update queue.item item element }
  | .testNext element item oldTail tail =>
      (load queue.next tail).map fun next => queue.move thread
        (if next = 0 then .nextCmpXchg element item oldTail tail
          else .followNext element item oldTail tail)
  | .followNext element item oldTail tail =>
      some (queue.move thread (.testNext element item oldTail (queue.next tail)))
  | .nextCmpXchg element item oldTail tail =>
      if queue.next tail = 0 then
        some { queue.move thread (.tailCmpXchg item oldTail) with
          next := Function.update queue.next tail item }
      else some (queue.move thread (.testNext element item oldTail tail))
  | .tailCmpXchg item oldTail =>
      some { queue.move thread .idle with
        tail := if queue.tail = oldTail then item else queue.tail }
  | .getHead => some (queue.move thread (.testHead queue.prevHead))
  | .testHead prevHead =>
      (load queue.next prevHead).map fun next => queue.move thread
        (if next = 0 then .idle else .headNext prevHead)
  | .headNext prevHead => some (queue.move thread (.headCmpXchg prevHead (queue.next prevHead)))
  | .headCmpXchg prevHead next =>
      if queue.prevHead = prevHead then
        some { queue.move thread (.nextItem prevHead) with prevHead := next }
      else some (queue.move thread (.testHead queue.prevHead))
  | .nextItem prevHead => some (queue.move thread (.readItem prevHead (queue.next prevHead)))
  | .readItem prevHead item =>
      (load queue.item item).map fun element =>
        { queue.move thread (.freeItems prevHead) with popped := element :: queue.popped }
  | .freeItems item => some (queue.move thread (.freeNext item queue.freeItems))
  | .freeNext item next =>
      some { queue.move thread (.freeCmp item) with
        next := Function.update queue.next item next }
  | .freeCmp item => some (queue.move thread (.freeCmpXchg item (queue.next item)))
  | .freeCmpXchg item next =>
      -- the value found is stored in `item->next` in both cases
      if queue.freeItems = next then
        some { queue.move thread .idle with
          freeItems := item
          next := Function.update queue.next item next }
      else some { queue.move thread (.freeCmp item) with
        next := Function.update queue.next item queue.freeItems }

/-- A page of `k_rt_BigAlloc(4096, 4096)` that overlaps no page of the queue. -/
def FreshPage (queue : Queue) (page : Nat) : Prop :=
  page ≠ 0 ∧ ∀ other ∈ queue.pages, page + 4096 ≤ other ∨ other + 4096 ≤ page

instance (queue : Queue) (page : Nat) : Decidable (queue.FreshPage page) :=
  inferInstanceAs (Decidable (_ ∧ _))

/-- The elements that are pushed are not null, and each is pushed once. -/
def nextQueue (queue : Queue) : QueueTurn → Option Queue
  | .push thread element =>
      if queue.place thread = .idle ∧ element ≠ 0 ∧ element ∉ queue.called.map Prod.snd then
        some { queue.move thread (.firstItem element) with
          called := queue.called ++ [(thread, element)] }
      else none
  | .pop thread =>
      if queue.place thread = .idle then some (queue.move thread .getHead) else none
  | .access thread => queue.access thread
  | .allocPage thread page =>
      match queue.place thread with
      | .allocPage element =>
          if queue.FreshPage page then
            some { queue.move thread (.pageNext element page) with
              next := linkItems page queuePageItemCount 0 queue.next
              pages := page :: queue.pages }
          else none
      | _ => none

/-- `k_rt_QueueCreate`, with its first page. -/
def create (next prev item : Nat → Nat) (page : Nat) : Queue where
  freeItems := queueItem page 1
  prevHead := page
  tail := page
  next := Function.update
    (Function.update (linkItems page queuePageItemCount 0 next) (lastItem page) 0) page 0
  prev := Function.update prev page 0
  item := Function.update item page 0
  place _ := .idle
  pages := [page]
  called := []
  popped := []

def Start (queue : Queue) : Prop :=
  ∃ next prev item page, page ≠ 0 ∧ queue = create next prev item page

def machine : Machine Queue QueueTurn := Machine.ofNext Start nextQueue

end Queue

end DoggOS.Rt

/-
The accesses of pushes and pops, one by one.

`Current` names the four accesses that may find a recycled item: a successful
compare-and-swap on `free_items` or `prev_head` must install the item that
follows the old one now, a successful one on `next` must be at the end of the
queue, and an item is not cleared while a pop has still to read it.  Each other
access does what it should whatever the threads do in between.
-/

import DoggOS.Rt.QueueItems

namespace DoggOS.Rt.Queue

variable {queue after : Queue} {role : Nat → ItemRole} {inside free : List Nat}
  {thread cell page : Nat} {place : QueuePlace}

/-- No access of the turn takes a recycled item for what it was. -/
def Current (queue : Queue) : QueueTurn → Prop
  | .access thread =>
      match queue.place thread with
      | .itemCmpXchg _ item next => queue.freeItems = item → queue.next item = next
      | .clearItem _ item =>
          ∀ other, (queue.place other).reading queue.next ≠ some item
      | .nextCmpXchg _ _ _ tail => queue.next tail = 0 →
          ∃ cells, Chain queue.next queue.prevHead (cells ++ [tail])
      | .headCmpXchg prevHead next => queue.prevHead = prevHead →
          next ≠ 0 ∧ queue.next prevHead = next
      | _ => True
  | .push _ _ | .pop _ | .allocPage _ _ => True

def Kept (queue : Queue) (inside : List Nat) (after : Queue) : Prop :=
  ∃ role inside' free, Tracked after role inside' free ∧
    (after.view inside' = queue.view inside ∨
      ∃ turn, QueueHistory.Step (queue.view inside) turn (after.view inside'))

namespace Tracked

theorem quiet (tracked : Tracked queue role inside free)
    (isPlace : after.place = Function.update queue.place thread place)
    (freeItems : after.freeItems = queue.freeItems) (prevHead : after.prevHead = queue.prevHead)
    (pages : after.pages = queue.pages) (called : after.called = queue.called)
    (popped : after.popped = queue.popped)
    (memory : ∀ cell, role cell ≠ .held thread →
      after.next cell = queue.next cell ∧ after.item cell = queue.item cell)
    (unread : ∀ other cell, (queue.place other).reading queue.next = some cell →
      after.item cell = queue.item cell)
    (owned : ∀ cell ∈ place.owned, cell ∈ (queue.place thread).owned)
    (ready : place.Ready after.next after.item)
    (waiting : place.waiting = (queue.place thread).waiting)
    (reading : place.reading after.next = (queue.place thread).reading queue.next)
    (blank : ∀ cell, place.blank = some cell → ∀ other, other ≠ thread →
      (queue.place other).reading queue.next ≠ some cell) : Kept queue inside after := by
  refine ⟨role, inside, free, tracked.writes isPlace freeItems prevHead pages memory owned ready
    (fun cell reads => reading ▸ reads) blank, Or.inl ?_⟩
  refine tracked.view_same isPlace (fun other different cell held => ?_) unread called popped
    (tracked.content_same fun cell notHeld => (memory cell notHeld).2) waiting reading
  refine (memory cell fun heldHere => ?_).1
  rw [held] at heldHere
  exact different (ItemRole.held.inj heldHere)

theorem goes (tracked : Tracked queue role inside free) {tail : Nat} {prev : Nat → Nat}
    (owned : ∀ cell ∈ place.owned, cell ∈ (queue.place thread).owned)
    (ready : place.Ready queue.next queue.item)
    (waiting : place.waiting = (queue.place thread).waiting)
    (reading : place.reading queue.next = (queue.place thread).reading queue.next)
    (blank : ∀ cell, place.blank = some cell → (queue.place thread).blank = some cell) :
    Kept queue inside { queue.move thread place with tail := tail, prev := prev } :=
  tracked.quiet rfl rfl rfl rfl rfl rfl (fun _ _ => ⟨rfl, rfl⟩) (fun _ _ _ => rfl) owned ready
    waiting reading fun cell isBlank other _ => tracked.blank thread other cell (blank cell isBlank)

theorem links (tracked : Tracked queue role inside free) {next : Nat → Nat}
    (held : cell ∈ (queue.place thread).owned)
    (others : ∀ other, other ≠ cell → next other = queue.next other)
    (owned : ∀ cell ∈ place.owned, cell ∈ (queue.place thread).owned)
    (ready : place.Ready next queue.item)
    (waiting : place.waiting = (queue.place thread).waiting)
    (reading : place.reading next = (queue.place thread).reading queue.next)
    (unblank : place.blank = none) :
    Kept queue inside { queue.move thread place with next := next } := by
  have isHeld := tracked.owned thread cell held
  refine tracked.quiet rfl rfl rfl rfl rfl rfl (fun other notHeld => ⟨others other ?_, rfl⟩)
    (fun _ _ _ => rfl) owned ready waiting reading fun other isBlank => ?_
  · rintro rfl
    exact notHeld isHeld
  · rw [unblank] at isBlank
    cases isBlank

end Tracked

theorem queueItem_inj {one two : Nat} (same : queueItem page one = queueItem page two) :
    one = two := by
  unfold queueItem queueItemSize at same
  omega

theorem queuePageItems_nodup (page : Nat) : (queuePageItems page).Nodup :=
  List.nodup_range.map fun _ _ same => queueItem_inj same

theorem mem_queuePageItems {index : Nat} (small : index < queuePageItemCount) :
    queueItem page index ∈ queuePageItems page :=
  List.mem_map_of_mem (List.mem_range.mpr small)

theorem linkItems_frame (count index : Nat) (next : Nat → Nat)
    (outside : ∀ place, index ≤ place → place < index + count → cell ≠ queueItem page place) :
    linkItems page count index next cell = next cell := by
  induction count generalizing index next with
  | zero => rfl
  | succ count ih =>
      rw [linkItems, ih _ _ fun place least small => outside place (by omega) (by omega)]
      exact Function.update_of_ne (outside index (Nat.le_refl index) (by omega)) _ _

theorem linkItems_row (count index : Nat) (next : Nat → Nat) {place : Nat} (least : index ≤ place)
    (small : place < index + count) :
    linkItems page count index next (queueItem page place) = queueItem page (place + 1) := by
  induction count generalizing index next with
  | zero => omega
  | succ count ih =>
      rw [linkItems]
      by_cases here : place = index
      · rw [here, linkItems_frame]
        · exact Function.update_self _ _ _
        · intro other greater _ same
          have := queueItem_inj same
          omega
      · exact ih _ _ (by omega) (by omega)

theorem FreshPage.unused (tracked : Tracked queue role inside free) (fresh : queue.FreshPage page) :
    ∀ cell ∈ queuePageItems page, role cell = .unused := by
  have within : ∀ {page cell}, cell ∈ queuePageItems page → page ≤ cell ∧ cell < page + 4096 := by
    intro page cell member
    obtain ⟨index, small, rfl⟩ := List.mem_map.mp member
    have bound : index < 341 := List.mem_range.mp small
    unfold queueItem queueItemSize
    omega
  intro cell member
  by_contra used
  obtain ⟨other, known, inOther⟩ := tracked.known cell used
  have here := within member
  have there := within inOther
  rcases fresh.2 other known with before | behind
  · omega
  · omega

namespace Tracked

theorem roles {role' : Nat → ItemRole}
    {next : Nat → Nat} {cells : List Nat}
    (fixed : ∀ cell, cell ∉ cells → role' cell = role cell)
    (mine : ∀ cell ∈ cells, ∀ other, other ≠ thread → role cell ≠ .held other)
    (links : ∀ cell, cell ∉ cells → next cell = queue.next cell) :
    ∀ other, other ≠ thread → ∀ cell, role cell = .held other →
      role' cell = .held other ∧ next cell = queue.next cell ∧ queue.item cell = queue.item cell := by
  intro other different cell held
  have outside : cell ∉ cells := fun member => mine cell member other different held
  exact ⟨(fixed cell outside).trans held, links cell outside, rfl⟩

/-- A page is prepared before any other thread can reach it. -/
theorem preparePage (tracked : Tracked queue role inside free) {element : Nat}
    (isPlace : queue.place thread = .allocPage element) (fresh : queue.FreshPage page)
    {next : Nat → Nat} (links : ∀ cell, cell ∉ queuePageItems page → next cell = queue.next cell)
    (row : ∀ index, index + 1 < queuePageItemCount →
      next (queueItem page index) = queueItem page (index + 1)) :
    Kept queue inside { queue.move thread (.pageNext element page) with
      next := next
      pages := page :: queue.pages } := by
  have unused := FreshPage.unused tracked fresh
  have outside : ∀ cell, role cell ≠ .unused → cell ∉ queuePageItems page :=
    fun cell used member => used (unused cell member)
  have others := @roles queue role thread
    (fun cell => if cell ∈ queuePageItems page then .held thread else role cell)
    next (queuePageItems page)
    (fun cell notIn => if_neg notIn)
    (fun cell member other _ held => by
      rw [unused cell member] at held
      cases held) links
  have inQueue : ∀ cell ∈ queue.prevHead :: inside, cell ∉ queuePageItems page := by
    intro cell member
    apply outside
    rw [tracked.insideRole cell member]
    nofun
  have inFree : ∀ cell ∈ free, cell ∉ queuePageItems page := by
    intro cell member
    apply outside
    rw [tracked.freeRole cell member]
    nofun
  refine ⟨_, inside, free, tracked.step rfl ?_ tracked.insideNodup ?_ ?_ tracked.freeNodup ?_
    others ?_ ?_ (fun _ => nofun) (fun _ => nofun) ?_ ?_, Or.inl ?_⟩
  · exact tracked.chain.frame fun cell member => links cell (inQueue cell member)
  · exact fun cell member => (if_neg (inQueue cell member)).trans (tracked.insideRole cell member)
  · exact tracked.freeChain.frame fun cell member => links cell (inFree cell member)
  · exact fun cell member => (if_neg (inFree cell member)).trans (tracked.freeRole cell member)
  · exact fun cell member => if_pos member
  · exact row
  · intro cell used
    by_cases member : cell ∈ queuePageItems page
    · exact ⟨page, List.mem_cons_self, member⟩
    · rw [if_neg member] at used
      obtain ⟨other, known, inOther⟩ := tracked.known cell used
      exact ⟨other, List.mem_cons_of_mem _ known, inOther⟩
  · intro other member
    rcases List.mem_cons.mp member with same | old
    · exact same ▸ fresh.1
    · exact tracked.pages other old
  · refine tracked.view_same rfl (fun other different cell held =>
      (others other different cell held).2.1) (fun _ _ _ => rfl) rfl rfl rfl ?_ ?_
    · rw [isPlace]
      rfl
    · rw [isPlace]
      rfl

theorem allocPage (tracked : Tracked queue role inside free) {element : Nat}
    (isPlace : queue.place thread = .allocPage element) (fresh : queue.FreshPage page) :
    Kept queue inside { queue.move thread (.pageNext element page) with
      next := linkItems page queuePageItemCount 0 queue.next
      pages := page :: queue.pages } := by
  apply tracked.preparePage isPlace fresh
  · intro cell notIn
    apply linkItems_frame
    intro place _ small same
    rw [Nat.zero_add] at small
    exact notIn (same ▸ mem_queuePageItems small)
  · exact fun index small => linkItems_row _ _ _ (Nat.zero_le _) (by omega)

theorem addPage (tracked : Tracked queue role inside free) {element : Nat}
    (isPlace : queue.place thread = .pageCmpXchg element page)
    (found : queue.freeItems = queue.next (lastItem page)) :
    Kept queue inside { queue.move thread (.getItem element) with freeItems := queueItem page 0 } := by
  have owned := tracked.owned thread
  have ready := tracked.ready thread
  rw [isPlace] at owned ready
  have outside : ∀ {cell : Nat}, role cell ≠ .held thread → cell ∉ queuePageItems page :=
    fun notHeld member => notHeld (owned _ member)
  have inQueue : ∀ cell ∈ queue.prevHead :: inside, cell ∉ queuePageItems page := by
    intro cell member
    apply outside
    rw [tracked.insideRole cell member]
    nofun
  have inFree : ∀ cell ∈ free, cell ∉ queuePageItems page := by
    intro cell member
    apply outside
    rw [tracked.freeRole cell member]
    nofun
  have others := @roles queue role thread
    (fun cell => if cell ∈ queuePageItems page then .free else role cell) queue.next
    (queuePageItems page) (fun cell notIn => if_neg notIn)
    (fun cell member other different held => by
      rw [owned cell member] at held
      exact different (ItemRole.held.inj held).symm) fun _ _ => rfl
  have row : Chain queue.next (queueItem page 0) (queuePageItems page ++ free) := by
    have count : queuePageItemCount = queuePageItemCount - 1 + 1 := by decide
    have chain := tracked.freeChain
    rw [found] at chain
    unfold queuePageItems
    rw [count]
    refine Chain.of_row (fun index small => ?_) (fun index small => ready index (by omega)) chain
    apply tracked.ne_zero
    rw [owned _ (mem_queuePageItems (by omega))]
    nofun
  refine ⟨_, inside, queuePageItems page ++ free, tracked.step rfl tracked.chain
    tracked.insideNodup ?_ row ?_ ?_ others (fun _ => nofun) trivial (fun _ => nofun)
    (fun _ => nofun) ?_ tracked.pages, Or.inl ?_⟩
  · exact fun cell member => (if_neg (inQueue cell member)).trans (tracked.insideRole cell member)
  · rw [List.nodup_append]
    refine ⟨queuePageItems_nodup page, tracked.freeNodup, fun one inPage two member same => ?_⟩
    exact inFree two member (same ▸ inPage)
  · intro cell member
    by_cases inPage : cell ∈ queuePageItems page
    · exact if_pos inPage
    · exact (if_neg inPage).trans
        (tracked.freeRole cell ((List.mem_append.mp member).resolve_left inPage))
  · intro cell used
    apply tracked.known
    by_cases inPage : cell ∈ queuePageItems page
    · rw [owned cell inPage]
      nofun
    · rw [if_neg inPage] at used
      exact used
  · refine tracked.view_same rfl (fun _ _ _ _ => rfl) (fun _ _ _ => rfl) rfl rfl rfl ?_ ?_
    · rw [isPlace]
      rfl
    · rw [isPlace]
      rfl

/-- The items that a thread may come to hold or put down are its own and those of the lists. -/
theorem known_update (tracked : Tracked queue role inside free) {new : ItemRole}
    (used : role cell ≠ .unused) : ∀ other, Function.update role cell new other ≠ .unused →
      ∃ page ∈ queue.pages, other ∈ queuePageItems page := by
  intro other isUsed
  apply tracked.known
  by_cases same : other = cell
  · exact same ▸ used
  · rw [Function.update_of_ne same] at isUsed
    exact isUsed

theorem takeItem (tracked : Tracked queue role inside free) {element next : Nat}
    (isPlace : queue.place thread = .itemCmpXchg element cell next)
    (found : queue.freeItems = cell) (current : queue.next cell = next) :
    Kept queue inside { queue.move thread (.clearNext element cell) with freeItems := next } := by
  have nonNull := tracked.ready thread
  rw [isPlace] at nonNull
  have chain := tracked.freeChain
  rw [found] at chain
  cases free with
  | nil => exact absurd chain nonNull
  | cons first rest =>
      obtain ⟨rfl, -, more⟩ := chain
      rw [current] at more
      have isFree := tracked.freeRole cell List.mem_cons_self
      obtain ⟨absent, nodup⟩ := List.nodup_cons.mp tracked.freeNodup
      have others := @roles queue role thread (Function.update role cell (.held thread))
        queue.next [cell] (fun other notIn => Function.update_of_ne (by simpa using notIn) _ _)
        (fun other member one _ held => by
          rw [List.mem_singleton.mp member, isFree] at held
          cases held) fun _ _ => rfl
      have keep : ∀ other, role other ≠ .free ∨ other ∈ rest →
          Function.update role cell (.held thread) other = role other := by
        intro other different
        apply Function.update_of_ne
        rintro rfl
        rcases different with notFree | inRest
        · exact notFree isFree
        · exact absent inRest
      refine ⟨Function.update role cell (.held thread), inside, rest, tracked.step rfl tracked.chain
        tracked.insideNodup (fun other member => ?_) more nodup (fun other member => ?_) others
        (fun other member => ?_) trivial (fun _ => nofun) (fun _ => nofun)
        (tracked.known_update ?_) tracked.pages, Or.inl ?_⟩
      · have inQueue := tracked.insideRole other member
        rw [keep other (Or.inl (by rw [inQueue]; nofun)), inQueue]
      · rw [keep other (Or.inr member)]
        exact tracked.freeRole other (List.mem_cons_of_mem _ member)
      · rw [List.mem_singleton.mp member, Function.update_self]
      · rw [isFree]
        nofun
      · refine tracked.view_same rfl (fun _ _ _ _ => rfl) (fun _ _ _ => rfl) rfl rfl rfl ?_ ?_
        · rw [isPlace]
          rfl
        · rw [isPlace]
          rfl

theorem freeItem (tracked : Tracked queue role inside free) {next : Nat}
    (isPlace : queue.place thread = .freeCmpXchg cell next) (found : queue.freeItems = next) :
    Kept queue inside { queue.move thread .idle with
      freeItems := cell
      next := Function.update queue.next cell next } := by
  have held : role cell = .held thread := by
    apply tracked.owned thread
    rw [isPlace]
    exact List.mem_cons_self
  have nonNull : cell ≠ 0 := tracked.ne_zero (by rw [held]; nofun)
  have apart : ∀ other, role other ≠ .held thread → other ≠ cell := by
    rintro other notHeld rfl
    exact notHeld held
  have inQueue : ∀ other ∈ queue.prevHead :: inside, other ≠ cell := by
    intro other member
    apply apart
    rw [tracked.insideRole other member]
    nofun
  have inFree : ∀ other ∈ free, other ≠ cell := by
    intro other member
    apply apart
    rw [tracked.freeRole other member]
    nofun
  have others := @roles queue role thread (Function.update role cell .free)
    (Function.update queue.next cell next) [cell]
    (fun other notIn => Function.update_of_ne (by simpa using notIn) _ _)
    (fun other member one different isHeld => by
      rw [List.mem_singleton.mp member, held] at isHeld
      exact different (ItemRole.held.inj isHeld).symm)
    fun other notIn => Function.update_of_ne (by simpa using notIn) _ _
  have chain := tracked.freeChain
  rw [found] at chain
  refine ⟨Function.update role cell .free, inside, cell :: free, tracked.step rfl ?_
    tracked.insideNodup (fun other member => ?_) ?_ ?_ (fun other member => ?_) others
    (fun _ => nofun) trivial (fun _ => nofun) (fun _ => nofun) (tracked.known_update ?_)
    tracked.pages, Or.inl ?_⟩
  · exact tracked.chain.frame fun other member => Function.update_of_ne (inQueue other member) _ _
  · rw [Function.update_of_ne (inQueue other member)]
    exact tracked.insideRole other member
  · refine ⟨rfl, nonNull, ?_⟩
    dsimp only
    rw [Function.update_self]
    exact chain.frame fun other member => Function.update_of_ne (inFree other member) _ _
  · exact List.nodup_cons.mpr ⟨fun member => inFree cell member rfl, tracked.freeNodup⟩
  · rcases List.mem_cons.mp member with same | old
    · rw [same, Function.update_self]
    · rw [Function.update_of_ne (inFree other old)]
      exact tracked.freeRole other old
  · rw [held]
    nofun
  · refine tracked.view_same rfl (fun other different one isHeld =>
      (others other different one isHeld).2.1) (fun _ _ _ => rfl) rfl rfl rfl ?_ ?_
    · rw [isPlace]
      rfl
    · rw [isPlace]
      rfl

theorem linkItem (tracked : Tracked queue role inside free) {element oldTail tail : Nat}
    (isPlace : queue.place thread = .nextCmpXchg element cell oldTail tail)
    (current : ∃ cells, Chain queue.next queue.prevHead (cells ++ [tail])) :
    Kept queue inside { queue.move thread (.tailCmpXchg cell oldTail) with
      next := Function.update queue.next tail cell } := by
  have held : role cell = .held thread := by
    apply tracked.owned thread
    rw [isPlace]
    exact List.mem_cons_self
  have nonNull : cell ≠ 0 := tracked.ne_zero (by rw [held]; nofun)
  have ready := tracked.ready thread
  rw [isPlace] at ready
  obtain ⟨noNext, holds⟩ := ready
  obtain ⟨cells, toTail⟩ := current
  have whole : queue.prevHead :: inside = cells ++ [tail] := tracked.chain.unique toTail
  have tailIn : tail ∈ queue.prevHead :: inside := by
    rw [whole]
    exact List.mem_append_right _ List.mem_cons_self
  have tailRole := tracked.insideRole tail tailIn
  have apart : ∀ other ∈ queue.prevHead :: inside, other ≠ cell := by
    rintro other member rfl
    rw [tracked.insideRole other member] at held
    cases held
  have inFree : ∀ other ∈ free, other ≠ cell ∧ other ≠ tail := by
    intro other member
    have isFree := tracked.freeRole other member
    constructor
    · rintro rfl
      rw [isFree] at held
      cases held
    · rintro rfl
      rw [isFree] at tailRole
      cases tailRole
  have nodup := tracked.insideNodup
  rw [whole] at nodup
  have absent : tail ∉ cells := fun member =>
    (List.nodup_append.mp nodup).2.2 tail member tail List.mem_cons_self rfl
  have longer : Chain (Function.update queue.next tail cell) queue.prevHead
      (queue.prevHead :: (inside ++ [cell])) := by
    rw [← List.cons_append, whole, List.append_assoc]
    apply toTail.link absent
    · intro other member
      apply Function.update_of_ne
      rintro rfl
      exact absent member
    · rw [Function.update_self]
      exact ⟨rfl, nonNull, (Function.update_of_ne (apart tail tailIn).symm _ _).trans noNext⟩
  have others := @roles queue role thread (Function.update role cell .queue)
    (Function.update queue.next tail cell) [cell, tail]
    (fun other notIn => by
      rw [List.mem_cons, not_or] at notIn
      exact Function.update_of_ne notIn.1 _ _)
    (fun other member one different isHeld => by
      rcases List.mem_cons.mp member with same | isTail
      · rw [same, held] at isHeld
        exact different (ItemRole.held.inj isHeld).symm
      · rw [List.mem_singleton.mp isTail, tailRole] at isHeld
        cases isHeld)
    fun other notIn => by
      rw [List.mem_cons, not_or, List.mem_singleton] at notIn
      exact Function.update_of_ne notIn.2 _ _
  refine ⟨Function.update role cell .queue, inside ++ [cell], free, tracked.step rfl longer ?_
    (fun other member => ?_) ?_ tracked.freeNodup (fun other member => ?_) others (fun _ => nofun)
    trivial (fun _ => nofun) (fun _ => nofun) (tracked.known_update ?_) tracked.pages,
    Or.inr ⟨.link thread element, ?_⟩⟩
  · rw [← List.cons_append, List.nodup_append]
    refine ⟨tracked.insideNodup, List.nodup_singleton cell, fun one member two isCell => ?_⟩
    rw [List.mem_singleton.mp isCell]
    exact apart one member
  · rw [← List.cons_append] at member
    rcases List.mem_append.mp member with old | new
    · rw [Function.update_of_ne (apart other old)]
      exact tracked.insideRole other old
    · rw [List.mem_singleton.mp new, Function.update_self]
  · exact tracked.freeChain.frame fun other member => Function.update_of_ne (inFree other member).2 _ _
  · rw [Function.update_of_ne (inFree other member).1]
    exact tracked.freeRole other member
  · rw [held]
    nofun
  · have waits : (queue.view inside).waiting thread = some element :=
      congrArg QueuePlace.waiting isPlace
    have idle : (queue.view inside).reading thread = none :=
      congrArg (fun place => (place.reading queue.next).map queue.item) isPlace
    have seen : Queue.view { queue.move thread (.tailCmpXchg cell oldTail) with
        next := Function.update queue.next tail cell } (inside ++ [cell]) = { queue.view inside with
          content := (queue.view inside).content ++ [element]
          waiting := Function.update (queue.view inside).waiting thread none } := by
      refine Eq.trans (tracked.view_eq rfl (fun other different one isHeld =>
        (others other different one isHeld).2.1) fun _ _ _ _ => rfl) ?_
      have unread : Function.update (queue.view inside).reading thread none =
          (queue.view inside).reading := by
        rw [← idle, Function.update_eq_self]
      have content : (inside ++ [cell]).map queue.item = inside.map queue.item ++ [element] := by
        rw [List.map_append, List.map_singleton, holds]
      exact congrArg₂ (fun content reading => ({ queue.view inside with
        content := content
        waiting := Function.update (queue.view inside).waiting thread none
        reading := reading } : QueueHistory Nat Nat)) content unread
    rw [seen]
    exact .link waits

theorem takeHead (tracked : Tracked queue role inside free) {next : Nat}
    (isPlace : queue.place thread = .headCmpXchg cell next) (found : queue.prevHead = cell)
    (nonNull : next ≠ 0) (current : queue.next cell = next) :
    Kept queue inside { queue.move thread (.nextItem cell) with prevHead := next } := by
  have chain := tracked.chain.2.2
  rw [found, current] at chain
  cases inside with
  | nil => exact absurd chain nonNull
  | cons first rest =>
      have isFirst : next = first := chain.1
      have roleHere := tracked.insideRole
      have nodup := tracked.insideNodup
      rw [found] at roleHere nodup
      obtain ⟨absent, nodup⟩ := List.nodup_cons.mp nodup
      have inQueue : ∀ other ∈ first :: rest, other ≠ cell := by
        rintro other member rfl
        exact absent member
      have keep : ∀ other, other ≠ cell →
          Function.update role cell (.held thread) other = role other :=
        fun other different => Function.update_of_ne different _ _
      have others := @roles queue role thread (Function.update role cell (.held thread))
        queue.next [cell] (fun other notIn => keep other (by simpa using notIn))
        (fun other member one _ isHeld => by
          rw [List.mem_singleton.mp member, roleHere cell List.mem_cons_self] at isHeld
          cases isHeld) fun _ _ => rfl
      refine ⟨Function.update role cell (.held thread), rest, free, tracked.step rfl ?_ ?_
        (fun other member => ?_) tracked.freeChain tracked.freeNodup (fun other member => ?_) others
        (fun other member => ?_) trivial (fun other reads => Or.inr ?_) (fun _ => nofun)
        (tracked.known_update ?_) tracked.pages, Or.inr ⟨.take thread (queue.item next), ?_⟩⟩
      · rw [isFirst] at chain ⊢
        exact chain
      · rw [isFirst]
        exact nodup
      · rw [isFirst] at member
        rw [keep other (inQueue other member)]
        exact roleHere other (List.mem_cons_of_mem _ member)
      · have different : other ≠ cell := by
          rintro rfl
          have isFree := tracked.freeRole other member
          rw [roleHere other List.mem_cons_self] at isFree
          cases isFree
        rw [keep other different]
        exact tracked.freeRole other member
      · rw [List.mem_singleton.mp member, Function.update_self]
      · have isNext : queue.next cell = other := Option.some.inj reads
        rw [← isNext, current, isFirst]
        exact roleHere first (List.mem_cons_of_mem _ List.mem_cons_self)
      · rw [roleHere cell List.mem_cons_self]
        nofun
      · have waits : (queue.view (first :: rest)).waiting thread = none :=
          congrArg QueuePlace.waiting isPlace
        have idle : (queue.view (first :: rest)).reading thread = none :=
          congrArg (fun place => (place.reading queue.next).map queue.item) isPlace
        have content : (queue.view (first :: rest)).content =
            queue.item next :: rest.map queue.item := by
          rw [isFirst]
          rfl
        have seen : Queue.view { queue.move thread (.nextItem cell) with prevHead := next } rest =
            { queue.view (first :: rest) with
              content := rest.map queue.item
              reading := Function.update (queue.view (first :: rest)).reading thread
                (some (queue.item next)) } := by
          refine Eq.trans (tracked.view_eq rfl (fun _ _ _ _ => rfl) fun _ _ _ _ => rfl) ?_
          have unseen : Function.update (queue.view (first :: rest)).waiting thread none =
              (queue.view (first :: rest)).waiting := by
            rw [← waits, Function.update_eq_self]
          have reads : some (queue.item (queue.next cell)) = some (queue.item next) := by
            rw [current]
          exact congrArg₂ (fun waiting taken => ({ queue.view (first :: rest) with
            content := rest.map queue.item
            waiting := waiting
            reading := Function.update (queue.view (first :: rest)).reading thread taken } :
              QueueHistory Nat Nat)) unseen reads
        rw [seen]
        exact .take content idle

end Tracked

end DoggOS.Rt.Queue

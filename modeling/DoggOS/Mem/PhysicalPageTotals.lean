/-
The number of free pages over all ranges.

`k_mem_AllocPhysicalPage` takes a page from every range that has one and
returns the last page taken, so the total goes down by the number of these
ranges.  An allocation takes exactly the page it returns when at most one range
has free pages.
-/

import DoggOS.Mem.PhysicalPageBounds

namespace DoggOS.Mem

def freeTotal (ranges : List PRange) : Nat := (ranges.map PRange.freeCount).sum

def PRList.freeTotal (list : PRList) : Nat := Mem.freeTotal list.ranges

/-- What one allocation should do to the free pages and to the headers. -/
structure PRList.AllocConserves (list : PRList) (flags : Nat) : Prop where
  takesOne : (list.allocPhysicalPage flags).1 ≠ nullPage →
    (list.allocPhysicalPage flags).2.freeTotal + 1 = list.freeTotal
  marksOne : (list.allocPhysicalPage flags).1 ≠ nullPage →
    ∀ range ∈ list.ranges, ∀ index, index < range.pageCount →
      (range.flags (list.allocPhysicalPage flags).2.mem index ≠ range.flags list.mem index ↔
        range.pageAt index = (list.allocPhysicalPage flags).1)
  nullOnlyExhausted : (list.allocPhysicalPage flags).1 = nullPage →
    ∀ range ∈ list.ranges, range.freeCount = 0
  freeRestores : (list.allocPhysicalPage flags).1 ≠ nullPage →
    ∃ fuel freed, (list.allocPhysicalPage flags).2.freePhysicalPages fuel
      (list.allocPhysicalPage flags).1 = some freed ∧ freed.freeTotal = list.freeTotal

/-- At most one range has free pages; the page it gives is not the null page, and when it is the
last page of the range, the word after the header table does not continue its block. -/
structure PRList.OneSource (list : PRList) : Prop where
  single : list.tops.length ≤ 1
  nonNull : nullPage ∉ list.tops
  ends : ∀ page ∈ list.tops, ∀ range ∈ list.ranges, ∀ index, index + 1 = range.pageCount →
    page = range.pageAt index → range.flags list.mem range.pageCount % 4 ≠ 1

variable {ranges : List PRange} {mem : Nat → Nat}

theorem freeTotal_append (before after : List PRange) :
    freeTotal (before ++ after) = freeTotal before + freeTotal after := by
  unfold freeTotal
  rw [List.map_append, List.sum_append]

theorem freeTotal_pop (ranges : List PRange) :
    freeTotal (ranges.map PRange.pop) +
      ranges.countP (fun range => decide (range.freeCount ≠ 0)) = freeTotal ranges := by
  induction ranges with
  | nil => rfl
  | cons range rest ih =>
      unfold freeTotal at ih ⊢
      rw [List.map_cons, List.map_cons, List.map_cons, List.sum_cons, List.sum_cons,
        List.countP_cons]
      have popped : range.pop.freeCount = range.freeCount - 1 := rfl
      by_cases empty : range.freeCount = 0
      · have notCounted : decide (range.freeCount ≠ 0) = false := decide_eq_false (absurd empty)
        simp only [notCounted, Bool.false_eq_true, if_false]
        omega
      · have counted : decide (range.freeCount ≠ 0) = true := decide_eq_true empty
        simp only [counted, if_true]
        omega

theorem allocPages_exhausted (flags start : Nat) (empty : ∀ range ∈ ranges, range.freeCount = 0) :
    allocPages flags ranges start mem = (start, mem, ranges) := by
  induction ranges with
  | nil => rfl
  | cons range rest ih =>
      have here := empty range List.mem_cons_self
      have others := ih fun other member => empty other (List.mem_cons_of_mem _ member)
      rw [allocPages, if_neg (fun some => some here), others]

/-- With one source, its top is returned and its header is the only word that changes. -/
theorem allocPages_single {before after : List PRange} {range : PRange} (flags start : Nat)
    (emptyBefore : ∀ other ∈ before, other.freeCount = 0)
    (emptyAfter : ∀ other ∈ after, other.freeCount = 0) (some : range.freeCount ≠ 0) {page : Nat}
    (top : mem (range.freePages + (range.freeCount - 1)) = page) :
    allocPages flags (before ++ range :: after) start mem =
      (page, Function.update mem (range.usedPages + range.pageIndex page)
        (upage 0 (flags ||| pageFlagUsed ||| pageFlagHead)), before ++ range.pop :: after) := by
  induction before with
  | nil =>
      rw [List.nil_append, allocPages, if_pos some]
      simp only [top]
      rw [allocPages_exhausted flags page emptyAfter]
      rfl
  | cons first rest ih =>
      have here := emptyBefore first List.mem_cons_self
      have others := ih fun other member => emptyBefore other (List.mem_cons_of_mem _ member)
      rw [List.cons_append, allocPages, if_neg (fun nonzero => nonzero here), others]
      rfl

theorem releasePages_freeCount {fuel index page : Nat} {range released : PRange}
    {freed : Nat → Nat} (ran : releasePages fuel mem range index page = some (freed, released)) :
    range.freeCount < released.freeCount := by
  induction fuel generalizing mem range index page with
  | zero => cases ran
  | succ fuel ih =>
      rw [releasePages] at ran
      split at ran
      · have more : range.freeCount + 1 < released.freeCount := ih ran
        omega
      · have pair := Option.some.inj ran
        rw [← (Prod.mk.inj pair).2]
        exact Nat.lt_succ_self _

namespace PRList

variable {list : PRList} {range : PRange} {index : Nat}

theorem freeTotal_alloc (stacked : list.Stacked) (flags : Nat) :
    (list.allocPhysicalPage flags).2.freeTotal + list.tops.length = list.freeTotal := by
  obtain ⟨-, popped, -⟩ := stacked.allocPages flags nullPage
  have ranges : (list.allocPhysicalPage flags).2.ranges = list.ranges.map PRange.pop := popped
  unfold freeTotal
  rw [tops_length, ranges]
  exact freeTotal_pop list.ranges

private theorem freePhysicalPages_eq (stacked : list.Stacked) (member : range ∈ list.ranges)
    (inRange : index < range.pageCount) (nonNull : range.pageAt index ≠ nullPage) (fuel : Nat) :
    list.freePhysicalPages fuel (range.pageAt index) =
      (freePages fuel (range.pageAt index) list.mem list.ranges).map
        (fun freed => { mem := freed.1, ranges := freed.2 }) := by
  obtain ⟨aligned, word⟩ := stacked.managed_page ⟨range, member, index, inRange, rfl⟩
  have unmasked : range.pageAt index &&& addressMask4KB = range.pageAt index := by
    rw [and_addressMask _ word]
    omega
  unfold freePhysicalPages
  simp only [unmasked]
  rw [if_pos nonNull]

private theorem freeTotal_replaced {before after : List PRange} {range changed : PRange}
    (split : list.ranges = before ++ range :: after) :
    freeTotal { mem := mem, ranges := before ++ changed :: after } + range.freeCount = list.freeTotal + changed.freeCount := by
  unfold freeTotal
  rw [split, freeTotal_append, freeTotal_append]
  unfold Mem.freeTotal
  simp only [List.map_cons, List.sum_cons]
  omega

theorem free_restores (stacked : list.Stacked) (member : range ∈ list.ranges)
    (inRange : index < range.pageCount) (used : range.flags list.mem index % 4 = 3)
    (stops : range.flags list.mem (index + 1) % 4 ≠ 1) (nonNull : range.pageAt index ≠ nullPage) :
    ∃ fuel freed, list.freePhysicalPages fuel (range.pageAt index) = some freed ∧
      freed.freeTotal = list.freeTotal + 1 := by
  obtain ⟨before, after, mem', split, freed, -⟩ := stacked.freePages_used member inRange used stops
  refine ⟨1, { mem := mem', ranges := before ++ range.push :: after }, ?_, ?_⟩
  · rw [freePhysicalPages_eq stacked member inRange nonNull, freed 0]
    rfl
  · have replaced := @freeTotal_replaced mem' list before after range range.push split
    have pushed : range.push.freeCount = range.freeCount + 1 := rfl
    omega

/-- When the word after the header of the page continues its block, more than the page is freed. -/
theorem free_overruns (stacked : list.Stacked) (member : range ∈ list.ranges)
    (inRange : index < range.pageCount) (used : range.flags list.mem index % 4 = 3)
    (continues : range.flags list.mem (index + 1) % 4 = 1) (nonNull : range.pageAt index ≠ nullPage)
    {fuel : Nat} {freed : PRList}
    (ran : list.freePhysicalPages fuel (range.pageAt index) = some freed) :
    list.freeTotal + 1 < freed.freeTotal := by
  obtain ⟨before, after, split, found⟩ := stacked.freePages_found member inRange used
  rw [freePhysicalPages_eq stacked member inRange nonNull, found, Option.map_map] at ran
  obtain ⟨⟨mem', released⟩, turns, rfl⟩ := Option.map_eq_some_iff.mp ran
  cases fuel with
  | zero => cases turns
  | succ fuel =>
      rw [StackedRanges.releasePages_turn (stacked.stacked range member) inRange used,
        if_pos continues] at turns
      have more := releasePages_freeCount turns
      have replaced := @freeTotal_replaced mem' list before after range released split
      have pushed : range.push.freeCount = range.freeCount + 1 := rfl
      simp only [Function.comp]
      omega

structure Sole (list : PRList) (before : List PRange) (range : PRange) (after : List PRange)
    (index : Nat) : Prop where
  split : list.ranges = before ++ range :: after
  emptyBefore : ∀ other ∈ before, other.freeCount = 0
  emptyAfter : ∀ other ∈ after, other.freeCount = 0
  some : range.freeCount ≠ 0
  inRange : index < range.pageCount
  top : list.mem (range.freePages + (range.freeCount - 1)) = range.pageAt index
  tops : list.tops = [range.pageAt index]

theorem exists_sole (stacked : list.Stacked) (one : list.tops.length = 1) :
    ∃ before range after index, list.Sole before range after index := by
  have counted := tops_length list
  have positive : 0 < list.ranges.countP (fun range => decide (range.freeCount ≠ 0)) := by omega
  obtain ⟨range, member, some⟩ := List.countP_pos_iff.mp positive
  have nonempty : range.freeCount ≠ 0 := of_decide_eq_true some
  obtain ⟨before, after, split⟩ := List.append_of_mem member
  have total : before.countP (fun range => decide (range.freeCount ≠ 0)) +
      (after.countP (fun range => decide (range.freeCount ≠ 0)) + 1) = 1 := by
    rw [one, split, List.countP_append, List.countP_cons, if_pos some] at counted
    exact counted.symm
  have noBefore := List.countP_eq_zero.mp
    (show before.countP (fun range => decide (range.freeCount ≠ 0)) = 0 by omega)
  have noAfter := List.countP_eq_zero.mp
    (show after.countP (fun range => decide (range.freeCount ≠ 0)) = 0 by omega)
  have here := stacked.stacked range member
  obtain ⟨inRange, last, -⟩ := here.take nonempty 0 rfl
  obtain ⟨index, inTable, atIndex, -⟩ := (here.mem_freeList _).mp (List.mem_of_getLast? last)
  have isTop : range.pageAt index ∈ list.tops := by
    rw [← atIndex]
    exact List.mem_filterMap.mpr ⟨range, member, last⟩
  obtain ⟨only, onlyTop⟩ := List.length_eq_one_iff.mp one
  rw [onlyTop, List.mem_singleton] at isTop
  refine ⟨before, range, after, index, split, ?_, ?_, nonempty, inTable, atIndex, ?_⟩
  · intro other otherIn
    exact Decidable.of_not_not fun some => noBefore other otherIn (decide_eq_true some)
  · intro other otherIn
    exact Decidable.of_not_not fun some => noAfter other otherIn (decide_eq_true some)
  · rw [onlyTop, isTop]

namespace Sole

variable {before after : List PRange}

theorem member (sole : list.Sole before range after index) : range ∈ list.ranges := by
  rw [sole.split]
  simp

theorem alloc_eq (stacked : list.Stacked) (sole : list.Sole before range after index)
    (flags : Nat) :
    list.allocPhysicalPage flags = (range.pageAt index,
      { mem := Function.update list.mem (range.usedPages + index)
          (upage 0 (flags ||| pageFlagUsed ||| pageFlagHead))
        ranges := before ++ range.pop :: after }) := by
  have found := (stacked.stacked range sole.member).pageIndex_pageAt sole.inRange
  have single := allocPages_single flags nullPage sole.emptyBefore sole.emptyAfter sole.some sole.top
  rw [found] at single
  unfold allocPhysicalPage
  rw [sole.split, single]

theorem clear (stacked : list.Stacked) (sole : list.Sole before range after index) :
    range.flags list.mem index % 4 = 0 := by
  have here := stacked.stacked range sole.member
  obtain ⟨inRange, last, -⟩ := here.take sole.some 0 sole.top
  obtain ⟨place, -, atPlace, clear⟩ := (here.mem_freeList _).mp (List.mem_of_getLast? last)
  rw [PRange.Stacked.pageAt_inj range atPlace]
  exact clear

theorem marks (stacked : list.Stacked) (sole : list.Sole before range after index) (flags : Nat) :
    ∀ other ∈ list.ranges, ∀ place, place < other.pageCount →
      (other.flags (list.allocPhysicalPage flags).2.mem place ≠ other.flags list.mem place ↔
        other.pageAt place = range.pageAt index) := by
  intro other otherIn place inOther
  have here := stacked.stacked range sole.member
  have clear := sole.clear stacked
  rw [sole.alloc_eq stacked]
  constructor
  · intro changed
    apply Decidable.byContradiction
    intro different
    apply changed
    have elsewhere : other.usedPages + place ≠ range.usedPages + index := by
      by_cases same : other = range
      · intro sameWord
        subst same
        exact different (congrArg other.pageAt (by omega))
      · intro sameWord
        have apart := (stacked.separate.forall otherIn sole.member same).1
        have otherHere := stacked.stacked other otherIn
        refine apart (other.usedPages + place) ⟨otherHere.headers_region ?_, here.headers_region ?_⟩
        · simp only [PRange.headers, Extent.Contains, Extent.stop_mk]
          omega
        · have inRange := sole.inRange
          simp only [PRange.headers, Extent.Contains, Extent.stop_mk]
          omega
    exact congrArg upageFlags (Function.update_of_ne elsewhere _ _)
  · intro same
    have sameRange := stacked.range_unique otherIn sole.member inOther sole.inRange same
    subst sameRange
    have samePlace := PRange.Stacked.pageAt_inj other same
    subst samePlace
    have marked : other.flags (Function.update list.mem (other.usedPages + place)
        (upage 0 (flags ||| pageFlagUsed ||| pageFlagHead))) place % 4 = 3 := by
      unfold PRange.flags
      rw [Function.update_self]
      exact allocated_flags flags
    intro unchanged
    simp only at unchanged
    omega

theorem taken (stacked : list.Stacked) (sole : list.Sole before range after index) (flags : Nat) :
    range.pop ∈ (list.allocPhysicalPage flags).2.ranges ∧
      range.pop.flags (list.allocPhysicalPage flags).2.mem index % 4 = 3 ∧
      range.pop.flags (list.allocPhysicalPage flags).2.mem (index + 1) =
        range.flags list.mem (index + 1) := by
  rw [sole.alloc_eq stacked]
  refine ⟨by simp, ?_, ?_⟩
  · unfold PRange.flags
    simp only [PRange.pop]
    rw [Function.update_self]
    exact allocated_flags flags
  · have next : range.usedPages + (index + 1) ≠ range.usedPages + index := by omega
    exact congrArg upageFlags (Function.update_of_ne next _ _)

theorem oneSource_iff (stacked : list.Stacked) (sole : list.Sole before range after index) :
    list.OneSource ↔ range.pageAt index ≠ nullPage ∧
      range.flags list.mem (index + 1) % 4 ≠ 1 := by
  have here := stacked.stacked range sole.member
  constructor
  · intro source
    constructor
    · intro null
      apply source.nonNull
      rw [sole.tops, null]
      exact List.mem_singleton_self _
    · apply StackedRanges.next_stops here sole.inRange
      intro last
      apply source.ends (range.pageAt index) _ range sole.member index last rfl
      rw [sole.tops]
      exact List.mem_singleton_self _
  · intro both
    constructor
    · rw [sole.tops]
      exact Nat.le_refl 1
    · rw [sole.tops]
      intro null
      exact both.1 (List.mem_singleton.mp null).symm
    · intro page top other otherIn place last samePlace
      rw [sole.tops, List.mem_singleton] at top
      have same := samePlace.symm.trans top
      have sameRange := stacked.range_unique otherIn sole.member (by omega) sole.inRange same
      subst sameRange
      rw [← last, PRange.Stacked.pageAt_inj other same]
      exact both.2

theorem allocConserves_iff (stacked : list.Stacked) (sole : list.Sole before range after index)
    (flags : Nat) : list.AllocConserves flags ↔ range.pageAt index ≠ nullPage ∧
      range.flags list.mem (index + 1) % 4 ≠ 1 := by
  have page : (list.allocPhysicalPage flags).1 = range.pageAt index := by
    rw [sole.alloc_eq stacked]
  have total := freeTotal_alloc stacked flags
  rw [sole.tops, List.length_singleton] at total
  obtain ⟨-, afterStacked, -⟩ := stacked.alloc flags
  obtain ⟨member, used, next⟩ := sole.taken stacked flags
  constructor
  · intro conserves
    have nonNull : range.pageAt index ≠ nullPage := by
      intro null
      exact sole.some (conserves.nullOnlyExhausted (page.trans null) range sole.member)
    constructor
    · exact nonNull
    · intro continues
      obtain ⟨fuel, freed, ran, restored⟩ := conserves.freeRestores (by rw [page]; exact nonNull)
      rw [page] at ran
      have overrun := free_overruns afterStacked member sole.inRange used
        (by rw [next]; exact continues) nonNull ran
      omega
  · intro both
    obtain ⟨fuel, freed, ran, restored⟩ := free_restores afterStacked member sole.inRange used
      (by rw [next]; exact both.2) both.1
    constructor
    · intro _
      exact total
    · intro _
      rw [page]
      exact sole.marks stacked flags
    · intro null
      exact absurd (page.symm.trans null) both.1
    · intro _
      rw [page]
      exact ⟨fuel, freed, ran, by omega⟩

end Sole

theorem exhausted_iff : list.tops.length = 0 ↔ ∀ range ∈ list.ranges, range.freeCount = 0 := by
  rw [tops_length, List.countP_eq_zero]
  constructor
  · intro none range member
    exact Decidable.of_not_not fun some => none range member (decide_eq_true some)
  · intro exhausted range member some
    exact of_decide_eq_true some (exhausted range member)

/-- More than one page leaves the free stacks, or a page is taken and not returned. -/
theorem AllocConserves.single (stacked : list.Stacked) {flags : Nat}
    (conserves : list.AllocConserves flags) : list.tops.length ≤ 1 := by
  have total := freeTotal_alloc stacked flags
  by_cases null : (list.allocPhysicalPage flags).1 = nullPage
  · have none := exhausted_iff.mpr (conserves.nullOnlyExhausted null)
    omega
  · have one := conserves.takesOne null
    omega

theorem allocConserves_of_exhausted (stacked : list.Stacked) (none : list.tops.length = 0)
    (flags : Nat) : list.AllocConserves flags := by
  have null : (list.allocPhysicalPage flags).1 = nullPage := by
    rw [(stacked.alloc flags).1, List.length_eq_zero_iff.mp none]
    rfl
  constructor
  · intro nonNull
    exact absurd null nonNull
  · intro nonNull
    exact absurd null nonNull
  · intro _
    exact exhausted_iff.mp none
  · intro nonNull
    exact absurd null nonNull

theorem oneSource_of_exhausted (none : list.tops.length = 0) : list.OneSource := by
  have empty := List.length_eq_zero_iff.mp none
  constructor
  · omega
  · rw [empty]
    exact List.not_mem_nil
  · intro page top
    rw [empty] at top
    cases top

end PRList

/-- In a consistent state of any number of ranges, for any flags. -/
theorem allocPhysicalPage_conserves_iff (list : PRList) (stacked : list.Stacked) (flags : Nat) :
    list.AllocConserves flags ↔ list.OneSource := by
  by_cases few : list.tops.length ≤ 1
  · by_cases none : list.tops.length = 0
    · have conserves := PRList.allocConserves_of_exhausted stacked none flags
      have source := PRList.oneSource_of_exhausted none
      exact iff_of_true conserves source
    · obtain ⟨before, range, after, index, sole⟩ := PRList.exists_sole stacked (by omega)
      rw [sole.allocConserves_iff stacked, sole.oneSource_iff stacked]
  · constructor
    · intro conserves
      exact absurd (conserves.single stacked) few
    · intro source
      exact absurd source.single few

theorem allocPhysicalPage_conserves_iff_two :
    twoRanges.list.AllocConserves 0 ↔ twoRanges.list.OneSource :=
  allocPhysicalPage_conserves_iff twoRanges.list
    (PhysicalRun.tracked_start twoRanges_start).stacked 0

/-- With free pages in two ranges the first call takes one from each. -/
theorem allocPhysicalPage_takes_two :
    physicalMachine.start twoRanges ∧ ¬ twoRanges.list.AllocConserves 0 := by
  constructor
  · exact twoRanges_start
  · intro conserves
    exact absurd (conserves.takesOne (by decide)) (by decide)

end DoggOS.Mem

/-
Which header words a free of a physical page touches.

`k_mem_FreePhysicalPages` looks at the header after the page it has just freed
before it knows whether there is one.  The access lists repeat the two loops of
the free and note each index into the two arrays of a range.  A free stays
inside the arrays exactly when its page is not the last one of its range.
-/

import DoggOS.Mem.PhysicalPageRuns

namespace DoggOS.Mem

inductive HeaderArray where
  | freePages
  | usedPages
deriving DecidableEq, Repr

structure HeaderAccess where
  array : HeaderArray
  index : Nat
  pageCount : Nat
deriving DecidableEq, Repr

def releaseAccesses : Nat → (Nat → Nat) → PRange → Nat → Nat → List HeaderAccess
  | 0, _, _, _, _ => []
  | fuel + 1, mem, range, pageIndex, page =>
      let pushed := Function.update mem (range.freePages + range.freeCount) page
      let after := Function.update pushed (range.usedPages + pageIndex) (upage range.freeCount 0)
      let released := { range with freeCount := range.freeCount + 1 }
      let next := (pageIndex + 1) % wordLimit
      [⟨.freePages, range.freeCount, range.pageCount⟩, ⟨.usedPages, pageIndex, range.pageCount⟩,
        ⟨.usedPages, next, range.pageCount⟩] ++
        if released.flags after next &&& (pageFlagUsed ||| pageFlagHead) = pageFlagUsed then
          releaseAccesses fuel after released next ((page + addressOffset4KB) % wordLimit)
        else []

def freeAccesses (fuel page : Nat) (mem : Nat → Nat) : List PRange → List HeaderAccess
  | [] => []
  | range :: rest =>
      if range.baseAddress ≤ page ∧ range.pageIndex page < range.pageCount then
        ⟨.usedPages, range.pageIndex page, range.pageCount⟩ ::
          if range.flags mem (range.pageIndex page) &&& (pageFlagUsed ||| pageFlagHead) =
              pageFlagUsed ||| pageFlagHead then
            releaseAccesses fuel mem range (range.pageIndex page) page
          else freeAccesses fuel page mem rest
      else freeAccesses fuel page mem rest

def PRList.freeAccesses (list : PRList) (fuel page : Nat) : List HeaderAccess :=
  let page := page &&& addressMask4KB
  if page ≠ nullPage then Mem.freeAccesses fuel page list.mem list.ranges else []

/-- The free returns, touches elements of the arrays only and frees its own page only. -/
structure PRList.FreeStaysInside (list : PRList) (page : Nat) : Prop where
  inside : ∀ fuel, ∀ access ∈ list.freeAccesses fuel page, access.index < access.pageCount
  ownPage : ∃ freed, (∀ fuel, 0 < fuel → list.freePhysicalPages fuel page = some freed) ∧
    ∀ other, freed.Free other ↔ list.Free other ∨ other = page

/-- A step that frees a page in use does not free the last one of a range. -/
def FreesBeforeLast (run : PhysicalRun) : PhysicalCall → Prop
  | .alloc _ => True
  | .free page => ∀ range ∈ run.list.ranges, ∀ index, index < range.pageCount →
      pageOf page = range.pageAt index → range.flags run.list.mem index % 4 = 3 →
        index + 1 < range.pageCount

variable {ranges : List PRange} {mem : Nat → Nat}

private theorem releaseAccesses_stop {range : PRange} (stacked : range.Stacked mem) {index : Nat}
    (inside : index + 1 < range.pageCount) (used : range.flags mem index % 4 = 3) (fuel : Nat) :
    ∀ access ∈ releaseAccesses fuel mem range index (range.pageAt index),
      access.index < access.pageCount := by
  have inRange : index < range.pageCount := by omega
  have room := stacked.freeCount_lt inRange used
  have below := stacked.pageAt_lt inside
  unfold PRange.pageAt at below
  have next : (index + 1) % wordLimit = index + 1 := by
    unfold wordLimit
    omega
  have same := StackedRanges.released_flags stacked inRange used
  have stops := StackedRanges.next_stops stacked inRange (fun last => absurd last (by omega))
  intro access member
  cases fuel with
  | zero => cases member
  | succ fuel =>
      rw [releaseAccesses, next] at member
      simp only [and_usedHead] at member
      rw [if_neg] at member
      · simp only [List.append_nil, List.mem_cons, List.not_mem_nil, or_false] at member
        rcases member with push | clear | look
        · rw [push]
          exact room
        · rw [clear]
          exact inRange
        · rw [look]
          exact inside
      · intro continues
        apply stops
        rw [← same]
        exact continues

private theorem releaseAccesses_past {range : PRange} {index page : Nat}
    (last : index + 1 = range.pageCount) (small : range.pageCount < wordLimit) (fuel : Nat) :
    ⟨.usedPages, range.pageCount, range.pageCount⟩ ∈
      releaseAccesses (fuel + 1) mem range index page := by
  have next : (index + 1) % wordLimit = range.pageCount := by
    rw [last]
    exact Nat.mod_eq_of_lt small
  rw [releaseAccesses, next]
  simp

/-- A free of a page in use looks at its header and then releases it. -/
theorem freeAccesses_found (stacked : StackedRanges ranges mem) {range : PRange}
    (member : range ∈ ranges) {index : Nat} (inRange : index < range.pageCount)
    (used : range.flags mem index % 4 = 3) (fuel : Nat) :
    freeAccesses fuel (range.pageAt index) mem ranges =
      ⟨.usedPages, index, range.pageCount⟩ ::
        releaseAccesses fuel mem range index (range.pageAt index) := by
  induction ranges with
  | nil => cases member
  | cons first rest ih =>
      have firstStacked := stacked.stacked first List.mem_cons_self
      by_cases same : first = range
      · subst same
        have above : first.baseAddress ≤ first.pageAt index := Nat.le_add_right _ _
        have found := firstStacked.pageIndex_pageAt inRange
        have usedHead : first.flags mem index % 4 = pageFlagUsed ||| pageFlagHead := used
        rw [freeAccesses, found, and_usedHead, if_pos ⟨above, inRange⟩, if_pos usedHead]
      · have later : range ∈ rest := (List.mem_cons.mp member).resolve_left (Ne.symm same)
        have elsewhere := stacked.not_in_other List.mem_cons_self member inRange same
        rw [freeAccesses, if_neg elsewhere]
        exact ih stacked.tail later

namespace PRList.Stacked

variable {list : PRList} {range : PRange} {index : Nat}

private theorem freeAccesses_eq (stacked : list.Stacked) (member : range ∈ list.ranges)
    (inRange : index < range.pageCount) (used : range.flags list.mem index % 4 = 3)
    (nonNull : range.pageAt index ≠ nullPage) (fuel : Nat) :
    list.freeAccesses fuel (range.pageAt index) =
      ⟨.usedPages, index, range.pageCount⟩ ::
        releaseAccesses fuel list.mem range index (range.pageAt index) := by
  obtain ⟨aligned, word⟩ := stacked.managed_page ⟨range, member, index, inRange, rfl⟩
  have unmasked : range.pageAt index &&& addressMask4KB = range.pageAt index := by
    rw [and_addressMask _ word]
    omega
  unfold PRList.freeAccesses
  simp only [unmasked]
  rw [if_pos nonNull]
  exact freeAccesses_found stacked member inRange used fuel

/-- In a consistent state the page decides, not what follows the header table. -/
theorem freeStaysInside_iff (stacked : list.Stacked) (member : range ∈ list.ranges)
    (inRange : index < range.pageCount) (used : range.flags list.mem index % 4 = 3)
    (nonNull : range.pageAt index ≠ nullPage) :
    list.FreeStaysInside (range.pageAt index) ↔ index + 1 < range.pageCount := by
  have here := stacked.stacked range member
  have accesses := stacked.freeAccesses_eq member inRange used nonNull
  constructor
  · intro stays
    apply Nat.lt_of_not_le
    intro atEnd
    have last : index + 1 = range.pageCount := by omega
    have fits := here.fits
    simp only [PRange.pages, Extent.stop_mk] at fits
    have past : ⟨.usedPages, range.pageCount, range.pageCount⟩ ∈
        list.freeAccesses 1 (range.pageAt index) := by
      rw [accesses]
      apply List.mem_cons_of_mem
      exact releaseAccesses_past last (by unfold wordLimit; omega) 0
    have impossible := stays.inside 1 _ past
    exact absurd impossible (Nat.lt_irrefl _)
  · intro inside
    constructor
    · intro fuel access touched
      rw [accesses] at touched
      rcases List.mem_cons.mp touched with first | later
      · rw [first]
        exact inRange
      · exact releaseAccesses_stop here inside used fuel access later
    · have ends : list.EndsAt (range.pageAt index) := by
        intro other otherIn place inOther same _
        have sameRange := stacked.range_unique member otherIn inRange inOther same
        subst sameRange
        rw [← PRange.Stacked.pageAt_inj range same]
        exact StackedRanges.next_stops here inRange (fun last => absurd last (by omega))
      obtain ⟨freed, returns, -, free, -⟩ :=
        stacked.free ends nonNull ⟨range, member, index, inRange, rfl, used⟩
      exact ⟨freed, returns, free⟩

end PRList.Stacked

/-- In every run that frees no last page of a range, a free of any page in use stays inside the
arrays exactly when that page is not a last one. -/
theorem freePhysicalPages_staysInside (run : PhysicalRun)
    (reachable : (physicalMachine.restrict FreesBeforeLast).Reachable run) :
    ∀ range ∈ run.list.ranges, ∀ index, index < range.pageCount →
      range.flags run.list.mem index % 4 = 3 → range.pageAt index ≠ nullPage →
        (run.list.FreeStaysInside (range.pageAt index) ↔ index + 1 < range.pageCount) := by
  have tracked : run.Tracked := by
    apply Machine.invariant _ _ _ reachable
    · intro first initial
      exact PhysicalRun.tracked_start initial
    · intro before label after tracked moved
      obtain ⟨inside, step⟩ := moved
      cases label with
      | alloc flags =>
          have same : after = before.alloc flags := step
          rw [same]
          exact tracked.alloc flags
      | free page =>
          obtain ⟨word, fuel, list, ran, rfl⟩ := step
          have ends : before.list.EndsAt (pageOf page) := by
            intro range member index inRange same used
            have next := inside range member index inRange same used
            exact StackedRanges.next_stops (tracked.stacked.stacked range member) inRange
              (fun last => absurd last (by omega))
          obtain ⟨result, freed, newTracked⟩ := tracked.free word ends
          rw [freed _ (Nat.succ_pos fuel), Option.some_inj] at ran
          rw [← ran]
          exact newTracked
  intro range member index inRange used nonNull
  exact tracked.stacked.freeStaysInside_iff member inRange used nonNull

theorem freePhysicalPages_staysInside_first :
    ((twoRanges.alloc 0).alloc 0).list.FreeStaysInside 4096 := by
  have reachable : (physicalMachine.restrict FreesBeforeLast).Reachable
      ((twoRanges.alloc 0).alloc 0) := by
    have atStart := Machine.reachable_start (physicalMachine.restrict FreesBeforeLast) twoRanges_start
    have once := Machine.reachable_step _ atStart
      (show FreesBeforeLast twoRanges (.alloc 0) ∧ twoRanges.alloc 0 = _ from ⟨trivial, rfl⟩)
    exact Machine.reachable_step _ once
      (show FreesBeforeLast (twoRanges.alloc 0) (.alloc 0) ∧ (twoRanges.alloc 0).alloc 0 = _ from
        ⟨trivial, rfl⟩)
  exact (freePhysicalPages_staysInside _ reachable ⟨4096, 0, 2, 0, 2⟩ (by decide) 0 (by decide)
    (by decide) (by decide)).mpr (by decide)

/-- The only page of the second range: the free looks at the word after its header table. -/
theorem freePhysicalPages_leaves_table :
    physicalMachine.Reachable (twoRanges.alloc 0) ∧ 65536 ∈ (twoRanges.alloc 0).owned ∧
      ¬ (twoRanges.alloc 0).list.FreeStaysInside 65536 := by
  refine ⟨?_, by decide, ?_⟩
  · have atStart := Machine.reachable_start physicalMachine twoRanges_start
    have step : physicalMachine.step twoRanges (.alloc 0) (twoRanges.alloc 0) := rfl
    exact Machine.reachable_step _ atStart step
  · intro stays
    have past : ⟨.usedPages, 1, 1⟩ ∈ (twoRanges.alloc 0).list.freeAccesses 1 65536 := by decide
    exact absurd (stays.inside 1 _ past) (by decide)

end DoggOS.Mem

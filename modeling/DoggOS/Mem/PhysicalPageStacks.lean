/-
The two representations of one physical range, kept in step.

`Stacked range mem` says that the free stack holds each page whose used flag is
clear, exactly once, and that a used page is always the head of its block.
Popping a page and releasing one keep it, and both stay inside the words of the
range, so the ranges of one header block never disturb each other.
-/

import DoggOS.Library.Extent
import DoggOS.Mem.PhysicalPages
import Mathlib.Data.List.Nodup
import Mathlib.Data.List.Perm.Subperm
import Mathlib.Tactic.IntervalCases

namespace DoggOS.Mem

theorem upageFlags_upage (index flags : Nat) : upageFlags (upage index flags) = flags % 2 ^ 8 := by
  unfold upageFlags upage
  omega

/-- The allocation flags always make a used head. -/
theorem allocated_flags (flags : Nat) :
    upageFlags (upage 0 (flags ||| pageFlagUsed ||| pageFlagHead)) % 4 = 3 := by
  have low : (flags ||| pageFlagUsed ||| pageFlagHead) % 4 = 3 := by
    unfold pageFlagUsed pageFlagHead
    have first := Bits.or_mod (flags ||| 1) 2 2
    have second := Bits.or_mod flags 1 2
    have bounded : flags % 4 < 4 := Nat.mod_lt _ (by omega)
    norm_num at first second
    rw [first, second]
    generalize flags % 4 = rest at bounded
    interval_cases rest <;> rfl
  rw [upageFlags_upage]
  omega

theorem and_usedHead (flags : Nat) :
    flags &&& (pageFlagUsed ||| pageFlagHead) = flags % 4 :=
  Bits.and_low flags 2

namespace PRange

variable {range : PRange} {mem : Nat → Nat}

def region (range : PRange) : Extent := ⟨range.freePages, range.pageCount + range.pageCount⟩

def pages (range : PRange) : Extent := ⟨range.baseAddress, range.pageCount * 4096⟩

def pop (range : PRange) : PRange := { range with freeCount := range.freeCount - 1 }

def push (range : PRange) : PRange := { range with freeCount := range.freeCount + 1 }

def pageAt (range : PRange) (index : Nat) : Nat := range.baseAddress + index * 4096

structure Stacked (range : PRange) (mem : Nat → Nat) : Prop where
  aligned : range.baseAddress % 4096 = 0
  fits : range.pages.stop ≤ 2 ^ 32
  adjacent : range.usedPages = range.freePages + range.pageCount
  headed : ∀ index, index < range.pageCount →
    range.flags mem index % 4 = 0 ∨ range.flags mem index % 4 = 3
  nodup : (range.freeList mem).Nodup
  mem_freeList : ∀ page, page ∈ range.freeList mem ↔
    ∃ index, index < range.pageCount ∧ page = range.pageAt index ∧ range.flags mem index % 4 = 0

@[simp] theorem pop_region (range : PRange) : range.pop.region = range.region := rfl
@[simp] theorem pop_pages (range : PRange) : range.pop.pages = range.pages := rfl
@[simp] theorem push_region (range : PRange) : range.push.region = range.region := rfl
@[simp] theorem push_pages (range : PRange) : range.push.pages = range.pages := rfl
@[simp] theorem pop_flags (range : PRange) : range.pop.flags = range.flags := rfl
@[simp] theorem push_flags (range : PRange) : range.push.flags = range.flags := rfl

theorem freeList_length (range : PRange) (mem : Nat → Nat) :
    (range.freeList mem).length = range.freeCount := by
  simp [freeList]

theorem freeList_push (range : PRange) (mem : Nat → Nat) :
    range.push.freeList mem = range.freeList mem ++ [mem (range.freePages + range.freeCount)] := by
  simp [freeList, push, List.range_succ]

theorem freeList_pop (range : PRange) (mem : Nat → Nat) :
    range.pop.freeList mem = (range.freeList mem).dropLast := by
  unfold freeList pop
  rw [← List.map_dropLast]
  congr 1
  cases range.freeCount with
  | zero => rfl
  | succ count => simp [List.range_succ]

theorem freeList_frame {mem' : Nat → Nat} (bounded : range.freeCount ≤ range.pageCount)
    (agree : ∀ slot, slot < range.pageCount →
      mem' (range.freePages + slot) = mem (range.freePages + slot)) :
    range.freeList mem' = range.freeList mem := by
  refine List.map_congr_left fun slot inRange => agree slot ?_
  have below := List.mem_range.mp inRange
  omega

namespace Stacked

theorem pageAt_inj (range : PRange) {one two : Nat} (same : range.pageAt one = range.pageAt two) :
    one = two := by
  unfold pageAt at same
  omega

theorem pageAt_lt (stacked : range.Stacked mem) {index : Nat} (inRange : index < range.pageCount) :
    range.pageAt index < 2 ^ 32 := by
  have fits := stacked.fits
  simp only [pages, Extent.stop_mk] at fits
  unfold pageAt
  omega

theorem pageIndex_pageAt (stacked : range.Stacked mem) {index : Nat}
    (inRange : index < range.pageCount) : range.pageIndex (range.pageAt index) = index := by
  have below := stacked.pageAt_lt inRange
  unfold pageAt at below
  unfold pageIndex pageAt wordLimit
  rw [shiftRight_pageShift]
  omega

theorem pageAt_pageIndex (stacked : range.Stacked mem) {page : Nat} (pageAligned : page % 4096 = 0)
    (word : page < 2 ^ 32) (above : range.baseAddress ≤ page) :
    range.pageAt (range.pageIndex page) = page := by
  have aligned := stacked.aligned
  unfold pageAt pageIndex wordLimit
  rw [shiftRight_pageShift]
  omega

theorem freeList_pages (stacked : range.Stacked mem) {page : Nat}
    (listed : page ∈ range.freeList mem) : range.pages.Contains page := by
  obtain ⟨index, inRange, same, -⟩ := (stacked.mem_freeList page).mp listed
  simp only [pages, Extent.Contains, Extent.stop_mk, pageAt] at same ⊢
  omega

/-- Every listed page, and any used page besides, has its own place in the table. -/
theorem freeCount_le (stacked : range.Stacked mem) : range.freeCount ≤ range.pageCount := by
  have inTable : range.freeList mem ⊆ (List.range range.pageCount).map range.pageAt := by
    intro page member
    obtain ⟨index, inRange, same, -⟩ := (stacked.mem_freeList page).mp member
    exact List.mem_map.mpr ⟨index, List.mem_range.mpr inRange, same.symm⟩
  have counted := (List.subperm_of_subset stacked.nodup inTable).length_le
  simpa [freeList_length] using counted

theorem freeCount_lt (stacked : range.Stacked mem) {index : Nat} (inRange : index < range.pageCount)
    (used : range.flags mem index % 4 = 3) : range.freeCount < range.pageCount := by
  have absent : range.pageAt index ∉ range.freeList mem := by
    intro member
    obtain ⟨other, -, same, clear⟩ := (stacked.mem_freeList _).mp member
    rw [← pageAt_inj range same] at clear
    omega
  have inTable : range.pageAt index :: range.freeList mem ⊆
      (List.range range.pageCount).map range.pageAt := by
    intro page member
    rcases List.mem_cons.mp member with here | listed
    · exact List.mem_map.mpr ⟨index, List.mem_range.mpr inRange, here.symm⟩
    · obtain ⟨other, otherIn, same, -⟩ := (stacked.mem_freeList page).mp listed
      exact List.mem_map.mpr ⟨other, List.mem_range.mpr otherIn, same.symm⟩
  have counted := (List.subperm_of_subset
    (List.nodup_cons.mpr ⟨absent, stacked.nodup⟩) inTable).length_le
  simpa [freeList_length, Nat.succ_le_iff] using counted

theorem frame (stacked : range.Stacked mem) {mem' : Nat → Nat}
    (agree : ∀ address, range.region.Contains address → mem' address = mem address) :
    range.Stacked mem' ∧ range.freeList mem' = range.freeList mem := by
  have adjacent := stacked.adjacent
  have sameFlags : ∀ index, index < range.pageCount →
      range.flags mem' index = range.flags mem index := by
    intro index inRange
    unfold flags
    rw [agree _ (by simp only [region, Extent.Contains, Extent.stop_mk]; omega)]
  have sameList : range.freeList mem' = range.freeList mem := by
    refine freeList_frame stacked.freeCount_le fun slot inRange => agree _ ?_
    simp only [region, Extent.Contains, Extent.stop_mk]
    omega
  refine ⟨⟨stacked.aligned, stacked.fits, adjacent, ?_, ?_, ?_⟩, sameList⟩
  · intro index inRange
    rw [sameFlags index inRange]
    exact stacked.headed index inRange
  · rw [sameList]
    exact stacked.nodup
  · intro page
    rw [sameList, stacked.mem_freeList]
    refine exists_congr fun index => and_congr_right fun inRange => ?_
    rw [sameFlags index inRange]

theorem take (stacked : range.Stacked mem) (nonempty : range.freeCount ≠ 0) (flags : Nat)
    {page : Nat} (top : mem (range.freePages + (range.freeCount - 1)) = page) :
    range.pageIndex page < range.pageCount ∧ (range.freeList mem).getLast? = some page ∧
      range.pop.Stacked (Function.update mem (range.usedPages + range.pageIndex page)
        (upage 0 (flags ||| pageFlagUsed ||| pageFlagHead))) ∧
      range.pop.freeList (Function.update mem (range.usedPages + range.pageIndex page)
        (upage 0 (flags ||| pageFlagUsed ||| pageFlagHead))) = (range.freeList mem).dropLast := by
  have adjacent := stacked.adjacent
  have bounded := stacked.freeCount_le
  have whole : range.freeList mem = range.pop.freeList mem ++ [page] := by
    have restored : range.pop.push = range := by
      unfold push pop
      rw [Nat.sub_add_cancel (by omega)]
    rw [← top]
    exact (congrArg (fun range => freeList range mem) restored).symm.trans (freeList_push _ mem)
  obtain ⟨index, inRange, atIndex, clear⟩ :=
    (stacked.mem_freeList page).mp (by rw [whole]; simp)
  have found : range.pageIndex page = index := by
    rw [atIndex]
    exact stacked.pageIndex_pageAt inRange
  rw [found]
  obtain ⟨mem', memEq⟩ : ∃ mem', mem' = Function.update mem (range.usedPages + index)
      (upage 0 (flags ||| pageFlagUsed ||| pageFlagHead)) := ⟨_, rfl⟩
  rw [← memEq]
  have marked : range.flags mem' index % 4 = 3 := by
    unfold PRange.flags
    rw [memEq, Function.update_self]
    exact allocated_flags flags
  have others : ∀ other, other ≠ index → range.flags mem' other = range.flags mem other := by
    intro other different
    unfold PRange.flags
    rw [memEq, Function.update_of_ne (by omega)]
  have sameList : range.pop.freeList mem' = range.pop.freeList mem := by
    refine freeList_frame (by unfold pop; simp only; omega) fun slot below => ?_
    rw [memEq]
    refine Function.update_of_ne ?_ _ _
    unfold pop at below ⊢
    simp only at below ⊢
    omega
  have nodup := stacked.nodup
  rw [whole] at nodup
  obtain ⟨restNodup, -, apart⟩ := List.nodup_append.mp nodup
  refine ⟨inRange, by rw [whole]; simp, ⟨stacked.aligned, stacked.fits, adjacent, ?_, ?_, ?_⟩, ?_⟩
  · intro other otherIn
    by_cases same : other = index
    · exact Or.inr (same ▸ marked)
    · rw [pop_flags, others other same]
      exact stacked.headed other otherIn
  · rw [sameList]
    exact restNodup
  · intro other
    have listed := stacked.mem_freeList other
    rw [whole, List.mem_append, List.mem_singleton] at listed
    rw [sameList, pop_flags]
    constructor
    · intro member
      obtain ⟨place, placeIn, atPlace, placeClear⟩ := listed.mp (Or.inl member)
      have different : place ≠ index := by
        intro same
        refine apart other member page (by simp) ?_
        rw [atPlace, atIndex, same]
      exact ⟨place, placeIn, atPlace, by rwa [others place different]⟩
    · rintro ⟨place, placeIn, atPlace, placeClear⟩
      have different : place ≠ index := by
        intro same
        rw [same] at placeClear
        omega
      rw [others place different] at placeClear
      rcases listed.mpr ⟨place, placeIn, atPlace, placeClear⟩ with member | same
      · exact member
      · exact absurd (pageAt_inj range (atPlace.symm.trans (same.trans atIndex))) different
  · rw [sameList, freeList_pop]

theorem release (stacked : range.Stacked mem) {index : Nat} (inRange : index < range.pageCount)
    (used : range.flags mem index % 4 = 3) :
    range.push.Stacked (Function.update
        (Function.update mem (range.freePages + range.freeCount) (range.pageAt index))
        (range.usedPages + index) (upage range.freeCount 0)) ∧
      range.push.freeList (Function.update
        (Function.update mem (range.freePages + range.freeCount) (range.pageAt index))
        (range.usedPages + index) (upage range.freeCount 0)) =
          range.freeList mem ++ [range.pageAt index] := by
  have adjacent := stacked.adjacent
  have room := stacked.freeCount_lt inRange used
  obtain ⟨mem', memEq⟩ : ∃ mem', mem' = Function.update
      (Function.update mem (range.freePages + range.freeCount) (range.pageAt index))
      (range.usedPages + index) (upage range.freeCount 0) := ⟨_, rfl⟩
  rw [← memEq]
  have cleared : range.flags mem' index = 0 := by
    unfold PRange.flags
    rw [memEq, Function.update_self, upageFlags_upage, Nat.zero_mod]
  have others : ∀ other, other ≠ index → range.flags mem' other = range.flags mem other := by
    intro other different
    unfold PRange.flags
    rw [memEq, Function.update_of_ne (by omega), Function.update_of_ne (by omega)]
  have newList : range.push.freeList mem' = range.freeList mem ++ [range.pageAt index] := by
    have kept : range.freeList mem' = range.freeList mem := by
      refine List.map_congr_left fun slot member => ?_
      have below := List.mem_range.mp member
      rw [memEq, Function.update_of_ne (by omega), Function.update_of_ne (by omega)]
    rw [freeList_push, kept, memEq, Function.update_of_ne (by omega), Function.update_self]
  have absent : range.pageAt index ∉ range.freeList mem := by
    intro member
    obtain ⟨other, -, same, clear⟩ := (stacked.mem_freeList _).mp member
    rw [← pageAt_inj range same] at clear
    omega
  refine ⟨⟨stacked.aligned, stacked.fits, adjacent, ?_, ?_, ?_⟩, newList⟩
  · intro other otherIn
    rw [push_flags]
    by_cases same : other = index
    · rw [same, cleared]
      exact Or.inl rfl
    · rw [others other same]
      exact stacked.headed other otherIn
  · rw [newList]
    refine List.nodup_append.mpr ⟨stacked.nodup, by simp, fun one member two here same => ?_⟩
    rw [List.mem_singleton] at here
    exact absent (here ▸ same ▸ member)
  · intro page
    rw [newList, List.mem_append, List.mem_singleton, stacked.mem_freeList, push_flags]
    constructor
    · rintro (⟨place, placeIn, atPlace, clear⟩ | here)
      · have different : place ≠ index := by
          intro same
          rw [same] at clear
          omega
        exact ⟨place, placeIn, atPlace, by rwa [others place different]⟩
      · exact ⟨index, inRange, here, by rw [cleared]⟩
    · rintro ⟨place, placeIn, atPlace, clear⟩
      by_cases same : place = index
      · exact Or.inr (same ▸ atPlace)
      · rw [others place same] at clear
        exact Or.inl ⟨place, placeIn, atPlace, clear⟩

end Stacked

end PRange

end DoggOS.Mem

/-
The physical allocator as two sets of pages, the free and the held ones.

Which range a page comes from does not matter to the rest of the kernel.  An
allocation removes the top of every stack from the free set and returns the
last of these tops; a free of a held page puts exactly that page back.
-/

import DoggOS.Mem.PhysicalPageLists

namespace DoggOS.Mem

def PRange.Holds (range : PRange) (mem : Nat → Nat) (page : Nat) : Prop :=
  ∃ index, index < range.pageCount ∧ page = range.pageAt index ∧ range.flags mem index % 4 = 3

theorem PRange.Stacked.holds_iff {range : PRange} {mem : Nat → Nat} (stacked : range.Stacked mem)
    (page : Nat) : range.Holds mem page ↔
      (∃ index, index < range.pageCount ∧ page = range.pageAt index) ∧
        page ∉ range.freeList mem := by
  constructor
  · rintro ⟨index, inRange, same, used⟩
    refine ⟨⟨index, inRange, same⟩, fun free => ?_⟩
    obtain ⟨other, -, otherSame, clear⟩ := (stacked.mem_freeList page).mp free
    have sameIndex := pageAt_inj range (same.symm.trans otherSame)
    rw [sameIndex] at used
    omega
  · rintro ⟨⟨index, inRange, same⟩, notFree⟩
    refine ⟨index, inRange, same, ?_⟩
    rcases stacked.headed index inRange with clear | used
    · exact absurd ((stacked.mem_freeList page).mpr ⟨index, inRange, same, clear⟩) notFree
    · exact used

def pageOf (address : Nat) : Nat := address - address % 4096

namespace PRList

variable {list : PRList} {page : Nat}

def Stacked (list : PRList) : Prop := StackedRanges list.ranges list.mem

def PastWordsOk (list : PRList) : Prop := PastOk list.ranges list.mem

def Free (list : PRList) (page : Nat) : Prop := ∃ range ∈ list.ranges, page ∈ range.freeList list.mem

def Managed (list : PRList) (page : Nat) : Prop :=
  ∃ range ∈ list.ranges, ∃ index, index < range.pageCount ∧ page = range.pageAt index

def Held (list : PRList) (page : Nat) : Prop := ∃ range ∈ list.ranges, range.Holds list.mem page

/-- The header after the page, when it is in use, does not continue its block. -/
def EndsAt (list : PRList) (page : Nat) : Prop :=
  ∀ range ∈ list.ranges, ∀ index, index < range.pageCount → page = range.pageAt index →
    range.flags list.mem index % 4 = 3 → range.flags list.mem (index + 1) % 4 ≠ 1

def tops (list : PRList) : List Nat :=
  list.ranges.filterMap (fun range => (range.freeList list.mem).getLast?)

theorem free_of_top (top : page ∈ list.tops) : list.Free page := by
  obtain ⟨range, member, last⟩ := List.mem_filterMap.mp top
  exact ⟨range, member, List.mem_of_getLast? last⟩

theorem tops_length (list : PRList) :
    list.tops.length = list.ranges.countP (fun range => decide (range.freeCount ≠ 0)) := by
  unfold tops
  rw [List.length_filterMap_eq_countP]
  refine List.countP_congr fun range member => ?_
  have sized := PRange.freeList_length range list.mem
  cases listed : range.freeList list.mem with
  | nil =>
      rw [listed, List.length_nil] at sized
      simp [← sized]
  | cons first rest =>
      rw [listed, List.length_cons] at sized
      simp [← sized]

namespace Stacked

theorem free_in (stacked : list.Stacked) {range : PRange} (member : range ∈ list.ranges)
    {index : Nat} (inRange : index < range.pageCount) (same : page = range.pageAt index)
    (free : list.Free page) : page ∈ range.freeList list.mem := by
  obtain ⟨other, otherIn, listed⟩ := free
  obtain ⟨place, inOther, samePlace, -⟩ :=
    ((stacked.stacked other otherIn).mem_freeList page).mp listed
  have sameRange := stacked.range_unique otherIn member inOther inRange (samePlace.symm.trans same)
  exact sameRange ▸ listed

theorem free_managed (stacked : list.Stacked) (free : list.Free page) : list.Managed page := by
  obtain ⟨range, member, listed⟩ := free
  obtain ⟨index, inRange, same, -⟩ := ((stacked.stacked range member).mem_freeList page).mp listed
  exact ⟨range, member, index, inRange, same⟩

theorem held_iff (stacked : list.Stacked) (page : Nat) :
    list.Held page ↔ list.Managed page ∧ ¬ list.Free page := by
  constructor
  · rintro ⟨range, member, holds⟩
    obtain ⟨⟨index, inRange, same⟩, notListed⟩ :=
      ((stacked.stacked range member).holds_iff page).mp holds
    exact ⟨⟨range, member, index, inRange, same⟩,
      fun free => notListed (stacked.free_in member inRange same free)⟩
  · rintro ⟨⟨range, member, index, inRange, same⟩, notFree⟩
    refine ⟨range, member, ((stacked.stacked range member).holds_iff page).mpr
      ⟨⟨index, inRange, same⟩, fun listed => notFree ⟨range, member, listed⟩⟩⟩

theorem managed_page (stacked : list.Stacked) (managed : list.Managed page) :
    page % 4096 = 0 ∧ page < 2 ^ 32 := by
  obtain ⟨range, member, index, inRange, same⟩ := managed
  have rangeStacked := stacked.stacked range member
  have aligned := rangeStacked.aligned
  refine ⟨?_, same ▸ rangeStacked.pageAt_lt inRange⟩
  rw [same]
  unfold PRange.pageAt
  omega

theorem tops_nodup (stacked : list.Stacked) : list.tops.Nodup := by
  refine List.Pairwise.filterMap (R := fun one two : PRange => one ∈ list.ranges ∧
    two ∈ list.ranges ∧ one.pages.Disjoint two.pages) _ ?_ ?_
  · rintro one two ⟨oneIn, twoIn, apart⟩ page lastOne other lastTwo same
    subst same
    exact apart page
      ⟨(stacked.stacked one oneIn).freeList_pages (List.mem_of_getLast? lastOne),
        (stacked.stacked two twoIn).freeList_pages (List.mem_of_getLast? lastTwo)⟩
  · exact List.Pairwise.imp_of_mem (fun oneIn twoIn separate => ⟨oneIn, twoIn, separate.2⟩)
      stacked.separate

theorem freeLists_nodup (stacked : list.Stacked) :
    (list.ranges.flatMap fun range => range.freeList list.mem).Nodup := by
  refine List.nodup_flatMap.mpr
    ⟨fun range member => (stacked.stacked range member).nodup, stacked.separate.imp_of_mem ?_⟩
  intro one two oneIn twoIn separate page inOne inTwo
  exact separate.2 page ⟨(stacked.stacked one oneIn).freeList_pages inOne,
    (stacked.stacked two twoIn).freeList_pages inTwo⟩

/-- `k_mem_AllocPhysicalPage` takes the tops out of the free set and returns the last one. -/
theorem alloc (stacked : list.Stacked) (flags : Nat) :
    (list.allocPhysicalPage flags).1 = list.tops.getLastD nullPage ∧
      (list.allocPhysicalPage flags).2.Stacked ∧
      (∀ page, (list.allocPhysicalPage flags).2.Free page ↔
        list.Free page ∧ page ∉ list.tops) ∧
      (∀ page, (list.allocPhysicalPage flags).2.Managed page ↔ list.Managed page) ∧
      (list.PastWordsOk → (list.allocPhysicalPage flags).2.PastWordsOk) := by
  obtain ⟨returned, popped, after, lists, outside⟩ := stacked.allocPages flags nullPage
  have ranges : (list.allocPhysicalPage flags).2.ranges = list.ranges.map PRange.pop := popped
  have afterStacked : (list.allocPhysicalPage flags).2.Stacked := by
    unfold Stacked
    rw [ranges]
    exact after
  refine ⟨returned, afterStacked, fun page => ⟨?_, ?_⟩, fun page => ⟨?_, ?_⟩, ?_⟩
  · rintro ⟨poppedRange, poppedIn, listed⟩
    rw [ranges] at poppedIn
    obtain ⟨range, member, rfl⟩ := List.mem_map.mp poppedIn
    have inRest : page ∈ (range.freeList list.mem).dropLast := lists range member ▸ listed
    have wasListed := (List.dropLast_sublist _).subset inRest
    refine ⟨⟨range, member, wasListed⟩, fun top => ?_⟩
    obtain ⟨other, otherIn, last⟩ := List.mem_filterMap.mp top
    obtain ⟨index, inRange, same, -⟩ :=
      ((stacked.stacked other otherIn).mem_freeList page).mp (List.mem_of_getLast? last)
    obtain ⟨place, inPlace, samePlace, -⟩ :=
      ((stacked.stacked range member).mem_freeList page).mp wasListed
    have sameRange := stacked.range_unique otherIn member inRange inPlace (same.symm.trans samePlace)
    subst sameRange
    have nodup := (stacked.stacked other otherIn).nodup
    rw [← List.dropLast_append_getLast? page last] at nodup
    exact (List.nodup_append.mp nodup).2.2 page inRest page (by simp) rfl
  · rintro ⟨⟨range, member, listed⟩, notTop⟩
    refine ⟨range.pop, by rw [ranges]; exact List.mem_map_of_mem member, ?_⟩
    have whole : page ∈ (range.freeList list.mem).dropLast := by
      cases last : (range.freeList list.mem).getLast? with
      | none =>
          rw [List.getLast?_eq_none_iff.mp last] at listed
          cases listed
      | some top =>
          rw [← List.dropLast_append_getLast? top last] at listed
          rcases List.mem_append.mp listed with inRest | isTop
          · exact inRest
          · rw [List.mem_singleton.mp isTop] at notTop
            exact absurd (List.mem_filterMap.mpr ⟨range, member, last⟩) notTop
    exact (lists range member).symm ▸ whole
  · rintro ⟨poppedRange, poppedIn, index, inRange, same⟩
    rw [ranges] at poppedIn
    obtain ⟨range, member, rfl⟩ := List.mem_map.mp poppedIn
    exact ⟨range, member, index, inRange, same⟩
  · rintro ⟨range, member, index, inRange, same⟩
    exact ⟨range.pop, by rw [ranges]; exact List.mem_map_of_mem member, index, inRange, same⟩
  · intro past poppedRange poppedIn positive
    rw [ranges] at poppedIn
    obtain ⟨range, member, rfl⟩ := List.mem_map.mp poppedIn
    have pagesHere : 0 < range.pageCount := positive
    have unwritten : ∀ other ∈ list.ranges,
        ¬ other.headers.Contains (range.usedPages + range.pageCount) := by
      intro other otherIn inHeaders
      have adjacent := (stacked.stacked range member).adjacent
      have otherAdjacent := (stacked.stacked other otherIn).adjacent
      simp only [PRange.headers, Extent.Contains, Extent.stop_mk] at inHeaders
      by_cases same : range = other
      · subst same
        omega
      · refine (stacked.separate.forall member otherIn same).1
          (range.usedPages + range.pageCount - 1) ⟨?_, ?_⟩
        · simp only [PRange.region, Extent.Contains, Extent.stop_mk]
          omega
        · simp only [PRange.region, Extent.Contains, Extent.stop_mk]
          omega
    have kept := past range member pagesHere
    unfold PRange.flags at kept ⊢
    rw [← outside _ unwritten] at kept
    exact kept

theorem alloc_returns (stacked : list.Stacked) (flags : Nat) :
    (list.allocPhysicalPage flags).1 = nullPage ∨
      (list.allocPhysicalPage flags).1 ∈ list.tops := by
  rw [(stacked.alloc flags).1]
  rcases List.eq_nil_or_concat list.tops with none | ⟨front, last, split⟩
  · left
    rw [none]
    rfl
  · right
    rw [split]
    simp

theorem alloc_tops_length (stacked : list.Stacked) (flags : Nat) :
    (list.allocPhysicalPage flags).2.tops.length ≤ list.tops.length := by
  obtain ⟨-, popped, -⟩ := stacked.allocPages flags nullPage
  have ranges : (list.allocPhysicalPage flags).2.ranges = list.ranges.map PRange.pop := popped
  rw [tops_length, tops_length, ranges, List.countP_map]
  refine List.countP_mono_left fun range _ nonempty => ?_
  have less : range.pop.freeCount ≤ range.freeCount := Nat.sub_le _ _
  simp only [Function.comp, decide_eq_true_eq] at nonempty ⊢
  omega

theorem endsAt (stacked : list.Stacked) (past : list.PastWordsOk) (page : Nat) :
    list.EndsAt page := by
  intro range member index inRange _ _
  apply StackedRanges.next_stops (stacked.stacked range member) inRange
  intro _
  exact past range member (Nat.zero_lt_of_lt inRange)

/-- `k_mem_FreePhysicalPages` puts a held page back and nothing else. -/
theorem free (stacked : list.Stacked) (ends : list.EndsAt page) (nonNull : page ≠ nullPage)
    (held : list.Held page) :
    ∃ after, (∀ fuel, 0 < fuel → list.freePhysicalPages fuel page = some after) ∧
      after.Stacked ∧ (∀ other, after.Free other ↔ list.Free other ∨ other = page) ∧
      ∀ other, after.Managed other ↔ list.Managed other := by
  obtain ⟨managed, notFree⟩ := (stacked.held_iff page).mp held
  obtain ⟨aligned, word⟩ := stacked.managed_page managed
  obtain ⟨range, member, index, inRange, same, used⟩ := held
  obtain ⟨before, rest, mem', split, freed, pushed, pushedList, outside⟩ :=
    stacked.freePages_used member inRange used (ends range member index inRange same used)
  rw [← same] at freed pushedList
  have splitStacked : StackedRanges (before ++ range :: rest) list.mem := split ▸ stacked
  obtain ⟨newStacked, others⟩ :=
    splitStacked.replace range.push_region range.push_pages pushed outside
  refine ⟨{ mem := mem', ranges := before ++ range.push :: rest }, fun fuel positive => ?_,
    newStacked, fun other => ?_, fun other => ?_⟩
  · obtain ⟨less, rfl⟩ := Nat.exists_eq_succ_of_ne_zero positive.ne'
    have unmasked : page &&& addressMask4KB = page := by
      rw [and_addressMask page word]
      omega
    unfold freePhysicalPages
    simp only [unmasked, nonNull, ne_eq, not_false_eq_true, if_true, Nat.succ_eq_add_one, freed,
      Option.map_some]
  · unfold Free
    rw [split]
    simp only [List.mem_append, List.mem_cons]
    constructor
    · rintro ⟨holder, inBefore | here | inRest, listed⟩
      · exact Or.inl ⟨holder, Or.inl inBefore, others holder (Or.inl inBefore) ▸ listed⟩
      · rw [here, pushedList, List.mem_append, List.mem_singleton] at listed
        exact listed.imp_left fun old => ⟨range, Or.inr (Or.inl rfl), old⟩
      · exact Or.inl ⟨holder, Or.inr (Or.inr inRest), others holder (Or.inr inRest) ▸ listed⟩
    · rintro (⟨holder, inBefore | here | inRest, listed⟩ | isPage)
      · exact ⟨holder, Or.inl inBefore, (others holder (Or.inl inBefore)).symm ▸ listed⟩
      · refine ⟨range.push, Or.inr (Or.inl rfl), ?_⟩
        rw [pushedList]
        exact List.mem_append_left _ (here ▸ listed)
      · exact ⟨holder, Or.inr (Or.inr inRest), (others holder (Or.inr inRest)).symm ▸ listed⟩
      · refine ⟨range.push, Or.inr (Or.inl rfl), ?_⟩
        rw [pushedList, isPage]
        simp
  · unfold Managed
    rw [split]
    simp only [List.mem_append, List.mem_cons]
    constructor
    · rintro ⟨holder, inBefore | here | inRest, inTable⟩
      · exact ⟨holder, Or.inl inBefore, inTable⟩
      · exact ⟨range, Or.inr (Or.inl rfl), by rw [here] at inTable; exact inTable⟩
      · exact ⟨holder, Or.inr (Or.inr inRest), inTable⟩
    · rintro ⟨holder, inBefore | here | inRest, inTable⟩
      · exact ⟨holder, Or.inl inBefore, inTable⟩
      · exact ⟨range.push, Or.inr (Or.inl rfl), by rw [here] at inTable; exact inTable⟩
      · exact ⟨holder, Or.inr (Or.inr inRest), inTable⟩

theorem free_unheld (stacked : list.Stacked) {address : Nat} (word : address < 2 ^ 32)
    (unheld : pageOf address = nullPage ∨ ¬ list.Held (pageOf address)) (fuel : Nat) :
    list.freePhysicalPages fuel address = some list := by
  have masked : address &&& addressMask4KB = pageOf address := and_addressMask address word
  unfold freePhysicalPages
  rw [masked]
  by_cases null : pageOf address = nullPage
  · simp only [null, ne_eq, not_true_eq_false, if_false]
  · have unused := unheld.resolve_left null
    have pageAligned : pageOf address % 4096 = 0 := by
      unfold pageOf
      omega
    have pageWord : pageOf address < 2 ^ 32 := by
      unfold pageOf
      omega
    have unchanged := stacked.freePages_unchanged pageAligned pageWord
      (fun range member index inRange same used => unused
        ⟨range, member, index, inRange, same, used⟩) fuel
    simp only [null, ne_eq, not_false_eq_true, if_true, unchanged, Option.map_some]

end Stacked

end PRList

end DoggOS.Mem

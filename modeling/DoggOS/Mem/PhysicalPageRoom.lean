/-
How many allocations of a physical page succeed in a row.

A call takes a page from every range that has one, so the calls go on as long as
the range with the most free pages does.  The call after that returns the null
page and leaves everything as it was.
-/

import DoggOS.Mem.PhysicalPageSets

namespace DoggOS.Mem

/-- `free_count` of the fullest stack. -/
def roomOf (ranges : List PRange) : Nat := (ranges.map PRange.freeCount).foldr max 0

theorem roomOf_cons (range : PRange) (rest : List PRange) :
    roomOf (range :: rest) = max range.freeCount (roomOf rest) := rfl

theorem roomOf_pop (ranges : List PRange) : roomOf (ranges.map PRange.pop) = roomOf ranges - 1 := by
  induction ranges with
  | nil => rfl
  | cons range rest ih =>
      have popped : range.pop.freeCount = range.freeCount - 1 := rfl
      rw [List.map_cons, roomOf_cons, roomOf_cons, ih, popped]
      omega

theorem roomOf_pos_iff (ranges : List PRange) :
    0 < roomOf ranges ↔ ∃ range ∈ ranges, range.freeCount ≠ 0 := by
  induction ranges with
  | nil =>
      refine iff_of_false (Nat.lt_irrefl 0) fun ⟨_, member, _⟩ => ?_
      cases member
  | cons range rest ih =>
      rw [roomOf_cons, List.exists_mem_cons_iff, ← ih]
      omega

theorem allocPages_ranges (flags : Nat) (ranges : List PRange) (pageAddress : Nat)
    (mem : Nat → Nat) : (allocPages flags ranges pageAddress mem).2.2 = ranges.map PRange.pop := by
  induction ranges generalizing pageAddress mem with
  | nil => rfl
  | cons range rest ih =>
      rw [allocPages, List.map_cons]
      by_cases empty : range.freeCount = 0
      · rw [if_neg (not_not_intro empty)]
        dsimp only
        rw [ih]
        have same : range.pop = range := by
          unfold PRange.pop
          rw [empty, Nat.zero_sub, ← empty]
        rw [same]
      · rw [if_pos empty]
        dsimp only
        rw [ih]
        rfl

theorem allocPages_empty (flags : Nat) {ranges : List PRange} (empty : roomOf ranges = 0)
    (pageAddress : Nat) (mem : Nat → Nat) :
    allocPages flags ranges pageAddress mem = (pageAddress, mem, ranges) := by
  induction ranges with
  | nil => rfl
  | cons range rest ih =>
      rw [roomOf_cons] at empty
      rw [allocPages, if_neg (by omega), ih (by omega)]

namespace PRList

variable {list : PRList}

def room (list : PRList) : Nat := roomOf list.ranges

theorem alloc_room (list : PRList) (flags : Nat) :
    (list.allocPhysicalPage flags).2.room = list.room - 1 := by
  have popped : (list.allocPhysicalPage flags).2.ranges = list.ranges.map PRange.pop :=
    allocPages_ranges flags list.ranges nullPage list.mem
  unfold room
  rw [popped, roomOf_pop]

theorem alloc_empty (empty : list.room = 0) (flags : Nat) :
    list.allocPhysicalPage flags = (nullPage, list) := by
  have same := allocPages_empty flags empty nullPage list.mem
  unfold allocPhysicalPage
  rw [same]

theorem Stacked.alloc_nonNull (stacked : list.Stacked) (nullUnmanaged : ¬ list.Managed nullPage)
    (some : 0 < list.room) (flags : Nat) : (list.allocPhysicalPage flags).1 ≠ nullPage := by
  have nonempty : list.tops ≠ [] := by
    rw [← List.length_pos_iff, tops_length, List.countP_pos_iff]
    obtain ⟨range, member, more⟩ := (roomOf_pos_iff list.ranges).mp some
    exact ⟨range, member, decide_eq_true more⟩
  have returned := (stacked.alloc flags).1
  rw [List.getLastD_eq_getLast?, List.getLast?_eq_some_getLast nonempty, Option.getD_some]
    at returned
  have top : (list.allocPhysicalPage flags).1 ∈ list.tops := by
    rw [returned]
    exact List.getLast_mem nonempty
  intro null
  exact nullUnmanaged (null ▸ stacked.free_managed (free_of_top top))

end PRList

end DoggOS.Mem

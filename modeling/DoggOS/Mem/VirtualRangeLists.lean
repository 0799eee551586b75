/-
The virtual range array read as two lists.

`Shape list free used` says that the array spells `free ++ used` and that the
counters split it there.  Each branch of the two operations then becomes an
edit of the two lists: a split moves the head of a free range to the used list,
and a free either merges with a neighbour on one side, on both or on neither.
-/

import DoggOS.Mem.VirtualRanges

namespace DoggOS.Mem

open ArrayMove

structure VrList.Shape (list : VrList) (free used : List VRange) : Prop where
  freeCount : list.freeCount = free.length
  rangeCount : list.rangeCount = free.length + used.length
  holds : Holds list.ranges 0 (free ++ used)

namespace VrList

variable {list : VrList} {free used : List VRange}

theorem Shape.freeRanges_eq (shape : list.Shape free used) : list.freeRanges = free := by
  have atStart := ((holds_append _ _ _ _).mp shape.holds).1
  unfold freeRanges
  rw [shape.freeCount, List.range_eq_range']
  exact atStart.eq_map

theorem Shape.usedRanges_eq (shape : list.Shape free used) : list.usedRanges = used := by
  have atEnd := ((holds_append _ _ _ _).mp shape.holds).2
  unfold usedRanges
  rw [shape.freeCount, shape.rangeCount, Nat.add_sub_cancel_left]
  rw [Nat.zero_add] at atEnd
  exact atEnd.eq_map

/-- The used index splits the used list into the ranges that start below the
page and the rest, whose first range does not. -/
theorem Shape.usedVirtualRangeIndex_split (shape : list.Shape free used) (range : Nat) :
    ∃ before after, used = before ++ after ∧ (∀ r ∈ before, r.start < range / 4096) ∧
      (∀ r ∈ after.head?, range / 4096 ≤ r.start) ∧
      list.usedVirtualRangeIndex range = free.length + before.length := by
  have atEnd := ((holds_append _ _ _ _).mp shape.holds).2
  rw [Nat.zero_add] at atEnd
  unfold usedVirtualRangeIndex
  rw [shape.freeCount, shape.rangeCount, Nat.add_sub_cancel_left, shiftRight_pageShift]
  rcases atEnd.find?_cases (fun r => decide (range / 4096 ≤ r.start)) with
    ⟨below, notFound⟩ | ⟨before, r, after, split, below, reached, found⟩
  · refine ⟨used, [], by simp, fun r member => ?_, by simp, ?_⟩
    · have notReached := of_decide_eq_false (below r member)
      omega
    · rw [notFound]
      rfl
  · refine ⟨before, r :: after, split, fun other member => ?_, ?_, ?_⟩
    · have notReached := of_decide_eq_false (below other member)
      omega
    · intro first isHead
      rw [List.head?_cons, Option.mem_some_iff] at isHead
      subst first
      exact of_decide_eq_true reached
    · rw [found]
      rfl

theorem Shape.find_free (shape : list.Shape free used) (test : VRange → Bool) :
    ((∀ r ∈ free, test r = false) ∧
        (List.range list.freeCount).find? (fun index => test (list.ranges index)) = none) ∨
      ∃ before r after, free = before ++ r :: after ∧ (∀ other ∈ before, test other = false) ∧
        test r = true ∧
        (List.range list.freeCount).find? (fun index => test (list.ranges index)) =
          some before.length := by
  have atStart := ((holds_append _ _ _ _).mp shape.holds).1
  rw [shape.freeCount, List.range_eq_range']
  simpa only [Nat.zero_add] using atStart.find?_cases test

theorem Shape.ranges_free {before after : List VRange} {r : VRange}
    (shape : list.Shape (before ++ r :: after) used) : list.ranges before.length = r := by
  have holds := shape.holds
  simp only [holds_append, holds_cons, Nat.zero_add] at holds
  exact holds.1.2.1

theorem Shape.ranges_used {before after : List VRange} {r : VRange}
    (shape : list.Shape free (before ++ r :: after)) :
    list.ranges (free.length + before.length) = r := by
  have holds := shape.holds
  simp only [holds_append, holds_cons, Nat.zero_add] at holds
  exact holds.2.2.1

section Edits

variable {before after usedBefore usedAfter : List VRange} {r u : VRange} {index usedIndex : Nat}

theorem Shape.splitRange (shape : list.Shape (before ++ r :: after) (usedBefore ++ usedAfter))
    (atIndex : index = before.length)
    (atUsed : usedIndex = (before ++ r :: after).length + usedBefore.length)
    (requestSize : Nat) :
    (list.splitRange index usedIndex requestSize).Shape
      (before ++ ⟨r.start + requestSize, r.size - requestSize⟩ :: after)
      (usedBefore ++ ⟨r.start, requestSize⟩ :: usedAfter) := by
  have atFree : list.ranges index = r := atIndex ▸ shape.ranges_free
  have rangeCount := shape.rangeCount
  have holds := shape.holds
  simp only [holds_append, holds_cons, Nat.zero_add, List.length_append, List.length_cons]
    at holds rangeCount atUsed
  obtain ⟨⟨holdsBefore, -, holdsAfter⟩, holdsUsedBefore, holdsUsedAfter⟩ := holds
  have freeCount := shape.freeCount
  unfold VrList.splitRange
  simp only
  rw [moveUp_apply _ _ _ (by omega), if_neg (by omega), atFree, Function.update_of_ne (by omega),
    moveUp_apply _ _ _ (by omega), if_neg (by omega), atFree]
  refine ⟨by simpa using freeCount, ?_, ?_⟩
  · simp only [rangeCount, List.length_append, List.length_cons]
    omega
  · simp only [holds_append, holds_cons, Nat.zero_add, List.length_append, List.length_cons]
    refine ⟨⟨?_, ?_, ?_⟩, ?_, ?_, ?_⟩
    · exact ((holdsBefore.moveUp_outside (by omega) (.inl (by omega))).update _
        (.inr (by omega))).update _ (.inr (by omega))
    · rw [← atIndex]
      exact Function.update_self ..
    · exact ((holdsAfter.moveUp_outside (by omega) (.inl (by omega))).update _
        (.inr (by omega))).update _ (.inl (by omega))
    · exact ((holdsUsedBefore.moveUp_outside (by omega) (.inl (by omega))).update _
        (.inr (by omega))).update _ (.inl (by omega))
    · rw [← atUsed, Function.update_of_ne (by omega)]
      exact Function.update_self ..
    · exact ((holdsUsedAfter.moveUp (by omega) (by omega) (by omega) (by omega)).update _
        (.inl (by omega))).update _ (.inl (by omega))

/-- The source's merge test: the freed range begins where the previous free range ends. -/
def MergesPrev (list : VrList) (usedIndex freeIndex : Nat) : Prop :=
  freeIndex ≠ 0 ∧ (list.ranges usedIndex).start = (list.ranges (freeIndex - 1)).stop

private theorem releaseRange_apart {freeIndex : Nat}
    (apart : ¬ list.MergesPrev usedIndex freeIndex) (below : freeIndex < usedIndex + 1) :
    list.releaseRange usedIndex freeIndex =
      if (list.ranges usedIndex).stop = (list.ranges freeIndex).start then
        { freeCount := list.freeCount, rangeCount := list.rangeCount - 1
          ranges := moveDown 1 (list.rangeCount - 1 - usedIndex) usedIndex
            (Function.update list.ranges freeIndex ⟨(list.ranges usedIndex).start,
              (list.ranges freeIndex).size + (list.ranges usedIndex).size⟩) }
      else
        { freeCount := list.freeCount + 1, rangeCount := list.rangeCount
          ranges := Function.update (moveUp (usedIndex - freeIndex) usedIndex list.ranges)
            freeIndex (list.ranges usedIndex) } := by
  have notMerged : ¬ (freeIndex ≠ 0 ∧ (list.ranges usedIndex).start =
      (list.ranges (freeIndex - 1)).start + (list.ranges (freeIndex - 1)).size) := apart
  have notPrevious : ¬ usedIndex + 1 = freeIndex := by omega
  unfold releaseRange Extent.stop
  simp only [if_neg notMerged, if_neg notPrevious]

theorem Shape.releaseRange_insert
    (shape : list.Shape (before ++ r :: after) (usedBefore ++ u :: usedAfter))
    (atIndex : index = before.length)
    (atUsed : usedIndex = (before ++ r :: after).length + usedBefore.length)
    (apartPrev : ¬ list.MergesPrev usedIndex index) (apartNext : u.stop ≠ r.start) :
    (list.releaseRange usedIndex index).Shape
      (before ++ u :: r :: after) (usedBefore ++ usedAfter) := by
  have atFree : list.ranges index = r := atIndex ▸ shape.ranges_free
  have atFreed : list.ranges usedIndex = u := atUsed ▸ shape.ranges_used
  have freeCount := shape.freeCount
  have rangeCount := shape.rangeCount
  have holds := shape.holds
  simp only [holds_append, holds_cons, Nat.zero_add, List.length_append, List.length_cons]
    at holds freeCount rangeCount atUsed
  obtain ⟨⟨holdsBefore, -, holdsAfter⟩, holdsUsedBefore, -, holdsUsedAfter⟩ := holds
  rw [releaseRange_apart apartPrev (by omega), atFree, atFreed, if_neg apartNext]
  refine ⟨by simp only [freeCount, List.length_append, List.length_cons]; omega, ?_, ?_⟩
  · simp only [rangeCount, List.length_append, List.length_cons]
    omega
  · simp only [holds_append, holds_cons, Nat.zero_add, List.length_append, List.length_cons]
    refine ⟨⟨?_, ?_, ?_, ?_⟩, ?_, ?_⟩
    · exact (holdsBefore.moveUp_outside (by omega) (.inl (by omega))).update _ (.inr (by omega))
    · rw [← atIndex]
      exact Function.update_self ..
    · rw [Function.update_of_ne (by omega), moveUp_apply _ _ _ (by omega), if_pos (by omega),
        ← atIndex]
      exact atFree
    · exact (holdsAfter.moveUp (by omega) (by omega) (by omega) (by omega)).update _
        (.inl (by omega))
    · exact (holdsUsedBefore.moveUp (by omega) (by omega) (by omega) (by omega)).update _
        (.inl (by omega))
    · exact ((holdsUsedAfter.cast (by omega)).moveUp_outside (by omega) (.inr (by omega))).update _
        (.inl (by omega))

theorem Shape.releaseRange_next
    (shape : list.Shape (before ++ r :: after) (usedBefore ++ u :: usedAfter))
    (atIndex : index = before.length)
    (atUsed : usedIndex = (before ++ r :: after).length + usedBefore.length)
    (apartPrev : ¬ list.MergesPrev usedIndex index) (adjacent : u.stop = r.start) :
    (list.releaseRange usedIndex index).Shape
      (before ++ ⟨u.start, r.size + u.size⟩ :: after) (usedBefore ++ usedAfter) := by
  have atFree : list.ranges index = r := atIndex ▸ shape.ranges_free
  have atFreed : list.ranges usedIndex = u := atUsed ▸ shape.ranges_used
  have freeCount := shape.freeCount
  have rangeCount := shape.rangeCount
  have holds := shape.holds
  simp only [holds_append, holds_cons, Nat.zero_add, List.length_append, List.length_cons]
    at holds freeCount rangeCount atUsed
  obtain ⟨⟨holdsBefore, -, holdsAfter⟩, holdsUsedBefore, -, holdsUsedAfter⟩ := holds
  rw [releaseRange_apart apartPrev (by omega), atFree, atFreed, if_pos adjacent]
  refine ⟨by simpa only [List.length_append, List.length_cons] using freeCount, ?_, ?_⟩
  · simp only [rangeCount, List.length_append, List.length_cons]
    omega
  · simp only [holds_append, holds_cons, Nat.zero_add, List.length_append, List.length_cons]
    refine ⟨⟨?_, ?_, ?_⟩, ?_, ?_⟩
    · exact (holdsBefore.update _ (.inr (by omega))).moveDown_outside Nat.one_pos (.inl (by omega))
    · rw [moveDown_apply _ _ _ _ Nat.one_pos, if_neg (by omega), ← atIndex]
      exact Function.update_self ..
    · exact (holdsAfter.update _ (.inl (by omega))).moveDown_outside Nat.one_pos (.inl (by omega))
    · exact (holdsUsedBefore.update _ (.inl (by omega))).moveDown_outside Nat.one_pos
        (.inl (by omega))
    · exact (holdsUsedAfter.update _ (.inl (by omega))).moveDown Nat.one_pos (by omega) (by omega)
        (by omega)

section MergePrev

variable {p : VRange}

private theorem Shape.mergesPrev
    (shape : list.Shape ((before ++ [p]) ++ r :: after) (usedBefore ++ u :: usedAfter))
    (atIndex : index = before.length + 1)
    (atUsed : usedIndex = ((before ++ [p]) ++ r :: after).length + usedBefore.length)
    (follows : u.start = p.stop) :
    list.ranges (index - 1) = p ∧ index ≠ 0 ∧ (list.ranges usedIndex).start =
      (list.ranges (index - 1)).start + (list.ranges (index - 1)).size := by
  have atFreed : list.ranges usedIndex = u := atUsed ▸ shape.ranges_used
  have holds := shape.holds
  simp only [holds_append, holds_cons, Nat.zero_add] at holds
  have atPrev : list.ranges (index - 1) = p := by
    rw [atIndex, Nat.add_sub_cancel]
    exact holds.1.1.2.1
  refine ⟨atPrev, by omega, ?_⟩
  rw [atFreed, atPrev]
  exact follows

theorem Shape.releaseRange_prev
    (shape : list.Shape ((before ++ [p]) ++ r :: after) (usedBefore ++ u :: usedAfter))
    (atIndex : index = before.length + 1)
    (atUsed : usedIndex = ((before ++ [p]) ++ r :: after).length + usedBefore.length)
    (follows : u.start = p.stop) (apartNext : u.stop ≠ r.start) :
    (list.releaseRange usedIndex index).Shape
      (before ++ ⟨p.start, p.size + u.size⟩ :: r :: after) (usedBefore ++ usedAfter) := by
  obtain ⟨atPrev, merges⟩ := shape.mergesPrev atIndex atUsed follows
  have atFree : list.ranges index = r := by
    rw [atIndex]
    simpa using shape.ranges_free
  have atFreed : list.ranges usedIndex = u := atUsed ▸ shape.ranges_used
  have freeCount := shape.freeCount
  have rangeCount := shape.rangeCount
  have holds := shape.holds
  simp only [holds_append, holds_cons, Nat.zero_add, List.length_append, List.length_cons,
    List.length_nil] at holds freeCount rangeCount atUsed
  obtain ⟨⟨⟨holdsBefore, -⟩, -, holdsAfter⟩, holdsUsedBefore, -, holdsUsedAfter⟩ := holds
  have notAdjacent : ¬ p.start + (p.size + u.size) = r.start := by
    unfold Extent.stop at apartNext follows
    omega
  have unfolded : list.releaseRange usedIndex index =
      { freeCount := list.freeCount, rangeCount := list.rangeCount - 1
        ranges := moveDown 1 (list.rangeCount - 1 - usedIndex) usedIndex
          (Function.update list.ranges (index - 1) ⟨p.start, p.size + u.size⟩) } := by
    unfold VrList.releaseRange
    simp only [if_pos merges, Function.update_self]
    rw [Function.update_of_ne (by omega), atFree, atFreed, atPrev, if_neg notAdjacent,
      if_pos (by omega)]
  rw [unfolded]
  refine ⟨by simp only [freeCount, List.length_append, List.length_cons]; omega, ?_, ?_⟩
  · simp only [rangeCount, List.length_append, List.length_cons]
    omega
  · simp only [holds_append, holds_cons, Nat.zero_add, List.length_append, List.length_cons]
    refine ⟨⟨?_, ?_, ?_, ?_⟩, ?_, ?_⟩
    · exact (holdsBefore.update _ (.inr (by omega))).moveDown_outside Nat.one_pos (.inl (by omega))
    · rw [moveDown_apply _ _ _ _ Nat.one_pos, if_neg (by omega)]
      have place : before.length = index - 1 := by omega
      rw [place]
      exact Function.update_self ..
    · rw [moveDown_apply _ _ _ _ Nat.one_pos, if_neg (by omega), Function.update_of_ne (by omega),
        ← atIndex]
      exact atFree
    · exact (holdsAfter.update _ (.inl (by omega))).moveDown_outside Nat.one_pos (.inl (by omega))
    · exact ((holdsUsedBefore.cast (by omega)).update _ (.inl (by omega))).moveDown_outside
        Nat.one_pos (.inl (by omega))
    · exact (holdsUsedAfter.update _ (.inl (by omega))).moveDown Nat.one_pos (by omega) (by omega)
        (by omega)

theorem Shape.releaseRange_both
    (shape : list.Shape ((before ++ [p]) ++ r :: after) (usedBefore ++ u :: usedAfter))
    (atIndex : index = before.length + 1)
    (atUsed : usedIndex = ((before ++ [p]) ++ r :: after).length + usedBefore.length)
    (follows : u.start = p.stop) (adjacent : u.stop = r.start) :
    (list.releaseRange usedIndex index).Shape
      (before ++ ⟨p.start, r.size + (p.size + u.size)⟩ :: after) (usedBefore ++ usedAfter) := by
  obtain ⟨atPrev, merges⟩ := shape.mergesPrev atIndex atUsed follows
  have atFree : list.ranges index = r := by
    rw [atIndex]
    simpa using shape.ranges_free
  have atFreed : list.ranges usedIndex = u := atUsed ▸ shape.ranges_used
  have freeCount := shape.freeCount
  have rangeCount := shape.rangeCount
  have holds := shape.holds
  simp only [holds_append, holds_cons, Nat.zero_add, List.length_append, List.length_cons,
    List.length_nil] at holds freeCount rangeCount atUsed
  obtain ⟨⟨⟨holdsBefore, -⟩, -, holdsAfter⟩, holdsUsedBefore, -, holdsUsedAfter⟩ := holds
  have touches : p.start + (p.size + u.size) = r.start := by
    unfold Extent.stop at adjacent follows
    omega
  let merged : Nat → VRange := Function.update
    (Function.update list.ranges (index - 1) ⟨p.start, p.size + u.size⟩) index
    ⟨p.start, r.size + (p.size + u.size)⟩
  have unfolded : list.releaseRange usedIndex index =
      { freeCount := list.freeCount - 1, rangeCount := list.rangeCount - 2
        ranges := moveDown 2 (list.rangeCount - 2 - (usedIndex - 1)) (usedIndex - 1)
          (moveDown 1 (usedIndex - 1 - (index - 1)) (index - 1) merged) } := by
    unfold VrList.releaseRange
    simp only [if_pos merges, Function.update_self]
    rw [Function.update_of_ne (by omega), atFree, atFreed, atPrev, if_pos touches,
      if_pos (by omega)]
  rw [unfolded]
  refine ⟨by simp only [freeCount, List.length_append, List.length_cons]; omega, ?_, ?_⟩
  · simp only [rangeCount, List.length_append, List.length_cons]
    omega
  · have apart : ∀ {place : Nat} {part : List VRange}, Holds list.ranges place part →
        place + part.length ≤ index - 1 ∨ index < place → Holds merged place part := by
      intro place part holds outside
      exact (holds.update _ (by omega)).update _ (by omega)
    simp only [holds_append, holds_cons, Nat.zero_add, List.length_append, List.length_cons]
    refine ⟨⟨?_, ?_, ?_⟩, ?_, ?_⟩
    · exact ((apart holdsBefore (.inl (by omega))).moveDown_outside Nat.one_pos
        (.inl (by omega))).moveDown_outside Nat.two_pos (.inl (by omega))
    · rw [moveDown_apply _ _ _ _ Nat.two_pos, if_neg (by omega), moveDown_apply _ _ _ _ Nat.one_pos,
        if_pos (by omega), ← atIndex]
      exact Function.update_self ..
    · exact ((apart holdsAfter (.inr (by omega))).moveDown Nat.one_pos (by omega) (by omega)
        (by omega)).moveDown_outside Nat.two_pos (.inl (by omega))
    · exact ((apart holdsUsedBefore (.inr (by omega))).moveDown Nat.one_pos (by omega) (by omega)
        (by omega)).moveDown_outside Nat.two_pos (.inl (by omega))
    · exact ((apart holdsUsedAfter (.inr (by omega))).moveDown_outside Nat.one_pos
        (.inr (by omega))).moveDown Nat.two_pos (by omega) (by omega) (by omega)

end MergePrev

end Edits

end VrList

end DoggOS.Mem

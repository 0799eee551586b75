/-
The virtual range allocator as a set of free pages.

An allocation that splits a free range takes its pages out of the set, and the
free of the block puts exactly these back.  A whole free range never comes
back: its slot does not hold the block, and the search of the used list stops
at another range or, above every used range, finds no free range to stop at.
-/

import DoggOS.Mem.VirtualRangeTiling

namespace DoggOS.Mem

open ArrayMove Extent

namespace VrList

variable {list : VrList} {start size : Nat} {free used : List VRange}

def FreePage (list : VrList) (page : Nat) : Prop := ∃ r ∈ list.freeRanges, r.Contains page

theorem Shape.freePage_iff (shape : list.Shape free used) (tiling : Tiling start size free used)
    (page : Nat) : list.FreePage page ↔
      (start ≤ page ∧ page < start + size) ∧ ∀ u ∈ used, ¬ u.Contains page := by
  unfold FreePage
  rw [shape.freeRanges_eq, ← tiling.partition.mem_iff page]
  constructor
  · rintro ⟨r, inFree, inside⟩
    exact ⟨⟨r, List.mem_append_left _ inFree, inside⟩,
      fun u inUsed inOther => tiling.disjoint_free_used inFree inUsed page ⟨inside, inOther⟩⟩
  · rintro ⟨⟨r, member, inside⟩, notUsed⟩
    rcases List.mem_append.mp member with inFree | inUsed
    · exact ⟨r, inFree, inside⟩
    · exact absurd inside (notUsed r inUsed)

theorem removed_unique {front back front' back' : List VRange} {one two : VRange}
    (whole : front ++ one :: back = front' ++ two :: back') (starts : one.start = two.start)
    (sorted : (front ++ one :: back).Pairwise (fun a b => a.start < b.start)) :
    front ++ back = front' ++ back' := by
  induction front generalizing front' with
  | nil =>
      cases front' with
      | nil => exact (List.cons.inj whole).2
      | cons head tail =>
          obtain ⟨rfl, rest⟩ := List.cons.inj whole
          have later := (List.pairwise_cons.mp sorted).1 two (by rw [rest]; simp)
          omega
  | cons first front ih =>
      cases front' with
      | nil =>
          obtain ⟨rfl, rest⟩ := List.cons.inj whole
          have later := (List.pairwise_cons.mp sorted).1 one (by simp)
          omega
      | cons head tail =>
          obtain ⟨rfl, rest⟩ := List.cons.inj whole
          have more := ih rest (List.pairwise_cons.mp sorted).2
          rw [List.cons_append, List.cons_append, more]

theorem last_free {before after : List VRange} {r : VRange}
    (tiling : Tiling start size (before ++ r :: after) used)
    (below : ∀ u ∈ used, u.start < r.start) : after = [] := by
  cases after with
  | nil => rfl
  | cons next rest =>
      exfalso
      have inFree : r ∈ before ++ r :: next :: rest := by simp
      have nextIn : next ∈ before ++ r :: next :: rest := by simp
      have bounds := tiling.partition.bounds (List.mem_append_left used inFree)
        (tiling.freeNonempty r inFree)
      have nextBounds := tiling.partition.bounds (List.mem_append_left used nextIn)
        (tiling.freeNonempty next nextIn)
      obtain ⟨-, rSorted, crossSorted⟩ := List.pairwise_append.mp tiling.freeSorted
      have gap := (List.pairwise_cons.mp rSorted).1
      have nextGap := gap next List.mem_cons_self
      have nextStop : next.start ≤ next.stop := Nat.le_add_right _ _
      have rStop : r.start ≤ r.stop := Nat.le_add_right _ _
      -- the first page behind the range lies in the interval, so some range holds it
      obtain ⟨holder, member, inside⟩ := (tiling.partition.mem_iff r.stop).mpr (by omega)
      obtain ⟨above, under⟩ := inside
      rcases List.mem_append.mp member with isFree | isUsed
      · rcases List.mem_append.mp isFree with inBefore | later
        · have earlier := crossSorted holder inBefore r List.mem_cons_self
          omega
        · rcases List.mem_cons.mp later with here | inAfter
          · subst here
            omega
          · have beyond := gap holder inAfter
            omega
      · have lower := below holder isUsed
        refine tiling.disjoint_free_used inFree isUsed r.start ⟨⟨le_rfl, ?_⟩, lower.le, by omega⟩
        have nonempty := tiling.freeNonempty r inFree
        unfold Extent.stop
        omega

/-- A block taken from the head of a larger free range is given back whole. -/
theorem Shape.alloc_free (shape : list.Shape free used) (tiling : Tiling start size free used)
    (positive : 0 < start) (fits : ∀ r ∈ free, r.start < 2 ^ 20) {bytes : Nat} (request : 0 < bytes)
    (noExactFit : ¬ list.ExactFit (pageCount bytes))
    (returned : (list.allocVirtualRange bytes).1 ≠ 0) :
    ∃ page, 0 < page ∧ page < 2 ^ 20 ∧ (list.allocVirtualRange bytes).1 = page * 4096 ∧
      (∀ offset, offset < pageCount bytes → list.FreePage (page + offset)) ∧
      ∀ other, ((list.allocVirtualRange bytes).2.freeVirtualRange (page * 4096)).FreePage other ↔
        list.FreePage other := by
  rcases shape.allocVirtualRange tiling positive (shape.startsInSpace fits _) request noExactFit with
    ⟨failed, -⟩ | ⟨page, before, after, grown, split, nonNull, word, address, newShape, newTiling⟩
  · exact absurd (by rw [failed]) returned
  · have block : (⟨page, pageCount bytes⟩ : VRange) ∈ before ++ ⟨page, pageCount bytes⟩ :: after := by
      simp
    have pages := pageCount_pos request
    refine ⟨page, nonNull, word, address, fun offset inBlock => ?_, fun other => ?_⟩
    · have inside : (⟨page, pageCount bytes⟩ : VRange).Contains (page + offset) := by
        simp only [Extent.Contains, Extent.stop_mk]
        omega
      have bounds := newTiling.partition.bounds (List.mem_append_right grown block) pages
      simp only [Extent.stop_mk] at bounds
      refine (shape.freePage_iff tiling _).mpr ⟨by omega, fun u inUsed inOther => ?_⟩
      have apart := (List.pairwise_append.mp newTiling.partition.pairwise).2.1
      rw [split] at inUsed
      obtain ⟨-, blockApart, crossApart⟩ := List.pairwise_append.mp apart
      rcases List.mem_append.mp inUsed with inBefore | inAfter
      · exact crossApart u inBefore _ List.mem_cons_self _ ⟨inOther, inside⟩
      · exact (List.pairwise_cons.mp blockApart).1 u inAfter _ ⟨inside, inOther⟩
    · rcases newShape.freeVirtualRange newTiling (show page * 4096 ≠ 0 by omega) with
        ⟨-, notUsed⟩ | ⟨usedBefore, u, usedAfter, final, usedSplit, atStart, finalShape, finalTiling⟩
      · exact absurd (Nat.mul_div_cancel page (by omega)).symm (notUsed _ block)
      · rw [Nat.mul_div_cancel page (by omega)] at atStart
        have remaining : usedBefore ++ usedAfter = used := by
          have sorted := newTiling.usedSorted
          rw [split]
          exact (removed_unique usedSplit atStart.symm sorted).symm
        rw [finalShape.freePage_iff finalTiling, shape.freePage_iff tiling, remaining]

theorem Shape.takeWholeRange {before after usedBefore usedAfter : List VRange} {r : VRange}
    (shape : list.Shape (before ++ r :: after) (usedBefore ++ usedAfter)) :
    ∃ moved rest, (list.takeWholeRange before.length
        ((before ++ r :: after).length + usedBefore.length)).Shape (before ++ after)
          (usedBefore ++ moved :: rest) ∧ (∀ x ∈ usedAfter.head?, moved = x) := by
  have atFree : list.ranges before.length = r := shape.ranges_free
  have rangeCount := shape.rangeCount
  have freeCount := shape.freeCount
  have holds := shape.holds
  simp only [holds_append, holds_cons, Nat.zero_add, List.length_append, List.length_cons]
    at holds rangeCount freeCount ⊢
  obtain ⟨⟨holdsBefore, -, holdsAfter⟩, holdsUsedBefore, holdsUsedAfter⟩ := holds
  obtain ⟨usedIndex, atUsed⟩ : ∃ usedIndex, usedIndex =
      before.length + (after.length + 1) + usedBefore.length := ⟨_, rfl⟩
  rw [← atUsed] at holdsUsedAfter ⊢
  have cell : ∀ k, (list.takeWholeRange before.length usedIndex).ranges k =
      if k = usedIndex then ⟨r.size, r.size⟩
      else if before.length ≤ k ∧ k < usedIndex then list.ranges (k + 1) else list.ranges k := by
    intro k
    unfold VrList.takeWholeRange
    simp only [atFree, Function.update_apply, moveDown_apply _ _ _ _ Nat.one_pos]
    by_cases atSlot : k = usedIndex
    · rw [if_pos atSlot, if_pos atSlot]
    · rw [if_neg atSlot, if_neg atSlot]
      by_cases inside : before.length ≤ k ∧ k < usedIndex
      · rw [if_pos inside, if_pos (by omega)]
      · rw [if_neg inside, if_neg (by omega)]
  have front : Holds (list.takeWholeRange before.length usedIndex).ranges 0
      ((before ++ after) ++ usedBefore) := by
    rw [holds_append, holds_append]
    unfold VrList.takeWholeRange
    refine ⟨⟨?_, ?_⟩, ?_⟩
    · exact (holdsBefore.moveDown_outside Nat.one_pos (.inl (by omega))).update _ (.inr (by omega))
    · exact (holdsAfter.moveDown Nat.one_pos (by omega) (by omega) (by omega)).update _
        (.inr (by omega))
    · rw [List.length_append]
      exact (holdsUsedBefore.moveDown Nat.one_pos (by omega) (by omega) (by omega)).update _
        (.inr (by omega))
  have atMoved : (list.takeWholeRange before.length usedIndex).ranges (usedIndex - 1) =
      list.ranges usedIndex := by
    rw [cell, if_neg (by omega), if_pos (by omega), Nat.sub_add_cancel (by omega)]
  have position : (before ++ after ++ usedBefore).length = usedIndex - 1 := by
    simp only [List.length_append]
    omega
  have newFree : (list.takeWholeRange before.length usedIndex).freeCount =
      (before ++ after).length := by
    unfold VrList.takeWholeRange
    simp only [freeCount, List.length_append]
    omega
  have newRange : (list.takeWholeRange before.length usedIndex).rangeCount = list.rangeCount := rfl
  cases usedAfter with
  | nil =>
      refine ⟨list.ranges usedIndex, [], ⟨newFree, ?_, ?_⟩, by simp⟩
      · rw [newRange, rangeCount]
        simp only [List.length_append, List.length_cons, List.length_nil]
        omega
      · rw [← List.append_assoc, holds_append, Nat.zero_add, position]
        exact ⟨front, atMoved, trivial⟩
  | cons x rest =>
      obtain ⟨atX, holdsRest⟩ := holdsUsedAfter
      refine ⟨x, ⟨r.size, r.size⟩ :: rest, ⟨newFree, ?_, ?_⟩, by simp⟩
      · rw [newRange, rangeCount]
        simp only [List.length_append, List.length_cons]
        omega
      · rw [← List.append_assoc, holds_append, Nat.zero_add, position]
        refine ⟨front, atMoved.trans atX, ?_, ?_⟩
        · rw [cell, if_pos (by omega)]
        · exact ((holdsRest.cast (by omega)).moveDown_outside Nat.one_pos (.inr (by omega))).update _
            (.inl (by omega))

/-- A free does nothing when no used range that the search reaches starts at the page, or no
free range starts above it. -/
theorem Shape.freeVirtualRange_unchanged (shape : list.Shape free used) {mem : Nat}
    (nonNull : mem ≠ 0) (stuck : ∀ before u after, used = before ++ u :: after →
      (∀ x ∈ before, x.start < mem / 4096) → u.start = mem / 4096 →
      ∀ r ∈ free, r.start ≤ mem / 4096) : list.freeVirtualRange mem = list := by
  obtain ⟨before, rest, split, below, above, atUsed⟩ := shape.usedVirtualRangeIndex_split mem
  have rangeCount := shape.rangeCount
  unfold VrList.freeVirtualRange
  rw [if_neg nonNull]
  simp only [shiftRight_pageShift]
  cases rest with
  | nil =>
      have pastEnd : list.rangeCount ≤ list.usedVirtualRangeIndex mem := by
        rw [rangeCount, atUsed, split, List.append_nil]
      rw [if_pos (Or.inl pastEnd)]
  | cons u after =>
      have atFreed : list.ranges (list.usedVirtualRangeIndex mem) = u := by
        rw [split] at shape
        exact atUsed ▸ shape.ranges_used
      rw [atFreed]
      by_cases proceeds : list.rangeCount ≤ list.usedVirtualRangeIndex mem ∨ u.start ≠ mem / 4096
      · rw [if_pos proceeds]
      · rw [if_neg proceeds]
        have same : u.start = mem / 4096 := not_not.mp fun different => proceeds (Or.inr different)
        have noneAbove := stuck before u after split below same
        rcases shape.find_free (fun r => decide (u.start < r.start)) with
          ⟨-, notFound⟩ | ⟨freeBefore, r, freeAfter, freeSplit, -, higher, -⟩
        · rw [notFound]
        · have atMost := noneAbove r (by simp [freeSplit])
          have isAbove := of_decide_eq_true higher
          omega

/-- A block that is exactly a free range is lost: the free does not find it again. -/
theorem Shape.exactFit_free (shape : list.Shape free used) (tiling : Tiling start size free used)
    (positive : 0 < start) (fits : ∀ r ∈ free, r.start < 2 ^ 20) {bytes : Nat}
    (exactFit : list.ExactFit (pageCount bytes)) :
    ∃ page, 0 < page ∧ page < 2 ^ 20 ∧ (list.allocVirtualRange bytes).1 = page * 4096 ∧
      (∀ offset, offset < pageCount bytes → list.FreePage (page + offset)) ∧
      ¬ ((list.allocVirtualRange bytes).2.freeVirtualRange (page * 4096)).FreePage page := by
  obtain ⟨index, fit, exact⟩ := exactFit
  obtain ⟨before, after, split, atIndex⟩ := shape.firstFit_split fit
  obtain ⟨r, atR⟩ : ∃ r, r = list.ranges index := ⟨_, rfl⟩
  rw [← atR] at split exact
  subst split atIndex
  have sameFit : list.firstFit (pageCount bytes) = some before.length := fit
  have atFree : list.ranges before.length = r := atR.symm
  have inFree : r ∈ before ++ r :: after := by simp
  have nonempty := tiling.freeNonempty r inFree
  have bounds := tiling.partition.bounds (List.mem_append_left used inFree) nonempty
  have word := fits r inFree
  have address : (r.start <<< addressShift4KB) % wordLimit = r.start * 4096 := by
    rw [shiftLeft_pageShift, wordLimit, Nat.mod_eq_of_lt (by omega)]
  obtain ⟨usedBefore, usedAfter, usedSplit, below, above, atUsed⟩ :=
    shape.usedVirtualRangeIndex_split (r.start * 4096)
  rw [Nat.mul_div_cancel _ (by omega)] at below above
  subst usedSplit
  have result : list.allocVirtualRange bytes =
      (r.start * 4096, list.takeWholeRange before.length
        ((before ++ r :: after).length + usedBefore.length)) := by
    unfold VrList.allocVirtualRange
    simp only [sameFit, atFree, address, atUsed, exact, lt_self_iff_false, if_false]
  obtain ⟨moved, rest, newShape, atHead⟩ := shape.takeWholeRange
  rw [result]
  refine ⟨r.start, by omega, word, rfl, fun offset inBlock => ?_, ?_⟩
  · refine ⟨r, by rw [shape.freeRanges_eq]; exact inFree, ?_⟩
    unfold Extent.Contains Extent.stop
    omega
  · have unchanged := newShape.freeVirtualRange_unchanged
      (show r.start * 4096 ≠ 0 by omega) (by
        rw [Nat.mul_div_cancel _ (by omega)]
        intro front u back whole frontBelow same other member
        cases usedAfter with
        | nil =>
            have noneAfter := last_free tiling (by simpa using below)
            rw [noneAfter, List.append_nil] at member
            have sorted := (List.pairwise_append.mp tiling.freeSorted).2.2 other member r
              List.mem_cons_self
            unfold Extent.stop at sorted
            omega
        | cons x others =>
            exfalso
            have isMoved : moved = x := atHead x rfl
            have inUsed : x ∈ usedBefore ++ x :: others := by simp
            have reached : r.start ≤ x.start := above x rfl
            have xNonempty := tiling.usedNonempty x inUsed
            have beyond := tiling.free_stop_le inFree inUsed reached
            unfold Extent.stop at beyond
            rw [isMoved] at whole
            rcases List.append_eq_append_iff.mp whole with
              ⟨middle, frontEq, tailEq⟩ | ⟨middle, frontEq, tailEq⟩
            · cases middle with
              | nil =>
                  have atU : x.start = u.start := congrArg Extent.start (List.cons.inj tailEq).1
                  omega
              | cons head tail =>
                  have atX : x = head := (List.cons.inj tailEq).1
                  have tooLow := frontBelow x (by simp [frontEq, atX])
                  omega
            · cases middle with
              | nil =>
                  have atU : u.start = x.start := congrArg Extent.start (List.cons.inj tailEq).1
                  omega
              | cons head tail =>
                  have atU : u = head := (List.cons.inj tailEq).1
                  have tooLow := below u (by simp [frontEq, atU])
                  omega)
    rw [unchanged]
    rintro ⟨other, otherIn, inside⟩
    rw [newShape.freeRanges_eq] at otherIn
    have freeApart := (List.pairwise_append.mp tiling.partition.pairwise).1
    obtain ⟨-, rApart, crossApart⟩ := List.pairwise_append.mp freeApart
    have inR : r.Contains r.start := ⟨le_rfl, by unfold Extent.stop; omega⟩
    rcases List.mem_append.mp otherIn with inBefore | inAfter
    · exact crossApart other inBefore r List.mem_cons_self _ ⟨inside, inR⟩
    · exact (List.pairwise_cons.mp rApart).1 other inAfter _ ⟨inR, inside⟩

end VrList

end DoggOS.Mem

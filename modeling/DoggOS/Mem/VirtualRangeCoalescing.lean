/-
What a free does to the two lists.

The freed range goes to the free list, merged with the free ranges that it
touches, and nothing else changes.  Which pages the allocator manages plays no
part in it, and neither do holes between the ranges.
-/

import DoggOS.Mem.VirtualRangeMerges

namespace DoggOS.Mem

open ArrayMove Extent

/-- Sorted free ranges that do not touch, and sorted used ranges apart from them. -/
structure Coalesced (free used : List VRange) : Prop where
  freeNonempty : ∀ r ∈ free, 0 < r.size
  usedNonempty : ∀ r ∈ used, 0 < r.size
  freeSorted : free.Pairwise (fun a b => a.stop < b.start)
  usedSorted : used.Pairwise (fun a b => a.stop ≤ b.start)
  apart : ∀ r ∈ free, ∀ u ∈ used, r.Disjoint u

structure Gains (free grown : List VRange) (u : VRange) : Prop where
  nonempty : ∀ r ∈ grown, 0 < r.size
  sorted : grown.Pairwise (fun a b => a.stop < b.start)
  covers : ∀ point, cover grown point = cover free point + if u.Contains point then 1 else 0

namespace Gains

variable {u : VRange}

theorem mem_iff {free grown : List VRange} (gains : Gains free grown u) (point : Nat) :
    (∃ r ∈ grown, r.Contains point) ↔ (∃ r ∈ free, r.Contains point) ∨ u.Contains point := by
  rw [← cover_pos, ← cover_pos, gains.covers point]
  by_cases inside : u.Contains point
  · simp [inside]
  · simp [inside]

end Gains

namespace Coalesced

variable {free used before after : List VRange} {r u : VRange}

theorem used_stop_le (coalesced : Coalesced free used) (inFree : r ∈ free) (inUsed : u ∈ used)
    (ordered : u.start ≤ r.start) : u.stop ≤ r.start :=
  (coalesced.apart r inFree u inUsed).symm.stop_le (coalesced.freeNonempty r inFree) ordered

theorem free_stop_le (coalesced : Coalesced free used) (inFree : r ∈ free) (inUsed : u ∈ used)
    (ordered : r.start ≤ u.start) : r.stop ≤ u.start :=
  (coalesced.apart r inFree u inUsed).stop_le (coalesced.usedNonempty u inUsed) ordered

/-- Around its place in the list the freed range overlaps no free range, so each of the four
cases keeps the order. -/
theorem gains {grown : List VRange} (coalesced : Coalesced (before ++ r :: after) used)
    (inUsed : u ∈ used) (merged : Merged u r after before grown)
    (lower : ∀ x ∈ before, x.start ≤ u.start) (higher : u.start < r.start) :
    Gains (before ++ r :: after) grown u := by
  have stopLower : ∀ x ∈ before, x.stop ≤ u.start := fun x member =>
    coalesced.free_stop_le (by simp [member]) inUsed (lower x member)
  have stopUpper : u.stop ≤ r.start := coalesced.used_stop_le (by simp) inUsed higher.le
  have positive := coalesced.usedNonempty u inUsed
  have sorted := coalesced.freeSorted
  refine ⟨merged.nonempty coalesced.freeNonempty positive, ?_, merged.cover⟩
  have rOrdered : r.start ≤ r.stop := Nat.le_add_right _ _
  -- Below the last range of `before` the gaps were there already.
  have apart (notLast : ∀ p ∈ before.getLast?, u.start ≠ p.stop) :
      ∀ x ∈ before, x.stop < u.start := by
    rcases List.eq_nil_or_concat before with none | ⟨front, p, concat⟩
    · subst none
      simp
    · rw [List.concat_eq_append] at concat
      subst concat
      have pStop := stopLower p (by simp)
      have pOrdered : p.start ≤ p.stop := Nat.le_add_right _ _
      have notP : u.start ≠ p.stop := notLast p (by simp)
      intro x member
      rcases List.mem_append.mp member with inFront | isLast
      · have frontSorted := (List.pairwise_append.mp sorted).1
        have xBelow := (List.pairwise_append.mp frontSorted).2.2 x inFront p (by simp)
        omega
      · rw [List.mem_singleton] at isLast
        subst x
        omega
  have uOrdered : u.start ≤ u.stop := Nat.le_add_right _ _
  cases merged with
  | insert before apartPrev apartNext =>
      have gap := apart apartPrev
      simp only [List.pairwise_append, List.pairwise_cons] at sorted ⊢
      grind
  | next before apartPrev adjacent =>
      have gap := apart apartPrev
      simp only [List.pairwise_append, List.pairwise_cons, Merged.stop_next adjacent] at sorted ⊢
      grind
  | prev before p follows apartNext =>
      simp only [List.append_assoc, List.pairwise_append, List.pairwise_cons,
        Merged.stop_prev follows] at sorted ⊢
      grind
  | both before p follows adjacent =>
      simp only [List.append_assoc, List.pairwise_append, List.pairwise_cons,
        Merged.stop_both follows adjacent] at sorted ⊢
      grind

theorem release {grown : List VRange} (coalesced : Coalesced free (before ++ u :: after))
    (gains : Gains free grown u) : Coalesced grown (before ++ after) := by
  have kept : (before ++ after).Sublist (before ++ u :: after) :=
    (List.sublist_cons_self u after).append_left before
  obtain ⟨-, uAfter, beforeRest⟩ := List.pairwise_append.mp coalesced.usedSorted
  refine ⟨gains.nonempty, fun x member => coalesced.usedNonempty x (kept.subset member),
    gains.sorted, coalesced.usedSorted.sublist kept, ?_⟩
  intro x inGrown y inUsed point both
  rcases (gains.mem_iff point).mp ⟨x, inGrown, both.1⟩ with ⟨old, inFree, inside⟩ | inside
  · exact coalesced.apart old inFree y (kept.subset inUsed) point ⟨inside, both.2⟩
  · obtain ⟨fromU, toU⟩ := inside
    obtain ⟨fromY, toY⟩ := both.2
    rcases List.mem_append.mp inUsed with inBefore | inAfter
    · have ordered := beforeRest y inBefore u List.mem_cons_self
      omega
    · have ordered := (List.pairwise_cons.mp uAfter).1 y inAfter
      omega

end Coalesced

namespace VrList

variable {list : VrList} {free used : List VRange}

theorem shape_lists (counts : list.freeCount ≤ list.rangeCount) :
    list.Shape list.freeRanges list.usedRanges := by
  have freeLength : list.freeRanges.length = list.freeCount := by
    unfold freeRanges
    rw [List.length_map, List.length_range]
  have usedLength : list.usedRanges.length = list.rangeCount - list.freeCount := by
    unfold usedRanges
    rw [List.length_map, List.length_range']
  refine ⟨freeLength.symm, by omega, ?_⟩
  rw [holds_append, holds_iff_getElem, holds_iff_getElem]
  constructor
  · intro slot inside
    simp [freeRanges]
  · intro slot inside
    rw [freeLength]
    simp [usedRanges]

theorem Shape.freeVirtualRange_moves {before after : List VRange} {u : VRange}
    (shape : list.Shape free (before ++ u :: after))
    (coalesced : Coalesced free (before ++ u :: after)) {mem : Nat} (nonNull : mem ≠ 0)
    (first : u.start = mem / 4096) (above : ∃ r ∈ free, u.start < r.start) :
    ∃ grown : List VRange,
      (list.freeVirtualRange mem).Shape grown (before ++ after) ∧ Gains free grown u := by
  obtain ⟨usedBefore, rest, split, below, reached, outcome⟩ := shape.freeVirtualRange_cases nonNull
  have lower := start_lt_of_sorted coalesced.usedNonempty coalesced.usedSorted
  obtain ⟨rfl, rfl⟩ := split_at_start split below reached (fun x member => first ▸ lower x member)
    first
  rcases outcome with
    ⟨-, noneAbove⟩ | ⟨u', usedAfter, freeBefore, r, freeAfter, grown, same, -, freeSplit, lowerFree,
      higher, released, merged⟩
  · obtain ⟨r, inFree, isAbove⟩ := above
    exact absurd isAbove (Nat.not_lt.mpr (noneAbove u rfl first r inFree))
  · obtain ⟨rfl, rfl⟩ := List.cons.inj same
    subst freeSplit
    exact ⟨grown, released, coalesced.gains (by simp) merged lowerFree higher⟩

end VrList

/-- `k_mem_FreeVirtualRange` merges the range of the address with every free range it touches. -/
theorem freeVirtualRange_coalesces (list : VrList) (counts : list.freeCount ≤ list.rangeCount)
    (coalesced : Coalesced list.freeRanges list.usedRanges)
    (word : ∀ r ∈ list.freeRanges ++ list.usedRanges, r.stop ≤ 2 ^ 32 - 1)
    (u : VRange) (inUsed : u ∈ list.usedRanges) (mem : Nat) (nonNull : mem ≠ 0)
    (inFirst : u.start * 4096 ≤ mem ∧ mem < (u.start + 1) * 4096)
    (above : ∃ r ∈ list.freeRanges, u.start < r.start) :
    (list.freeVirtualRange mem).usedRanges = list.usedRanges.erase u ∧
      Coalesced (list.freeVirtualRange mem).freeRanges (list.freeVirtualRange mem).usedRanges ∧
      (∀ r ∈ (list.freeVirtualRange mem).freeRanges, r.stop ≤ 2 ^ 32 - 1) ∧
      ∀ page, (∃ r ∈ (list.freeVirtualRange mem).freeRanges, r.Contains page) ↔
        (∃ r ∈ list.freeRanges, r.Contains page) ∨ u.Contains page := by
  obtain ⟨before, after, split, notBefore⟩ := List.eq_append_cons_of_mem inUsed
  have first : u.start = mem / 4096 := by omega
  have shape := VrList.shape_lists counts
  rw [split] at shape coalesced
  obtain ⟨grown, newShape, gains⟩ := shape.freeVirtualRange_moves coalesced nonNull first above
  rw [newShape.freeRanges_eq, newShape.usedRanges_eq, split]
  refine ⟨?_, coalesced.release gains, ?_, gains.mem_iff⟩
  · rw [List.erase_append_right _ notBefore, List.erase_cons_head]
  · intro r member
    have positive := gains.nonempty r member
    have last : r.Contains (r.stop - 1) := by
      unfold Contains Extent.stop
      omega
    rcases (gains.mem_iff _).mp ⟨r, member, last⟩ with ⟨old, inFree, inside⟩ | inside
    · have oldWord := word old (List.mem_append_left _ inFree)
      have below := inside.2
      omega
    · have oldWord := word u (List.mem_append_right _ inUsed)
      have below := inside.2
      omega

def betweenFree : VrList :=
  { freeCount := 2, rangeCount := 3
    ranges := fun slot => if slot = 0 then ⟨1, 1⟩ else if slot = 1 then ⟨4, 2⟩ else ⟨2, 2⟩ }

theorem betweenFree_coalesced : Coalesced betweenFree.freeRanges betweenFree.usedRanges := by
  refine ⟨by decide, by decide, by decide, by decide, fun r inFree u inUsed => ?_⟩
  have ordered : r.stop ≤ u.start ∨ u.stop ≤ r.start := by
    revert r u
    decide
  exact ordered.elim disjoint_of_stop_le fun before => (disjoint_of_stop_le before).symm

theorem freeVirtualRange_coalesces_both :
    (betweenFree.freeVirtualRange 8200).usedRanges = [] ∧
      (betweenFree.freeVirtualRange 8200).freeRanges = [⟨1, 5⟩] ∧
      Coalesced (betweenFree.freeVirtualRange 8200).freeRanges
        (betweenFree.freeVirtualRange 8200).usedRanges := by
  have freed := freeVirtualRange_coalesces betweenFree (by decide) betweenFree_coalesced (by decide)
    ⟨2, 2⟩ (by decide) 8200 (by omega) (by decide) ⟨⟨4, 2⟩, by decide, by decide⟩
  exact ⟨freed.1, by decide, freed.2.1⟩

end DoggOS.Mem

/-
When a free takes effect.

The release happens inside a search over the free ranges, at the first one that
starts above the block.  A block above every free range is found in the used
list and then left there: the search runs out and nothing happens.
-/

import DoggOS.Mem.VirtualRangeSets

namespace DoggOS.Mem

open Extent

/-- Both parts of the list in order and no page twice; free ranges may touch. -/
structure Separate (free used : List VRange) : Prop where
  freeNonempty : ∀ r ∈ free, 0 < r.size
  usedNonempty : ∀ r ∈ used, 0 < r.size
  freeSorted : free.Pairwise (fun a b => a.stop ≤ b.start)
  usedSorted : used.Pairwise (fun a b => a.stop ≤ b.start)
  apart : ∀ r ∈ free, ∀ u ∈ used, r.Disjoint u

theorem Coalesced.separate {free used : List VRange} (coalesced : Coalesced free used) :
    Separate free used :=
  ⟨coalesced.freeNonempty, coalesced.usedNonempty, coalesced.freeSorted.imp fun gap => gap.le,
    coalesced.usedSorted, coalesced.apart⟩

def InFirstPage (mem : Nat) (block : VRange) : Prop :=
  block.start * 4096 ≤ mem ∧ mem < (block.start + 1) * 4096

theorem inFirstPage_iff {mem : Nat} {block : VRange} :
    InFirstPage mem block ↔ block.start = mem / 4096 := by
  unfold InFirstPage
  omega

/-- A free that takes effect on used blocks and on nothing else. -/
structure FreesUsed (list : VrList) (mem : Nat) : Prop where
  unchanged_iff : list.freeVirtualRange mem = list ↔ ∀ u ∈ list.usedRanges, ¬ InFirstPage mem u
  becomesFree : ∀ u ∈ list.usedRanges, InFirstPage mem u → ∀ page,
    (list.freeVirtualRange mem).FreePage page ↔ list.FreePage page ∨ u.Contains page

namespace VrList

variable {list : VrList} {free used : List VRange}

/-- With a free range above the block, the block leaves the used list and its pages turn free. -/
theorem Shape.freesUsed (shape : list.Shape free used) (separate : Separate free used) {mem : Nat}
    (nonNull : mem ≠ 0)
    (above : ∀ u ∈ used, InFirstPage mem u → ∃ r ∈ free, u.start < r.start) :
    FreesUsed list mem := by
  obtain ⟨usedBefore, rest, split, below, reached, outcome⟩ := shape.freeVirtualRange_cases nonNull
  have startsOnce : ∀ u ∈ used, InFirstPage mem u → ∃ usedAfter, rest = u :: usedAfter := by
    intro u inUsed inFirst
    obtain ⟨before, after, placed⟩ := List.append_of_mem inUsed
    have nonempty := separate.usedNonempty
    have sorted := separate.usedSorted
    rw [placed] at nonempty sorted
    have first := inFirstPage_iff.mp inFirst
    have lower := start_lt_of_sorted nonempty sorted
    exact ⟨after, (split_at_start (placed ▸ split) below reached
      (fun x member => first ▸ lower x member) first).2⟩
  rcases outcome with
    ⟨unchanged, noneAbove⟩ | ⟨u, usedAfter, freeBefore, r, freeAfter, grown, same, first, rfl,
      lower, higher, released, merged⟩
  · have notUsed : ∀ u ∈ list.usedRanges, ¬ InFirstPage mem u := by
      intro u inUsed inFirst
      rw [shape.usedRanges_eq] at inUsed
      obtain ⟨usedAfter, isHead⟩ := startsOnce u inUsed inFirst
      obtain ⟨r, inFree, isAbove⟩ := above u inUsed inFirst
      have none := noneAbove u (by rw [isHead]; rfl) (inFirstPage_iff.mp inFirst) r inFree
      omega
    exact ⟨iff_of_true unchanged notUsed, fun u inUsed inFirst => absurd inFirst (notUsed u inUsed)⟩
  · subst same
    have inUsed : u ∈ used := by simp [split]
    constructor
    · refine iff_of_false (fun unchanged => ?_) (fun noBlock => ?_)
      · have shorter := released.usedRanges_eq
        rw [unchanged, shape.usedRanges_eq, split] at shorter
        have lengths := congrArg List.length shorter
        simp only [List.length_append, List.length_cons] at lengths
        omega
      · rw [shape.usedRanges_eq] at noBlock
        exact noBlock u inUsed (inFirstPage_iff.mpr first)
    · intro block isUsed inFirst page
      rw [shape.usedRanges_eq] at isUsed
      obtain ⟨after, isHead⟩ := startsOnce block isUsed inFirst
      obtain ⟨rfl, -⟩ := List.cons.inj isHead
      unfold FreePage
      rw [released.freeRanges_eq, shape.freeRanges_eq]
      exact merged.mem_iff page

end VrList

/-- `k_mem_FreeVirtualRange` frees a used block exactly when some free range lies above it. -/
theorem freeVirtualRange_freesUsed_iff (list : VrList) (counts : list.freeCount ≤ list.rangeCount)
    (separate : Separate list.freeRanges list.usedRanges) (mem : Nat) (nonNull : mem ≠ 0) :
    FreesUsed list mem ↔
      ∀ u ∈ list.usedRanges, InFirstPage mem u → ∃ r ∈ list.freeRanges, u.start < r.start := by
  have shape := VrList.shape_lists counts
  constructor
  · intro frees u inUsed inFirst
    obtain ⟨usedBefore, rest, split, below, reached, outcome⟩ :=
      shape.freeVirtualRange_cases nonNull
    rcases outcome with
      ⟨unchanged, -⟩ | ⟨other, usedAfter, freeBefore, r, freeAfter, grown, same, first, freeSplit,
        lower, higher, released, merged⟩
    · exact absurd inFirst (frees.unchanged_iff.mp unchanged u inUsed)
    · have start := inFirstPage_iff.mp inFirst
      exact ⟨r, by rw [freeSplit]; simp, by omega⟩
  · exact shape.freesUsed separate nonNull

theorem freeVirtualRange_freesUsed_iff_between : FreesUsed betweenFree 8200 :=
  (freeVirtualRange_freesUsed_iff betweenFree (by decide) betweenFree_coalesced.separate 8200
    (by decide)).mpr fun u inUsed inFirst => ⟨⟨4, 2⟩, by decide, by
      rw [inFirstPage_iff.mp inFirst]
      decide⟩

def usedAbove : VrList :=
  { freeCount := 1, rangeCount := 2
    ranges := fun slot => if slot = 0 then ⟨1, 1⟩ else ⟨5, 1⟩ }

/-- The used page stays used. -/
theorem freeVirtualRange_leaves_used :
    ¬ ∀ list : VrList, list.freeCount ≤ list.rangeCount →
      Separate list.freeRanges list.usedRanges → ∀ mem, mem ≠ 0 → FreesUsed list mem := by
  intro freesUsed
  have separate : Separate usedAbove.freeRanges usedAbove.usedRanges := by
    refine ⟨by decide, by decide, by decide, by decide, fun r inFree u inUsed => ?_⟩
    refine disjoint_of_stop_le ?_
    revert r u
    decide
  have frees := freesUsed usedAbove (by decide) separate (5 * 4096) (by decide)
  exact frees.unchanged_iff.mp rfl ⟨5, 1⟩ (by decide) (inFirstPage_iff.mpr rfl)

end DoggOS.Mem

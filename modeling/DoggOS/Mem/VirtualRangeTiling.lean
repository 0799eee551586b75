/-
The invariant of the virtual range allocator and what the two operations do to it.

`Tiling` says that the free and the used list together partition the managed
interval, that both are sorted, that no two free ranges touch, and that some
free range ends where the interval ends.  The last part keeps the free search of
`k_mem_FreeVirtualRange` from running off the free list.  Splits and merges keep
the tiling.
-/

import DoggOS.Mem.VirtualRangeCoalescing

namespace DoggOS.Mem

open ArrayMove Extent

structure Tiling (start size : Nat) (free used : List VRange) : Prop where
  partition : Partition (free ++ used) start size
  freeNonempty : ∀ r ∈ free, 0 < r.size
  usedNonempty : ∀ r ∈ used, 0 < r.size
  freeSorted : free.Pairwise (fun a b => a.stop < b.start)
  usedSorted : used.Pairwise (fun a b => a.start < b.start)
  top : ∃ r ∈ free, r.stop = start + size

namespace Tiling

variable {start size : Nat} {free used before after usedBefore usedAfter : List VRange}
  {r u p : VRange}

theorem disjoint_free_used (tiling : Tiling start size free used) (inFree : r ∈ free)
    (inUsed : u ∈ used) : r.Disjoint u :=
  (List.pairwise_append.mp tiling.partition.pairwise).2.2 r inFree u inUsed

theorem used_stop_le (tiling : Tiling start size free used) (inFree : r ∈ free)
    (inUsed : u ∈ used) (ordered : u.start ≤ r.start) : u.stop ≤ r.start := by
  have apart := tiling.disjoint_free_used inFree inUsed
  have swapped : u.Disjoint r := fun point both => apart point ⟨both.2, both.1⟩
  exact swapped.stop_le (tiling.freeNonempty r inFree) ordered

theorem free_stop_le (tiling : Tiling start size free used) (inFree : r ∈ free)
    (inUsed : u ∈ used) (ordered : r.start ≤ u.start) : r.stop ≤ u.start :=
  (tiling.disjoint_free_used inFree inUsed).stop_le (tiling.usedNonempty u inUsed) ordered

/-- The free search cannot fail: the range at the top of the interval lies above
every used range. -/
theorem exists_free_above (tiling : Tiling start size free used) (inUsed : u ∈ used) :
    ∃ r ∈ free, u.start < r.start := by
  obtain ⟨r, inFree, atTop⟩ := tiling.top
  refine ⟨r, inFree, ?_⟩
  by_contra notAbove
  have below := tiling.free_stop_le inFree inUsed (by omega)
  have bounds := tiling.partition.bounds (List.mem_append_right free inUsed)
    (tiling.usedNonempty u inUsed)
  have nonempty := tiling.usedNonempty u inUsed
  unfold Extent.stop at *
  omega

theorem split (tiling : Tiling start size (before ++ r :: after) (usedBefore ++ usedAfter))
    {request : Nat} (positive : 0 < request) (smaller : request < r.size)
    (below : ∀ x ∈ usedBefore, x.start < r.start)
    (above : ∀ x ∈ usedAfter.head?, r.start ≤ x.start) :
    Tiling start size (before ++ ⟨r.start + request, r.size - request⟩ :: after)
      (usedBefore ++ ⟨r.start, request⟩ :: usedAfter) := by
  have inFree : r ∈ before ++ r :: after := by simp
  have beyond : ∀ x ∈ usedAfter, r.start < x.start := by
    have sorted := (List.pairwise_append.mp tiling.usedSorted).2.1
    cases usedAfter with
    | nil => simp
    | cons head tail =>
        have atHead : r.start ≤ head.start := above head rfl
        have headStop := tiling.free_stop_le inFree
          (List.mem_append_right usedBefore List.mem_cons_self) atHead
        have nonempty := tiling.freeNonempty r inFree
        have headBeyond : r.start < head.start := by
          unfold Extent.stop at headStop
          omega
        intro x member
        rcases List.mem_cons.mp member with same | later
        · exact same ▸ headBeyond
        · exact headBeyond.trans ((List.pairwise_cons.mp sorted).1 x later)
  obtain ⟨sortedBefore, sortedRest, beforeRest⟩ := List.pairwise_append.mp tiling.freeSorted
  obtain ⟨rAfter, sortedAfter⟩ := List.pairwise_cons.mp sortedRest
  obtain ⟨usedSortedBefore, usedSortedAfter, usedAcross⟩ :=
    List.pairwise_append.mp tiling.usedSorted
  have stopKept : Extent.stop ⟨r.start + request, r.size - request⟩ = r.stop := by
    rw [stop_mk, Extent.stop]
    omega
  constructor
  · intro point
    have covered := tiling.partition point
    have halves := cover_merge ⟨r.start, request⟩ _ r rfl rfl stopKept.symm point
    simp only [cover_append, cover_cons] at covered ⊢
    omega
  · intro x member
    rcases List.mem_append.mp member with inBefore | inRest
    · exact tiling.freeNonempty x (List.mem_append_left _ inBefore)
    · rcases List.mem_cons.mp inRest with same | inAfter
      · subst x
        exact Nat.sub_pos_of_lt smaller
      · exact tiling.freeNonempty x (by simp [inAfter])
  · intro x member
    rcases List.mem_append.mp member with inBefore | inRest
    · exact tiling.usedNonempty x (List.mem_append_left _ inBefore)
    · rcases List.mem_cons.mp inRest with same | inAfter
      · subst x
        exact positive
      · exact tiling.usedNonempty x (List.mem_append_right _ inAfter)
  · refine List.pairwise_append.mpr ⟨sortedBefore, List.pairwise_cons.mpr ⟨?_, sortedAfter⟩, ?_⟩
    · intro x inAfter
      rw [stopKept]
      exact rAfter x inAfter
    · intro x inBefore y inRest
      rcases List.mem_cons.mp inRest with same | inAfter
      · subst y
        exact (beforeRest x inBefore r List.mem_cons_self).trans_le (Nat.le_add_right _ _)
      · exact beforeRest x inBefore y (List.mem_cons_of_mem _ inAfter)
  · refine List.pairwise_append.mpr
      ⟨usedSortedBefore, List.pairwise_cons.mpr ⟨beyond, usedSortedAfter⟩, ?_⟩
    intro x inBefore y inRest
    rcases List.mem_cons.mp inRest with same | inAfter
    · subst y
      exact below x inBefore
    · exact usedAcross x inBefore y inAfter
  · obtain ⟨x, member, atTop⟩ := tiling.top
    rcases List.mem_append.mp member with inBefore | inRest
    · exact ⟨x, List.mem_append_left _ inBefore, atTop⟩
    · rcases List.mem_cons.mp inRest with same | inAfter
      · subst x
        exact ⟨_, by simp, stopKept.trans atTop⟩
      · exact ⟨x, by simp [inAfter], atTop⟩

theorem coalesced (tiling : Tiling start size free used) : Coalesced free used := by
  refine ⟨tiling.freeNonempty, tiling.usedNonempty, tiling.freeSorted, ?_,
    fun r inFree u inUsed => tiling.disjoint_free_used inFree inUsed⟩
  have apart := (List.pairwise_append.mp tiling.partition.pairwise).2.1
  refine (tiling.usedSorted.and apart).imp_of_mem ?_
  intro u later inUsed inLater both
  exact both.2.stop_le (tiling.usedNonempty later inLater) both.1.le

theorem top_gains {grown : List VRange}
    (tiling : Tiling start size free (usedBefore ++ u :: usedAfter))
    (gains : Gains free grown u) : ∃ r ∈ grown, r.stop = start + size := by
  obtain ⟨r, inFree, atTop⟩ := tiling.top
  have positive := tiling.freeNonempty r inFree
  have holdsTop : r.Contains (r.stop - 1) := by
    unfold Contains Extent.stop
    omega
  obtain ⟨last, inGrown, holdsLast⟩ := (gains.mem_iff _).mpr (.inl ⟨r, inFree, holdsTop⟩)
  refine ⟨last, inGrown, ?_⟩
  have lastPositive := gains.nonempty last inGrown
  have lastEnd : last.Contains (last.stop - 1) := by
    unfold Contains Extent.stop
    omega
  have inside : ∃ x ∈ free ++ (usedBefore ++ u :: usedAfter), x.Contains (last.stop - 1) := by
    rcases (gains.mem_iff _).mp ⟨last, inGrown, lastEnd⟩ with ⟨x, inOld, holds⟩ | holds
    · exact ⟨x, List.mem_append_left _ inOld, holds⟩
    · exact ⟨u, by simp, holds⟩
  obtain ⟨x, member, holds⟩ := inside
  obtain ⟨lower, upper⟩ := holds
  have reached := holdsLast.2
  have bounds := tiling.partition.bounds member (by unfold Extent.stop at *; omega)
  unfold Extent.stop at *
  omega

theorem release {grown : List VRange}
    (tiling : Tiling start size free (usedBefore ++ u :: usedAfter))
    (gains : Gains free grown u) : Tiling start size grown (usedBefore ++ usedAfter) := by
  have kept : (usedBefore ++ usedAfter).Sublist (usedBefore ++ u :: usedAfter) :=
    (List.sublist_cons_self u usedAfter).append_left usedBefore
  refine ⟨fun point => ?_, gains.nonempty,
    fun r member => tiling.usedNonempty r (kept.subset member), gains.sorted,
    tiling.usedSorted.sublist kept, tiling.top_gains gains⟩
  have covered := tiling.partition point
  have gained := gains.covers point
  simp only [cover_append, cover_cons] at covered gained ⊢
  omega

end Tiling

/-! ### The two operations on a tiled list -/

namespace VrList

variable {list : VrList} {free used : List VRange} {start size : Nat}

/-- The first free range that fits has exactly the requested number of pages. -/
def ExactFit (list : VrList) (request : Nat) : Prop :=
  ∃ index ∈ list.firstFit request, (list.ranges index).size = request

def StartsInSpace (list : VrList) (request : Nat) : Prop :=
  ∀ index ∈ list.firstFit request, (list.ranges index).start < 2 ^ 20

theorem Shape.firstFit_split (shape : list.Shape free used) {request index : Nat}
    (fit : index ∈ list.firstFit request) :
    ∃ before after, free = before ++ list.ranges index :: after ∧ index = before.length := by
  rcases shape.find_free (fun r => decide (request ≤ r.size)) with
    ⟨-, notFound⟩ | ⟨before, r, after, rfl, -, -, found⟩
  · have noFit : list.firstFit request = none := notFound
    rw [noFit] at fit
    cases fit
  · have sameFit : list.firstFit request = some before.length := found
    rw [sameFit, Option.mem_some_iff] at fit
    subst fit
    exact ⟨before, after, by rw [shape.ranges_free], rfl⟩

theorem Shape.startsInSpace (shape : list.Shape free used) (fits : ∀ r ∈ free, r.start < 2 ^ 20)
    (request : Nat) : list.StartsInSpace request := by
  intro index fit
  obtain ⟨before, after, split, -⟩ := shape.firstFit_split fit
  exact fits _ (by rw [split]; simp)

/-- Without an exact fit, an allocation either finds nothing and changes nothing, or
takes the head of a free range and stores it in the used list. -/
theorem Shape.allocVirtualRange (shape : list.Shape free used)
    (tiling : Tiling start size free used) (positive : 0 < start) {bytes : Nat}
    (inSpace : list.StartsInSpace (pageCount bytes)) (request : 0 < bytes)
    (noExactFit : ¬ list.ExactFit (pageCount bytes)) :
    (list.allocVirtualRange bytes = (0, list) ∧ ∀ r ∈ free, r.size < pageCount bytes) ∨
      ∃ page before after, ∃ grownFree : List VRange,
        used = before ++ after ∧ 0 < page ∧ page < 2 ^ 20 ∧
        (list.allocVirtualRange bytes).1 = page * 4096 ∧
        (list.allocVirtualRange bytes).2.Shape grownFree
          (before ++ ⟨page, pageCount bytes⟩ :: after) ∧
        Tiling start size grownFree (before ++ ⟨page, pageCount bytes⟩ :: after) := by
  rcases shape.allocVirtualRange_cases bytes with
    ⟨-, unchanged, tooSmall⟩ | ⟨before, r, after, rfl, fit, atFree, large, taken⟩
  · exact .inl ⟨unchanged, tooSmall⟩
  · have smaller : pageCount bytes < r.size := by
      have different : r.size ≠ pageCount bytes := fun same =>
        noExactFit ⟨before.length, fit, atFree ▸ same⟩
      omega
    have bounds := tiling.partition.bounds (show r ∈ _ by simp) (by omega)
    have word : r.start < 2 ^ 20 := atFree ▸ inSpace before.length fit
    obtain ⟨usedBefore, usedAfter, rfl, below, above, address, newShape⟩ := taken smaller
    have whole : r.start * 4096 % wordLimit = r.start * 4096 := by
      rw [wordLimit, Nat.mod_eq_of_lt (by omega)]
    rw [whole, Nat.mul_div_cancel _ (by omega)] at below above
    exact .inr ⟨r.start, usedBefore, usedAfter, _, rfl, by omega, word, address.trans whole, newShape,
      tiling.split (pageCount_pos request) smaller below above⟩

/-- Freeing an address that starts no used range changes nothing; freeing the
start of a used range drops it from the used list. -/
theorem Shape.freeVirtualRange (shape : list.Shape free used)
    (tiling : Tiling start size free used) {mem : Nat} (nonNull : mem ≠ 0) :
    (list.freeVirtualRange mem = list ∧ ∀ u ∈ used, u.start ≠ mem / 4096) ∨
      ∃ before u after, ∃ grownFree : List VRange,
        used = before ++ u :: after ∧ u.start = mem / 4096 ∧
        (list.freeVirtualRange mem).Shape grownFree (before ++ after) ∧
        Tiling start size grownFree (before ++ after) := by
  obtain ⟨before, rest, split, below, reached, outcome⟩ := shape.freeVirtualRange_cases nonNull
  subst split
  rcases outcome with
    ⟨unchanged, noneAbove⟩ | ⟨u, usedAfter, freeBefore, r, freeAfter, grown, rfl, first, rfl,
      lower, higher, released, merged⟩
  · refine .inl ⟨unchanged, fun u member atPage => ?_⟩
    rcases List.mem_append.mp member with inBefore | inRest
    · have lower := below u inBefore
      omega
    · cases rest with
      | nil => cases inRest
      | cons head tail =>
          have headReached := reached head rfl
          rcases List.mem_cons.mp inRest with isHead | later
          · subst isHead
            obtain ⟨r, inFree, isAbove⟩ := tiling.exists_free_above member
            have none := noneAbove u rfl atPage r inFree
            omega
          · have sorted := (List.pairwise_append.mp tiling.usedSorted).2.1
            have beyond := (List.pairwise_cons.mp sorted).1 u later
            omega
  · refine .inr ⟨before, u, usedAfter, grown, rfl, first, released, tiling.release ?_⟩
    exact tiling.coalesced.gains (by simp) merged lower higher

end VrList

end DoggOS.Mem

/-
The merge cases of a free, without any assumption on the two lists.

A free finds its used range by its start and the first free range that starts
above it.  From there only the two neighbours of that place matter: `Merged`
lists the four outcomes.  Nothing here needs the ranges to be sorted or
disjoint, so the same four cases serve every invariant of the list.
-/

import DoggOS.Mem.VirtualRangeLists

namespace DoggOS.Mem

open ArrayMove Extent

/-- What becomes of the free ranges `before ++ r :: after` when the range `u` is freed
between `before` and `r`. -/
inductive Merged (u r : VRange) (after : List VRange) : List VRange → List VRange → Prop
  | insert (before : List VRange) (apartPrev : ∀ p ∈ before.getLast?, u.start ≠ p.stop)
      (apartNext : u.stop ≠ r.start) : Merged u r after before (before ++ u :: r :: after)
  | next (before : List VRange) (apartPrev : ∀ p ∈ before.getLast?, u.start ≠ p.stop)
      (adjacent : u.stop = r.start) :
      Merged u r after before (before ++ ⟨u.start, r.size + u.size⟩ :: after)
  | prev (before : List VRange) (p : VRange) (follows : u.start = p.stop)
      (apartNext : u.stop ≠ r.start) :
      Merged u r after (before ++ [p]) (before ++ ⟨p.start, p.size + u.size⟩ :: r :: after)
  | both (before : List VRange) (p : VRange) (follows : u.start = p.stop)
      (adjacent : u.stop = r.start) :
      Merged u r after (before ++ [p])
        (before ++ ⟨p.start, r.size + (p.size + u.size)⟩ :: after)

namespace Merged

variable {u r : VRange} {before after grown : List VRange}

theorem stop_next (adjacent : u.stop = r.start) :
    Extent.stop ⟨u.start, r.size + u.size⟩ = r.stop := by
  simp only [Extent.stop] at *
  omega

theorem stop_prev {p : VRange} (follows : u.start = p.stop) :
    Extent.stop ⟨p.start, p.size + u.size⟩ = u.stop := by
  simp only [Extent.stop] at *
  omega

theorem stop_both {p : VRange} (follows : u.start = p.stop) (adjacent : u.stop = r.start) :
    Extent.stop ⟨p.start, r.size + (p.size + u.size)⟩ = r.stop := by
  simp only [Extent.stop] at *
  omega

theorem cover (merged : Merged u r after before grown) (point : Nat) :
    Extent.cover grown point =
      Extent.cover (before ++ r :: after) point + if u.Contains point then 1 else 0 := by
  cases merged with
  | insert before apartPrev apartNext =>
      simp only [cover_append, cover_cons]
      omega
  | next before apartPrev adjacent =>
      have halves := cover_merge u r ⟨u.start, r.size + u.size⟩ adjacent.symm rfl
        (stop_next adjacent) point
      simp only [cover_append, cover_cons] at halves ⊢
      omega
  | prev before p follows apartNext =>
      have halves := cover_merge p u ⟨p.start, p.size + u.size⟩ follows rfl (stop_prev follows) point
      simp only [cover_append, cover_cons, cover_nil] at halves ⊢
      omega
  | both before p follows adjacent =>
      have lower := cover_merge p u ⟨p.start, p.size + u.size⟩ follows rfl (stop_prev follows) point
      have upper := cover_merge ⟨p.start, p.size + u.size⟩ r ⟨p.start, r.size + (p.size + u.size)⟩
        (adjacent.symm.trans (stop_prev follows).symm) rfl (stop_both follows adjacent) point
      simp only [cover_append, cover_cons, cover_nil] at lower upper ⊢
      omega

theorem mem_iff (merged : Merged u r after before grown) (point : Nat) :
    (∃ x ∈ grown, x.Contains point) ↔
      (∃ x ∈ before ++ r :: after, x.Contains point) ∨ u.Contains point := by
  rw [← cover_pos, ← cover_pos, merged.cover point]
  by_cases inside : u.Contains point
  · simp [inside]
  · simp [inside]

theorem nonempty (merged : Merged u r after before grown)
    (positive : ∀ x ∈ before ++ r :: after, 0 < x.size) (freed : 0 < u.size) :
    ∀ x ∈ grown, 0 < x.size := by
  cases merged <;> grind

end Merged

theorem split_at_start {before after front rest : List VRange} {u : VRange} {page : Nat}
    (split : before ++ u :: after = front ++ rest) (below : ∀ x ∈ front, x.start < page)
    (reached : ∀ x ∈ rest.head?, page ≤ x.start) (lower : ∀ x ∈ before, x.start < page)
    (first : u.start = page) : front = before ∧ rest = u :: after := by
  rcases List.append_eq_append_iff.mp split with ⟨more, longer, others⟩ | ⟨more, longer, others⟩
  · cases more with
    | nil => exact ⟨by simpa using longer, by simpa using others.symm⟩
    | cons head tail =>
        obtain ⟨rfl, -⟩ := List.cons.inj others
        have tooLow := below u (by rw [longer]; simp)
        omega
  · cases more with
    | nil => exact ⟨by simpa using longer.symm, by simpa using others⟩
    | cons head tail =>
        have isHead := reached head (by rw [others]; rfl)
        have tooLow := lower head (by rw [longer]; simp)
        omega

theorem start_lt_of_sorted {before after : List VRange} {u : VRange}
    (nonempty : ∀ x ∈ before ++ u :: after, 0 < x.size)
    (sorted : (before ++ u :: after).Pairwise (fun a b => a.stop ≤ b.start)) :
    ∀ x ∈ before, x.start < u.start := by
  intro x member
  have stop := (List.pairwise_append.mp sorted).2.2 x member u List.mem_cons_self
  have positive := nonempty x (List.mem_append_left _ member)
  unfold Extent.stop at stop
  omega

namespace VrList

variable {list : VrList} {free used before after usedBefore usedAfter : List VRange} {r u : VRange}

/-- The body of the free loop, at any free slot, ends in one of the four cases. -/
theorem Shape.releaseRange_merged
    (shape : list.Shape (before ++ r :: after) (usedBefore ++ u :: usedAfter)) :
    ∃ grown : List VRange,
      (list.releaseRange ((before ++ r :: after).length + usedBefore.length) before.length).Shape
        grown (usedBefore ++ usedAfter) ∧ Merged u r after before grown := by
  have atFreed : list.ranges ((before ++ r :: after).length + usedBefore.length) = u :=
    shape.ranges_used
  have apartCases (notMerged : ¬ list.MergesPrev
      ((before ++ r :: after).length + usedBefore.length) before.length)
      (apart : ∀ p ∈ before.getLast?, u.start ≠ p.stop) :
      ∃ grown : List VRange,
        (list.releaseRange ((before ++ r :: after).length + usedBefore.length)
          before.length).Shape grown (usedBefore ++ usedAfter) ∧ Merged u r after before grown := by
    by_cases adjacent : u.stop = r.start
    · exact ⟨_, shape.releaseRange_next rfl rfl notMerged adjacent, .next before apart adjacent⟩
    · exact ⟨_, shape.releaseRange_insert rfl rfl notMerged adjacent, .insert before apart adjacent⟩
  rcases List.eq_nil_or_concat before with none | ⟨front, p, concat⟩
  · subst none
    exact apartCases (fun merges => merges.1 rfl) (by simp)
  · rw [List.concat_eq_append] at concat
    subst concat
    have atPrev : list.ranges ((front ++ [p]).length - 1) = p := by
      have holds := shape.holds
      simp only [holds_append, holds_cons, Nat.zero_add] at holds
      simpa using holds.1.1.2.1
    by_cases follows : u.start = p.stop
    · by_cases adjacent : u.stop = r.start
      · exact ⟨_, shape.releaseRange_both (by simp) rfl follows adjacent,
          .both front p follows adjacent⟩
      · exact ⟨_, shape.releaseRange_prev (by simp) rfl follows adjacent,
          .prev front p follows adjacent⟩
    · refine apartCases (fun merges => follows ?_) (by simpa using follows)
      have touches := merges.2
      rwa [atFreed, atPrev] at touches

/-- A free drops the first used range that starts at or above the page of the address, if it
starts there, and merges it below the first free range that starts above it, if there is one. -/
theorem Shape.freeVirtualRange_cases (shape : list.Shape free used) {mem : Nat}
    (nonNull : mem ≠ 0) :
    ∃ usedBefore rest, used = usedBefore ++ rest ∧ (∀ x ∈ usedBefore, x.start < mem / 4096) ∧
      (∀ x ∈ rest.head?, mem / 4096 ≤ x.start) ∧
      ((list.freeVirtualRange mem = list ∧
          ∀ u ∈ rest.head?, u.start = mem / 4096 → ∀ r ∈ free, r.start ≤ u.start) ∨
        ∃ u usedAfter before r after grown, rest = u :: usedAfter ∧ u.start = mem / 4096 ∧
          free = before ++ r :: after ∧ (∀ x ∈ before, x.start ≤ u.start) ∧ u.start < r.start ∧
          (list.freeVirtualRange mem).Shape grown (usedBefore ++ usedAfter) ∧
          Merged u r after before grown) := by
  obtain ⟨usedBefore, rest, split, below, reached, atUsed⟩ := shape.usedVirtualRangeIndex_split mem
  refine ⟨usedBefore, rest, split, below, reached, ?_⟩
  subst split
  have rangeCount := shape.rangeCount
  cases rest with
  | nil =>
      refine .inl ⟨?_, by simp⟩
      have pastEnd : list.rangeCount ≤ list.usedVirtualRangeIndex mem := by
        rw [rangeCount, atUsed, List.append_nil]
      unfold VrList.freeVirtualRange
      simp only [if_neg nonNull, pastEnd, true_or, if_true]
  | cons u usedAfter =>
      have atFreed : list.ranges (list.usedVirtualRangeIndex mem) = u := atUsed ▸ shape.ranges_used
      by_cases first : u.start = mem / 4096
      · have proceeds :
            ¬ (list.rangeCount ≤ list.usedVirtualRangeIndex mem ∨ u.start ≠ mem / 4096) := by
          rw [rangeCount, atUsed, List.length_append, List.length_cons]
          omega
        rcases shape.find_free (fun r => decide (u.start < r.start)) with
          ⟨noneAbove, notFound⟩ | ⟨before, r, after, freeSplit, lower, higher, found⟩
        · refine .inl ⟨?_, fun x isHead _ r inFree => ?_⟩
          · unfold VrList.freeVirtualRange
            simp only [if_neg nonNull, atFreed, shiftRight_pageShift, if_neg proceeds, notFound]
          · rw [List.head?_cons, Option.mem_some_iff] at isHead
            subst isHead
            exact Nat.le_of_not_lt (of_decide_eq_false (noneAbove r inFree))
        · subst freeSplit
          have unfolded : list.freeVirtualRange mem =
              list.releaseRange (list.usedVirtualRangeIndex mem) before.length := by
            unfold VrList.freeVirtualRange
            simp only [if_neg nonNull, atFreed, shiftRight_pageShift, if_neg proceeds, found]
          obtain ⟨grown, released, merged⟩ := shape.releaseRange_merged
          refine .inr ⟨u, usedAfter, before, r, after, grown, rfl, first, rfl, fun x member => ?_,
            of_decide_eq_true higher, ?_, merged⟩
          · exact Nat.le_of_not_lt (of_decide_eq_false (lower x member))
          · rw [unfolded, atUsed]
            exact released
      · refine .inl ⟨?_, fun x isHead atPage => ?_⟩
        · unfold VrList.freeVirtualRange
          simp only [if_neg nonNull, atFreed, shiftRight_pageShift, ne_eq, first,
            not_false_eq_true, or_true, if_true]
        · rw [List.head?_cons, Option.mem_some_iff] at isHead
          exact absurd (isHead ▸ atPage) first

/-- An allocation takes the head of the first free range that is large enough, if that range is
larger than the request. -/
theorem Shape.allocVirtualRange_cases (shape : list.Shape free used) (bytes : Nat) :
    (list.firstFit (pageCount bytes) = none ∧ list.allocVirtualRange bytes = (0, list) ∧
        ∀ r ∈ free, r.size < pageCount bytes) ∨
      ∃ before r after, free = before ++ r :: after ∧
        list.firstFit (pageCount bytes) = some before.length ∧ list.ranges before.length = r ∧
        pageCount bytes ≤ r.size ∧ (pageCount bytes < r.size → ∃ usedBefore usedAfter,
          used = usedBefore ++ usedAfter ∧
          (∀ x ∈ usedBefore, x.start < r.start * 4096 % wordLimit / 4096) ∧
          (∀ x ∈ usedAfter.head?, r.start * 4096 % wordLimit / 4096 ≤ x.start) ∧
          (list.allocVirtualRange bytes).1 = r.start * 4096 % wordLimit ∧
          (list.allocVirtualRange bytes).2.Shape
            (before ++ ⟨r.start + pageCount bytes, r.size - pageCount bytes⟩ :: after)
            (usedBefore ++ ⟨r.start, pageCount bytes⟩ :: usedAfter)) := by
  rcases shape.find_free (fun r => decide (pageCount bytes ≤ r.size)) with
    ⟨tooSmall, notFound⟩ | ⟨before, r, after, split, -, large, found⟩
  · have noFit : list.firstFit (pageCount bytes) = none := notFound
    refine .inl ⟨noFit, ?_, fun r member => ?_⟩
    · unfold VrList.allocVirtualRange
      simp only [noFit]
    · have notLarge := of_decide_eq_false (tooSmall r member)
      omega
  · subst split
    have fit : list.firstFit (pageCount bytes) = some before.length := found
    have atFree : list.ranges before.length = r := shape.ranges_free
    refine .inr ⟨before, r, after, rfl, fit, atFree, of_decide_eq_true large, fun smaller => ?_⟩
    obtain ⟨usedBefore, usedAfter, usedSplit, below, above, atUsed⟩ :=
      shape.usedVirtualRangeIndex_split (r.start * 4096 % wordLimit)
    subst usedSplit
    have result : list.allocVirtualRange bytes =
        (r.start * 4096 % wordLimit, list.splitRange before.length
          ((before ++ r :: after).length + usedBefore.length) (pageCount bytes)) := by
      unfold VrList.allocVirtualRange
      simp only [fit, atFree, shiftLeft_pageShift, atUsed, if_pos smaller]
    rw [result]
    exact ⟨usedBefore, usedAfter, rfl, below, above, rfl, shape.splitRange rfl rfl _⟩

end VrList

end DoggOS.Mem

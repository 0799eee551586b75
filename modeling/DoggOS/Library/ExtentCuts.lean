/-
Cutting an interval out of a list of extents.

One extent leaves what lies below the interval and what lies above it, and a
sorted list leaves the pieces of its extents in order.
-/

import DoggOS.Library.Extent

namespace DoggOS.Extent

def without (start stop : Nat) (extent : Extent) : List Extent :=
  (if extent.start < start then [⟨extent.start, min extent.stop start - extent.start⟩] else []) ++
    if stop < extent.stop then
      [⟨max extent.start stop, extent.stop - max extent.start stop⟩]
    else []

variable {start stop : Nat}

theorem without_of_stop_le {extent : Extent} (below : extent.stop ≤ start) (ordered : start ≤ stop)
    (nonempty : 0 < extent.size) : extent.without start stop = [extent] := by
  have starts : extent.start < start := by
    unfold Extent.stop at below
    omega
  unfold without
  rw [if_pos starts, if_neg (by omega), Nat.min_eq_left below, List.append_nil]
  simp [Extent.stop]

theorem without_of_le_start {extent : Extent} (above : stop ≤ extent.start) (ordered : start ≤ stop)
    (nonempty : 0 < extent.size) : extent.without start stop = [extent] := by
  unfold without
  rw [if_neg (by omega), if_pos (by unfold Extent.stop; omega), Nat.max_eq_left above,
    List.nil_append]
  simp [Extent.stop]

theorem without_of_covered {extent : Extent} (lower : start ≤ extent.start)
    (upper : extent.stop ≤ stop) : extent.without start stop = [] := by
  unfold without
  rw [if_neg (by omega), if_neg (by omega), List.append_nil]

theorem mem_without {extent piece : Extent} (nonempty : 0 < extent.size)
    (member : piece ∈ extent.without start stop) :
    0 < piece.size ∧ extent.start ≤ piece.start ∧ piece.stop ≤ extent.stop := by
  unfold without at member
  rcases List.mem_append.mp member with isLow | isHigh
  · split_ifs at isLow with below
    · rw [List.mem_singleton.mp isLow]
      simp only [Extent.stop]
      omega
    · cases isLow
  · split_ifs at isHigh with above
    · rw [List.mem_singleton.mp isHigh]
      simp only [Extent.stop] at above ⊢
      omega
    · cases isHigh

theorem pairwise_without (ordered : start ≤ stop) (extent : Extent) :
    (extent.without start stop).Pairwise (fun a b => a.stop ≤ b.start) := by
  unfold without
  split_ifs
  · refine List.pairwise_append.mpr ⟨List.pairwise_singleton _ _, List.pairwise_singleton _ _, ?_⟩
    intro low isLow high isHigh
    rw [List.mem_singleton.mp isLow, List.mem_singleton.mp isHigh]
    simp only [Extent.stop]
    omega
  · exact List.pairwise_singleton _ _
  · exact List.pairwise_singleton _ _
  · exact List.Pairwise.nil

theorem contains_without (extent : Extent) (point : Nat) :
    (∃ piece ∈ extent.without start stop, piece.Contains point) ↔
      extent.Contains point ∧ ¬ (start ≤ point ∧ point < stop) := by
  have low : (∃ piece ∈ (if extent.start < start then
      [(⟨extent.start, min extent.stop start - extent.start⟩ : Extent)] else []),
        piece.Contains point) ↔ extent.Contains point ∧ point < start := by
    split_ifs with below
    · simp only [List.mem_singleton, exists_eq_left, Contains, Extent.stop]
      omega
    · simp only [List.not_mem_nil, false_and, exists_false, Contains, false_iff]
      omega
  have high : (∃ piece ∈ (if stop < extent.stop then
      [(⟨max extent.start stop, extent.stop - max extent.start stop⟩ : Extent)] else []),
        piece.Contains point) ↔ extent.Contains point ∧ stop ≤ point := by
    split_ifs with above
    · simp only [List.mem_singleton, exists_eq_left, Contains, Extent.stop] at above ⊢
      omega
    · simp only [List.not_mem_nil, false_and, exists_false, Contains, false_iff]
      omega
  unfold without
  simp only [List.mem_append, or_and_right, exists_or, low, high]
  rw [← and_or_left]
  refine and_congr_right fun _ => ?_
  omega

theorem flatMap_without_self {extents : List Extent}
    (kept : ∀ extent ∈ extents, extent.without start stop = [extent]) :
    extents.flatMap (without start stop) = extents := by
  have singles : extents.flatMap (without start stop) = extents.flatMap fun extent => [extent] :=
    List.flatMap_congr kept
  rw [singles]
  simp

/-- The list without the interval: sorted, without empty extents, and exactly the other points. -/
structure Subtracts (start stop : Nat) (extents left : List Extent) : Prop where
  nonempty : ∀ extent ∈ left, 0 < extent.size
  sorted : left.Pairwise (fun a b => a.stop ≤ b.start)
  covers : ∀ point, (∃ extent ∈ left, extent.Contains point) ↔
    (∃ extent ∈ extents, extent.Contains point) ∧ ¬ (start ≤ point ∧ point < stop)

theorem subtracts_without (ordered : start ≤ stop) {extents : List Extent}
    (nonempty : ∀ extent ∈ extents, 0 < extent.size)
    (sorted : extents.Pairwise (fun a b => a.stop ≤ b.start)) :
    Subtracts start stop extents (extents.flatMap (without start stop)) := by
  constructor
  · intro piece member
    obtain ⟨extent, inExtents, inPieces⟩ := List.mem_flatMap.mp member
    exact (mem_without (nonempty extent inExtents) inPieces).1
  · refine List.pairwise_flatMap.mpr ⟨fun extent _ => pairwise_without ordered extent, ?_⟩
    refine sorted.imp_of_mem ?_
    intro left right inLeft inRight before low isLow high isHigh
    have lower := mem_without (nonempty left inLeft) isLow
    have upper := mem_without (nonempty right inRight) isHigh
    omega
  · intro point
    simp only [List.mem_flatMap]
    constructor
    · rintro ⟨piece, ⟨extent, inExtents, inPieces⟩, inside⟩
      have outside := (contains_without extent point).mp ⟨piece, inPieces, inside⟩
      exact ⟨⟨extent, inExtents, outside.1⟩, outside.2⟩
    · rintro ⟨⟨extent, inExtents, inside⟩, outside⟩
      obtain ⟨piece, inPieces, holds⟩ := (contains_without extent point).mpr ⟨inside, outside⟩
      exact ⟨piece, ⟨extent, inExtents, inPieces⟩, holds⟩

end DoggOS.Extent

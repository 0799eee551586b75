/-
Half-open extents of natural numbers and how lists of them cover an interval.

`cover l point` counts the extents of `l` that contain `point`.  The count is
additive over concatenation, blind to order, and a extent and its two halves
count the same, so splitting and merging extents never changes a cover.  A list
partitions an interval when the count is one inside and zero outside.
-/

import Mathlib.Data.List.Count
import Mathlib.Data.List.Perm.Basic
import Mathlib.Data.List.Pairwise

namespace DoggOS

structure Extent where
  start : Nat
  size : Nat
deriving DecidableEq, Repr

namespace Extent

def stop (extent : Extent) : Nat := extent.start + extent.size

@[simp] theorem stop_mk (start size : Nat) : stop ⟨start, size⟩ = start + size := rfl

def Contains (extent : Extent) (point : Nat) : Prop :=
  extent.start ≤ point ∧ point < extent.stop

instance (extent : Extent) (point : Nat) : Decidable (extent.Contains point) :=
  inferInstanceAs (Decidable (_ ∧ _))

def Disjoint (left right : Extent) : Prop :=
  ∀ point, ¬ (left.Contains point ∧ right.Contains point)

theorem disjoint_of_stop_le {left right : Extent} (before : left.stop ≤ right.start) :
    left.Disjoint right := by
  rintro point ⟨inLeft, inRight⟩
  have below := inLeft.2
  have above := inRight.1
  omega

theorem Disjoint.symm {left right : Extent} (disjoint : left.Disjoint right) :
    right.Disjoint left :=
  fun point both => disjoint point both.symm

def cover (extents : List Extent) (point : Nat) : Nat :=
  extents.countP (fun extent => decide (extent.Contains point))

@[simp] theorem cover_nil (point : Nat) : cover [] point = 0 := rfl

theorem cover_cons (extent : Extent) (extents : List Extent) (point : Nat) :
    cover (extent :: extents) point = cover extents point + if extent.Contains point then 1 else 0 := by
  by_cases inside : extent.Contains point <;> simp [cover, inside]

@[simp] theorem cover_append (front back : List Extent) (point : Nat) :
    cover (front ++ back) point = cover front point + cover back point :=
  List.countP_append

theorem cover_pos {extents : List Extent} {point : Nat} :
    0 < cover extents point ↔ ∃ extent ∈ extents, extent.Contains point := by
  simp [cover, List.countP_pos_iff]

theorem cover_le_one {extents : List Extent} (apart : extents.Pairwise Disjoint) (point : Nat) :
    cover extents point ≤ 1 := by
  induction extents with
  | nil => exact Nat.zero_le 1
  | cons extent extents ih =>
      obtain ⟨first, rest⟩ := List.pairwise_cons.mp apart
      rw [cover_cons]
      by_cases inside : extent.Contains point
      · have uncovered : cover extents point = 0 := by
          refine Nat.eq_zero_of_not_pos fun covered => ?_
          obtain ⟨other, member, inOther⟩ := cover_pos.mp covered
          exact first other member point ⟨inside, inOther⟩
        rw [if_pos inside]
        omega
      · rw [if_neg inside]
        exact ih rest

theorem pairwise_of_cover {extents : List Extent}
    (atMostOne : ∀ point, cover extents point ≤ 1) : extents.Pairwise Disjoint := by
  induction extents with
  | nil => exact List.Pairwise.nil
  | cons extent extents ih =>
      refine List.pairwise_cons.mpr ⟨?_, ih fun point => ?_⟩
      · rintro other member point ⟨inSpan, inOther⟩
        have once := atMostOne point
        have covered : 0 < cover extents point := cover_pos.mpr ⟨other, member, inOther⟩
        rw [cover_cons, if_pos inSpan] at once
        omega
      · have once := atMostOne point
        rw [cover_cons] at once
        omega

theorem cover_merge (left right whole : Extent) (adjacent : right.start = left.stop)
    (sameStart : whole.start = left.start) (sameStop : whole.stop = right.stop) (point : Nat) :
    (if whole.Contains point then 1 else 0) =
      (if left.Contains point then 1 else 0) + (if right.Contains point then 1 else 0) := by
  have either : whole.Contains point ↔ left.Contains point ∨ right.Contains point := by
    unfold Contains stop at *
    omega
  have notBoth : left.Contains point → ¬ right.Contains point := by
    unfold Contains
    omega
  by_cases inLeft : left.Contains point
  · rw [if_pos (either.mpr (.inl inLeft)), if_pos inLeft, if_neg (notBoth inLeft)]
  · by_cases inRight : right.Contains point
    · rw [if_pos (either.mpr (.inr inRight)), if_neg inLeft, if_pos inRight]
    · rw [if_neg (fun inside => (either.mp inside).elim inLeft inRight), if_neg inLeft,
        if_neg inRight]

/-- Every point of `[start, start + size)` is in exactly one extent, and no other point is in any. -/
def Partition (extents : List Extent) (start size : Nat) : Prop :=
  ∀ point, cover extents point = if start ≤ point ∧ point < start + size then 1 else 0

theorem Partition.mem_iff {extents : List Extent} {start size : Nat}
    (partition : Partition extents start size) (point : Nat) :
    (∃ extent ∈ extents, extent.Contains point) ↔ start ≤ point ∧ point < start + size := by
  rw [← cover_pos, partition point]
  by_cases inside : start ≤ point ∧ point < start + size <;> simp [inside]

theorem Partition.pairwise {extents : List Extent} {start size : Nat}
    (partition : Partition extents start size) : extents.Pairwise Disjoint := by
  have atMostOne : ∀ point, cover extents point ≤ 1 := by
    intro point
    rw [partition point]
    split_ifs <;> omega
  exact pairwise_of_cover atMostOne

theorem Partition.bounds {extents : List Extent} {start size : Nat}
    (partition : Partition extents start size) {extent : Extent} (member : extent ∈ extents)
    (nonempty : 0 < extent.size) : start ≤ extent.start ∧ extent.stop ≤ start + size := by
  have first : extent.Contains extent.start := ⟨Nat.le_refl _, by unfold stop; omega⟩
  have last : extent.Contains (extent.stop - 1) := by
    unfold Contains stop
    omega
  have atFirst := (partition.mem_iff _).mp ⟨extent, member, first⟩
  have atLast := (partition.mem_iff _).mp ⟨extent, member, last⟩
  unfold stop at *
  omega

theorem Disjoint.stop_le {left right : Extent} (disjoint : left.Disjoint right)
    (nonempty : 0 < right.size) (ordered : left.start ≤ right.start) :
    left.stop ≤ right.start := by
  by_contra overlap
  refine disjoint right.start ⟨⟨ordered, by omega⟩, Nat.le_refl _, ?_⟩
  unfold stop
  omega

end Extent

end DoggOS

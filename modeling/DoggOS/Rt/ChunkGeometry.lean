/-
Where the chunks of a page lie.

A page carved for bucket `main` holds equal chunks at the non-zero multiples of
the bucket size and, below the first of them, one chunk of each smaller bucket
at the offset that equals its size.  Sizes are the powers `2 ^ (bucket + 3)`;
each offset is a multiple of its own chunk size, two chunks never overlap, and
the page offset together with `main` determines the bucket.
-/

import DoggOS.Rt.SmallHeap
import Mathlib.Tactic.IntervalCases

namespace DoggOS.Rt

def chunkSize (bucket : Nat) : Nat := 2 ^ (bucket + 3)

theorem smallBucketSize_eq {bucket : Nat} (small : bucket < smallBucketCount) :
    smallBucketSize bucket = chunkSize bucket := by
  unfold smallBucketCount at small
  interval_cases bucket <;> rfl

theorem chunkSize_mono {bucket other : Nat} (order : bucket ≤ other) :
    chunkSize bucket ≤ chunkSize other :=
  Nat.pow_le_pow_right (by omega) (by omega)

theorem chunkSize_double {bucket other : Nat} (order : bucket < other) :
    2 * chunkSize bucket ≤ chunkSize other := by
  have next : chunkSize (bucket + 1) = 2 * chunkSize bucket := by
    unfold chunkSize
    ring
  exact next ▸ chunkSize_mono order

theorem eight_dvd_chunkSize (bucket : Nat) : 8 ∣ chunkSize bucket :=
  pow_dvd_pow 2 (Nat.le_add_left 3 bucket)

/-- A size of at most 2048 gets the first bucket that is large enough. -/
theorem smallBucketIndexFromSize_spec {size : Nat} (small : size ≤ 2048) :
    smallBucketIndexFromSize size < smallBucketCount ∧
      size ≤ chunkSize (smallBucketIndexFromSize size) ∧
      ∀ bucket, bucket < smallBucketIndexFromSize size → chunkSize bucket < size := by
  unfold smallBucketIndexFromSize
  cases found : (List.range smallBucketCount).find?
      (fun bucketIndex => decide (size ≤ smallBucketSize bucketIndex)) with
  | none =>
      have tooLarge := List.find?_eq_none.mp found 8 (by decide)
      rw [decide_eq_true_eq] at tooLarge
      exact absurd small tooLarge
  | some index =>
      obtain ⟨fits, inRange, earlier⟩ := List.find?_range_eq_some.mp found
      have bound : index < smallBucketCount := by simpa using inRange
      rw [Option.getD_some]
      refine ⟨bound, ?_, fun bucket below => ?_⟩
      · have enough := of_decide_eq_true fits
        rwa [smallBucketSize_eq bound] at enough
      · have notEnough := earlier bucket below
        rw [smallBucketSize_eq (below.trans bound)] at notEnough
        simpa using notEnough

theorem smallBucketIndexFromSize_large {size : Nat} (large : 2048 < size) :
    smallBucketIndexFromSize size = noBucket := by
  have none : (List.range smallBucketCount).find?
      (fun bucketIndex => decide (size ≤ smallBucketSize bucketIndex)) = none := by
    refine List.find?_eq_none.mpr fun bucket inRange => ?_
    have bound : bucket < 9 := List.mem_range.mp inRange
    have sized : smallBucketSize bucket ≤ 2048 := by interval_cases bucket <;> decide
    simp only [decide_eq_true_eq]
    omega
  unfold smallBucketIndexFromSize
  rw [none, Option.getD_none]

theorem smallBucketIndexFromSize_chunkSize {bucket : Nat} (small : bucket < smallBucketCount) :
    smallBucketIndexFromSize (chunkSize bucket) = bucket := by
  unfold smallBucketCount at small
  interval_cases bucket <;> rfl

/-- `chunk` was carved with the size of `bucket` from a page whose main bucket is `main`. -/
def CarvedAt (page main chunk bucket : Nat) : Prop :=
  (bucket = main ∧ ∃ slot, 0 < slot ∧ slot * chunkSize main < 4096 ∧
      chunk = page + slot * chunkSize main) ∨
    (bucket < main ∧ chunk = page + chunkSize bucket)

namespace CarvedAt

variable {page main chunk bucket other otherBucket : Nat}

theorem bucket_le (carved : CarvedAt page main chunk bucket) : bucket ≤ main := by
  rcases carved with ⟨same, -⟩ | ⟨below, -⟩
  · exact same.le
  · exact below.le

theorem inside (carved : CarvedAt page main chunk bucket) (mainSmall : main < smallBucketCount) :
    page + chunkSize bucket ≤ chunk ∧ chunk + chunkSize bucket ≤ page + 4096 ∧
      ∃ slot, chunk = page + slot * chunkSize bucket := by
  unfold smallBucketCount at mainSmall
  rcases carved with ⟨same, slot, positive, below, rfl⟩ | ⟨below, rfl⟩
  · subst same
    have first : chunkSize bucket ≤ slot * chunkSize bucket := Nat.le_mul_of_pos_left _ positive
    refine ⟨by omega, ?_, slot, rfl⟩
    unfold chunkSize at *
    interval_cases bucket <;> omega
  · have half := chunkSize_double below
    have whole : chunkSize main ≤ 2048 := by
      unfold chunkSize
      interval_cases main <;> omega
    exact ⟨le_rfl, by omega, 1, by rw [Nat.one_mul]⟩

theorem disjoint (carved : CarvedAt page main chunk bucket)
    (carvedOther : CarvedAt page main other otherBucket) (different : chunk < other) :
    chunk + chunkSize bucket ≤ other := by
  rcases carved with ⟨rfl, slot, positive, -, rfl⟩ | ⟨below, rfl⟩
  · rcases carvedOther with ⟨rfl, otherSlot, -, -, rfl⟩ | ⟨otherBelow, rfl⟩
    · have ordered : slot * chunkSize otherBucket < otherSlot * chunkSize otherBucket := by omega
      have next : slot + 1 ≤ otherSlot := Nat.lt_of_mul_lt_mul_right ordered
      have room := Nat.mul_le_mul_right (chunkSize otherBucket) next
      rw [Nat.succ_mul] at room
      omega
    · have half := chunkSize_double otherBelow
      have first := Nat.le_mul_of_pos_left (chunkSize bucket) positive
      omega
  · rcases carvedOther with ⟨rfl, otherSlot, positive, -, rfl⟩ | ⟨-, rfl⟩
    · have half := chunkSize_double below
      have first := Nat.le_mul_of_pos_left (chunkSize otherBucket) positive
      omega
    · have order : bucket < otherBucket := by
        by_contra notBelow
        have smaller := chunkSize_mono (Nat.le_of_not_lt notBelow)
        omega
      have half := chunkSize_double order
      omega

/-- The page offset capped by the main bucket gives back the bucket of the carving. -/
theorem bucket_of_offset (carved : CarvedAt page main chunk bucket)
    (mainSmall : main < smallBucketCount) :
    (if main < smallBucketIndexFromSize (chunk - page) then main
      else smallBucketIndexFromSize (chunk - page)) = bucket := by
  rcases carved with ⟨rfl, slot, positive, -, rfl⟩ | ⟨below, rfl⟩
  · rw [Nat.add_sub_cancel_left]
    have first := Nat.le_mul_of_pos_left (chunkSize bucket) positive
    by_cases large : 2048 < slot * chunkSize bucket
    · rw [smallBucketIndexFromSize_large large]
      unfold smallBucketCount at mainSmall
      exact if_pos (mainSmall.trans (by decide))
    · obtain ⟨-, enough, -⟩ := smallBucketIndexFromSize_spec (Nat.le_of_not_lt large)
      have reached : bucket ≤ smallBucketIndexFromSize (slot * chunkSize bucket) := by
        by_contra below
        have half := chunkSize_double (Nat.lt_of_not_le below)
        have positive := Nat.two_pow_pos (smallBucketIndexFromSize (slot * chunkSize bucket) + 3)
        unfold chunkSize at *
        omega
      split_ifs <;> omega
  · rw [Nat.add_sub_cancel_left, smallBucketIndexFromSize_chunkSize (below.trans mainSmall)]
    exact if_neg (by omega)

end CarvedAt

end DoggOS.Rt

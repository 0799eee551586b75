/-
What `k_mem_BestFitRange` chooses.

The scan ends at a range that no later one beats in size or in base.  That is
the smallest fitting range only when no range listed after the smallest one
lies below it: a lower base alone is enough to replace it.
-/

import DoggOS.Library.Extent
import DoggOS.Mem.MemoryRanges
import Mathlib.Data.List.Pairwise

namespace DoggOS.Mem

namespace MemRange

def extent (range : MemRange) : Extent := ⟨range.base, range.size⟩

/-- The range without its first `size` bytes; nothing is left of a range of exactly that size. -/
def cut (range : MemRange) (size : Nat) : List MemRange :=
  if range.size = size then []
  else [{ range with base := range.base + size, size := range.size - size }]

/-- Smallest range with room for `size` bytes, and the lowest of those. -/
structure IsBestFit (best : MemRange) (ranges : List MemRange) (size : Nat) : Prop where
  fits : size ≤ best.size
  least : ∀ other ∈ ranges, size ≤ other.size →
    best.size < other.size ∨ best.size = other.size ∧ best.base ≤ other.base

end MemRange

def roundedSize (size : Nat) : Nat := (size + 15) / 16 * 16

theorem alignSize_eq {size : Nat} (word : roundedSize size < wordLimit) :
    alignSize size = roundedSize size := by
  unfold alignSize
  unfold roundedSize wordLimit at *
  by_cases aligned : size % 16 = 0
  · simp only [aligned, ne_eq, not_true_eq_false, if_false]
    omega
  · simp only [ne_eq, aligned, not_false_eq_true, if_true]
    omega

section Scan

variable {size : Nat}

theorem takesPlace_none (range : MemRange) : takesPlace size none range = true ↔ size ≤ range.size := by
  simp [takesPlace]

theorem takesPlace_some (place : Nat) (chosen range : MemRange) :
    takesPlace size (some (place, chosen)) range = true ↔
      size ≤ range.size ∧ (range.size < chosen.size ∨ range.base < chosen.base) := by
  simp [takesPlace]

theorem bestRange_stays (ranges : List MemRange) (index : Nat) {best : Option (Nat × MemRange)}
    (unbeaten : ∀ x ∈ ranges, ¬ takesPlace size best x = true) :
    bestRange size ranges index best = best := by
  induction ranges generalizing index with
  | nil => rfl
  | cons range rest ih =>
      rw [bestRange, if_neg (unbeaten range List.mem_cons_self)]
      exact ih (index + 1) fun x member => unbeaten x (List.mem_cons_of_mem _ member)

theorem bestRange_append (front back : List MemRange) (index : Nat)
    (best : Option (Nat × MemRange)) :
    bestRange size (front ++ back) index best =
      bestRange size back (index + front.length) (bestRange size front index best) := by
  induction front generalizing index best with
  | nil => rfl
  | cons range rest ih =>
      rw [List.cons_append, bestRange, bestRange, ih, List.length_cons]
      congr 1
      omega

/-- The scan keeps what it started from, or ends at a range whose place no later one takes. -/
theorem bestRange_cases (ranges : List MemRange) (index : Nat) (best : Option (Nat × MemRange)) :
    (bestRange size ranges index best = best ∧ ∀ x ∈ ranges, ¬ takesPlace size best x = true) ∨
      ∃ before range after, ranges = before ++ range :: after ∧ size ≤ range.size ∧
        (∀ x ∈ after, size ≤ x.size → range.size ≤ x.size ∧ range.base ≤ x.base) ∧
        bestRange size ranges index best = some (index + before.length, range) := by
  induction ranges generalizing index best with
  | nil => exact .inl ⟨rfl, by simp⟩
  | cons range rest ih =>
      rw [bestRange]
      by_cases takes : takesPlace size best range = true
      · rw [if_pos takes]
        have fits : size ≤ range.size := by
          unfold takesPlace at takes
          simp only [Bool.and_eq_true, decide_eq_true_eq] at takes
          exact takes.1
        rcases ih (index + 1) (some (index, range)) with
          ⟨kept, unbeaten⟩ | ⟨before, chosen, after, split, chosenFits, unbeaten, found⟩
        · refine .inr ⟨[], range, rest, rfl, fits, fun x member xFits => ?_, kept⟩
          have loses := unbeaten x member
          rw [takesPlace_some] at loses
          omega
        · refine .inr ⟨range :: before, chosen, after, by rw [split]; rfl, chosenFits, unbeaten, ?_⟩
          rw [found, List.length_cons]
          congr 2
          omega
      · rw [if_neg takes]
        rcases ih (index + 1) best with
          ⟨kept, unbeaten⟩ | ⟨before, chosen, after, split, chosenFits, unbeaten, found⟩
        · refine .inl ⟨kept, fun x member => ?_⟩
          rcases List.mem_cons.mp member with rfl | later
          · exact takes
          · exact unbeaten x later
        · refine .inr ⟨range :: before, chosen, after, by rw [split]; rfl, chosenFits, unbeaten, ?_⟩
          rw [found, List.length_cons]
          congr 2
          omega

end Scan

/-- What the call does: nothing, or a cut at the start of a range that no later one beats. -/
theorem bestFitRange_cases (ranges : List MemRange) (available size : Nat) :
    (bestFitRange ranges available size = (0, ranges, available) ∧
        ∀ x ∈ ranges, ¬ alignSize size ≤ x.size) ∨
      ∃ before range after, ranges = before ++ range :: after ∧ alignSize size ≤ range.size ∧
        (∀ x ∈ after, alignSize size ≤ x.size → range.size ≤ x.size ∧ range.base ≤ x.base) ∧
        bestRange (alignSize size) ranges 0 none = some (before.length, range) ∧
        bestFitRange ranges available size = (range.base % wordLimit,
          before ++ range.cut (alignSize size) ++ after,
          (available + wordLimit - alignSize size) % wordLimit) := by
  rcases bestRange_cases ranges 0 none with
    ⟨none, tooSmall⟩ | ⟨before, range, after, rfl, fits, unbeaten, found⟩
  · refine .inl ⟨?_, fun x member fits => tooSmall x member ((takesPlace_none x).mpr fits)⟩
    unfold bestFitRange
    simp only [none]
  · rw [Nat.zero_add] at found
    refine .inr ⟨before, range, after, rfl, fits, unbeaten, found, ?_⟩
    unfold bestFitRange MemRange.cut
    simp only [found]
    by_cases whole : range.size = alignSize size
    · rw [if_pos (by omega), if_pos whole, List.eraseIdx_append_of_length_le (Nat.le_refl _)]
      simp
    · rw [if_neg (by omega), if_neg whole]
      simp

/-- The scan ends at the smallest range when no later one lies lower. -/
theorem bestRange_of_isBestFit {before after : List MemRange} {best : MemRange} {size : Nat}
    (isBest : best.IsBestFit (before ++ best :: after) size)
    (higher : ∀ x ∈ after, size ≤ x.size → best.base ≤ x.base) :
    ∃ place chosen, bestRange size (before ++ best :: after) 0 none = some (place, chosen) ∧
      chosen.size = best.size ∧ chosen.base = best.base := by
  have reached : ∃ place chosen,
      bestRange size (before ++ [best]) 0 none = some (place, chosen) ∧
        chosen.size = best.size ∧ chosen.base = best.base := by
    rw [bestRange_append]
    simp only [bestRange]
    rcases bestRange_cases before 0 none with
      ⟨none, -⟩ | ⟨front, chosen, back, split, fits, -, found⟩
    · rw [none, if_pos ((takesPlace_none best).mpr isBest.fits)]
      exact ⟨_, best, rfl, rfl, rfl⟩
    · rw [found]
      by_cases takes : takesPlace size (some (0 + front.length, chosen)) best = true
      · rw [if_pos takes]
        exact ⟨_, best, rfl, rfl, rfl⟩
      · rw [if_neg takes]
        rw [takesPlace_some] at takes
        have least := isBest.least chosen (by simp [split]) fits
        have bestFits := isBest.fits
        exact ⟨_, chosen, rfl, by omega, by omega⟩
  obtain ⟨place, chosen, found, sameSize, sameBase⟩ := reached
  refine ⟨place, chosen, ?_, sameSize, sameBase⟩
  rw [List.append_cons, bestRange_append, found]
  refine bestRange_stays _ _ fun x member => ?_
  rw [takesPlace_some]
  rintro ⟨fits, beats⟩
  have least := isBest.least x (by simp [member]) fits
  have above := higher x member fits
  omega

/-- What best fit promises: null when nothing fits, else a cut from the smallest and lowest range
that fits. -/
structure TakesBestFit (ranges : List MemRange) (available size : Nat) : Prop where
  null_iff : bestFitRange ranges available size = (0, ranges, available) ↔
    ∀ range ∈ ranges, ¬ roundedSize size ≤ range.size
  takes : (∃ range ∈ ranges, roundedSize size ≤ range.size) → ∃ before best after,
    ranges = before ++ best :: after ∧ best.IsBestFit ranges (roundedSize size) ∧
      bestFitRange ranges available size = (best.base,
        before ++ best.cut (roundedSize size) ++ after,
        (available + wordLimit - roundedSize size) % wordLimit)

/-- No range listed after the smallest one that fits lies below it.  The last part leaves out a
request of no bytes at the range with base zero, whose address reads as null. -/
def BestUnchallenged (ranges : List MemRange) (size : Nat) : Prop :=
  ∃ before best after, ranges = before ++ best :: after ∧
    best.IsBestFit ranges (roundedSize size) ∧
    (∀ x ∈ after, roundedSize size ≤ x.size → best.base ≤ x.base) ∧
    ¬ (size = 0 ∧ best.base = 0 ∧ 0 < best.size)

section Choice

variable {ranges : List MemRange} {available size : Nat}

theorem takesBestFit_of_unchallenged (words : ∀ range ∈ ranges, range.base < wordLimit)
    (noOverflow : roundedSize size < wordLimit) (unchallenged : BestUnchallenged ranges size) :
    TakesBestFit ranges available size := by
  obtain ⟨before, best, after, rfl, isBest, higher, nonNull⟩ := unchallenged
  have aligned := alignSize_eq noOverflow
  obtain ⟨place, chosen, found, sameSize, sameBase⟩ := bestRange_of_isBestFit isBest higher
  rcases bestFitRange_cases (before ++ best :: after) available size with
    ⟨-, tooSmall⟩ | ⟨front, range, back, split, fits, -, foundRange, result⟩
  · rw [aligned] at tooSmall
    exact absurd isBest.fits (tooSmall best (by simp))
  rw [aligned] at fits foundRange result
  rw [found, Option.some_inj] at foundRange
  obtain ⟨-, rfl⟩ := Prod.mk.inj foundRange
  have inRanges : chosen ∈ before ++ best :: after := by simp [split]
  rw [Nat.mod_eq_of_lt (words chosen inRanges)] at result
  constructor
  · refine iff_of_false (fun unchanged => ?_) (fun none => none chosen inRanges fits)
    rw [result] at unchanged
    obtain ⟨null, same, -⟩ := Prod.mk.inj unchanged |>.imp_right Prod.mk.inj
    have kept : chosen.cut (roundedSize size) = [chosen] := by
      rw [split, List.append_assoc, List.append_cancel_left_eq] at same
      exact List.append_cancel_right (same.trans (List.singleton_append ..).symm)
    unfold MemRange.cut at kept
    split_ifs at kept with whole
    have noBytes : chosen.base + roundedSize size = chosen.base :=
      congrArg MemRange.base (List.singleton_inj.mp kept)
    unfold roundedSize at noBytes whole
    exact nonNull ⟨by omega, by omega, by omega⟩
  · intro _
    refine ⟨front, chosen, back, split, ⟨fits, fun other member otherFits => ?_⟩, result⟩
    rw [sameSize, sameBase]
    exact isBest.least other member otherFits

theorem unchallenged_of_takesBestFit
    (words : ∀ range ∈ ranges, range.base < wordLimit ∧ range.size < wordLimit)
    (disjoint : ranges.Pairwise (fun a b => a.extent.Disjoint b.extent))
    (availableWord : available < wordLimit) (noOverflow : roundedSize size < wordLimit)
    (takes : TakesBestFit ranges available size)
    (some : ∃ range ∈ ranges, roundedSize size ≤ range.size) : BestUnchallenged ranges size := by
  obtain ⟨before, best, after, split, isBest, result⟩ := takes.takes some
  have aligned := alignSize_eq noOverflow
  have inRanges : best ∈ ranges := by simp [split]
  rcases bestFitRange_cases ranges available size with
    ⟨-, tooSmall⟩ | ⟨front, chosen, back, splitChosen, fits, unbeaten, -, resultChosen⟩
  · rw [aligned] at tooSmall
    exact absurd isBest.fits (tooSmall best inRanges)
  rw [aligned] at fits unbeaten resultChosen
  have chosenIn : chosen ∈ ranges := by simp [splitChosen]
  rw [resultChosen] at result
  obtain ⟨sameBase, sameList, -⟩ := Prod.mk.inj result |>.imp_right Prod.mk.inj
  rw [Nat.mod_eq_of_lt (words chosen chosenIn).1] at sameBase
  have sizes : chosen.size = best.size := by
    have least := isBest.least chosen chosenIn fits
    by_cases same : chosen = best
    · rw [same]
    have symmetric : Std.Symm fun a b : MemRange => a.extent.Disjoint b.extent :=
      ⟨fun _ _ => Extent.Disjoint.symm⟩
    have apart : chosen.extent.Disjoint best.extent := disjoint.forall chosenIn inRanges same
    by_cases empty : best.size = 0
    · -- An empty range goes away, so the list got shorter and the chosen range was empty too.
      have lengths := congrArg List.length sameList
      have bestFits := isBest.fits
      have cutBest : best.cut (roundedSize size) = [] := by
        unfold MemRange.cut
        rw [if_pos (by omega)]
      have total := congrArg List.length (split.symm.trans splitChosen)
      rw [cutBest] at lengths
      simp only [List.length_append, List.length_cons, List.length_nil] at lengths total
      unfold MemRange.cut at lengths
      split_ifs at lengths with whole
      · omega
      · simp only [List.length_cons, List.length_nil] at lengths
        omega
    · refine absurd ⟨?_, ?_⟩ (apart best.base)
      · unfold Extent.Contains Extent.stop MemRange.extent
        simp only
        omega
      · unfold Extent.Contains Extent.stop MemRange.extent
        simp only
        omega
  refine ⟨front, chosen, back, splitChosen, ⟨fits, fun other member otherFits => ?_⟩,
    fun x member xFits => (unbeaten x member xFits).2, ?_⟩
  · rw [sizes, sameBase]
    exact isBest.least other member otherFits
  · rintro ⟨rfl, null, positive⟩
    have kept : chosen.cut (roundedSize 0) = [chosen] := by
      unfold MemRange.cut roundedSize
      rw [if_neg (by omega)]
      simp
    refine takes.null_iff.mp ?_ chosen chosenIn fits
    rw [resultChosen, kept, null, splitChosen]
    unfold roundedSize
    rw [Nat.sub_zero, Nat.add_mod_right, Nat.mod_eq_of_lt availableWord]
    simp [Nat.zero_mod]

end Choice

/-- `k_mem_BestFitRange` takes the best fit exactly when no fitting range listed after it lies
below it. -/
theorem bestFitRange_takesBestFit_iff (ranges : List MemRange) (available size : Nat)
    (words : ∀ range ∈ ranges, range.base < wordLimit ∧ range.size < wordLimit)
    (disjoint : ranges.Pairwise (fun a b => a.extent.Disjoint b.extent))
    (availableWord : available < wordLimit) (noOverflow : roundedSize size < wordLimit) :
    TakesBestFit ranges available size ↔
      (∀ range ∈ ranges, ¬ roundedSize size ≤ range.size) ∨ BestUnchallenged ranges size := by
  by_cases some : ∃ range ∈ ranges, roundedSize size ≤ range.size
  · have notNone : ¬ ∀ range ∈ ranges, ¬ roundedSize size ≤ range.size := by
      push Not
      exact some
    rw [or_iff_right notNone]
    exact ⟨fun takes => unchallenged_of_takesBestFit words disjoint availableWord noOverflow takes
      some, takesBestFit_of_unchallenged (fun range member => (words range member).1) noOverflow⟩
  · have none : ∀ range ∈ ranges, ¬ roundedSize size ≤ range.size := by
      push Not at some ⊢
      exact some
    refine iff_of_true ⟨iff_of_true ?_ none, fun fits => absurd fits some⟩ (.inl none)
    rcases bestFitRange_cases ranges available size with
      ⟨unchanged, -⟩ | ⟨front, chosen, back, split, fits, -⟩
    · exact unchanged
    · rw [alignSize_eq noOverflow] at fits
      exact absurd fits (none chosen (by simp [split]))

def twoMemRanges : List MemRange := [⟨0x1000, 0x9000, 1⟩, ⟨0x100000, 0x2000, 1⟩]

theorem bestFitRange_takesBestFit_iff_two : TakesBestFit twoMemRanges 0xb000 100 :=
  (bestFitRange_takesBestFit_iff twoMemRanges 0xb000 100 (by decide)
    (by
      refine List.pairwise_cons.mpr ⟨fun other member => ?_, List.pairwise_singleton _ _⟩
      rw [List.mem_singleton.mp member]
      exact Extent.disjoint_of_stop_le (by decide))
    (by decide) (by decide)).mpr
    (.inr ⟨[⟨0x1000, 0x9000, 1⟩], ⟨0x100000, 0x2000, 1⟩, [], rfl, ⟨by decide, by decide⟩,
      by decide, by decide⟩)

/-- The same two ranges in the other order: the large one is cut because it lies lower. -/
theorem bestFitRange_takes_lower :
    ¬ ∀ (ranges : List MemRange) (available size : Nat),
      (∀ range ∈ ranges, range.base < wordLimit ∧ range.size < wordLimit) →
      ranges.Pairwise (fun a b => a.extent.Disjoint b.extent) → available < wordLimit →
      roundedSize size < wordLimit → TakesBestFit ranges available size := by
  intro takes
  have disjoint : twoMemRanges.reverse.Pairwise (fun a b => a.extent.Disjoint b.extent) := by
    refine List.pairwise_cons.mpr ⟨fun other member => ?_, List.pairwise_singleton _ _⟩
    rw [List.mem_singleton.mp member]
    exact (Extent.disjoint_of_stop_le (by decide)).symm
  have twoTakes := takes twoMemRanges.reverse 0xb000 100 (by decide) disjoint (by decide) (by decide)
  obtain ⟨before, best, after, split, isBest, result⟩ :=
    twoTakes.takes ⟨⟨0x1000, 0x9000, 1⟩, by decide, by decide⟩
  have atLow : (bestFitRange twoMemRanges.reverse 0xb000 100).1 = 0x1000 := by decide
  have inRanges : best ∈ twoMemRanges.reverse := by simp [split]
  have small := isBest.least ⟨0x100000, 0x2000, 1⟩ (by decide) (by decide)
  rw [result] at atLow
  have low : best.base = 0x1000 := atLow
  have either : best = ⟨0x100000, 0x2000, 1⟩ ∨ best = ⟨0x1000, 0x9000, 1⟩ := by
    simpa [twoMemRanges] using inRanges
  rcases either with rfl | rfl
  · exact absurd low (by decide)
  · exact absurd small (by decide)

end DoggOS.Mem

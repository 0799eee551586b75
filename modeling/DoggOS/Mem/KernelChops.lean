/-
Taking an interval of pages out of the free ranges.

`FreeShape` reads the free part of the array as a list.  Each turn of the loop
then replaces one range by what the interval leaves of it, and the sorted list
lets it stop at the first range above the interval.  One case goes wrong: a
range that the interval cuts in two needs a second slot, and the loop that
should make room for it never runs, so the next free range is overwritten.
-/

import DoggOS.Library.ExtentCuts
import DoggOS.Mem.KernelData

namespace DoggOS.Mem

open ArrayMove Extent

structure VrList.FreeShape (list : VrList) (free : List VRange) : Prop where
  freeCount : list.freeCount = free.length
  holds : Holds list.ranges 0 free

namespace VrList

variable {list : VrList} {done rest : List VRange} {r : VRange} {index start stop : Nat}

theorem FreeShape.freeRanges_eq {free : List VRange} (shape : list.FreeShape free) :
    list.freeRanges = free := by
  unfold freeRanges
  rw [shape.freeCount, List.range_eq_range']
  exact shape.holds.eq_map

theorem freeShape_freeRanges (list : VrList) : list.FreeShape list.freeRanges := by
  have length : list.freeRanges.length = list.freeCount := by
    unfold freeRanges
    rw [List.length_map, List.length_range]
  refine ⟨length.symm, (holds_iff_getElem ..).mpr fun slot inside => ?_⟩
  simp [freeRanges]

theorem FreeShape.ranges_eq (shape : list.FreeShape (done ++ r :: rest))
    (atIndex : index = done.length) : list.ranges index = r := by
  have holds := shape.holds
  rw [holds_append, holds_cons, Nat.zero_add] at holds
  exact atIndex ▸ holds.2.1

section Turns

variable (shape : list.FreeShape (done ++ r :: rest)) (atIndex : index = done.length)
include shape atIndex

theorem FreeShape.index_lt : index < list.freeCount := by
  rw [shape.freeCount, atIndex, List.length_append, List.length_cons]
  omega

theorem FreeShape.replace (piece : VRange) :
    VrList.FreeShape { list with ranges := Function.update list.ranges index piece }
      (done ++ piece :: rest) := by
  have holds := shape.holds
  simp only [holds_append, holds_cons, Nat.zero_add] at holds
  obtain ⟨holdsDone, -, holdsRest⟩ := holds
  refine ⟨by simpa using shape.freeCount, ?_⟩
  simp only [holds_append, holds_cons, Nat.zero_add, ← atIndex, Function.update_self, true_and]
  rw [← atIndex] at holdsRest
  exact ⟨holdsDone.update _ (.inr (by omega)), holdsRest.update _ (.inl (by omega))⟩

theorem FreeShape.turn_above (above : stop ≤ r.start) :
    chopTurn start stop (index, list) = none := by
  unfold chopTurn
  simp only [shape.ranges_eq atIndex, if_pos (shape.index_lt atIndex), if_pos above]
  rw [if_neg (by omega)]

theorem FreeShape.turn_below (starts : r.start < stop) (below : r.stop ≤ start) :
    chopTurn start stop (index, list) = some (index + 1, list) := by
  unfold Extent.stop at below
  unfold chopTurn
  simp only [shape.ranges_eq atIndex, if_pos (shape.index_lt atIndex)]
  rw [if_neg (by omega), if_neg (by omega)]

/-- A range inside the interval is dropped, and the loop looks at the same slot again. -/
theorem FreeShape.turn_covered (nonempty : 0 < r.size) (lower : start ≤ r.start)
    (upper : r.stop ≤ stop) :
    ∃ list', chopTurn start stop (index, list) = some (index, list') ∧
      list'.FreeShape (done ++ rest) := by
  refine ⟨list.dropFree index, ?_, ?_⟩
  · unfold Extent.stop at upper
    unfold chopTurn
    simp only [shape.ranges_eq atIndex, if_pos (shape.index_lt atIndex)]
    rw [if_pos (by omega), if_pos (by omega)]
  · have freeCount := shape.freeCount
    have holds := shape.holds
    simp only [holds_append, holds_cons, Nat.zero_add, List.length_append, List.length_cons]
      at holds freeCount
    obtain ⟨holdsDone, -, holdsRest⟩ := holds
    refine ⟨by simp only [dropFree, freeCount, List.length_append]; omega, ?_⟩
    rw [holds_append, Nat.zero_add]
    exact ⟨holdsDone.moveDown_outside Nat.one_pos (.inl (by omega)),
      holdsRest.moveDown Nat.one_pos (by omega) (by omega) (by omega)⟩

theorem FreeShape.turn_trimmed (starts : r.start < stop) (ends : start < r.stop)
    (notCovered : ¬ (start ≤ r.start ∧ r.stop ≤ stop))
    (notSplit : ¬ (r.start < start ∧ stop < r.stop)) :
    ∃ list' piece, chopTurn start stop (index, list) = some (index + 1, list') ∧
      r.without start stop = [piece] ∧ list'.FreeShape (done ++ piece :: rest) := by
  have atFree := shape.ranges_eq atIndex
  have turned : chopTurn start stop (index, list) =
      some (index + 1, list.trimFree index start stop) := by
    unfold Extent.stop at ends notCovered
    unfold chopTurn
    simp only [atFree, if_pos (shape.index_lt atIndex)]
    rw [if_pos (by omega), if_neg (by omega)]
  have edited (piece : VRange) (cut : r.without start stop = [piece])
      (trimmed : list.trimFree index start stop =
        { list with ranges := Function.update list.ranges index piece }) :
      ∃ list' piece, chopTurn start stop (index, list) = some (index + 1, list') ∧
        r.without start stop = [piece] ∧ list'.FreeShape (done ++ piece :: rest) := by
    refine ⟨_, piece, turned, cut, ?_⟩
    rw [trimmed]
    exact shape.replace atIndex piece
  unfold Extent.stop at notCovered notSplit ends
  by_cases lower : r.start < start
  · refine edited ⟨r.start, start - r.start⟩ ?_ ?_
    · unfold without Extent.stop
      rw [if_pos lower, if_neg (by omega), Nat.min_eq_right (by omega), List.append_nil]
    · unfold trimFree
      simp only [atFree]
      rw [if_pos lower.le, if_neg (by omega)]
  · refine edited ⟨stop, r.stop - stop⟩ ?_ ?_
    · unfold without Extent.stop
      rw [if_neg lower, if_pos (by omega), Nat.max_eq_right starts.le, List.nil_append]
    · have noLowerPart : (if r.start ≤ start then start - r.start else 0) = 0 := by
        split_ifs <;> omega
      unfold trimFree Extent.stop
      simp only [atFree, noLowerPart, if_true, Function.update_idem]
      rw [if_pos (by omega), show r.start + r.size - (r.start + r.size - stop) = stop by omega]

/-- A range cut in two takes the slot of the next free range, and the array has one free range
more. -/
theorem FreeShape.turn_split (lower : r.start < start) (upper : stop < r.stop)
    (ordered : start ≤ stop) :
    ∃ list', chopTurn start stop (index, list) = some (index + 1, list') ∧
      list'.FreeShape (done ++ ⟨r.start, start - r.start⟩ :: ⟨stop, r.stop - stop⟩ ::
        (rest ++ [list.ranges list.freeCount]).tail) := by
  have atFree := shape.ranges_eq atIndex
  have inFree := shape.index_lt atIndex
  have freeCount := shape.freeCount
  have holds := shape.holds
  refine ⟨list.trimFree index start stop, ?_, ?_⟩
  · unfold Extent.stop at upper
    unfold chopTurn
    simp only [atFree, if_pos inFree]
    rw [if_pos (by omega), if_neg (by omega)]
  -- The copy loop runs `index + 1 - freeCount` times, which is never.
  have trimmed : list.trimFree index start stop =
      { list with
        freeCount := list.freeCount + 1
        ranges := Function.update
          (Function.update list.ranges index ⟨r.start, start - r.start⟩) (index + 1)
          ⟨stop, r.stop - stop⟩ } := by
    unfold Extent.stop at upper ⊢
    unfold trimFree
    simp only [atFree, if_pos lower.le, show index + 1 - list.freeCount = 0 by omega, copyForward]
    rw [if_pos (by omega), if_neg (by omega),
      show r.start + r.size - (r.start + r.size - stop) = stop by omega]
  have extended : Holds list.ranges 0 ((done ++ [r]) ++ (rest ++ [list.ranges list.freeCount])) := by
    rw [← List.append_assoc, holds_append, List.append_assoc, List.singleton_append]
    refine ⟨holds, ?_, trivial⟩
    rw [← freeCount, Nat.zero_add]
  rw [trimmed]
  refine ⟨?_, ?_⟩
  · simp only [freeCount, List.length_append, List.length_cons, List.length_tail, List.length_nil]
    omega
  · rw [holds_append, holds_append, Nat.zero_add, Nat.zero_add] at extended
    obtain ⟨⟨holdsDone, -⟩, holdsRest⟩ := extended
    obtain ⟨next, later, split⟩ := List.exists_cons_of_ne_nil
      (show rest ++ [list.ranges list.freeCount] ≠ [] by simp)
    rw [split] at holdsRest ⊢
    simp only [List.length_append, List.length_cons, List.length_nil] at holdsRest
    rw [holds_append, Nat.zero_add, List.tail_cons]
    refine ⟨(holdsDone.update _ (.inr (by omega))).update _ (.inr (by omega)), ?_, ?_,
      (holdsRest.2.update _ (.inl (by omega))).update _ (.inl (by omega))⟩
    · simp only [← atIndex]
      rw [Function.update_of_ne (by omega), Function.update_self]
    · simp only [← atIndex]
      rw [Function.update_self]

end Turns

theorem whileLoop_below (before : List VRange) (shape : list.FreeShape (done ++ (before ++ rest)))
    (below : ∀ x ∈ before, x.start < stop ∧ x.stop ≤ start) (turns : Nat) :
    whileLoop (chopTurn start stop) (before.length + turns) (done.length, list) =
      whileLoop (chopTurn start stop) turns (done.length + before.length, list) := by
  induction before generalizing done with
  | nil => simp
  | cons x before ih =>
      obtain ⟨starts, ends⟩ := below x List.mem_cons_self
      have passed : list.FreeShape ((done ++ [x]) ++ (before ++ rest)) := by
        simpa using shape
      have later := ih passed fun other member => below other (List.mem_cons_of_mem _ member)
      rw [List.length_append, List.length_singleton] at later
      rw [List.length_cons, show before.length + 1 + turns = before.length + turns + 1 by omega,
        WhileLoop.turn (shape.turn_below rfl starts ends), later]
      congr 2
      omega

/-- Without a range that the interval cuts in two, the list ends as what the interval leaves. -/
theorem FreeShape.whileLoop_whole (shape : list.FreeShape (done ++ rest)) (ordered : start ≤ stop)
    (nonempty : ∀ x ∈ rest, 0 < x.size) (sorted : rest.Pairwise (fun a b => a.stop ≤ b.start))
    (whole : ∀ x ∈ rest, ¬ (x.start < start ∧ stop < x.stop)) :
    ∃ index list', (∀ turns, rest.length < turns →
        whileLoop (chopTurn start stop) turns (done.length, list) = some (index, list')) ∧
      list'.FreeShape (done ++ rest.flatMap (without start stop)) := by
  induction rest generalizing done list with
  | nil =>
      refine ⟨done.length, list, fun turns enough => ?_, shape⟩
      obtain ⟨turns, rfl⟩ := Nat.exists_eq_add_of_lt enough
      refine WhileLoop.stop ?_ _
      unfold chopTurn
      simp [shape.freeCount]
  | cons r rest ih =>
      have positive := nonempty r List.mem_cons_self
      have later : ∀ x ∈ rest, 0 < x.size := fun x member =>
        nonempty x (List.mem_cons_of_mem _ member)
      have laterWhole : ∀ x ∈ rest, ¬ (x.start < start ∧ stop < x.stop) := fun x member =>
        whole x (List.mem_cons_of_mem _ member)
      obtain ⟨rBefore, laterSorted⟩ := List.pairwise_cons.mp sorted
      by_cases above : stop ≤ r.start
      · -- The rest of the list lies above the interval too.
        refine ⟨done.length, list, fun turns enough => ?_, ?_⟩
        · obtain ⟨turns, rfl⟩ := Nat.exists_eq_add_of_lt enough
          exact WhileLoop.stop (shape.turn_above rfl above) _
        · rwa [flatMap_without_self fun x member => ?_]
          refine without_of_le_start ?_ ordered (nonempty x member)
          rcases List.mem_cons.mp member with rfl | inRest
          · exact above
          · have next := rBefore x inRest
            unfold Extent.stop at next
            omega
      have starts : r.start < stop := Nat.lt_of_not_le above
      have advance {list' : VrList} {pieces : List VRange} (index : Nat)
          (turned : chopTurn start stop (done.length, list) = some (index, list'))
          (atIndex : index = (done ++ pieces).length)
          (cut : r.without start stop = pieces) (turnedShape : list'.FreeShape (done ++ pieces ++ rest)) :
          ∃ index list', (∀ turns, (r :: rest).length < turns →
              whileLoop (chopTurn start stop) turns (done.length, list) = some (index, list')) ∧
            list'.FreeShape (done ++ (r :: rest).flatMap (without start stop)) := by
        obtain ⟨last, after, ran, ended⟩ := ih turnedShape later laterSorted laterWhole
        refine ⟨last, after, fun turns enough => ?_, ?_⟩
        · cases turns with
          | zero => omega
          | succ turns =>
              rw [WhileLoop.turn turned, atIndex]
              exact ran turns (by simpa using enough)
        · rwa [List.flatMap_cons, cut, ← List.append_assoc]
      by_cases below : r.stop ≤ start
      · exact advance _ (shape.turn_below rfl starts below) (by simp)
          (without_of_stop_le below ordered positive) (by simpa using shape)
      by_cases covered : start ≤ r.start ∧ r.stop ≤ stop
      · obtain ⟨list', turned, dropped⟩ := shape.turn_covered rfl positive covered.1 covered.2
        exact advance _ turned (by simp) (without_of_covered covered.1 covered.2)
          (by simpa using dropped)
      · obtain ⟨list', piece, turned, cut, trimmed⟩ := shape.turn_trimmed rfl starts
          (Nat.lt_of_not_le below) covered (whole r List.mem_cons_self)
        exact advance _ turned (by simp) cut (by simpa using trimmed)

/-- The interval cuts one range in two: the loop stops right after it. -/
theorem FreeShape.whileLoop_split {before after : List VRange}
    (shape : list.FreeShape (before ++ r :: after)) (ordered : start ≤ stop)
    (below : ∀ x ∈ before, x.start < stop ∧ x.stop ≤ start)
    (lower : r.start < start) (upper : stop < r.stop) :
    ∃ index list', (∀ turns, before.length + 2 ≤ turns →
        whileLoop (chopTurn start stop) turns (0, list) = some (index, list')) ∧
      list'.FreeShape (before ++ ⟨r.start, start - r.start⟩ :: ⟨stop, r.stop - stop⟩ ::
        (after ++ [list.ranges list.freeCount]).tail) := by
  obtain ⟨list', turned, split⟩ := shape.turn_split rfl lower upper ordered
  refine ⟨before.length + 1, list', fun turns enough => ?_, split⟩
  obtain ⟨turns, rfl⟩ := Nat.exists_eq_add_of_le enough
  have initial : list.FreeShape ([] ++ (before ++ r :: after)) := shape
  have passed := whileLoop_below before initial below (turns + 2)
  rw [List.length_nil, Nat.zero_add] at passed
  rw [show before.length + 2 + turns = before.length + (turns + 2) by omega, passed,
    WhileLoop.turn turned]
  have next : list'.FreeShape ((before ++ [⟨r.start, start - r.start⟩]) ++
      ⟨stop, r.stop - stop⟩ :: (after ++ [list.ranges list.freeCount]).tail) := by
    simpa using split
  exact WhileLoop.stop (next.turn_above (by simp) (Nat.le_refl _)) _

def Chops (list : VrList) (start stop : Nat) (after : VrList) : Prop :=
  ∃ bound, ∀ turns, bound ≤ turns → list.chop turns start stop = some after

theorem Chops.unique {one two : VrList} (first : list.Chops start stop one)
    (second : list.Chops start stop two) : one = two := by
  obtain ⟨lower, ran⟩ := first
  obtain ⟨upper, ranToo⟩ := second
  exact Option.some_inj.mp
    ((ran _ (Nat.le_max_left lower upper)).symm.trans (ranToo _ (Nat.le_max_right lower upper)))

theorem Chops.eq_of_chop {turns : Nat} {one two : VrList} (chops : list.Chops start stop one)
    (ran : list.chop turns start stop = some two) : two = one := by
  obtain ⟨bound, chopped⟩ := chops
  unfold chop at ran
  obtain ⟨last, ended, rfl⟩ := Option.map_eq_some_iff.mp ran
  have larger := chopped (max bound turns) (Nat.le_max_left _ _)
  unfold chop at larger
  rw [WhileLoop.more ended (Nat.le_max_right _ _), Option.map_some, Option.some_inj] at larger
  exact larger

theorem chops_of_whileLoop {index bound : Nat} {after : VrList}
    (ran : ∀ turns, bound ≤ turns →
      whileLoop (chopTurn start stop) turns (0, list) = some (index, after)) :
    list.Chops start stop after := by
  refine ⟨bound, fun turns enough => ?_⟩
  unfold chop
  rw [ran turns enough]
  rfl

/-- The interval cuts no range in two but the last one, or the last but one when the slot past
the list happens to hold a copy of the last. -/
def ChopFits (list : VrList) (start stop : Nat) : Prop :=
  ∀ slot, slot + 1 < list.freeCount → (list.ranges slot).start < start →
    stop < (list.ranges slot).stop →
      slot + 2 = list.freeCount ∧ list.ranges list.freeCount = list.ranges (slot + 1)

theorem FreeShape.chopFits_iff {before after : List VRange}
    (shape : list.FreeShape (before ++ r :: after)) (ordered : start ≤ stop)
    (sorted : (before ++ r :: after).Pairwise (fun a b => a.stop ≤ b.start))
    (lower : r.start < start) (upper : stop < r.stop) :
    list.ChopFits start stop ↔
      after = [] ∨ ∃ b, after = [b] ∧ list.ranges list.freeCount = b := by
  have freeCount := shape.freeCount
  have holds := shape.holds
  simp only [holds_append, holds_cons, Nat.zero_add, List.length_append, List.length_cons]
    at holds freeCount
  obtain ⟨holdsBefore, atSplit, holdsAfter⟩ := holds
  obtain ⟨-, rAfter, beforeRest⟩ := List.pairwise_append.mp sorted
  have onlyHere : ∀ slot, slot < list.freeCount → (list.ranges slot).start < start →
      stop < (list.ranges slot).stop → slot = before.length := by
    intro slot inFree starts ends
    by_contra elsewhere
    rcases Nat.lt_or_gt_of_ne elsewhere with inBefore | inAfter
    · have here := (holds_iff_getElem ..).mp holdsBefore slot inBefore
      have ordering := beforeRest _ (List.getElem_mem inBefore) r List.mem_cons_self
      rw [← here, Nat.zero_add] at ordering
      omega
    · have inside : slot - (before.length + 1) < after.length := by omega
      have here := (holds_iff_getElem ..).mp holdsAfter _ inside
      rw [show before.length + 1 + (slot - (before.length + 1)) = slot by omega] at here
      have ordering := (List.pairwise_cons.mp rAfter).1 _ (List.getElem_mem inside)
      rw [← here] at ordering
      omega
  constructor
  · intro fits
    cases after with
    | nil => exact .inl rfl
    | cons b tail =>
        have lastButOne := fits before.length (by rw [freeCount, List.length_cons]; omega)
          (atSplit ▸ lower) (atSplit ▸ upper)
        rw [freeCount, List.length_cons] at lastButOne
        have single : tail = [] := List.length_eq_zero_iff.mp (by omega)
        refine .inr ⟨b, by rw [single], ?_⟩
        rw [freeCount, List.length_cons, lastButOne.2]
        exact holdsAfter.1
  · rintro (rfl | ⟨b, rfl, copy⟩) slot inFree starts ends
    · have here := onlyHere slot (by omega) starts ends
      rw [freeCount, List.length_nil] at inFree
      omega
    · have here := onlyHere slot (by omega) starts ends
      rw [here]
      refine ⟨by rw [freeCount, List.length_singleton], ?_⟩
      rw [copy]
      exact holdsAfter.1.symm

end VrList

/-- With the next range overwritten, the pages are right only when the slot past the list brings
that range back. -/
theorem overwritten_of_subtracts {before tail : List VRange} {r b x : VRange} {start stop : Nat}
    (ordered : start ≤ stop) (nonempty : ∀ y ∈ before ++ r :: b :: tail, 0 < y.size)
    (sorted : (before ++ r :: b :: tail).Pairwise (fun a b => a.stop ≤ b.start))
    (lower : r.start < start) (upper : stop < r.stop)
    (subtracts : Subtracts start stop (before ++ r :: b :: tail)
      (before ++ ⟨r.start, start - r.start⟩ :: ⟨stop, r.stop - stop⟩ :: (tail ++ [x]))) :
    tail = [] ∧ x = b := by
  have bPositive := nonempty b (by simp)
  have xPositive := subtracts.nonempty x (by simp)
  obtain ⟨-, sortedRest, beforeRest⟩ := List.pairwise_append.mp sorted
  obtain ⟨rBefore, bSorted⟩ := List.pairwise_cons.mp sortedRest
  obtain ⟨bBefore, -⟩ := List.pairwise_cons.mp bSorted
  have rb := rBefore b List.mem_cons_self
  have newSorted := (List.pairwise_append.mp subtracts.sorted).2.1
  simp only [List.pairwise_cons, List.mem_cons, List.mem_append, List.not_mem_nil, or_false]
    at newSorted
  have rightBefore : r.stop ≤ x.start := by
    have before := newSorted.2.1 x (.inr rfl)
    simp only [Extent.stop] at before upper ⊢
    omega
  -- At or above the end of `r`, the new list has only `x` and what came after `b`.
  have newAbove : ∀ point, r.stop ≤ point →
      (∃ y ∈ before ++ ⟨r.start, start - r.start⟩ :: ⟨stop, r.stop - stop⟩ :: (tail ++ [x]),
        y.Contains point) → (∃ y ∈ tail, y.Contains point) ∨ x.Contains point := by
    rintro point above ⟨y, member, inside⟩
    have below := inside.2
    simp only [List.mem_append, List.mem_cons, List.not_mem_nil, or_false] at member
    rcases member with inBefore | rfl | rfl | inTail | rfl
    · have ends := beforeRest y inBefore r List.mem_cons_self
      unfold Extent.stop at *
      omega
    · simp only [Extent.stop] at below above upper
      omega
    · simp only [Extent.stop] at below above upper
      omega
    · exact .inl ⟨y, inTail, inside⟩
    · exact .inr inside
  have oldAbove : ∀ point, r.stop ≤ point →
      (∃ y ∈ before ++ r :: b :: tail, y.Contains point) →
        b.Contains point ∨ ∃ y ∈ tail, y.Contains point := by
    rintro point above ⟨y, member, inside⟩
    have below := inside.2
    simp only [List.mem_append, List.mem_cons] at member
    rcases member with inBefore | rfl | rfl | inTail
    · have ends := beforeRest y inBefore r List.mem_cons_self
      unfold Extent.stop at *
      omega
    · omega
    · exact .inl inside
    · exact .inr ⟨y, inTail, inside⟩
  have xHolds : x.Contains b.start := by
    have covered := (subtracts.covers b.start).mpr
      ⟨⟨b, by simp, Nat.le_refl _, by unfold Extent.stop; omega⟩, by omega⟩
    rcases newAbove _ rb covered with ⟨y, inTail, inside⟩ | inside
    · have ends := bBefore y inTail
      have starts := inside.1
      unfold Extent.stop at ends
      omega
    · exact inside
  have single : tail = [] := by
    refine List.eq_nil_iff_forall_not_mem.mpr fun c member => ?_
    have starts := bBefore c member
    have ends := (List.pairwise_append.mp newSorted.2.2).2.2 c member x List.mem_cons_self
    have atStart := xHolds.1
    unfold Extent.stop at starts ends
    omega
  subst single
  refine ⟨rfl, ?_⟩
  have sameStart : x.start = b.start := by
    by_contra different
    have inside : x.Contains x.start := ⟨Nat.le_refl _, by unfold Extent.stop; omega⟩
    have old := ((subtracts.covers x.start).mp ⟨x, by simp, inside⟩).1
    rcases oldAbove _ rightBefore old with holds | ⟨y, inTail, -⟩
    · have atStart := xHolds.1
      have above := holds.1
      omega
    · cases inTail
  have sameStop : x.stop = b.stop := by
    have xEnds := xHolds.2
    rcases Nat.lt_trichotomy x.stop b.stop with short | same | long
    · have covered := (subtracts.covers x.stop).mpr
        ⟨⟨b, by simp, by omega, short⟩, by omega⟩
      rcases newAbove _ (by omega) covered with ⟨y, inTail, -⟩ | holds
      · cases inTail
      · exact absurd holds.2 (Nat.lt_irrefl _)
    · exact same
    · have bEnds : b.start < b.stop := by
        unfold Extent.stop
        omega
      have old := ((subtracts.covers b.stop).mp ⟨x, by simp, by omega, long⟩).1
      rcases oldAbove _ (by omega) old with holds | ⟨y, inTail, -⟩
      · exact absurd holds.2 (Nat.lt_irrefl _)
      · cases inTail
  obtain ⟨xStart, xSize⟩ := x
  obtain ⟨bStart, bSize⟩ := b
  simp only [Extent.stop] at sameStart sameStop
  rw [Extent.mk.injEq]
  omega

theorem flatMap_without_split {before after : List VRange} {r : VRange} {start stop : Nat}
    (ordered : start ≤ stop) (nonempty : ∀ x ∈ before ++ r :: after, 0 < x.size)
    (sorted : (before ++ r :: after).Pairwise (fun a b => a.stop ≤ b.start))
    (lower : r.start < start) (upper : stop < r.stop) :
    (before ++ r :: after).flatMap (without start stop) =
      before ++ ⟨r.start, start - r.start⟩ :: ⟨stop, r.stop - stop⟩ :: after := by
  obtain ⟨-, sortedRest, beforeRest⟩ := List.pairwise_append.mp sorted
  have cut : r.without start stop = [⟨r.start, start - r.start⟩, ⟨stop, r.stop - stop⟩] := by
    unfold without
    rw [if_pos lower, if_pos upper, Nat.min_eq_right (by omega), Nat.max_eq_right (by omega)]
    rfl
  rw [List.flatMap_append, List.flatMap_cons, cut, flatMap_without_self fun x member => ?_,
    flatMap_without_self fun x member => ?_]
  · rfl
  · have starts := (List.pairwise_cons.mp sortedRest).1 x member
    exact without_of_le_start (by omega) ordered (nonempty x (by simp [member]))
  · have ends := beforeRest x member r List.mem_cons_self
    exact without_of_stop_le (by omega) ordered (nonempty x (by simp [member]))

/-- The loop ends, and what it leaves is right exactly when the interval cuts no range in two but
the last. -/
theorem VrList.chops_cases (list : VrList) (nonempty : ∀ r ∈ list.freeRanges, 0 < r.size)
    (sorted : list.freeRanges.Pairwise (fun a b => a.stop ≤ b.start)) {start stop : Nat}
    (ordered : start ≤ stop) :
    ∃ after, list.Chops start stop after ∧
      (Subtracts start stop list.freeRanges after.freeRanges ↔ list.ChopFits start stop) := by
  have shape := list.freeShape_freeRanges
  by_cases split : ∃ r ∈ list.freeRanges, r.start < start ∧ stop < r.stop
  · obtain ⟨r, member, lower, upper⟩ := split
    obtain ⟨before, after, placed⟩ := List.append_of_mem member
    rw [placed] at shape nonempty sorted ⊢
    have below : ∀ x ∈ before, x.start < stop ∧ x.stop ≤ start := by
      intro x inBefore
      have ends := (List.pairwise_append.mp sorted).2.2 x inBefore r List.mem_cons_self
      have positive := nonempty x (List.mem_append_left _ inBefore)
      unfold Extent.stop at *
      omega
    obtain ⟨index, left, ran, leftShape⟩ := shape.whileLoop_split ordered below lower upper
    refine ⟨left, VrList.chops_of_whileLoop ran, ?_⟩
    rw [shape.chopFits_iff ordered sorted lower upper, leftShape.freeRanges_eq]
    have whole : Subtracts start stop (before ++ r :: after)
        (before ++ ⟨r.start, start - r.start⟩ :: ⟨stop, r.stop - stop⟩ :: after) := by
      rw [← flatMap_without_split ordered nonempty sorted lower upper]
      exact subtracts_without ordered nonempty sorted
    cases after with
    | nil => exact iff_of_true whole (.inl rfl)
    | cons b tail =>
        rw [List.cons_append, List.tail_cons]
        constructor
        · intro subtracts
          obtain ⟨rfl, copy⟩ :=
            overwritten_of_subtracts ordered nonempty sorted lower upper subtracts
          exact .inr ⟨b, rfl, copy⟩
        · rintro (impossible | ⟨b', same, copy⟩)
          · cases impossible
          · obtain ⟨rfl, rfl⟩ := List.cons.inj same
            rw [copy]
            exact whole
  · push Not at split
    obtain ⟨index, left, ran, leftShape⟩ := (show list.FreeShape ([] ++ list.freeRanges) from
      shape).whileLoop_whole ordered nonempty sorted fun x member both =>
        absurd both.2 (Nat.not_lt.mpr (split x member both.1))
    refine ⟨left, VrList.chops_of_whileLoop ran, iff_of_true ?_ fun slot inFree starts ends => ?_⟩
    · rw [leftShape.freeRanges_eq]
      exact subtracts_without ordered nonempty sorted
    · have member : list.ranges slot ∈ list.freeRanges := by
        unfold VrList.freeRanges
        exact List.mem_map_of_mem (List.mem_range.mpr (by omega))
      exact absurd ends (Nat.not_lt.mpr (split _ member starts))

/-- `k_mem_MapKernelData` subtracts the interval exactly when it cuts no range in two but the
last. -/
theorem chop_subtracts_iff (list : VrList) (nonempty : ∀ r ∈ list.freeRanges, 0 < r.size)
    (sorted : list.freeRanges.Pairwise (fun a b => a.stop ≤ b.start)) (start stop : Nat)
    (interval : start < stop) :
    (∃ after, list.Chops start stop after ∧
        Subtracts start stop list.freeRanges after.freeRanges) ↔ list.ChopFits start stop := by
  obtain ⟨left, chops, subtracts_iff⟩ := list.chops_cases nonempty sorted interval.le
  rw [← subtracts_iff]
  constructor
  · rintro ⟨after, chopped, subtracts⟩
    exact chopped.unique chops ▸ subtracts
  · exact fun subtracts => ⟨left, chops, subtracts⟩

def twoFree : VrList :=
  { freeCount := 2, rangeCount := 2
    ranges := fun slot => if slot = 0 then ⟨16, 16⟩ else if slot = 1 then ⟨40, 8⟩ else ⟨0, 0⟩ }

theorem chop_subtracts_iff_two : ∃ after, twoFree.Chops 20 42 after ∧
    Subtracts 20 42 twoFree.freeRanges after.freeRanges := by
  refine (chop_subtracts_iff twoFree (by decide) (by decide) 20 42 (by decide)).mpr ?_
  intro slot inFree starts ends
  have first : slot = 0 := by
    have counted : twoFree.freeCount = 2 := rfl
    omega
  subst first
  exact absurd ends (by decide)

/-- Cutting the first range in two loses the second one. -/
theorem chop_overwrites :
    ¬ ∀ list : VrList, (∀ r ∈ list.freeRanges, 0 < r.size) →
      list.freeRanges.Pairwise (fun a b => a.stop ≤ b.start) → ∀ start stop, start < stop →
        ∃ after, list.Chops start stop after ∧
          Subtracts start stop list.freeRanges after.freeRanges := by
  intro subtracts
  have nonempty : ∀ r ∈ twoFree.freeRanges, 0 < r.size := by decide
  have sorted : twoFree.freeRanges.Pairwise (fun a b => a.stop ≤ b.start) := by decide
  obtain ⟨after, chops, left⟩ := subtracts twoFree nonempty sorted 20 24 (by decide)
  have shape : twoFree.FreeShape ([] ++ ⟨16, 16⟩ :: [⟨40, 8⟩]) := ⟨rfl, rfl, rfl, trivial⟩
  obtain ⟨index, split, ran, splitShape⟩ :=
    shape.whileLoop_split (show 20 ≤ 24 by omega) (by simp) (by decide) (by decide)
  rw [chops.unique (VrList.chops_of_whileLoop ran), splitShape.freeRanges_eq] at left
  have below : (⟨16, 16⟩ : VRange).start < 20 := by decide
  have above : 24 < (⟨16, 16⟩ : VRange).stop := by decide
  have overwritten : Subtracts 20 24 ([] ++ ⟨16, 16⟩ :: ⟨40, 8⟩ :: [])
      ([] ++ ⟨16, 20 - 16⟩ :: ⟨24, 32 - 24⟩ :: ([] ++ [⟨0, 0⟩])) := left
  have copied := overwritten_of_subtracts (by omega) nonempty sorted below above overwritten
  exact absurd copied.2 (by decide)

end DoggOS.Mem

/-
The virtual range list: one array with the free ranges first and the used
ranges after them.

The definitions follow `k_mem_AllocVirtualRange`, `k_mem_UsedVirtualRangeIndex`
and `k_mem_FreeVirtualRange` statement by statement; the array is a function,
so slots past `rangeCount` keep whatever was stored there before.  Range starts
and sizes are page numbers, and no sum of theirs that the source takes leaves
32 bits; only the address handed out is reduced to a 32-bit word.
-/

import DoggOS.Library.ArrayMove
import DoggOS.Library.Extent
import DoggOS.Mem.Defs

namespace DoggOS.Mem

open ArrayMove

/-- `struct k_mem_vrange_t`: an extent of pages. -/
abbrev VRange := Extent

/-- `struct k_mem_vrlist_t`: free ranges in slots `0 .. freeCount - 1`, used
ranges in slots `freeCount .. rangeCount - 1`. -/
structure VrList where
  freeCount : Nat
  rangeCount : Nat
  ranges : Nat → VRange

namespace VrList

/-- First used slot whose range starts at or after the page of `range`. -/
def usedVirtualRangeIndex (list : VrList) (range : Nat) : Nat :=
  ((List.range' list.freeCount (list.rangeCount - list.freeCount)).find?
    (fun index => decide (range >>> addressShift4KB ≤ (list.ranges index).start))).getD
      list.rangeCount

/-- The free range in slot `index` is larger than the request: its head goes to
a new used slot. -/
def splitRange (list : VrList) (index usedIndex requestSize : Nat) : VrList :=
  let moved := moveUp (list.rangeCount - usedIndex) list.rangeCount list.ranges
  let used := Function.update moved usedIndex ⟨(moved index).start, requestSize⟩
  let ranges := Function.update used index
    ⟨(used index).start + requestSize, (used index).size - requestSize⟩
  { freeCount := list.freeCount, rangeCount := list.rangeCount + 1, ranges }

/-- The free range in slot `index` has exactly the requested size.  As in the
source, `range_start` is read from the size field, and the slot written is
`usedIndex` although the ranges before it moved back by one. -/
def takeWholeRange (list : VrList) (index usedIndex : Nat) : VrList :=
  let rangeStart := (list.ranges index).size
  let rangeSize := (list.ranges index).size
  let moved := moveDown 1 (usedIndex - index) index list.ranges
  let ranges := Function.update moved usedIndex ⟨rangeStart, rangeSize⟩
  { freeCount := list.freeCount - 1, rangeCount := list.rangeCount, ranges }

def firstFit (list : VrList) (requestSize : Nat) : Option Nat :=
  (List.range list.freeCount).find? (fun index => decide (requestSize ≤ (list.ranges index).size))

/-- `k_mem_AllocVirtualRange`: the address returned and the list after the call. -/
def allocVirtualRange (list : VrList) (size : Nat) : Nat × VrList :=
  let requestSize := pageCount size
  match list.firstFit requestSize with
  | none => (0, list)
  | some index =>
      let memory := ((list.ranges index).start <<< addressShift4KB) % wordLimit
      let usedIndex := list.usedVirtualRangeIndex memory
      if requestSize < (list.ranges index).size then
        (memory, list.splitRange index usedIndex requestSize)
      else
        (memory, list.takeWholeRange index usedIndex)

/-- The body of the free loop at the first free slot that starts after the used
range.  `usedRange` is the slot the source's pointer of that name points to. -/
def releaseRange (list : VrList) (usedIndex freeIndex : Nat) : VrList :=
  let freed := list.ranges usedIndex
  let prev := list.ranges (freeIndex - 1)
  let mergesPrev := freeIndex ≠ 0 ∧ freed.start = prev.start + prev.size
  let ranges := if mergesPrev then
      Function.update list.ranges (freeIndex - 1) ⟨prev.start, prev.size + freed.size⟩
    else list.ranges
  let usedRange := if mergesPrev then freeIndex - 1 else usedIndex
  let next := ranges freeIndex
  if (ranges usedRange).start + (ranges usedRange).size = next.start then
    let merged := Function.update ranges freeIndex
      ⟨(ranges usedRange).start, next.size + (ranges usedRange).size⟩
    if usedRange + 1 = freeIndex then
      let movedOne := moveDown 1 (usedIndex - 1 - (freeIndex - 1)) (freeIndex - 1) merged
      let movedTwo := moveDown 2 (list.rangeCount - 2 - (usedIndex - 1)) (usedIndex - 1) movedOne
      { freeCount := list.freeCount - 1, rangeCount := list.rangeCount - 2, ranges := movedTwo }
    else
      { freeCount := list.freeCount, rangeCount := list.rangeCount - 1
        ranges := moveDown 1 (list.rangeCount - 1 - usedIndex) usedIndex merged }
  else if usedRange + 1 = freeIndex then
    { freeCount := list.freeCount, rangeCount := list.rangeCount - 1
      ranges := moveDown 1 (list.rangeCount - 1 - usedIndex) usedIndex ranges }
  else
    let moved := moveUp (usedIndex - freeIndex) usedIndex ranges
    { freeCount := list.freeCount + 1, rangeCount := list.rangeCount
      ranges := Function.update moved freeIndex
        ⟨(ranges usedRange).start, (ranges usedRange).size⟩ }

/-- `k_mem_FreeVirtualRange` -/
def freeVirtualRange (list : VrList) (mem : Nat) : VrList :=
  if mem = 0 then list
  else
    let usedIndex := list.usedVirtualRangeIndex mem
    let usedRange := list.ranges usedIndex
    if list.rangeCount ≤ usedIndex ∨ usedRange.start ≠ mem >>> addressShift4KB then list
    else
      match (List.range list.freeCount).find?
          (fun index => decide (usedRange.start < (list.ranges index).start)) with
      | none => list
      | some freeIndex => list.releaseRange usedIndex freeIndex

def freeRanges (list : VrList) : List VRange :=
  (List.range list.freeCount).map list.ranges

def usedRanges (list : VrList) : List VRange :=
  (List.range' list.freeCount (list.rangeCount - list.freeCount)).map list.ranges

end VrList

end DoggOS.Mem

/-
Kernel data that is mapped where it lies: the two halves of
`k_mem_MapKernelData`.

The first loop takes the pages of the data out of the list of free virtual
ranges; the second enters them in the page map, each at its own address.  Paging
is off while this runs, so the directory and the page tables are read and
written at their physical addresses.  Range starts and sizes are page numbers
and never wrap.
-/

import DoggOS.Library.WhileLoop
import DoggOS.Mem.PageMap
import DoggOS.Mem.PhysicalPages
import DoggOS.Mem.VirtualRanges

namespace DoggOS.Mem

open ArrayMove

def pageFlagPinned : Nat := 4

def kernelDataFlags : Nat := pentryFlagUsed ||| pentryFlagPresent ||| pentryFlagReadWrite

/-- `start_address` and `end_address`, in pages, at the head of the function. -/
def kernelInterval (address size : Nat) : Nat × Nat :=
  let startAddress := address >>> addressShift4KB
  let endAddress := ((address + size) % wordLimit) >>> addressShift4KB
  if ((endAddress + wordLimit - startAddress) <<< addressShift4KB) % wordLimit < size then
    (startAddress, endAddress + 1)
  else (startAddress, endAddress)

/-- `for (c = lo; count more times; c++) a[c] = a[c - 1]` -/
def copyForward {α : Type*} : Nat → Nat → (Nat → α) → Nat → α
  | 0, _, a => a
  | count + 1, lo, a => copyForward count (lo + 1) (Function.update a lo (a (lo - 1)))

namespace VrList

/-- The range in slot `rangeIndex` is covered: the free ranges after it move down. -/
def dropFree (list : VrList) (rangeIndex : Nat) : VrList :=
  { list with
    freeCount := list.freeCount - 1
    ranges := moveDown 1 (list.freeCount - 1 - rangeIndex) rangeIndex list.ranges }

/-- The range in slot `rangeIndex` is cut.  The loop that is to make room for a second piece
counts up from `free_count` while it is below `range_index + 1`. -/
def trimFree (list : VrList) (rangeIndex startAddress endAddress : Nat) : VrList :=
  let range := list.ranges rangeIndex
  let rangeEnd := range.start + range.size
  let size := if range.start ≤ startAddress then startAddress - range.start else 0
  let ranges := Function.update list.ranges rangeIndex ⟨range.start, size⟩
  let newSize := rangeEnd - endAddress
  if endAddress ≤ rangeEnd ∧ newSize ≠ 0 then
    if size = 0 then
      { list with ranges := Function.update ranges rangeIndex ⟨rangeEnd - newSize, newSize⟩ }
    else
      let copied := copyForward (rangeIndex + 1 - list.freeCount) list.freeCount ranges
      { list with
        freeCount := list.freeCount + 1
        ranges := Function.update copied (rangeIndex + 1) ⟨rangeEnd - newSize, newSize⟩ }
  else { list with ranges }

/-- One turn of the loop over the free ranges.  The `range_index--` of a dropped range and the
`range_index++` of the loop cancel, at index 0 as well. -/
def chopTurn (startAddress endAddress : Nat) : Nat × VrList → Option (Nat × VrList)
  | (rangeIndex, list) =>
      let range := list.ranges rangeIndex
      let rangeEnd := range.start + range.size
      if rangeIndex < list.freeCount then
        if range.start < endAddress ∧ startAddress < rangeEnd then
          if startAddress ≤ range.start ∧ rangeEnd ≤ endAddress then
            some (rangeIndex, list.dropFree rangeIndex)
          else some (rangeIndex + 1, list.trimFree rangeIndex startAddress endAddress)
        else if endAddress ≤ range.start then none
        else some (rangeIndex + 1, list)
      else none

/-- The first half of `k_mem_MapKernelData`. -/
def chop (turns : Nat) (list : VrList) (startAddress endAddress : Nat) : Option VrList :=
  (whileLoop (chopTurn startAddress endAddress) turns (0, list)).map Prod.snd

end VrList

namespace PageMap

/-- `ptable[index].entry = 0` for the first `count` entries of a table. -/
def clearTable (page : Nat) : Nat → PageMap → PageMap
  | 0, map => map
  | count + 1, map => (clearTable page count map).store page count 0

def addKernelTable (map : PageMap) (pdirIndex pageTable : Nat) : PageMap :=
  let map := map.store map.cr3 pdirIndex (pageTable ||| kernelDataFlags)
  let ptable := map.mem map.cr3 pmapPdirIndex &&& addressMask4KB
  let map := map.store ptable pdirIndex (map.mem map.cr3 pdirIndex)
  clearTable (map.mem map.cr3 pdirIndex &&& addressMask4KB) 1024 map

/-- The page table behind the directory entry, made when there is none. -/
def kernelTable (map : PageMap) (physical : PRList) (pdirIndex : Nat) : PageMap × PRList :=
  if ¬ hasFlag (map.mem map.cr3 pdirIndex) pentryFlagUsed then
    let allocated := physical.allocPhysicalPage pageFlagPinned
    (map.addKernelTable pdirIndex allocated.1, allocated.2)
  else (map, physical)

/-- The entry of an address, read at the physical address of its table. -/
def kernelEntry (map : PageMap) (address : Nat) : Nat :=
  map.mem (map.mem map.cr3 (pdirIndex address) &&& addressMask4KB) (ptableIndex address)

def bindKernelEntry (map : PageMap) (address : Nat) : PageMap :=
  if ¬ hasFlag (map.kernelEntry address) pentryFlagUsed then
    map.store (map.mem map.cr3 (pdirIndex address) &&& addressMask4KB) (ptableIndex address)
      (address ||| kernelDataFlags)
  else map

end PageMap

structure KernelMapping where
  startAddress : Nat
  map : PageMap
  physical : PRList

namespace KernelMapping

def withTable (mapping : KernelMapping) : PageMap × PRList :=
  mapping.map.kernelTable mapping.physical (pdirIndex mapping.startAddress)

/-- One turn of `while(start_address < end_address)` -/
def turn (endAddress : Nat) (mapping : KernelMapping) : Option KernelMapping :=
  if mapping.startAddress < endAddress then
    some
      { startAddress := (mapping.startAddress + addressOffset4KB) % wordLimit
        map := mapping.withTable.1.bindKernelEntry mapping.startAddress
        physical := mapping.withTable.2 }
  else none

end KernelMapping

/-- `k_mem_MapKernelData`, each loop for at most `turns` turns. -/
def mapKernelData (turns : Nat) (list : VrList) (map : PageMap) (physical : PRList)
    (address size : Nat) : Option (VrList × PageMap × PRList) := do
  let interval := kernelInterval address size
  let list ← list.chop turns interval.1 interval.2
  let mapping ← whileLoop (KernelMapping.turn ((address + size) % wordLimit)) turns
    { startAddress := address &&& addressMask4KB, map, physical }
  return (list, mapping.map, mapping.physical)

end DoggOS.Mem

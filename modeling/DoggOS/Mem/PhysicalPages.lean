/-
The physical page allocator: a stack of free pages and a table of page headers
for each range.

All the arrays live in one word-addressed memory, as `k_mem_Init` lays them
out, and a range keeps only the word indices where its two arrays begin.  What
lies past the end of one array is therefore whatever comes next in that
memory.  The definitions follow `k_mem_Init`, `k_mem_AllocPhysicalPage` and
`k_mem_FreePhysicalPages`.
-/

import DoggOS.Mem.Defs
import Mathlib.Logic.Function.Basic

namespace DoggOS.Mem

def pageFlagUsed : Nat := 1
def pageFlagHead : Nat := 2

/-- `struct k_mem_upage_t` as one word: 24 bits of index, then 8 bits of flags. -/
def upage (index flags : Nat) : Nat := index % 2 ^ 24 + flags % 2 ^ 8 * 2 ^ 24

def upageFlags (word : Nat) : Nat := word / 2 ^ 24 % 2 ^ 8

/-- `struct k_mem_prange_t`; `freePages` and `usedPages` are word indices. -/
structure PRange where
  baseAddress : Nat
  freePages : Nat
  usedPages : Nat
  freeCount : Nat
  pageCount : Nat
deriving DecidableEq, Repr

/-- `struct k_mem_prlist_t` and the memory its arrays are in. -/
structure PRList where
  mem : Nat → Nat
  ranges : List PRange

namespace PRange

/-- `(page - base_address) >> 12` in 32 bits. -/
def pageIndex (range : PRange) (page : Nat) : Nat :=
  ((page + wordLimit - range.baseAddress) % wordLimit) >>> addressShift4KB

def flags (range : PRange) (mem : Nat → Nat) (index : Nat) : Nat :=
  upageFlags (mem (range.usedPages + index))

/-- `free_pages[0 .. free_count - 1]` -/
def freeList (range : PRange) (mem : Nat → Nat) : List Nat :=
  (List.range range.freeCount).map (fun slot => mem (range.freePages + slot))

end PRange

/-- The loop of `k_mem_AllocPhysicalPage`; it does not stop at the first range that has a page. -/
def allocPages (flags : Nat) : List PRange → Nat → (Nat → Nat) → Nat × (Nat → Nat) × List PRange
  | [], pageAddress, mem => (pageAddress, mem, [])
  | range :: rest, pageAddress, mem =>
      if range.freeCount ≠ 0 then
        let freeCount := range.freeCount - 1
        let pageAddress := mem (range.freePages + freeCount)
        let pageIndex := range.pageIndex pageAddress
        let mem := Function.update mem (range.usedPages + pageIndex)
          (upage 0 (flags ||| pageFlagUsed ||| pageFlagHead))
        let others := allocPages flags rest pageAddress mem
        (others.1, others.2.1, { range with freeCount } :: others.2.2)
      else
        let others := allocPages flags rest pageAddress mem
        (others.1, others.2.1, range :: others.2.2)

/-- The `do`/`while` of `k_mem_FreePhysicalPages`, for at most `fuel` pages. -/
def releasePages : Nat → (Nat → Nat) → PRange → Nat → Nat → Option ((Nat → Nat) × PRange)
  | 0, _, _, _, _ => none
  | fuel + 1, mem, range, pageIndex, page =>
      let pushed := Function.update mem (range.freePages + range.freeCount) page
      let mem := Function.update pushed (range.usedPages + pageIndex) (upage range.freeCount 0)
      let range := { range with freeCount := range.freeCount + 1 }
      let pageIndex := (pageIndex + 1) % wordLimit
      let page := (page + addressOffset4KB) % wordLimit
      if range.flags mem pageIndex &&& (pageFlagUsed ||| pageFlagHead) = pageFlagUsed then
        releasePages fuel mem range pageIndex page
      else some (mem, range)

/-- The range loop of `k_mem_FreePhysicalPages`; it returns from inside after one release. -/
def freePages (fuel page : Nat) (mem : Nat → Nat) :
    List PRange → Option ((Nat → Nat) × List PRange)
  | [] => some (mem, [])
  | range :: rest =>
      if range.baseAddress ≤ page ∧ range.pageIndex page < range.pageCount ∧
          range.flags mem (range.pageIndex page) &&& (pageFlagUsed ||| pageFlagHead) =
            pageFlagUsed ||| pageFlagHead then
        (releasePages fuel mem range (range.pageIndex page) page).map
          (fun released => (released.1, released.2 :: rest))
      else
        (freePages fuel page mem rest).map (fun others => (others.1, range :: others.2))

/-- One turn of the header loop of `k_mem_Init` for each page. -/
def initPages (freePages usedPages : Nat) : Nat → Nat → Nat → (Nat → Nat) → Nat → Nat
  | 0, _, _, mem => mem
  | count + 1, pageIndex, baseAddress, mem =>
      let pushed := Function.update mem (freePages + pageIndex) baseAddress
      initPages freePages usedPages count (pageIndex + 1)
        ((baseAddress + addressOffset4KB) % wordLimit)
        (Function.update pushed (usedPages + pageIndex) (upage pageIndex 0))

/-- The page-aligned part of an available range: `base_address` and `page_count`. -/
def alignRange (start size : Nat) : Nat × Nat :=
  let align := start % 4096
  if align ≠ 0 then
    ((start + (4096 - align)) % wordLimit, (size + wordLimit - (4096 - align)) % wordLimit / 4096)
  else (start, size / 4096)

/-- The range loop of `k_mem_Init`; `pageHeaders` is the next word of the header block. -/
def initRanges : List (Nat × Nat) → Nat → (Nat → Nat) → (Nat → Nat) × List PRange
  | [], _, mem => (mem, [])
  | (start, size) :: rest, pageHeaders, mem =>
      let baseAddress := (alignRange start size).1
      let pageCount := (alignRange start size).2
      let range : PRange :=
        { baseAddress, freePages := pageHeaders, usedPages := pageHeaders + pageCount
          freeCount := pageCount, pageCount }
      let others := initRanges rest (pageHeaders + pageCount + pageCount)
        (initPages range.freePages range.usedPages pageCount 0 baseAddress mem)
      (others.1, range :: others.2)

namespace PRList

/-- `k_mem_AllocPhysicalPage` -/
def allocPhysicalPage (list : PRList) (flags : Nat) : Nat × PRList :=
  let allocated := allocPages flags list.ranges nullPage list.mem
  (allocated.1, { mem := allocated.2.1, ranges := allocated.2.2 })

/-- `k_mem_FreePhysicalPages` -/
def freePhysicalPages (list : PRList) (fuel page : Nat) : Option PRList :=
  let page := page &&& addressMask4KB
  if page ≠ nullPage then
    (freePages fuel page list.mem list.ranges).map
      (fun freed => { mem := freed.1, ranges := freed.2 })
  else some list

/-- The physical part of `k_mem_Init` over the available ranges. -/
def init (ranges : List (Nat × Nat)) (pageHeaders : Nat) (mem : Nat → Nat) : PRList :=
  let initialised := initRanges ranges pageHeaders mem
  { mem := initialised.1, ranges := initialised.2 }

end PRList

end DoggOS.Mem

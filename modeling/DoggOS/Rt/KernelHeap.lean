/-
The front end of the kernel heap: `k_rt_Malloc` and `k_rt_Free`.

Requests above 2048 bytes go to `k_rt_BigAlloc` and the others to the calling
thread's small heap, which asks `k_rt_BigAlloc` for a page when its bucket is
empty; the page offset of an address says which of the two it came from.  The
memory is the blocks of pages that `k_rt_BigAlloc` hands out, with the words in
them, and calls run one after another, from any thread.
-/

import DoggOS.Library.CellHeaps
import DoggOS.Mem.Defs
import DoggOS.Rt.SmallHeap

namespace DoggOS.Rt

open Mem

/-- What `k_rt_Malloc` asks `k_rt_BigAlloc` for, if it calls it. -/
def bigRequest (heaps : SmallHeaps) (thread size : Nat) : Option Nat :=
  if size = 0 then none
  else if 2048 < size then some size
  else if heaps.firstChunk (thread, smallBucketIndexFromSize size) = 0 then some 4096
  else none

/-- `k_rt_Malloc`; `memory` is what `k_rt_BigAlloc` returns, if it is called. -/
def malloc (heaps : SmallHeaps) (thread size memory : Nat) : Option (Nat × SmallHeaps) :=
  if size = 0 then some (0, heaps)
  else if 2048 < size then some (memory, heaps)
  else smallAlloc heaps thread size memory

/-- The calls that the page blocks serve, at page numbers below `2 ^ 20`. -/
def pageMachine : Machine (CellHeap Nat Nat) (CellCall Nat Nat) where
  start _ := True
  step before call after := (CellHeap.machine fun _ => True).step before call after ∧
    ∀ block, call = .alloc block → 0 < block.start ∧ block.stop ≤ 2 ^ 20

def linear (pages : CellHeap Nat Nat) (address : Nat) : Nat :=
  pages.contents (address / 4096) (address % 4096 / 4)

def HoldsWords (pages : CellHeap Nat Nat) (mem : Nat → Nat) : Prop :=
  ∀ page index, index < 1024 → pages.contents page index = mem (page * 4096 + 4 * index)

/-- `live` lists what was allocated, with the sizes that were asked for. -/
structure KernelHeap where
  pages : CellHeap Nat Nat
  firstChunk : BucketKey → Nat
  lastChunk : BucketKey → Nat
  live : List Extent

namespace KernelHeap

def heapsOver (heap : KernelHeap) (pages : CellHeap Nat Nat) : SmallHeaps :=
  ⟨linear pages, heap.firstChunk, heap.lastChunk⟩

def heaps (heap : KernelHeap) : SmallHeaps := heap.heapsOver heap.pages

structure Left (after : KernelHeap) (pages : CellHeap Nat Nat) (heaps : SmallHeaps) : Prop where
  blocks : after.pages.blocks = pages.blocks
  words : HoldsWords after.pages heaps.mem
  firstChunk : after.firstChunk = heaps.firstChunk
  lastChunk : after.lastChunk = heaps.lastChunk

/-- `k_rt_BigAlloc` for a request, `memory` the address it returns. -/
def Obtains (before : CellHeap Nat Nat) (memory : Nat) (after : CellHeap Nat Nat) :
    Option Nat → Prop
  | none => after = before
  | some bytes => ∃ page, memory = page * 4096 ∧
      pageMachine.step before (.alloc ⟨page, pageCount bytes⟩) after

/-- A call of `k_rt_Malloc` by a thread, which returns `address`. -/
def Mallocs (before : KernelHeap) (thread size address : Nat) (after : KernelHeap) : Prop :=
  ∃ memory pages heaps, Obtains before.pages memory pages (bigRequest before.heaps thread size) ∧
    malloc (before.heapsOver pages) thread size memory = some (address, heaps) ∧
    after.Left pages heaps

/-- A call of `k_rt_Free` by a thread. -/
def Frees (before : KernelHeap) (thread memory : Nat) (after : KernelHeap) : Prop :=
  (dispatchesSmallFree memory → after.Left before.pages (smallFree before.heaps thread memory)) ∧
    (¬ dispatchesSmallFree memory →
      pageMachine.step before.pages (.free (memory / 4096)) after.pages ∧
        after.firstChunk = before.firstChunk ∧ after.lastChunk = before.lastChunk)

def HasWord (heap : KernelHeap) (address : Nat) : Prop :=
  address % 4 = 0 ∧ ∃ block ∈ heap.live, block.Contains address ∧ block.Contains (address + 3)

/-- Any thread allocates, frees what was allocated, and reads and writes words of it. -/
def machine (start : KernelHeap → Prop) : Machine KernelHeap (CellCall Unit Nat) where
  start := start
  step before call after :=
    after.live = CellHeap.owned before.live call ∧
      match call with
      | .alloc block => 0 < block.size ∧ ∃ thread, before.Mallocs thread block.size block.start after
      | .free memory => (∃ block ∈ before.live, block.start = memory) ∧
          ∃ thread, before.Frees thread memory after
      | .read address _ value => before.HasWord address ∧
          pageMachine.step before.pages (.read (address / 4096) (address % 4096 / 4) value)
            after.pages ∧
          after.firstChunk = before.firstChunk ∧ after.lastChunk = before.lastChunk
      | .write address _ value => before.HasWord address ∧
          pageMachine.step before.pages (.write (address / 4096) (address % 4096 / 4) value)
            after.pages ∧
          after.firstChunk = before.firstChunk ∧ after.lastChunk = before.lastChunk

/-- No allocation yet, and every bucket of every thread empty; others may have page blocks. -/
structure Empty (heap : KernelHeap) : Prop where
  apart : heap.pages.blocks.Pairwise Extent.Disjoint
  bounds : ∀ block ∈ heap.pages.blocks, 0 < block.start ∧ block.stop ≤ 2 ^ 20
  buckets : ∀ bucket, heap.firstChunk bucket = 0 ∧ heap.lastChunk bucket = 0
  live : heap.live = []

end KernelHeap

end DoggOS.Rt

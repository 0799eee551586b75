/-
Big allocations: a run of virtual pages, each mapped to a physical page.

The state is that of the three allocators below.  `k_rt_BigAlloc` asks for the
virtual pages once and then for one physical page at a time; `k_rt_BigFree`
looks up, unmaps and frees the one page its argument points to, and returns the
whole virtual range.
-/

import DoggOS.Mem.PageMap
import DoggOS.Mem.PhysicalPages
import DoggOS.Mem.VirtualRanges

namespace DoggOS.Rt

open Mem

structure BigHeap where
  virtual : VrList
  physical : PRList
  map : PageMap

def bigAllocFlags : Nat := pentryFlagReadWrite ||| pentryFlagUserModeAccess

/-- `k_mem_MapLinearAddress` with its page tables taken from the physical ranges. -/
def mapPage (physical : PRList) (map : PageMap) (virtualPage pageAddress : Nat) :
    Option (Status × PageMap × PRList) :=
  map.mapLinearAddress (fun physical => physical.allocPhysicalPage 0) physical virtualPage
    pageAddress bigAllocFlags

/-- The page loop of `k_rt_BigAlloc`; false when it returns early. -/
def mapPages : Nat → Nat → PRList → PageMap → Option (Bool × PRList × PageMap)
  | 0, _, physical, map => some (true, physical, map)
  | count + 1, virtualPage, physical, map => do
      let (pageAddress, physical) := physical.allocPhysicalPage 0
      let (status, map, physical) ← mapPage physical map virtualPage pageAddress
      if status = .outOfPhysicalMem then
        return (false, physical, map)
      mapPages count ((virtualPage + 0x1000) % wordLimit) physical map

namespace BigHeap

/-- `k_rt_BigAlloc` -/
def bigAlloc (heap : BigHeap) (size : Nat) : Option (Nat × BigHeap) :=
  if size = 0 then some (0, heap)
  else do
    let (virtualAlloc, virtual) := heap.virtual.allocVirtualRange size
    let (mapped, physical, map) ← mapPages (pageCount size) virtualAlloc heap.physical heap.map
    return (if mapped then virtualAlloc else 0, { virtual, physical, map })

/-- `k_rt_BigFree`; `fuel` bounds the pages that `k_mem_FreePhysicalPages` frees. -/
def bigFree (heap : BigHeap) (fuel memory : Nat) : Option BigHeap :=
  if memory = 0 then some heap
  else do
    let physicalPage ← heap.map.linearAddressPhysicalPage memory
    let (_, map) ← heap.map.unmapLinearAddress memory
    let virtual := heap.virtual.freeVirtualRange memory
    let physical ← heap.physical.freePhysicalPages fuel physicalPage
    return { virtual, physical, map }

end BigHeap

end DoggOS.Rt

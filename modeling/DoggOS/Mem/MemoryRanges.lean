/-
The available memory ranges that `k_mem_Init` is given, and the allocator that
carves the kernel's first tables out of them.

`bestFitRange` follows `k_mem_BestFitRange`: one scan that remembers the best
range so far, then a cut at the start of that range.  Bases and sizes are the
64-bit fields of the source; the size asked for and `k_mem_available` are
32-bit words.
-/

import DoggOS.Mem.Defs

namespace DoggOS.Mem

/-- `struct k_mem_range_t` -/
structure MemRange where
  base : Nat
  size : Nat
  type : Nat
deriving DecidableEq, Repr

def alignSize (size : Nat) : Nat :=
  let sizeAlign := size % 16
  if sizeAlign ≠ 0 then (size + (16 - sizeAlign)) % wordLimit else size

/-- The test of the scan: a range that is large enough takes the place of the best one so far
when it is smaller or when it lies lower. -/
def takesPlace (size : Nat) (best : Option (Nat × MemRange)) (range : MemRange) : Bool :=
  size ≤ range.size &&
    match best with
    | none => true
    | some (_, chosen) => range.size < chosen.size || range.base < chosen.base

def bestRange (size : Nat) : List MemRange → Nat → Option (Nat × MemRange) → Option (Nat × MemRange)
  | [], _, best => best
  | range :: rest, index, best =>
      bestRange size rest (index + 1) (if takesPlace size best range then some (index, range) else best)

/-- `k_mem_BestFitRange`: the address returned, the ranges left and `k_mem_available`. -/
def bestFitRange (ranges : List MemRange) (available size : Nat) : Nat × List MemRange × Nat :=
  let size := alignSize size
  match bestRange size ranges 0 none with
  | none => (0, ranges, available)
  | some (index, best) =>
      let left : MemRange := { best with base := best.base + size, size := best.size - size }
      let ranges := if left.size = 0 then ranges.eraseIdx index else ranges.set index left
      (best.base % wordLimit, ranges, (available + wordLimit - size) % wordLimit)

end DoggOS.Mem

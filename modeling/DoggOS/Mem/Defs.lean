/-
Constants of the memory manager and the page arithmetic they stand for.

Addresses and sizes are 32-bit words kept as natural numbers; where the C
arithmetic can leave 32 bits the definitions reduce it explicitly.
-/

import DoggOS.Library.Bits

namespace DoggOS.Mem

def wordLimit : Nat := 2 ^ 32

def addressShift4KB : Nat := 12
def addressMask4KB : Nat := 0xfffff000
def addressOffset4KB : Nat := 0x1000

def nullPage : Nat := 0

/-- `K_STATUS` values the memory functions return. -/
inductive Status where
  | ok
  | forbidden
  | outOfPhysicalMem
  | linearAddressInUse
  | linearAddressNotInUse
deriving DecidableEq, Repr

/-- Pages of a request: the shift, plus one when the size is not a multiple of a page. -/
def pageCount (size : Nat) : Nat :=
  (size >>> addressShift4KB) + if size % addressOffset4KB ≠ 0 then 1 else 0

theorem shiftRight_pageShift (a : Nat) : a >>> addressShift4KB = a / 4096 :=
  Bits.shiftRight_eq a 12

theorem shiftLeft_pageShift (a : Nat) : a <<< addressShift4KB = a * 4096 :=
  Bits.shiftLeft_eq a 12

theorem and_addressMask (a : Nat) (fits : a < 2 ^ 32) :
    a &&& addressMask4KB = a - a % 4096 :=
  Bits.and_high a 12 32 fits (by omega)

theorem pageCount_eq (size : Nat) : pageCount size = (size + 4095) / 4096 := by
  unfold pageCount addressOffset4KB
  rw [shiftRight_pageShift]
  split_ifs <;> omega

theorem pageCount_pos {size : Nat} (positive : 0 < size) : 0 < pageCount size := by
  rw [pageCount_eq]
  omega

end DoggOS.Mem

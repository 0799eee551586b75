/-
Page maps: a directory, page tables, and the window at the top of the address
space through which the kernel edits both.

Physical memory gives the 1024 words of each physical page.  An entry is read
and written through its linear address, which the MMU translates by walking
the directory in `cr3`; a walk that meets an entry that is not present is a
page fault, `none`.  Translations are never stale: `k_cpu_InvalidateTLB` has no
counterpart here.  The definitions follow `pmap.c`.
-/

import DoggOS.Mem.Defs
import Mathlib.Logic.Function.Basic

namespace DoggOS.Mem

def pentryFlagPresent : Nat := 1
def pentryFlagReadWrite : Nat := 2
def pentryFlagUserModeAccess : Nat := 4
def pentryFlagBigPage : Nat := 128
def pentryFlagUsed : Nat := 512

def addressMask4MB : Nat := 0xffc00000

def hasFlag (entry flag : Nat) : Prop := entry &&& flag ≠ 0

instance (entry flag : Nat) : Decidable (hasFlag entry flag) :=
  inferInstanceAs (Decidable (_ ≠ _))

def pdirIndex (address : Nat) : Nat := address >>> 22 &&& 0x3ff

def ptableIndex (address : Nat) : Nat := address >>> 12 &&& 0x3ff

def pmapPdirIndex : Nat := 0x3ff

def pmapPtableIndex : Nat := 0x3fe

def pentryPagePointer (tableIndex : Nat) : Nat := 0xffc00000 + tableIndex <<< 12

def pentryPointer (tableIndex entryIndex : Nat) : Nat :=
  pentryPagePointer tableIndex + 4 * entryIndex

structure PageMap where
  cr3 : Nat
  mem : Nat → Nat → Nat

namespace PageMap

/-- The physical page of a linear address, by the walk of the MMU. -/
def walk (map : PageMap) (address : Nat) : Option Nat :=
  let pde := map.mem map.cr3 (pdirIndex address)
  if hasFlag pde pentryFlagPresent then
    if hasFlag pde pentryFlagBigPage then
      some ((pde &&& addressMask4MB) ||| (address &&& 0x3ff000))
    else
      let pte := map.mem (pde &&& addressMask4KB) (ptableIndex address)
      if hasFlag pte pentryFlagPresent then some (pte &&& addressMask4KB) else none
  else none

def readEntry (map : PageMap) (pentry : Nat) : Option Nat :=
  (map.walk pentry).map (fun page => map.mem page (pentry % 4096 / 4))

def store (map : PageMap) (page word entry : Nat) : PageMap :=
  { map with mem := Function.update map.mem page (Function.update (map.mem page) word entry) }

def writeEntry (map : PageMap) (pentry entry : Nat) : Option PageMap :=
  (map.walk pentry).map (fun page => map.store page (pentry % 4096 / 4) entry)

/-- `ptable[entry_index].entry = 0` for `count` entries from `entryIndex` on. -/
def clearEntries (tableIndex : Nat) : Nat → Nat → PageMap → Option PageMap
  | 0, _, map => some map
  | count + 1, entryIndex, map =>
      (map.writeEntry (pentryPointer tableIndex entryIndex) 0).bind
        (clearEntries tableIndex count (entryIndex + 1))

/-- The addresses that the functions below refuse. -/
def Forbidden (linearAddress : Nat) : Prop :=
  linearAddress = 0 ∨ pentryPagePointer 0 ≤ linearAddress

instance (linearAddress : Nat) : Decidable (Forbidden linearAddress) :=
  inferInstanceAs (Decidable (_ ∨ _))

/-- Hang a new page table below directory entry `tableIndex`; false when there was no page for it. -/
def addPageTable (map : PageMap) (tableIndex pageTable flags : Nat) : Option (Bool × PageMap) := do
  let pentry := pentryPointer pmapPdirIndex tableIndex
  let map ← map.writeEntry pentry (pageTable ||| flags)
  let entry ← map.readEntry pentry
  if entry = 0 then
    return (false, map)
  let map ← map.writeEntry (pentryPointer pmapPtableIndex tableIndex) entry
  let map ← clearEntries tableIndex 1024 0 map
  return (true, map)

/-- The second half of `k_mem_MapLinearAddress`, once the directory entry is in place. -/
def bindEntry (map : PageMap) (linearAddress physicalAddress flags : Nat) :
    Option (Status × PageMap) := do
  let pentry := pentryPointer pmapPdirIndex (pdirIndex linearAddress)
  let entry ← map.readEntry pentry
  if hasFlag entry pentryFlagBigPage then
    return (.linearAddressInUse, map)
  if hasFlag flags pentryFlagBigPage then
    let map ← map.writeEntry pentry (physicalAddress ||| flags)
    return (.ok, map)
  let pentry := pentryPointer (pdirIndex linearAddress) (ptableIndex linearAddress)
  let entry ← map.readEntry pentry
  if hasFlag entry pentryFlagUsed then
    return (.linearAddressInUse, map)
  let map ← map.writeEntry pentry (physicalAddress ||| flags)
  return (.ok, map)

/-- `k_mem_MapLinearAddress`; page tables come from `allocPhysicalPage`. -/
def mapLinearAddress {Pages : Type} (allocPhysicalPage : Pages → Nat × Pages) (map : PageMap)
    (pages : Pages) (linearAddress physicalAddress flags : Nat) :
    Option (Status × PageMap × Pages) :=
  if Forbidden linearAddress then some (.forbidden, map, pages)
  else do
    let flags := flags ||| (pentryFlagUsed ||| pentryFlagReadWrite ||| pentryFlagPresent)
    let entry ← map.readEntry (pentryPointer pmapPdirIndex (pdirIndex linearAddress))
    if ¬ hasFlag entry pentryFlagUsed ∧ ¬ hasFlag flags pentryFlagBigPage then
      let (pageTable, pages) := allocPhysicalPage pages
      let (created, map) ← map.addPageTable (pdirIndex linearAddress) pageTable flags
      if created then
        let (status, map) ← map.bindEntry linearAddress physicalAddress flags
        return (status, map, pages)
      return (.outOfPhysicalMem, map, pages)
    let (status, map) ← map.bindEntry linearAddress physicalAddress flags
    return (status, map, pages)

/-- `k_mem_UnmapLinearAddress` -/
def unmapLinearAddress (map : PageMap) (linearAddress : Nat) : Option (Status × PageMap) :=
  if Forbidden linearAddress then some (.forbidden, map)
  else do
    let pentry := pentryPointer pmapPdirIndex (pdirIndex linearAddress)
    let entry ← map.readEntry pentry
    if ¬ hasFlag entry pentryFlagUsed then
      return (.linearAddressNotInUse, map)
    if hasFlag entry pentryFlagBigPage then
      let map ← map.writeEntry pentry 0
      return (.ok, map)
    let pentry := pentryPointer (pdirIndex linearAddress) (ptableIndex linearAddress)
    let entry ← map.readEntry pentry
    if ¬ hasFlag entry pentryFlagUsed then
      return (.linearAddressNotInUse, map)
    let map ← map.writeEntry pentry 0
    return (.ok, map)

/-- `k_mem_LinearAddressPhysicalPage` -/
def linearAddressPhysicalPage (map : PageMap) (linearAddress : Nat) : Option Nat :=
  if Forbidden linearAddress then some nullPage
  else do
    let entry ← map.readEntry (pentryPointer pmapPdirIndex (pdirIndex linearAddress))
    if ¬ hasFlag entry pentryFlagUsed then
      return nullPage
    if hasFlag entry pentryFlagBigPage then
      return entry &&& addressMask4KB
    let entry ← map.readEntry (pentryPointer (pdirIndex linearAddress) (ptableIndex linearAddress))
    if hasFlag entry pentryFlagUsed then
      return entry &&& addressMask4KB
    return nullPage

/-- `k_mem_IsLinearAddressMapped` -/
def isLinearAddressMapped (map : PageMap) (linearAddress : Nat) : Option Status :=
  if Forbidden linearAddress then some .forbidden
  else do
    let entry ← map.readEntry (pentryPointer pmapPdirIndex (pdirIndex linearAddress))
    if ¬ hasFlag entry pentryFlagUsed then
      return .linearAddressNotInUse
    if hasFlag entry pentryFlagBigPage then
      return .linearAddressInUse
    let entry ← map.readEntry (pentryPointer (pdirIndex linearAddress) (ptableIndex linearAddress))
    if hasFlag entry pentryFlagUsed then
      return .linearAddressInUse
    return .linearAddressNotInUse

end PageMap

end DoggOS.Mem

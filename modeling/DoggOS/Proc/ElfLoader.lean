/-
`k_proc_CreateProcess`: the memory of a new process, built from an ELF image.

Physical memory gives the bytes of each physical page.  The loader edits the
new page map, one of its page tables and one page through three windows in the
kernel's address space; a window is the physical page that it shows, zero when
it shows none, and `k_mem_MapLinearAddress` leaves a window in use as it is.
The pages that `k_mem_AllocPhysicalPage` returns are an argument, in order.
-/

import DoggOS.Library.WhileLoop
import DoggOS.Library.Words
import DoggOS.Mem.PageMap

namespace DoggOS.Proc

open DoggOS.Mem

def elfMagic : List UInt8 := [0x7f, 0x45, 0x4c, 0x46]

def elfTypeExec : Nat := 2

def segmentTypeLoad : Nat := 1

structure ElfHeader where
  type : Nat
  entry : Nat
  pheaderOffset : Nat
  pheaderEsize : Nat
  pheaderEcount : Nat
deriving DecidableEq, Repr

def elfHeader (image : Bytes) : ElfHeader where
  type := loadHalfAt image 16
  entry := loadWordAt image 24
  pheaderOffset := loadWordAt image 28
  pheaderEsize := loadHalfAt image 42
  pheaderEcount := loadHalfAt image 44

structure ProgramHeader where
  type : Nat
  offset : Nat
  vaddr : Nat
  fileSize : Nat
  memSize : Nat
deriving DecidableEq, Repr

def programHeaderAt (image : Bytes) (place : Nat) : ProgramHeader where
  type := loadWordAt image place
  offset := loadWordAt image (place + 4)
  vaddr := loadWordAt image (place + 8)
  fileSize := loadWordAt image (place + 16)
  memSize := loadWordAt image (place + 20)

def programHeaders (image : Bytes) : List ProgramHeader :=
  let header := elfHeader image
  (List.range header.pheaderEcount).map
    (fun index => programHeaderAt image (header.pheaderOffset + index * header.pheaderEsize))

/-- The checks before anything is allocated. -/
def IsExecutable (image : Bytes) : Prop :=
  (List.range 4).map image = elfMagic ∧ (elfHeader image).type = elfTypeExec

instance (image : Bytes) : Decidable (IsExecutable image) := inferInstanceAs (Decidable (_ ∧ _))

structure KernelLayout where
  irqIdt : Nat
  sharedStart : Nat
  sharedEnd : Nat
  startKernelThread : Nat

def sharedDataAddress : Nat := 0x4000

def initStackAddress : Nat := 0x2000

/-- `sizeof(k_irq_idt)` -/
def idtBytes : Nat := 2048

/-- The addresses of the loops that map the interrupt table and the shared code. -/
def KernelLayout.sharedAddresses (layout : KernelLayout) : List Nat :=
  sharedDataAddress ::
    (List.range (idtBytes / 0x1000 + 1)).map
      (fun index => (layout.irqIdt + 0x1000 * index) % 2 ^ 32) ++
    (List.range ((layout.sharedEnd - layout.sharedStart + 0xfff) / 0x1000)).map
      (fun index => (layout.sharedStart + 0x1000 * index) % 2 ^ 32)

/-- `entry_flags` of the process page map: read-write, user mode, present and used. -/
def processEntryFlags : Nat :=
  pentryFlagReadWrite ||| pentryFlagUserModeAccess ||| pentryFlagPresent ||| pentryFlagUsed

structure ProcessMem where
  mem : Nat → Bytes
  /-- How many pages have been obtained. -/
  obtained : Nat
  pageDir : Nat
  pageTable : Nat
  curPageTableEntry : Nat
  page : Nat
  curPageEntry : Nat

namespace ProcessMem

def allocPhysicalPage (pages : Nat → Nat) (process : ProcessMem) : Nat × ProcessMem :=
  (pages process.obtained, { process with obtained := process.obtained + 1 })

/-- `k_mem_MapLinearAddress` on a window. -/
def mapWindow (window page : Nat) : Nat := if window = 0 then page else window

/-- `k_mem_UnmapLinearAddress` on a window, if something was mapped there. -/
def unmapWindow (window current : Nat) : Nat := if current ≠ 0 then 0 else window

def writePage (process : ProcessMem) (page : Nat) (bytes : Bytes) : ProcessMem :=
  { process with mem := Function.update process.mem page bytes }

def storeEntry (process : ProcessMem) (page index entry : Nat) : ProcessMem :=
  process.writePage page (storeWord (process.mem page) index entry)

def pde (process : ProcessMem) (index : Nat) : Nat := loadWord (process.mem process.pageDir) index

def showTable (process : ProcessMem) (entry : Nat) : ProcessMem :=
  { process with
    pageTable := mapWindow (unmapWindow process.pageTable process.curPageTableEntry) entry
    curPageTableEntry := entry }

def clearPage (process : ProcessMem) (page : Nat) : ProcessMem :=
  process.writePage page (fillBytes (process.mem page) 0 4096 (fun _ => 0))

def addTable (pages : Nat → Nat) (process : ProcessMem) (index : Nat) : ProcessMem :=
  if process.pde index = 0 then
    let (table, process) := process.allocPhysicalPage pages
    let process := process.storeEntry process.pageDir index (table ||| processEntryFlags)
    let process := process.showTable (process.pde index &&& addressMask4KB)
    process.clearPage process.pageTable
  else process

def selectTable (process : ProcessMem) (index : Nat) : ProcessMem :=
  let entry := process.pde index &&& addressMask4KB
  if entry ≠ process.curPageTableEntry then process.showTable entry else process

def addPage (pages : Nat → Nat) (process : ProcessMem) (index physicalAddress : Nat) : ProcessMem :=
  if loadWord (process.mem process.pageTable) index = 0 then
    if physicalAddress ≠ 0 then
      process.storeEntry process.pageTable index (physicalAddress ||| processEntryFlags)
    else
      let (page, process) := process.allocPhysicalPage pages
      process.storeEntry process.pageTable index (page ||| processEntryFlags)
  else process

def selectPage (process : ProcessMem) (index : Nat) : ProcessMem :=
  let entry := loadWord (process.mem process.pageTable) index &&& addressMask4KB
  if entry ≠ process.curPageEntry then
    { process with
      page := mapWindow (unmapWindow process.page process.curPageEntry) entry
      curPageEntry := entry }
  else process

/-- `k_proc_MapProcessAddress` -/
def mapProcessAddress (pages : Nat → Nat) (process : ProcessMem)
    (linearAddress physicalAddress : Nat) : ProcessMem :=
  let process := process.addTable pages (pdirIndex linearAddress)
  let process := process.selectTable (pdirIndex linearAddress)
  let process := process.addPage pages (ptableIndex linearAddress) physicalAddress
  process.selectPage (ptableIndex linearAddress)

/-- The byte loops of the segment loop write to `mem_init.page`; past its 4096 bytes is no window. -/
def fillPage (process : ProcessMem) (start count : Nat) (source : Bytes) : Option ProcessMem :=
  if count = 0 ∨ start + count ≤ 4096 then
    some (process.writePage process.page (fillBytes (process.mem process.page) start count source))
  else none

end ProcessMem

def sub32 (a b : Nat) : Nat := (a + 2 ^ 32 - b) % 2 ^ 32

structure SegmentState where
  linearAddress : Nat
  copiedSegmentBytes : Nat
  process : ProcessMem

/-- One turn of the loop over the pages of a segment. -/
def segmentTurn (pages : Nat → Nat) (image : Bytes) (header : ProgramHeader)
    (state : SegmentState) : Option SegmentState := do
  let { linearAddress, copiedSegmentBytes, process } := state
  let process := process.mapProcessAddress pages linearAddress 0
  let padSize := if linearAddress < header.vaddr then header.vaddr - linearAddress else 0
  let process ← process.fillPage 0 padSize (fun _ => 0)
  let room := sub32 0x1000 padSize
  let bytesLeft := header.fileSize - copiedSegmentBytes
  let copySize := if copiedSegmentBytes < header.fileSize then min room bytesLeft else room
  let copied := if copiedSegmentBytes < header.fileSize then copySize else 0
  let process ← process.fillPage padSize copied
    (fun index => image (header.offset + copiedSegmentBytes + index))
  let linearAddress := (linearAddress + padSize + copySize) % 2 ^ 32
  let copiedSegmentBytes := copiedSegmentBytes + copied
  if linearAddress &&& 0xfff ≠ 0 then
    let padSize := sub32 0x1000 copySize
    let process ← process.fillPage copySize padSize (fun _ => 0)
    return { linearAddress := (linearAddress + padSize) % 2 ^ 32, copiedSegmentBytes, process }
  else
    return { linearAddress, copiedSegmentBytes, process }

/-- More turns than there are pages in the address space. -/
def segmentTurns : Nat := 2 ^ 20 + 1

def loadSegment (pages : Nat → Nat) (image : Bytes) (process : ProcessMem)
    (header : ProgramHeader) : Option ProcessMem :=
  if header.type = segmentTypeLoad then
    let linearAddress := header.vaddr &&& addressMask4KB
    let endLinearAddress := (linearAddress + header.memSize) % 2 ^ 32
    (faultLoop (fun state => decide (state.linearAddress < endLinearAddress))
      (segmentTurn pages image header) segmentTurns
      { linearAddress, copiedSegmentBytes := 0, process }).map SegmentState.process
  else some process

/-- The words that `k_proc_CreateThread` stores on the ring 0 stack, from the top down. -/
def threadStack (layout : KernelLayout) (entryPoint pageMap : Nat) : List Nat :=
  [0, entryPoint, 0, 0x202, 0x10, layout.startKernelThread, 0, 0, 0, 0, 0, 0,
    initStackAddress + 0x1000 - 4, 0x08, 0x08, 0x08, pageMap]

def storeStack (bytes : Bytes) : Nat → List Nat → Bytes
  | _, [] => bytes
  | top, word :: words => storeStack (storeWord bytes (top - 1) word) (top - 1) words

/-- `k_proc_CreateProcess`: the page map and the memory; a page map of zero stands for a null
process. -/
def createProcess (pages : Nat → Nat) (layout : KernelLayout) (image : Bytes) (mem : Nat → Bytes) :
    Option (Nat × ProcessMem) :=
  let start : ProcessMem :=
    { mem, obtained := 0, pageDir := 0, pageTable := 0, curPageTableEntry := 0, page := 0,
      curPageEntry := 0 }
  if IsExecutable image then
    let (pageMapPage, process) := start.allocPhysicalPage pages
    let process := { process with pageDir := pageMapPage }
    ((programHeaders image).foldlM (loadSegment pages image) (process.clearPage pageMapPage)).map
      (fun process =>
        let process := layout.sharedAddresses.foldl
          (fun process address => process.mapProcessAddress pages address address) process
        let (stackPage, process) := process.allocPhysicalPage pages
        let process := process.mapProcessAddress pages initStackAddress stackPage
        let entryPoint := (elfHeader image).entry
        if entryPoint ≠ 0 then
          (pageMapPage, process.writePage stackPage
            (storeStack (process.mem stackPage) 1024 (threadStack layout entryPoint pageMapPage)))
        else (pageMapPage, process))
  else some (0, start)

def ProcessMem.walk (process : ProcessMem) (pageMap address : Nat) : Option Nat :=
  PageMap.walk { cr3 := pageMap, mem := fun page index => loadWord (process.mem page) index } address

end DoggOS.Proc

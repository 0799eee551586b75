/-
The page map that `k_mem_Init` builds.

Two physical pages become the directory and the page table of the window, and
three entries connect them.  Kernel data is then mapped page by page, still at
physical addresses.  What all later code rests on is `Copies`: slot `i` of the
window is a copy of directory entry `i`, and slot `0x3fe`, where the window
shows its own page table, belongs to no directory entry.
-/

import DoggOS.Mem.KernelData
import DoggOS.Mem.PageMapCalls
import DoggOS.Mem.PhysicalPageSets

namespace DoggOS.Mem

def pentryFlagPageCacheDisable : Nat := 16

def initFlags : Nat :=
  pentryFlagUsed ||| pentryFlagReadWrite ||| pentryFlagPresent ||| pentryFlagPageCacheDisable

namespace PageMap

/-- `pdir[index].entry = 0; ptable[index].entry = 0` for the first `count` entries. -/
def clearBoth (pdir ptable : Nat) : Nat → PageMap → PageMap
  | 0, map => map
  | count + 1, map => ((clearBoth pdir ptable count map).store pdir count 0).store ptable count 0

/-- The three entries that make the window. -/
def connect (map : PageMap) (pdir ptable : Nat) : PageMap :=
  let map := map.store pdir pmapPdirIndex (ptable ||| initFlags)
  let map := map.store ptable pmapPdirIndex (pdir ||| initFlags)
  map.store ptable pmapPtableIndex (ptable ||| initFlags)

/-- The two pages that `k_mem_Init` takes for the window, and the physical pages left. -/
def windowPages (physical : PRList) : Nat × Nat × PRList :=
  let (pdir, physical) := physical.allocPhysicalPage pageFlagPinned
  let (ptable, physical) := physical.allocPhysicalPage pageFlagPinned
  (pdir, ptable, physical)

/-- The page map of `k_mem_Init` before any kernel data is mapped. -/
def initWindow (mem : Nat → Nat → Nat) (physical : PRList) : PageMap × PRList :=
  let (pdir, ptable, physical) := windowPages physical
  ((clearBoth pdir ptable 1024 { cr3 := pdir, mem }).connect pdir ptable, physical)

end PageMap

/-- The calls of `k_mem_MapKernelData`, each loop for at most `turns` turns. -/
def mapAllKernelData (turns : Nat) :
    List (Nat × Nat) → VrList → PageMap → PRList → Option (VrList × PageMap × PRList)
  | [], list, map, physical => some (list, map, physical)
  | (address, size) :: rest, list, map, physical =>
      (mapKernelData turns list map physical address size).bind fun mapped =>
        mapAllKernelData turns rest mapped.1 mapped.2.1 mapped.2.2

namespace PageMap

variable {map map' : PageMap} {index entry page pdir ptable : Nat}

/-! ### Copies -/

structure Copies (map : PageMap) : Prop where
  window : map.Window
  present : ∀ index, index < pmapPtableIndex → map.TableUsed index →
    hasFlag (map.mem map.cr3 index) pentryFlagPresent
  small : ∀ index, index < pmapPtableIndex → map.TableUsed index →
    ¬ hasFlag (map.mem map.cr3 index) pentryFlagBigPage
  copied : ∀ index, index < pmapPtableIndex → map.TableUsed index →
    map.mem map.ptable index = map.mem map.cr3 index
  tableApart : ∀ index, index < pmapPtableIndex → map.TableUsed index →
    map.table index ≠ map.cr3 ∧ map.table index ≠ map.ptable
  reserved : ¬ map.TableUsed pmapPtableIndex

namespace Copies

theorem shows (copies : map.Copies) (below : index < pmapPtableIndex)
    (used : map.TableUsed index) : map.Shows index (map.table index) := by
  unfold Shows
  rw [copies.copied index below used]
  exact ⟨copies.present index below used, rfl⟩

theorem congr (copies : map.Copies) (sameCr3 : map'.cr3 = map.cr3)
    (directory : ∀ place, map'.mem map.cr3 place = map.mem map.cr3 place)
    (table : ∀ place, place < 1024 → (place < pmapPtableIndex → map.TableUsed place) →
      map'.mem map.ptable place = map.mem map.ptable place) : map'.Copies := by
  have same : SameWindow map map' := ⟨sameCr3, directory _⟩
  have tables : ∀ place, map'.table place = map.table place := fun place => by
    unfold PageMap.table
    rw [sameCr3, directory]
  have used : ∀ place, map'.TableUsed place ↔ map.TableUsed place := fun place => by
    unfold TableUsed
    rw [sameCr3, directory]
  refine ⟨copies.window.congr sameCr3 (directory _) (table _ (by decide) ?_)
    (table _ (by decide) ?_), ?_, ?_, ?_, ?_, ?_⟩
  · exact fun below => absurd below (by decide)
  · exact fun below => absurd below (by decide)
  · intro index below isUsed
    rw [sameCr3, directory]
    exact copies.present index below ((used index).mp isUsed)
  · intro index below isUsed
    rw [sameCr3, directory]
    exact copies.small index below ((used index).mp isUsed)
  · intro index below isUsed
    have wasUsed := (used index).mp isUsed
    unfold pmapPtableIndex at below
    rw [same.ptable, sameCr3, directory, table index (by omega) fun _ => wasUsed]
    exact copies.copied index below wasUsed
  · intro index below isUsed
    rw [tables, same.ptable, sameCr3]
    exact copies.tableApart index below ((used index).mp isUsed)
  · exact fun isUsed => copies.reserved ((used _).mp isUsed)

theorem store (copies : map.Copies) (notDirectory : page ≠ map.cr3) (notPtable : page ≠ map.ptable)
    (word entry : Nat) : (map.store page word entry).Copies :=
  copies.congr rfl (fun _ => store_mem_of_ne map entry (.inl (Ne.symm notDirectory)))
    fun _ _ _ => store_mem_of_ne map entry (.inl (Ne.symm notPtable))

theorem adds (copies : map.Copies) (adds : map.AddsTable map' index entry page)
    (below : index < pmapPtableIndex) (present : hasFlag entry pentryFlagPresent)
    (small : ¬ hasFlag entry pentryFlagBigPage) (named : entryPage entry = page) : map'.Copies := by
  have atSelf : pmapPdirIndex ≠ index := by
    unfold pmapPdirIndex
    unfold pmapPtableIndex at below
    omega
  have same := adds.sameWindow (show index < pmapPdirIndex by
    unfold pmapPdirIndex
    unfold pmapPtableIndex at below
    omega)
  refine ⟨copies.window.congr adds.cr3 same.selfEntry ?_ ?_, ?_, ?_, ?_, ?_, ?_⟩
  · rw [adds.window, if_neg atSelf]
  · rw [adds.window, if_neg (by omega)]
  · intro other otherBelow used
    rw [adds.cr3, adds.directory]
    by_cases here : other = index
    · rw [if_pos here]
      exact present
    · rw [if_neg here]
      exact copies.present other otherBelow ((adds.tableUsed here).mp used)
  · intro other otherBelow used
    rw [adds.cr3, adds.directory]
    by_cases here : other = index
    · rw [if_pos here]
      exact small
    · rw [if_neg here]
      exact copies.small other otherBelow ((adds.tableUsed here).mp used)
  · intro other otherBelow used
    rw [same.ptable, adds.cr3, adds.directory, adds.window]
    by_cases here : other = index
    · rw [if_pos here, if_pos here]
    · rw [if_neg here, if_neg here]
      exact copies.copied other otherBelow ((adds.tableUsed here).mp used)
  · intro other otherBelow used
    rw [adds.table, same.ptable, adds.cr3]
    by_cases here : other = index
    · rw [if_pos here, named]
      exact ⟨adds.notDirectory, adds.notPtable⟩
    · rw [if_neg here]
      exact copies.tableApart other otherBelow ((adds.tableUsed here).mp used)
  · exact fun used => copies.reserved ((adds.tableUsed (by omega)).mp used)

end Copies

/-! ### Building the window -/

theorem clearBoth_cr3 (count : Nat) : (clearBoth pdir ptable count map).cr3 = map.cr3 := by
  induction count with
  | zero => rfl
  | succ count ih => exact ih

theorem clearBoth_mem (count other place : Nat) : (clearBoth pdir ptable count map).mem other place =
    if (other = pdir ∨ other = ptable) ∧ place < count then 0 else map.mem other place := by
  induction count with
  | zero => simp [clearBoth]
  | succ count ih =>
      rw [clearBoth, store_mem, store_mem, ih]
      by_cases here : place = count
      · subst here
        by_cases inDirectory : other = pdir
        · simp [inDirectory]
        · simp [inDirectory]
      · have below : place < count + 1 ↔ place < count := by omega
        simp only [here, and_false, if_false, below]

structure Connected (map : PageMap) (pdir ptable : Nat) : Prop where
  cr3 : map.cr3 = pdir
  directory : ∀ place, place < 1024 → map.mem pdir place =
    if place = pmapPdirIndex then ptable ||| initFlags else 0
  pdirEntry : map.mem ptable pmapPdirIndex = pdir ||| initFlags
  ptableEntry : map.mem ptable pmapPtableIndex = ptable ||| initFlags

theorem initWindow_connected (mem : Nat → Nat → Nat) (apart : ptable ≠ pdir) :
    ((clearBoth pdir ptable 1024 { cr3 := pdir, mem }).connect pdir ptable).Connected pdir
      ptable := by
  unfold connect
  refine ⟨?_, fun place inTable => ?_, ?_, ?_⟩
  · simp only [store_cr3, clearBoth_cr3]
  · rw [store_mem_of_ne _ _ (.inl (Ne.symm apart)), store_mem_of_ne _ _ (.inl (Ne.symm apart)),
      store_mem, clearBoth_mem, if_pos (⟨.inl rfl, inTable⟩ : (pdir = pdir ∨ pdir = ptable) ∧ _)]
    simp only [true_and]
  · rw [store_mem_of_ne _ _ (.inr (by decide)), store_mem_self]
  · rw [store_mem_self]

theorem entry_initFlags (aligned : page % 4096 = 0) (word : page < 2 ^ 32) :
    hasFlag (page ||| initFlags) pentryFlagPresent ∧ hasFlag (page ||| initFlags) pentryFlagUsed ∧
      ¬ hasFlag (page ||| initFlags) pentryFlagBigPage ∧ entryPage (page ||| initFlags) = page := by
  refine ⟨(hasFlag_or ..).mpr (.inr (by decide)), (hasFlag_or ..).mpr (.inr (by decide)), ?_, ?_⟩
  · rw [hasFlag_or]
    exact fun big => big.elim (not_hasFlag_bigPage aligned) (by decide)
  · rw [entryPage_or word (by decide)]
    omega

namespace Connected

theorem ptable_eq (connected : map.Connected pdir ptable) (aligned : ptable % 4096 = 0)
    (word : ptable < 2 ^ 32) : map.ptable = ptable := by
  unfold PageMap.ptable PageMap.table
  rw [connected.cr3, connected.directory _ (by decide), if_pos rfl]
  exact (entry_initFlags aligned word).2.2.2

theorem unused (connected : map.Connected pdir ptable) (below : index < pmapPdirIndex) :
    ¬ map.TableUsed index := by
  unfold TableUsed
  unfold pmapPdirIndex at below
  rw [connected.cr3, connected.directory _ (by omega), if_neg (by unfold pmapPdirIndex; omega)]
  exact not_hasFlag_zero _

theorem copies (connected : map.Connected pdir ptable) (apart : ptable ≠ pdir)
    (pdirAligned : pdir % 4096 = 0) (pdirWord : pdir < 2 ^ 32) (ptableAligned : ptable % 4096 = 0)
    (ptableWord : ptable < 2 ^ 32) : map.Copies := by
  have isPtable := connected.ptable_eq ptableAligned ptableWord
  obtain ⟨present, -, small, named⟩ := entry_initFlags ptableAligned ptableWord
  obtain ⟨pdirPresent, -, -, pdirNamed⟩ := entry_initFlags pdirAligned pdirWord
  have none (index : Nat) (below : index < pmapPtableIndex) : ¬ map.TableUsed index :=
    connected.unused (Nat.lt_trans below (by decide))
  refine ⟨⟨?_, ?_, ?_, ?_⟩, ?_, ?_, ?_, ?_, connected.unused (by decide)⟩
  · unfold SelfMapped
    rw [connected.cr3, connected.directory _ (by decide), if_pos rfl]
    exact ⟨present, small⟩
  · unfold Shows
    rw [isPtable, connected.pdirEntry, connected.cr3]
    exact ⟨pdirPresent, pdirNamed⟩
  · unfold Shows
    rw [isPtable, connected.ptableEntry]
    exact ⟨present, named⟩
  · rw [isPtable, connected.cr3]
    exact apart
  · exact fun index below used => absurd used (none index below)
  · exact fun index below used => absurd used (none index below)
  · exact fun index below used => absurd used (none index below)
  · exact fun index below used => absurd used (none index below)

end Connected

/-! ### Kernel data -/

theorem clearTable_cr3 (count : Nat) : (clearTable page count map).cr3 = map.cr3 := by
  induction count with
  | zero => rfl
  | succ count ih => exact ih

theorem clearTable_mem (count other place : Nat) : (clearTable page count map).mem other place =
    if other = page ∧ place < count then 0 else map.mem other place := by
  induction count with
  | zero => simp [clearTable]
  | succ count ih =>
      rw [clearTable, store_mem, ih]
      by_cases here : place = count
      · simp [here]
      · have below : place < count + 1 ↔ place < count := by omega
        simp only [here, and_false, if_false, below]

/-- The physical stores make the same change as the statements of `k_mem_MapLinearAddress`. -/
theorem addKernelTable_adds (window : map.Window) (below : index < pmapPdirIndex) {pageTable : Nat}
    (named : entryPage (pageTable ||| kernelDataFlags) = page) (notDirectory : page ≠ map.cr3)
    (notPtable : page ≠ map.ptable) : map.AddsTable (map.addKernelTable index pageTable) index
      (pageTable ||| kernelDataFlags) page := by
  obtain ⟨entry, entryEq⟩ : ∃ entry, entry = pageTable ||| kernelDataFlags := ⟨_, rfl⟩
  rw [← entryEq] at named
  have apart := window.apart
  have atPtable : (map.store map.cr3 index entry).mem map.cr3 pmapPdirIndex &&& addressMask4KB =
      map.ptable := by
    rw [store_mem_of_ne map entry (.inr (by omega))]
    rfl
  have second : ∀ other place, ((map.store map.cr3 index entry).store map.ptable index entry).mem
      other place = if place = index ∧ (other = map.cr3 ∨ other = map.ptable) then entry
        else map.mem other place := by
    intro other place
    rw [store_mem, store_mem]
    by_cases here : place = index
    · by_cases inDirectory : other = map.cr3
      · simp [here, inDirectory]
      · simp [here, inDirectory]
    · simp only [here, and_false, false_and, if_false]
  have result : map.addKernelTable index pageTable =
      clearTable page 1024 ((map.store map.cr3 index entry).store map.ptable index entry) := by
    unfold addKernelTable
    simp only [← entryEq, store_cr3, store_mem_self, atPtable]
    rw [second, if_pos ⟨rfl, .inl rfl⟩]
    exact congrArg (fun page => clearTable page 1024 _) named
  refine ⟨?_, notDirectory, notPtable, fun other place => ?_⟩
  · rw [result, clearTable_cr3, store_cr3, store_cr3]
  · rw [result, clearTable_mem, second, entryEq]

structure Kept (pdir ptable : Nat) (map : PageMap) (physical : PRList) : Prop where
  copies : map.Copies
  atPdir : map.cr3 = pdir
  atPtable : map.ptable = ptable
  directoryUsed : map.TableUsed pmapPdirIndex
  windowUsed : ∀ index, pmapPtableIndex ≤ index → index < 1024 →
    hasFlag (map.mem map.ptable index) pentryFlagUsed
  stacked : physical.Stacked
  pdirTaken : pdir ≠ nullPage ∧ ¬ physical.Free pdir
  ptableTaken : ptable ≠ nullPage ∧ ¬ physical.Free ptable

namespace Kept

variable {physical : PRList}

/-- What an allocation returns can serve as a page table, also when it is the null page. -/
theorem alloc (kept : Kept pdir ptable map physical) (flags : Nat) :
    Kept pdir ptable map (physical.allocPhysicalPage flags).2 ∧
      (physical.allocPhysicalPage flags).1 % 4096 = 0 ∧
      (physical.allocPhysicalPage flags).1 < 2 ^ 32 ∧
      (physical.allocPhysicalPage flags).1 ≠ map.cr3 ∧
      (physical.allocPhysicalPage flags).1 ≠ map.ptable := by
  obtain ⟨-, stacked, free, -, -⟩ := kept.stacked.alloc flags
  refine ⟨{ kept with
    stacked
    pdirTaken := ⟨kept.pdirTaken.1, fun still => kept.pdirTaken.2 ((free _).mp still).1⟩
    ptableTaken := ⟨kept.ptableTaken.1, fun still => kept.ptableTaken.2 ((free _).mp still).1⟩ }, ?_⟩
  rw [kept.atPdir, kept.atPtable]
  rcases kept.stacked.alloc_returns flags with null | top
  · rw [null]
    exact ⟨rfl, by decide, kept.pdirTaken.1.symm, kept.ptableTaken.1.symm⟩
  · have wasFree := PRList.free_of_top top
    obtain ⟨aligned, word⟩ := kept.stacked.managed_page (kept.stacked.free_managed wasFree)
    exact ⟨aligned, word, fun same => kept.pdirTaken.2 (same ▸ wasFree),
      fun same => kept.ptableTaken.2 (same ▸ wasFree)⟩

theorem store (kept : Kept pdir ptable map physical) (notDirectory : page ≠ map.cr3)
    (notPtable : page ≠ map.ptable) (word entry : Nat) :
    Kept pdir ptable (map.store page word entry) physical := by
  have directory : ∀ place, (map.store page word entry).mem map.cr3 place = map.mem map.cr3 place :=
    fun _ => store_mem_of_ne map entry (.inl (Ne.symm notDirectory))
  have same : SameWindow map (map.store page word entry) := ⟨rfl, directory _⟩
  refine { kept with
    copies := kept.copies.store notDirectory notPtable word entry
    atPtable := same.ptable.trans kept.atPtable
    directoryUsed := ?_
    windowUsed := fun index above below => ?_ }
  · unfold TableUsed
    rw [store_cr3, directory]
    exact kept.directoryUsed
  · rw [same.ptable, store_mem_of_ne map entry (.inl (Ne.symm notPtable))]
    exact kept.windowUsed index above below

theorem adds (kept : Kept pdir ptable map physical) (adds : map.AddsTable map' index entry page)
    (below : index < pmapPtableIndex) (present : hasFlag entry pentryFlagPresent)
    (small : ¬ hasFlag entry pentryFlagBigPage) (named : entryPage entry = page) :
    Kept pdir ptable map' physical := by
  have same := adds.sameWindow (Nat.lt_trans below (by decide))
  refine { kept with
    copies := kept.copies.adds adds below present small named
    atPdir := adds.cr3.trans kept.atPdir
    atPtable := same.ptable.trans kept.atPtable
    directoryUsed := ?_
    windowUsed := fun place above inTable => ?_ }
  · refine (adds.tableUsed ?_).mpr kept.directoryUsed
    exact (Nat.lt_trans below (by decide)).ne'
  · rw [same.ptable, adds.window, if_neg (by omega)]
    exact kept.windowUsed place above inTable

/-- An unused slot of the window may get any entry: no directory entry is used for it. -/
theorem storeWindow (kept : Kept pdir ptable map physical) {word : Nat}
    (unused : ¬ hasFlag (map.mem map.ptable word) pentryFlagUsed) (entry : Nat) :
    Kept pdir ptable (map.store map.ptable word entry) physical := by
  have directory : ∀ place, (map.store map.ptable word entry).mem map.cr3 place =
      map.mem map.cr3 place :=
    fun _ => store_mem_of_ne map entry (.inl (Ne.symm kept.copies.window.apart))
  have same : SameWindow map (map.store map.ptable word entry) := ⟨rfl, directory _⟩
  have usedSlot : ∀ place, place < 1024 → (place < pmapPtableIndex → map.TableUsed place) →
      (map.store map.ptable word entry).mem map.ptable place = map.mem map.ptable place := by
    intro place inTable used
    refine store_mem_of_ne map entry (.inr fun atWord => unused ?_)
    rw [← atWord]
    by_cases below : place < pmapPtableIndex
    · rw [kept.copies.copied place below (used below)]
      exact used below
    · exact kept.windowUsed place (Nat.le_of_not_lt below) inTable
  refine { kept with
    copies := kept.copies.congr rfl directory usedSlot
    atPtable := same.ptable.trans kept.atPtable
    directoryUsed := ?_
    windowUsed := fun place above inTable => ?_ }
  · unfold TableUsed
    rw [store_cr3, directory]
    exact kept.directoryUsed
  · rw [same.ptable, usedSlot place inTable fun below => absurd below (Nat.not_lt_of_le above)]
    exact kept.windowUsed place above inTable

theorem kernelTable (kept : Kept pdir ptable map physical) (inDirectory : index < 1024)
    (outside : index ≠ pmapPtableIndex) :
    Kept pdir ptable (map.kernelTable physical index).1 (map.kernelTable physical index).2 ∧
      (map.kernelTable physical index).1.TableUsed index := by
  by_cases used : map.TableUsed index
  · have same : map.kernelTable physical index = (map, physical) := by
      unfold PageMap.kernelTable
      exact if_neg (not_not_intro used)
    rw [same]
    exact ⟨kept, used⟩
  · have notSelf : index ≠ pmapPdirIndex := fun same => used (same ▸ kept.directoryUsed)
    have below : index < pmapPtableIndex := by
      unfold pmapPtableIndex pmapPdirIndex at *
      omega
    obtain ⟨after, aligned, word, notDirectory, notPtable⟩ := kept.alloc pageFlagPinned
    have made : map.kernelTable physical index =
        (map.addKernelTable index (physical.allocPhysicalPage pageFlagPinned).1,
          (physical.allocPhysicalPage pageFlagPinned).2) := by
      unfold PageMap.kernelTable
      exact if_pos used
    have named : entryPage ((physical.allocPhysicalPage pageFlagPinned).1 ||| kernelDataFlags) =
        (physical.allocPhysicalPage pageFlagPinned).1 := by
      rw [entryPage_or word (by decide)]
      omega
    have small : ¬ hasFlag ((physical.allocPhysicalPage pageFlagPinned).1 ||| kernelDataFlags)
        pentryFlagBigPage := by
      rw [hasFlag_or]
      exact fun big => big.elim (not_hasFlag_bigPage aligned) (by decide)
    have adds := addKernelTable_adds kept.copies.window (Nat.lt_trans below (by decide)) named
      notDirectory notPtable
    rw [made]
    refine ⟨after.adds adds below ?_ small named, adds.tableUsed_self.mpr ?_⟩
    · exact (hasFlag_or ..).mpr (.inr (by decide))
    · exact (hasFlag_or ..).mpr (.inr (by decide))

theorem bindKernelEntry (kept : Kept pdir ptable map physical) {address : Nat}
    (used : map.TableUsed (pdirIndex address)) (outside : pdirIndex address ≠ pmapPtableIndex) :
    Kept pdir ptable (map.bindKernelEntry address) physical := by
  unfold PageMap.bindKernelEntry
  by_cases entryUsed : hasFlag (map.kernelEntry address) pentryFlagUsed
  · rw [if_neg (not_not_intro entryUsed)]
    exact kept
  · rw [if_pos entryUsed]
    by_cases self : pdirIndex address = pmapPdirIndex
    · have atPtable : map.mem map.cr3 (pdirIndex address) &&& addressMask4KB = map.ptable := by
        rw [self]
        rfl
      unfold kernelEntry at entryUsed
      rw [atPtable] at entryUsed ⊢
      exact kept.storeWindow entryUsed _
    · have below : pdirIndex address < pmapPtableIndex := by
        have inDirectory : pdirIndex address < 1024 := by
          rw [pdirIndex_eq]
          omega
        unfold pmapPtableIndex pmapPdirIndex at *
        omega
      obtain ⟨notDirectory, notPtable⟩ := kept.copies.tableApart _ below used
      exact kept.store notDirectory notPtable _ _

theorem turn {mapping next : KernelMapping} {endAddress : Nat}
    (kept : Kept pdir ptable mapping.map mapping.physical)
    (outside : pdirIndex mapping.startAddress ≠ pmapPtableIndex)
    (ran : mapping.turn endAddress = some next) : Kept pdir ptable next.map next.physical := by
  have inDirectory : pdirIndex mapping.startAddress < 1024 := by
    rw [pdirIndex_eq]
    omega
  obtain ⟨withTable, used⟩ := kept.kernelTable inDirectory outside
  have bound := withTable.bindKernelEntry used outside
  unfold KernelMapping.turn at ran
  by_cases running : mapping.startAddress < endAddress
  · rw [if_pos running] at ran
    rw [← Option.some_inj.mp ran]
    exact bound
  · rw [if_neg running] at ran
    cases ran

end Kept

/-- From `start` on, no page before `endAddress` lies in slot `0x3fe`. -/
def SlotOutside (start endAddress : Nat) : Prop :=
  endAddress ≤ 0xff800000 ∨ 0xffc00000 ≤ start ∧ endAddress ≤ 0xfffff000

namespace Kept

variable {physical : PRList}

/-- A loop that starts outside slot `0x3fe` never comes to it. -/
theorem turn_outside {mapping next : KernelMapping} {endAddress : Nat}
    (kept : Kept pdir ptable mapping.map mapping.physical)
    (outside : SlotOutside mapping.startAddress endAddress)
    (ran : mapping.turn endAddress = some next) :
    Kept pdir ptable next.map next.physical ∧ SlotOutside next.startAddress endAddress := by
  have running : mapping.startAddress < endAddress := by
    by_contra ended
    unfold KernelMapping.turn at ran
    rw [if_neg ended] at ran
    cases ran
  have address : next.startAddress = (mapping.startAddress + 4096) % wordLimit := by
    unfold KernelMapping.turn at ran
    rw [if_pos running] at ran
    rw [← Option.some_inj.mp ran]
    rfl
  unfold SlotOutside wordLimit at *
  refine ⟨kept.turn ?_ ran, ?_⟩
  · rw [pdirIndex_eq, show pmapPtableIndex = 1022 from rfl]
    omega
  · rw [address]
    omega

theorem mapKernelData (kept : Kept pdir ptable map physical) {turns address size : Nat}
    {list list' : VrList} {physical' : PRList} (outside : SlotOutside address (address + size))
    (ran : mapKernelData turns list map physical address size = some (list', map', physical')) :
    Kept pdir ptable map' physical' := by
  have noWrap : address < 2 ^ 32 ∧ (address + size) % wordLimit = address + size := by
    unfold SlotOutside at outside
    unfold wordLimit
    omega
  unfold Mem.mapKernelData at ran
  obtain ⟨chopped, -, mapping⟩ := Option.bind_eq_some_iff.mp ran
  obtain ⟨last, looped, result⟩ := Option.bind_eq_some_iff.mp mapping
  cases result
  rw [noWrap.2, and_addressMask address noWrap.1] at looped
  have preserved : ∀ mapping next : KernelMapping,
      Kept pdir ptable mapping.map mapping.physical ∧
        SlotOutside mapping.startAddress (address + size) →
      mapping.turn (address + size) = some next →
      Kept pdir ptable next.map next.physical ∧ SlotOutside next.startAddress (address + size) :=
    fun mapping next holds ran => holds.1.turn_outside holds.2 ran
  have started : SlotOutside (address - address % 4096) (address + size) := by
    unfold SlotOutside at *
    omega
  exact (WhileLoop.keeps preserved ⟨kept, started⟩ looped).1

theorem mapAllKernelData {turns : Nat} {data : List (Nat × Nat)} {list list' : VrList}
    {physical' : PRList} (kept : Kept pdir ptable map physical)
    (outside : ∀ block ∈ data, SlotOutside block.1 (block.1 + block.2))
    (ran : mapAllKernelData turns data list map physical = some (list', map', physical')) :
    Kept pdir ptable map' physical' := by
  induction data generalizing list map physical with
  | nil =>
      cases ran
      exact kept
  | cons block rest ih =>
      obtain ⟨⟨chopped, middle, left⟩, first, later⟩ := Option.bind_eq_some_iff.mp ran
      have keptFirst := kept.mapKernelData (outside block List.mem_cons_self) first
      exact ih keptFirst (fun other member => outside other (List.mem_cons_of_mem _ member)) later

end Kept

/-- The page map before kernel data is mapped, when there are pages for the window. -/
theorem initWindow_kept {physical : PRList} (mem : Nat → Nat → Nat) (stacked : physical.Stacked)
    (pdirPage : (windowPages physical).1 ≠ nullPage)
    (ptablePage : (windowPages physical).2.1 ≠ nullPage) :
    Kept (windowPages physical).1 (windowPages physical).2.1 (initWindow mem physical).1
      (initWindow mem physical).2 := by
  obtain ⟨left, leftEq⟩ : ∃ left, left = (physical.allocPhysicalPage pageFlagPinned).2 := ⟨_, rfl⟩
  obtain ⟨pdir, pdirEq⟩ : ∃ pdir, pdir = (physical.allocPhysicalPage pageFlagPinned).1 := ⟨_, rfl⟩
  obtain ⟨ptable, ptableEq⟩ : ∃ ptable, ptable = (left.allocPhysicalPage pageFlagPinned).1 :=
    ⟨_, rfl⟩
  have pages : windowPages physical = (pdir, ptable, (left.allocPhysicalPage pageFlagPinned).2) := by
    rw [pdirEq, ptableEq, leftEq]
    rfl
  have built : initWindow mem physical =
      ((clearBoth pdir ptable 1024 { cr3 := pdir, mem }).connect pdir ptable,
        (left.allocPhysicalPage pageFlagPinned).2) := by
    unfold initWindow
    rw [pages]
  rw [pages] at pdirPage ptablePage ⊢
  rw [built]
  simp only at pdirPage ptablePage ⊢
  obtain ⟨-, leftStacked, leftFree, -, -⟩ := stacked.alloc pageFlagPinned
  rw [← leftEq] at leftStacked leftFree
  obtain ⟨-, lastStacked, lastFree, -, -⟩ := leftStacked.alloc pageFlagPinned
  have pdirTop : pdir ∈ physical.tops := by
    rw [pdirEq] at pdirPage ⊢
    exact (stacked.alloc_returns pageFlagPinned).resolve_left pdirPage
  have ptableTop : ptable ∈ left.tops := by
    rw [ptableEq] at ptablePage ⊢
    exact (leftStacked.alloc_returns pageFlagPinned).resolve_left ptablePage
  have pdirFree := PRList.free_of_top pdirTop
  have ptableFree := ((leftFree ptable).mp (PRList.free_of_top ptableTop))
  have apart : ptable ≠ pdir := fun same => ptableFree.2 (same ▸ pdirTop)
  obtain ⟨pdirAligned, pdirWord⟩ := stacked.managed_page (stacked.free_managed pdirFree)
  obtain ⟨ptableAligned, ptableWord⟩ := stacked.managed_page (stacked.free_managed ptableFree.1)
  have connected := initWindow_connected mem apart
  have isPtable := connected.ptable_eq ptableAligned ptableWord
  refine ⟨connected.copies apart pdirAligned pdirWord ptableAligned ptableWord, connected.cr3,
    isPtable, ?_, ?_, lastStacked, ⟨pdirPage, ?_⟩, ⟨ptablePage, ?_⟩⟩
  · unfold TableUsed
    rw [connected.cr3, connected.directory _ (by decide), if_pos rfl]
    exact (entry_initFlags ptableAligned ptableWord).2.1
  · intro index above below
    rw [isPtable]
    have last : index = pmapPtableIndex ∨ index = pmapPdirIndex := by
      unfold pmapPtableIndex pmapPdirIndex at *
      omega
    rcases last with rfl | rfl
    · rw [connected.ptableEntry]
      exact (entry_initFlags ptableAligned ptableWord).2.1
    · rw [connected.pdirEntry]
      exact (entry_initFlags pdirAligned pdirWord).2.1
  · exact fun still => ((leftFree pdir).mp ((lastFree pdir).mp still).1).2 pdirTop
  · exact fun still => ((lastFree ptable).mp still).2 ptableTop

end PageMap

def eightPages : PRList := PRList.init [(0x100000, 0x8000)] 0 (fun _ => 0)

theorem eightPages_stacked : eightPages.Stacked :=
  PRList.init_stacked (by decide) (List.pairwise_singleton _ _)

theorem eightPages_spare : selfMap.SpareTable (eightPages.allocPhysicalPage 0).1 :=
  ⟨by decide, by decide, by decide, by decide, fun index below tableAt =>
    absurd tableAt.1 (selfMap_unused index below)⟩

end DoggOS.Mem

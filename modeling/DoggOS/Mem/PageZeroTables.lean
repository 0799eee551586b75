/-
Map calls after the last physical page is gone.

Every page table is then page zero.  The slots of the directory share it, and it
is cleared again for each of them, but it is the only page whose entries go from
used to unused.  A call into the slot of the window puts page zero where the
window shows its own page table; the calls after it still end, and still spoil
page zero alone.
-/

import DoggOS.Mem.PageMapCalls

namespace DoggOS.Mem

namespace PageMap

def KeepsUsed (map map' : PageMap) : Prop :=
  ∀ page word, page ≠ nullPage → hasFlag (map.mem page word) pentryFlagUsed →
    hasFlag (map'.mem page word) pentryFlagUsed

def Marks (map map' : PageMap) : Prop :=
  ∃ page word, page ≠ nullPage ∧ ¬ hasFlag (map.mem page word) pentryFlagUsed ∧
    hasFlag (map'.mem page word) pentryFlagUsed

/-- The page tables of several slots may be one page, as long as it is none of the window's. -/
structure Overlaid (map : PageMap) : Prop where
  window : map.Window
  small : ∀ index, index < 1022 → map.TableUsed index →
    ¬ hasFlag (map.mem map.cr3 index) pentryFlagBigPage
  shows : ∀ index, index < 1022 → map.TableUsed index → map.Shows index (map.table index)
  apart : ∀ index, index < 1022 → map.TableUsed index →
    map.table index ≠ map.cr3 ∧ map.table index ≠ map.ptable
  nullApart : nullPage ≠ map.cr3 ∧ nullPage ≠ map.ptable
  reserved : ¬ map.TableUsed pmapPtableIndex

/-- Page zero is the page table of the window's own slot. -/
structure Spilled (map : PageMap) : Prop where
  selfMapped : map.SelfMapped
  showsPdir : map.Shows pmapPdirIndex map.cr3
  showsNull : map.Shows pmapPtableIndex nullPage
  small : ¬ hasFlag (map.mem map.cr3 pmapPtableIndex) pentryFlagBigPage
  nullApart : nullPage ≠ map.cr3 ∧ nullPage ≠ map.ptable
  used : map.TableUsed pmapPtableIndex

variable {map map' map'' : PageMap} {index page entry : Nat}

theorem KeepsUsed.refl (map : PageMap) : map.KeepsUsed map := fun _ _ _ used => used

theorem KeepsUsed.trans (first : map.KeepsUsed map') (second : map'.KeepsUsed map'') :
    map.KeepsUsed map'' :=
  fun page word nonNull used => second page word nonNull (first page word nonNull used)

theorem keepsUsed_store (used : hasFlag entry pentryFlagUsed) (page word : Nat) :
    map.KeepsUsed (map.store page word entry) := by
  intro other place _ wasUsed
  rw [store_mem]
  by_cases here : other = page ∧ place = word
  · rw [if_pos here]
    exact used
  · rw [if_neg here]
    exact wasUsed

theorem AddsTable.keepsUsed (adds : map.AddsTable map' index entry nullPage)
    (used : hasFlag entry pentryFlagUsed) : map.KeepsUsed map' := by
  intro other place nonNull wasUsed
  rw [adds.words, if_neg fun both => nonNull both.1]
  by_cases here : place = index ∧ (other = map.cr3 ∨ other = map.ptable)
  · rw [if_pos here]
    exact used
  · rw [if_neg here]
    exact wasUsed

theorem Marks.ne (marks : map.Marks map') (kept : map'.KeepsUsed map'') : map'' ≠ map := by
  obtain ⟨page, word, nonNull, unused, used⟩ := marks
  intro same
  exact unused (same ▸ kept page word nonNull used)

namespace Overlaid

theorem store (overlaid : map.Overlaid) (notDirectory : page ≠ map.cr3)
    (notPtable : page ≠ map.ptable) (word entry : Nat) : (map.store page word entry).Overlaid := by
  obtain ⟨after, afterEq⟩ : ∃ after, after = map.store page word entry := ⟨_, rfl⟩
  have directory : ∀ place, after.mem map.cr3 place = map.mem map.cr3 place := fun place => by
    rw [afterEq, store_mem_of_ne map entry (.inl (Ne.symm notDirectory))]
  have slots : ∀ place, after.mem map.ptable place = map.mem map.ptable place := fun place => by
    rw [afterEq, store_mem_of_ne map entry (.inl (Ne.symm notPtable))]
  have sameCr3 : after.cr3 = map.cr3 := by rw [afterEq, store_cr3]
  have same : SameWindow map after := ⟨sameCr3, directory _⟩
  have tables : ∀ place, after.table place = map.table place := fun place => by
    unfold PageMap.table
    rw [sameCr3, directory]
  have used : ∀ place, after.TableUsed place ↔ map.TableUsed place := fun place => by
    unfold TableUsed
    rw [sameCr3, directory]
  rw [← afterEq]
  refine ⟨overlaid.window.congr sameCr3 (directory _) (slots _) (slots _), ?_, ?_, ?_, ?_, ?_⟩
  · intro place below isUsed
    rw [sameCr3, directory]
    exact overlaid.small place below ((used place).mp isUsed)
  · intro place below isUsed
    unfold Shows
    rw [tables, same.ptable, slots]
    exact overlaid.shows place below ((used place).mp isUsed)
  · intro place below isUsed
    rw [tables, same.ptable, sameCr3]
    exact overlaid.apart place below ((used place).mp isUsed)
  · rw [same.ptable, sameCr3]
    exact overlaid.nullApart
  · exact fun isUsed => overlaid.reserved ((used _).mp isUsed)

theorem adds (overlaid : map.Overlaid) (adds : map.AddsTable map' index entry page)
    (below : index < 1022) (present : hasFlag entry pentryFlagPresent)
    (small : ¬ hasFlag entry pentryFlagBigPage) (named : entryPage entry = page) :
    map'.Overlaid := by
  have atSelf : pmapPdirIndex ≠ index := by
    unfold pmapPdirIndex
    omega
  have atReserved : pmapPtableIndex ≠ index := by
    unfold pmapPtableIndex
    omega
  have same := adds.sameWindow (show index < pmapPdirIndex by
    unfold pmapPdirIndex
    omega)
  refine ⟨overlaid.window.congr adds.cr3 same.selfEntry ?_ ?_, ?_, ?_, ?_, ?_, ?_⟩
  · rw [adds.window, if_neg atSelf]
  · rw [adds.window, if_neg atReserved]
  · intro other otherBelow used
    rw [adds.cr3, adds.directory]
    by_cases here : other = index
    · rw [if_pos here]
      exact small
    · rw [if_neg here]
      exact overlaid.small other otherBelow ((adds.tableUsed here).mp used)
  · intro other otherBelow used
    unfold Shows
    rw [adds.table, same.ptable, adds.window]
    by_cases here : other = index
    · rw [if_pos here, if_pos here]
      exact ⟨present, rfl⟩
    · rw [if_neg here, if_neg here]
      exact overlaid.shows other otherBelow ((adds.tableUsed here).mp used)
  · intro other otherBelow used
    rw [adds.table, same.ptable, adds.cr3]
    by_cases here : other = index
    · rw [if_pos here, named]
      exact ⟨adds.notDirectory, adds.notPtable⟩
    · rw [if_neg here]
      exact overlaid.apart other otherBelow ((adds.tableUsed here).mp used)
  · rw [same.ptable, adds.cr3]
    exact overlaid.nullApart
  · exact fun used => overlaid.reserved ((adds.tableUsed atReserved).mp used)

end Overlaid

theorem WellFormed.overlaid (wellFormed : map.WellFormed)
    (nullApart : nullPage ≠ map.cr3 ∧ nullPage ≠ map.ptable)
    (reserved : ¬ map.TableUsed pmapPtableIndex) : map.Overlaid where
  window := wellFormed.formed.window
  small := wellFormed.small
  shows := wellFormed.showsTable
  apart index below used :=
    ⟨(wellFormed.tableApart index below used).1, (wellFormed.tableApart index below used).2.1⟩
  nullApart := nullApart
  reserved := reserved

/-! ### The calls -/

section Calls

variable {Pages : Type} (allocPhysicalPage : Pages → Nat × Pages) (pages : Pages)
  {linearAddress flags : Nat}

namespace Overlaid

theorem mapLinearAddress (overlaid : map.Overlaid) (positive : 0 < linearAddress)
    (below : linearAddress < 0xff800000) (physicalAddress : Nat) (low : flags < 4096)
    (notBig : ¬ hasFlag flags pentryFlagBigPage)
    (empty : allocPhysicalPage pages = (nullPage, pages)) : ∃ status after,
      map.mapLinearAddress allocPhysicalPage pages linearAddress physicalAddress flags =
        some (status, after, pages) ∧ after.Overlaid ∧ map.KeepsUsed after := by
  obtain ⟨-, -, -, inDirectory, inTable, -⟩ := indices below
  have accepted := not_forbidden positive below
  have readDirectory := overlaid.window.readPdir (show pdirIndex linearAddress < 1024 by omega)
  have entryUsed := hasFlag_mapFlags_used physicalAddress flags
  have bindUsed {start : PageMap} (isOverlaid : start.Overlaid)
      (used : start.TableUsed (pdirIndex linearAddress)) : ∃ status after,
      start.bindEntry linearAddress physicalAddress (mapFlags flags) = some (status, after) ∧
        after.Overlaid ∧ start.KeepsUsed after := by
    obtain ⟨status, after, ran, same | stored⟩ := bindEntry_shown isOverlaid.window.selfMapped
      isOverlaid.window.showsPdir (isOverlaid.shows _ inDirectory used) (by omega) inTable
      (isOverlaid.small _ inDirectory used) physicalAddress notBig
    · exact ⟨status, after, ran, same ▸ isOverlaid, same ▸ KeepsUsed.refl start⟩
    · obtain ⟨notDirectory, notPtable⟩ := isOverlaid.apart _ inDirectory used
      refine ⟨status, after, ran, ?_, ?_⟩
      · rw [stored]
        exact isOverlaid.store notDirectory notPtable _ _
      · rw [stored]
        exact keepsUsed_store entryUsed _ _
  by_cases used : map.TableUsed (pdirIndex linearAddress)
  · obtain ⟨status, after, bound, rest⟩ := bindUsed overlaid used
    rw [mapLinearAddress_bind _ _ accepted readDirectory (.inl used), bound]
    exact ⟨status, after, rfl, rest⟩
  · obtain ⟨present, tableUsed, small, named⟩ :=
      entry_mapFlags (show nullPage % 4096 = 0 from rfl) (by decide) low notBig
    obtain ⟨middle, created, adds⟩ := overlaid.window.addPageTable
      (Nat.lt_trans inDirectory (by decide)) present named overlaid.nullApart.1
      overlaid.nullApart.2
    obtain ⟨status, after, bound, afterOverlaid, kept⟩ := bindUsed
      (overlaid.adds adds inDirectory present small named) (adds.tableUsed_self.mpr tableUsed)
    rw [mapLinearAddress_addTable allocPhysicalPage pages accepted readDirectory used notBig
      (by rw [empty]; exact created), bound, empty]
    exact ⟨status, after, rfl, afterOverlaid, (adds.keepsUsed tableUsed).trans kept⟩

end Overlaid

theorem reserved_indices (above : 0xff800000 ≤ linearAddress)
    (inWindow : linearAddress < 0xffc00000) :
    ¬ Forbidden linearAddress ∧ pdirIndex linearAddress = pmapPtableIndex ∧
      ptableIndex linearAddress < 1024 := by
  have window : pentryPagePointer 0 = 0xffc00000 := rfl
  refine ⟨?_, ?_, ?_⟩
  · unfold Forbidden
    rw [window]
    omega
  · rw [pdirIndex_eq, show pmapPtableIndex = 1022 from rfl]
    omega
  · rw [ptableIndex_eq]
    omega

namespace Spilled

theorem store (spilled : map.Spilled) (word entry : Nat) :
    (map.store nullPage word entry).Spilled := by
  obtain ⟨after, afterEq⟩ : ∃ after, after = map.store nullPage word entry := ⟨_, rfl⟩
  have directory : ∀ place, after.mem map.cr3 place = map.mem map.cr3 place := fun place => by
    rw [afterEq, store_mem_of_ne map entry (.inl (Ne.symm spilled.nullApart.1))]
  have slots : ∀ place, after.mem map.ptable place = map.mem map.ptable place := fun place => by
    rw [afterEq, store_mem_of_ne map entry (.inl (Ne.symm spilled.nullApart.2))]
  have sameCr3 : after.cr3 = map.cr3 := by rw [afterEq, store_cr3]
  have same : SameWindow map after := ⟨sameCr3, directory _⟩
  rw [← afterEq]
  refine ⟨same.selfMapped spilled.selfMapped, ?_, ?_, ?_, ?_, ?_⟩
  · unfold Shows
    rw [same.ptable, slots, sameCr3]
    exact spilled.showsPdir
  · unfold Shows
    rw [same.ptable, slots]
    exact spilled.showsNull
  · rw [sameCr3, directory]
    exact spilled.small
  · rw [same.ptable, sameCr3]
    exact spilled.nullApart
  · unfold TableUsed
    rw [sameCr3, directory]
    exact spilled.used

theorem bindEntry (spilled : map.Spilled) (above : 0xff800000 ≤ linearAddress)
    (inWindow : linearAddress < 0xffc00000) (physicalAddress : Nat)
    (notBig : ¬ hasFlag flags pentryFlagBigPage) : ∃ status after,
      map.bindEntry linearAddress physicalAddress (mapFlags flags) = some (status, after) ∧
        after.Spilled ∧ map.KeepsUsed after ∧ after.cr3 = map.cr3 := by
  obtain ⟨-, slot, inTable⟩ := reserved_indices above inWindow
  obtain ⟨status, after, ran, same | stored⟩ := bindEntry_shown spilled.selfMapped
    spilled.showsPdir (slot ▸ spilled.showsNull) (slot ▸ by decide) inTable
    (slot ▸ spilled.small) physicalAddress notBig
  · exact ⟨status, after, ran, same ▸ spilled, same ▸ KeepsUsed.refl map, same ▸ rfl⟩
  · refine ⟨status, after, ran, ?_, ?_, ?_⟩
    · rw [stored]
      exact spilled.store _ _
    · rw [stored]
      exact keepsUsed_store (hasFlag_mapFlags_used _ _) _ _
    · rw [stored, store_cr3]

theorem mapLinearAddress (spilled : map.Spilled) (above : 0xff800000 ≤ linearAddress)
    (physicalAddress : Nat) (notBig : ¬ hasFlag flags pentryFlagBigPage) : ∃ status after,
      map.mapLinearAddress allocPhysicalPage pages linearAddress physicalAddress flags =
        some (status, after, pages) ∧ after.Spilled ∧ map.KeepsUsed after := by
  by_cases inWindow : linearAddress < 0xffc00000
  · obtain ⟨accepted, slot, -⟩ := reserved_indices above inWindow
    have readDirectory := readEntry_window spilled.selfMapped spilled.showsPdir (by decide)
      (show pdirIndex linearAddress < 1024 by rw [slot]; decide)
    obtain ⟨status, after, bound, afterSpilled, kept, -⟩ :=
      spilled.bindEntry above inWindow physicalAddress notBig
    rw [mapLinearAddress_bind _ _ accepted readDirectory (.inl (slot ▸ spilled.used)), bound]
    exact ⟨status, after, rfl, afterSpilled, kept⟩
  · have forbidden : Forbidden linearAddress := .inr (Nat.le_of_not_lt inWindow)
    unfold PageMap.mapLinearAddress
    rw [if_pos forbidden]
    exact ⟨_, map, rfl, spilled, KeepsUsed.refl map⟩

end Spilled

/-- The first call into the slot of the window. -/
theorem Overlaid.mapLinearAddress_reserved (overlaid : map.Overlaid)
    (above : 0xff800000 ≤ linearAddress) (inWindow : linearAddress < 0xffc00000)
    (physicalAddress : Nat) (low : flags < 4096) (notBig : ¬ hasFlag flags pentryFlagBigPage)
    (empty : allocPhysicalPage pages = (nullPage, pages)) : ∃ status after,
      map.mapLinearAddress allocPhysicalPage pages linearAddress physicalAddress flags =
        some (status, after, pages) ∧ after.Spilled ∧ map.KeepsUsed after ∧ map.Marks after := by
  obtain ⟨accepted, slot, -⟩ := reserved_indices above inWindow
  have readDirectory := overlaid.window.readPdir (show pdirIndex linearAddress < 1024 by
    rw [slot]
    decide)
  obtain ⟨present, tableUsed, small, named⟩ :=
    entry_mapFlags (show nullPage % 4096 = 0 from rfl) (by decide) low notBig
  obtain ⟨middle, created, adds⟩ := overlaid.window.addPageTable
    (show pmapPtableIndex < pmapPdirIndex by decide) present named overlaid.nullApart.1
    overlaid.nullApart.2
  have same := adds.sameWindow (by decide)
  have spilled : middle.Spilled := by
    refine ⟨same.selfMapped overlaid.window.selfMapped, ?_, ?_, ?_, ?_, ?_⟩
    · unfold Shows
      rw [same.ptable, adds.window, if_neg (by decide), adds.cr3]
      exact overlaid.window.showsPdir
    · unfold Shows
      rw [same.ptable, adds.window, if_pos rfl]
      exact ⟨present, named⟩
    · rw [adds.cr3, adds.directory, if_pos rfl]
      exact small
    · rw [same.ptable, adds.cr3]
      exact overlaid.nullApart
    · exact adds.tableUsed_self.mpr tableUsed
  obtain ⟨status, after, bound, afterSpilled, kept, sameCr3⟩ :=
    spilled.bindEntry above inWindow physicalAddress notBig
  rw [mapLinearAddress_addTable allocPhysicalPage pages accepted readDirectory
    (fun used => overlaid.reserved (slot ▸ used)) notBig (by rw [slot, empty]; exact created),
    bound, empty]
  have nowUsed := afterSpilled.used
  unfold TableUsed at nowUsed
  rw [sameCr3, adds.cr3] at nowUsed
  exact ⟨status, after, rfl, afterSpilled, (adds.keepsUsed tableUsed).trans kept,
    map.cr3, pmapPtableIndex, Ne.symm overlaid.nullApart.1, overlaid.reserved, nowUsed⟩

/-- A call that binds a page leaves a mark: in the page table of its slot, or in the directory when
the slot had none. -/
theorem WellFormed.marks (wellFormed : map.WellFormed) (nullDirectory : nullPage ≠ map.cr3)
    (nullTables : ∀ index, index < 1022 → map.TableUsed index → nullPage ≠ map.table index)
    (afterFormed : map'.WellFormed) (below : page < 1022 * 1024) {pageTable : Nat}
    (grows : map.Grows map' (page / 1024) pageTable) (was : map.binding page = none)
    (bound : map'.binding page ≠ none) : map.Marks map' := by
  have inDirectory : page / 1024 < 1022 := Nat.div_lt_of_lt_mul below
  have inTable : page % 1024 < 1024 := Nat.mod_lt page (by decide)
  rw [afterFormed.binding_eq below] at bound
  rw [wellFormed.binding_eq below] at was
  have entry : map'.TableUsed (page / 1024) ∧
      hasFlag (map'.mem (map'.table (page / 1024)) (page % 1024)) pentryFlagUsed := by
    by_contra unused
    exact bound (if_neg unused)
  by_cases used : map.TableUsed (page / 1024)
  · have unused : ¬ hasFlag (map.mem (map.table (page / 1024)) (page % 1024)) pentryFlagUsed := by
      intro entryUsed
      rw [if_pos ⟨used, entryUsed⟩] at was
      cases was
    refine ⟨map.table (page / 1024), page % 1024, Ne.symm (nullTables _ inDirectory used), unused, ?_⟩
    rw [← (grows.keeps _ inDirectory used).2]
    exact entry.2
  · have directory := entry.1
    unfold TableUsed at directory
    rw [grows.cr3] at directory
    exact ⟨map.cr3, page / 1024, Ne.symm nullDirectory, used, directory⟩

end Calls

end PageMap

end DoggOS.Mem

/-
Page maps whose window works.

In a well-formed page map the last directory entry names the window's page
table, which maps the directory, itself and each page table in use, and all of
these pages differ.  Reads and writes through the window then never fault and
reach the word one expects, so each statement of `pmap.c` becomes a change of
one word of physical memory.
-/

import DoggOS.Mem.PageMap

namespace DoggOS.Mem

/-! ### Entries -/

theorem hasFlag_or (one two flag : Nat) :
    hasFlag (one ||| two) flag ↔ hasFlag one flag ∨ hasFlag two flag := by
  unfold hasFlag
  rw [Nat.and_or_distrib_right, Ne, Nat.or_eq_zero_iff, not_and_or]

theorem hasFlag_two_pow (entry bit : Nat) : hasFlag entry (2 ^ bit) ↔ entry / 2 ^ bit % 2 = 1 := by
  unfold hasFlag
  rw [Nat.and_two_pow, Nat.testBit_eq_decide_div_mod_eq]
  by_cases set : entry / 2 ^ bit % 2 = 1
  · simp [set]
  · simp [set]

theorem not_hasFlag_zero (flag : Nat) : ¬ hasFlag 0 flag := by
  unfold hasFlag
  rw [Nat.zero_and]
  exact fun set => set rfl

theorem not_hasFlag_bigPage {page : Nat} (aligned : page % 4096 = 0) :
    ¬ hasFlag page pentryFlagBigPage := by
  rw [show pentryFlagBigPage = 2 ^ 7 from rfl, hasFlag_two_pow]
  omega

/-- The flags that `k_mem_MapLinearAddress` stores. -/
def mapFlags (flags : Nat) : Nat :=
  flags ||| (pentryFlagUsed ||| pentryFlagReadWrite ||| pentryFlagPresent)

theorem mapFlags_lt {flags : Nat} (low : flags < 4096) : mapFlags flags < 4096 :=
  Nat.or_lt_two_pow (n := 12) low (by decide)

theorem hasFlag_mapFlags_used (entry flags : Nat) :
    hasFlag (entry ||| mapFlags flags) pentryFlagUsed := by
  rw [hasFlag_or]
  unfold mapFlags
  rw [hasFlag_or]
  exact Or.inr (Or.inr (by decide))

theorem hasFlag_mapFlags_present (entry flags : Nat) :
    hasFlag (entry ||| mapFlags flags) pentryFlagPresent := by
  rw [hasFlag_or]
  unfold mapFlags
  rw [hasFlag_or]
  exact Or.inr (Or.inr (by decide))

theorem hasFlag_mapFlags_bigPage (flags : Nat) :
    hasFlag (mapFlags flags) pentryFlagBigPage ↔ hasFlag flags pentryFlagBigPage := by
  unfold mapFlags
  rw [hasFlag_or]
  exact or_iff_left (by decide)

def entryPage (entry : Nat) : Nat := entry &&& addressMask4KB

theorem entryPage_or {address flags : Nat} (word : address < 2 ^ 32) (low : flags < 4096) :
    entryPage (address ||| flags) = address - address % 4096 := by
  unfold entryPage
  rw [Nat.and_or_distrib_right, and_addressMask address word, and_addressMask flags (by omega),
    Nat.mod_eq_of_lt low, Nat.sub_self, Nat.or_zero]

theorem entry_mapFlags {page flags : Nat} (aligned : page % 4096 = 0) (word : page < 2 ^ 32)
    (low : flags < 4096) (notBig : ¬ hasFlag flags pentryFlagBigPage) :
    hasFlag (page ||| mapFlags flags) pentryFlagPresent ∧
      hasFlag (page ||| mapFlags flags) pentryFlagUsed ∧
      ¬ hasFlag (page ||| mapFlags flags) pentryFlagBigPage ∧
      entryPage (page ||| mapFlags flags) = page := by
  refine ⟨hasFlag_mapFlags_present _ _, hasFlag_mapFlags_used _ _, ?_, ?_⟩
  · rw [hasFlag_or, hasFlag_mapFlags_bigPage]
    exact fun big => big.elim (not_hasFlag_bigPage aligned) notBig
  · rw [entryPage_or word (mapFlags_lt low)]
    omega

theorem pdirIndex_eq (address : Nat) : pdirIndex address = address / 4194304 % 1024 := by
  unfold pdirIndex
  rw [Bits.shiftRight_eq, show (0x3ff : Nat) = 2 ^ 10 - 1 from rfl, Bits.and_low]
  rfl

theorem ptableIndex_eq (address : Nat) : ptableIndex address = address / 4096 % 1024 := by
  unfold ptableIndex
  rw [Bits.shiftRight_eq, show (0x3ff : Nat) = 2 ^ 10 - 1 from rfl, Bits.and_low]
  rfl

theorem pentryPointer_eq (tableIndex entryIndex : Nat) :
    pentryPointer tableIndex entryIndex = 0xffc00000 + tableIndex * 4096 + 4 * entryIndex := by
  unfold pentryPointer pentryPagePointer
  rw [Bits.shiftLeft_eq]
  rfl

namespace PageMap

variable {map : PageMap} {index entryIndex page : Nat}

/-! ### The window -/

def table (map : PageMap) (index : Nat) : Nat := entryPage (map.mem map.cr3 index)

def ptable (map : PageMap) : Nat := map.table pmapPdirIndex

def TableUsed (map : PageMap) (index : Nat) : Prop :=
  hasFlag (map.mem map.cr3 index) pentryFlagUsed

instance (map : PageMap) (index : Nat) : Decidable (map.TableUsed index) :=
  inferInstanceAs (Decidable (hasFlag _ _))

def Shows (map : PageMap) (index page : Nat) : Prop :=
  hasFlag (map.mem map.ptable index) pentryFlagPresent ∧ entryPage (map.mem map.ptable index) = page

/-- The window is reached through the last directory entry. -/
def SelfMapped (map : PageMap) : Prop :=
  hasFlag (map.mem map.cr3 pmapPdirIndex) pentryFlagPresent ∧
    ¬ hasFlag (map.mem map.cr3 pmapPdirIndex) pentryFlagBigPage

@[simp] theorem store_cr3 (map : PageMap) (page word entry : Nat) :
    (map.store page word entry).cr3 = map.cr3 := rfl

theorem store_mem (map : PageMap) (page word entry other place : Nat) :
    (map.store page word entry).mem other place =
      if other = page ∧ place = word then entry else map.mem other place := by
  unfold store
  by_cases samePage : other = page
  · subst samePage
    simp only [Function.update_self, Function.update_apply, true_and]
  · simp only [Function.update_of_ne samePage, samePage, false_and, if_false]

theorem store_mem_self (map : PageMap) (page word entry : Nat) :
    (map.store page word entry).mem page word = entry := by
  rw [store_mem, if_pos ⟨rfl, rfl⟩]

theorem store_mem_of_ne (map : PageMap) {page word other place : Nat} (entry : Nat)
    (different : other ≠ page ∨ place ≠ word) :
    (map.store page word entry).mem other place = map.mem other place := by
  rw [store_mem, if_neg]
  omega

structure SameWindow (map map' : PageMap) : Prop where
  cr3 : map'.cr3 = map.cr3
  selfEntry : map'.mem map.cr3 pmapPdirIndex = map.mem map.cr3 pmapPdirIndex

theorem SameWindow.ptable {map' : PageMap} (same : SameWindow map map') :
    map'.ptable = map.ptable := by
  unfold PageMap.ptable PageMap.table
  rw [same.cr3, same.selfEntry]

theorem SameWindow.selfMapped {map' : PageMap} (same : SameWindow map map')
    (selfMapped : map.SelfMapped) : map'.SelfMapped := by
  unfold SelfMapped
  rw [same.cr3, same.selfEntry]
  exact selfMapped

theorem walk_pentryPointer (selfMapped : map.SelfMapped) (shows : map.Shows index page)
    (inPtable : index < 1024) (inTable : entryIndex < 1024) :
    map.walk (pentryPointer index entryIndex) = some page := by
  have atDirectory : pdirIndex (pentryPointer index entryIndex) = pmapPdirIndex := by
    rw [pdirIndex_eq, pentryPointer_eq, show pmapPdirIndex = 1023 from rfl]
    omega
  have atTable : ptableIndex (pentryPointer index entryIndex) = index := by
    rw [ptableIndex_eq, pentryPointer_eq]
    omega
  have named : map.mem map.cr3 pmapPdirIndex &&& addressMask4KB = map.ptable := rfl
  obtain ⟨present, showsPage⟩ := shows
  have pageEq : map.mem map.ptable index &&& addressMask4KB = page := showsPage
  unfold walk
  simp only [atDirectory, if_pos selfMapped.1, if_neg selfMapped.2, atTable, named, if_pos present,
    pageEq]

theorem pentryPointer_word (inTable : entryIndex < 1024) :
    pentryPointer index entryIndex % 4096 / 4 = entryIndex := by
  rw [pentryPointer_eq]
  omega

theorem readEntry_window (selfMapped : map.SelfMapped) (shows : map.Shows index page)
    (inPtable : index < 1024) (inTable : entryIndex < 1024) :
    map.readEntry (pentryPointer index entryIndex) = some (map.mem page entryIndex) := by
  unfold readEntry
  rw [walk_pentryPointer selfMapped shows inPtable inTable, pentryPointer_word inTable]
  rfl

theorem writeEntry_window (selfMapped : map.SelfMapped) (shows : map.Shows index page)
    (inPtable : index < 1024) (inTable : entryIndex < 1024) (entry : Nat) :
    map.writeEntry (pentryPointer index entryIndex) entry =
      some (map.store page entryIndex entry) := by
  unfold writeEntry
  rw [walk_pentryPointer selfMapped shows inPtable inTable, pentryPointer_word inTable]
  rfl

theorem clearEntries_spec (count first : Nat) (selfMapped : map.SelfMapped)
    (shows : map.Shows index page) (inPtable : index < 1024) (fits : first + count ≤ 1024)
    (notDirectory : page ≠ map.cr3) (notPtable : page ≠ map.ptable) :
    ∃ map', clearEntries index count first map = some map' ∧ map'.cr3 = map.cr3 ∧
      ∀ other place, map'.mem other place =
        if other = page ∧ first ≤ place ∧ place < first + count then 0 else map.mem other place := by
  induction count generalizing first map with
  | zero =>
      refine ⟨map, rfl, rfl, fun other place => ?_⟩
      rw [if_neg]
      omega
  | succ count ih =>
      have cleared := writeEntry_window selfMapped shows inPtable
        (show first < 1024 by omega) 0
      have same : SameWindow map (map.store page first 0) :=
        ⟨rfl, store_mem_of_ne map 0 (Or.inl (Ne.symm notDirectory))⟩
      have stillShows : (map.store page first 0).Shows index page := by
        unfold Shows
        rw [same.ptable, store_mem_of_ne map 0 (Or.inl (Ne.symm notPtable))]
        exact shows
      obtain ⟨map', ran, sameCr3, words⟩ := ih (first + 1) (same.selfMapped selfMapped) stillShows
        (by omega) notDirectory (by rw [same.ptable]; exact notPtable)
      refine ⟨map', ?_, sameCr3, fun other place => ?_⟩
      · rw [clearEntries, cleared]
        exact ran
      · rw [words, store_mem]
        by_cases inPage : other = page
        · by_cases here : place = first
          · rw [if_neg (by omega), if_pos ⟨inPage, here⟩, if_pos (by omega)]
          · by_cases later : first + 1 ≤ place ∧ place < first + 1 + count
            · rw [if_pos ⟨inPage, later⟩, if_pos (by omega)]
            · rw [if_neg (by omega), if_neg (by omega), if_neg (by omega)]
        · rw [if_neg (by omega), if_neg (by omega), if_neg (by omega)]

/-- `map'` is `map` with `entry` in slot `index` of the directory and of the window, and with the
page table `page` cleared. -/
structure AddsTable (map map' : PageMap) (index entry page : Nat) : Prop where
  cr3 : map'.cr3 = map.cr3
  notDirectory : page ≠ map.cr3
  notPtable : page ≠ map.ptable
  words : ∀ other place, map'.mem other place =
    if other = page ∧ place < 1024 then 0
    else if place = index ∧ (other = map.cr3 ∨ other = map.ptable) then entry
    else map.mem other place

namespace AddsTable

variable {map' : PageMap} {entry : Nat}

theorem directory (adds : map.AddsTable map' index entry page) (place : Nat) :
    map'.mem map.cr3 place = if place = index then entry else map.mem map.cr3 place := by
  rw [adds.words, if_neg fun both => adds.notDirectory both.1.symm]
  simp only [true_or, and_true]

theorem window (adds : map.AddsTable map' index entry page) (place : Nat) :
    map'.mem map.ptable place = if place = index then entry else map.mem map.ptable place := by
  rw [adds.words, if_neg fun both => adds.notPtable both.1.symm]
  simp only [or_true, and_true]

theorem cleared (adds : map.AddsTable map' index entry page) {place : Nat}
    (inTable : place < 1024) : map'.mem page place = 0 := by
  rw [adds.words, if_pos ⟨rfl, inTable⟩]

theorem other (adds : map.AddsTable map' index entry page) {other : Nat} (notPage : other ≠ page)
    (notDirectory : other ≠ map.cr3) (notPtable : other ≠ map.ptable) (place : Nat) :
    map'.mem other place = map.mem other place := by
  rw [adds.words, if_neg fun both => notPage both.1, if_neg fun both =>
    both.2.elim notDirectory notPtable]

theorem sameWindow (adds : map.AddsTable map' index entry page) (below : index < pmapPdirIndex) :
    SameWindow map map' := by
  refine ⟨adds.cr3, ?_⟩
  rw [adds.directory, if_neg (by omega)]

theorem table (adds : map.AddsTable map' index entry page) (place : Nat) :
    map'.table place = if place = index then entryPage entry else map.table place := by
  unfold PageMap.table
  rw [adds.cr3, adds.directory]
  exact apply_ite entryPage _ _ _

theorem tableUsed (adds : map.AddsTable map' index entry page) {place : Nat}
    (different : place ≠ index) : map'.TableUsed place ↔ map.TableUsed place := by
  unfold TableUsed
  rw [adds.cr3, adds.directory, if_neg different]

theorem tableUsed_self (adds : map.AddsTable map' index entry page) :
    map'.TableUsed index ↔ hasFlag entry pentryFlagUsed := by
  unfold TableUsed
  rw [adds.cr3, adds.directory, if_pos rfl]

end AddsTable

/-- The two pages of the window differ, and the window shows them both. -/
structure Window (map : PageMap) : Prop where
  selfMapped : map.SelfMapped
  showsPdir : map.Shows pmapPdirIndex map.cr3
  showsPtable : map.Shows pmapPtableIndex map.ptable
  apart : map.ptable ≠ map.cr3

namespace Window

theorem readPdir (window : map.Window) (inTable : index < 1024) :
    map.readEntry (pentryPointer pmapPdirIndex index) = some (map.mem map.cr3 index) :=
  readEntry_window window.selfMapped window.showsPdir (by decide) inTable

theorem congr (window : map.Window) {map' : PageMap} (sameCr3 : map'.cr3 = map.cr3)
    (directory : map'.mem map.cr3 pmapPdirIndex = map.mem map.cr3 pmapPdirIndex)
    (table : map'.mem map.ptable pmapPdirIndex = map.mem map.ptable pmapPdirIndex)
    (self : map'.mem map.ptable pmapPtableIndex = map.mem map.ptable pmapPtableIndex) :
    map'.Window := by
  have same : SameWindow map map' := ⟨sameCr3, directory⟩
  refine ⟨same.selfMapped window.selfMapped, ?_, ?_, ?_⟩
  · unfold Shows
    rw [same.ptable, table, sameCr3]
    exact window.showsPdir
  · unfold Shows
    rw [same.ptable, self]
    exact window.showsPtable
  · rw [same.ptable, sameCr3]
    exact window.apart

/-- What the statements that create a page table store, slot `0x3fe` included. -/
theorem addPageTable (window : map.Window) (below : index < pmapPdirIndex) {pageTable flags : Nat}
    (present : hasFlag (pageTable ||| flags) pentryFlagPresent)
    (named : entryPage (pageTable ||| flags) = page) (notDirectory : page ≠ map.cr3)
    (notPtable : page ≠ map.ptable) :
    ∃ map', map.addPageTable index pageTable flags = some (true, map') ∧
      map.AddsTable map' index (pageTable ||| flags) page := by
  unfold pmapPdirIndex at below
  obtain ⟨entry, entryEq⟩ : ∃ entry, entry = pageTable ||| flags := ⟨_, rfl⟩
  rw [← entryEq] at present named ⊢
  have nonZero : entry ≠ 0 := fun zero => not_hasFlag_zero _ (zero ▸ present)
  have apart := window.apart
  obtain ⟨first, firstEq⟩ : ∃ first, first = map.store map.cr3 index entry := ⟨_, rfl⟩
  have firstSame : SameWindow map first := by
    refine ⟨by rw [firstEq, store_cr3], ?_⟩
    rw [firstEq]
    exact store_mem_of_ne map entry (Or.inr (by unfold pmapPdirIndex; omega))
  have firstTable : ∀ place, first.mem map.ptable place = map.mem map.ptable place := fun place => by
    rw [firstEq]
    exact store_mem_of_ne map entry (Or.inl apart)
  have firstShows : ∀ other page, first.Shows other page ↔ map.Shows other page := fun other page => by
    unfold Shows
    rw [firstSame.ptable, firstTable]
  have firstSelf := firstSame.selfMapped window.selfMapped
  obtain ⟨second, secondEq⟩ : ∃ second, second = first.store map.ptable index entry := ⟨_, rfl⟩
  have secondSame : SameWindow map second := by
    refine ⟨by rw [secondEq, store_cr3, firstSame.cr3], ?_⟩
    rw [secondEq, store_mem_of_ne first entry (Or.inl (Ne.symm apart)), firstSame.selfEntry]
  have secondShows : second.Shows index page := by
    unfold Shows
    rw [secondSame.ptable, secondEq, store_mem_self]
    exact ⟨present, named⟩
  obtain ⟨map', cleared, cr3Eq, words⟩ := clearEntries_spec 1024 0
    (secondSame.selfMapped window.selfMapped) secondShows (by omega) (by omega)
    (by rw [secondSame.cr3]; exact notDirectory) (by rw [secondSame.ptable]; exact notPtable)
  refine ⟨map', ?_, cr3Eq.trans secondSame.cr3, notDirectory, notPtable, fun other place => ?_⟩
  · have written : map.writeEntry (pentryPointer pmapPdirIndex index) entry = some first := by
      rw [firstEq]
      exact writeEntry_window window.selfMapped window.showsPdir (by decide) (by omega) entry
    have readBack : first.readEntry (pentryPointer pmapPdirIndex index) = some entry := by
      rw [readEntry_window firstSelf ((firstShows _ _).mpr window.showsPdir) (by decide) (by omega),
        firstEq, store_mem_self]
    have shared : first.writeEntry (pentryPointer pmapPtableIndex index) entry = some second := by
      rw [secondEq]
      exact writeEntry_window firstSelf ((firstShows _ _).mpr window.showsPtable) (by decide)
        (by omega) entry
    unfold PageMap.addPageTable
    rw [← entryEq]
    simp only [written, readBack, shared, cleared, Option.bind_eq_bind, Option.bind_some,
      if_neg nonZero]
    rfl
  · rw [words, secondEq, store_mem, firstEq, store_mem]
    simp only [Nat.zero_le, true_and, Nat.zero_add]
    by_cases here : place = index
    · simp only [here, and_true, true_and]
      by_cases inDirectory : other = map.cr3
      · simp [inDirectory]
      · simp [inDirectory]
    · simp only [here, and_false, false_and, if_false]

end Window

/-! ### Bindings -/

def binding (map : PageMap) (page : Nat) : Option Nat := map.walk (page * 4096)

theorem page_indices (inSpace : page < 2 ^ 20) :
    pdirIndex (page * 4096) = page / 1024 ∧ ptableIndex (page * 4096) = page % 1024 := by
  rw [pdirIndex_eq, ptableIndex_eq]
  omega

def TableAt (map : PageMap) (index : Nat) : Prop :=
  map.TableUsed index ∧ ¬ hasFlag (map.mem map.cr3 index) pentryFlagBigPage

/-- Page maps with small and big pages, below the two slots that the window uses. -/
structure Formed (map : PageMap) : Prop where
  window : map.Window
  used_iff : ∀ index, index < 1022 →
    (map.TableUsed index ↔ hasFlag (map.mem map.cr3 index) pentryFlagPresent)
  showsTable : ∀ index, index < 1022 → map.TableAt index → map.Shows index (map.table index)
  tableApart : ∀ index, index < 1022 → map.TableAt index →
    map.table index ≠ map.cr3 ∧ map.table index ≠ map.ptable ∧
      ∀ other, other < 1022 → map.TableAt other → other ≠ index →
        map.table other ≠ map.table index
  entryUsed_iff : ∀ index, index < 1022 → map.TableAt index → ∀ entryIndex, entryIndex < 1024 →
    (hasFlag (map.mem (map.table index) entryIndex) pentryFlagUsed ↔
      hasFlag (map.mem (map.table index) entryIndex) pentryFlagPresent)

structure SpareTable (map : PageMap) (page : Nat) : Prop where
  aligned : page % 4096 = 0
  word : page < 2 ^ 32
  notDirectory : page ≠ map.cr3
  notPtable : page ≠ map.ptable
  notTable : ∀ index, index < 1022 → map.TableAt index → page ≠ map.table index

namespace Formed

theorem readTable (formed : map.Formed) (below : index < 1022) (tableAt : map.TableAt index)
    (inTable : entryIndex < 1024) :
    map.readEntry (pentryPointer index entryIndex) = some (map.mem (map.table index) entryIndex) :=
  readEntry_window formed.window.selfMapped (formed.showsTable index below tableAt) (by omega) inTable

theorem writeTable (formed : map.Formed) (below : index < 1022) (tableAt : map.TableAt index)
    (inTable : entryIndex < 1024) (entry : Nat) :
    map.writeEntry (pentryPointer index entryIndex) entry =
      some (map.store (map.table index) entryIndex entry) :=
  writeEntry_window formed.window.selfMapped (formed.showsTable index below tableAt) (by omega)
    inTable entry

theorem binding_of_unused (formed : map.Formed) (below : page < 1022 * 1024)
    (unused : ¬ map.TableUsed (page / 1024)) : map.binding page = none := by
  have notPresent := fun present => unused ((formed.used_iff _ (by omega)).mpr present)
  unfold binding walk
  simp only [(page_indices (show page < 2 ^ 20 by omega)).1, if_neg notPresent]

/-- The walk in terms of the flags that the source tests. -/
theorem binding_of_table (formed : map.Formed) (below : page < 1022 * 1024)
    (tableAt : map.TableAt (page / 1024)) : map.binding page =
      if hasFlag (map.mem (map.table (page / 1024)) (page % 1024)) pentryFlagUsed then
        some (entryPage (map.mem (map.table (page / 1024)) (page % 1024)))
      else none := by
  have present := (formed.used_iff _ (by omega)).mp tableAt.1
  have entryPresent := formed.entryUsed_iff _ (by omega) tableAt (page % 1024)
    (Nat.mod_lt _ (by omega))
  have named : map.mem map.cr3 (page / 1024) &&& addressMask4KB = map.table (page / 1024) := rfl
  obtain ⟨atDirectory, atTable⟩ := page_indices (show page < 2 ^ 20 by omega)
  unfold binding walk
  simp only [atDirectory, atTable, if_pos present, if_neg tableAt.2, named]
  by_cases entryUsed : hasFlag (map.mem (map.table (page / 1024)) (page % 1024)) pentryFlagUsed
  · rw [if_pos (entryPresent.mp entryUsed), if_pos entryUsed]
    rfl
  · rw [if_neg fun set => entryUsed (entryPresent.mpr set), if_neg entryUsed]

theorem binding_congr (formed : map.Formed) (below : page < 1022 * 1024) {map' : PageMap}
    (sameCr3 : map'.cr3 = map.cr3)
    (directory : map'.mem map.cr3 (page / 1024) = map.mem map.cr3 (page / 1024))
    (entry : map.TableAt (page / 1024) →
      map'.mem (map.table (page / 1024)) (page % 1024) =
        map.mem (map.table (page / 1024)) (page % 1024)) :
    map'.binding page = map.binding page := by
  have named : map.mem map.cr3 (page / 1024) &&& addressMask4KB = map.table (page / 1024) := rfl
  obtain ⟨atDirectory, atTable⟩ := page_indices (show page < 2 ^ 20 by omega)
  unfold binding walk
  simp only [atDirectory, atTable, sameCr3, directory, named]
  by_cases present : hasFlag (map.mem map.cr3 (page / 1024)) pentryFlagPresent
  · by_cases big : hasFlag (map.mem map.cr3 (page / 1024)) pentryFlagBigPage
    · simp only [if_pos present, if_pos big]
    · rw [entry ⟨(formed.used_iff _ (by omega)).mpr present, big⟩]
  · simp only [if_neg present]

theorem store_table (formed : map.Formed) (below : index < 1022) (tableAt : map.TableAt index)
    (inTable : entryIndex < 1024) {entry : Nat}
    (flags : hasFlag entry pentryFlagUsed ↔ hasFlag entry pentryFlagPresent) :
    (map.store (map.table index) entryIndex entry).Formed ∧
      (∀ place, (map.store (map.table index) entryIndex entry).mem map.cr3 place =
        map.mem map.cr3 place) ∧
      ∀ page, page < 1022 * 1024 → (map.store (map.table index) entryIndex entry).binding page =
        if page = index * 1024 + entryIndex then
          if hasFlag entry pentryFlagUsed then some (entryPage entry) else none
        else map.binding page := by
  obtain ⟨notDirectory, notPtable, notOther⟩ := formed.tableApart index below tableAt
  obtain ⟨map', mapEq⟩ : ∃ map', map' = map.store (map.table index) entryIndex entry := ⟨_, rfl⟩
  have directory : ∀ place, map'.mem map.cr3 place = map.mem map.cr3 place := fun place => by
    rw [mapEq]
    exact store_mem_of_ne map entry (Or.inl (Ne.symm notDirectory))
  have same : SameWindow map map' := ⟨by rw [mapEq, store_cr3], directory _⟩
  have window : ∀ place, map'.mem map.ptable place = map.mem map.ptable place := fun place => by
    rw [mapEq]
    exact store_mem_of_ne map entry (Or.inl (Ne.symm notPtable))
  have tables : ∀ other, map'.table other = map.table other := fun other => by
    unfold table
    rw [same.cr3, directory]
  have usedSame : ∀ other, map'.TableUsed other ↔ map.TableUsed other := fun other => by
    unfold TableUsed
    rw [same.cr3, directory]
  have tableSame : ∀ other, map'.TableAt other ↔ map.TableAt other := fun other => by
    unfold TableAt
    rw [usedSame, same.cr3, directory]
  have formed' : map'.Formed := by
    refine ⟨formed.window.congr same.cr3 (directory _) (window _) (window _), ?_, ?_, ?_, ?_⟩
    · intro other otherBelow
      rw [usedSame, same.cr3, directory]
      exact formed.used_iff other otherBelow
    · intro other otherBelow otherAt
      unfold Shows
      rw [tables, same.ptable, window]
      exact formed.showsTable other otherBelow ((tableSame other).mp otherAt)
    · intro other otherBelow otherAt
      simp only [tables, same.cr3, same.ptable, tableSame]
      exact formed.tableApart other otherBelow ((tableSame other).mp otherAt)
    · intro other otherBelow otherAt place inPlace
      rw [tables]
      by_cases here : map.table other = map.table index ∧ place = entryIndex
      · rw [here.1, here.2, mapEq, store_mem_self]
        exact flags
      · rw [mapEq, store_mem_of_ne map entry (by omega)]
        exact formed.entryUsed_iff other otherBelow ((tableSame other).mp otherAt) place inPlace
  rw [← mapEq]
  refine ⟨formed', directory, fun page inRange => ?_⟩
  by_cases here : page = index * 1024 + entryIndex
  · have atIndex : page / 1024 = index := by omega
    have atEntry : page % 1024 = entryIndex := by omega
    rw [formed'.binding_of_table inRange (by rw [atIndex]; exact (tableSame index).mpr tableAt),
      if_pos here, atIndex, atEntry, tables, mapEq, store_mem_self]
  · rw [if_neg here]
    refine formed.binding_congr inRange same.cr3 (directory _) fun otherAt => ?_
    have different : map.table (page / 1024) ≠ map.table index ∨ page % 1024 ≠ entryIndex := by
      by_cases sameIndex : page / 1024 = index
      · exact Or.inr (by omega)
      · exact Or.inl (notOther _ (by omega) otherAt sameIndex)
    rw [mapEq, store_mem_of_ne map entry different]

theorem adds (formed : map.Formed) {map' : PageMap} {entry : Nat}
    (adds : map.AddsTable map' index entry page) (below : index < 1022)
    (unused : ¬ map.TableUsed index) (present : hasFlag entry pentryFlagPresent)
    (used : hasFlag entry pentryFlagUsed) (small : ¬ hasFlag entry pentryFlagBigPage)
    (named : entryPage entry = page)
    (notTable : ∀ index, index < 1022 → map.TableAt index → page ≠ map.table index) :
    map'.Formed ∧ map'.TableAt index ∧
      ∀ other, other < 1022 * 1024 → map'.binding other = map.binding other := by
  have inDirectory : index < pmapPdirIndex := by
    unfold pmapPdirIndex
    omega
  have same := adds.sameWindow inDirectory
  have tableHere : map'.table index = page := by
    rw [adds.table, if_pos rfl, named]
  have tables : ∀ other, other ≠ index → map'.table other = map.table other :=
    fun other different => by rw [adds.table, if_neg different]
  have entryHere : map'.mem map'.cr3 index = entry := by
    rw [adds.cr3, adds.directory, if_pos rfl]
  have tableAt : map'.TableAt index := ⟨adds.tableUsed_self.mpr used, by rw [entryHere]; exact small⟩
  have tableSame : ∀ other, other ≠ index → (map'.TableAt other ↔ map.TableAt other) :=
    fun other different => by
      unfold TableAt
      rw [adds.tableUsed different, adds.cr3, adds.directory, if_neg different]
  have tableRow : ∀ other, other < 1022 → map.TableAt other → ∀ place,
      map'.mem (map.table other) place = map.mem (map.table other) place := by
    intro other otherBelow otherAt
    obtain ⟨notDirectory, notPtable, -⟩ := formed.tableApart other otherBelow otherAt
    exact adds.other (Ne.symm (notTable other otherBelow otherAt)) notDirectory notPtable
  have formed' : map'.Formed := by
    refine ⟨formed.window.congr adds.cr3 same.selfEntry ?_ ?_, ?_, ?_, ?_, ?_⟩
    · rw [adds.window, if_neg (by omega)]
    · rw [adds.window, if_neg (by unfold pmapPtableIndex; omega)]
    · intro other otherBelow
      by_cases here : other = index
      · subst here
        rw [entryHere]
        exact iff_of_true tableAt.1 present
      · rw [adds.tableUsed here, adds.cr3, adds.directory, if_neg here]
        exact formed.used_iff other otherBelow
    · intro other otherBelow otherAt
      unfold Shows
      rw [same.ptable, adds.window]
      by_cases here : other = index
      · rw [if_pos here, here, tableHere]
        exact ⟨present, named⟩
      · rw [if_neg here, tables other here]
        exact formed.showsTable other otherBelow ((tableSame other here).mp otherAt)
    · intro other otherBelow otherAt
      rw [adds.cr3, same.ptable]
      by_cases here : other = index
      · subst here
        rw [tableHere]
        refine ⟨adds.notDirectory, adds.notPtable, fun third thirdBelow thirdAt different => ?_⟩
        rw [tables third different]
        exact Ne.symm (notTable third thirdBelow ((tableSame third different).mp thirdAt))
      · have wasAt := (tableSame other here).mp otherAt
        obtain ⟨notDirectory, notPtable, notOther⟩ := formed.tableApart other otherBelow wasAt
        rw [tables other here]
        refine ⟨notDirectory, notPtable, fun third thirdBelow thirdAt different => ?_⟩
        by_cases thirdHere : third = index
        · rw [thirdHere, tableHere]
          exact notTable other otherBelow wasAt
        · rw [tables third thirdHere]
          exact notOther third thirdBelow ((tableSame third thirdHere).mp thirdAt) different
    · intro other otherBelow otherAt place inTable
      by_cases here : other = index
      · rw [here, tableHere, adds.cleared inTable]
        exact iff_of_false (not_hasFlag_zero _) (not_hasFlag_zero _)
      · have wasAt := (tableSame other here).mp otherAt
        rw [tables other here, tableRow other otherBelow wasAt]
        exact formed.entryUsed_iff other otherBelow wasAt place inTable
  refine ⟨formed', tableAt, fun other inRange => ?_⟩
  by_cases here : other / 1024 = index
  · rw [formed'.binding_of_table inRange (by rw [here]; exact tableAt),
      formed.binding_of_unused inRange (by rw [here]; exact unused), here, tableHere,
      adds.cleared (Nat.mod_lt _ (by omega)), if_neg (not_hasFlag_zero _)]
  · refine formed.binding_congr inRange adds.cr3 ?_ fun otherAt => tableRow _ (by omega) otherAt _
    rw [adds.directory, if_neg here]

end Formed

/-! ### Well-formed page maps -/

/-- Page maps with only small pages, below the two slots that the window uses. -/
structure WellFormed (map : PageMap) : Prop where
  selfMapped : map.SelfMapped
  showsPdir : map.Shows pmapPdirIndex map.cr3
  showsPtable : map.Shows pmapPtableIndex map.ptable
  apart : map.ptable ≠ map.cr3
  used_iff : ∀ index, index < 1022 →
    (map.TableUsed index ↔ hasFlag (map.mem map.cr3 index) pentryFlagPresent)
  small : ∀ index, index < 1022 → map.TableUsed index →
    ¬ hasFlag (map.mem map.cr3 index) pentryFlagBigPage
  showsTable : ∀ index, index < 1022 → map.TableUsed index → map.Shows index (map.table index)
  tableApart : ∀ index, index < 1022 → map.TableUsed index →
    map.table index ≠ map.cr3 ∧ map.table index ≠ map.ptable ∧
      ∀ other, other < 1022 → map.TableUsed other → other ≠ index →
        map.table other ≠ map.table index
  entryUsed_iff : ∀ index, index < 1022 → map.TableUsed index → ∀ entryIndex, entryIndex < 1024 →
    (hasFlag (map.mem (map.table index) entryIndex) pentryFlagUsed ↔
      hasFlag (map.mem (map.table index) entryIndex) pentryFlagPresent)

structure FreshTable (map : PageMap) (page : Nat) : Prop where
  aligned : page % 4096 = 0
  word : page < 2 ^ 32
  notDirectory : page ≠ map.cr3
  notPtable : page ≠ map.ptable
  notTable : ∀ index, index < 1022 → map.TableUsed index → page ≠ map.table index

theorem FreshTable.spare (fresh : map.FreshTable page) : map.SpareTable page :=
  ⟨fresh.aligned, fresh.word, fresh.notDirectory, fresh.notPtable,
    fun index below tableAt => fresh.notTable index below tableAt.1⟩

structure Grows (map map' : PageMap) (index pageTable : Nat) : Prop where
  cr3 : map'.cr3 = map.cr3
  ptable : map'.ptable = map.ptable
  keeps : ∀ other, other < 1022 → map.TableUsed other →
    map'.TableUsed other ∧ map'.table other = map.table other
  adds : ∀ other, other < 1022 → map'.TableUsed other → map.TableUsed other ∨
    (¬ map.TableUsed index ∧ other = index ∧ map'.table other = pageTable)

theorem grows_store (map : PageMap) {page : Nat} (notDirectory : page ≠ map.cr3)
    (word entry index pageTable : Nat) : map.Grows (map.store page word entry) index pageTable := by
  have directory : ∀ place, (map.store page word entry).mem map.cr3 place = map.mem map.cr3 place :=
    fun place => store_mem_of_ne map entry (Or.inl (Ne.symm notDirectory))
  have same : SameWindow map (map.store page word entry) := ⟨rfl, directory _⟩
  refine ⟨rfl, same.ptable, fun other _ used => ⟨?_, ?_⟩, fun other _ used => Or.inl ?_⟩
  · unfold TableUsed
    rw [store_cr3, directory]
    exact used
  · unfold table
    rw [store_cr3, directory]
  · unfold TableUsed at used
    rwa [store_cr3, directory] at used

namespace WellFormed

theorem formed (wellFormed : map.WellFormed) : map.Formed := by
  refine ⟨⟨wellFormed.selfMapped, wellFormed.showsPdir, wellFormed.showsPtable, wellFormed.apart⟩,
    wellFormed.used_iff, fun index below tableAt => wellFormed.showsTable index below tableAt.1, ?_,
    fun index below tableAt => wellFormed.entryUsed_iff index below tableAt.1⟩
  intro index below tableAt
  obtain ⟨notDirectory, notPtable, notOther⟩ := wellFormed.tableApart index below tableAt.1
  exact ⟨notDirectory, notPtable, fun other otherBelow otherAt =>
    notOther other otherBelow otherAt.1⟩

theorem tableAt (wellFormed : map.WellFormed) (below : index < 1022) (used : map.TableUsed index) :
    map.TableAt index :=
  ⟨used, wellFormed.small index below used⟩

theorem of_formed (formed : map.Formed) (small : ∀ index, index < 1022 → map.TableUsed index →
    ¬ hasFlag (map.mem map.cr3 index) pentryFlagBigPage) : map.WellFormed := by
  refine ⟨formed.window.selfMapped, formed.window.showsPdir, formed.window.showsPtable,
    formed.window.apart, formed.used_iff, small, ?_, ?_, ?_⟩
  · exact fun index below used => formed.showsTable index below ⟨used, small index below used⟩
  · intro index below used
    obtain ⟨notDirectory, notPtable, notOther⟩ :=
      formed.tableApart index below ⟨used, small index below used⟩
    exact ⟨notDirectory, notPtable, fun other otherBelow otherUsed =>
      notOther other otherBelow ⟨otherUsed, small other otherBelow otherUsed⟩⟩
  · exact fun index below used => formed.entryUsed_iff index below ⟨used, small index below used⟩

theorem readPdir (wellFormed : map.WellFormed) (inTable : index < 1024) :
    map.readEntry (pentryPointer pmapPdirIndex index) = some (map.mem map.cr3 index) :=
  wellFormed.formed.window.readPdir inTable

theorem readTable (wellFormed : map.WellFormed) (below : index < 1022) (used : map.TableUsed index)
    (inTable : entryIndex < 1024) :
    map.readEntry (pentryPointer index entryIndex) = some (map.mem (map.table index) entryIndex) :=
  wellFormed.formed.readTable below (wellFormed.tableAt below used) inTable

theorem writeTable (wellFormed : map.WellFormed) (below : index < 1022) (used : map.TableUsed index)
    (inTable : entryIndex < 1024) (entry : Nat) :
    map.writeEntry (pentryPointer index entryIndex) entry =
      some (map.store (map.table index) entryIndex entry) :=
  wellFormed.formed.writeTable below (wellFormed.tableAt below used) inTable entry

theorem binding_eq (wellFormed : map.WellFormed) (below : page < 1022 * 1024) :
    map.binding page =
      if map.TableUsed (page / 1024) ∧
        hasFlag (map.mem (map.table (page / 1024)) (page % 1024)) pentryFlagUsed then
        some (entryPage (map.mem (map.table (page / 1024)) (page % 1024)))
      else none := by
  by_cases used : map.TableUsed (page / 1024)
  · rw [wellFormed.formed.binding_of_table below (wellFormed.tableAt (by omega) used)]
    simp only [used, true_and]
  · rw [wellFormed.formed.binding_of_unused below used, if_neg fun both => used both.1]

theorem store_table (wellFormed : map.WellFormed) (below : index < 1022)
    (used : map.TableUsed index) (inTable : entryIndex < 1024) {entry : Nat}
    (flags : hasFlag entry pentryFlagUsed ↔ hasFlag entry pentryFlagPresent) :
    (map.store (map.table index) entryIndex entry).WellFormed ∧
      ∀ page, page < 1022 * 1024 → (map.store (map.table index) entryIndex entry).binding page =
        if page = index * 1024 + entryIndex then
          if hasFlag entry pentryFlagUsed then some (entryPage entry) else none
        else map.binding page := by
  obtain ⟨stored, directory, bindings⟩ :=
    wellFormed.formed.store_table below (wellFormed.tableAt below used) inTable flags
  refine ⟨of_formed stored fun other otherBelow otherUsed => ?_, bindings⟩
  unfold TableUsed at otherUsed
  rw [store_cr3, directory] at otherUsed ⊢
  exact wellFormed.small other otherBelow otherUsed

end WellFormed

end PageMap

end DoggOS.Mem

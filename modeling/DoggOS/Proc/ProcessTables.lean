/-
The directory and the page tables of a page map that is being built.

The tables are different pages, none of them the directory, and the pages that
come next are none of these.  A call adds one table and one entry at most and
leaves all others as they are.  Nothing is written through the page window, so
where an entry points to plays no role here.
-/

import DoggOS.Mem.PageMapWalk
import DoggOS.Proc.ElfLoader

namespace DoggOS.Proc

open DoggOS.Mem

theorem processEntryFlags_lt : processEntryFlags < 4096 := by decide

theorem entry_ne_zero (address : Nat) : address ||| processEntryFlags ≠ 0 := by
  intro zero
  exact absurd (Nat.or_eq_zero_iff.mp zero).2 (by decide)

theorem entry_lt {address : Nat} (word : address < 2 ^ 32) :
    address ||| processEntryFlags < 2 ^ 32 :=
  Nat.or_lt_two_pow word (by decide)

theorem entryPage_entry {address : Nat} (word : address < 2 ^ 32) :
    entryPage (address ||| processEntryFlags) = address - address % 4096 :=
  entryPage_or word processEntryFlags_lt

/-- What the page allocator is relied on for: the first `limit` pages are usable and different. -/
structure FreshFrames (pages : Nat → Nat) (limit : Nat) : Prop where
  nonNull : ∀ k, k < limit → pages k ≠ 0
  aligned : ∀ k, k < limit → pages k % 4096 = 0
  word : ∀ k, k < limit → pages k < 2 ^ 32
  distinct : ∀ j k, j < limit → k < limit → pages j = pages k → j = k

theorem FreshFrames.entryPage_eq {pages : Nat → Nat} {limit k : Nat} (fresh : FreshFrames pages limit)
    (inside : k < limit) : entryPage (pages k ||| processEntryFlags) = pages k := by
  rw [entryPage_entry (fresh.word k inside), fresh.aligned k inside, Nat.sub_zero]

namespace ProcessMem

def pte (process : ProcessMem) (number : Nat) : Nat :=
  if process.pde (number / 1024) = 0 then 0
  else loadWord (process.mem (entryPage (process.pde (number / 1024)))) (number % 1024)

variable {pages : Nat → Nat} {limit : Nat} {process after : ProcessMem} {index number : Nat}

theorem pde_of_mem (pageDir : after.pageDir = process.pageDir) (mem : after.mem = process.mem)
    (index : Nat) : after.pde index = process.pde index := by
  unfold pde
  rw [pageDir, mem]

theorem pte_of_mem (pageDir : after.pageDir = process.pageDir)
    (mem : after.mem = process.mem) (number : Nat) : after.pte number = process.pte number := by
  unfold pte pde
  rw [pageDir, mem]

theorem mapWindow_unmapWindow {window current : Nat} (shows : window = current) (page : Nat) :
    mapWindow (unmapWindow window current) page = page := by
  subst shows
  unfold mapWindow unmapWindow
  by_cases free : window = 0
  · rw [if_neg (not_not_intro free), if_pos free]
  · rw [if_pos free, if_pos rfl]

theorem selectTable_eq (window : process.pageTable = process.curPageTableEntry) (index : Nat) :
    process.selectTable index = { process with
      pageTable := entryPage (process.pde index)
      curPageTableEntry := entryPage (process.pde index) } := by
  unfold selectTable
  by_cases same : process.pde index &&& addressMask4KB = process.curPageTableEntry
  · have current : process.curPageTableEntry = entryPage (process.pde index) := same.symm
    rw [if_neg (not_not_intro same), ← current]
    cases process
    simp only at window ⊢
    rw [window]
  · rw [if_pos same, showTable, mapWindow_unmapWindow window]
    rfl

theorem selectPage_eq (window : process.page = process.curPageEntry) (index : Nat) :
    process.selectPage index = { process with
      page := entryPage (loadWord (process.mem process.pageTable) index)
      curPageEntry := entryPage (loadWord (process.mem process.pageTable) index) } := by
  unfold selectPage
  by_cases same : loadWord (process.mem process.pageTable) index &&& addressMask4KB =
      process.curPageEntry
  · have current : process.curPageEntry =
        entryPage (loadWord (process.mem process.pageTable) index) := same.symm
    rw [if_neg (not_not_intro same), ← current]
    cases process
    simp only at window ⊢
    rw [window]
  · rw [if_pos same, mapWindow_unmapWindow window]
    rfl

theorem clear_word {bytes : Bytes} (small : index < 1024) :
    loadWord (fillBytes bytes 0 4096 (fun _ => 0)) index = 0 := by
  apply Words.loadWord_zero
  intro offset inWord
  unfold fillBytes
  rw [if_pos (by omega)]

theorem obtained_addTable (pages : Nat → Nat) (process : ProcessMem) (index : Nat) :
    process.obtained ≤ (process.addTable pages index).obtained ∧
      (process.addTable pages index).obtained ≤ process.obtained + 1 := by
  unfold addTable
  by_cases unused : process.pde index = 0
  · rw [if_pos unused]
    exact ⟨Nat.le_succ _, Nat.le_refl _⟩
  · rw [if_neg unused]
    exact ⟨Nat.le_refl _, Nat.le_succ _⟩

theorem obtained_selectTable (process : ProcessMem) (index : Nat) :
    (process.selectTable index).obtained = process.obtained := by
  unfold selectTable
  dsimp only
  split
  · rfl
  · rfl

theorem obtained_addPage (pages : Nat → Nat) (process : ProcessMem) (index physical : Nat) :
    process.obtained ≤ (process.addPage pages index physical).obtained ∧
      (process.addPage pages index physical).obtained ≤ process.obtained + 1 := by
  unfold addPage
  by_cases unused : loadWord (process.mem process.pageTable) index = 0
  · rw [if_pos unused]
    by_cases given : physical ≠ 0
    · rw [if_pos given]
      exact ⟨Nat.le_refl _, Nat.le_succ _⟩
    · rw [if_neg given]
      exact ⟨Nat.le_succ _, Nat.le_refl _⟩
  · rw [if_neg unused]
    exact ⟨Nat.le_refl _, Nat.le_succ _⟩

theorem obtained_selectPage (process : ProcessMem) (index : Nat) :
    (process.selectPage index).obtained = process.obtained := by
  unfold selectPage
  dsimp only
  split
  · rfl
  · rfl

theorem obtained_mapProcessAddress (pages : Nat → Nat) (process : ProcessMem)
    (linearAddress physical : Nat) :
    process.obtained ≤ (process.mapProcessAddress pages linearAddress physical).obtained ∧
      (process.mapProcessAddress pages linearAddress physical).obtained ≤ process.obtained + 2 := by
  have first := obtained_addTable pages process (pdirIndex linearAddress)
  have second := obtained_selectTable (process.addTable pages (pdirIndex linearAddress))
    (pdirIndex linearAddress)
  have third := obtained_addPage pages
    ((process.addTable pages (pdirIndex linearAddress)).selectTable (pdirIndex linearAddress))
    (ptableIndex linearAddress) physical
  unfold mapProcessAddress
  rw [obtained_selectPage]
  omega

def withEntry (process : ProcessMem) (number address obtained : Nat) : ProcessMem :=
  { process with
    obtained
    mem := Function.update process.mem (entryPage (process.pde (number / 1024)))
      (storeWord (process.mem (entryPage (process.pde (number / 1024)))) (number % 1024)
        (address ||| processEntryFlags)) }

structure Enters (process : ProcessMem) (number address : Nat) (after : ProcessMem) : Prop where
  pageDir : after.pageDir = process.pageDir
  pde : ∀ index, after.pde index = process.pde index
  self : after.pte number = address ||| processEntryFlags
  others : ∀ other, other < 2 ^ 20 → other ≠ number → after.pte other = process.pte other
  mem : ∀ page, page ≠ entryPage (process.pde (number / 1024)) → after.mem page = process.mem page

structure Tabled (pages : Nat → Nat) (limit : Nat) (process : ProcessMem) : Prop where
  tables : ∀ index, index < 1024 → process.pde index ≠ 0 →
    entryPage (process.pde index) ≠ process.pageDir ∧
      hasFlag (process.pde index) pentryFlagPresent ∧
      ¬ hasFlag (process.pde index) pentryFlagBigPage
  distinct : ∀ one two, one < 1024 → two < 1024 → process.pde one ≠ 0 →
    process.pde two ≠ 0 → entryPage (process.pde one) = entryPage (process.pde two) → one = two
  next : ∀ k, process.obtained ≤ k → k < limit → pages k ≠ process.pageDir ∧
    ∀ index, index < 1024 → process.pde index ≠ 0 → entryPage (process.pde index) ≠ pages k
  tableWindow : process.pageTable = process.curPageTableEntry
  pageWindow : process.page = process.curPageEntry

theorem hasFlag_entry {page : Nat} (aligned : page % 4096 = 0) :
    hasFlag (page ||| processEntryFlags) pentryFlagPresent ∧
      ¬ hasFlag (page ||| processEntryFlags) pentryFlagBigPage := by
  constructor
  · exact (hasFlag_or _ _ _).mpr (Or.inr (by decide))
  · rw [hasFlag_or]
    exact fun big => big.elim (not_hasFlag_bigPage aligned) (by decide)

namespace Tabled

theorem window (tabled : Tabled pages limit process) {pageTable page : Nat} :
    Tabled pages limit { process with
      pageTable := pageTable, curPageTableEntry := pageTable, page := page, curPageEntry := page } :=
  ⟨tabled.tables, tabled.distinct, tabled.next, rfl, rfl⟩

theorem addTable_eq (tabled : Tabled pages limit process) (fresh : FreshFrames pages limit)
    (more : process.obtained < limit) (unused : process.pde index = 0) :
    process.addTable pages index = { process with
      mem := Function.update (Function.update process.mem process.pageDir
          (storeWord (process.mem process.pageDir) index
            (pages process.obtained ||| processEntryFlags)))
        (pages process.obtained)
        (fillBytes (process.mem (pages process.obtained)) 0 4096 (fun _ => 0))
      obtained := process.obtained + 1
      pageTable := pages process.obtained
      curPageTableEntry := pages process.obtained } := by
  have word := fresh.word process.obtained more
  have notDir := (tabled.next _ (Nat.le_refl _) more).1
  have page : (pages process.obtained ||| processEntryFlags) &&& addressMask4KB =
      pages process.obtained := fresh.entryPage_eq more
  rw [ProcessMem.addTable, if_pos unused]
  simp only [allocPhysicalPage, storeEntry, writePage, showTable,
    clearPage, pde, Function.update_self, Words.loadWord_storeWord _ (entry_lt word), page,
    mapWindow_unmapWindow tabled.tableWindow, Function.update_of_ne notDir]

theorem addTable_pde (tabled : Tabled pages limit process) (fresh : FreshFrames pages limit)
    (more : process.obtained < limit) (unused : process.pde index = 0) (other : Nat) :
    (process.addTable pages index).pde other =
      if other = index then pages process.obtained ||| processEntryFlags else process.pde other := by
  have notDir := (tabled.next _ (Nat.le_refl _) more).1
  have word := entry_lt (fresh.word process.obtained more)
  rw [tabled.addTable_eq fresh more unused]
  unfold ProcessMem.pde
  simp only [Function.update_of_ne notDir.symm, Function.update_self]
  by_cases here : other = index
  · rw [if_pos here, here, Words.loadWord_storeWord _ word]
  · rw [if_neg here, Words.loadWord_storeWord_of_ne _ here]

theorem addTable_pte (tabled : Tabled pages limit process) (fresh : FreshFrames pages limit)
    (more : process.obtained < limit) (unused : process.pde index = 0) (inRange : number < 2 ^ 20) :
    (process.addTable pages index).pte number = process.pte number := by
  have pde := tabled.addTable_pde fresh more unused (number / 1024)
  obtain ⟨notDir, notTable⟩ := tabled.next _ (Nat.le_refl _) more
  have page := fresh.entryPage_eq more
  unfold pte
  rw [pde]
  by_cases here : number / 1024 = index
  · rw [if_pos here, if_neg (entry_ne_zero _), here, unused, if_pos rfl, page,
      tabled.addTable_eq fresh more unused]
    simp only [Function.update_self]
    exact clear_word (Nat.mod_lt number (by decide))
  · rw [if_neg here]
    by_cases noTable : process.pde (number / 1024) = 0
    · rw [if_pos noTable, if_pos noTable]
    · have inDir : number / 1024 < 1024 := by omega
      rw [if_neg noTable, if_neg noTable, tabled.addTable_eq fresh more unused]
      simp only [Function.update_of_ne (notTable _ inDir noTable),
        Function.update_of_ne (tabled.tables _ inDir noTable).1]

theorem addTable (tabled : Tabled pages limit process) (fresh : FreshFrames pages limit)
    (more : process.obtained < limit) (unused : process.pde index = 0) :
    Tabled pages limit (process.addTable pages index) := by
  have pde := tabled.addTable_pde fresh more unused
  obtain ⟨notDir, notTable⟩ := tabled.next _ (Nat.le_refl _) more
  have page := fresh.entryPage_eq more
  have obtained : (process.addTable pages index).obtained = process.obtained + 1 := by
    rw [tabled.addTable_eq fresh more unused]
  have pageDir : (process.addTable pages index).pageDir = process.pageDir := by
    rw [tabled.addTable_eq fresh more unused]
  have tableWindow : (process.addTable pages index).pageTable =
      (process.addTable pages index).curPageTableEntry := by
    rw [tabled.addTable_eq fresh more unused]
  have pageWindow : (process.addTable pages index).page =
      (process.addTable pages index).curPageEntry := by
    rw [tabled.addTable_eq fresh more unused]
    exact tabled.pageWindow
  generalize process.addTable pages index = after at *
  constructor
  · intro other inDir used
    rw [pde] at used ⊢
    rw [pageDir]
    by_cases here : other = index
    · rw [if_pos here, page]
      exact ⟨notDir, hasFlag_entry (fresh.aligned _ more)⟩
    · rw [if_neg here] at used ⊢
      exact tabled.tables other inDir used
  · intro one two oneIn twoIn oneUsed twoUsed same
    rw [pde] at oneUsed twoUsed
    rw [pde, pde two] at same
    by_cases oneHere : one = index
    · by_cases twoHere : two = index
      · rw [oneHere, twoHere]
      · rw [if_neg twoHere] at twoUsed same
        rw [if_pos oneHere, page] at same
        exact absurd same.symm (notTable two twoIn twoUsed)
    · rw [if_neg oneHere] at oneUsed same
      by_cases twoHere : two = index
      · rw [if_pos twoHere, page] at same
        exact absurd same (notTable one oneIn oneUsed)
      · rw [if_neg twoHere] at twoUsed same
        exact tabled.distinct one two oneIn twoIn oneUsed twoUsed same
  · intro k later inside
    rw [obtained] at later
    have old := tabled.next k (by omega) inside
    rw [pageDir]
    refine ⟨old.1, ?_⟩
    intro other inDir used
    rw [pde] at used ⊢
    by_cases here : other = index
    · rw [if_pos here, page]
      intro same
      have equal := fresh.distinct _ k more inside same
      omega
    · rw [if_neg here] at used ⊢
      exact old.2 other inDir used
  · exact tableWindow
  · exact pageWindow

theorem enters {address : Nat} (tabled : Tabled pages limit process) (small : number < 2 ^ 20)
    (used : process.pde (number / 1024) ≠ 0) (word : address < 2 ^ 32) (obtained : Nat) :
    process.Enters number address (process.withEntry number address obtained) := by
  have inDir : number / 1024 < 1024 := by omega
  have tableNotDir := (tabled.tables _ inDir used).1
  have pde : ∀ index, (process.withEntry number address obtained).pde index =
      process.pde index := by
    intro index
    have kept : (process.withEntry number address obtained).mem process.pageDir =
        process.mem process.pageDir := Function.update_of_ne tableNotDir.symm _ _
    exact congrArg (fun bytes => loadWord bytes index) kept
  refine ⟨rfl, pde, ?_, fun other inRange different => ?_, fun page other => ?_⟩
  · unfold pte
    rw [pde, if_neg used]
    unfold withEntry
    simp only
    rw [Function.update_self, Words.loadWord_storeWord _ (entry_lt word)]
  · unfold pte
    rw [pde]
    by_cases unused : process.pde (other / 1024) = 0
    · rw [if_pos unused, if_pos unused]
    · rw [if_neg unused, if_neg unused]
      unfold withEntry
      simp only
      by_cases sameTable : other / 1024 = number / 1024
      · rw [sameTable, Function.update_self, Words.loadWord_storeWord_of_ne _ (by omega)]
      · rw [Function.update_of_ne]
        intro same
        exact sameTable (tabled.distinct _ _ (by omega) inDir unused used same)
  · exact Function.update_of_ne other _ _

theorem enter {address obtained : Nat} (tabled : Tabled pages limit process)
    (small : number < 2 ^ 20) (used : process.pde (number / 1024) ≠ 0) (word : address < 2 ^ 32)
    (more : process.obtained ≤ obtained) :
    Tabled pages limit (process.withEntry number address obtained) := by
  have enters := tabled.enters small used word obtained
  constructor
  · intro index inDir tableUsed
    rw [enters.pde] at tableUsed ⊢
    exact tabled.tables index inDir tableUsed
  · intro one two oneIn twoIn oneUsed twoUsed same
    rw [enters.pde] at oneUsed twoUsed
    rw [enters.pde, enters.pde] at same
    exact tabled.distinct one two oneIn twoIn oneUsed twoUsed same
  · intro k later inside
    obtain ⟨notDir, notTable⟩ := tabled.next k (Nat.le_trans more later) inside
    refine ⟨notDir, fun index inDir tableUsed => ?_⟩
    rw [enters.pde] at tableUsed ⊢
    exact notTable index inDir tableUsed
  · exact tabled.tableWindow
  · exact tabled.pageWindow

end Tabled

theorem addPage_eq (used : process.pde (number / 1024) ≠ 0)
    (window : process.pageTable = entryPage (process.pde (number / 1024))) (physical : Nat) :
    process.addPage pages (number % 1024) physical =
      if process.pte number = 0 then
        if physical ≠ 0 then process.withEntry number physical process.obtained
        else process.withEntry number (pages process.obtained) (process.obtained + 1)
      else process := by
  have entry : loadWord (process.mem process.pageTable) (number % 1024) = process.pte number := by
    unfold pte
    rw [if_neg used, window]
  unfold addPage withEntry
  rw [entry, ← window]
  rfl

end ProcessMem

end DoggOS.Proc

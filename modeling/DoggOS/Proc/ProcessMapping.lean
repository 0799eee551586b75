/-
One call of `k_proc_MapProcessAddress`.

The table of the page number is there after the first step and its window after
the second; the third step fills an empty entry, and the last one shows the page
in the page window.  A new entry points to a spare page: not the directory, not
a table, and either obtained or never to be.
-/

import DoggOS.Proc.ProcessPages

namespace DoggOS.Proc

open DoggOS.Mem

namespace ProcessMem

structure Spare (pages : Nat → Nat) (limit obtained : Nat) (process : ProcessMem) (page : Nat) :
    Prop where
  notDirectory : page ≠ process.pageDir
  notTable : ∀ index, index < 1024 → process.pde index ≠ 0 → entryPage (process.pde index) ≠ page
  known : (∃ k, k < obtained ∧ pages k = page) ∨ ∀ k, k < limit → pages k ≠ page

def KeepsPages (before after : ProcessMem) : Prop :=
  ∀ page, page ≠ before.pageDir →
    (∀ index, index < 1024 → after.pde index ≠ 0 → entryPage (after.pde index) ≠ page) →
    after.mem page = before.mem page

variable {pages : Nat → Nat} {layout : KernelLayout} {limit obtained : Nat}
  {initial : Nat → Bytes} {process after : ProcessMem} {index number address : Nat}

theorem Grows.of_mem (pageDir : after.pageDir = process.pageDir) (mem : after.mem = process.mem)
    (obtained : after.obtained = process.obtained) : process.Grows after :=
  ⟨pageDir, Nat.le_of_eq obtained.symm, fun number _ _ => pte_of_mem pageDir mem number,
    fun _ _ _ => by rw [mem]⟩

namespace Built

theorem of_mem (built : Built pages limit initial process) (mem : after.mem = process.mem)
    (pageDir : after.pageDir = process.pageDir) (obtained : after.obtained = process.obtained)
    (tableWindow : after.pageTable = after.curPageTableEntry)
    (pageWindow : after.page = after.curPageEntry) : Built pages limit initial after := by
  obtain ⟨mem', obtained', pageDir', pageTable, curPageTableEntry, page, curPageEntry⟩ := after
  simp only at mem pageDir obtained tableWindow pageWindow
  rw [mem, pageDir, obtained, tableWindow, pageWindow]
  exact built.window

theorem addTable_keeps (built : Built pages limit initial process)
    (fresh : FreshPages pages layout limit) (small : index < 1024)
    (within : (process.addTable pages index).obtained ≤ limit) :
    process.KeepsPages (process.addTable pages index) := by
  intro page notDir notTable
  by_cases unused : process.pde index = 0
  · have more : process.obtained < limit := by
      rw [ProcessMem.addTable, if_pos unused] at within
      exact within
    have used := (built.addTable fresh within).2.2.2
    have notNew := notTable index small used
    rw [(built.tabled fresh).addTable_eq fresh.frames more unused] at notNew ⊢
    have word := fresh.word process.obtained more
    have entry : ({ process with
        mem := Function.update (Function.update process.mem process.pageDir
            (storeWord (process.mem process.pageDir) index
              (pages process.obtained ||| processEntryFlags)))
          (pages process.obtained)
          (fillBytes (process.mem (pages process.obtained)) 0 4096 (fun _ => 0))
        obtained := process.obtained + 1
        pageTable := pages process.obtained
        curPageTableEntry := pages process.obtained } : ProcessMem).pde index =
          pages process.obtained ||| processEntryFlags := by
      unfold pde
      simp only [Function.update_of_ne (built.next_page fresh more).1.symm, Function.update_self,
        Words.loadWord_storeWord _ (entry_lt word)]
    rw [entry, entryPage_entry word, fresh.aligned process.obtained more, Nat.sub_zero] at notNew
    change Function.update (Function.update process.mem process.pageDir _) (pages process.obtained) _
      page = process.mem page
    rw [Function.update_of_ne notNew.symm, Function.update_of_ne notDir]
  · rw [ProcessMem.addTable, if_neg unused]

end Built

namespace Built

theorem addTable_new (built : Built pages limit initial process)
    (fresh : FreshPages pages layout limit) {slot : Nat}
    (within : (process.addTable pages slot).obtained ≤ limit)
    (changed : (process.addTable pages slot).pde index ≠ process.pde index) :
    ∃ k, process.obtained ≤ k ∧ k < (process.addTable pages slot).obtained ∧
      entryPage ((process.addTable pages slot).pde index) = pages k := by
  by_cases unused : process.pde slot = 0
  swap
  · rw [ProcessMem.addTable, if_neg unused] at changed
    exact absurd rfl changed
  have more : process.obtained < limit := by
    rw [ProcessMem.addTable, if_pos unused] at within
    exact within
  have pde := (built.tabled fresh).addTable_pde fresh.frames more unused index
  have here : index = slot := by
    by_contra elsewhere
    rw [if_neg elsewhere] at pde
    exact changed pde
  rw [pde, if_pos here, (built.tabled fresh).addTable_eq fresh.frames more unused]
  refine ⟨process.obtained, Nat.le_refl _, Nat.lt_succ_self _, ?_⟩
  rw [entryPage_entry (fresh.word _ more), fresh.aligned _ more, Nat.sub_zero]

theorem enter (built : Built pages limit initial process) (fresh : FreshPages pages layout limit)
    (small : number < 2 ^ 20) (used : process.pde (number / 1024) ≠ 0)
    (empty : process.pte number = 0) (word : address < 2 ^ 32)
    (spare : Spare pages limit obtained process (address - address % 4096))
    (more : process.obtained ≤ obtained) (within : obtained ≤ limit) :
    Built pages limit initial (process.withEntry number address obtained) ∧
      process.Grows (process.withEntry number address obtained) := by
  have inDir : number / 1024 < 1024 := by omega
  obtain ⟨table, tableBefore, isTable, -⟩ := built.table_page fresh inDir used
  have enters := (built.tabled fresh).enters small used word obtained
  have taken : (process.withEntry number address obtained).obtained = obtained := rfl
  have tableWindow : (process.withEntry number address obtained).pageTable =
      (process.withEntry number address obtained).curPageTableEntry := built.tableWindow
  have pageWindow : (process.withEntry number address obtained).page =
      (process.withEntry number address obtained).curPageEntry := built.pageWindow
  have page := entryPage_entry word
  generalize process.withEntry number address obtained = after at *
  subst taken
  constructor
  · constructor
    · exact within
    · obtain ⟨k, before, isDir⟩ := built.directory
      exact ⟨k, by omega, isDir.trans enters.pageDir.symm⟩
    · intro other inRange otherUsed
      rw [enters.pde] at otherUsed ⊢
      obtain ⟨k, before, entry, notDir⟩ := built.tables other inRange otherUsed
      exact ⟨k, by omega, entry, by rw [enters.pageDir]; exact notDir⟩
    · intro one two oneIn twoIn oneUsed twoUsed same
      rw [enters.pde] at oneUsed twoUsed
      rw [enters.pde, enters.pde] at same
      exact built.tablesDistinct one two oneIn twoIn oneUsed twoUsed same
    · intro other inRange mapped
      by_cases here : other = number
      · exact ⟨address, word, by rw [here, enters.self]⟩
      · rw [enters.others other inRange here] at mapped ⊢
        exact built.entries other inRange mapped
    · intro other inRange mapped
      by_cases here : other = number
      · rw [here, enters.self, page]
        exact spare.known
      · rw [enters.others other inRange here] at mapped ⊢
        rcases built.known other inRange mapped with ⟨k, before, isPage⟩ | never
        · exact .inl ⟨k, by omega, isPage⟩
        · exact .inr never
    · intro other inRange mapped
      by_cases here : other = number
      · rw [here, enters.self, page, enters.pageDir]
        refine ⟨spare.notDirectory, fun index inTable tableUsed => ?_⟩
        rw [enters.pde] at tableUsed ⊢
        exact spare.notTable index inTable tableUsed
      · rw [enters.others other inRange here] at mapped ⊢
        obtain ⟨notDir, notTable⟩ := built.apart other inRange mapped
        refine ⟨by rw [enters.pageDir]; exact notDir, fun index inTable tableUsed => ?_⟩
        rw [enters.pde] at tableUsed ⊢
        exact notTable index inTable tableUsed
    · exact tableWindow
    · exact pageWindow
    · intro other never
      rw [enters.mem other fun same => never table (by omega) (isTable.symm.trans same.symm)]
      exact built.untouched other fun k before => never k (by omega)
  · refine ⟨enters.pageDir, more, fun other inRange mapped => ?_, fun other inRange mapped => ?_⟩
    · have different : other ≠ number := fun same => mapped (by rw [same]; exact empty)
      exact enters.others other inRange different
    · exact enters.mem _ ((built.apart other inRange mapped).2 _ inDir used).symm

end Built

structure Shown (pages : Nat → Nat) (limit : Nat) (initial : Nat → Bytes) (before : ProcessMem)
    (number physical : Nat) (after : ProcessMem) : Prop where
  built : Built pages limit initial after
  grows : before.Grows after
  keeps : before.KeepsPages after
  others : ∀ other, other < 2 ^ 20 → other ≠ number → after.pte other = before.pte other
  mapped : after.pte number ≠ 0
  page : after.page = entryPage (after.pte number)
  given : before.pte number = 0 → physical ≠ 0 →
    entryPage (after.pte number) = physical - physical % 4096
  obtained : before.pte number = 0 → physical = 0 →
    ∃ k, before.obtained ≤ k ∧ k < after.obtained ∧ entryPage (after.pte number) = pages k
  tables : ∀ index, index < 1024 → after.pde index ≠ before.pde index →
    ∃ k, before.obtained ≤ k ∧ k < after.obtained ∧ entryPage (after.pde index) = pages k

theorem Spare.addTable {page : Nat} (spare : Spare pages limit process.obtained process page)
    (built : Built pages limit initial process) (fresh : FreshPages pages layout limit)
    (within : (process.addTable pages index).obtained ≤ limit) :
    Spare pages limit (process.addTable pages index).obtained (process.addTable pages index) page := by
  by_cases unused : process.pde index = 0
  swap
  · rw [ProcessMem.addTable, if_neg unused]
    exact spare
  have more : process.obtained < limit := by
    rw [ProcessMem.addTable, if_pos unused] at within
    exact within
  have word := fresh.word process.obtained more
  have isNew : pages process.obtained ≠ page := by
    rcases spare.known with ⟨k, before, isPage⟩ | never
    · intro same
      have equal := fresh.distinct k process.obtained (by omega) more (isPage.trans same.symm)
      omega
    · exact never process.obtained more
  have pde := (built.tabled fresh).addTable_pde fresh.frames more unused
  rw [(built.tabled fresh).addTable_eq fresh.frames more unused] at pde ⊢
  constructor
  · exact spare.notDirectory
  · intro other inDir used
    rw [pde] at used ⊢
    by_cases here : other = index
    · rw [if_pos here, entryPage_entry word, fresh.aligned process.obtained more, Nat.sub_zero]
      exact isNew
    · rw [if_neg here] at used ⊢
      exact spare.notTable other inDir used
  · rcases spare.known with ⟨k, before, isPage⟩ | never
    · exact .inl ⟨k, Nat.lt_succ_of_lt before, isPage⟩
    · exact .inr never

structure Fills (pages : Nat → Nat) (limit : Nat) (initial : Nat → Bytes) (before : ProcessMem)
    (number physical : Nat) (after : ProcessMem) : Prop where
  built : Built pages limit initial after
  grows : before.Grows after
  pde : ∀ index, after.pde index = before.pde index
  others : ∀ other, other < 2 ^ 20 → other ≠ number → after.pte other = before.pte other
  mem : ∀ page, page ≠ entryPage (before.pde (number / 1024)) → after.mem page = before.mem page
  window : after.pageTable = before.pageTable
  mapped : after.pte number ≠ 0
  given : before.pte number = 0 → physical ≠ 0 →
    entryPage (after.pte number) = physical - physical % 4096
  obtained : before.pte number = 0 → physical = 0 →
    ∃ k, before.obtained ≤ k ∧ k < after.obtained ∧ entryPage (after.pte number) = pages k

theorem Built.addPage (built : Built pages limit initial process)
    (fresh : FreshPages pages layout limit) {physical : Nat} (small : number < 2 ^ 20)
    (used : process.pde (number / 1024) ≠ 0)
    (window : process.pageTable = entryPage (process.pde (number / 1024)))
    (word : physical < 2 ^ 32)
    (spare : physical ≠ 0 →
      Spare pages limit process.obtained process (physical - physical % 4096))
    (within : (process.addPage pages (number % 1024) physical).obtained ≤ limit) :
    Fills pages limit initial process number physical
      (process.addPage pages (number % 1024) physical) := by
  have result := @addPage_eq pages process number used window physical
  by_cases empty : process.pte number = 0
  swap
  · rw [if_neg empty] at result
    rw [result]
    exact ⟨built, Grows.refl process, fun _ => rfl, fun _ _ _ => rfl, fun _ _ => rfl, rfl, empty,
      fun none => absurd none empty, fun none => absurd none empty⟩
  by_cases given : physical = 0
  · subst given
    rw [if_pos empty, if_neg (not_not_intro rfl)] at result
    rw [result] at within ⊢
    have more : process.obtained < limit := within
    have wordPage := fresh.word process.obtained more
    have aligned := fresh.aligned process.obtained more
    obtain ⟨notDir, notTable, -⟩ := built.next_page fresh more
    have spareNew : Spare pages limit (process.obtained + 1) process
        (pages process.obtained - pages process.obtained % 4096) := by
      rw [aligned, Nat.sub_zero]
      exact ⟨notDir, notTable, .inl ⟨process.obtained, Nat.lt_succ_self _, rfl⟩⟩
    have enters := (built.tabled fresh).enters small used wordPage (process.obtained + 1)
    obtain ⟨builtNew, grows⟩ :=
      built.enter fresh small used empty wordPage spareNew (Nat.le_succ _) within
    refine ⟨builtNew, grows, enters.pde, enters.others, enters.mem, rfl, ?_,
      fun _ wrong => absurd rfl wrong, fun _ _ => ⟨process.obtained, Nat.le_refl _,
        Nat.lt_succ_self _, ?_⟩⟩
    · rw [enters.self]
      exact entry_ne_zero _
    · rw [enters.self, entryPage_entry wordPage, aligned, Nat.sub_zero]
  · rw [if_pos empty, if_pos given] at result
    rw [result] at within ⊢
    have enters := (built.tabled fresh).enters small used word process.obtained
    obtain ⟨builtNew, grows⟩ :=
      built.enter fresh small used empty word (spare given) (Nat.le_refl _) within
    refine ⟨builtNew, grows, enters.pde, enters.others, enters.mem, rfl, ?_, fun _ _ => ?_,
      fun _ wrong => absurd wrong given⟩
    · rw [enters.self]
      exact entry_ne_zero _
    · rw [enters.self]
      exact entryPage_entry word

structure CallSteps (pages : Nat → Nat) (limit : Nat) (initial : Nat → Bytes)
    (before : ProcessMem) (number physical : Nat) (table selected filled after : ProcessMem) :
    Prop where
  isTable : table = before.addTable pages (number / 1024)
  tableWithin : table.obtained ≤ limit
  selectedMem : selected.mem = table.mem
  selectedDir : selected.pageDir = table.pageDir
  selectedObtained : selected.obtained = table.obtained
  window : selected.pageTable = entryPage (selected.pde (number / 1024))
  used : selected.pde (number / 1024) ≠ 0
  isFilled : filled = selected.addPage pages (number % 1024) physical
  fills : Fills pages limit initial selected number physical filled
  mem : after.mem = filled.mem
  pageDir : after.pageDir = filled.pageDir
  obtained : after.obtained = filled.obtained
  page : after.page = entryPage (filled.pte number)
  built : Built pages limit initial after

theorem Built.mapProcessAddress_steps (built : Built pages limit initial process)
    (fresh : FreshPages pages layout limit) {physical : Nat} (small : address / 4096 < 2 ^ 20)
    (word : physical < 2 ^ 32)
    (spare : physical ≠ 0 →
      Spare pages limit process.obtained process (physical - physical % 4096))
    (within : (process.mapProcessAddress pages address physical).obtained ≤ limit) :
    ∃ table selected filled, CallSteps pages limit initial process (address / 4096) physical
      table selected filled (process.mapProcessAddress pages address physical) := by
  obtain ⟨number, numberEq⟩ : ∃ number, number = address / 4096 := ⟨_, rfl⟩
  rw [← numberEq] at small ⊢
  have directory : pdirIndex address = number / 1024 := by
    rw [pdirIndex_eq]
    omega
  have slot : ptableIndex address = number % 1024 := by
    rw [ptableIndex_eq, numberEq]
  unfold ProcessMem.mapProcessAddress at within ⊢
  simp only [directory, slot] at within ⊢
  rw [obtained_selectPage] at within
  have taken := obtained_addPage pages
    ((process.addTable pages (number / 1024)).selectTable (number / 1024)) (number % 1024) physical
  rw [obtained_selectTable] at taken
  have withinTable : (process.addTable pages (number / 1024)).obtained ≤ limit := by omega
  obtain ⟨builtTable, -, -, used⟩ := built.addTable fresh withinTable
  have spareTable : physical ≠ 0 → Spare pages limit
      (process.addTable pages (number / 1024)).obtained (process.addTable pages (number / 1024))
      (physical - physical % 4096) :=
    fun given => (spare given).addTable built fresh withinTable
  obtain ⟨table, isTable⟩ : ∃ table, table = process.addTable pages (number / 1024) := ⟨_, rfl⟩
  rw [← isTable] at within withinTable builtTable used spareTable ⊢
  refine ⟨table, table.selectTable (number / 1024),
    (table.selectTable (number / 1024)).addPage pages (number % 1024) physical, ?_⟩
  -- The table window only shows another page.
  have chosen := selectTable_eq builtTable.tableWindow (number / 1024)
  have builtSelected : Built pages limit initial (table.selectTable (number / 1024)) := by
    rw [chosen]
    exact builtTable.of_mem rfl rfl rfl rfl builtTable.pageWindow
  have shows : (table.selectTable (number / 1024)).pageTable =
      entryPage (table.pde (number / 1024)) := by rw [chosen]
  have selectedMem : (table.selectTable (number / 1024)).mem = table.mem := by rw [chosen]
  have selectedDir : (table.selectTable (number / 1024)).pageDir = table.pageDir := by rw [chosen]
  have selectedObtained : (table.selectTable (number / 1024)).obtained = table.obtained := by
    rw [chosen]
  clear chosen
  generalize table.selectTable (number / 1024) = selected at *
  have pde : ∀ index, selected.pde index = table.pde index := pde_of_mem selectedDir selectedMem
  have window : selected.pageTable = entryPage (selected.pde (number / 1024)) := by
    rw [shows, pde]
  have usedSelected : selected.pde (number / 1024) ≠ 0 := by
    rw [pde]
    exact used
  have spareSelected : physical ≠ 0 → Spare pages limit selected.obtained selected
      (physical - physical % 4096) := by
    intro given
    have old := spareTable given
    refine ⟨by rw [selectedDir]; exact old.notDirectory, fun index inTable usedTable => ?_,
      by rw [selectedObtained]; exact old.known⟩
    rw [pde] at usedTable ⊢
    exact old.notTable index inTable usedTable
  have fills := builtSelected.addPage fresh small usedSelected window word spareSelected within
  have entry : loadWord ((selected.addPage pages (number % 1024) physical).mem
      (selected.addPage pages (number % 1024) physical).pageTable) (number % 1024) =
        (selected.addPage pages (number % 1024) physical).pte number := by
    have usedFilled : (selected.addPage pages (number % 1024) physical).pde (number / 1024) ≠ 0 := by
      rw [fills.pde]
      exact usedSelected
    unfold pte
    rw [if_neg usedFilled, fills.window, fills.pde, window]
  -- The page window only shows another page.
  have paged := selectPage_eq fills.built.pageWindow (number % 1024)
  rw [entry] at paged
  rw [paged]
  exact ⟨isTable, withinTable, selectedMem, selectedDir, selectedObtained, window, usedSelected, rfl,
    fills, rfl, rfl, rfl, rfl, fills.built.of_mem rfl rfl rfl fills.built.tableWindow rfl⟩

/-- One call of `k_proc_MapProcessAddress`. -/
theorem Built.mapProcessAddress (built : Built pages limit initial process)
    (fresh : FreshPages pages layout limit) {physical : Nat} (wordAddress : address < 2 ^ 32)
    (word : physical < 2 ^ 32)
    (spare : physical ≠ 0 →
      Spare pages limit process.obtained process (physical - physical % 4096))
    (within : (process.mapProcessAddress pages address physical).obtained ≤ limit) :
    Shown pages limit initial process (address / 4096) physical
      (process.mapProcessAddress pages address physical) := by
  have small : address / 4096 < 2 ^ 20 := by omega
  have inDir : address / 4096 / 1024 < 1024 := by omega
  obtain ⟨table, selected, filled, steps⟩ :=
    built.mapProcessAddress_steps fresh small word spare within
  generalize process.mapProcessAddress pages address physical = after at *
  generalize address / 4096 = number at *
  have withinTable := steps.tableWithin
  rw [steps.isTable] at withinTable
  obtain ⟨-, growsTable, pteTable, -⟩ := built.addTable fresh withinTable
  have keepsTable := built.addTable_keeps fresh inDir withinTable
  have newTable : ∀ index, (process.addTable pages (number / 1024)).pde index ≠
      process.pde index → ∃ k, process.obtained ≤ k ∧
        k < (process.addTable pages (number / 1024)).obtained ∧
          entryPage ((process.addTable pages (number / 1024)).pde index) = pages k :=
    fun index => built.addTable_new fresh withinTable
  rw [← steps.isTable] at growsTable pteTable keepsTable newTable
  have fills := steps.fills
  have pdeSelected : ∀ index, selected.pde index = table.pde index :=
    pde_of_mem steps.selectedDir steps.selectedMem
  have pteSelected : ∀ other, selected.pte other = table.pte other :=
    pte_of_mem steps.selectedDir steps.selectedMem
  have pteAfter : ∀ other, after.pte other = filled.pte other := pte_of_mem steps.pageDir steps.mem
  have pdeAfter : ∀ index, after.pde index = table.pde index := fun index => by
    rw [pde_of_mem steps.pageDir steps.mem, fills.pde, pdeSelected]
  have emptySelected : process.pte number = 0 → selected.pte number = 0 := by
    intro empty
    rw [pteSelected, pteTable number small]
    exact empty
  have least := growsTable.obtained
  have sameObtained := steps.selectedObtained
  have taken := fills.grows.obtained
  have lastObtained := steps.obtained
  constructor
  · exact steps.built
  · exact growsTable.trans ((Grows.of_mem steps.selectedDir steps.selectedMem
      steps.selectedObtained).trans (fills.grows.trans
        (Grows.of_mem steps.pageDir steps.mem steps.obtained)))
  · intro page notDir notTable
    have notTableFirst : ∀ index, index < 1024 → table.pde index ≠ 0 →
        entryPage (table.pde index) ≠ page := by
      intro index inTable usedTable
      rw [← pdeAfter] at usedTable ⊢
      exact notTable index inTable usedTable
    have usedTable := steps.used
    rw [pdeSelected] at usedTable
    rw [steps.mem, fills.mem page, steps.selectedMem]
    · exact keepsTable page notDir notTableFirst
    · rw [pdeSelected]
      exact (notTableFirst _ inDir usedTable).symm
  · intro other inRange different
    rw [pteAfter, fills.others other inRange different, pteSelected, pteTable other inRange]
  · rw [pteAfter]
    exact fills.mapped
  · rw [steps.page, pteAfter]
  · intro empty given
    rw [pteAfter]
    exact fills.given (emptySelected empty) given
  · intro empty none
    obtain ⟨k, leastTaken, before, isPage⟩ := fills.obtained (emptySelected empty) none
    exact ⟨k, by omega, by omega, by rw [pteAfter]; exact isPage⟩
  · intro index _ changed
    rw [pdeAfter] at changed ⊢
    obtain ⟨k, leastTaken, before, isTable⟩ := newTable index changed
    exact ⟨k, leastTaken, by omega, isTable⟩

end ProcessMem

end DoggOS.Proc

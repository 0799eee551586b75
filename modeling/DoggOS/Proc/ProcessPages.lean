/-
What `k_proc_MapProcessAddress` does to a page map under construction.

In a map that is being built by the loader the mapped pages too are different
from the directory and the page tables, and a page that was not obtained has its
first content.  A call maps one more page number at most and leaves the content
of the mapped pages alone.
-/

import DoggOS.Proc.ProcessTables

namespace DoggOS.Proc

open DoggOS.Mem

/-- The first `limit` pages are usable, different, and not the pages the kernel shares. -/
structure FreshPages (pages : Nat → Nat) (layout : KernelLayout) (limit : Nat) : Prop where
  nonNull : ∀ k, k < limit → pages k ≠ 0
  aligned : ∀ k, k < limit → pages k % 4096 = 0
  word : ∀ k, k < limit → pages k < 2 ^ 32
  distinct : ∀ j k, j < limit → k < limit → pages j = pages k → j = k
  unshared : ∀ k, k < limit → ∀ address ∈ layout.sharedAddresses, pages k ≠ address - address % 4096

theorem FreshPages.frames {pages : Nat → Nat} {layout : KernelLayout} {limit : Nat}
    (fresh : FreshPages pages layout limit) : FreshFrames pages limit :=
  ⟨fresh.nonNull, fresh.aligned, fresh.word, fresh.distinct⟩

namespace ProcessMem

structure Built (pages : Nat → Nat) (limit : Nat) (initial : Nat → Bytes)
    (process : ProcessMem) : Prop where
  obtained_le : process.obtained ≤ limit
  directory : ∃ k, k < process.obtained ∧ pages k = process.pageDir
  tables : ∀ index, index < 1024 → process.pde index ≠ 0 → ∃ k, k < process.obtained ∧
    process.pde index = pages k ||| processEntryFlags ∧ pages k ≠ process.pageDir
  tablesDistinct : ∀ one two, one < 1024 → two < 1024 → process.pde one ≠ 0 →
    process.pde two ≠ 0 → entryPage (process.pde one) = entryPage (process.pde two) → one = two
  entries : ∀ number, number < 2 ^ 20 → process.pte number ≠ 0 → ∃ address, address < 2 ^ 32 ∧
    process.pte number = address ||| processEntryFlags
  known : ∀ number, number < 2 ^ 20 → process.pte number ≠ 0 →
    (∃ k, k < process.obtained ∧ pages k = entryPage (process.pte number)) ∨
      ∀ k, k < limit → pages k ≠ entryPage (process.pte number)
  apart : ∀ number, number < 2 ^ 20 → process.pte number ≠ 0 →
    entryPage (process.pte number) ≠ process.pageDir ∧
      ∀ index, index < 1024 → process.pde index ≠ 0 →
        entryPage (process.pde index) ≠ entryPage (process.pte number)
  tableWindow : process.pageTable = process.curPageTableEntry
  pageWindow : process.page = process.curPageEntry
  untouched : ∀ page, (∀ k, k < process.obtained → pages k ≠ page) →
    process.mem page = initial page

structure Grows (before after : ProcessMem) : Prop where
  pageDir : after.pageDir = before.pageDir
  obtained : before.obtained ≤ after.obtained
  pte : ∀ number, number < 2 ^ 20 → before.pte number ≠ 0 → after.pte number = before.pte number
  content : ∀ number, number < 2 ^ 20 → before.pte number ≠ 0 →
    after.mem (entryPage (before.pte number)) = before.mem (entryPage (before.pte number))

theorem Grows.refl (process : ProcessMem) : process.Grows process :=
  ⟨rfl, Nat.le_refl _, fun _ _ _ => rfl, fun _ _ _ => rfl⟩

theorem Grows.trans {before middle after : ProcessMem} (one : before.Grows middle)
    (two : middle.Grows after) : before.Grows after where
  pageDir := two.pageDir.trans one.pageDir
  obtained := Nat.le_trans one.obtained two.obtained
  pte number small mapped := by
    have kept := one.pte number small mapped
    rw [two.pte number small (by rw [kept]; exact mapped), kept]
  content number small mapped := by
    have kept := one.pte number small mapped
    have later := two.content number small (by rw [kept]; exact mapped)
    rw [kept] at later
    rw [later, one.content number small mapped]

variable {pages : Nat → Nat} {layout : KernelLayout} {limit : Nat} {initial : Nat → Bytes}
  {process : ProcessMem} {index number : Nat}

namespace Built

theorem table_page (built : Built pages limit initial process) (fresh : FreshPages pages layout limit)
    (small : index < 1024) (used : process.pde index ≠ 0) :
    ∃ k, k < process.obtained ∧ entryPage (process.pde index) = pages k ∧
      pages k ≠ process.pageDir := by
  obtain ⟨k, before, entry, notDir⟩ := built.tables index small used
  have inLimit := Nat.lt_of_lt_of_le before built.obtained_le
  refine ⟨k, before, ?_, notDir⟩
  rw [entry, entryPage_entry (fresh.word k inLimit), fresh.aligned k inLimit, Nat.sub_zero]

theorem later_page (built : Built pages limit initial process)
    (fresh : FreshPages pages layout limit) {k : Nat} (later : process.obtained ≤ k)
    (inside : k < limit) :
    pages k ≠ process.pageDir ∧
      (∀ index, index < 1024 → process.pde index ≠ 0 →
        entryPage (process.pde index) ≠ pages k) ∧
      (∀ number, number < 2 ^ 20 → process.pte number ≠ 0 →
        entryPage (process.pte number) ≠ pages k) := by
  have new : ∀ j, j < process.obtained → pages j ≠ pages k := by
    intro j before same
    have := fresh.distinct j k (by omega) inside same
    omega
  refine ⟨?_, fun index small used => ?_, fun number small mapped => ?_⟩
  · obtain ⟨j, before, isDir⟩ := built.directory
    exact fun same => new j before (isDir.trans same.symm)
  · obtain ⟨j, before, isPage, -⟩ := built.table_page fresh small used
    rw [isPage]
    exact new j before
  · rcases built.known number small mapped with ⟨j, before, isPage⟩ | shared
    · rw [← isPage]
      exact new j before
    · exact (shared k inside).symm

theorem next_page (built : Built pages limit initial process) (fresh : FreshPages pages layout limit)
    (more : process.obtained < limit) :
    pages process.obtained ≠ process.pageDir ∧
      (∀ index, index < 1024 → process.pde index ≠ 0 →
        entryPage (process.pde index) ≠ pages process.obtained) ∧
      (∀ number, number < 2 ^ 20 → process.pte number ≠ 0 →
        entryPage (process.pte number) ≠ pages process.obtained) :=
  built.later_page fresh (Nat.le_refl _) more

theorem tabled (built : Built pages limit initial process)
    (fresh : FreshPages pages layout limit) : Tabled pages limit process := by
  constructor
  · intro index small used
    obtain ⟨k, before, entry, notDir⟩ := built.tables index small used
    have inside := Nat.lt_of_lt_of_le before built.obtained_le
    rw [entry, fresh.frames.entryPage_eq inside]
    exact ⟨notDir, hasFlag_entry (fresh.aligned k inside)⟩
  · exact built.tablesDistinct
  · intro k later inside
    obtain ⟨notDir, notTable, -⟩ := built.later_page fresh later inside
    exact ⟨notDir, notTable⟩
  · exact built.tableWindow
  · exact built.pageWindow

theorem window (built : Built pages limit initial process) {pageTable page : Nat} :
    Built pages limit initial { process with
      pageTable := pageTable, curPageTableEntry := pageTable, page := page, curPageEntry := page } :=
  ⟨built.obtained_le, built.directory, built.tables, built.tablesDistinct, built.entries, built.known,
    built.apart, rfl, rfl, built.untouched⟩

theorem addTable (built : Built pages limit initial process) (fresh : FreshPages pages layout limit)
    (within : (process.addTable pages index).obtained ≤ limit) :
    Built pages limit initial (process.addTable pages index) ∧
      process.Grows (process.addTable pages index) ∧
      (∀ number, number < 2 ^ 20 → (process.addTable pages index).pte number = process.pte number) ∧
      (process.addTable pages index).pde index ≠ 0 := by
  by_cases unused : process.pde index = 0
  swap
  · have same : process.addTable pages index = process := if_neg unused
    rw [same]
    exact ⟨built, Grows.refl process, fun _ _ => rfl, unused⟩
  have more : process.obtained < limit := by
    rw [ProcessMem.addTable, if_pos unused] at within
    exact within
  have tabled := built.tabled fresh
  obtain ⟨notDir, notTable, notPage⟩ := built.next_page fresh more
  have page := fresh.frames.entryPage_eq more
  have pde := tabled.addTable_pde fresh.frames more unused
  have pte : ∀ number, number < 2 ^ 20 →
      (process.addTable pages index).pte number = process.pte number :=
    fun number => tabled.addTable_pte fresh.frames more unused
  have result := tabled.addTable_eq fresh.frames more unused
  have added := tabled.addTable fresh.frames more unused
  have obtained : (process.addTable pages index).obtained = process.obtained + 1 := by rw [result]
  have pageDir : (process.addTable pages index).pageDir = process.pageDir := by rw [result]
  have mem : ∀ other, other ≠ process.pageDir → other ≠ pages process.obtained →
      (process.addTable pages index).mem other = process.mem other := by
    intro other notDirectory notNew
    rw [result]
    simp only [Function.update_of_ne notNew, Function.update_of_ne notDirectory]
  clear result
  generalize process.addTable pages index = after at *
  constructor
  · constructor
    · omega
    · obtain ⟨k, before, isDir⟩ := built.directory
      exact ⟨k, by omega, isDir.trans pageDir.symm⟩
    · intro other inDir used
      rw [pde] at used ⊢
      rw [pageDir]
      by_cases here : other = index
      · rw [if_pos here]
        exact ⟨process.obtained, by omega, rfl, notDir⟩
      · rw [if_neg here] at used ⊢
        obtain ⟨k, before, entry, isNotDir⟩ := built.tables other inDir used
        exact ⟨k, by omega, entry, isNotDir⟩
    · exact added.distinct
    · intro number inRange mapped
      rw [pte number inRange] at mapped ⊢
      exact built.entries number inRange mapped
    · intro number inRange mapped
      rw [pte number inRange] at mapped ⊢
      rcases built.known number inRange mapped with ⟨k, before, isPage⟩ | shared
      · exact Or.inl ⟨k, by omega, isPage⟩
      · exact Or.inr shared
    · intro number inRange mapped
      rw [pte number inRange] at mapped ⊢
      rw [pageDir]
      obtain ⟨isNotDir, isNotTable⟩ := built.apart number inRange mapped
      refine ⟨isNotDir, fun other inDir used => ?_⟩
      rw [pde] at used ⊢
      by_cases here : other = index
      · rw [if_pos here, page]
        exact (notPage number inRange mapped).symm
      · rw [if_neg here] at used ⊢
        exact isNotTable other inDir used
    · exact added.tableWindow
    · exact added.pageWindow
    · intro other isNew
      have notOld : ∀ k, k < process.obtained → pages k ≠ other := fun k before => isNew k (by omega)
      obtain ⟨k, before, isDir⟩ := built.directory
      rw [mem other (fun same => notOld k before (isDir.trans same.symm))
        (fun same => isNew process.obtained (by omega) same.symm)]
      exact built.untouched other notOld
  · refine ⟨⟨pageDir, by omega, fun number inRange _ => pte number inRange, ?_⟩, pte, ?_⟩
    · intro number inRange mapped
      exact mem _ (built.apart number inRange mapped).1 (notPage number inRange mapped)
    · rw [pde, if_pos rfl]
      exact entry_ne_zero _

end Built

end ProcessMem

end DoggOS.Proc

/-
The calls that give the pages of a process back.

A page map that names each page of its process once is walked by
`k_proc_TerminateProcess` table by table, so no page of the process comes twice.
Only the ring 0 stack may be missing, and the other pages are in the lower
memory.
-/

import DoggOS.Proc.ProcessTeardown

namespace DoggOS.Proc

open DoggOS.Mem

theorem mem_entryPages {bytes : Bytes} {page : Nat} : page ∈ entryPages bytes ↔
    page ≠ 0 ∧ ∃ index, index < 1024 ∧ entryPage (loadWord bytes index) = page := by
  unfold entryPages
  rw [List.mem_filter, List.mem_map, decide_eq_true_iff]
  constructor
  · rintro ⟨⟨index, inRange, isPage⟩, used⟩
    exact ⟨used, index, List.mem_range.mp inRange, isPage⟩
  · rintro ⟨used, index, inRange, isPage⟩
    exact ⟨⟨index, List.mem_range.mpr inRange, isPage⟩, used⟩

theorem entryPages_pairwise {bytes : Bytes} {related : Nat → Nat → Prop}
    (entries : ∀ one two, one < two → two < 1024 → entryPage (loadWord bytes one) ≠ 0 →
      entryPage (loadWord bytes two) ≠ 0 →
        related (entryPage (loadWord bytes one)) (entryPage (loadWord bytes two))) :
    (entryPages bytes).Pairwise related := by
  unfold entryPages
  rw [List.pairwise_filter, List.pairwise_map]
  refine List.Pairwise.imp_of_mem ?_ List.pairwise_lt_range
  intro one two _ inRange less oneUsed twoUsed
  exact entries one two less (List.mem_range.mp inRange) (of_decide_eq_true oneUsed)
    (of_decide_eq_true twoUsed)

/-- The calls depend on the directory and the tables only. -/
theorem terminateCalls_congr {mem after : Nat → Bytes} {pageMap : Nat}
    (directory : after pageMap = mem pageMap)
    (tables : ∀ table ∈ entryPages (mem pageMap), after table = mem table) :
    terminateCalls after pageMap = terminateCalls mem pageMap := by
  unfold terminateCalls
  rw [directory]
  have same : (entryPages (mem pageMap)).flatMap (fun table => entryPages (after table) ++ [table]) =
      (entryPages (mem pageMap)).flatMap (fun table => entryPages (mem table) ++ [table]) := by
    refine List.flatMap_congr fun table member => ?_
    rw [tables table member]
  rw [same]

/-- Calls that give the pages back, one time each; the page of the stack may be missing. -/
structure Tears (pages : List Nat) (stack : Nat) (calls : List Nat) : Prop where
  once : calls.Pairwise fun one two => one ∈ pages → one ≠ two
  all : ∀ page ∈ pages, page ∈ calls ∨ page = stack
  low : ∀ call ∈ calls, call ∈ pages ∨ call < lowMemoryEnd

def MapOf (mem : Nat → Bytes) (pageMap : Nat) (pages : List Nat) : Prop :=
  pageMap ∈ pages ∧ ∀ table ∈ entryPages (mem pageMap), table ∈ pages

theorem mem_iff_getD {pages : List Nat} {page : Nat} :
    page ∈ pages ↔ ∃ k, k < pages.length ∧ pages.getD k 0 = page := by
  rw [List.mem_iff_getElem]
  constructor
  · rintro ⟨k, inside, isPage⟩
    exact ⟨k, inside, by rw [List.getD_eq_getElem _ _ inside]; exact isPage⟩
  · rintro ⟨k, inside, isPage⟩
    exact ⟨k, inside, by rw [← List.getD_eq_getElem _ 0 inside]; exact isPage⟩

namespace ProcessMem

variable {pages : Nat → Nat} {layout : KernelLayout} {limit missing : Nat}
  {initial : Nat → Bytes} {process : ProcessMem} {index slot table page : Nat}

theorem pte_table (inTable : slot < 1024) (used : process.pde index ≠ 0) :
    process.pte (index * 1024 + slot) =
      loadWord (process.mem (entryPage (process.pde index))) slot := by
  have first : (index * 1024 + slot) / 1024 = index := by omega
  have second : (index * 1024 + slot) % 1024 = slot := by omega
  unfold pte
  rw [first, second, if_neg used]

namespace Built

theorem mem_tables (built : Built pages limit initial process)
    (fresh : FreshPages pages layout limit) :
    table ∈ entryPages (process.mem process.pageDir) ↔
      ∃ index, index < 1024 ∧ process.pde index ≠ 0 ∧ entryPage (process.pde index) = table := by
  rw [mem_entryPages]
  constructor
  · rintro ⟨used, index, inRange, isTable⟩
    refine ⟨index, inRange, fun unused => used ?_, isTable⟩
    change process.pde index = 0 at unused
    rw [← isTable]
    change entryPage (process.pde index) = 0
    rw [unused]
    rfl
  · rintro ⟨index, inRange, used, isTable⟩
    obtain ⟨k, before, isPage, -⟩ := built.table_page fresh inRange used
    refine ⟨?_, index, inRange, isTable⟩
    rw [← isTable, isPage]
    exact fresh.nonNull k (Nat.lt_of_lt_of_le before built.obtained_le)

theorem mem_table (inRange : index < 1024) (used : process.pde index ≠ 0)
    (member : page ∈ entryPages (process.mem (entryPage (process.pde index)))) :
    ∃ number, number < 2 ^ 20 ∧ number / 1024 = index ∧ process.pte number ≠ 0 ∧
      entryPage (process.pte number) = page := by
  obtain ⟨nonNull, slot, inTable, isPage⟩ := mem_entryPages.mp member
  have entry := @pte_table process index slot inTable used
  refine ⟨index * 1024 + slot, by omega, by omega, fun empty => nonNull ?_, by rw [entry, isPage]⟩
  rw [← isPage, ← entry, empty]
  rfl

end Built

/-- The page map that the loader leaves names every page of the process once. -/
theorem NamesOnce.terminateCalls_once (names : process.NamesOnce pages limit initial missing)
    (fresh : FreshPages pages layout limit) :
    (terminateCalls process.mem process.pageDir).Pairwise
      fun one two => (∃ k, k < limit ∧ pages k = one) → one ≠ two := by
  have built := names.built
  have notDir : ∀ index, index < 1024 → process.pde index ≠ 0 →
      ∀ page ∈ entryPages (process.mem (entryPage (process.pde index))) ++
        [entryPage (process.pde index)], page ≠ process.pageDir := by
    intro index inRange used page member
    rcases List.mem_append.mp member with inTable | isTable
    · obtain ⟨number, small, -, mapped, isPage⟩ := Built.mem_table inRange used inTable
      rw [← isPage]
      exact (built.apart number small mapped).1
    · rw [List.mem_singleton.mp isTable]
      exact ((built.tabled fresh).tables index inRange used).1
  unfold terminateCalls
  rw [List.pairwise_append, List.pairwise_flatMap]
  refine ⟨⟨fun table member => ?_, ?_⟩, List.pairwise_singleton _ _, ?_⟩
  · -- within one table
    obtain ⟨index, inRange, used, rfl⟩ := (built.mem_tables fresh).mp member
    rw [List.pairwise_append]
    refine ⟨?_, List.pairwise_singleton _ _, ?_⟩
    · refine entryPages_pairwise fun one two less inTable oneUsed twoUsed isObtained same => ?_
      have oneEntry := @pte_table process index one (by omega) used
      have twoEntry := @pte_table process index two inTable used
      rw [← oneEntry] at oneUsed isObtained same
      rw [← twoEntry] at twoUsed same
      have nonZero : ∀ entry, entryPage entry ≠ 0 → entry ≠ 0 := by
        intro entry pageUsed unused
        rw [unused] at pageUsed
        exact pageUsed rfl
      have equal := names.once (index * 1024 + one) (index * 1024 + two) (by omega) (by omega)
        (nonZero _ oneUsed) (nonZero _ twoUsed) same isObtained
      omega
    · intro page inTable other isTable _
      obtain ⟨number, small, -, mapped, isPage⟩ := Built.mem_table inRange used inTable
      rw [List.mem_singleton.mp isTable, ← isPage]
      exact ((built.apart number small mapped).2 index inRange used).symm
  · -- in two tables
    refine entryPages_pairwise fun one two less inRange oneUsed twoUsed => ?_
    have oneIn : one < 1024 := by omega
    have pdeUsed : ∀ index, entryPage (process.pde index) ≠ 0 → process.pde index ≠ 0 := by
      intro index pageUsed unused
      rw [unused] at pageUsed
      exact pageUsed rfl
    have oneTable := pdeUsed one oneUsed
    have twoTable := pdeUsed two twoUsed
    intro page inOne other inTwo isObtained same
    subst same
    rcases List.mem_append.mp inOne with oneEntry | isOne
    · obtain ⟨number, small, ofOne, mapped, isPage⟩ := Built.mem_table oneIn oneTable oneEntry
      rcases List.mem_append.mp inTwo with twoEntry | isTwo
      · obtain ⟨number', small', ofTwo, mapped', isPage'⟩ :=
          Built.mem_table inRange twoTable twoEntry
        have equal := names.once number number' small small' mapped mapped'
          (isPage.trans isPage'.symm) (by rw [isPage]; exact isObtained)
        omega
      · rw [List.mem_singleton.mp isTwo] at isPage
        exact (built.apart number small mapped).2 two inRange twoTable isPage.symm
    · rw [List.mem_singleton.mp isOne] at inTwo
      rcases List.mem_append.mp inTwo with twoEntry | isTwo
      · obtain ⟨number, small, -, mapped, isPage⟩ := Built.mem_table inRange twoTable twoEntry
        exact (built.apart number small mapped).2 one oneIn oneTable isPage.symm
      · have equal := built.tablesDistinct one two oneIn inRange oneTable twoTable
          (List.mem_singleton.mp isTwo)
        omega
  · intro page member other isDir _
    rw [List.mem_singleton.mp isDir]
    obtain ⟨table, inDir, inTable⟩ := List.mem_flatMap.mp member
    obtain ⟨index, inRange, used, rfl⟩ := (built.mem_tables fresh).mp inDir
    exact notDir index inRange used page inTable

theorem NamesOnce.named_call (names : process.NamesOnce pages limit initial missing)
    (fresh : FreshPages pages layout limit) {k : Nat} (before : k < process.obtained)
    (needed : k ≠ missing) : pages k ∈ terminateCalls process.mem process.pageDir := by
  have inLimit := Nat.lt_of_lt_of_le before names.built.obtained_le
  have nonNull := fresh.nonNull k inLimit
  unfold terminateCalls
  rw [List.mem_append, List.mem_singleton, List.mem_flatMap]
  rcases names.named k before needed with isDir | ⟨index, inRange, used, isTable⟩ |
    ⟨number, small, mapped, isPage⟩
  · exact .inr isDir
  · refine .inl ⟨pages k, (names.built.mem_tables fresh).mpr ⟨index, inRange, used, isTable⟩, ?_⟩
    rw [List.mem_append, List.mem_singleton]
    exact .inr rfl
  · have used : process.pde (number / 1024) ≠ 0 := by
      intro unused
      unfold pte at mapped
      rw [if_pos unused] at mapped
      exact mapped rfl
    have entry : process.pte number =
        loadWord (process.mem (entryPage (process.pde (number / 1024)))) (number % 1024) := by
      unfold pte
      rw [if_neg used]
    refine .inl ⟨entryPage (process.pde (number / 1024)), (names.built.mem_tables fresh).mpr
      ⟨number / 1024, by omega, used, rfl⟩, List.mem_append_left _ ?_⟩
    rw [mem_entryPages]
    exact ⟨nonNull, number % 1024, Nat.mod_lt _ (by decide), by rw [← entry]; exact isPage⟩

theorem NamesOnce.call_known (names : process.NamesOnce pages limit initial missing)
    (fresh : FreshPages pages layout limit) {call : Nat}
    (member : call ∈ terminateCalls process.mem process.pageDir) :
    (∃ k, k < limit ∧ pages k = call) ∨ call < lowMemoryEnd := by
  have within := names.built.obtained_le
  unfold terminateCalls at member
  rw [List.mem_append, List.mem_singleton, List.mem_flatMap] at member
  rcases member with ⟨table, inDir, inTable⟩ | isDir
  · obtain ⟨index, inRange, used, rfl⟩ := (names.built.mem_tables fresh).mp inDir
    rcases List.mem_append.mp inTable with entry | isTable
    · obtain ⟨number, small, -, mapped, isPage⟩ := Built.mem_table inRange used entry
      rw [← isPage]
      exact names.low number small mapped
    · obtain ⟨k, before, isPage, -⟩ := names.built.table_page fresh inRange used
      rw [List.mem_singleton.mp isTable]
      exact .inl ⟨k, by omega, isPage.symm⟩
  · obtain ⟨k, before, isPage⟩ := names.built.directory
    exact .inl ⟨k, by omega, isPage.trans isDir.symm⟩

end ProcessMem

/-- What `k_proc_TerminateProcess` will give back of a process that was made of `pages`. -/
theorem createProcess_tears {pages : List Nat} {layout : KernelLayout} {image : Bytes}
    {mem : Nat → Bytes} {pageMap stack : Nat} {process : ProcessMem}
    (executable : IsExecutable image)
    (fresh : FreshPages (fun k => pages.getD k 0) layout pages.length)
    (low : ∀ address ∈ layout.sharedAddresses, address < lowMemoryEnd)
    (ran : createProcess (fun k => pages.getD k 0) layout image mem = some (pageMap, process))
    (all : process.obtained = pages.length)
    (isStack : ringStackPage (fun k => pages.getD k 0) layout image mem = some stack) :
    stack ∈ pages ∧ MapOf process.mem pageMap pages ∧
      Tears pages stack (terminateCalls process.mem pageMap) ∧
      ∀ page, page ∉ pages → process.mem page = mem page := by
  obtain ⟨rfl, missing, before, isMissing, names⟩ :=
    createProcess_names executable fresh low ran (Nat.le_of_eq all)
  have stackEq : stack = pages.getD missing 0 := Option.some.inj (isStack.symm.trans isMissing)
  have obtained : ∀ {k page : Nat}, k < process.obtained → pages.getD k 0 = page → page ∈ pages :=
    fun inside isPage => mem_iff_getD.mpr ⟨_, by omega, isPage⟩
  refine ⟨obtained before stackEq.symm, ⟨?_, fun table member => ?_⟩, ⟨?_, ?_, ?_⟩, ?_⟩
  · obtain ⟨k, inside, isDir⟩ := names.built.directory
    exact obtained inside isDir
  · obtain ⟨index, inRange, used, rfl⟩ := (names.built.mem_tables fresh).mp member
    obtain ⟨k, inside, isPage, -⟩ := names.built.table_page fresh inRange used
    exact obtained inside isPage.symm
  · refine (names.terminateCalls_once fresh).imp fun apart member => apart ?_
    exact mem_iff_getD.mp member
  · intro page member
    obtain ⟨k, inside, isPage⟩ := mem_iff_getD.mp member
    by_cases isMissing : k = missing
    · right
      rw [stackEq, ← isMissing]
      exact isPage.symm
    · left
      rw [← isPage]
      exact names.named_call fresh (by omega) isMissing
  · intro call member
    exact (names.call_known fresh member).imp_left mem_iff_getD.mpr
  · intro page notMember
    refine names.built.untouched page fun k inside isPage => notMember ?_
    exact obtained inside isPage

end DoggOS.Proc

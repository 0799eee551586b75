/-
Which images `k_proc_CreateProcess` loads correctly.

After the segments the loader maps the pages that every process shares and the
first stack.  Neither changes a page of a segment, and both may put a page with
other content where a segment has a page that its loop did not reach.  So a
segment is right exactly when its loop reaches all its pages, each of them gets
bytes of the file, and no byte of the file is cleared behind the copy.
-/

import DoggOS.Proc.ProcessCalls
import DoggOS.Proc.SegmentLoads
import Mathlib.Data.List.Pairwise

namespace DoggOS.Proc

open DoggOS.Mem

namespace ProgramHeader

/-- The segment as the new process sees it: mapped, the bytes of the file, then zeros. -/
def SeenIn (image : Bytes) (header : ProgramHeader) (pageMap : Nat) (process : ProcessMem) : Prop :=
  ∀ index < header.memSize, ∃ page, process.walk pageMap (header.vaddr + index) = some page ∧
    process.mem page ((header.vaddr + index) % 4096) =
      if index < header.fileSize then image (header.offset + index) else 0

/-- The last page has bytes of the file, the loop reaches it, and what is cleared behind a file in
the first page was zero anyway. -/
def LoadsRight (image : Bytes) (header : ProgramHeader) : Prop :=
  header.memSize = 0 ∨
    0 < header.fileSize ∧
    (header.pad + header.memSize - 1) / 4096 = (header.pad + header.fileSize - 1) / 4096 ∧
    4096 * ((header.pad + header.memSize - 1) / 4096) < header.memSize ∧
    (header.pad + header.fileSize < 4096 → ∀ index, header.fileSize ≤ index + header.pad →
      index < header.fileSize → image (header.offset + index) = 0)

end ProgramHeader

/-- The call succeeds, and every segment to load is there. -/
def CreatesImage (pages : Nat → Nat) (layout : KernelLayout) (image : Bytes) (mem : Nat → Bytes) :
    Prop :=
  ∃ pageMap process, createProcess pages layout image mem = some (pageMap, process) ∧
    ∀ header ∈ programHeaders image, header.type = segmentTypeLoad →
      header.SeenIn image pageMap process

namespace ProcessMem

structure Joins (pages : Nat → Nat) (limit : Nat) (initial : Nat → Bytes) (image : Bytes)
    (turns : List LoadTurn) (process : ProcessMem) : Prop where
  built : Built pages limit initial process
  atFirst : process.pageDir = pages 0
  loaded : ∀ turn ∈ turns, process.LoadedPage initial image turn
  others : ∀ number, number < 2 ^ 20 → process.pte number ≠ 0 →
    (∃ turn ∈ turns, number = turn.number) ∨
      process.mem (entryPage (process.pte number)) = initial (entryPage (process.pte number))

variable {pages : Nat → Nat} {layout : KernelLayout} {limit : Nat} {initial : Nat → Bytes}
  {image : Bytes} {process after : ProcessMem} {turns : List LoadTurn} {address physical : Nat}

theorem Holds.joins (holds : process.Holds pages limit initial image turns) :
    process.Joins pages limit initial image turns :=
  ⟨holds.built, holds.atFirst, holds.loaded,
    fun number small mapped => .inl (holds.mapped number small mapped)⟩

theorem Built.walk (built : Built pages limit initial process)
    (fresh : FreshPages pages layout limit) (word : address < 2 ^ 32) :
    process.walk process.pageDir address =
      if process.pte (address / 4096) = 0 then none
      else some (entryPage (process.pte (address / 4096))) := by
  rw [(built.tabled fresh).walk_eq word]
  by_cases empty : process.pte (address / 4096) = 0
  · rw [if_pos empty, empty, if_neg (not_hasFlag_zero _)]
  · obtain ⟨target, -, entry⟩ := built.entries _ (by omega) empty
    rw [if_neg empty, if_pos]
    rw [entry]
    exact (hasFlag_or _ _ _).mpr (.inr (by decide))

def emptyMap (pages : Nat → Nat) (mem : Nat → Bytes) : ProcessMem :=
  clearPage { mem, obtained := 1, pageDir := pages 0, pageTable := 0, curPageTableEntry := 0
              page := 0, curPageEntry := 0 } (pages 0)

theorem emptyMap_holds (some : 0 < limit) (mem : Nat → Bytes) (image : Bytes) :
    (emptyMap pages mem).Holds pages limit mem image [] := by
  obtain ⟨start, startEq⟩ : ∃ start, start = emptyMap pages mem := ⟨_, rfl⟩
  have pageDir : start.pageDir = pages 0 := by
    rw [startEq]
    rfl
  have obtained : start.obtained = 1 := by
    rw [startEq]
    rfl
  have cleared : start.mem (pages 0) = fillBytes (mem (pages 0)) 0 4096 (fun _ => 0) := by
    rw [startEq]
    exact Function.update_self ..
  have other : ∀ page, page ≠ pages 0 → start.mem page = mem page := fun page different => by
    rw [startEq]
    exact Function.update_of_ne different _ _
  have pde : ∀ index, index < 1024 → start.pde index = 0 := by
    intro index small
    unfold ProcessMem.pde
    rw [pageDir, cleared]
    exact clear_word small
  have pte : ∀ number, number < 2 ^ 20 → start.pte number = 0 := by
    intro number small
    unfold ProcessMem.pte
    rw [if_pos (pde _ (by omega))]
  have tableWindow : start.pageTable = start.curPageTableEntry := by
    rw [startEq]
    rfl
  have pageWindow : start.page = start.curPageEntry := by
    rw [startEq]
    rfl
  rw [← startEq]
  refine ⟨⟨?_, ⟨0, by omega, pageDir.symm⟩, ?_, ?_, ?_, ?_, ?_, tableWindow, pageWindow, ?_⟩,
    pageDir, ?_, ?_⟩
  · omega
  · exact fun index small used => absurd (pde index small) used
  · exact fun one _ small _ used => absurd (pde one small) used
  · exact fun number small used => absurd (pte number small) used
  · exact fun number small used => absurd (pte number small) used
  · exact fun number small used => absurd (pte number small) used
  · intro page never
    exact other page (Ne.symm (never 0 (by omega)))
  · exact fun number small used => absurd (pte number small) used
  · exact fun turn member => absurd member List.not_mem_nil

theorem LoadedPage.grows {turn : LoadTurn} (loaded : process.LoadedPage initial image turn)
    (grows : process.Grows after) : after.LoadedPage initial image turn := by
  obtain ⟨small, used, bytes⟩ := loaded
  have same := grows.pte _ small used
  refine ⟨small, by rw [same]; exact used, fun offset inside => ?_⟩
  rw [same, grows.content _ small used]
  exact bytes offset inside

theorem Joins.mapProcessAddress (joins : process.Joins pages limit initial image turns)
    (fresh : FreshPages pages layout limit) (wordAddress : address < 2 ^ 32)
    (word : physical < 2 ^ 32)
    (spare : physical ≠ 0 →
      Spare pages limit process.obtained process (physical - physical % 4096))
    (prior : physical ≠ 0 → process.mem (physical - physical % 4096) =
      initial (physical - physical % 4096))
    (within : (process.mapProcessAddress pages address physical).obtained ≤ limit) :
    (process.mapProcessAddress pages address physical).Joins pages limit initial image turns := by
  have small : address / 4096 < 2 ^ 20 := by omega
  have shown := joins.built.mapProcessAddress fresh wordAddress word spare within
  generalize process.mapProcessAddress pages address physical = after at *
  refine ⟨shown.built, shown.grows.pageDir.trans joins.atFirst,
    fun turn member => (joins.loaded turn member).grows shown.grows, ?_⟩
  intro number inRange used
  by_cases empty : process.pte number = 0
  · have here : number = address / 4096 := by
      by_contra different
      rw [shown.others number inRange different] at used
      exact used empty
    subst here
    right
    by_cases given : physical = 0
    · subst given
      exact shown.content joins.built fresh small empty
    · obtain ⟨notDir, notTable⟩ := shown.built.apart _ small used
      rw [shown.grows.pageDir] at notDir
      rw [shown.keeps _ notDir notTable, shown.given empty given]
      exact prior given
  · rw [shown.grows.pte number inRange empty, shown.grows.content number inRange empty]
    exact joins.others number inRange empty

theorem Built.spare_shared (built : Built pages limit initial process)
    (fresh : FreshPages pages layout limit) {page : Nat}
    (shared : ∀ k, k < limit → pages k ≠ page) :
    Spare pages limit process.obtained process page where
  notDirectory same := by
    obtain ⟨k, before, isDir⟩ := built.directory
    exact shared k (Nat.lt_of_lt_of_le before built.obtained_le) (isDir.trans same.symm)
  notTable index small used same := by
    obtain ⟨k, before, isTable, -⟩ := built.table_page fresh small used
    exact shared k (Nat.lt_of_lt_of_le before built.obtained_le) (isTable.symm.trans same)
  known := .inr shared

theorem obtained_shareAll (pages : Nat → Nat) (addresses : List Nat) (process : ProcessMem) :
    process.obtained ≤ (addresses.foldl
      (fun process address => process.mapProcessAddress pages address address) process).obtained ∧
    (addresses.foldl (fun process address => process.mapProcessAddress pages address address)
      process).obtained ≤ process.obtained + 2 * addresses.length := by
  induction addresses generalizing process with
  | nil => exact ⟨Nat.le_refl _, Nat.le_refl _⟩
  | cons address rest ih =>
      have first := obtained_mapProcessAddress pages process address address
      have later := ih (process.mapProcessAddress pages address address)
      rw [List.foldl_cons, List.length_cons]
      omega

/-- The identity-mapped pages that every process has. -/
theorem Joins.shareAll (joins : process.Joins pages limit initial image turns)
    (fresh : FreshPages pages layout limit) {addresses : List Nat}
    (words : ∀ address ∈ addresses, address < 2 ^ 32)
    (shared : ∀ address ∈ addresses, ∀ k, k < limit → pages k ≠ address - address % 4096)
    (within : (addresses.foldl (fun process address =>
      process.mapProcessAddress pages address address) process).obtained ≤ limit) :
    (addresses.foldl (fun process address => process.mapProcessAddress pages address address)
      process).Joins pages limit initial image turns := by
  induction addresses generalizing process with
  | nil => exact joins
  | cons address rest ih =>
      rw [List.foldl_cons] at within ⊢
      have later := (obtained_shareAll pages rest (process.mapProcessAddress pages address address)).1
      have word := words address List.mem_cons_self
      have isShared := shared address List.mem_cons_self
      refine ih ?_ (fun other member => words other (List.mem_cons_of_mem _ member))
        (fun other member => shared other (List.mem_cons_of_mem _ member)) within
      refine joins.mapProcessAddress fresh word word
        (fun _ => joins.built.spare_shared fresh isShared) (fun _ => ?_)
        (Nat.le_trans later within)
      exact joins.built.untouched _ fun k before =>
        isShared k (Nat.lt_of_lt_of_le before joins.built.obtained_le)

theorem Built.allocPhysicalPage (built : Built pages limit initial process)
    (more : process.obtained < limit) :
    Built pages limit initial (process.allocPhysicalPage pages).2 := by
  refine ⟨more, ?_, ?_, built.tablesDistinct, built.entries, ?_, built.apart, built.tableWindow,
    built.pageWindow, ?_⟩
  · obtain ⟨k, before, isDir⟩ := built.directory
    exact ⟨k, Nat.lt_succ_of_lt before, isDir⟩
  · intro index small used
    obtain ⟨k, before, isTable⟩ := built.tables index small used
    exact ⟨k, Nat.lt_succ_of_lt before, isTable⟩
  · intro number small mapped
    rcases built.known number small mapped with ⟨k, before, isPage⟩ | never
    · exact .inl ⟨k, Nat.lt_succ_of_lt before, isPage⟩
    · exact .inr never
  · exact fun page never => built.untouched page fun k before => never k (Nat.lt_succ_of_lt before)

theorem Joins.allocPhysicalPage (joins : process.Joins pages limit initial image turns)
    (more : process.obtained < limit) :
    (process.allocPhysicalPage pages).2.Joins pages limit initial image turns :=
  ⟨joins.built.allocPhysicalPage more, joins.atFirst, joins.loaded, joins.others⟩

end ProcessMem

theorem storeStack_low (bytes : Bytes) (top : Nat) (words : List Nat) (short : words.length < top) :
    storeStack bytes top words 0 = bytes 0 := by
  induction words generalizing bytes top with
  | nil => rfl
  | cons word rest ih =>
      rw [List.length_cons] at short
      rw [storeStack, ih _ _ (by omega)]
      unfold storeWord
      rw [if_neg (by omega)]

/-- What a new process is made of: the pages of the turns, and around them only pages whose first
byte was not written. -/
structure MadeOf (pages : Nat → Nat) (limit : Nat) (initial : Nat → Bytes) (image : Bytes)
    (process : ProcessMem) : Prop where
  built : process.Built pages limit initial
  atFirst : process.pageDir = pages 0
  loaded : ∀ turn, ProgramHeader.TurnsOf (programHeaders image) turn →
    process.LoadedPage initial image turn
  others : ∀ number, number < 2 ^ 20 → process.pte number ≠ 0 →
    (∃ turn, ProgramHeader.TurnsOf (programHeaders image) turn ∧ number = turn.number) ∨
      process.mem (entryPage (process.pte number)) 0 =
        initial (entryPage (process.pte number)) 0

section Creating

variable {pages : Nat → Nat} {layout : KernelLayout} {limit : Nat} {initial : Nat → Bytes}
  {image : Bytes} {process : ProcessMem} {turns : List LoadTurn}

theorem ProcessMem.Joins.madeOf (joins : process.Joins pages limit initial image turns)
    (isTurn : ∀ turn, turn ∈ turns ↔ ProgramHeader.TurnsOf (programHeaders image) turn) :
    MadeOf pages limit initial image process where
  built := joins.built
  atFirst := joins.atFirst
  loaded turn ofHeaders := joins.loaded turn ((isTurn turn).mpr ofHeaders)
  others number small mapped := by
    cases joins.others number small mapped with
    | inl some =>
        obtain ⟨turn, member, same⟩ := some
        exact .inl ⟨turn, (isTurn turn).mp member, same⟩
    | inr same => exact .inr (congrFun same 0)

theorem ProcessMem.Joins.madeOf_writePage (joins : process.Joins pages limit initial image turns)
    (isTurn : ∀ turn, turn ∈ turns ↔ ProgramHeader.TurnsOf (programHeaders image) turn) {page : Nat}
    (taken : ∃ k, k < process.obtained ∧ pages k = page) (notDir : page ≠ process.pageDir)
    (notTable : ∀ index, index < 1024 → process.pde index ≠ 0 →
      entryPage (process.pde index) ≠ page)
    (away : ∀ turn ∈ turns, entryPage (process.pte turn.number) ≠ page) {bytes : Bytes}
    (low : bytes 0 = process.mem page 0) :
    MadeOf pages limit initial image (process.writePage page bytes) := by
  obtain ⟨built, pte⟩ := joins.built.writePage taken notDir notTable bytes
  have before := joins.madeOf isTurn
  refine ⟨built, joins.atFirst, fun turn ofHeaders => ?_, fun number small mapped => ?_⟩
  · obtain ⟨small, used, written⟩ := before.loaded turn ofHeaders
    have different := away turn ((isTurn turn).mpr ofHeaders)
    have same : (process.writePage page bytes).mem (entryPage (process.pte turn.number)) =
        process.mem (entryPage (process.pte turn.number)) := Function.update_of_ne different _ _
    refine ⟨small, by rw [pte _ small]; exact used, ?_⟩
    rw [pte _ small, same]
    exact written
  · rw [pte number small] at mapped ⊢
    cases before.others number small mapped with
    | inl turn => exact .inl turn
    | inr same =>
        right
        rw [← same]
        by_cases here : entryPage (process.pte number) = page
        · rw [here, ProcessMem.writePage_mem]
          exact low
        · exact congrFun (Function.update_of_ne here _ _) 0

/-- The first stack: its page is new, so no segment has it. -/
theorem ProcessMem.Joins.mapStack (joins : process.Joins pages limit initial image turns)
    (fresh : FreshPages pages layout limit) {last : ProcessMem}
    (lastEq : last = (process.allocPhysicalPage pages).2.mapProcessAddress pages initStackAddress
      (pages process.obtained)) (within : last.obtained ≤ limit) :
    last.Joins pages limit initial image turns ∧ process.obtained < last.obtained ∧
      pages process.obtained ≠ last.pageDir ∧
      (∀ index, index < 1024 → last.pde index ≠ 0 →
        entryPage (last.pde index) ≠ pages process.obtained) ∧
      ∀ turn ∈ turns, entryPage (last.pte turn.number) ≠ pages process.obtained := by
  have steps := (ProcessMem.obtained_mapProcessAddress pages (process.allocPhysicalPage pages).2
    initStackAddress (pages process.obtained)).1
  have taken : (process.allocPhysicalPage pages).2.obtained = process.obtained + 1 := rfl
  rw [← lastEq, taken] at steps
  have more : process.obtained < limit := by omega
  obtain ⟨notDir, notTable, notPage⟩ := joins.built.next_page fresh more
  have word := fresh.word process.obtained more
  have page : pages process.obtained - pages process.obtained % 4096 = pages process.obtained := by
    rw [fresh.aligned process.obtained more, Nat.sub_zero]
  have first : process.mem (pages process.obtained) = initial (pages process.obtained) := by
    refine joins.built.untouched _ fun k before same => ?_
    have equal := fresh.distinct k process.obtained (by omega) more same
    omega
  have joined := joins.allocPhysicalPage more
  have spare : ProcessMem.Spare pages limit (process.obtained + 1)
      (process.allocPhysicalPage pages).2
      (pages process.obtained - pages process.obtained % 4096) := by
    rw [page]
    exact ⟨notDir, notTable, .inl ⟨process.obtained, Nat.lt_succ_self _, rfl⟩⟩
  have stackWord : initStackAddress < 2 ^ 32 := by decide
  have shown := joined.built.mapProcessAddress fresh stackWord word (fun _ => spare)
    (lastEq ▸ within)
  have stacked := joined.mapProcessAddress fresh stackWord word (fun _ => spare)
    (fun _ => by rw [page]; exact first) (lastEq ▸ within)
  rw [← lastEq] at shown stacked
  have pageDir : last.pageDir = process.pageDir := shown.grows.pageDir
  refine ⟨stacked, by omega, by rw [pageDir]; exact notDir, fun index small used => ?_,
    fun turn member => ?_⟩
  · by_cases old : last.pde index = process.pde index
    · rw [old] at used ⊢
      exact notTable index small used
    · obtain ⟨k, least, before, isTable⟩ := shown.tables index small old
      rw [isTable]
      intro same
      have equal := fresh.distinct k process.obtained (by omega) more same
      omega
  · obtain ⟨small, used, -⟩ := joins.loaded turn member
    have kept : last.pte turn.number = process.pte turn.number := shown.grows.pte _ small used
    rw [kept]
    exact notPage _ small used

theorem KernelLayout.sharedAddresses_lt (layout : KernelLayout) :
    ∀ address ∈ layout.sharedAddresses, address < 2 ^ 32 := by
  intro address member
  unfold sharedAddresses at member
  rw [List.cons_append, List.mem_cons, List.mem_append, List.mem_map, List.mem_map] at member
  rcases member with first | ⟨index, -, same⟩ | ⟨index, -, same⟩
  · rw [first]
    decide
  · rw [← same]
    exact Nat.mod_lt _ (by decide)
  · rw [← same]
    exact Nat.mod_lt _ (by decide)

def pagesNeeded (layout : KernelLayout) (image : Bytes) : Nat :=
  1 + 2 * ((programHeaders image).map ProgramHeader.pageSpan).sum +
    2 * layout.sharedAddresses.length + 3

/-- The call gets to its end, and with enough pages it makes the process. -/
theorem createProcess_madeOf (executable : IsExecutable image)
    (valid : ∀ header ∈ programHeaders image, header.LoadValid)
    (apart : (programHeaders image).Pairwise ProgramHeader.Apart)
    (fresh : FreshPages pages layout limit) (mem : Nat → Bytes) :
    ∃ process, createProcess pages layout image mem = some (pages 0, process) ∧
      process.obtained ≤ pagesNeeded layout image ∧
      (process.obtained ≤ limit → MadeOf pages limit mem image process) := by
  obtain ⟨loaded, ran, leastLoaded, boundLoaded, holdsLoaded⟩ :=
    @ProgramHeader.loadSegments_holds pages layout limit mem image (programHeaders image) valid apart
      fresh (ProcessMem.emptyMap pages mem)
  have startObtained : (ProcessMem.emptyMap pages mem).obtained = 1 := rfl
  obtain ⟨shared, sharedEq⟩ : ∃ shared, shared = layout.sharedAddresses.foldl
    (fun process address => process.mapProcessAddress pages address address) loaded := ⟨_, rfl⟩
  obtain ⟨last, lastEq⟩ : ∃ last, last = (shared.allocPhysicalPage pages).2.mapProcessAddress pages
    initStackAddress (pages shared.obtained) := ⟨_, rfl⟩
  have sharedTaken := ProcessMem.obtained_shareAll pages layout.sharedAddresses loaded
  rw [← sharedEq] at sharedTaken
  have lastTaken := ProcessMem.obtained_mapProcessAddress pages (shared.allocPhysicalPage pages).2
    initStackAddress (pages shared.obtained)
  have given : (shared.allocPhysicalPage pages).2.obtained = shared.obtained + 1 := rfl
  rw [← lastEq, given] at lastTaken
  have bound : last.obtained ≤ pagesNeeded layout image := by
    unfold pagesNeeded
    omega
  have madeLast : last.obtained ≤ limit → ∃ turns,
      (∀ turn, turn ∈ turns ↔ ProgramHeader.TurnsOf (programHeaders image) turn) ∧
      shared.Joins pages limit mem image turns := by
    intro within
    obtain ⟨turns, holds, isTurn⟩ := holdsLoaded (by omega) []
      (ProcessMem.emptyMap_holds (by omega) mem image)
      (fun _ _ _ turn member => absurd member List.not_mem_nil)
    rw [List.append_nil] at holds
    refine ⟨turns, isTurn, ?_⟩
    rw [sharedEq]
    exact holds.joins.shareAll fresh layout.sharedAddresses_lt
      (fun address member k before => fresh.unshared k before address member)
      (by rw [← sharedEq]; omega)
  have result : createProcess pages layout image mem = some (pages 0,
      if (elfHeader image).entry ≠ 0 then last.writePage (pages shared.obtained)
        (storeStack (last.mem (pages shared.obtained)) 1024
          (threadStack layout (elfHeader image).entry (pages 0)))
      else last) := by
    have runs : (programHeaders image).foldlM (loadSegment pages image)
      (ProcessMem.clearPage { mem, obtained := 1, pageDir := pages 0, pageTable := 0
                              curPageTableEntry := 0, page := 0, curPageEntry := 0 } (pages 0)) =
        some loaded := ran
    unfold createProcess ProcessMem.allocPhysicalPage
    simp only [if_pos executable, Nat.zero_add, runs, Option.map_some, ← sharedEq]
    rw [lastEq]
    unfold ProcessMem.allocPhysicalPage
    by_cases entry : (elfHeader image).entry ≠ 0
    · simp only [if_pos entry]
    · simp only [if_neg entry]
  refine ⟨_, result, ?_, ?_⟩
  · by_cases entry : (elfHeader image).entry ≠ 0
    · rw [if_pos entry]
      exact bound
    · rw [if_neg entry]
      exact bound
  · by_cases entry : (elfHeader image).entry ≠ 0
    · rw [if_pos entry]
      intro within
      have withinLast : last.obtained ≤ limit := within
      obtain ⟨turns, isTurn, joins⟩ := madeLast withinLast
      obtain ⟨stacked, more, notDir, notTable, away⟩ := joins.mapStack fresh lastEq withinLast
      refine stacked.madeOf_writePage isTurn ⟨shared.obtained, more, rfl⟩ notDir notTable away ?_
      exact storeStack_low _ _ _ (show 17 < 1024 by decide)
    · rw [if_neg entry]
      intro within
      obtain ⟨turns, isTurn, joins⟩ := madeLast within
      exact (joins.mapStack fresh lastEq within).1.madeOf isTurn

end Creating

/-! ### What the process sees of a segment -/

section Seen

variable {pages : Nat → Nat} {layout : KernelLayout} {limit : Nat} {initial : Nat → Bytes}
  {image : Bytes} {process : ProcessMem} {header : ProgramHeader} {index place : Nat}

def ProgramHeader.wanted (image : Bytes) (header : ProgramHeader) (index : Nat) : UInt8 :=
  if index < header.fileSize then image (header.offset + index) else 0

theorem ProgramHeader.byte_place (header : ProgramHeader) (index : Nat) :
    (header.vaddr + index) / 4096 = header.firstPage + (header.pad + index) / 4096 ∧
      (header.vaddr + index) % 4096 = (header.pad + index) % 4096 := by
  have split := header.vaddr_eq
  omega

theorem ProgramHeader.byte_occupied (inside : index < header.memSize) :
    header.Occupies (header.firstPage + (header.pad + index) / 4096) := by
  have split := header.vaddr_eq
  unfold Occupies lastPage
  omega

theorem MadeOf.walk (made : MadeOf pages limit initial image process)
    (fresh : FreshPages pages layout limit) (valid : header.Valid) (inside : index < header.memSize) :
    process.walk (pages 0) (header.vaddr + index) =
      if process.pte (header.firstPage + (header.pad + index) / 4096) = 0 then none
      else some (entryPage (process.pte (header.firstPage + (header.pad + index) / 4096))) := by
  have noWrap := valid.noWrap
  rw [← made.atFirst, made.built.walk fresh (by omega), (header.byte_place index).1]

theorem MadeOf.seenIn_iff (made : MadeOf pages limit initial image process)
    (fresh : FreshPages pages layout limit) (valid : header.Valid) :
    header.SeenIn image (pages 0) process ↔ ∀ index < header.memSize,
      process.pte (header.firstPage + (header.pad + index) / 4096) ≠ 0 ∧
        process.mem (entryPage (process.pte (header.firstPage + (header.pad + index) / 4096)))
          ((header.pad + index) % 4096) = header.wanted image index := by
  unfold ProgramHeader.SeenIn
  refine forall₂_congr fun index inside => ?_
  rw [made.walk fresh valid inside, (header.byte_place index).2]
  by_cases empty : process.pte (header.firstPage + (header.pad + index) / 4096) = 0
  · rw [if_pos empty]
    exact iff_of_false (fun ⟨_, missing, _⟩ => nomatch missing) fun both => both.1 empty
  · rw [if_neg empty]
    constructor
    · rintro ⟨page, isPage, byte⟩
      rw [Option.some_inj.mp isPage]
      exact ⟨empty, byte⟩
    · exact fun both => ⟨_, rfl, both.2⟩

theorem ProgramHeader.LoadsRight.byte (right : header.LoadsRight image)
    (inside : index < header.memSize) (prior : Bytes) :
    header.Turns ((header.pad + index) / 4096) ∧
      header.pageBytes image ((header.pad + index) / 4096) prior ((header.pad + index) % 4096) =
        header.wanted image index := by
  obtain empty | ⟨file, samePage, reached, zeros⟩ := right
  · omega
  have padLt := header.pad_lt
  have split := Nat.div_add_mod (header.pad + index) 4096
  have inPage := Nat.mod_lt (header.pad + index) (show 0 < 4096 by decide)
  have last : (header.pad + index) / 4096 ≤ (header.pad + header.memSize - 1) / 4096 :=
    Nat.div_le_div_right (by omega)
  generalize (header.pad + index) % 4096 = offset at *
  generalize (header.pad + index) / 4096 = place at *
  have inFile : 4096 * place < header.pad + header.fileSize := by
    generalize (header.pad + header.memSize - 1) / 4096 = final at *
    omega
  by_cases first : place = 0
  · subst first
    constructor
    · unfold Turns
      rw [if_pos rfl]
      omega
    · unfold pageBytes wanted
      rw [if_pos rfl, if_neg (by omega), if_neg (by omega)]
      by_cases cleared : header.pad + header.fileSize < 4096 ∧ header.fileSize ≤ offset
      · rw [if_pos cleared]
        by_cases isFile : index < header.fileSize
        · rw [if_pos isFile, zeros cleared.1 index (by omega) isFile]
        · rw [if_neg isFile]
      · rw [if_neg cleared, if_pos (by omega)]
        exact congrArg image (by omega)
  · have noSkew : header.skew = 0 := by
      unfold skew
      rw [if_neg (by omega)]
    constructor
    · unfold Turns
      rw [if_neg first, noSkew]
      generalize (header.pad + header.memSize - 1) / 4096 = final at *
      omega
    · rw [pageBytes_later (by omega) inFile]
      unfold wanted
      by_cases isFile : index < header.fileSize
      · rw [if_pos isFile, if_pos (by omega)]
        exact congrArg image (by omega)
      · rw [if_neg isFile, if_neg (by omega)]

theorem ProgramHeader.LoadsRight.seenIn (right : header.LoadsRight image)
    (made : MadeOf pages limit initial image process) (fresh : FreshPages pages layout limit)
    (valid : header.LoadValid) (member : header ∈ programHeaders image)
    (loads : header.type = segmentTypeLoad) : header.SeenIn image (pages 0) process := by
  by_cases empty : header.memSize = 0
  · intro index inside
    omega
  · refine (made.seenIn_iff fresh (valid loads empty)).mpr fun index inside => ?_
    obtain ⟨turns, -⟩ := right.byte inside (fun _ => 0)
    obtain ⟨-, used, bytes⟩ := made.loaded
      ⟨header, (header.pad + index) / 4096⟩ ⟨member, loads, turns⟩
    refine ⟨used, ?_⟩
    exact (bytes _ (Nat.mod_lt _ (by decide))).trans (right.byte inside _).2

theorem ProgramHeader.eq_of_occupies {headers : List ProgramHeader}
    (apart : headers.Pairwise Apart) {one two : ProgramHeader} (oneIn : one ∈ headers)
    (twoIn : two ∈ headers) (oneLoads : one.type = segmentTypeLoad)
    (twoLoads : two.type = segmentTypeLoad) {number : Nat} (ofOne : one.Occupies number)
    (ofTwo : two.Occupies number) : one = two := by
  by_contra different
  have symmetric : Std.Symm Apart := ⟨fun _ _ => Apart.symm⟩
  exact apart.forall oneIn twoIn different oneLoads twoLoads number ofOne ofTwo

theorem MadeOf.unreached (made : MadeOf pages limit initial image process)
    (apart : (programHeaders image).Pairwise ProgramHeader.Apart)
    (member : header ∈ programHeaders image) (loads : header.type = segmentTypeLoad)
    (small : header.firstPage + place < 2 ^ 20) (occupied : header.Occupies (header.firstPage + place))
    (unreached : ¬ header.Turns place) (used : process.pte (header.firstPage + place) ≠ 0) :
    process.mem (entryPage (process.pte (header.firstPage + place))) 0 =
      initial (entryPage (process.pte (header.firstPage + place))) 0 := by
  refine (made.others _ small used).resolve_left fun ⟨turn, isTurn, same⟩ => unreached ?_
  have sameHeader := ProgramHeader.eq_of_occupies apart member isTurn.1 loads isTurn.2.1 occupied
    (same ▸ isTurn.occupies)
  have running := isTurn.2.2
  have samePlace : place = turn.place := by
    unfold LoadTurn.number at same
    rw [← sameHeader] at same
    omega
  rw [sameHeader, samePlace]
  exact running

structure SeenAlways (pages : Nat → Nat) (limit : Nat) (image : Bytes) (header : ProgramHeader) :
    Prop where
  member : header ∈ programHeaders image
  loads : header.type = segmentTypeLoad
  apart : (programHeaders image).Pairwise ProgramHeader.Apart
  seen : ∀ mem : Nat → Bytes, ∃ process, MadeOf pages limit mem image process ∧
    header.SeenIn image (pages 0) process

namespace SeenAlways

/-- Whatever was in the page, the turn for a byte makes the right byte. -/
theorem reached (always : SeenAlways pages limit image header) (fresh : FreshPages pages layout limit)
    (valid : header.Valid) (inside : index < header.memSize)
    (turns : header.Turns ((header.pad + index) / 4096)) (byte : UInt8) :
    header.pageBytes image ((header.pad + index) / 4096) (fun _ => byte)
      ((header.pad + index) % 4096) = header.wanted image index := by
  obtain ⟨process, made, seen⟩ := always.seen fun _ _ => byte
  obtain ⟨used, isWanted⟩ := (made.seenIn_iff fresh valid).mp seen index inside
  obtain ⟨-, -, bytes⟩ := made.loaded ⟨header, (header.pad + index) / 4096⟩
    ⟨always.member, always.loads, turns⟩
  exact (bytes _ (Nat.mod_lt _ (by decide))).symm.trans isWanted

/-- The loop reaches every page whose first byte is a byte of the segment. -/
theorem turns (always : SeenAlways pages limit image header) (fresh : FreshPages pages layout limit)
    (valid : header.Valid) (inside : index < header.memSize)
    (atStart : header.pad + index = 4096 * place) : header.Turns place := by
  have atPlace : (header.pad + index) / 4096 = place := by omega
  have atZero : (header.pad + index) % 4096 = 0 := by omega
  have occupied := header.byte_occupied inside
  rw [atPlace] at occupied
  by_contra unreached
  obtain ⟨process, made, seen⟩ := always.seen fun _ _ => header.wanted image index + 1
  obtain ⟨used, isWanted⟩ := (made.seenIn_iff fresh valid).mp seen index inside
  rw [atPlace] at used isWanted
  rw [atZero, made.unreached always.apart always.member always.loads (occupied.small valid) occupied
    unreached used] at isWanted
  exact absurd isWanted (by simp)

/-- A page without bytes of the file keeps what was in it. -/
theorem inFile (always : SeenAlways pages limit image header) (fresh : FreshPages pages layout limit)
    (valid : header.Valid) (inside : index < header.memSize)
    (turns : header.Turns ((header.pad + index) / 4096)) (past : header.fileSize ≤ index)
    (kept : ∀ prior : Bytes, header.pageBytes image ((header.pad + index) / 4096) prior
      ((header.pad + index) % 4096) = prior ((header.pad + index) % 4096)) : False := by
  have byte := always.reached fresh valid inside turns 1
  rw [kept] at byte
  unfold ProgramHeader.wanted at byte
  rw [if_neg (by omega)] at byte
  exact absurd byte (by decide)

theorem loadsRight (always : SeenAlways pages limit image header)
    (fresh : FreshPages pages layout limit) (valid : header.LoadValid) :
    header.LoadsRight image := by
  by_cases empty : header.memSize = 0
  · exact .inl empty
  have isValid := valid always.loads empty
  have file := isValid.file
  have padLt := header.pad_lt
  have firstTurn : header.Turns 0 := by
    unfold ProgramHeader.Turns
    rw [if_pos rfl]
    omega
  have inFirst : (header.pad + 0) / 4096 = 0 := by omega
  have someFile : 0 < header.fileSize := by
    by_contra none
    refine always.inFile fresh isValid (show 0 < header.memSize by omega)
      (inFirst.symm ▸ firstTurn) (by omega) fun prior => ?_
    unfold ProgramHeader.pageBytes
    rw [inFirst, if_pos rfl, if_neg (by omega), if_pos (by omega)]
  -- the first byte of the last page, when that is not the first page
  have lastReached : (header.pad + header.memSize - 1) / 4096 ≠ 0 →
      header.Turns ((header.pad + header.memSize - 1) / 4096) := by
    intro later
    exact always.turns fresh isValid
      (show 4096 * ((header.pad + header.memSize - 1) / 4096) - header.pad < header.memSize by omega)
      (by omega)
  have samePage : (header.pad + header.memSize - 1) / 4096 =
      (header.pad + header.fileSize - 1) / 4096 := by
    by_contra different
    have later : (header.pad + header.memSize - 1) / 4096 ≠ 0 := by omega
    have place : (header.pad + (4096 * ((header.pad + header.memSize - 1) / 4096) - header.pad)) /
        4096 = (header.pad + header.memSize - 1) / 4096 := by omega
    refine always.inFile fresh isValid
      (show 4096 * ((header.pad + header.memSize - 1) / 4096) - header.pad < header.memSize by omega)
      (place.symm ▸ lastReached later) (by omega) fun prior => ?_
    unfold ProgramHeader.pageBytes
    rw [place, if_neg later, if_neg (by omega)]
  refine .inr ⟨someFile, samePage, ?_, fun short index behind isFile => ?_⟩
  · by_cases first : (header.pad + header.memSize - 1) / 4096 = 0
    · rw [first]
      omega
    · have reached := lastReached first
      unfold ProgramHeader.Turns at reached
      rw [if_neg first] at reached
      omega
  · have inPage : (header.pad + index) / 4096 = 0 := by omega
    have offset : (header.pad + index) % 4096 = header.pad + index := Nat.mod_eq_of_lt (by omega)
    have byte := always.reached fresh isValid (show index < header.memSize by omega)
      (inPage.symm ▸ firstTurn) 0
    unfold ProgramHeader.pageBytes ProgramHeader.wanted at byte
    rw [inPage, offset, if_pos rfl, if_neg (by omega), if_neg (by omega),
      if_pos ⟨short, by omega⟩, if_pos isFile] at byte
    exact byte.symm

end SeenAlways

end Seen

section Images

variable {pages : Nat → Nat} {layout : KernelLayout} {image : Bytes} {limit : Nat}

theorem createProcess_made (executable : IsExecutable image)
    (valid : ∀ header ∈ programHeaders image, header.LoadValid)
    (apart : (programHeaders image).Pairwise ProgramHeader.Apart)
    (fresh : FreshPages pages layout limit)
    (enough : ∀ mem pageMap process,
      createProcess pages layout image mem = some (pageMap, process) → process.obtained ≤ limit)
    (mem : Nat → Bytes) :
    ∃ process, createProcess pages layout image mem = some (pages 0, process) ∧
      MadeOf pages limit mem image process := by
  obtain ⟨process, ran, -, made⟩ := createProcess_madeOf executable valid apart fresh mem
  exact ⟨process, ran, made (enough mem (pages 0) process ran)⟩

theorem loadsRight_of_creates (executable : IsExecutable image)
    (valid : ∀ header ∈ programHeaders image, header.LoadValid)
    (apart : (programHeaders image).Pairwise ProgramHeader.Apart)
    (fresh : FreshPages pages layout limit)
    (enough : ∀ mem pageMap process,
      createProcess pages layout image mem = some (pageMap, process) → process.obtained ≤ limit)
    (creates : ∀ mem, CreatesImage pages layout image mem) {header : ProgramHeader}
    (member : header ∈ programHeaders image) (loads : header.type = segmentTypeLoad) :
    header.LoadsRight image := by
  refine SeenAlways.loadsRight ⟨member, loads, apart, fun mem => ?_⟩ fresh (valid header member)
  obtain ⟨pageMap, process, ran, seen⟩ := creates mem
  obtain ⟨made, ranMade, isMade⟩ := createProcess_made executable valid apart fresh enough mem
  obtain ⟨rfl, rfl⟩ := Prod.mk.inj (Option.some_inj.mp (ran.symm.trans ranMade))
  exact ⟨process, isMade, seen header member loads⟩

end Images

/-- In every memory the segments of an image are loaded right exactly when each of them is one that
loads right. -/
theorem createProcess_loads_iff (pages : Nat → Nat) (layout : KernelLayout) (image : Bytes)
    (limit : Nat) (executable : IsExecutable image)
    (valid : ∀ header ∈ programHeaders image, header.LoadValid)
    (apart : (programHeaders image).Pairwise ProgramHeader.Apart)
    (fresh : FreshPages pages layout limit)
    (enough : ∀ mem pageMap process,
      createProcess pages layout image mem = some (pageMap, process) → process.obtained ≤ limit) :
    (∀ mem, CreatesImage pages layout image mem) ↔
      ∀ header ∈ programHeaders image, header.type = segmentTypeLoad → header.LoadsRight image := by
  constructor
  · intro creates header member loads
    exact loadsRight_of_creates executable valid apart fresh enough creates member loads
  · intro right mem
    obtain ⟨process, ran, made⟩ := createProcess_made executable valid apart fresh enough mem
    exact ⟨pages 0, process, ran, fun header member loads =>
      (right header member loads).seenIn made fresh (valid header member) member loads⟩

def sampleElf (memSize : Nat) : Bytes
  | 0 => 0x7f
  | 1 => 0x45
  | 2 => 0x4c
  | 3 => 0x46
  | 16 => 2
  | 28 => 52
  | 42 => 32
  | 44 => 1
  | 52 => 1
  | 56 => 84
  | 61 => 0x80
  | 62 => 0x04
  | 63 => 0x08
  | 68 => 4
  | 72 => UInt8.ofNat memSize
  | 73 => UInt8.ofNat (memSize / 256)
  | 84 => 1
  | 85 => 2
  | 86 => 3
  | 87 => 4
  | _ => 0

def samplePages (k : Nat) : Nat := 0x100000 + 4096 * k

def sampleLayout : KernelLayout where
  irqIdt := 0x5000
  sharedStart := 0x6000
  sharedEnd := 0x7000
  startKernelThread := 0x6000

theorem samplePages_fresh : FreshPages samplePages sampleLayout 16 := by
  have shared : sampleLayout.sharedAddresses = [0x4000, 0x5000, 0x6000] := by decide
  unfold samplePages
  refine ⟨?_, ?_, ?_, ?_, ?_⟩
  · intro k _
    omega
  · intro k _
    omega
  · intro k _
    omega
  · intro j k _ _ same
    omega
  · intro k _ address member
    rw [shared] at member
    simp only [List.mem_cons, List.not_mem_nil, or_false] at member
    omega

theorem sampleElf_enough {memSize : Nat} (executable : IsExecutable (sampleElf memSize))
    (valid : ∀ header ∈ programHeaders (sampleElf memSize), header.LoadValid)
    (apart : (programHeaders (sampleElf memSize)).Pairwise ProgramHeader.Apart)
    (few : pagesNeeded sampleLayout (sampleElf memSize) ≤ 16) (mem : Nat → Bytes) (pageMap : Nat)
    (process : ProcessMem) (ran : createProcess samplePages sampleLayout (sampleElf memSize) mem =
      some (pageMap, process)) : process.obtained ≤ 16 := by
  obtain ⟨made, ranMade, bound, -⟩ :=
    createProcess_madeOf executable valid apart samplePages_fresh mem
  obtain ⟨-, rfl⟩ := Prod.mk.inj (Option.some_inj.mp (ran.symm.trans ranMade))
  exact Nat.le_trans bound few

theorem valid_of_single {image : Bytes} {header : ProgramHeader}
    (headers : programHeaders image = [header]) (valid : header.Valid) :
    (∀ other ∈ programHeaders image, other.LoadValid) ∧
      (programHeaders image).Pairwise ProgramHeader.Apart := by
  rw [headers]
  constructor
  · intro other member _ _
    rw [List.mem_singleton.mp member]
    exact valid
  · exact List.pairwise_singleton _ _

/-- Four bytes of the file and four zeros, in a memory full of sevens. -/
theorem createProcess_loads_sample :
    CreatesImage samplePages sampleLayout (sampleElf 8) (fun _ _ => 7) := by
  have headers : programHeaders (sampleElf 8) = [⟨1, 84, 0x8048000, 4, 8⟩] := by decide
  have executable : IsExecutable (sampleElf 8) := by decide
  obtain ⟨valid, apart⟩ := valid_of_single headers ⟨by decide, by decide⟩
  refine (createProcess_loads_iff samplePages sampleLayout (sampleElf 8) 16 executable valid apart
    samplePages_fresh (sampleElf_enough executable valid apart (by decide))).mpr ?_ _
  rw [headers]
  intro header member _
  rw [List.mem_singleton.mp member]
  refine .inr ⟨by decide, by decide, by decide, fun _ index behind isFile => ?_⟩
  exact absurd (Nat.lt_of_lt_of_le isFile behind) (Nat.lt_irrefl _)

/-- A page of nothing but zeros is mapped with what was in it. -/
theorem createProcess_keeps_garbage :
    ¬ ∀ (pages : Nat → Nat) (layout : KernelLayout) (image : Bytes) (limit : Nat),
      IsExecutable image → (∀ header ∈ programHeaders image, header.LoadValid) →
      (programHeaders image).Pairwise ProgramHeader.Apart → FreshPages pages layout limit →
      (∀ mem pageMap process,
        createProcess pages layout image mem = some (pageMap, process) → process.obtained ≤ limit) →
      ∀ mem, CreatesImage pages layout image mem := by
  intro loads
  have headers : programHeaders (sampleElf 0x2000) = [⟨1, 84, 0x8048000, 4, 0x2000⟩] := by decide
  have executable : IsExecutable (sampleElf 0x2000) := by decide
  obtain ⟨valid, apart⟩ := valid_of_single headers ⟨by decide, by decide⟩
  have enough := sampleElf_enough executable valid apart (by decide)
  have creates := loads samplePages sampleLayout (sampleElf 0x2000) 16 executable valid apart
    samplePages_fresh enough
  have right : ProgramHeader.LoadsRight (sampleElf 0x2000) ⟨1, 84, 0x8048000, 4, 0x2000⟩ :=
    loadsRight_of_creates executable valid apart samplePages_fresh enough creates
      (by rw [headers]; exact List.mem_singleton_self _) rfl
  cases right with
  | inl empty => exact absurd empty (by decide)
  | inr right => exact absurd right.2.1 (by decide)

end DoggOS.Proc

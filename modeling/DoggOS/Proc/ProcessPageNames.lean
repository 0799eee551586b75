/-
Every page of a new process has one place in its page map.

Whatever the image says, each page that the loader obtains becomes the directory,
a page table or the page of an entry, and no page becomes two of them.  Only the
page of the first ring 0 stack may be left out, when a segment took the address
where it should be mapped.
-/

import DoggOS.Proc.ProcessImages

namespace DoggOS.Proc

open DoggOS.Mem

/-- The boot loader leaves the memory below one megabyte out of the ranges. -/
def lowMemoryEnd : Nat := 0x100000

namespace ProcessMem

def Names (process : ProcessMem) (page : Nat) : Prop :=
  page = process.pageDir ∨
    (∃ index, index < 1024 ∧ process.pde index ≠ 0 ∧ entryPage (process.pde index) = page) ∨
    ∃ number, number < 2 ^ 20 ∧ process.pte number ≠ 0 ∧ entryPage (process.pte number) = page

/-- Page `missing` is the one that needs no place. -/
structure NamesOnce (pages : Nat → Nat) (limit : Nat) (initial : Nat → Bytes) (missing : Nat)
    (process : ProcessMem) : Prop where
  built : Built pages limit initial process
  atFirst : process.pageDir = pages 0
  named : ∀ k, k < process.obtained → k ≠ missing → process.Names (pages k)
  once : ∀ one two, one < 2 ^ 20 → two < 2 ^ 20 → process.pte one ≠ 0 → process.pte two ≠ 0 →
    entryPage (process.pte one) = entryPage (process.pte two) →
      (∃ k, k < limit ∧ pages k = entryPage (process.pte one)) → one = two
  low : ∀ number, number < 2 ^ 20 → process.pte number ≠ 0 →
    (∃ k, k < limit ∧ pages k = entryPage (process.pte number)) ∨
      entryPage (process.pte number) < lowMemoryEnd

structure Places (pages : Nat → Nat) (before : ProcessMem) (number : Nat) (after : ProcessMem) :
    Prop where
  pde : ∀ index, before.pde index ≠ 0 → after.pde index = before.pde index
  new : ∀ k, before.obtained ≤ k → k < after.obtained →
    (∃ index, index < 1024 ∧ after.pde index ≠ 0 ∧ entryPage (after.pde index) = pages k) ∨
      after.pte number ≠ 0 ∧ entryPage (after.pte number) = pages k

variable {pages : Nat → Nat} {layout : KernelLayout} {limit missing : Nat}
  {initial : Nat → Bytes} {process after : ProcessMem} {index number address physical : Nat}

theorem Built.addTable_places (built : Built pages limit initial process)
    (fresh : FreshPages pages layout limit) (small : index < 1024)
    (within : (process.addTable pages index).obtained ≤ limit) :
    (∀ other, process.pde other ≠ 0 →
      (process.addTable pages index).pde other = process.pde other) ∧
      ∀ k, process.obtained ≤ k → k < (process.addTable pages index).obtained →
        ∃ other, other < 1024 ∧ (process.addTable pages index).pde other ≠ 0 ∧
          entryPage ((process.addTable pages index).pde other) = pages k := by
  by_cases unused : process.pde index = 0
  · have more : process.obtained < limit := by
      rw [ProcessMem.addTable, if_pos unused] at within
      exact within
    have tabled := built.tabled fresh
    have pde := tabled.addTable_pde fresh.frames more unused
    have obtained : (process.addTable pages index).obtained = process.obtained + 1 := by
      rw [tabled.addTable_eq fresh.frames more unused]
    constructor
    · intro other used
      have elsewhere : other ≠ index := fun same => used (by rw [same]; exact unused)
      rw [pde, if_neg elsewhere]
    · intro k least before
      have isNext : k = process.obtained := by omega
      refine ⟨index, small, ?_, ?_⟩
      · rw [pde, if_pos rfl]
        exact entry_ne_zero _
      · rw [pde, if_pos rfl, isNext]
        exact fresh.frames.entryPage_eq more
  · rw [ProcessMem.addTable, if_neg unused]
    exact ⟨fun _ _ => rfl, fun k least before => absurd before (Nat.not_lt.mpr least)⟩

theorem Built.mapProcessAddress_places (built : Built pages limit initial process)
    (fresh : FreshPages pages layout limit) (wordAddress : address < 2 ^ 32)
    (word : physical < 2 ^ 32)
    (spare : physical ≠ 0 →
      Spare pages limit process.obtained process (physical - physical % 4096))
    (within : (process.mapProcessAddress pages address physical).obtained ≤ limit) :
    process.Places pages (address / 4096) (process.mapProcessAddress pages address physical) := by
  have small : address / 4096 < 2 ^ 20 := by omega
  have inDir : address / 4096 / 1024 < 1024 := by omega
  obtain ⟨table, selected, filled, steps⟩ :=
    built.mapProcessAddress_steps fresh small word spare within
  generalize process.mapProcessAddress pages address physical = after at *
  generalize address / 4096 = number at *
  have withinTable := steps.tableWithin
  rw [steps.isTable] at withinTable
  obtain ⟨kept, newTable⟩ := built.addTable_places fresh inDir withinTable
  rw [← steps.isTable] at kept newTable
  have fills := steps.fills
  have pdeAfter : ∀ index, after.pde index = table.pde index := fun index => by
    rw [pde_of_mem steps.pageDir steps.mem, fills.pde,
      pde_of_mem steps.selectedDir steps.selectedMem]
  constructor
  · intro index usedBefore
    rw [pdeAfter, kept index usedBefore]
  · intro k least before
    rw [steps.obtained] at before
    by_cases ofTable : k < table.obtained
    · obtain ⟨index, inTable, usedTable, isTable⟩ := newTable k least ofTable
      exact .inl ⟨index, inTable, by rw [pdeAfter]; exact usedTable,
        by rw [pdeAfter]; exact isTable⟩
    · right
      rw [pte_of_mem steps.pageDir steps.mem]
      refine ⟨fills.mapped, ?_⟩
      have entered := @addPage_eq pages selected number steps.used steps.window physical
      rw [← steps.isFilled] at entered
      have sameObtained := steps.selectedObtained
      -- only an empty entry without an address of its own takes a page
      by_cases empty : selected.pte number = 0
      swap
      · rw [if_neg empty] at entered
        rw [entered] at before
        omega
      by_cases given : physical = 0
      swap
      · rw [if_pos empty, if_pos given] at entered
        have taken : filled.obtained = selected.obtained := by rw [entered, withEntry]
        omega
      rw [if_pos empty, if_neg (not_not_intro given)] at entered
      have taken : filled.obtained = selected.obtained + 1 := by rw [entered, withEntry]
      obtain ⟨j, leastTaken, beforeTaken, isPage⟩ := fills.obtained empty given
      have same : j = k := by omega
      rw [isPage, same]

theorem Names.kept {page : Nat} (names : process.Names page) (grows : process.Grows after)
    (pde : ∀ index, process.pde index ≠ 0 → after.pde index = process.pde index) :
    after.Names page := by
  rcases names with isDir | ⟨index, small, used, isTable⟩ | ⟨number, small, mapped, isPage⟩
  · exact .inl (isDir.trans grows.pageDir.symm)
  · have same := pde index used
    exact .inr (.inl ⟨index, small, by rw [same]; exact used, by rw [same]; exact isTable⟩)
  · have same := grows.pte number small mapped
    exact .inr (.inr ⟨number, small, by rw [same]; exact mapped, by rw [same]; exact isPage⟩)

theorem NamesOnce.mapProcessAddress (names : process.NamesOnce pages limit initial missing)
    (fresh : FreshPages pages layout limit) (wordAddress : address < 2 ^ 32)
    (word : physical < 2 ^ 32)
    (spare : physical ≠ 0 →
      Spare pages limit process.obtained process (physical - physical % 4096))
    (unnamed : physical ≠ 0 → (∃ k, k < limit ∧ pages k = physical - physical % 4096) →
      ∀ number, number < 2 ^ 20 → process.pte number ≠ 0 →
        entryPage (process.pte number) ≠ physical - physical % 4096)
    (low : physical ≠ 0 → (∃ k, k < limit ∧ pages k = physical - physical % 4096) ∨
      physical - physical % 4096 < lowMemoryEnd)
    (within : (process.mapProcessAddress pages address physical).obtained ≤ limit) :
    (process.mapProcessAddress pages address physical).NamesOnce pages limit initial missing := by
  have small : address / 4096 < 2 ^ 20 := by omega
  have shown := names.built.mapProcessAddress fresh wordAddress word spare within
  have places := names.built.mapProcessAddress_places fresh wordAddress word spare within
  generalize process.mapProcessAddress pages address physical = after at *
  -- a new entry shares no obtained page with the entries that were there
  have different : process.pte (address / 4096) = 0 →
      (∃ k, k < limit ∧ pages k = entryPage (after.pte (address / 4096))) →
      ∀ other, other < 2 ^ 20 → process.pte other ≠ 0 →
        entryPage (process.pte other) ≠ entryPage (after.pte (address / 4096)) := by
    intro empty isObtained other inRange mapped
    by_cases given : physical = 0
    · obtain ⟨k, least, before, isPage⟩ := shown.obtained empty given
      rw [isPage]
      exact (names.built.later_page fresh least
        (Nat.lt_of_lt_of_le before shown.built.obtained_le)).2.2 other inRange mapped
    · rw [shown.given empty given] at isObtained ⊢
      exact unnamed given isObtained other inRange mapped
  have old : ∀ other, other < 2 ^ 20 → after.pte other ≠ 0 → other ≠ address / 4096 →
      process.pte other ≠ 0 ∧ after.pte other = process.pte other := by
    intro other inRange mapped elsewhere
    have same := shown.others other inRange elsewhere
    exact ⟨same ▸ mapped, same⟩
  refine ⟨shown.built, shown.grows.pageDir.trans names.atFirst, fun k before needed => ?_,
    fun one two oneIn twoIn oneUsed twoUsed same isObtained => ?_, fun number inRange mapped => ?_⟩
  · by_cases earlier : k < process.obtained
    · exact (names.named k earlier needed).kept shown.grows places.pde
    · rcases places.new k (by omega) before with isTable | ⟨mapped, isPage⟩
      · exact .inr (.inl isTable)
      · exact .inr (.inr ⟨_, small, mapped, isPage⟩)
  · by_cases known : process.pte (address / 4096) = 0
    swap
    · have kept := shown.grows.pte _ small known
      have all : ∀ other, other < 2 ^ 20 → after.pte other = process.pte other := by
        intro other inRange
        by_cases here : other = address / 4096
        · rw [here, kept]
        · exact shown.others other inRange here
      rw [all one oneIn] at oneUsed same isObtained
      rw [all two twoIn] at twoUsed same
      exact names.once one two oneIn twoIn oneUsed twoUsed same isObtained
    by_cases oneHere : one = address / 4096
    · by_contra unequal
      obtain ⟨mapped, kept⟩ := old two twoIn twoUsed fun twoHere => unequal (oneHere.trans twoHere.symm)
      rw [oneHere, kept] at same
      rw [oneHere] at isObtained
      exact different known isObtained two twoIn mapped same.symm
    · obtain ⟨oneMapped, oneKept⟩ := old one oneIn oneUsed oneHere
      by_cases twoHere : two = address / 4096
      · rw [twoHere, oneKept] at same
        rw [oneKept, same] at isObtained
        exact absurd same (different known isObtained one oneIn oneMapped)
      · obtain ⟨twoMapped, twoKept⟩ := old two twoIn twoUsed twoHere
        rw [oneKept, twoKept] at same
        rw [oneKept] at isObtained
        exact names.once one two oneIn twoIn oneMapped twoMapped same isObtained
  · by_cases before : process.pte number = 0
    swap
    · rw [shown.grows.pte number inRange before]
      exact names.low number inRange before
    have here : number = address / 4096 := by
      by_contra elsewhere
      exact (old number inRange mapped elsewhere).1 before
    subst here
    by_cases given : physical = 0
    · obtain ⟨k, -, taken, isPage⟩ := shown.obtained before given
      exact .inl ⟨k, Nat.lt_of_lt_of_le taken shown.built.obtained_le, isPage.symm⟩
    · rw [shown.given before given]
      exact low given

theorem NamesOnce.writePage (names : process.NamesOnce pages limit initial missing) {page : Nat}
    (taken : ∃ k, k < process.obtained ∧ pages k = page) (notDir : page ≠ process.pageDir)
    (notTable : ∀ index, index < 1024 → process.pde index ≠ 0 →
      entryPage (process.pde index) ≠ page) (bytes : Bytes) :
    (process.writePage page bytes).NamesOnce pages limit initial missing := by
  obtain ⟨built, pte⟩ := names.built.writePage taken notDir notTable bytes
  have pde : ∀ index, (process.writePage page bytes).pde index = process.pde index := fun index =>
    congrArg (fun bytes => loadWord bytes index) (Function.update_of_ne notDir.symm _ _)
  refine ⟨built, names.atFirst, fun k before needed => ?_,
    fun one two oneIn twoIn oneUsed twoUsed same isObtained => ?_, fun number small mapped => ?_⟩
  · rcases names.named k before needed with isDir | ⟨index, small, used, isTable⟩ |
      ⟨number, small, mapped, isPage⟩
    · exact .inl isDir
    · exact .inr (.inl ⟨index, small, by rw [pde]; exact used, by rw [pde]; exact isTable⟩)
    · exact .inr (.inr ⟨number, small, by rw [pte number small]; exact mapped,
        by rw [pte number small]; exact isPage⟩)
  · rw [pte one oneIn] at oneUsed same isObtained
    rw [pte two twoIn] at twoUsed same
    exact names.once one two oneIn twoIn oneUsed twoUsed same isObtained
  · rw [pte number small] at mapped ⊢
    exact names.low number small mapped

def OwnEntries (pages : Nat → Nat) (process : ProcessMem) : Prop :=
  ∀ number, number < 2 ^ 20 → process.pte number ≠ 0 →
    ∃ k, k < process.obtained ∧ pages k = entryPage (process.pte number)

theorem fillPage_writes {start count : Nat} {source : Bytes}
    (filled : process.fillPage start count source = some after) :
    ∃ bytes, after = process.writePage process.page bytes := by
  unfold fillPage at filled
  split at filled
  · exact ⟨_, (Option.some.inj filled).symm⟩
  · cases filled

end ProcessMem

section Segments

open ProcessMem

variable {pages : Nat → Nat} {layout : KernelLayout} {limit missing : Nat}
  {initial : Nat → Bytes} {image : Bytes} {header : ProgramHeader} {process after : ProcessMem}

/-- A turn maps the page of its address and writes to it; the next address is a word again. -/
theorem segmentTurn_writes {state next : SegmentState}
    (turned : segmentTurn pages image header state = some next) :
    next.linearAddress < 2 ^ 32 ∧
      ∃ bytes, next.process = (state.process.mapProcessAddress pages state.linearAddress 0).writePage
        (state.process.mapProcessAddress pages state.linearAddress 0).page bytes := by
  obtain ⟨linearAddress, copied, process⟩ := state
  unfold segmentTurn at turned
  dsimp only at turned ⊢
  generalize process.mapProcessAddress pages linearAddress 0 = mapped at *
  generalize (if linearAddress < header.vaddr then header.vaddr - linearAddress else 0) = padSize
    at turned
  generalize (if copied < header.fileSize then
    min (sub32 0x1000 padSize) (header.fileSize - copied) else sub32 0x1000 padSize) = copySize
    at turned
  obtain ⟨first, filledFirst, turned⟩ := Option.bind_eq_some_iff.mp turned
  obtain ⟨second, filledSecond, turned⟩ := Option.bind_eq_some_iff.mp turned
  obtain ⟨bytesFirst, rfl⟩ := fillPage_writes filledFirst
  obtain ⟨bytesSecond, rfl⟩ := fillPage_writes filledSecond
  by_cases behind : (linearAddress + padSize + copySize) % 2 ^ 32 &&& 0xfff ≠ 0
  · rw [if_pos behind] at turned
    obtain ⟨third, filledThird, turned⟩ := Option.bind_eq_some_iff.mp turned
    obtain ⟨bytesThird, rfl⟩ := fillPage_writes filledThird
    cases turned
    refine ⟨Nat.mod_lt _ (by decide), bytesThird, ?_⟩
    simp only [writePage_page, writePage_writePage]
  · rw [if_neg behind] at turned
    cases turned
    refine ⟨Nat.mod_lt _ (by decide), bytesSecond, ?_⟩
    simp only [writePage_page, writePage_writePage]

structure LoadsNames (pages : Nat → Nat) (limit : Nat) (initial : Nat → Bytes) (missing : Nat)
    (process : ProcessMem) : Prop where
  names : process.NamesOnce pages limit initial missing
  own : process.OwnEntries pages

theorem LoadsNames.turn {state next : SegmentState}
    (loads : LoadsNames pages limit initial missing state.process)
    (fresh : FreshPages pages layout limit) (word : state.linearAddress < 2 ^ 32)
    (turned : segmentTurn pages image header state = some next)
    (within : next.process.obtained ≤ limit) :
    LoadsNames pages limit initial missing next.process := by
  obtain ⟨-, bytes, nextEq⟩ := segmentTurn_writes turned
  rw [nextEq] at within ⊢
  have small : state.linearAddress / 4096 < 2 ^ 20 := by omega
  have noAddress : (0 : Nat) ≠ 0 → False := fun given => given rfl
  have shown := loads.names.built.mapProcessAddress fresh word (by decide)
    (fun given => (noAddress given).elim) within
  have names := loads.names.mapProcessAddress fresh word (by decide)
    (fun given => (noAddress given).elim) (fun given => (noAddress given).elim)
    (fun given => (noAddress given).elim) within
  generalize state.process.mapProcessAddress pages state.linearAddress 0 = mapped at *
  have own : mapped.OwnEntries pages := by
    intro number inRange used
    by_cases before : state.process.pte number = 0
    · have here : number = state.linearAddress / 4096 := by
        by_contra elsewhere
        exact used (by rw [shown.others number inRange elsewhere]; exact before)
      subst here
      obtain ⟨k, -, taken, isPage⟩ := shown.obtained before rfl
      exact ⟨k, taken, isPage.symm⟩
    · rw [shown.grows.pte number inRange before]
      obtain ⟨k, taken, isPage⟩ := loads.own number inRange before
      exact ⟨k, Nat.lt_of_lt_of_le taken shown.grows.obtained, isPage⟩
  have taken := own _ small shown.mapped
  obtain ⟨notDir, notTable⟩ := shown.built.apart _ small shown.mapped
  rw [← shown.page] at taken notDir notTable
  refine ⟨names.writePage taken notDir notTable bytes, fun number inRange used => ?_⟩
  have pte := (names.built.writePage taken notDir notTable bytes).2 number inRange
  rw [pte] at used ⊢
  exact own number inRange used

theorem pageLoop_names {running : SegmentState → Bool} {fuel : Nat} {state last : SegmentState}
    (fresh : FreshPages pages layout limit) (word : state.linearAddress < 2 ^ 32)
    (ran : faultLoop running (segmentTurn pages image header) fuel state = some last) :
    state.process.obtained ≤ last.process.obtained ∧
      (last.process.obtained ≤ limit → LoadsNames pages limit initial missing state.process →
        LoadsNames pages limit initial missing last.process) := by
  induction fuel generalizing state with
  | zero => cases ran
  | succ fuel ih =>
      rw [faultLoop] at ran
      cases more : running state with
      | false =>
          rw [more] at ran
          obtain rfl := Option.some.inj ran
          exact ⟨Nat.le_refl _, fun _ loads => loads⟩
      | true =>
          rw [more, if_pos rfl] at ran
          obtain ⟨next, turned, ranOn⟩ := Option.bind_eq_some_iff.mp ran
          obtain ⟨nextWord, bytes, nextEq⟩ := segmentTurn_writes turned
          obtain ⟨least, later⟩ := ih nextWord ranOn
          have taken := (obtained_mapProcessAddress pages state.process state.linearAddress 0).1
          have sameTaken : next.process.obtained =
              (state.process.mapProcessAddress pages state.linearAddress 0).obtained := by
            rw [nextEq]
            rfl
          refine ⟨by omega, fun within loads => later within ?_⟩
          exact loads.turn fresh word turned (Nat.le_trans least within)

theorem loadSegment_names (fresh : FreshPages pages layout limit)
    (ran : loadSegment pages image process header = some after) :
    process.obtained ≤ after.obtained ∧
      (after.obtained ≤ limit → LoadsNames pages limit initial missing process →
        LoadsNames pages limit initial missing after) := by
  unfold loadSegment at ran
  by_cases loads : header.type = segmentTypeLoad
  · rw [if_pos loads] at ran
    obtain ⟨last, ranLoop, rfl⟩ := Option.map_eq_some_iff.mp ran
    have word : header.vaddr &&& addressMask4KB < 2 ^ 32 :=
      Nat.lt_of_le_of_lt Nat.and_le_right (by decide)
    exact pageLoop_names fresh word ranLoop
  · rw [if_neg loads] at ran
    obtain rfl := Option.some.inj ran
    exact ⟨Nat.le_refl _, fun _ holds => holds⟩

theorem loadSegments_names {headers : List ProgramHeader} (fresh : FreshPages pages layout limit)
    (ran : headers.foldlM (loadSegment pages image) process = some after) :
    process.obtained ≤ after.obtained ∧
      (after.obtained ≤ limit → LoadsNames pages limit initial missing process →
        LoadsNames pages limit initial missing after) := by
  induction headers generalizing process with
  | nil =>
      obtain rfl := Option.some.inj ran
      exact ⟨Nat.le_refl _, fun _ holds => holds⟩
  | cons header rest ih =>
      rw [List.foldlM_cons] at ran
      obtain ⟨middle, first, ranRest⟩ := Option.bind_eq_some_iff.mp ran
      obtain ⟨leastFirst, keepsFirst⟩ :=
        @loadSegment_names pages layout limit missing initial image header process middle fresh first
      obtain ⟨leastRest, keepsRest⟩ := ih ranRest
      exact ⟨Nat.le_trans leastFirst leastRest, fun within loads =>
        keepsRest within (keepsFirst (Nat.le_trans leastRest within) loads)⟩

theorem emptyMap_names (some : 0 < limit) (mem : Nat → Bytes) :
    LoadsNames pages limit mem missing (emptyMap pages mem) := by
  have holds := @emptyMap_holds pages limit some mem (fun _ => 0)
  have pte : ∀ number, number < 2 ^ 20 → (emptyMap pages mem).pte number = 0 := by
    intro number small
    by_contra mapped
    obtain ⟨turn, member, -⟩ := holds.mapped number small mapped
    exact List.not_mem_nil member
  refine ⟨⟨holds.built, holds.atFirst, fun k before _ => .inl ?_, fun one _ small _ used => ?_,
    fun number small used => absurd (pte number small) used⟩,
    fun number small used => absurd (pte number small) used⟩
  · have first : k = 0 := Nat.lt_one_iff.mp before
    rw [first]
    exact holds.atFirst.symm
  · exact absurd (pte one small) used

theorem ProcessMem.NamesOnce.shareAll (names : process.NamesOnce pages limit initial missing)
    (fresh : FreshPages pages layout limit) {addresses : List Nat}
    (words : ∀ address ∈ addresses, address < 2 ^ 32)
    (shared : ∀ address ∈ addresses, ∀ k, k < limit → pages k ≠ address - address % 4096)
    (low : ∀ address ∈ addresses, address < lowMemoryEnd)
    (within : (addresses.foldl (fun process address =>
      process.mapProcessAddress pages address address) process).obtained ≤ limit) :
    (addresses.foldl (fun process address => process.mapProcessAddress pages address address)
      process).NamesOnce pages limit initial missing := by
  induction addresses generalizing process with
  | nil => exact names
  | cons address rest ih =>
      rw [List.foldl_cons] at within ⊢
      have later := (obtained_shareAll pages rest (process.mapProcessAddress pages address address)).1
      have word := words address List.mem_cons_self
      have isShared := shared address List.mem_cons_self
      refine ih ?_ (fun other member => words other (List.mem_cons_of_mem _ member))
        (fun other member => shared other (List.mem_cons_of_mem _ member))
        (fun other member => low other (List.mem_cons_of_mem _ member)) within
      refine names.mapProcessAddress fresh word word
        (fun _ => names.built.spare_shared fresh isShared) (fun _ ⟨k, inside, isPage⟩ => ?_)
        (fun _ => .inr ?_) (Nat.le_trans later within)
      · exact absurd isPage (isShared k inside)
      · exact Nat.lt_of_le_of_lt (Nat.sub_le ..) (low address List.mem_cons_self)

/-- The page for the first ring 0 stack is mapped last, and its place may be taken. -/
theorem ProcessMem.NamesOnce.mapStack (names : process.NamesOnce pages limit initial limit)
    (fresh : FreshPages pages layout limit) {last : ProcessMem}
    (lastEq : last = (process.allocPhysicalPage pages).2.mapProcessAddress pages initStackAddress
      (pages process.obtained)) (within : last.obtained ≤ limit) :
    last.NamesOnce pages limit initial process.obtained ∧ process.obtained < last.obtained ∧
      pages process.obtained ≠ last.pageDir ∧
      ∀ index, index < 1024 → last.pde index ≠ 0 →
        entryPage (last.pde index) ≠ pages process.obtained := by
  have taken := (obtained_mapProcessAddress pages (process.allocPhysicalPage pages).2
    initStackAddress (pages process.obtained)).1
  have given : (process.allocPhysicalPage pages).2.obtained = process.obtained + 1 := rfl
  rw [← lastEq, given] at taken
  have more : process.obtained < limit := by omega
  obtain ⟨notDir, notTable, notPage⟩ := names.built.next_page fresh more
  have word := fresh.word process.obtained more
  have page : pages process.obtained - pages process.obtained % 4096 = pages process.obtained := by
    rw [fresh.aligned process.obtained more, Nat.sub_zero]
  have built := names.built.allocPhysicalPage more
  have spare : Spare pages limit (process.obtained + 1) (process.allocPhysicalPage pages).2
      (pages process.obtained - pages process.obtained % 4096) := by
    rw [page]
    exact ⟨notDir, notTable, .inl ⟨process.obtained, Nat.lt_succ_self _, rfl⟩⟩
  have obtainedMore : (process.allocPhysicalPage pages).2.NamesOnce pages limit initial
      process.obtained := by
    refine ⟨built, names.atFirst, fun k before needed => ?_, names.once, names.low⟩
    have earlier : k < process.obtained := by omega
    exact names.named k earlier (by omega)
  have stackWord : initStackAddress < 2 ^ 32 := by decide
  have shown := built.mapProcessAddress fresh stackWord word (fun _ => spare) (lastEq ▸ within)
  have stacked := obtainedMore.mapProcessAddress fresh stackWord word (fun _ => spare)
    (fun _ _ number small mapped => by rw [page]; exact notPage number small mapped)
    (fun _ => .inl ⟨process.obtained, more, page.symm⟩) (lastEq ▸ within)
  rw [← lastEq] at shown stacked
  have pageDir : last.pageDir = process.pageDir := shown.grows.pageDir
  refine ⟨stacked, by omega, by rw [pageDir]; exact notDir, fun index small used => ?_⟩
  by_cases old : last.pde index = process.pde index
  · rw [old] at used ⊢
    exact notTable index small used
  · obtain ⟨k, least, before, isTable⟩ := shown.tables index small old
    rw [isTable]
    intro same
    have equal := fresh.distinct k process.obtained (by omega) more same
    omega

/-- `thread_init.ring0_stack_page`: what `k_proc_CreateProcess` obtains behind the shared pages. -/
def ringStackPage (pages : Nat → Nat) (layout : KernelLayout) (image : Bytes) (mem : Nat → Bytes) :
    Option Nat :=
  ((programHeaders image).foldlM (loadSegment pages image) (emptyMap pages mem)).map
    (fun process => pages (layout.sharedAddresses.foldl
      (fun process address => process.mapProcessAddress pages address address) process).obtained)

theorem createProcess_steps {mem : Nat → Bytes} {pageMap : Nat} (executable : IsExecutable image)
    (ran : createProcess pages layout image mem = some (pageMap, process)) :
    ∃ loaded shared last,
      (programHeaders image).foldlM (loadSegment pages image) (emptyMap pages mem) = some loaded ∧
      shared = layout.sharedAddresses.foldl
        (fun process address => process.mapProcessAddress pages address address) loaded ∧
      last = (shared.allocPhysicalPage pages).2.mapProcessAddress pages initStackAddress
        (pages shared.obtained) ∧
      pageMap = pages 0 ∧ ringStackPage pages layout image mem = some (pages shared.obtained) ∧
      process = if (elfHeader image).entry ≠ 0 then last.writePage (pages shared.obtained)
          (storeStack (last.mem (pages shared.obtained)) 1024
            (threadStack layout (elfHeader image).entry (pages 0)))
        else last := by
  unfold createProcess at ran
  rw [if_pos executable] at ran
  obtain ⟨loaded, ranSegments, result⟩ := Option.map_eq_some_iff.mp ran
  have loads : (programHeaders image).foldlM (loadSegment pages image) (emptyMap pages mem) =
    some loaded := ranSegments
  refine ⟨loaded, _, _, loads, rfl, rfl, ?_, ?_, ?_⟩
  · dsimp only at result
    split_ifs at result <;> exact (Prod.mk.inj result).1.symm
  · unfold ringStackPage
    rw [loads]
    rfl
  · dsimp only at result
    by_cases entry : (elfHeader image).entry ≠ 0
    · rw [if_pos entry] at result ⊢
      exact (Prod.mk.inj result).2.symm
    · rw [if_neg entry] at result ⊢
      exact (Prod.mk.inj result).2.symm

/-- Every page that a call obtains has one place in the new page map, with the exception of the ring
0 stack. -/
theorem createProcess_names {mem : Nat → Bytes} {pageMap : Nat} (executable : IsExecutable image)
    (fresh : FreshPages pages layout limit)
    (low : ∀ address ∈ layout.sharedAddresses, address < lowMemoryEnd)
    (ran : createProcess pages layout image mem = some (pageMap, process))
    (within : process.obtained ≤ limit) :
    pageMap = process.pageDir ∧ ∃ stack, stack < process.obtained ∧
      ringStackPage pages layout image mem = some (pages stack) ∧
      process.NamesOnce pages limit mem stack := by
  obtain ⟨loaded, shared, last, ranSegments, sharedEq, lastEq, isFirst, isStack, processEq⟩ :=
    createProcess_steps executable ran
  have obtained : process.obtained = last.obtained := by
    rw [processEq]
    split_ifs <;> rfl
  have sharedTaken := (obtained_shareAll pages layout.sharedAddresses loaded).1
  rw [← sharedEq] at sharedTaken
  have lastTaken := (obtained_mapProcessAddress pages (shared.allocPhysicalPage pages).2
    initStackAddress (pages shared.obtained)).1
  have given : (shared.allocPhysicalPage pages).2.obtained = shared.obtained + 1 := rfl
  rw [← lastEq, given] at lastTaken
  obtain ⟨least, keeps⟩ := @loadSegments_names pages layout limit limit mem image
    (emptyMap pages mem) loaded _ fresh ranSegments
  have loads := keeps (by omega) (emptyMap_names (by omega) mem)
  have sharedNames : shared.NamesOnce pages limit mem limit := by
    rw [sharedEq]
    exact loads.names.shareAll fresh layout.sharedAddresses_lt
      (fun address member k before => fresh.unshared k before address member) low
      (by rw [← sharedEq]; omega)
  obtain ⟨names, more, notDir, notTable⟩ := sharedNames.mapStack fresh lastEq (by omega)
  refine ⟨?_, shared.obtained, by omega, isStack, ?_⟩
  · rw [isFirst, processEq]
    split_ifs <;> exact names.atFirst.symm
  · rw [processEq]
    by_cases entry : (elfHeader image).entry ≠ 0
    · rw [if_pos entry]
      exact names.writePage ⟨shared.obtained, more, rfl⟩ notDir notTable _
    · rw [if_neg entry]
      exact names

end Segments

end DoggOS.Proc

/-
Sequences of calls of `k_proc_MapProcessAddress` on an empty directory.

A call adds a table for the directory entry of its address and an entry for its
page, each only if there is none, and then shows both in the windows.  After
every sequence the page map maps the pages of the addresses that were given,
each to the frame of the first call for it, and everything else is zero.
-/

import DoggOS.Proc.ProcessTables
import Mathlib.Data.List.Induction
import Mathlib.Tactic.FinCases

namespace DoggOS.Proc

open DoggOS.Mem

structure MapCall where
  linearAddress : Nat
  physicalAddress : Nat
deriving DecidableEq, Repr

def MapCall.number (call : MapCall) : Nat := call.linearAddress / 4096

structure MapCall.Valid (call : MapCall) : Prop where
  linear : call.linearAddress < 2 ^ 32
  physical : call.physicalAddress < 2 ^ 32
  aligned : call.physicalAddress % 4096 = 0

theorem MapCall.Valid.number_lt {call : MapCall} (valid : call.Valid) : call.number < 2 ^ 20 := by
  have linear := valid.linear
  unfold MapCall.number
  omega

namespace ProcessMem

def mapCall (pages : Nat → Nat) (process : ProcessMem) (call : MapCall) : ProcessMem :=
  process.mapProcessAddress pages call.linearAddress call.physicalAddress

def mapCalls (pages : Nat → Nat) (process : ProcessMem) (calls : List MapCall) : ProcessMem :=
  calls.foldl (mapCall pages) process

/-- `mem_init` for a new page directory, before anything was obtained. -/
def atStart (mem : Nat → Bytes) (pageDir : Nat) : ProcessMem where
  mem := mem
  obtained := 0
  pageDir := pageDir
  pageTable := 0
  curPageTableEntry := 0
  page := 0
  curPageEntry := 0

def withTable (process : ProcessMem) (number : Nat) : Nat :=
  if process.pde (number / 1024) = 0 then process.obtained + 1 else process.obtained

def frameOf (pages : Nat → Nat) (process : ProcessMem) (call : MapCall) : Nat :=
  if call.physicalAddress ≠ 0 then call.physicalAddress else pages (process.withTable call.number)

structure Called (pages : Nat → Nat) (before : ProcessMem) (call : MapCall) (after : ProcessMem) :
    Prop where
  pageDir : after.pageDir = before.pageDir
  pde : ∀ index, after.pde index =
    if before.pde index = 0 ∧ index = call.number / 1024 then
      pages before.obtained ||| processEntryFlags
    else before.pde index
  pte : ∀ number, number < 2 ^ 20 → after.pte number =
    if before.pte number = 0 ∧ number = call.number then
      before.frameOf pages call ||| processEntryFlags
    else before.pte number
  obtained : before.withTable call.number ≤ after.obtained
  taken : before.pte call.number = 0 → call.physicalAddress = 0 →
    before.withTable call.number < after.obtained
  tableWindow : after.pageTable = entryPage (after.pde (call.number / 1024))
  pageWindow : after.page = entryPage (after.pte call.number)

variable {pages : Nat → Nat} {limit : Nat} {process : ProcessMem} {call : MapCall}

namespace Tabled

theorem tableStep (tabled : Tabled pages limit process) (fresh : FreshFrames pages limit)
    {number : Nat} (within : process.withTable number ≤ limit) :
    ∃ first, (process.addTable pages (number / 1024)).selectTable (number / 1024) = first ∧
      Tabled pages limit first ∧ first.pageDir = process.pageDir ∧
      first.obtained = process.withTable number ∧
      (∀ index, first.pde index = if process.pde index = 0 ∧ index = number / 1024 then
        pages process.obtained ||| processEntryFlags else process.pde index) ∧
      (∀ other, other < 2 ^ 20 → first.pte other = process.pte other) ∧
      first.pde (number / 1024) ≠ 0 ∧
      first.pageTable = entryPage (first.pde (number / 1024)) := by
  unfold withTable at within ⊢
  by_cases unused : process.pde (number / 1024) = 0
  · rw [if_pos unused] at within ⊢
    have added := tabled.addTable fresh within unused
    have pde := tabled.addTable_pde fresh within unused
    have pte := fun other => @addTable_pte pages limit process _ other tabled fresh within unused
    have result := tabled.addTable_eq fresh within unused
    have pageDir : (process.addTable pages (number / 1024)).pageDir = process.pageDir := by
      rw [result]
    have obtained : (process.addTable pages (number / 1024)).obtained = process.obtained + 1 := by
      rw [result]
    clear result
    generalize process.addTable pages (number / 1024) = first at *
    rw [selectTable_eq added.tableWindow]
    refine ⟨_, rfl, ⟨added.tables, added.distinct, added.next, rfl, added.pageWindow⟩, pageDir,
      obtained, ?_, pte, ?_, rfl⟩
    · intro index
      change first.pde index = _
      rw [pde]
      by_cases here : index = number / 1024
      · rw [if_pos here, if_pos ⟨here ▸ unused, here⟩]
      · rw [if_neg here, if_neg (fun both => here both.2)]
    · change first.pde _ ≠ 0
      rw [pde, if_pos rfl]
      exact entry_ne_zero _
  · have same : process.addTable pages (number / 1024) = process := if_neg unused
    rw [if_neg unused, same, selectTable_eq tabled.tableWindow]
    refine ⟨_, rfl, ⟨tabled.tables, tabled.distinct, tabled.next, rfl, tabled.pageWindow⟩, rfl,
      rfl, ?_, fun _ _ => rfl, unused, rfl⟩
    intro index
    rw [if_neg]
    · rfl
    · intro both
      exact unused (both.2 ▸ both.1)

theorem entryStep (tabled : Tabled pages limit process) (fresh : FreshFrames pages limit)
    {number physical : Nat} (small : number < 2 ^ 20) (used : process.pde (number / 1024) ≠ 0)
    (window : process.pageTable = entryPage (process.pde (number / 1024)))
    (word : physical < 2 ^ 32)
    (within : (process.addPage pages (number % 1024) physical).obtained ≤ limit) :
    ∃ second, process.addPage pages (number % 1024) physical = second ∧
      Tabled pages limit second ∧ second.pageDir = process.pageDir ∧
      (∀ index, second.pde index = process.pde index) ∧
      (∀ other, other < 2 ^ 20 → second.pte other =
        if process.pte other = 0 ∧ other = number then
          (if physical ≠ 0 then physical else pages process.obtained) ||| processEntryFlags
        else process.pte other) ∧
      (process.pte number = 0 → physical = 0 → process.obtained < second.obtained) ∧
      second.pageTable = process.pageTable := by
  have result := @addPage_eq pages process number used window physical
  by_cases empty : process.pte number = 0
  · rw [if_pos empty] at result
    obtain ⟨frame, taken, isFrame, entered, wordFrame, more, further⟩ : ∃ frame taken,
        frame = (if physical ≠ 0 then physical else pages process.obtained) ∧
        process.addPage pages (number % 1024) physical = process.withEntry number frame taken ∧
        frame < 2 ^ 32 ∧ process.obtained ≤ taken ∧
        (physical = 0 → process.obtained < taken) := by
      by_cases given : physical ≠ 0
      · rw [if_pos given] at result ⊢
        exact ⟨physical, process.obtained, rfl, result, word, Nat.le_refl _,
          fun none => absurd none given⟩
      · rw [if_neg given] at result ⊢
        rw [result] at within
        exact ⟨_, process.obtained + 1, rfl, result, fresh.word _ within, Nat.le_succ _,
          fun _ => Nat.lt_succ_self _⟩
    have enters := tabled.enters small used wordFrame taken
    refine ⟨_, entered, tabled.enter small used wordFrame more, enters.pageDir, enters.pde, ?_,
      fun _ => further, rfl⟩
    intro other inRange
    rw [← isFrame]
    by_cases here : other = number
    · rw [if_pos ⟨here ▸ empty, here⟩, here, enters.self]
    · rw [if_neg (fun both => here both.2), enters.others other inRange here]
  · rw [if_neg empty] at result
    refine ⟨process, result, tabled, rfl, fun _ => rfl, ?_, fun none => absurd none empty, rfl⟩
    intro other inRange
    rw [if_neg]
    intro both
    exact empty (both.2 ▸ both.1)

theorem mapCall (tabled : Tabled pages limit process) (fresh : FreshFrames pages limit)
    (valid : call.Valid) (within : (process.mapCall pages call).obtained ≤ limit) :
    Tabled pages limit (process.mapCall pages call) ∧
      Called pages process call (process.mapCall pages call) := by
  have linear := valid.linear
  have small := valid.number_lt
  have directory : pdirIndex call.linearAddress = call.number / 1024 := by
    rw [pdirIndex_eq]
    unfold MapCall.number
    omega
  have slot : ptableIndex call.linearAddress = call.number % 1024 := ptableIndex_eq _
  unfold ProcessMem.mapCall ProcessMem.mapProcessAddress at within ⊢
  simp only [directory, slot] at within ⊢
  rw [obtained_selectPage] at within
  have taken := obtained_addPage pages
    ((process.addTable pages (call.number / 1024)).selectTable (call.number / 1024))
    (call.number % 1024) call.physicalAddress
  have tableTaken : process.withTable call.number ≤
      ((process.addTable pages (call.number / 1024)).selectTable (call.number / 1024)).obtained := by
    rw [obtained_selectTable]
    unfold withTable ProcessMem.addTable
    split
    · exact Nat.le_refl _
    · exact Nat.le_refl _
  obtain ⟨first, isFirst, tabledFirst, dirFirst, obtained, pdeFirst, pteFirst, used, window⟩ :=
    tabled.tableStep fresh (show process.withTable call.number ≤ limit by omega)
  rw [isFirst] at within taken ⊢
  obtain ⟨second, isSecond, tabledSecond, dirSecond, pdeSecond, pteSecond, furtherSecond,
    tableWindow⟩ :=
    tabledFirst.entryStep fresh small used window valid.physical within
  have entry : loadWord (second.mem second.pageTable) (call.number % 1024) =
      second.pte call.number := by
    unfold pte
    rw [pdeSecond, if_neg used, tableWindow, window]
  rw [isSecond] at taken
  rw [isSecond, selectPage_eq tabledSecond.pageWindow, entry]
  constructor
  · exact ⟨tabledSecond.tables, tabledSecond.distinct, tabledSecond.next, tabledSecond.tableWindow,
      rfl⟩
  · constructor
    · exact dirSecond.trans dirFirst
    · intro index
      exact (pdeSecond index).trans (pdeFirst index)
    · intro number inRange
      change second.pte number = _
      rw [pteSecond number inRange, pteFirst number inRange, obtained]
      rfl
    · rw [← obtained]
      exact taken.1
    · intro empty none
      rw [← obtained]
      exact furtherSecond ((pteFirst _ small).trans empty) none
    · change second.pageTable = entryPage (second.pde (call.number / 1024))
      rw [tableWindow, window, pdeSecond]
    · rfl

theorem walk_eq (tabled : Tabled pages limit process) {address : Nat} (word : address < 2 ^ 32) :
    process.walk process.pageDir address =
      if hasFlag (process.pte (address / 4096)) pentryFlagPresent then
        some (entryPage (process.pte (address / 4096)))
      else none := by
  have directory : pdirIndex address = address / 4096 / 1024 := by
    rw [pdirIndex_eq]
    omega
  have slot : ptableIndex address = address / 4096 % 1024 := ptableIndex_eq _
  unfold ProcessMem.walk PageMap.walk pte
  simp only [directory, slot]
  change (if hasFlag (process.pde (address / 4096 / 1024)) pentryFlagPresent then
    if hasFlag (process.pde (address / 4096 / 1024)) pentryFlagBigPage then _ else _ else none) = _
  by_cases unused : process.pde (address / 4096 / 1024) = 0
  · rw [unused, if_neg (not_hasFlag_zero _), if_pos rfl, if_neg (not_hasFlag_zero _)]
  · obtain ⟨-, present, small⟩ := tabled.tables _ (by omega) unused
    rw [if_pos present, if_neg small, if_neg unused]
    rfl

end Tabled

structure Given (pages : Nat → Nat) (limit : Nat) (first : ProcessMem) (calls : List MapCall)
    (after : ProcessMem) : Prop where
  tabled : Tabled pages limit after
  pageDir : after.pageDir = first.pageDir
  empty : ∀ number, number < 2 ^ 20 → (∀ call ∈ calls, call.number ≠ number) →
    after.pte number = 0
  mapped : ∀ before call rest, calls = before ++ call :: rest →
    (∀ earlier ∈ before, earlier.number ≠ call.number) →
    after.pte call.number = (first.mapCalls pages before).frameOf pages call ||| processEntryFlags ∧
      (call.physicalAddress = 0 →
        (first.mapCalls pages before).withTable call.number < after.obtained)
  unused : ∀ index, index < 1024 → (∀ call ∈ calls, call.number / 1024 ≠ index) →
    after.pde index = 0

theorem mapCalls_append (first : ProcessMem) (calls : List MapCall) (call : MapCall) :
    first.mapCalls pages (calls ++ [call]) = (first.mapCalls pages calls).mapCall pages call := by
  unfold mapCalls
  rw [List.foldl_append]
  rfl

theorem obtained_mapCalls (pages : Nat → Nat) (process : ProcessMem) (calls : List MapCall) :
    process.obtained ≤ (process.mapCalls pages calls).obtained ∧
      (process.mapCalls pages calls).obtained ≤ process.obtained + 2 * calls.length := by
  induction calls generalizing process with
  | nil => exact ⟨Nat.le_refl _, Nat.le_refl _⟩
  | cons call rest ih =>
      have once := obtained_mapProcessAddress pages process call.linearAddress call.physicalAddress
      have more := ih (process.mapCall pages call)
      unfold mapCalls at more ⊢
      unfold mapCall at more
      rw [List.foldl_cons, List.length_cons]
      unfold mapCall
      omega

theorem exists_first {calls : List MapCall} {call : MapCall} (member : call ∈ calls) :
    ∃ before first rest, calls = before ++ first :: rest ∧ first.number = call.number ∧
      ∀ earlier ∈ before, earlier.number ≠ first.number := by
  induction calls with
  | nil => cases member
  | cons head rest ih =>
      by_cases here : head.number = call.number
      · exact ⟨[], head, rest, rfl, here, fun _ earlier => absurd earlier List.not_mem_nil⟩
      · have later : call ∈ rest := by
          rcases List.mem_cons.mp member with isHead | later
          · exact absurd (congrArg MapCall.number isHead.symm) here
          · exact later
        obtain ⟨before, first, others, split, same, isFirst⟩ := ih later
        refine ⟨head :: before, first, others, by rw [split, List.cons_append], same, ?_⟩
        intro earlier inBefore
        rcases List.mem_cons.mp inBefore with isHead | before
        · rw [isHead, same]
          exact here
        · exact isFirst earlier before

theorem Given.next {first : ProcessMem} {calls : List MapCall}
    (given : Given pages limit first calls (first.mapCalls pages calls))
    (fresh : FreshFrames pages limit) (valid : call.Valid) (earlierValid : ∀ other ∈ calls, other.Valid)
    (within : (first.mapCalls pages (calls ++ [call])).obtained ≤ limit) :
    Given pages limit first (calls ++ [call]) (first.mapCalls pages (calls ++ [call])) := by
  have small := valid.number_lt
  rw [mapCalls_append] at within ⊢
  obtain ⟨tabled, called⟩ := given.tabled.mapCall fresh valid within
  have more := (obtained_mapProcessAddress pages (first.mapCalls pages calls) call.linearAddress
    call.physicalAddress).1
  constructor
  · exact tabled
  · exact called.pageDir.trans given.pageDir
  · intro number inRange never
    rw [called.pte number inRange, if_neg]
    · exact given.empty number inRange fun other member =>
        never other (List.mem_append_left _ member)
    · intro both
      exact never call (List.mem_append_right _ (List.mem_singleton_self _)) both.2.symm
  · intro before last rest split isFirst
    cases rest using List.reverseRecOn with
    | nil =>
        obtain ⟨rfl, same⟩ := List.append_inj' split rfl
        obtain rfl := List.singleton_inj.mp same
        have empty := given.empty call.number small isFirst
        rw [called.pte _ small, if_pos ⟨empty, rfl⟩]
        exact ⟨rfl, called.taken empty⟩
    | append_singleton rest other =>
        rw [← List.cons_append, ← List.append_assoc] at split
        obtain ⟨earlier, -⟩ := List.append_inj' split rfl
        obtain ⟨entry, taken⟩ := given.mapped before last rest earlier isFirst
        have member : last ∈ calls := by
          rw [earlier]
          exact List.mem_append_right _ List.mem_cons_self
        constructor
        · rw [called.pte _ (earlierValid last member).number_lt, entry, if_neg]
          exact fun both => entry_ne_zero _ both.1
        · intro none
          exact Nat.lt_of_lt_of_le (taken none) more
  · intro index inDir never
    rw [called.pde, if_neg]
    · exact given.unused index inDir fun other member =>
        never other (List.mem_append_left _ member)
    · intro both
      exact never call (List.mem_append_right _ (List.mem_singleton_self _)) both.2.symm

theorem Given.start {mem : Nat → Bytes} {pageDir : Nat}
    (empty : ∀ index, index < 1024 → loadWord (mem pageDir) index = 0)
    (apart : ∀ k, k < limit → pages k ≠ pageDir) :
    Given pages limit (atStart mem pageDir) [] (atStart mem pageDir) := by
  have pde : ∀ index, index < 1024 → (atStart mem pageDir).pde index = 0 := empty
  constructor
  · constructor
    · intro index inDir used
      exact absurd (pde index inDir) used
    · intro one two oneIn twoIn oneUsed
      exact absurd (pde one oneIn) oneUsed
    · intro k later inside
      exact ⟨apart k inside, fun index inDir used => absurd (pde index inDir) used⟩
    · rfl
    · rfl
  · rfl
  · intro number inRange never
    unfold pte
    rw [if_pos (pde _ (by omega))]
  · intro before call rest split
    cases List.append_ne_nil_of_right_ne_nil before (List.cons_ne_nil call rest) split.symm
  · intro index inDir never
    exact pde index inDir

/-- After every sequence of calls, by induction on the last call. -/
theorem mapCalls_given {mem : Nat → Bytes} {pageDir : Nat}
    (empty : ∀ index, index < 1024 → loadWord (mem pageDir) index = 0)
    (apart : ∀ k, k < limit → pages k ≠ pageDir) (fresh : FreshFrames pages limit)
    (calls : List MapCall) (valid : ∀ call ∈ calls, call.Valid)
    (within : ((atStart mem pageDir).mapCalls pages calls).obtained ≤ limit) :
    Given pages limit (atStart mem pageDir) calls ((atStart mem pageDir).mapCalls pages calls) := by
  induction calls using List.reverseRecOn with
  | nil => exact Given.start empty apart
  | append_singleton calls call ih =>
      have validCall := valid call (List.mem_append_right _ (List.mem_singleton_self _))
      have validCalls : ∀ other ∈ calls, other.Valid :=
        fun other member => valid other (List.mem_append_left _ member)
      have more := (obtained_mapProcessAddress pages
        ((atStart mem pageDir).mapCalls pages calls) call.linearAddress call.physicalAddress).1
      have last := @mapCalls_append pages (atStart mem pageDir) calls call
      have before := within
      rw [last] at before
      exact (ih validCalls (Nat.le_trans more before)).next fresh validCall validCalls within

/-- The pages of the addresses that were given are mapped, each to the frame of the first call for
it; the other entries are zero; and the windows show the table and the page of the last call. -/
structure MapsGiven (pages : Nat → Nat) (first : ProcessMem) (calls : List MapCall)
    (after : ProcessMem) : Prop where
  mapped : ∀ before call rest, calls = before ++ call :: rest →
    (∀ earlier ∈ before, earlier.number ≠ call.number) →
    ∀ address, address / 4096 = call.number →
      after.walk first.pageDir address = some ((first.mapCalls pages before).frameOf pages call) ∧
        after.pte call.number =
          (first.mapCalls pages before).frameOf pages call ||| processEntryFlags
  obtained : ∀ before call rest, calls = before ++ call :: rest →
    (∀ earlier ∈ before, earlier.number ≠ call.number) → call.physicalAddress = 0 →
    ∃ k, (first.mapCalls pages before).frameOf pages call = pages k ∧
      (first.mapCalls pages before).obtained ≤ k ∧
      k < (first.mapCalls pages (before ++ [call])).obtained
  unmapped : ∀ address, address < 2 ^ 32 → (∀ call ∈ calls, call.number ≠ address / 4096) →
    after.walk first.pageDir address = none ∧ after.pte (address / 4096) = 0
  noTable : ∀ index, index < 1024 → (∀ call ∈ calls, call.number / 1024 ≠ index) →
    after.pde index = 0
  windows : ∀ before call, calls = before ++ [call] →
    after.walk first.pageDir call.linearAddress = some after.page ∧
      after.pde (call.number / 1024) ≠ 0 ∧
      after.pageTable = entryPage (after.pde (call.number / 1024))

/-- `k_proc_MapProcessAddress` on an empty directory, for every sequence of calls. -/
theorem mapProcessAddress_maps {mem : Nat → Bytes} {pageDir : Nat}
    (empty : ∀ index, index < 1024 → loadWord (mem pageDir) index = 0)
    (fresh : FreshFrames pages limit) (apart : ∀ k, k < limit → pages k ≠ pageDir)
    (calls : List MapCall) (valid : ∀ call ∈ calls, call.Valid)
    (within : ((atStart mem pageDir).mapCalls pages calls).obtained ≤ limit) :
    MapsGiven pages (atStart mem pageDir) calls ((atStart mem pageDir).mapCalls pages calls) := by
  have given := mapCalls_given empty apart fresh calls valid within
  have walk : ∀ address, address < 2 ^ 32 → _ := fun address => given.tabled.walk_eq
  have prefixTaken : ∀ before rest, calls = before ++ rest →
      ((atStart mem pageDir).mapCalls pages before).obtained ≤
        ((atStart mem pageDir).mapCalls pages calls).obtained := by
    intro before rest split
    rw [split]
    unfold mapCalls
    rw [List.foldl_append]
    exact (obtained_mapCalls pages _ rest).1
  have mapped : ∀ before call rest, calls = before ++ call :: rest →
      (∀ earlier ∈ before, earlier.number ≠ call.number) →
      ∀ address, address / 4096 = call.number →
        ((atStart mem pageDir).mapCalls pages calls).walk pageDir address =
            some (((atStart mem pageDir).mapCalls pages before).frameOf pages call) ∧
          entryPage (((atStart mem pageDir).mapCalls pages calls).pte call.number) =
            ((atStart mem pageDir).mapCalls pages before).frameOf pages call := by
    intro before call rest split isFirst address inPage
    obtain ⟨entry, taken⟩ := given.mapped before call rest split isFirst
    have validCall := valid call (split ▸ List.mem_append_right _ List.mem_cons_self)
    have small := validCall.number_lt
    have frame : entryPage (((atStart mem pageDir).mapCalls pages before).frameOf pages call |||
        processEntryFlags) = ((atStart mem pageDir).mapCalls pages before).frameOf pages call := by
      unfold frameOf
      by_cases some : call.physicalAddress ≠ 0
      · rw [if_pos some, entryPage_entry validCall.physical, validCall.aligned, Nat.sub_zero]
      · rw [if_neg some]
        exact fresh.entryPage_eq (Nat.lt_of_lt_of_le (taken (not_not.mp some)) within)
    have followed := walk address (by omega)
    rw [given.pageDir, inPage, entry, if_pos, frame] at followed
    · exact ⟨followed, by rw [entry, frame]⟩
    · exact (hasFlag_or _ _ _).mpr (Or.inr (by decide))
  constructor
  · intro before call rest split isFirst address inPage
    exact ⟨(mapped before call rest split isFirst address inPage).1,
      (given.mapped before call rest split isFirst).1⟩
  · intro before call rest split isFirst none
    have upTo : calls = (before ++ [call]) ++ rest := by
      rw [split, List.append_assoc, List.singleton_append]
    have part := mapCalls_given empty apart fresh (before ++ [call])
      (fun other member => valid other (upTo ▸ List.mem_append_left _ member))
      (Nat.le_trans (prefixTaken _ rest upTo) within)
    refine ⟨((atStart mem pageDir).mapCalls pages before).withTable call.number, ?_, ?_, ?_⟩
    · unfold frameOf
      rw [if_neg (not_not_intro none)]
    · unfold withTable
      split
      · exact Nat.le_succ _
      · exact Nat.le_refl _
    · exact (part.mapped before call [] rfl isFirst).2 none
  · intro address word never
    have zero := given.empty (address / 4096) (by omega) never
    refine ⟨?_, zero⟩
    have followed := walk address word
    rw [given.pageDir, zero, if_neg (not_hasFlag_zero _)] at followed
    exact followed
  · exact given.unused
  · intro before call split
    have validCall := valid call (split ▸ List.mem_append_right _ (List.mem_singleton_self _))
    have validBefore : ∀ other ∈ before, other.Valid :=
      fun other member => valid other (split ▸ List.mem_append_left _ member)
    obtain ⟨earlier, first, rest, splitFirst, same, isFirst⟩ :=
      exists_first (show call ∈ calls from split ▸ List.mem_append_right _ (List.mem_singleton_self _))
    obtain ⟨followed, frame⟩ := mapped earlier first rest splitFirst isFirst call.linearAddress
      same.symm
    have last : (atStart mem pageDir).mapCalls pages calls =
        ((atStart mem pageDir).mapCalls pages before).mapCall pages call := by
      rw [split, mapCalls_append]
    have start := mapCalls_given empty apart fresh before validBefore
      (Nat.le_trans (prefixTaken before [call] split) within)
    rw [last] at within
    have called := (start.tabled.mapCall fresh validCall within).2
    rw [last] at followed frame ⊢
    refine ⟨?_, ?_, called.tableWindow⟩
    · rw [called.pageWindow, ← same, frame]
      exact followed
    · rw [called.pde]
      split
      · exact entry_ne_zero _
      · rename_i used
        exact fun zero => used ⟨zero, rfl⟩

/-- A page twice, another page of its table, and the shared data page with a frame of its own. -/
theorem mapProcessAddress_maps_four :
    MapsGiven (fun k => 0x100000 + 0x1000 * k) (atStart (fun _ _ => 0) 0x1000)
      [⟨0x8048000, 0⟩, ⟨0x8049000, 0⟩, ⟨0x8048000, 0⟩, ⟨0x4000, 0x4000⟩]
      ((atStart (fun _ _ => 0) 0x1000).mapCalls (fun k => 0x100000 + 0x1000 * k)
        [⟨0x8048000, 0⟩, ⟨0x8049000, 0⟩, ⟨0x8048000, 0⟩, ⟨0x4000, 0x4000⟩]) := by
  have fresh : FreshFrames (fun k => 0x100000 + 0x1000 * k) 8 := by
    refine ⟨?_, ?_, ?_, ?_⟩
    all_goals intros; omega
  apply mapProcessAddress_maps _ fresh
  · intro k inside
    omega
  · intro call member
    fin_cases member
    all_goals exact ⟨by decide, by decide, by decide⟩
  · exact (obtained_mapCalls _ _ _).2
  · intro index inDir
    exact Words.loadWord_zero fun _ _ => rfl

end ProcessMem

end DoggOS.Proc

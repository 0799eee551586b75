/-
Runs of the file handle allocator.

The first allocation gives the first handle of a new page and sets the free list
of the page to null, so the other handles are in no list from then on.  Later a
handle can only be allocated after the one that is live was freed, and it is the
same handle again.
-/

import DoggOS.Fs.FileHandles
import DoggOS.Library.LinkedQueues
import DoggOS.Library.Machine

namespace DoggOS.Fs

open Mem

inductive HandleCall where
  | allocFileHandle (page : Nat)
  | freeFileHandle (file : Nat)

def HandleCall.allocates : HandleCall → Bool
  | .allocFileHandle _ => true
  | .freeFileHandle _ => false

structure HandleRun where
  handles : FileHandles
  live : List Nat
  pages : List Nat

namespace FileHandles

def entries (page : Nat) : List Nat := (List.range fileHandlePageEntryCount).map (entry page)

theorem mem_entries {page file : Nat} :
    file ∈ entries page ↔ ∃ index, index < fileHandlePageEntryCount ∧ entry page index = file := by
  unfold entries
  simp only [List.mem_map, List.mem_range]

theorem entry_ne_zero (page index : Nat) : entry page index ≠ 0 := by
  unfold entry
  omega

theorem linkEntries_nextFree (page count nextEntry : Nat) (handles : FileHandles) :
    (linkEntries page count nextEntry handles).nextFree = handles.nextFree := by
  induction count generalizing nextEntry handles with
  | zero => rfl
  | succ count ih =>
      rw [linkEntries]
      exact ih _ _

theorem linkEntries_page_of_le (page count nextEntry : Nat) (handles : FileHandles) {index : Nat}
    (behind : count ≤ index) :
    (linkEntries page count nextEntry handles).page (entry page index) =
      handles.page (entry page index) := by
  induction count generalizing nextEntry handles with
  | zero => rfl
  | succ count ih =>
      rw [linkEntries, ih _ _ (by omega)]
      apply Function.update_of_ne
      unfold entry
      omega

theorem linkEntries_page (page count nextEntry : Nat) (handles : FileHandles) {index : Nat}
    (small : index < count) :
    (linkEntries page count nextEntry handles).page (entry page index) = page := by
  induction count generalizing nextEntry handles with
  | zero => omega
  | succ count ih =>
      rw [linkEntries]
      rcases Nat.lt_succ_iff_lt_or_eq.mp small with before | last
      · exact ih _ _ before
      · rw [linkEntries_page_of_le _ _ _ _ last.ge, last]
        exact Function.update_self _ _ _

theorem linkPage_nextFree (handles : FileHandles) (page : Nat) :
    (handles.linkPage page).nextFree = handles.nextFree := by
  unfold linkPage
  split
  · rfl
  · rfl

theorem linkPage_page (handles : FileHandles) (page : Nat) :
    (handles.linkPage page).page = handles.page := by
  unfold linkPage
  split
  · rfl
  · rfl

theorem newPage_nextFree (handles : FileHandles) (page : Nat) :
    (handles.newPage page).nextFree page = entry page 0 := by
  unfold newPage
  dsimp only
  rw [linkPage_nextFree, linkEntries_nextFree]
  exact Function.update_self _ _ _

theorem newPage_page (handles : FileHandles) (page : Nat) :
    (handles.newPage page).page (entry page 0) = page := by
  unfold newPage
  dsimp only
  rw [linkPage_page]
  exact linkEntries_page _ _ _ _ (by decide)

theorem allocFileHandle_first {handles : FileHandles} (noPage : handles.curFileHandlePage = 0)
    (page : Nat) : ∃ files, handles.allocFileHandle page = some (entry page 0, files) ∧
      files.curFileHandlePage = page ∧ files.nextFree page = 0 ∧
      files.next (entry page 0) = 0 ∧ files.page (entry page 0) = page := by
  have first := newPage_nextFree handles page
  have current : (handles.newPage page).curFileHandlePage = page := rfl
  unfold allocFileHandle takeEntry
  rw [if_pos noPage]
  simp only [current, first, if_neg (entry_ne_zero page 0)]
  exact ⟨_, rfl, rfl, Function.update_self _ _ _, Function.update_self _ _ _,
    newPage_page handles page⟩

end FileHandles

namespace HandleRun

open FileHandles

def Start (run : HandleRun) : Prop :=
  run.handles.curFileHandlePage = 0 ∧ run.handles.fileHandlePages = 0 ∧ run.live = [] ∧
    run.pages = []

def Enabled (run : HandleRun) : HandleCall → Prop
  | .allocFileHandle page => page ≠ 0 ∧ page + fileHandlePageSize ≤ wordLimit ∧
      ∀ other ∈ run.pages, page + fileHandlePageSize ≤ other ∨ other + fileHandlePageSize ≤ page
  | .freeFileHandle file => file ∈ run.live

def call (run : HandleRun) : HandleCall → Option HandleRun
  | .allocFileHandle page => (run.handles.allocFileHandle page).map fun result =>
      { handles := result.2
        live := result.1 :: run.live
        pages := if run.handles.curFileHandlePage = 0 then page :: run.pages else run.pages }
  | .freeFileHandle file => (run.handles.freeFileHandle file).map fun handles =>
      { handles, live := run.live.erase file, pages := run.pages }

def Legal : HandleRun → List HandleCall → Prop
  | _, [] => True
  | run, label :: labels =>
      run.Enabled label ∧ ∀ after, run.call label = some after → Legal after labels

/-- The page list, the count and the free list of each page, and the pages that are left when a
new one is taken. -/
structure Consistent (run : HandleRun) : Prop where
  listed : ∃ listed, Chain run.handles.nextPage run.handles.fileHandlePages listed ∧
    listed.Perm run.pages
  used : ∀ page ∈ run.pages,
    run.handles.usedCount page = run.live.countP fun file => file ∈ entries page
  free : ∀ page ∈ run.pages, ∃ free, Chain run.handles.next (run.handles.nextFree page) free ∧
    free.Nodup ∧ ∀ file, file ∈ free ↔ file ∈ entries page ∧ file ∉ run.live
  full : run.handles.curFileHandlePage = 0 → ∀ page ∈ run.pages, ∀ file ∈ entries page,
    file ∈ run.live

def Answers (run after : HandleRun) : HandleCall → Prop
  | .allocFileHandle _ => ∃ file, after.live = file :: run.live ∧ file ≠ 0 ∧ file ∉ run.live
  | .freeFileHandle _ => True

def Rightly : HandleRun → List HandleCall → Prop
  | run, [] => run.Consistent
  | run, label :: labels => run.Consistent ∧
      ∃ after, run.call label = some after ∧ run.Answers after label ∧ Rightly after labels

/-- Nothing was allocated yet, or the first handle of one page is live or alone in the free list. -/
inductive Shape (run : HandleRun) : Prop where
  | empty (current : run.handles.curFileHandlePage = 0) (first : run.handles.fileHandlePages = 0)
      (live : run.live = []) (pages : run.pages = [])
  | taken (page : Nat) (nonNull : page ≠ 0) (current : run.handles.curFileHandlePage = page)
      (pages : run.pages = [page]) (owner : run.handles.page (entry page 0) = page)
      (live : run.live = [entry page 0]) (nextFree : run.handles.nextFree page = 0)
  | given (page : Nat) (nonNull : page ≠ 0) (current : run.handles.curFileHandlePage = page)
      (pages : run.pages = [page]) (owner : run.handles.page (entry page 0) = page)
      (live : run.live = []) (nextFree : run.handles.nextFree page = entry page 0)
      (next : run.handles.next (entry page 0) = 0)

variable {run after last : HandleRun} {label : HandleCall} {labels : List HandleCall} {page : Nat}

theorem alloc_step (step : run.call (.allocFileHandle page) = some after) :
    ∃ file files, run.handles.allocFileHandle page = some (file, files) ∧
      after = { handles := files, live := file :: run.live
                pages := if run.handles.curFileHandlePage = 0 then page :: run.pages
                  else run.pages } := by
  obtain ⟨⟨file, files⟩, returned, same⟩ := Option.map_eq_some_iff.mp step
  exact ⟨file, files, returned, same.symm⟩

theorem Start.shape (start : run.Start) : run.Shape :=
  .empty start.1 start.2.1 start.2.2.1 start.2.2.2

theorem Start.consistent (start : run.Start) : run.Consistent := by
  obtain ⟨-, first, -, pages⟩ := start
  constructor
  · exact ⟨[], first, by rw [pages]⟩
  · simp [pages]
  · simp [pages]
  · simp [pages]

/-- The second handle of the page is neither live nor in the free list. -/
theorem not_consistent_of_free {free : List Nat} (pages : run.pages = [page])
    (chain : Chain run.handles.next (run.handles.nextFree page) free)
    (onlyFree : ∀ file ∈ free, file = entry page 0)
    (onlyLive : ∀ file ∈ run.live, file = entry page 0) : ¬ run.Consistent := by
  intro consistent
  obtain ⟨others, same, -, members⟩ := consistent.free page (by rw [pages]; simp)
  have second : entry page 1 ∈ entries page := mem_entries.mpr ⟨1, by decide, rfl⟩
  have different : entry page 1 ≠ entry page 0 := by
    unfold entry
    omega
  have notLive : entry page 1 ∉ run.live := fun member => different (onlyLive _ member)
  have inFree := (members _).mpr ⟨second, notLive⟩
  rw [← chain.unique same] at inFree
  exact different (onlyFree _ inFree)

theorem Shape.consistent_iff (shape : run.Shape) : run.Consistent ↔ run.pages = [] := by
  cases shape with
  | empty current first live pages =>
      exact ⟨fun _ => pages, fun _ => Start.consistent ⟨current, first, live, pages⟩⟩
  | taken page nonNull current pages owner live nextFree =>
      have chain : Chain run.handles.next (run.handles.nextFree page) [] := nextFree
      have inconsistent : ¬ run.Consistent :=
        not_consistent_of_free pages chain (by simp) (by simp [live])
      rw [pages]
      exact ⟨fun consistent => absurd consistent inconsistent, nofun⟩
  | given page nonNull current pages owner live nextFree next =>
      have chain : Chain run.handles.next (run.handles.nextFree page) [entry page 0] :=
        ⟨nextFree, entry_ne_zero page 0, next⟩
      have inconsistent : ¬ run.Consistent :=
        not_consistent_of_free pages chain (by simp) (by simp [live])
      rw [pages]
      exact ⟨fun consistent => absurd consistent inconsistent, nofun⟩

/-- An allocation returns exactly if no handle is live. -/
theorem Shape.alloc_returns (shape : run.Shape) (page : Nat) :
    (run.call (.allocFileHandle page)).isSome ↔ run.live = [] := by
  unfold call
  rw [Option.isSome_map]
  cases shape with
  | empty current first live pages =>
      obtain ⟨files, returned, -⟩ := allocFileHandle_first current page
      rw [returned]
      exact ⟨fun _ => live, fun _ => rfl⟩
  | taken first nonNull current pages owner live nextFree =>
      unfold allocFileHandle takeEntry
      simp only [current, if_neg nonNull, nextFree, if_true, live]
      exact ⟨nofun, nofun⟩
  | given first nonNull current pages owner live nextFree next =>
      unfold allocFileHandle takeEntry
      simp only [current, if_neg nonNull, nextFree, if_neg (entry_ne_zero first 0), live,
        Option.isSome_some]

theorem Shape.call (shape : run.Shape) (enabled : run.Enabled label)
    (step : run.call label = some after) :
    after.Shape ∧ (after.pages = [] ↔ run.pages = [] ∧ label.allocates = false) := by
  cases label with
  | allocFileHandle page =>
      obtain ⟨file, files, returned, rfl⟩ := alloc_step step
      cases shape with
      | empty current first live pages =>
          obtain ⟨handles, first, newCurrent, nextFree, -, owner⟩ :=
            allocFileHandle_first current page
          obtain ⟨rfl, rfl⟩ := Prod.mk.inj (Option.some.inj (returned.symm.trans first))
          refine ⟨.taken page enabled.1 newCurrent ?_ owner ?_ nextFree, ?_⟩
          · simp only [current, if_true, pages]
          · simp only [live]
          · simp [current, HandleCall.allocates]
      | taken first nonNull current pages owner live nextFree =>
          unfold FileHandles.allocFileHandle takeEntry at returned
          simp only [current, if_neg nonNull, nextFree, if_true] at returned
          exact absurd returned.symm (Option.some_ne_none _)
      | given first nonNull current pages owner live nextFree next =>
          unfold FileHandles.allocFileHandle takeEntry at returned
          simp only [current, if_neg nonNull, nextFree, if_neg (entry_ne_zero first 0)] at returned
          obtain ⟨rfl, rfl⟩ := Prod.mk.inj (Option.some.inj returned)
          refine ⟨.taken first nonNull rfl ?_ owner ?_ ?_, ?_⟩
          · simp only [current, if_neg nonNull, pages]
          · simp only [live]
          · exact Function.update_self _ _ _
          · simp [current, nonNull, pages]
  | freeFileHandle file =>
      obtain ⟨files, returned, rfl⟩ := Option.map_eq_some_iff.mp step
      cases shape with
      | empty current first live pages =>
          have member : file ∈ run.live := enabled
          rw [live] at member
          exact absurd member List.not_mem_nil
      | given first nonNull current pages owner live nextFree next =>
          have member : file ∈ run.live := enabled
          rw [live] at member
          exact absurd member List.not_mem_nil
      | taken first nonNull current pages owner live nextFree =>
          have isFirst : file = entry first 0 := by
            have member : file ∈ run.live := enabled
            rwa [live, List.mem_singleton] at member
          subst file
          have stays : ¬ (first = 0 ∨ run.handles.index first < run.handles.index first) := by
            rintro (null | less)
            · exact nonNull null
            · exact absurd less (Nat.lt_irrefl _)
          unfold FileHandles.freeFileHandle at returned
          simp only [owner, if_neg nonNull, current, if_neg stays, nextFree] at returned
          cases returned
          refine ⟨.given first nonNull rfl pages owner ?_ ?_ ?_, ?_⟩
          · simp only [live, List.erase_cons_head]
          · exact Function.update_self _ _ _
          · exact Function.update_self _ _ _
          · simp [pages]

theorem Shape.follow (shape : run.Shape) (legal : run.Legal labels)
    (followed : Machine.follow HandleRun.call run labels = some last) :
    last.Shape ∧ (last.pages = [] ↔ run.pages = [] ∧ ∀ label ∈ labels, label.allocates = false) := by
  induction labels generalizing run with
  | nil =>
      cases followed
      exact ⟨shape, by simp⟩
  | cons label labels ih =>
      obtain ⟨enabled, later⟩ := legal
      obtain ⟨middle, step, rest⟩ := Option.bind_eq_some_iff.mp followed
      obtain ⟨kept, pages⟩ := shape.call enabled step
      obtain ⟨atLast, lastPages⟩ := ih kept (later middle step) rest
      refine ⟨atLast, lastPages.trans ?_⟩
      rw [pages, List.forall_mem_cons, and_assoc]

theorem Rightly.follow (rightly : run.Rightly labels) :
    ∃ last, Machine.follow HandleRun.call run labels = some last ∧ last.Consistent := by
  induction labels generalizing run with
  | nil => exact ⟨run, rfl, rightly⟩
  | cons label labels ih =>
      obtain ⟨-, after, step, -, rest⟩ := rightly
      obtain ⟨last, followed, consistent⟩ := ih rest
      refine ⟨last, ?_, consistent⟩
      rw [Machine.follow, step]
      exact followed

end HandleRun

open HandleRun in
/-- The handles, their counts and the lists are as they should be exactly as long as no handle was
allocated, in the calls of a sequence and in the state that it leads to. -/
theorem fileHandles_rightly (run : HandleRun) (start : run.Start) (labels : List HandleCall)
    (legal : run.Legal labels) :
    (run.Rightly labels ↔ ∀ label ∈ labels, label.allocates = false) ∧
      ∀ last, Machine.follow HandleRun.call run labels = some last →
        (last.Consistent ↔ ∀ label ∈ labels, label.allocates = false) := by
  have reached : ∀ last, Machine.follow HandleRun.call run labels = some last →
      (last.Consistent ↔ ∀ label ∈ labels, label.allocates = false) := by
    intro last followed
    obtain ⟨shape, pages⟩ := start.shape.follow legal followed
    rw [shape.consistent_iff, pages]
    exact and_iff_right start.2.2.2
  refine ⟨⟨?_, ?_⟩, reached⟩
  · intro rightly
    obtain ⟨last, followed, consistent⟩ := rightly.follow
    exact (reached last followed).mp consistent
  · intro noAlloc
    cases labels with
    | nil => exact start.consistent
    | cons label labels =>
        cases label with
        | allocFileHandle page => exact absurd (noAlloc _ List.mem_cons_self) Bool.true_eq_false.mp
        | freeFileHandle file =>
            have member : file ∈ run.live := legal.1
            rw [start.2.2.1] at member
            exact absurd member List.not_mem_nil

def noHandles : HandleRun :=
  { handles :=
      { refs := fun _ => 0, volume := fun _ => 0, page := fun _ => 0, handle := fun _ => 0
        next := fun _ => 0, prev := fun _ => 0, path := fun _ => none, index := fun _ => 0
        nextPage := fun _ => 0, prevPage := fun _ => 0, nextFree := fun _ => 0
        usedCount := fun _ => 0, fileHandlePageIndex := 0, fileHandlePageCount := 0
        fileHandlePages := 0, curFileHandlePage := 0, lastFileHandlePage := 0 }
    live := []
    pages := [] }

theorem noHandles_start : noHandles.Start := ⟨rfl, rfl, rfl, rfl⟩

theorem noHandles_legal : noHandles.Legal [.allocFileHandle 4096, .allocFileHandle 8192] := by
  refine ⟨⟨by decide, by decide, by simp [noHandles]⟩, fun after step => ⟨⟨by decide, by decide, ?_⟩,
    fun _ _ => trivial⟩⟩
  obtain ⟨file, files, -, rfl⟩ := HandleRun.alloc_step step
  simp [noHandles, fileHandlePageSize]

theorem fileHandles_rightly_two :
    ¬ noHandles.Rightly [.allocFileHandle 4096, .allocFileHandle 8192] := by
  have both := fileHandles_rightly noHandles noHandles_start _ noHandles_legal
  intro rightly
  exact absurd (both.1.mp rightly _ List.mem_cons_self) Bool.true_eq_false.mp

/-- With the first handle live, the second allocation reads through a null pointer. -/
theorem secondHandle_faults : noHandles.Start ∧
    noHandles.Legal [.allocFileHandle 4096, .allocFileHandle 8192] ∧
    Machine.follow HandleRun.call noHandles [.allocFileHandle 4096, .allocFileHandle 8192] = none ∧
    ¬ noHandles.Rightly [.allocFileHandle 4096, .allocFileHandle 8192] := by
  have faults : Machine.follow HandleRun.call noHandles
      [.allocFileHandle 4096, .allocFileHandle 8192] = none := by
    cases step : noHandles.call (.allocFileHandle 4096) with
    | none => rw [Machine.follow, step, Option.bind_none]
    | some after =>
        have shape := (noHandles_start.shape.call noHandles_legal.1 step).1
        have live : after.live ≠ [] := by
          obtain ⟨file, files, -, rfl⟩ := HandleRun.alloc_step step
          exact List.cons_ne_nil _ _
        have missing : after.call (.allocFileHandle 8192) = none := by
          rw [← Option.not_isSome_iff_eq_none, shape.alloc_returns]
          exact live
        rw [Machine.follow, step, Option.bind_some, Machine.follow, missing, Option.bind_none]
  refine ⟨noHandles_start, noHandles_legal, faults, fun rightly => ?_⟩
  obtain ⟨last, followed, -⟩ := HandleRun.Rightly.follow rightly
  rw [faults] at followed
  exact absurd followed.symm (Option.some_ne_none _)

end DoggOS.Fs

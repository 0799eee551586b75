/-
Runs of the open file table.

A first file can be opened, opened again under the path that its handle holds and
closed down to its last reference.  Each other call breaks the table or reads
through a null pointer, so a run that is right so far stays right exactly if its
next call is one of these.
-/

import DoggOS.Fs.FileHandleRuns
import DoggOS.Fs.OpenFiles

namespace DoggOS.Fs.OpenFiles

open Mem

structure Consistent (table : OpenFiles) (listed : List Nat) : Prop where
  chain : Chain table.files.next table.openFiles listed
  nodup : listed.Nodup
  known : ∀ file ∈ listed, file ∈ table.handles
  open_iff : ∀ file ∈ table.handles, file ∈ listed ↔ 0 < table.files.refs file
  refs : ∀ file ∈ table.handles,
    table.files.refs file = table.opens.countP fun entry => entry.1 = file

/-- What an open returns: the handle that is open for the path on the volume, or else a handle
that is not open, or null if the file system fails. -/
def Answers (before : OpenFiles) (result : Nat) (after : OpenFiles) : FileCall → Prop
  | .openFile volume path answer _ =>
      (∀ file, (file, volume, path) ∈ before.opens → result = file) ∧
        ((∀ file, (file, volume, path) ∉ before.opens) →
          if answer.isSome then result ≠ 0 ∧ ∀ entry ∈ before.opens, entry.1 ≠ result
          else result = 0 ∧ after = before)
  | .closeFile _ => True

def Works (table : OpenFiles) (label : FileCall) : Prop :=
  ∃ result after, table.call label = some (result, after) ∧ table.Answers result after label ∧
    ∃ listed, after.Consistent listed

/-- The first open of all, or one of a file that is open for this path and volume and whose handle
holds the path; a close of a file that has another reference. -/
def Meets (table : OpenFiles) : FileCall → Prop
  | .openFile volume path answer _ =>
      (table.openFiles = 0 ∧ answer.isSome) ∨
        ∃ file, (file, volume, path) ∈ table.opens ∧ table.files.path file = some path ∧
          table.files.refs file + 1 < wordLimit
  | .closeFile file => file = 0 ∨ table.files.refs file ≠ 1

inductive Shape (table : OpenFiles) : Prop where
  | empty (openFiles : table.openFiles = 0) (handles : table.handles = [])
      (opens : table.opens = []) (page : table.files.curFileHandlePage = 0)
  | single (file volume : Nat) (path : Path) (nonNull : file ≠ 0)
      (openFiles : table.openFiles = file) (handles : table.handles = [file])
      (opens : ∀ entry ∈ table.opens, entry = (file, volume, path)) (notNil : table.opens ≠ [])
      (next : table.files.next file = 0) (refs : table.files.refs file = table.opens.length)
      (handle : table.files.handle file ≠ 0) (page : table.files.curFileHandlePage ≠ 0)
      (noFree : table.files.nextFree table.files.curFileHandlePage = 0)

variable {table after : OpenFiles} {path : Path} {volume file page : Nat}
  {answer : Option OpenedFile} {label : FileCall}

theorem countP_all {file : Nat} {opens : List (Nat × Nat × Path)} {entry : Nat × Nat × Path}
    (all : ∀ one ∈ opens, one = entry) (same : entry.1 = file) :
    opens.countP (fun one => one.1 = file) = opens.length := by
  apply List.countP_eq_length.mpr
  intro one member
  rw [all one member]
  exact decide_eq_true same

theorem Shape.consistent (shape : table.Shape) : ∃ listed, table.Consistent listed := by
  cases shape with
  | empty openFiles handles opens page =>
      refine ⟨[], openFiles, List.nodup_nil, fun _ => nofun, ?_, ?_⟩
      · rw [handles]
        exact fun _ => nofun
      · rw [handles]
        exact fun _ => nofun
  | single file volume path nonNull openFiles handles opens notNil next refs handle page noFree =>
      have some : 0 < table.opens.length := List.length_pos_iff.mpr notNil
      refine ⟨[file], ⟨openFiles, nonNull, next⟩, List.nodup_singleton file, ?_, ?_, ?_⟩
      · rw [handles]
        exact fun _ member => member
      · rw [handles]
        intro other member
        rw [List.mem_singleton.mp member, refs]
        exact ⟨fun _ => some, fun _ => List.mem_singleton_self file⟩
      · rw [handles]
        intro other member
        rw [List.mem_singleton.mp member, refs]
        exact (countP_all opens rfl).symm

theorem search_single (handles : table.handles = [file]) (openFiles : table.openFiles = file)
    (nonNull : file ≠ 0) (next : table.files.next file = 0) :
    table.search path = if table.files.path file = none then none
      else if table.files.path file = some path then some file else some 0 := by
  have stops : table.otherPath path 0 = false := decide_eq_false fun both => both.1 rfl
  unfold search
  rw [handles, openFiles, List.length_singleton]
  by_cases same : table.files.path file = some path
  · have found : table.otherPath path file = false := decide_eq_false fun both => both.2 same
    rw [if_pos same, if_neg (by rw [same]; exact Option.some_ne_none _), faultLoop, found]
    rfl
  · have other : table.otherPath path file = true := decide_eq_true ⟨nonNull, same⟩
    rw [if_neg same, faultLoop, if_pos other, searchTurn, next]
    by_cases unset : table.files.path file = none
    · rw [if_pos unset]
      rfl
    · rw [if_neg unset, Option.bind_some, faultLoop, stops]
      rfl

theorem search_empty (handles : table.handles = []) (openFiles : table.openFiles = 0) :
    table.search path = some 0 := by
  have stops : table.otherPath path 0 = false := decide_eq_false fun both => both.1 rfl
  unfold search
  rw [handles, openFiles, List.length_nil, faultLoop, stops]
  rfl

theorem Shape.openFirst (shape : table.Shape) (openFiles : table.openFiles = 0)
    (pageNonNull : page ≠ 0) (opened : OpenedFile) (handleNonNull : opened.handle ≠ 0) :
    ∃ result after, table.openFile volume path (some opened) page = some (result, after) ∧
      table.Answers result after (.openFile volume path (some opened) page) ∧ after.Shape := by
  cases shape with
  | single file volume path nonNull isFirst => exact absurd (isFirst.symm.trans openFiles) nonNull
  | empty openFiles handles opens noPage =>
      obtain ⟨files, taken, current, noFree, noNext, -⟩ :=
        FileHandles.allocFileHandle_first noPage page
      have nonNull := FileHandles.entry_ne_zero page 0
      have ran : table.openFile volume path (some opened) page =
          some (FileHandles.entry page 0, ({ table with
            handles := FileHandles.entry page 0 :: table.handles
            files := { files with
              handle := Function.update files.handle (FileHandles.entry page 0) opened.handle
              path := if opened.path = none then files.path
                else Function.update files.path (FileHandles.entry page 0) opened.path } } :
            OpenFiles).link (FileHandles.entry page 0) |>.setFile (FileHandles.entry page 0) 1
              volume path) := by
        unfold openFile
        rw [search_empty handles openFiles, Option.bind_eq_bind, Option.bind_some,
          if_neg (not_not_intro rfl)]
        simp only [openOnVolume, taken, Option.bind_eq_bind, Option.bind_some, Option.map_some]
        rfl
      refine ⟨_, _, ran, ⟨?_, fun _ => ?_⟩, ?_⟩
      · rw [opens]
        exact fun _ => nofun
      · rw [opens]
        exact ⟨nonNull, fun _ => nofun⟩
      · unfold link
        rw [if_pos openFiles]
        refine Shape.single (FileHandles.entry page 0) volume path nonNull rfl ?_ ?_
          (List.cons_ne_nil _ _) noNext ?_ ?_ ?_ ?_
        · simp only [setFile, handles]
        · simp only [setFile, opens]
          exact fun entry member => List.mem_singleton.mp member
        · simp only [setFile, opens, Function.update_self, List.length_singleton]
        · simp only [setFile, Function.update_self]
          exact handleNonNull
        · simp only [setFile, current]
          exact pageNonNull
        · simp only [setFile, current]
          exact noFree

/-- With one file open only its own path can be opened; no handle is left for another one. -/
theorem openFile_single (handles : table.handles = [file]) (openFiles : table.openFiles = file)
    (nonNull : file ≠ 0) (next : table.files.next file = 0)
    (current : table.files.curFileHandlePage ≠ 0)
    (noFree : table.files.nextFree table.files.curFileHandlePage = 0) :
    table.openFile volume path answer page = if table.files.path file = some path then
      some (file, table.setFile file ((table.files.refs file + 1) % wordLimit) volume path)
      else none := by
  unfold openFile
  rw [search_single handles openFiles nonNull next]
  by_cases same : table.files.path file = some path
  · rw [if_neg (by rw [same]; exact Option.some_ne_none _), if_pos same, if_pos same,
      Option.bind_eq_bind, Option.bind_some, if_pos nonNull]
    rfl
  · rw [if_neg same, if_neg same]
    by_cases unset : table.files.path file = none
    · rw [if_pos unset]
      rfl
    · rw [if_neg unset, Option.bind_eq_bind, Option.bind_some, if_neg (not_not_intro rfl)]
      cases answer with
      | none => rfl
      | some opened =>
          have noHandle : table.files.allocFileHandle page = none := by
            unfold FileHandles.allocFileHandle FileHandles.takeEntry
            rw [if_neg current]
            exact if_pos noFree
          simp only [openOnVolume, noHandle]
          rfl

/-- A call that meets the condition does what it should and leaves at most one file open. -/
theorem Shape.call (shape : table.Shape) (enabled : table.Enabled label)
    (meets : table.Meets label) : ∃ result after, table.call label = some (result, after) ∧
      table.Answers result after label ∧ after.Shape := by
  cases label with
  | openFile volume path answer page =>
      rcases meets with ⟨first, succeeds⟩ | ⟨found, isOpen, holdsPath, small⟩
      · obtain ⟨opened, rfl⟩ := Option.isSome_iff_exists.mp succeeds
        exact shape.openFirst first enabled.1 opened (enabled.2 opened rfl)
      · cases shape with
        | empty openFiles handles opens page =>
            rw [opens] at isOpen
            cases isOpen
        | single file ownVolume ownPath nonNull openFiles handles opens notNil next refs handle
            current noFree =>
            obtain ⟨rfl, rfl, rfl⟩ : found = file ∧ volume = ownVolume ∧ path = ownPath := by
              have same := opens _ isOpen
              simpa using same
            have ran := @openFile_single table path volume found page answer handles openFiles nonNull
              next current noFree
            rw [if_pos holdsPath, Nat.mod_eq_of_lt small] at ran
            refine ⟨_, _, ran, ⟨fun other member => ?_, fun closed => absurd isOpen (closed found)⟩, ?_⟩
            · have same := opens _ member
              exact (congrArg Prod.fst same).symm
            · refine Shape.single found volume path nonNull openFiles handles ?_
                (List.cons_ne_nil _ _) next ?_ handle current noFree
              · intro entry member
                exact (List.mem_cons.mp member).elim id (opens entry)
              · simp only [setFile, Function.update_self, List.length_cons, refs]
  | closeFile closed =>
      have returns : ∀ {after : OpenFiles}, table.closeFile closed = some after →
          table.call (.closeFile closed) = some (0, after) := fun closes =>
        Option.map_eq_some_iff.mpr ⟨_, closes, rfl⟩
      by_cases applies : closed ≠ 0 ∧ table.files.handle closed ≠ 0 ∧ table.files.refs closed > 0
      · obtain ⟨closedNonNull, hasHandle, positive⟩ := applies
        have notLast := meets.resolve_left closedNonNull
        have known := enabled.resolve_left closedNonNull
        cases shape with
        | empty openFiles handles opens page =>
            rw [handles] at known
            cases known
        | single file volume path nonNull openFiles handles opens notNil next refs handle current
            noFree =>
            rw [handles] at known
            obtain rfl := List.mem_singleton.mp known
            obtain ⟨entry, member⟩ := List.exists_mem_of_ne_nil _ notNil
            have isOwn : entry.1 = closed := congrArg Prod.fst (opens entry member)
            have shorter := List.length_eraseP_of_mem member (p := fun entry => entry.1 = closed)
              (decide_eq_true isOwn)
            have refsAfter : (table.dropReference closed).files.refs closed =
                table.files.refs closed - 1 := Function.update_self _ _ _
            refine ⟨0, table.dropReference closed, returns ?_, trivial, ?_⟩
            · unfold closeFile
              rw [if_pos ⟨closedNonNull, hasHandle, positive⟩, if_neg (by omega)]
            · refine Shape.single closed volume path nonNull openFiles handles ?_ ?_ next ?_ handle
                current noFree
              · exact fun entry member => opens entry (List.mem_of_mem_eraseP member)
              · apply List.ne_nil_of_length_pos
                rw [dropReference, shorter]
                omega
              · rw [refsAfter, dropReference, shorter, refs]
      · exact ⟨0, table, returns (if_neg applies), trivial, shape⟩

theorem freeFileHandle_refs {handles files : FileHandles}
    (freed : handles.freeFileHandle file = some files) : files.refs = handles.refs := by
  unfold FileHandles.freeFileHandle at freed
  dsimp only at freed
  split at freed
  · cases freed
  · split at freed
    · cases freed
      rfl
    · cases freed
      rfl

/-- The last close leaves the file at the front of the list. -/
theorem closeLast (openFiles : table.openFiles = file) (nonNull : file ≠ 0)
    (handle : table.files.handle file ≠ 0) (last : table.files.refs file = 1)
    (closed : table.closeFile file = some after) :
    after.openFiles = file ∧ after.handles = table.handles ∧ after.files.refs file = 0 := by
  have noRefs : (table.dropReference file).files.refs file = 0 := by
    rw [dropReference]
    dsimp only
    rw [Function.update_self, last]
  unfold closeFile at closed
  rw [if_pos ⟨nonNull, handle, by omega⟩, if_pos noRefs] at closed
  obtain ⟨files, freed, result⟩ := Option.map_eq_some_iff.mp closed
  rw [← result]
  refine ⟨openFiles, rfl, ?_⟩
  have kept := freeFileHandle_refs freed
  dsimp only
  rw [kept]
  exact noRefs

/-- Each other call faults, returns a handle that is open for something else or leaves a closed
file in the list. -/
theorem Shape.meets (shape : table.Shape) (enabled : table.Enabled label)
    (works : table.Works label) : table.Meets label := by
  obtain ⟨result, after, called, answers, listed, consistent⟩ := works
  cases label with
  | openFile volume path answer page =>
      cases shape with
      | empty openFiles handles opens noPage =>
          refine Or.inl ⟨openFiles, ?_⟩
          cases answer with
          | some opened => rfl
          | none =>
              have called : table.openFile volume path none page = some (result, after) := called
              unfold openFile at called
              rw [search_empty handles openFiles] at called
              cases called
      | single file ownVolume ownPath nonNull openFiles handles opens notNil next refs handle
          current noFree =>
          have ran := @openFile_single table path volume _ page answer handles openFiles nonNull
            next current noFree
          have called : table.openFile volume path answer page = some (result, after) := called
          rw [ran] at called
          split at called
          · rename_i holdsPath
            cases called
            obtain ⟨entry, member⟩ := List.exists_mem_of_ne_nil _ notNil
            have isOwn := opens entry member
            rw [isOwn] at member
            by_cases isOpen : ∃ other, (other, volume, path) ∈ table.opens
            · obtain ⟨other, asked⟩ := isOpen
              obtain rfl : other = result := congrArg Prod.fst (opens _ asked)
              refine Or.inr ⟨other, asked, holdsPath, ?_⟩
              have known : other ∈ table.handles := by
                rw [handles]
                exact List.mem_singleton_self other
              have counted := consistent.refs other known
              have all : ∀ one ∈ (other, volume, path) :: table.opens, one = (other, ownVolume, ownPath) := by
                intro one inOpens
                rcases List.mem_cons.mp inOpens with isNew | old
                · exact isNew.trans (opens _ asked)
                · exact opens one old
              rw [setFile] at counted
              dsimp only at counted
              rw [Function.update_self, countP_all all rfl, List.length_cons, refs] at counted
              rw [refs, ← counted]
              exact Nat.mod_lt _ (by decide)
            · exfalso
              have fresh := answers.2 fun other member => isOpen ⟨other, member⟩
              split at fresh
              · exact fresh.2 _ member rfl
              · exact nonNull fresh.1
          · cases called
  | closeFile closed =>
      by_contra notMet
      obtain ⟨closedNonNull, isLast⟩ := not_or.mp notMet
      have isLast : table.files.refs closed = 1 := not_not.mp isLast
      have known := enabled.resolve_left closedNonNull
      cases shape with
      | empty openFiles handles opens page =>
          rw [handles] at known
          cases known
      | single file volume path nonNull openFiles handles opens notNil next refs handle current
          noFree =>
          rw [handles] at known
          obtain rfl := List.mem_singleton.mp known
          obtain ⟨closedTable, closes, same⟩ := Option.map_eq_some_iff.mp called
          obtain rfl : closedTable = after := congrArg Prod.snd same
          obtain ⟨first, known, noRefs⟩ := closeLast openFiles nonNull handle isLast closes
          have inHandles : closed ∈ closedTable.handles := by
            rw [known, handles]
            exact List.mem_singleton_self closed
          have notListed := mt (consistent.open_iff closed inHandles).mp (by omega)
          have chain := consistent.chain
          rw [first] at chain
          cases listed with
          | nil => exact nonNull chain
          | cons head rest => exact notListed (chain.1 ▸ List.mem_cons_self)

theorem Start.shape (start : table.Start) : table.Shape :=
  .empty start.1 start.2.1 start.2.2.1 start.2.2.2

/-- In a run whose calls all meet the condition the table is consistent, and the next call does
what it should exactly when it meets the condition too. -/
theorem openFiles_consistent (reachable : (machine.restrict Meets).Reachable table) :
    (∃ listed, table.Consistent listed) ∧
      ∀ label, table.Enabled label → (table.Works label ↔ table.Meets label) := by
  have shape : table.Shape := by
    apply (machine.restrict Meets).invariant (fun _ start => Start.shape start) _ reachable
    rintro before label after shape ⟨meets, enabled, result, called⟩
    obtain ⟨_, reached, returned, -, kept⟩ := shape.call enabled meets
    have same : reached = after :=
      congrArg Prod.snd (Option.some.inj (returned.symm.trans called))
    exact same ▸ kept
  refine ⟨shape.consistent, fun label enabled => ⟨shape.meets enabled, fun meets => ?_⟩⟩
  obtain ⟨result, after, returned, answers, kept⟩ := shape.call enabled meets
  exact ⟨result, after, returned, answers, kept.consistent⟩

def noFiles : OpenFiles where
  files := ⟨fun _ => 0, fun _ => 0, fun _ => 0, fun _ => 0, fun _ => 0, fun _ => 0, fun _ => none,
    fun _ => 0, fun _ => 0, fun _ => 0, fun _ => 0, fun _ => 0, 0, 0, 0, 0, 0⟩
  openFiles := 0
  lastOpenFile := 0
  handles := []
  opens := []

theorem noFiles_start : noFiles.Start := ⟨rfl, rfl, rfl, rfl⟩

def firstOpen : FileCall := .openFile 7 [47, 97] (some ⟨9, some [47, 97]⟩) 4096

theorem firstOpen_enabled (table : OpenFiles) : table.Enabled firstOpen := by
  refine ⟨by decide, fun opened isOpened => ?_⟩
  obtain rfl := Option.some.inj isOpened
  decide

def OnlyFirst (table : OpenFiles) (refs : Nat) : Prop :=
  table.handles = [4116] ∧ table.opens = List.replicate refs (4116, 7, [47, 97]) ∧
    table.files.path 4116 = some [47, 97] ∧ table.files.refs 4116 = refs

instance (table : OpenFiles) (refs : Nat) : Decidable (table.OnlyFirst refs) :=
  inferInstanceAs (Decidable (_ ∧ _))

theorem OnlyFirst.meets_again (one : table.OnlyFirst 1) : table.Meets firstOpen := by
  obtain ⟨-, opens, path, refs⟩ := one
  refine Or.inr ⟨4116, ?_, path, ?_⟩
  · rw [opens]
    exact List.mem_singleton_self _
  · rw [refs]
    decide

theorem OnlyFirst.enabled_close {refs : Nat} (only : table.OnlyFirst refs) :
    table.Enabled (.closeFile 4116) := by
  refine Or.inr ?_
  rw [only.1]
  exact List.mem_singleton_self 4116

/-- The file is opened, opened again under its path and closed once; then it can be opened once
more, but its last reference cannot be closed. -/
theorem openFiles_consistent_reopened : ∃ table, (machine.restrict Meets).Reachable table ∧
    table.opens = [(4116, 7, [47, 97])] ∧ (∃ listed, table.Consistent listed) ∧
    table.Works firstOpen ∧ ¬ table.Works (.closeFile 4116) := by
  have ran : ((noFiles.call firstOpen).bind fun first => (first.2.call firstOpen).bind fun second =>
      (second.2.call (.closeFile 4116)).map fun third =>
        decide (first.2.OnlyFirst 1 ∧ second.2.OnlyFirst 2 ∧ third.2.OnlyFirst 1)) =
      some true := by decide +kernel
  obtain ⟨⟨file, first⟩, opened, rest⟩ := Option.bind_eq_some_iff.mp ran
  obtain ⟨⟨again, second⟩, reopened, rest⟩ := Option.bind_eq_some_iff.mp rest
  obtain ⟨⟨result, table⟩, closed, fields⟩ := Option.map_eq_some_iff.mp rest
  obtain ⟨once, twice, left⟩ := of_decide_eq_true fields
  have firstMeets : noFiles.Meets firstOpen := Or.inl ⟨rfl, rfl⟩
  have notLast : second.Meets (.closeFile 4116) := by
    refine Or.inr ?_
    rw [twice.2.2.2]
    decide
  have reachable : (machine.restrict Meets).Reachable table :=
    (machine.restrict Meets).reachable_step
      ((machine.restrict Meets).reachable_step
        ((machine.restrict Meets).reachable_step
          ((machine.restrict Meets).reachable_start noFiles_start)
          ⟨firstMeets, firstOpen_enabled noFiles, file, opened⟩)
        ⟨once.meets_again, firstOpen_enabled first, again, reopened⟩)
      ⟨notLast, twice.enabled_close, result, closed⟩
  obtain ⟨consistent, exact⟩ := openFiles_consistent reachable
  refine ⟨table, reachable, left.2.1, consistent,
    (exact firstOpen (firstOpen_enabled table)).mpr left.meets_again, fun works => ?_⟩
  rcases (exact (.closeFile 4116) left.enabled_close).mp works with isNull | notOne
  · exact absurd isNull (by decide)
  · exact notOne left.2.2.2

/-- A file that was opened and closed is still in the list. -/
theorem closedFile_staysListed : ∃ table, machine.Reachable table ∧ table.opens = [] ∧
    ¬ ∃ listed, table.Consistent listed := by
  have ran : ((noFiles.call firstOpen).bind fun first => (first.2.call (.closeFile 4116)).map
      fun second => (first.2.handles, second.2.opens.length, second.2.openFiles,
        second.2.handles, second.2.files.refs 4116)) = some ([4116], 0, 4116, [4116], 0) := by
    decide +kernel
  obtain ⟨⟨result, first⟩, opened, rest⟩ := Option.bind_eq_some_iff.mp ran
  obtain ⟨⟨other, second⟩, closed, fields⟩ := Option.map_eq_some_iff.mp rest
  simp only [Prod.mk.injEq] at fields
  obtain ⟨known, noOpens, openFiles, handles, refs⟩ := fields
  have closed : first.call (.closeFile 4116) = some (other, second) := closed
  have enabled : first.Enabled (.closeFile 4116) := Or.inr (by
    rw [known]
    exact List.mem_singleton_self 4116)
  have start := machine.reachable_start noFiles_start
  have reachable := machine.reachable_step
    (machine.reachable_step start ⟨firstOpen_enabled noFiles, result, opened⟩) ⟨enabled, other, closed⟩
  refine ⟨second, reachable, List.length_eq_zero_iff.mp noOpens, ?_⟩
  rintro ⟨listed, consistent⟩
  have isListed := consistent.open_iff 4116 (by rw [handles]; decide)
  have chain := consistent.chain
  rw [openFiles] at chain
  cases listed with
  | nil => exact absurd (show 4116 = 0 from chain) (by decide)
  | cons head rest =>
      have positive := isListed.mp (chain.1 ▸ List.mem_cons_self)
      omega

end DoggOS.Fs.OpenFiles

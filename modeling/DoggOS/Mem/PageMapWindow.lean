/-
The windows of the page map, over any calls that map and unmap small pages.

The calls run on the page map that `k_mem_Init` leaves, with the page tables taken
from the physical pages that are left.  A call below `0xff800000` keeps the
window; one that maps above it hangs its page table into slot `0x3fe`, where the
window shows the page table of the window, and no call brings that back.
-/

import DoggOS.Library.Machine
import DoggOS.Mem.PageMapInit

namespace DoggOS.Mem

inductive WindowCall where
  | map (linearAddress physicalAddress flags : Nat)
  | unmap (linearAddress : Nat)
deriving DecidableEq, Repr

namespace WindowCall

def linearAddress : WindowCall → Nat
  | map linearAddress _ _ => linearAddress
  | unmap linearAddress => linearAddress

def Accepted (call : WindowCall) : Prop :=
  (0 < call.linearAddress ∧ call.linearAddress < 0xffc00000) ∧
    match call with
    | map _ _ flags => flags < 4096 ∧ ¬ hasFlag flags pentryFlagBigPage
    | unmap _ => True

def BelowWindow : WindowCall → Prop
  | map linearAddress _ _ => linearAddress < 0xff800000
  | unmap _ => True

def next (state : PageMap × PRList) : WindowCall → Option (PageMap × PRList)
  | map linearAddress physicalAddress flags =>
      (state.1.mapLinearAddress (fun pages => pages.allocPhysicalPage 0) state.2 linearAddress
        physicalAddress flags).map Prod.snd
  | unmap linearAddress =>
      (state.1.unmapLinearAddress linearAddress).map (fun result => (result.2, state.2))

end WindowCall

namespace PageMap

/-- The addresses of the window resolve to the directory, to the page table of the window and to
the page table of each directory entry in use. -/
structure WindowIntact (map : PageMap) (pdir ptable : Nat) : Prop where
  directory : map.walk (pentryPagePointer pmapPdirIndex) = some pdir
  ptable : map.walk (pentryPagePointer pmapPtableIndex) = some ptable
  tables : ∀ index, index < pmapPtableIndex → map.TableUsed index →
    map.walk (pentryPagePointer index) = some (map.table index)

theorem walk_pentryPagePointer {map : PageMap} {index page : Nat} (selfMapped : map.SelfMapped)
    (shows : map.Shows index page) (inPtable : index < 1024) :
    map.walk (pentryPagePointer index) = some page := by
  have atStart : pentryPointer index 0 = pentryPagePointer index := Nat.add_zero _
  rw [← atStart]
  exact walk_pentryPointer selfMapped shows inPtable (by decide)

namespace Kept

variable {map : PageMap} {physical : PRList} {pdir ptable linearAddress : Nat}

theorem windowIntact (kept : Kept pdir ptable map physical) : map.WindowIntact pdir ptable := by
  have window := kept.copies.window
  refine ⟨?_, ?_, fun index below used => ?_⟩
  · rw [← kept.atPdir]
    exact walk_pentryPagePointer window.selfMapped window.showsPdir (by decide)
  · rw [← kept.atPtable]
    exact walk_pentryPagePointer window.selfMapped window.showsPtable (by decide)
  · exact walk_pentryPagePointer window.selfMapped (kept.copies.shows below used)
      (Nat.lt_trans below (by decide))

/-! ### Calls below the slot of the window -/

theorem readTable (kept : Kept pdir ptable map physical) {index entryIndex : Nat}
    (below : index < pmapPtableIndex) (used : map.TableUsed index) (inTable : entryIndex < 1024) :
    map.readEntry (pentryPointer index entryIndex) = some (map.mem (map.table index) entryIndex) :=
  readEntry_window kept.copies.window.selfMapped (kept.copies.shows below used)
    (Nat.lt_trans below (by decide)) inTable

theorem writeTable (kept : Kept pdir ptable map physical) {index entryIndex : Nat}
    (below : index < pmapPtableIndex) (used : map.TableUsed index) (inTable : entryIndex < 1024)
    (entry : Nat) : ∃ after, map.writeEntry (pentryPointer index entryIndex) entry = some after ∧
      Kept pdir ptable after physical := by
  obtain ⟨notDirectory, notPtable⟩ := kept.copies.tableApart index below used
  refine ⟨_, ?_, kept.store notDirectory notPtable entryIndex entry⟩
  exact writeEntry_window kept.copies.window.selfMapped (kept.copies.shows below used)
    (Nat.lt_trans below (by decide)) inTable entry

theorem bindEntry (kept : Kept pdir ptable map physical) (below : linearAddress < 0xff800000)
    (used : map.TableUsed (pdirIndex linearAddress)) (physicalAddress : Nat) {flags : Nat}
    (notBig : ¬ hasFlag flags pentryFlagBigPage) : ∃ status after,
      map.bindEntry linearAddress physicalAddress (mapFlags flags) = some (status, after) ∧
        Kept pdir ptable after physical := by
  obtain ⟨-, -, -, inDirectory, inTable, -⟩ := indices below
  have window := kept.copies.window
  obtain ⟨status, after, ran, same | stored⟩ := bindEntry_shown window.selfMapped window.showsPdir
    (kept.copies.shows inDirectory used) (show pdirIndex linearAddress < 1024 by omega) inTable
    (kept.copies.small _ inDirectory used) physicalAddress notBig
  · rw [same] at ran
    exact ⟨status, map, ran, kept⟩
  · obtain ⟨notDirectory, notPtable⟩ := kept.copies.tableApart _ inDirectory used
    rw [stored] at ran
    exact ⟨status, _, ran, kept.store notDirectory notPtable _ _⟩

theorem mapLinearAddress (kept : Kept pdir ptable map physical) (positive : 0 < linearAddress)
    (below : linearAddress < 0xff800000) (physicalAddress : Nat) {flags : Nat}
    (low : flags < 4096) (notBig : ¬ hasFlag flags pentryFlagBigPage) : ∃ status after left,
      map.mapLinearAddress (fun pages => pages.allocPhysicalPage 0) physical linearAddress
        physicalAddress flags = some (status, after, left) ∧ Kept pdir ptable after left := by
  obtain ⟨-, -, -, inDirectory, -⟩ := indices below
  have accepted := not_forbidden positive below
  have readDirectory := kept.copies.window.readPdir (show pdirIndex linearAddress < 1024 by omega)
  by_cases used : map.TableUsed (pdirIndex linearAddress)
  · obtain ⟨status, after, bound, keptAfter⟩ := kept.bindEntry below used physicalAddress notBig
    rw [mapLinearAddress_bind _ _ accepted readDirectory (.inl used), bound]
    exact ⟨status, after, physical, rfl, keptAfter⟩
  · obtain ⟨keptLeft, aligned, word, notDirectory, notPtable⟩ := kept.alloc 0
    obtain ⟨present, entryUsed, small, named⟩ := entry_mapFlags aligned word low notBig
    obtain ⟨middle, created, adds⟩ := kept.copies.window.addPageTable
      (Nat.lt_trans inDirectory (by decide)) present named notDirectory notPtable
    have keptMiddle := keptLeft.adds adds inDirectory present small named
    obtain ⟨status, after, bound, keptAfter⟩ := keptMiddle.bindEntry below
      (adds.tableUsed_self.mpr entryUsed) physicalAddress notBig
    rw [mapLinearAddress_addTable (fun pages : PRList => pages.allocPhysicalPage 0) physical accepted
      readDirectory used notBig created, bound]
    exact ⟨status, after, _, rfl, keptAfter⟩

theorem unmapLinearAddress (kept : Kept pdir ptable map physical) (positive : 0 < linearAddress)
    (accepted : linearAddress < 0xffc00000) : ∃ status after,
      map.unmapLinearAddress linearAddress = some (status, after) ∧
        Kept pdir ptable after physical := by
  have notForbidden : ¬ Forbidden linearAddress := by
    have window : pentryPagePointer 0 = 0xffc00000 := rfl
    unfold Forbidden
    rw [window]
    omega
  have inPtable : pdirIndex linearAddress ≤ pmapPtableIndex := by
    rw [pdirIndex_eq, show pmapPtableIndex = 1022 from rfl]
    omega
  have inTable : ptableIndex linearAddress < 1024 := by
    rw [ptableIndex_eq]
    omega
  have readDirectory := kept.copies.window.readPdir
    (show pdirIndex linearAddress < 1024 from Nat.lt_of_le_of_lt inPtable (by decide))
  unfold PageMap.unmapLinearAddress
  simp only [if_neg notForbidden, readDirectory, Option.bind_eq_bind, Option.bind_some]
  by_cases used : map.TableUsed (pdirIndex linearAddress)
  · have below : pdirIndex linearAddress < pmapPtableIndex :=
      Nat.lt_of_le_of_ne inPtable fun reserved => kept.copies.reserved (reserved ▸ used)
    have entryUsed : hasFlag (map.mem map.cr3 (pdirIndex linearAddress)) pentryFlagUsed := used
    obtain ⟨after, written, keptAfter⟩ := kept.writeTable below used inTable 0
    simp only [entryUsed, not_true_eq_false, if_false, if_neg (kept.copies.small _ below used),
      kept.readTable below used inTable, written, Option.bind_some]
    by_cases pageUsed : hasFlag (map.mem (map.table (pdirIndex linearAddress))
        (ptableIndex linearAddress)) pentryFlagUsed
    · simp only [pageUsed, not_true_eq_false, if_false]
      exact ⟨_, after, rfl, keptAfter⟩
    · simp only [pageUsed, not_false_eq_true, if_true]
      exact ⟨_, map, rfl, kept⟩
  · have entryUnused : ¬ hasFlag (map.mem map.cr3 (pdirIndex linearAddress)) pentryFlagUsed := used
    simp only [entryUnused, not_false_eq_true, if_true]
    exact ⟨_, map, rfl, kept⟩

/-! ### A call into the slot of the window -/

/-- The call puts its own page table where the window shows the page table of the window. -/
theorem mapLinearAddress_window (kept : Kept pdir ptable map physical)
    (above : 0xff800000 ≤ linearAddress) (accepted : linearAddress < 0xffc00000)
    (physicalAddress : Nat) {flags : Nat} (low : flags < 4096)
    (notBig : ¬ hasFlag flags pentryFlagBigPage) : ∃ status after left,
      map.mapLinearAddress (fun pages => pages.allocPhysicalPage 0) physical linearAddress
        physicalAddress flags = some (status, after, left) ∧
      after.walk (pentryPagePointer pmapPtableIndex) ≠ some ptable := by
  have notForbidden : ¬ Forbidden linearAddress := by
    have window : pentryPagePointer 0 = 0xffc00000 := rfl
    unfold Forbidden
    rw [window]
    omega
  have atSlot : pdirIndex linearAddress = pmapPtableIndex := by
    rw [pdirIndex_eq, show pmapPtableIndex = 1022 from rfl]
    omega
  have inTable : ptableIndex linearAddress < 1024 := by
    rw [ptableIndex_eq]
    omega
  have readDirectory := kept.copies.window.readPdir (show pdirIndex linearAddress < 1024 by
    rw [atSlot]
    decide)
  obtain ⟨-, aligned, word, notDirectory, notPtable⟩ := kept.alloc 0
  obtain ⟨pageTable, pageTableEq⟩ : ∃ pageTable, pageTable = (physical.allocPhysicalPage 0).1 :=
    ⟨_, rfl⟩
  rw [← pageTableEq] at aligned word notDirectory notPtable
  obtain ⟨present, -, small, named⟩ := entry_mapFlags aligned word low notBig
  obtain ⟨middle, created, adds⟩ := kept.copies.window.addPageTable
    (show pmapPtableIndex < pmapPdirIndex by decide) present named notDirectory notPtable
  have same := adds.sameWindow (by decide)
  have selfMapped := same.selfMapped kept.copies.window.selfMapped
  have showsPdir : middle.Shows pmapPdirIndex middle.cr3 := by
    unfold Shows
    rw [same.ptable, adds.window, if_neg (by decide), adds.cr3]
    exact kept.copies.window.showsPdir
  have showsTable : middle.Shows pmapPtableIndex pageTable := by
    unfold Shows
    rw [same.ptable, adds.window, if_pos rfl]
    exact ⟨present, named⟩
  have bound : middle.bindEntry linearAddress physicalAddress (mapFlags flags) = some (.ok,
      middle.store pageTable (ptableIndex linearAddress) (physicalAddress ||| mapFlags flags)) := by
    have readEntry := readEntry_window selfMapped showsPdir (by decide)
      (show pmapPtableIndex < 1024 by decide)
    have readTable := readEntry_window selfMapped showsTable (by decide) inTable
    have notBigFlags : ¬ hasFlag (mapFlags flags) pentryFlagBigPage := by
      rw [hasFlag_mapFlags_bigPage]
      exact notBig
    rw [adds.cr3, adds.directory, if_pos rfl] at readEntry
    rw [adds.cleared inTable] at readTable
    unfold PageMap.bindEntry
    simp only [atSlot, readEntry, readTable, Option.bind_eq_bind, Option.bind_some, if_neg small,
      if_neg notBigFlags, if_neg (not_hasFlag_zero pentryFlagUsed),
      writeEntry_window selfMapped showsTable (by decide) inTable]
    rfl
  rw [mapLinearAddress_addTable (fun pages : PRList => pages.allocPhysicalPage 0) physical
    notForbidden readDirectory (fun used => kept.copies.reserved (atSlot ▸ used)) notBig
    (by rw [atSlot, ← pageTableEq]; exact created), bound]
  refine ⟨_, _, _, rfl, ?_⟩
  obtain ⟨after, afterEq⟩ : ∃ after, after = middle.store pageTable (ptableIndex linearAddress)
      (physicalAddress ||| mapFlags flags) := ⟨_, rfl⟩
  have sameAfter : SameWindow middle after := by
    rw [afterEq]
    exact ⟨rfl, store_mem_of_ne middle _ (.inl (adds.cr3 ▸ Ne.symm notDirectory))⟩
  have showsAfter : after.Shows pmapPtableIndex pageTable := by
    unfold Shows
    rw [sameAfter.ptable, afterEq, store_mem_of_ne middle _ (.inl (same.ptable ▸ Ne.symm notPtable))]
    exact showsTable
  rw [← afterEq, walk_pentryPagePointer (sameAfter.selfMapped selfMapped) showsAfter (by decide),
    ← kept.atPtable]
  exact fun same => notPtable (Option.some_inj.mp same)

/-! ### Runs -/

theorem next (kept : Kept pdir ptable map physical) {call : WindowCall} (accepted : call.Accepted)
    (below : call.BelowWindow) : ∃ after, call.next (map, physical) = some after ∧
      Kept pdir ptable after.1 after.2 := by
  cases call with
  | map linearAddress physicalAddress flags =>
      obtain ⟨status, after, left, ran, keptAfter⟩ := kept.mapLinearAddress accepted.1.1 below
        physicalAddress accepted.2.1 accepted.2.2
      exact ⟨(after, left), congrArg (Option.map Prod.snd) ran, keptAfter⟩
  | unmap linearAddress =>
      obtain ⟨status, after, ran, keptAfter⟩ := kept.unmapLinearAddress accepted.1.1 accepted.1.2
      exact ⟨(after, physical), congrArg (Option.map fun result : Status × PageMap =>
        (result.2, physical)) ran,
        keptAfter⟩

theorem follow (kept : Kept pdir ptable map physical) {calls : List WindowCall}
    (accepted : ∀ call ∈ calls, call.Accepted) (below : ∀ call ∈ calls, call.BelowWindow) :
    ∃ last, Machine.follow WindowCall.next (map, physical) calls = some last ∧
      Kept pdir ptable last.1 last.2 := by
  induction calls generalizing map physical with
  | nil => exact ⟨(map, physical), rfl, kept⟩
  | cons call rest ih =>
      obtain ⟨middle, ran, keptMiddle⟩ := kept.next (accepted call List.mem_cons_self)
        (below call List.mem_cons_self)
      obtain ⟨last, ranRest, keptLast⟩ := ih keptMiddle
        (fun other member => accepted other (List.mem_cons_of_mem _ member))
        (fun other member => below other (List.mem_cons_of_mem _ member))
      refine ⟨last, ?_, keptLast⟩
      rw [Machine.follow, ran]
      exact ranRest

/-- The first call above the window ends what the windows show. -/
theorem below_of_intact (kept : Kept pdir ptable map physical) {calls : List WindowCall}
    (accepted : ∀ call ∈ calls, call.Accepted)
    (intact : ∀ front back, calls = front ++ back → ∃ last,
      Machine.follow WindowCall.next (map, physical) front = some last ∧
        last.1.WindowIntact pdir ptable) : ∀ call ∈ calls, call.BelowWindow := by
  induction calls generalizing map physical with
  | nil =>
      intro call member
      cases member
  | cons call rest ih =>
      have acceptedCall := accepted call List.mem_cons_self
      have below : call.BelowWindow := by
        cases call with
        | unmap linearAddress => trivial
        | map linearAddress physicalAddress flags =>
            by_contra above
            obtain ⟨status, after, left, ran, broken⟩ := kept.mapLinearAddress_window
              (Nat.le_of_not_lt above) acceptedCall.1.2 physicalAddress acceptedCall.2.1
              acceptedCall.2.2
            obtain ⟨last, followed, intactLast⟩ := intact [_] rest rfl
            simp only [Machine.follow, WindowCall.next, ran, Option.map_some, Option.bind_some,
              Option.some_inj] at followed
            rw [← followed] at intactLast
            exact broken intactLast.ptable
      obtain ⟨middle, ran, keptMiddle⟩ := kept.next acceptedCall below
      have later := ih keptMiddle
        (fun other member => accepted other (List.mem_cons_of_mem _ member))
        (fun front back split => by
          obtain ⟨last, followed, intactLast⟩ := intact (call :: front) back (by rw [split]; rfl)
          rw [Machine.follow, ran] at followed
          exact ⟨last, followed, intactLast⟩)
      intro other member
      cases member with
      | head => exact below
      | tail _ inRest => exact later other inRest

end Kept

end PageMap

/-- From the page map of `k_mem_Init` on, the windows stay intact after every call exactly when no
call maps a page into the slot of the window's own page table. -/
theorem windows_intact_iff (mem : Nat → Nat → Nat) (physical : PRList) (stacked : physical.Stacked)
    (pdirPage : (PageMap.windowPages physical).1 ≠ nullPage)
    (ptablePage : (PageMap.windowPages physical).2.1 ≠ nullPage)
    (turns : Nat) (data : List (Nat × Nat))
    (outside : ∀ block ∈ data, PageMap.SlotOutside block.1 (block.1 + block.2))
    (list list' : VrList) (map : PageMap) (left : PRList)
    (built : mapAllKernelData turns data list (PageMap.initWindow mem physical).1
      (PageMap.initWindow mem physical).2 = some (list', map, left))
    (calls : List WindowCall) (accepted : ∀ call ∈ calls, call.Accepted) :
    (∀ front back, calls = front ++ back → ∃ last,
      Machine.follow WindowCall.next (map, left) front = some last ∧
        last.1.WindowIntact (PageMap.windowPages physical).1 (PageMap.windowPages physical).2.1) ↔
      ∀ call ∈ calls, call.BelowWindow := by
  have kept := (PageMap.initWindow_kept mem stacked pdirPage ptablePage).mapAllKernelData outside
    built
  constructor
  · exact kept.below_of_intact accepted
  · intro below front back split
    obtain ⟨last, followed, keptLast⟩ := kept.follow
      (fun call member => accepted call (split ▸ List.mem_append_left _ member))
      (fun call member => below call (split ▸ List.mem_append_left _ member))
    exact ⟨last, followed, keptLast.windowIntact⟩

/-- The page map of `k_mem_Init` over these pages, before kernel data. -/
def eightPagesWindow : PageMap × PRList := PageMap.initWindow (fun _ _ => 0) eightPages

theorem windows_intact_iff_small :
    (∀ front back, [.map 0x5000 0x9000 2, .unmap 0x5000] = front ++ back → ∃ last,
      Machine.follow WindowCall.next eightPagesWindow front = some last ∧
        last.1.WindowIntact (PageMap.windowPages eightPages).1
          (PageMap.windowPages eightPages).2.1) ↔
      ∀ call ∈ [WindowCall.map 0x5000 0x9000 2, .unmap 0x5000], call.BelowWindow := by
  refine windows_intact_iff (fun _ _ => 0) eightPages eightPages_stacked (by decide) (by decide) 1 []
    ?_ ⟨0, 0, fun _ => ⟨0, 0⟩⟩ _ eightPagesWindow.1 eightPagesWindow.2 rfl
    [.map 0x5000 0x9000 2, .unmap 0x5000] ?_
  · intro block member
    cases member
  · intro call member
    simp only [List.mem_cons, List.not_mem_nil, or_false] at member
    rcases member with rfl | rfl
    · exact ⟨by decide, by decide⟩
    · exact ⟨by decide, trivial⟩

/-- One small page mapped at `0xff800000` takes the page table of the window out of the window. -/
theorem map_breaks_window :
    (WindowCall.map 0xff800000 0x9000 2).Accepted ∧ ¬ ∃ last,
      Machine.follow WindowCall.next eightPagesWindow [.map 0xff800000 0x9000 2] = some last ∧
        last.1.WindowIntact (PageMap.windowPages eightPages).1
          (PageMap.windowPages eightPages).2.1 := by
  have accepted : (WindowCall.map 0xff800000 0x9000 2).Accepted := ⟨by decide, by decide⟩
  refine ⟨accepted, ?_⟩
  rintro ⟨last, followed, intact⟩
  have kept := PageMap.initWindow_kept (fun _ _ => 0) eightPages_stacked (by decide) (by decide)
  have accepts : ∀ call ∈ [WindowCall.map 0xff800000 0x9000 2], call.Accepted := by
    intro call member
    rw [List.mem_singleton.mp member]
    exact accepted
  have below := kept.below_of_intact accepts (fun front back split => ?_)
    (.map 0xff800000 0x9000 2) (by simp)
  · exact absurd below (by unfold WindowCall.BelowWindow; decide)
  · rcases List.append_eq_singleton_iff.mp split.symm with ⟨none, -⟩ | ⟨all, -⟩
    · rw [none]
      exact ⟨_, rfl, kept.windowIntact⟩
    · rw [all]
      exact ⟨last, followed, intact⟩

end DoggOS.Mem

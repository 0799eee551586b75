/-
Who may access a page after it was mapped.

An access from user mode needs the flag in the directory entry and in the entry
of the page.  The second is the page's own; the first is that of the slot of
4 MiB, which gets the flags of the page that made the page table and keeps
them.  So what a later page of the slot asks for depends on the page before it.
-/

import DoggOS.Mem.PageMapInit

namespace DoggOS.Mem

structure MapRequest.IsSmallPage (page : MapRequest) : Prop where
  positive : 0 < page.linearAddress
  below : page.linearAddress < 0xff800000
  aligned : page.physicalAddress % 4096 = 0
  word : page.physicalAddress < 2 ^ 32
  low : page.flags < 4096
  small : ¬ hasFlag page.flags pentryFlagBigPage

def MapRequest.ForUser (page : MapRequest) : Prop := hasFlag page.flags pentryFlagUserModeAccess

namespace PageMap

variable {Pages : Type}

/-- The calls succeed one after the other, and each page table that is made gets a page that is no
page table yet. -/
inductive MapsAll (allocPhysicalPage : Pages → Nat × Pages) :
    PageMap → Pages → List MapRequest → PageMap → Prop
  | nil {map : PageMap} {pages : Pages} : MapsAll allocPhysicalPage map pages [] map
  | cons {map middle after : PageMap} {pages left : Pages} {page : MapRequest}
      {rest : List MapRequest}
      (spare : ¬ map.TableUsed (pdirIndex page.linearAddress) →
        map.SpareTable (allocPhysicalPage pages).1)
      (ran : map.mapLinearAddress allocPhysicalPage pages page.linearAddress page.physicalAddress
        page.flags = some (.ok, middle, left))
      (later : MapsAll allocPhysicalPage middle left rest after) :
      MapsAll allocPhysicalPage map pages (page :: rest) after

/-- The rule of the MMU for an access from user mode. -/
structure UserAccessible (map : PageMap) (linearAddress : Nat) : Prop where
  mapped : map.binding (linearAddress / 4096) ≠ none
  directory : hasFlag (map.mem map.cr3 (pdirIndex linearAddress)) pentryFlagUserModeAccess
  table : hasFlag (map.mem (map.table (pdirIndex linearAddress)) (ptableIndex linearAddress))
    pentryFlagUserModeAccess

/-- The directory entry of a slot allows user mode: its own flags when it is in use, and otherwise
those of the first page that is mapped below it. -/
def SlotAllows (map : PageMap) (pages : List MapRequest) (slot : Nat) : Prop :=
  if map.TableUsed slot then hasFlag (map.mem map.cr3 slot) pentryFlagUserModeAccess
  else ∀ first ∈ pages.find? (fun page => decide (pdirIndex page.linearAddress = slot)),
    first.ForUser

variable {allocPhysicalPage : Pages → Nat × Pages} {map middle after : PageMap} {pages : Pages}
  {page : MapRequest} {calls : List MapRequest}

theorem hasFlag_user_entry {address flags : Nat} (aligned : address % 4096 = 0) :
    hasFlag (address ||| mapFlags flags) pentryFlagUserModeAccess ↔
      hasFlag flags pentryFlagUserModeAccess := by
  have notAddress : ¬ hasFlag address pentryFlagUserModeAccess := by
    rw [show pentryFlagUserModeAccess = 2 ^ 2 from rfl, hasFlag_two_pow]
    omega
  unfold mapFlags
  rw [hasFlag_or, hasFlag_or, or_iff_right notAddress]
  exact or_iff_left (by decide)

namespace Bound

variable {pageTable : Nat}

theorem directory_self (bound : map.Bound middle page.linearAddress page.physicalAddress page.flags
    pageTable) (aligned : ¬ map.TableUsed (pdirIndex page.linearAddress) → pageTable % 4096 = 0)
    (rest : List MapRequest) :
    hasFlag (middle.mem middle.cr3 (pdirIndex page.linearAddress)) pentryFlagUserModeAccess ↔
      map.SlotAllows (page :: rest) (pdirIndex page.linearAddress) := by
  unfold SlotAllows
  rw [bound.cr3, bound.directory]
  by_cases used : map.TableUsed (pdirIndex page.linearAddress)
  · rw [if_neg fun both => both.2 used, if_pos used]
  · rw [if_pos ⟨rfl, used⟩, if_neg used, hasFlag_user_entry (aligned used)]
    simp [MapRequest.ForUser]

/-- A call in one slot says nothing about another. -/
theorem slotAllows (bound : map.Bound middle page.linearAddress page.physicalAddress page.flags
    pageTable) {slot : Nat} (other : slot ≠ pdirIndex page.linearAddress) (rest : List MapRequest) :
    middle.SlotAllows rest slot ↔ map.SlotAllows (page :: rest) slot := by
  have sameEntry : middle.mem middle.cr3 slot = map.mem map.cr3 slot := by
    rw [bound.cr3, bound.directory, if_neg fun both => other both.1]
  have sameUsed : middle.TableUsed slot ↔ map.TableUsed slot := by
    unfold TableUsed
    rw [sameEntry]
  unfold SlotAllows
  rw [sameEntry, List.find?_cons_of_neg (by simpa using Ne.symm other)]
  simp only [sameUsed]

end Bound

namespace MapsAll

theorem bound {left : Pages} (formed : map.Formed) (valid : page.IsSmallPage)
    (spare : ¬ map.TableUsed (pdirIndex page.linearAddress) →
      map.SpareTable (allocPhysicalPage pages).1)
    (ran : map.mapLinearAddress allocPhysicalPage pages page.linearAddress page.physicalAddress
      page.flags = some (.ok, middle, left)) :
    map.binding (page.linearAddress / 4096) = none ∧
      map.Bound middle page.linearAddress page.physicalAddress page.flags
        (allocPhysicalPage pages).1 :=
  formed.mapLinearAddress_ok valid.positive valid.below valid.word valid.low valid.small spare ran

/-- A directory entry in use stays as it is. -/
theorem keeps_directory (mapsAll : MapsAll allocPhysicalPage map pages calls after)
    (formed : map.Formed) (valid : ∀ call ∈ calls, call.IsSmallPage) {slot : Nat}
    (used : map.TableUsed slot) : after.cr3 = map.cr3 ∧
      after.mem map.cr3 slot = map.mem map.cr3 slot := by
  induction mapsAll with
  | nil => exact ⟨rfl, rfl⟩
  | cons spare ran later ih =>
      obtain ⟨-, first⟩ := bound formed (valid _ List.mem_cons_self) spare ran
      have sameEntry := first.directory slot
      rw [if_neg fun both => both.2 (both.1 ▸ used)] at sameEntry
      have middleUsed := used
      unfold TableUsed at middleUsed
      rw [← sameEntry, ← first.cr3] at middleUsed
      obtain ⟨sameCr3, kept⟩ := ih first.formed
        (fun other member => valid other (List.mem_cons_of_mem _ member)) middleUsed
      rw [first.cr3] at sameCr3 kept
      exact ⟨sameCr3, kept.trans sameEntry⟩

/-- An entry in use of a page table stays as it is. -/
theorem keeps_entry (mapsAll : MapsAll allocPhysicalPage map pages calls after)
    (formed : map.Formed) (valid : ∀ call ∈ calls, call.IsSmallPage) {slot place : Nat}
    (below : slot < 1022) (tableAt : map.TableAt slot)
    (used : hasFlag (map.mem (map.table slot) place) pentryFlagUsed) :
    after.mem (map.table slot) place = map.mem (map.table slot) place := by
  induction mapsAll with
  | nil => rfl
  | @cons map middle after pages left page rest spare ran later ih =>
      have validPage := valid _ List.mem_cons_self
      obtain ⟨unmapped, first⟩ := bound formed validPage spare ran
      obtain ⟨atDirectory, atTable, inRange, -⟩ := indices validPage.below
      have different : slot ≠ pdirIndex page.linearAddress ∨
          place ≠ ptableIndex page.linearAddress := by
        by_contra same
        push Not at same
        rw [formed.binding_of_table inRange (by rw [← atDirectory, ← same.1]; exact tableAt),
          ← atDirectory, ← atTable, ← same.1, ← same.2, if_pos used] at unmapped
        cases unmapped
      have sameEntry := first.entries slot below tableAt place different
      have sameDirectory := first.directory slot
      rw [if_neg fun both => both.2 (both.1 ▸ tableAt.1)] at sameDirectory
      have sameTable : middle.table slot = map.table slot := by
        unfold table
        rw [first.cr3, sameDirectory]
      have middleAt : middle.TableAt slot := by
        unfold TableAt TableUsed
        rw [first.cr3, sameDirectory]
        exact tableAt
      have kept := ih first.formed (fun other member => valid other (List.mem_cons_of_mem _ member))
        middleAt (by rw [sameTable, sameEntry]; exact used)
      rw [sameTable] at kept
      exact kept.trans sameEntry

theorem keeps_binding (mapsAll : MapsAll allocPhysicalPage map pages calls after)
    (formed : map.Formed) (valid : ∀ call ∈ calls, call.IsSmallPage) {number : Nat}
    (inRange : number < 1022 * 1024) (mapped : map.binding number ≠ none) :
    after.binding number ≠ none := by
  induction mapsAll with
  | nil => exact mapped
  | cons spare ran later ih =>
      obtain ⟨-, first⟩ := bound formed (valid _ List.mem_cons_self) spare ran
      refine ih first.formed (fun other member => valid other (List.mem_cons_of_mem _ member)) ?_
      rw [first.bindings number inRange]
      split_ifs
      · exact Option.some_ne_none _
      · exact mapped

theorem directory (mapsAll : MapsAll allocPhysicalPage map pages calls after)
    (formed : map.Formed) (valid : ∀ call ∈ calls, call.IsSmallPage) {slot : Nat}
    (inSlot : ∃ call ∈ calls, pdirIndex call.linearAddress = slot) :
    hasFlag (after.mem after.cr3 slot) pentryFlagUserModeAccess ↔ map.SlotAllows calls slot := by
  induction mapsAll with
  | nil =>
      obtain ⟨call, member, -⟩ := inSlot
      cases member
  | @cons map middle after pages left page rest spare ran later ih =>
      obtain ⟨-, first⟩ := bound formed (valid _ List.mem_cons_self) spare ran
      have validRest := fun other member => valid other (List.mem_cons_of_mem page member)
      by_cases here : slot = pdirIndex page.linearAddress
      · subst here
        obtain ⟨sameCr3, kept⟩ := later.keeps_directory first.formed validRest first.tableAt.1
        rw [sameCr3, kept]
        exact first.directory_self (fun unused => (spare unused).aligned) rest
      · obtain ⟨call, member, atSlot⟩ := inSlot
        have inRest : call ∈ rest := by
          cases member with
          | head => exact absurd atSlot.symm here
          | tail _ inRest => exact inRest
        rw [ih first.formed validRest ⟨call, inRest, atSlot⟩]
        exact first.slotAllows here rest

theorem entry (mapsAll : MapsAll allocPhysicalPage map pages calls after)
    (formed : map.Formed) (valid : ∀ call ∈ calls, call.IsSmallPage) {call : MapRequest}
    (member : call ∈ calls) : after.binding (call.linearAddress / 4096) ≠ none ∧
      (hasFlag (after.mem (after.table (pdirIndex call.linearAddress))
        (ptableIndex call.linearAddress)) pentryFlagUserModeAccess ↔ call.ForUser) := by
  induction mapsAll with
  | nil => cases member
  | @cons map middle after pages left page rest spare ran later ih =>
      have validPage := valid _ List.mem_cons_self
      obtain ⟨-, first⟩ := bound formed validPage spare ran
      have validRest := fun other member => valid other (List.mem_cons_of_mem page member)
      cases member with
      | tail _ inRest => exact ih first.formed validRest inRest
      | head =>
          obtain ⟨-, -, inRange, inDirectory, -⟩ := indices validPage.below
          have mapped : middle.binding (call.linearAddress / 4096) ≠ none := by
            rw [first.bindings _ inRange, if_pos rfl]
            exact Option.some_ne_none _
          obtain ⟨sameCr3, keptDirectory⟩ :=
            later.keeps_directory first.formed validRest first.tableAt.1
          have kept := later.keeps_entry first.formed validRest inDirectory first.tableAt
            (by rw [first.entry]; exact hasFlag_mapFlags_used _ _)
          have sameTable : after.table (pdirIndex call.linearAddress) =
              middle.table (pdirIndex call.linearAddress) := by
            unfold table
            rw [sameCr3, keptDirectory]
          refine ⟨later.keeps_binding first.formed validRest inRange mapped, ?_⟩
          rw [sameTable, kept, first.entry]
          exact hasFlag_user_entry validPage.aligned

theorem two {slot : Nat} {first second : MapRequest} (formed : map.Formed)
    (firstValid : first.IsSmallPage) (secondValid : second.IsSmallPage)
    (firstSlot : pdirIndex first.linearAddress = slot)
    (secondSlot : pdirIndex second.linearAddress = slot)
    (distinct : second.linearAddress / 4096 ≠ first.linearAddress / 4096)
    (unused : ¬ map.TableUsed slot) (spare : map.SpareTable (allocPhysicalPage pages).1) :
    ∃ after, MapsAll allocPhysicalPage map pages [first, second] after := by
  obtain ⟨atFirst, -, firstRange, -⟩ := indices firstValid.below
  obtain ⟨atSecond, -, secondRange, -⟩ := indices secondValid.below
  have firstFree := formed.binding_of_unused firstRange (by rw [← atFirst, firstSlot]; exact unused)
  have secondFree := formed.binding_of_unused secondRange
    (by rw [← atSecond, secondSlot]; exact unused)
  rcases formed.mapLinearAddress allocPhysicalPage pages firstValid.positive firstValid.below
    firstValid.word firstValid.low firstValid.small (fun _ => spare)
    (fun used => absurd (firstSlot ▸ used) unused) with ⟨inUse, -⟩ | ⟨-, middle, ran, bound⟩
  · exact absurd firstFree inUse
  · have middleAt : middle.TableAt (pdirIndex second.linearAddress) := by
      rw [secondSlot, ← firstSlot]
      exact bound.tableAt
    rcases bound.formed.mapLinearAddress allocPhysicalPage _ secondValid.positive secondValid.below
      secondValid.word secondValid.low secondValid.small
      (fun notUsed => absurd middleAt.1 notUsed) (fun _ => middleAt.2) with
      ⟨inUse, -⟩ | ⟨-, after, ranSecond, -⟩
    · rw [bound.bindings _ secondRange, if_neg distinct] at inUse
      exact absurd secondFree inUse
    · exact ⟨after, .cons (fun _ => spare) ran
        (.cons (fun notUsed => absurd middleAt.1 notUsed) ranSecond .nil)⟩

/-- A mapped page is user accessible when its slot and its own flags allow it. -/
theorem userAccessible_iff (mapsAll : MapsAll allocPhysicalPage map pages calls after)
    (formed : map.Formed) (valid : ∀ call ∈ calls, call.IsSmallPage) {call : MapRequest}
    (member : call ∈ calls) : after.UserAccessible call.linearAddress ↔
      map.SlotAllows calls (pdirIndex call.linearAddress) ∧ call.ForUser := by
  obtain ⟨mapped, entryUser⟩ := mapsAll.entry formed valid member
  have slotUser := mapsAll.directory formed valid ⟨call, member, rfl⟩
  constructor
  · rintro ⟨-, directory, table⟩
    exact ⟨slotUser.mp directory, entryUser.mp table⟩
  · rintro ⟨allows, forUser⟩
    exact ⟨mapped, slotUser.mpr allows, entryUser.mpr forUser⟩

end MapsAll

end PageMap

/-- Each page is user accessible exactly when its own flags say so, in whatever order the pages are
mapped, if and only if each page for the user lies in a slot that allows it. -/
theorem userAccessible_iff_forUser {Pages : Type} (allocPhysicalPage : Pages → Nat × Pages)
    (map : PageMap) (formed : map.Formed) (pages : Pages) (calls : List MapRequest)
    (valid : ∀ call ∈ calls, call.IsSmallPage) (after : PageMap)
    (mapsAll : PageMap.MapsAll allocPhysicalPage map pages calls after) :
    (∀ call ∈ calls, after.UserAccessible call.linearAddress ↔ call.ForUser) ↔
      ∀ call ∈ calls, call.ForUser → map.SlotAllows calls (pdirIndex call.linearAddress) := by
  constructor
  · intro own call member forUser
    have accessible := (own call member).mpr forUser
    exact ((mapsAll.userAccessible_iff formed valid member).mp accessible).1
  · intro allows call member
    rw [mapsAll.userAccessible_iff formed valid member]
    exact and_iff_right_of_imp (allows call member)

def userPage : MapRequest := ⟨0x5000, 0x9000, pentryFlagUserModeAccess⟩

def kernelPage : MapRequest := ⟨0x6000, 0xa000, 0⟩

theorem samplePages_valid : ∀ call ∈ [userPage, kernelPage], call.IsSmallPage := by
  intro call member
  simp only [List.mem_cons, List.not_mem_nil, or_false] at member
  rcases member with rfl | rfl
  · exact ⟨by decide, by decide, by decide, by decide, by decide, by decide⟩
  · exact ⟨by decide, by decide, by decide, by decide, by decide, by decide⟩

theorem userAccessible_iff_forUser_userFirst : ∃ after : PageMap,
    PageMap.MapsAll (fun pages : PRList => pages.allocPhysicalPage 0) selfMap eightPages
      [userPage, kernelPage] after ∧
    ((∀ call ∈ [userPage, kernelPage], after.UserAccessible call.linearAddress ↔ call.ForUser) ↔
      ∀ call ∈ [userPage, kernelPage], call.ForUser →
        selfMap.SlotAllows [userPage, kernelPage] (pdirIndex call.linearAddress)) := by
  have formed := selfMap_wellFormed.formed
  have atSlot : pdirIndex kernelPage.linearAddress = pdirIndex userPage.linearAddress := by decide
  obtain ⟨after, mapsAll⟩ : ∃ after, PageMap.MapsAll (fun pages : PRList =>
      pages.allocPhysicalPage 0) selfMap eightPages [userPage, kernelPage] after :=
    PageMap.MapsAll.two formed (samplePages_valid userPage (by simp)) (samplePages_valid kernelPage (by simp)) rfl
      atSlot (by decide) (selfMap_unused _ (by decide)) eightPages_spare
  exact ⟨after, mapsAll, userAccessible_iff_forUser (fun pages : PRList => pages.allocPhysicalPage 0)
    selfMap formed eightPages [userPage, kernelPage] samplePages_valid after mapsAll⟩

/-- The same two pages in the other order: the page for the user is not accessible. -/
theorem kernelFirst_locks_userPage : ∃ after : PageMap,
    PageMap.MapsAll (fun pages : PRList => pages.allocPhysicalPage 0) selfMap eightPages
      [kernelPage, userPage] after ∧
    ¬ ∀ call ∈ [kernelPage, userPage], after.UserAccessible call.linearAddress ↔ call.ForUser := by
  have formed := selfMap_wellFormed.formed
  have valid : ∀ call ∈ [kernelPage, userPage], call.IsSmallPage := fun call member =>
    samplePages_valid call ((List.Perm.swap ..).mem_iff.mp member)
  have atSlot : pdirIndex userPage.linearAddress = pdirIndex kernelPage.linearAddress := by decide
  obtain ⟨after, mapsAll⟩ : ∃ after, PageMap.MapsAll (fun pages : PRList =>
      pages.allocPhysicalPage 0) selfMap eightPages [kernelPage, userPage] after :=
    PageMap.MapsAll.two formed (valid kernelPage (by simp)) (valid userPage (by simp)) rfl atSlot (by decide)
      (selfMap_unused _ (by decide)) eightPages_spare
  refine ⟨after, mapsAll, fun own => ?_⟩
  have member : userPage ∈ [kernelPage, userPage] := by simp
  have accessible := (own userPage member).mpr (by unfold MapRequest.ForUser; decide)
  have allows := ((mapsAll.userAccessible_iff formed valid member).mp accessible).1
  unfold PageMap.SlotAllows at allows
  rw [if_neg (selfMap_unused _ (by decide))] at allows
  have first := allows kernelPage (by decide)
  unfold MapRequest.ForUser at first
  exact absurd first (by decide)

end DoggOS.Mem

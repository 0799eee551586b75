/-
The page map as a partial map from page numbers to physical pages.

`PageCall.apply` is what the four entry points are for: binding, unbinding and
looking up one page.  On a well-formed page map each of them returns what
`apply` returns, and the walk of the MMU afterwards finds exactly the bindings
that `apply` leaves; a run of calls is the same statement by induction.
-/

import DoggOS.Mem.PageMapWalk

namespace DoggOS.Mem

inductive PageCall where
  | map (linearAddress physicalAddress flags : Nat)
  | unmap (linearAddress : Nat)
  | physicalPage (linearAddress : Nat)
  | isMapped (linearAddress : Nat)
deriving DecidableEq, Repr

structure MapRequest where
  linearAddress : Nat
  physicalAddress : Nat
  flags : Nat
deriving DecidableEq, Repr

inductive PageResult where
  | status (status : Status)
  | page (page : Nat)
deriving DecidableEq, Repr

def PageCall.linearAddress : PageCall → Nat
  | .map linearAddress _ _ => linearAddress
  | .unmap linearAddress => linearAddress
  | .physicalPage linearAddress => linearAddress
  | .isMapped linearAddress => linearAddress

/-- The arguments the page map is specified for: small pages below the window's own slots. -/
def PageCall.Valid (call : PageCall) : Prop :=
  (0 < call.linearAddress ∧ call.linearAddress < 0xff800000) ∧
    match call with
    | .map _ physicalAddress flags =>
        physicalAddress < 2 ^ 32 ∧ flags < 4096 ∧ ¬ hasFlag flags pentryFlagBigPage
    | _ => True

/-- The abstract page map: page numbers to physical pages. -/
def PageCall.apply (bindings : Nat → Option Nat) : PageCall → PageResult × (Nat → Option Nat)
  | .map linearAddress physicalAddress _ =>
      if bindings (linearAddress / 4096) = none then
        (.status .ok, Function.update bindings (linearAddress / 4096)
          (some (physicalAddress - physicalAddress % 4096)))
      else (.status .linearAddressInUse, bindings)
  | .unmap linearAddress =>
      if bindings (linearAddress / 4096) = none then
        (.status .linearAddressNotInUse, bindings)
      else (.status .ok, Function.update bindings (linearAddress / 4096) none)
  | .physicalPage linearAddress =>
      (.page ((bindings (linearAddress / 4096)).getD nullPage), bindings)
  | .isMapped linearAddress =>
      (.status (if bindings (linearAddress / 4096) = none then .linearAddressNotInUse
        else .linearAddressInUse), bindings)

def applyAll : (Nat → Option Nat) → List PageCall → List PageResult × (Nat → Option Nat)
  | bindings, [] => ([], bindings)
  | bindings, call :: rest =>
      let others := applyAll (call.apply bindings).2 rest
      ((call.apply bindings).1 :: others.1, others.2)

namespace PageMap

/-- The four entry points; `pageTable` is what `k_mem_AllocPhysicalPage` would return. -/
def call (map : PageMap) (pageTable : Nat) : PageCall → Option (PageResult × PageMap)
  | .map linearAddress physicalAddress flags =>
      (map.mapLinearAddress (fun _ : Unit => (pageTable, ())) () linearAddress physicalAddress
        flags).map (fun result => (.status result.1, result.2.1))
  | .unmap linearAddress =>
      (map.unmapLinearAddress linearAddress).map (fun result => (.status result.1, result.2))
  | .physicalPage linearAddress =>
      (map.linearAddressPhysicalPage linearAddress).map (fun page => (.page page, map))
  | .isMapped linearAddress =>
      (map.isLinearAddressMapped linearAddress).map (fun status => (.status status, map))

def callAll : PageMap → List (PageCall × Nat) → Option (List PageResult × PageMap)
  | map, [] => some ([], map)
  | map, (call, pageTable) :: rest =>
      (map.call pageTable call).bind fun result =>
        (callAll result.2 rest).map (fun others => (result.1 :: others.1, others.2))

def NeedsTable (map : PageMap) : PageCall → Prop
  | .map linearAddress _ _ => ¬ map.TableUsed (pdirIndex linearAddress)
  | _ => False

/-- Along the run, each page table that is needed comes from a fresh page. -/
def TablesFresh : PageMap → List (PageCall × Nat) → Prop
  | _, [] => True
  | map, (call, pageTable) :: rest =>
      (map.NeedsTable call → map.FreshTable pageTable) ∧
        ∀ result after, map.call pageTable call = some (result, after) → after.TablesFresh rest

def Represents (map : PageMap) (bindings : Nat → Option Nat) : Prop :=
  ∀ page, page < 1022 * 1024 → map.binding page = bindings page

variable {map : PageMap} {linearAddress : Nat}

theorem not_forbidden (positive : 0 < linearAddress) (below : linearAddress < 0xff800000) :
    ¬ Forbidden linearAddress := by
  rintro (zero | above)
  · omega
  · rw [show pentryPagePointer 0 = 0xffc00000 from rfl] at above
    omega

theorem indices (below : linearAddress < 0xff800000) :
    pdirIndex linearAddress = linearAddress / 4096 / 1024 ∧
      ptableIndex linearAddress = linearAddress / 4096 % 1024 ∧
      linearAddress / 4096 < 1022 * 1024 ∧ pdirIndex linearAddress < 1022 ∧
      ptableIndex linearAddress < 1024 ∧
      linearAddress / 4096 = pdirIndex linearAddress * 1024 + ptableIndex linearAddress := by
  rw [pdirIndex_eq, ptableIndex_eq]
  omega

section Branches

variable {Pages : Type} (allocPhysicalPage : Pages → Nat × Pages) (pages : Pages)
  {physicalAddress flags entry : Nat}

theorem mapLinearAddress_bind (accepted : ¬ Forbidden linearAddress)
    (read : map.readEntry (pentryPointer pmapPdirIndex (pdirIndex linearAddress)) = some entry)
    (skips : hasFlag entry pentryFlagUsed ∨ hasFlag flags pentryFlagBigPage) :
    map.mapLinearAddress allocPhysicalPage pages linearAddress physicalAddress flags =
      (map.bindEntry linearAddress physicalAddress (mapFlags flags)).map
        (fun result => (result.1, result.2, pages)) := by
  have named : flags ||| (pentryFlagUsed ||| pentryFlagReadWrite ||| pentryFlagPresent) =
      mapFlags flags := rfl
  have noTable : ¬ (¬ hasFlag entry pentryFlagUsed ∧ ¬ hasFlag (mapFlags flags) pentryFlagBigPage) := by
    rw [hasFlag_mapFlags_bigPage]
    exact fun both => skips.elim both.1 both.2
  unfold PageMap.mapLinearAddress
  simp only [if_neg accepted, read, Option.bind_eq_bind, Option.bind_some, named, if_neg noTable]
  cases map.bindEntry linearAddress physicalAddress (mapFlags flags) <;> rfl

theorem mapLinearAddress_addTable {middle : PageMap} (accepted : ¬ Forbidden linearAddress)
    (read : map.readEntry (pentryPointer pmapPdirIndex (pdirIndex linearAddress)) = some entry)
    (unused : ¬ hasFlag entry pentryFlagUsed) (notBig : ¬ hasFlag flags pentryFlagBigPage)
    (created : map.addPageTable (pdirIndex linearAddress) (allocPhysicalPage pages).1
      (mapFlags flags) = some (true, middle)) :
    map.mapLinearAddress allocPhysicalPage pages linearAddress physicalAddress flags =
      (middle.bindEntry linearAddress physicalAddress (mapFlags flags)).map
        (fun result => (result.1, result.2, (allocPhysicalPage pages).2)) := by
  have named : flags ||| (pentryFlagUsed ||| pentryFlagReadWrite ||| pentryFlagPresent) =
      mapFlags flags := rfl
  have small : ¬ hasFlag (mapFlags flags) pentryFlagBigPage := fun big =>
    notBig ((hasFlag_mapFlags_bigPage flags).mp big)
  unfold PageMap.mapLinearAddress
  simp only [if_neg accepted, read, Option.bind_eq_bind, Option.bind_some, named, unused, small,
    not_false_eq_true, and_self, if_true, created]
  cases middle.bindEntry linearAddress physicalAddress (mapFlags flags) <;> rfl

end Branches

theorem bindEntry_shown {page flags : Nat} (selfMapped : map.SelfMapped)
    (showsPdir : map.Shows pmapPdirIndex map.cr3)
    (shows : map.Shows (pdirIndex linearAddress) page) (inDirectory : pdirIndex linearAddress < 1024)
    (inTable : ptableIndex linearAddress < 1024)
    (small : ¬ hasFlag (map.mem map.cr3 (pdirIndex linearAddress)) pentryFlagBigPage)
    (physicalAddress : Nat) (notBig : ¬ hasFlag flags pentryFlagBigPage) : ∃ status after,
      map.bindEntry linearAddress physicalAddress (mapFlags flags) = some (status, after) ∧
        (after = map ∨
          after = map.store page (ptableIndex linearAddress) (physicalAddress ||| mapFlags flags)) := by
  have readDirectory := readEntry_window selfMapped showsPdir (by decide) inDirectory
  have readTable := readEntry_window selfMapped shows inDirectory inTable
  have notBigFlags : ¬ hasFlag (mapFlags flags) pentryFlagBigPage := by
    rw [hasFlag_mapFlags_bigPage]
    exact notBig
  unfold PageMap.bindEntry
  simp only [readDirectory, readTable, Option.bind_eq_bind, Option.bind_some, if_neg small,
    if_neg notBigFlags, writeEntry_window selfMapped shows inDirectory inTable]
  by_cases entryUsed : hasFlag (map.mem page (ptableIndex linearAddress)) pentryFlagUsed
  · rw [if_pos entryUsed]
    exact ⟨_, map, rfl, .inl rfl⟩
  · rw [if_neg entryUsed]
    exact ⟨_, _, rfl, .inr rfl⟩

structure Bound (map after : PageMap) (linearAddress physicalAddress flags pageTable : Nat) :
    Prop where
  formed : after.Formed
  cr3 : after.cr3 = map.cr3
  ptable : after.ptable = map.ptable
  tableAt : after.TableAt (pdirIndex linearAddress)
  directory : ∀ index, after.mem map.cr3 index =
    if index = pdirIndex linearAddress ∧ ¬ map.TableUsed (pdirIndex linearAddress) then
      pageTable ||| mapFlags flags
    else map.mem map.cr3 index
  entry : after.mem (after.table (pdirIndex linearAddress)) (ptableIndex linearAddress) =
    physicalAddress ||| mapFlags flags
  entries : ∀ index, index < 1022 → map.TableAt index → ∀ place,
    (index ≠ pdirIndex linearAddress ∨ place ≠ ptableIndex linearAddress) →
      after.mem (map.table index) place = map.mem (map.table index) place
  bindings : ∀ page, page < 1022 * 1024 → after.binding page =
    if page = linearAddress / 4096 then some (physicalAddress - physicalAddress % 4096)
    else map.binding page

namespace Formed

variable {physicalAddress flags : Nat}

theorem bound_store (formed : map.Formed) (below : linearAddress < 0xff800000)
    (tableAt : map.TableAt (pdirIndex linearAddress)) (word : physicalAddress < 2 ^ 32)
    (low : flags < 4096) (pageTable : Nat) :
    map.Bound (map.store (map.table (pdirIndex linearAddress)) (ptableIndex linearAddress)
      (physicalAddress ||| mapFlags flags)) linearAddress physicalAddress flags pageTable := by
  obtain ⟨-, -, -, inDirectory, inTable, joined⟩ := indices below
  have entryFlags := iff_of_true (hasFlag_mapFlags_used physicalAddress flags)
    (hasFlag_mapFlags_present physicalAddress flags)
  obtain ⟨stored, directory, bindings⟩ := formed.store_table inDirectory tableAt inTable entryFlags
  obtain ⟨-, -, notOther⟩ := formed.tableApart _ inDirectory tableAt
  obtain ⟨after, afterEq⟩ : ∃ after, after = map.store (map.table (pdirIndex linearAddress))
    (ptableIndex linearAddress) (physicalAddress ||| mapFlags flags) := ⟨_, rfl⟩
  have sameCr3 : after.cr3 = map.cr3 := by rw [afterEq, store_cr3]
  rw [← afterEq] at stored directory bindings ⊢
  have same : SameWindow map after := ⟨sameCr3, directory _⟩
  have tables : ∀ index, after.table index = map.table index := fun index => by
    unfold table
    rw [sameCr3, directory]
  refine ⟨stored, sameCr3, same.ptable, ?_, fun index => ?_, ?_, ?_, fun page inRange => ?_⟩
  · unfold TableAt TableUsed
    rw [sameCr3, directory]
    exact tableAt
  · rw [directory, if_neg fun both => both.2 tableAt.1]
  · rw [tables, afterEq, store_mem_self]
  · intro index indexBelow indexAt place different
    have apart : map.table index ≠ map.table (pdirIndex linearAddress) ∨
        place ≠ ptableIndex linearAddress := by
      by_cases here : index = pdirIndex linearAddress
      · exact .inr (different.resolve_left (not_not_intro here))
      · exact .inl (notOther index indexBelow indexAt here)
    rw [afterEq, store_mem_of_ne map _ apart]
  · rw [bindings page inRange, ← joined, if_pos (hasFlag_mapFlags_used _ _),
      entryPage_or word (mapFlags_lt low)]

theorem bindEntry (formed : map.Formed) (below : linearAddress < 0xff800000)
    (tableAt : map.TableAt (pdirIndex linearAddress)) (physicalAddress : Nat)
    (notBig : ¬ hasFlag flags pentryFlagBigPage) :
    (map.binding (linearAddress / 4096) ≠ none ∧
      map.bindEntry linearAddress physicalAddress (mapFlags flags) =
        some (.linearAddressInUse, map)) ∨
    (map.binding (linearAddress / 4096) = none ∧
      map.bindEntry linearAddress physicalAddress (mapFlags flags) =
        some (.ok, map.store (map.table (pdirIndex linearAddress)) (ptableIndex linearAddress)
          (physicalAddress ||| mapFlags flags))) := by
  obtain ⟨atDirectory, atTable, inRange, inDirectory, inTable, -⟩ := indices below
  have bound := formed.binding_of_table inRange (by rw [← atDirectory]; exact tableAt)
  rw [← atDirectory, ← atTable] at bound
  have readDirectory := formed.window.readPdir (show pdirIndex linearAddress < 1024 by omega)
  have readTable := formed.readTable inDirectory tableAt inTable
  have notBigFlags : ¬ hasFlag (mapFlags flags) pentryFlagBigPage := by
    rw [hasFlag_mapFlags_bigPage]
    exact notBig
  unfold PageMap.bindEntry
  simp only [readDirectory, readTable, Option.bind_eq_bind, Option.bind_some, if_neg tableAt.2,
    if_neg notBigFlags]
  by_cases entryUsed : hasFlag (map.mem (map.table (pdirIndex linearAddress))
      (ptableIndex linearAddress)) pentryFlagUsed
  · left
    rw [bound, if_pos entryUsed, if_pos entryUsed]
    exact ⟨by simp, rfl⟩
  · right
    rw [bound, if_neg entryUsed, if_neg entryUsed,
      formed.writeTable inDirectory tableAt inTable]
    exact ⟨rfl, rfl⟩

/-- `k_mem_MapLinearAddress` for a small page whose slot holds no big page. -/
theorem mapLinearAddress (formed : map.Formed) {Pages : Type}
    (allocPhysicalPage : Pages → Nat × Pages) (pages : Pages) (positive : 0 < linearAddress)
    (below : linearAddress < 0xff800000) (word : physicalAddress < 2 ^ 32) (low : flags < 4096)
    (notBig : ¬ hasFlag flags pentryFlagBigPage)
    (spare : ¬ map.TableUsed (pdirIndex linearAddress) →
      map.SpareTable (allocPhysicalPage pages).1)
    (notBigSlot : map.TableUsed (pdirIndex linearAddress) →
      ¬ hasFlag (map.mem map.cr3 (pdirIndex linearAddress)) pentryFlagBigPage) :
    (map.binding (linearAddress / 4096) ≠ none ∧
      map.mapLinearAddress allocPhysicalPage pages linearAddress physicalAddress flags =
        some (.linearAddressInUse, map, pages)) ∨
    (map.binding (linearAddress / 4096) = none ∧ ∃ after,
      map.mapLinearAddress allocPhysicalPage pages linearAddress physicalAddress flags =
        some (.ok, after, if map.TableUsed (pdirIndex linearAddress) then pages
          else (allocPhysicalPage pages).2) ∧
      map.Bound after linearAddress physicalAddress flags (allocPhysicalPage pages).1) := by
  obtain ⟨atDirectory, -, inRange, inDirectory, inTable, -⟩ := indices below
  have accepted := not_forbidden positive below
  have readDirectory := formed.window.readPdir (show pdirIndex linearAddress < 1024 by omega)
  by_cases used : map.TableUsed (pdirIndex linearAddress)
  · have tableAt : map.TableAt (pdirIndex linearAddress) := ⟨used, notBigSlot used⟩
    rw [mapLinearAddress_bind _ _ accepted readDirectory (.inl used), if_pos used]
    rcases formed.bindEntry below tableAt physicalAddress notBig with ⟨bound, same⟩ | ⟨free, ran⟩
    · left
      rw [same]
      exact ⟨bound, rfl⟩
    · right
      rw [ran]
      exact ⟨free, _, rfl, formed.bound_store below tableAt word low _⟩
  · have free := formed.binding_of_unused inRange (by rw [← atDirectory]; exact used)
    obtain ⟨aligned, pageWord, notDirectory, notPtable, notTable⟩ := spare used
    obtain ⟨present, entryUsed, small, named⟩ := entry_mapFlags aligned pageWord low notBig
    obtain ⟨middle, created, adds⟩ := formed.window.addPageTable
      (show pdirIndex linearAddress < pmapPdirIndex by unfold pmapPdirIndex; omega) present named
      notDirectory notPtable
    obtain ⟨middleFormed, middleAt, middleBindings⟩ :=
      formed.adds adds inDirectory used present entryUsed small named notTable
    right
    rw [mapLinearAddress_addTable _ _ accepted readDirectory used notBig created, if_neg used]
    rcases middleFormed.bindEntry below middleAt physicalAddress notBig with ⟨bound, -⟩ | ⟨-, ran⟩
    · rw [middleBindings _ inRange] at bound
      exact absurd free bound
    · rw [ran]
      obtain ⟨after, afterEq⟩ : ∃ after, after = middle.store
        (middle.table (pdirIndex linearAddress)) (ptableIndex linearAddress)
        (physicalAddress ||| mapFlags flags) := ⟨_, rfl⟩
      have stored := middleFormed.bound_store below middleAt word low (allocPhysicalPage pages).1
      rw [← afterEq] at stored ⊢
      refine ⟨free, after, rfl, stored.formed, stored.cr3.trans adds.cr3,
        stored.ptable.trans (adds.sameWindow (by unfold pmapPdirIndex; omega)).ptable,
        stored.tableAt, fun index => ?_, stored.entry, ?_, fun page pageIn => ?_⟩
      · rw [← adds.cr3, stored.directory, if_neg fun both => both.2 middleAt.1, adds.cr3,
          adds.directory]
        simp only [used, not_false_eq_true, and_true]
      · intro index indexBelow indexAt place different
        have otherSlot : index ≠ pdirIndex linearAddress := fun here => used (here ▸ indexAt.1)
        have middleTable : middle.table index = map.table index := by
          rw [adds.table, if_neg otherSlot]
        have middleIndexAt : middle.TableAt index := by
          refine ⟨(adds.tableUsed otherSlot).mpr indexAt.1, ?_⟩
          rw [adds.cr3, adds.directory, if_neg otherSlot]
          exact indexAt.2
        obtain ⟨apartDirectory, apartPtable, -⟩ := formed.tableApart index indexBelow indexAt
        rw [← middleTable, stored.entries index indexBelow middleIndexAt place different,
          middleTable]
        exact adds.other (Ne.symm (notTable index indexBelow indexAt)) apartDirectory apartPtable
          place
      · rw [stored.bindings page pageIn, middleBindings page pageIn]

/-- A directory entry for a big page refuses the call, unless the call replaces it by a page table. -/
theorem mapLinearAddress_bigSlot (formed : map.Formed) {Pages : Type}
    (allocPhysicalPage : Pages → Nat × Pages) (pages : Pages) (positive : 0 < linearAddress)
    (below : linearAddress < 0xff800000) (physicalAddress : Nat)
    (skips : map.TableUsed (pdirIndex linearAddress) ∨ hasFlag flags pentryFlagBigPage)
    (big : hasFlag (map.mem map.cr3 (pdirIndex linearAddress)) pentryFlagBigPage) :
    map.mapLinearAddress allocPhysicalPage pages linearAddress physicalAddress flags =
      some (.linearAddressInUse, map, pages) := by
  obtain ⟨-, -, -, inDirectory, -⟩ := indices below
  have readDirectory := formed.window.readPdir (show pdirIndex linearAddress < 1024 by omega)
  rw [mapLinearAddress_bind _ _ (not_forbidden positive below) readDirectory skips]
  unfold PageMap.bindEntry
  simp only [readDirectory, Option.bind_eq_bind, Option.bind_some, if_pos big]
  rfl

/-- A successful call of a small page found the page unmapped, and binds it. -/
theorem mapLinearAddress_ok (formed : map.Formed) {Pages : Type}
    {allocPhysicalPage : Pages → Nat × Pages} {pages left : Pages} (positive : 0 < linearAddress)
    (below : linearAddress < 0xff800000) (word : physicalAddress < 2 ^ 32) (low : flags < 4096)
    (notBig : ¬ hasFlag flags pentryFlagBigPage)
    (spare : ¬ map.TableUsed (pdirIndex linearAddress) →
      map.SpareTable (allocPhysicalPage pages).1) {after : PageMap}
    (ran : map.mapLinearAddress allocPhysicalPage pages linearAddress physicalAddress flags =
      some (.ok, after, left)) :
    map.binding (linearAddress / 4096) = none ∧
      map.Bound after linearAddress physicalAddress flags (allocPhysicalPage pages).1 := by
  have notInUse : ∀ same : PageMap × Pages,
      map.mapLinearAddress allocPhysicalPage pages linearAddress physicalAddress flags ≠
        some (.linearAddressInUse, same) := by
    intro same inUse
    have status : Status.ok = .linearAddressInUse :=
      congrArg Prod.fst (Option.some_inj.mp (ran.symm.trans inUse))
    cases status
  have notBigSlot : map.TableUsed (pdirIndex linearAddress) →
      ¬ hasFlag (map.mem map.cr3 (pdirIndex linearAddress)) pentryFlagBigPage := fun used big =>
    notInUse _ (formed.mapLinearAddress_bigSlot _ pages positive below physicalAddress (.inl used) big)
  rcases formed.mapLinearAddress allocPhysicalPage pages positive below word low notBig spare
    notBigSlot with ⟨-, inUse⟩ | ⟨free, bound, ranBound, isBound⟩
  · exact absurd inUse (notInUse _)
  · have same : after = bound :=
      congrArg (fun result => result.2.1) (Option.some_inj.mp (ran.symm.trans ranBound))
    exact ⟨free, same ▸ isBound⟩

theorem linearAddressPhysicalPage (formed : map.Formed) (positive : 0 < linearAddress)
    (below : linearAddress < 0xff800000) (notBigSlot : map.TableUsed (pdirIndex linearAddress) →
      ¬ hasFlag (map.mem map.cr3 (pdirIndex linearAddress)) pentryFlagBigPage) :
    map.linearAddressPhysicalPage linearAddress =
      some ((map.binding (linearAddress / 4096)).getD nullPage) := by
  obtain ⟨atDirectory, atTable, inRange, inDirectory, inTable, -⟩ := indices below
  have readDirectory := formed.window.readPdir (show pdirIndex linearAddress < 1024 by omega)
  unfold PageMap.linearAddressPhysicalPage
  simp only [if_neg (not_forbidden positive below), readDirectory, Option.bind_eq_bind,
    Option.bind_some]
  by_cases used : map.TableUsed (pdirIndex linearAddress)
  · have entryUsed : hasFlag (map.mem map.cr3 (pdirIndex linearAddress)) pentryFlagUsed := used
    have tableAt : map.TableAt (pdirIndex linearAddress) := ⟨used, notBigSlot used⟩
    rw [formed.binding_of_table inRange (by rw [← atDirectory]; exact tableAt), ← atDirectory,
      ← atTable]
    simp only [entryUsed, not_true_eq_false, if_false, if_neg tableAt.2,
      formed.readTable inDirectory tableAt inTable, Option.bind_some]
    by_cases pageUsed : hasFlag (map.mem (map.table (pdirIndex linearAddress))
        (ptableIndex linearAddress)) pentryFlagUsed
    · rw [if_pos pageUsed, if_pos pageUsed]
      rfl
    · rw [if_neg pageUsed, if_neg pageUsed]
      rfl
  · have entryUnused : ¬ hasFlag (map.mem map.cr3 (pdirIndex linearAddress)) pentryFlagUsed := used
    rw [formed.binding_of_unused inRange (by rw [← atDirectory]; exact used)]
    simp only [entryUnused, not_false_eq_true, if_true]
    rfl

end Formed

namespace WellFormed

theorem binding_eq_none (wellFormed : map.WellFormed) (below : linearAddress < 0xff800000)
    (unused : ¬ map.TableUsed (pdirIndex linearAddress)) :
    map.binding (linearAddress / 4096) = none := by
  obtain ⟨atDirectory, -, inRange, -⟩ := indices below
  rw [wellFormed.binding_eq inRange, ← atDirectory, if_neg fun both => unused both.1]

theorem binding_of_used (wellFormed : map.WellFormed) (below : linearAddress < 0xff800000)
    (used : map.TableUsed (pdirIndex linearAddress)) :
    map.binding (linearAddress / 4096) =
      if hasFlag (map.mem (map.table (pdirIndex linearAddress)) (ptableIndex linearAddress))
        pentryFlagUsed then
        some (entryPage (map.mem (map.table (pdirIndex linearAddress)) (ptableIndex linearAddress)))
      else none := by
  obtain ⟨atDirectory, atTable, inRange, -⟩ := indices below
  rw [wellFormed.binding_eq inRange, ← atDirectory, ← atTable]
  simp only [used, true_and]

/-- A successful map call leaves a page map with only small pages, which has at most one more page
table. -/
theorem bound (wellFormed : map.WellFormed) {after : PageMap} {physicalAddress flags pageTable : Nat}
    (bound : map.Bound after linearAddress physicalAddress flags pageTable) (low : flags < 4096)
    (fresh : ¬ map.TableUsed (pdirIndex linearAddress) → map.FreshTable pageTable) :
    after.WellFormed ∧ map.Grows after (pdirIndex linearAddress) pageTable := by
  have usedSame : ∀ index, (index = pdirIndex linearAddress → map.TableUsed index) →
      (after.TableUsed index ↔ map.TableUsed index) ∧ after.table index = map.table index := by
    intro index notNew
    have sameEntry : after.mem map.cr3 index = map.mem map.cr3 index := by
      rw [bound.directory, if_neg fun both => both.2 (both.1 ▸ notNew both.1)]
    unfold TableUsed table
    rw [bound.cr3, sameEntry]
    exact ⟨Iff.rfl, rfl⟩
  refine ⟨of_formed bound.formed fun index indexBelow used => ?_, bound.cr3, bound.ptable,
    fun index _ used => ?_, fun index _ used => ?_⟩
  · by_cases here : index = pdirIndex linearAddress
    · exact here ▸ bound.tableAt.2
    · have wasUsed := (usedSame index fun same => absurd same here).1.mp used
      rw [bound.cr3, bound.directory, if_neg fun both => here both.1]
      exact wellFormed.small index indexBelow wasUsed
  · obtain ⟨stillUsed, sameTable⟩ := usedSame index fun _ => used
    exact ⟨stillUsed.mpr used, sameTable⟩
  · by_cases isNew : index = pdirIndex linearAddress ∧ ¬ map.TableUsed (pdirIndex linearAddress)
    · obtain ⟨aligned, word, -⟩ := fresh isNew.2
      refine .inr ⟨isNew.2, isNew.1, ?_⟩
      unfold table
      rw [bound.cr3, bound.directory, if_pos isNew, entryPage_or word (mapFlags_lt low)]
      omega
    · have notNew : index = pdirIndex linearAddress → map.TableUsed index := by
        intro here
        by_contra unused
        exact isNew ⟨here, here ▸ unused⟩
      exact .inl ((usedSame index notNew).1.mp used)

/-- `k_mem_MapLinearAddress` on a page that is mapped, and on one that is not. -/
theorem mapLinearAddress (wellFormed : map.WellFormed) {Pages : Type}
    (allocPhysicalPage : Pages → Nat × Pages) (pages : Pages) (positive : 0 < linearAddress)
    (below : linearAddress < 0xff800000) {physicalAddress flags : Nat}
    (word : physicalAddress < 2 ^ 32) (low : flags < 4096)
    (notBig : ¬ hasFlag flags pentryFlagBigPage)
    (fresh : ¬ map.TableUsed (pdirIndex linearAddress) →
      map.FreshTable (allocPhysicalPage pages).1) :
    (map.binding (linearAddress / 4096) ≠ none ∧
      map.mapLinearAddress allocPhysicalPage pages linearAddress physicalAddress flags =
        some (.linearAddressInUse, map, pages)) ∨
    (map.binding (linearAddress / 4096) = none ∧ ∃ map',
      map.mapLinearAddress allocPhysicalPage pages linearAddress physicalAddress flags =
        some (.ok, map', if map.TableUsed (pdirIndex linearAddress) then pages
          else (allocPhysicalPage pages).2) ∧
      map'.WellFormed ∧ (∀ page, page < 1022 * 1024 → map'.binding page =
        if page = linearAddress / 4096 then some (physicalAddress - physicalAddress % 4096)
        else map.binding page) ∧
      map.Grows map' (pdirIndex linearAddress) (allocPhysicalPage pages).1) := by
  obtain ⟨-, -, -, inDirectory, -⟩ := indices below
  rcases wellFormed.formed.mapLinearAddress allocPhysicalPage pages positive below word low notBig
    (fun unused => (fresh unused).spare) (wellFormed.small _ inDirectory) with
    inUse | ⟨free, after, ran, isBound⟩
  · exact .inl inUse
  · obtain ⟨afterFormed, grows⟩ := wellFormed.bound isBound low fresh
    exact .inr ⟨free, after, ran, afterFormed, isBound.bindings, grows⟩

theorem unmapLinearAddress (wellFormed : map.WellFormed) (positive : 0 < linearAddress)
    (below : linearAddress < 0xff800000) :
    (map.binding (linearAddress / 4096) = none ∧
      map.unmapLinearAddress linearAddress = some (.linearAddressNotInUse, map)) ∨
    (map.binding (linearAddress / 4096) ≠ none ∧ ∃ map',
      map.unmapLinearAddress linearAddress = some (.ok, map') ∧ map'.WellFormed ∧
      (∀ page, page < 1022 * 1024 → map'.binding page =
        if page = linearAddress / 4096 then none else map.binding page) ∧
      ∀ pageTable, map.Grows map' (pdirIndex linearAddress) pageTable) := by
  obtain ⟨-, -, inRange, inDirectory, inTable, joined⟩ := indices below
  have readDirectory := wellFormed.readPdir (show pdirIndex linearAddress < 1024 by omega)
  unfold PageMap.unmapLinearAddress
  simp only [if_neg (not_forbidden positive below), readDirectory, Option.bind_eq_bind,
    Option.bind_some]
  by_cases used : map.TableUsed (pdirIndex linearAddress)
  · have bound := wellFormed.binding_of_used below used
    have entryUsed : hasFlag (map.mem map.cr3 (pdirIndex linearAddress)) pentryFlagUsed := used
    have readTable := wellFormed.readTable inDirectory used inTable
    simp only [entryUsed, not_true_eq_false, if_false, if_neg (wellFormed.small _ inDirectory used),
      readTable, Option.bind_some]
    by_cases pageUsed : hasFlag (map.mem (map.table (pdirIndex linearAddress))
        (ptableIndex linearAddress)) pentryFlagUsed
    · right
      have entryFlags := iff_of_false (not_hasFlag_zero pentryFlagUsed)
        (not_hasFlag_zero pentryFlagPresent)
      obtain ⟨stored, bindings⟩ := wellFormed.store_table inDirectory used inTable entryFlags
      rw [bound, if_pos pageUsed]
      simp only [pageUsed, not_true_eq_false, if_false,
        wellFormed.writeTable inDirectory used inTable]
      refine ⟨by simp, _, rfl, stored, fun page pageIn => ?_, fun pageTable => map.grows_store
        (wellFormed.tableApart _ inDirectory used).1 _ _ _ pageTable⟩
      rw [bindings page pageIn, ← joined, if_neg (not_hasFlag_zero _)]
    · left
      rw [bound, if_neg pageUsed]
      simp only [pageUsed, not_false_eq_true, if_true]
      exact ⟨trivial, rfl⟩
  · left
    have entryUnused : ¬ hasFlag (map.mem map.cr3 (pdirIndex linearAddress)) pentryFlagUsed := used
    simp only [entryUnused, not_false_eq_true, if_true]
    exact ⟨wellFormed.binding_eq_none below used, rfl⟩

theorem linearAddressPhysicalPage (wellFormed : map.WellFormed) (positive : 0 < linearAddress)
    (below : linearAddress < 0xff800000) :
    map.linearAddressPhysicalPage linearAddress =
      some ((map.binding (linearAddress / 4096)).getD nullPage) := by
  obtain ⟨-, -, -, inDirectory, -⟩ := indices below
  exact wellFormed.formed.linearAddressPhysicalPage positive below (wellFormed.small _ inDirectory)

theorem isLinearAddressMapped (wellFormed : map.WellFormed) (positive : 0 < linearAddress)
    (below : linearAddress < 0xff800000) :
    map.isLinearAddressMapped linearAddress =
      some (if map.binding (linearAddress / 4096) = none then .linearAddressNotInUse
        else .linearAddressInUse) := by
  obtain ⟨-, -, inRange, inDirectory, inTable, joined⟩ := indices below
  have readDirectory := wellFormed.readPdir (show pdirIndex linearAddress < 1024 by omega)
  unfold PageMap.isLinearAddressMapped
  simp only [if_neg (not_forbidden positive below), readDirectory, Option.bind_eq_bind,
    Option.bind_some]
  by_cases used : map.TableUsed (pdirIndex linearAddress)
  · have entryUsed : hasFlag (map.mem map.cr3 (pdirIndex linearAddress)) pentryFlagUsed := used
    rw [wellFormed.binding_of_used below used]
    simp only [entryUsed, not_true_eq_false, if_false, if_neg (wellFormed.small _ inDirectory used),
      wellFormed.readTable inDirectory used inTable, Option.bind_some]
    by_cases pageUsed : hasFlag (map.mem (map.table (pdirIndex linearAddress))
        (ptableIndex linearAddress)) pentryFlagUsed
    · rw [if_pos pageUsed, if_pos pageUsed]
      rfl
    · rw [if_neg pageUsed, if_neg pageUsed]
      rfl
  · have entryUnused : ¬ hasFlag (map.mem map.cr3 (pdirIndex linearAddress)) pentryFlagUsed := used
    rw [wellFormed.binding_eq_none below used]
    simp only [entryUnused, not_false_eq_true, if_true]
    rfl

/-- One call does what it does to the abstract map. -/
theorem call (wellFormed : map.WellFormed) {bindings : Nat → Option Nat}
    (represents : map.Represents bindings) {call : PageCall} (valid : call.Valid) {pageTable : Nat}
    (fresh : map.NeedsTable call → map.FreshTable pageTable) :
    ∃ after, map.call pageTable call = some ((call.apply bindings).1, after) ∧
      after.WellFormed ∧ after.Represents (call.apply bindings).2 := by
  obtain ⟨⟨positive, below⟩, arguments⟩ := valid
  obtain ⟨-, -, inRange, -⟩ := indices below
  have here := represents _ inRange
  cases call with
  | map linearAddress physicalAddress flags =>
      obtain ⟨word, low, notBig⟩ := arguments
      simp only [PageMap.call, PageCall.apply]
      simp only [PageCall.linearAddress] at here positive below
      rcases wellFormed.mapLinearAddress (fun _ : Unit => (pageTable, ())) () positive below word
        low notBig fresh with ⟨bound, ran⟩ | ⟨free, after, ran, afterFormed, afterBindings, -⟩
      · rw [here] at bound
        rw [if_neg bound, ran]
        exact ⟨map, rfl, wellFormed, represents⟩
      · rw [here] at free
        rw [if_pos free, ran]
        refine ⟨after, rfl, afterFormed, fun page pageIn => ?_⟩
        rw [afterBindings page pageIn, represents page pageIn]
        exact (Function.update_apply ..).symm
  | unmap linearAddress =>
      simp only [PageMap.call, PageCall.apply]
      simp only [PageCall.linearAddress] at here positive below
      rcases wellFormed.unmapLinearAddress positive below with
        ⟨free, ran⟩ | ⟨bound, after, ran, afterFormed, afterBindings, -⟩
      · rw [here] at free
        rw [if_pos free, ran]
        exact ⟨map, rfl, wellFormed, represents⟩
      · rw [here] at bound
        rw [if_neg bound, ran]
        refine ⟨after, rfl, afterFormed, fun page pageIn => ?_⟩
        rw [afterBindings page pageIn, represents page pageIn]
        exact (Function.update_apply ..).symm
  | physicalPage linearAddress =>
      simp only [PageCall.linearAddress] at here positive below
      simp only [PageMap.call, PageCall.apply]
      rw [wellFormed.linearAddressPhysicalPage positive below, here]
      exact ⟨map, rfl, wellFormed, represents⟩
  | isMapped linearAddress =>
      simp only [PageCall.linearAddress] at here positive below
      simp only [PageMap.call, PageCall.apply]
      rw [wellFormed.isLinearAddressMapped positive below, here]
      exact ⟨map, rfl, wellFormed, represents⟩

theorem callAll (wellFormed : map.WellFormed) {bindings : Nat → Option Nat}
    (represents : map.Represents bindings) {calls : List (PageCall × Nat)}
    (valid : ∀ call ∈ calls, call.1.Valid) (fresh : map.TablesFresh calls) :
    ∃ after, map.callAll calls = some ((applyAll bindings (calls.map Prod.fst)).1, after) ∧
      after.WellFormed ∧ after.Represents (applyAll bindings (calls.map Prod.fst)).2 := by
  induction calls generalizing map bindings with
  | nil => exact ⟨map, rfl, wellFormed, represents⟩
  | cons first rest ih =>
      obtain ⟨call, pageTable⟩ := first
      obtain ⟨freshHere, freshLater⟩ := fresh
      obtain ⟨middle, ran, middleFormed, middleRepresents⟩ :=
        wellFormed.call represents (valid _ List.mem_cons_self) freshHere
      obtain ⟨after, ranRest, afterFormed, afterRepresents⟩ := ih middleFormed middleRepresents
        (fun other member => valid other (List.mem_cons_of_mem _ member)) (freshLater _ _ ran)
      refine ⟨after, ?_, afterFormed, afterRepresents⟩
      rw [PageMap.callAll, ran]
      simp only [Option.bind_some, ranRest, Option.map_some]
      rfl

end WellFormed

end PageMap

/-- Every sequence of calls behaves as on a partial map: same results, same translations. -/
theorem pageMap_partialMap (map : PageMap) (wellFormed : map.WellFormed)
    (calls : List (PageCall × Nat)) (valid : ∀ call ∈ calls, call.1.Valid)
    (fresh : map.TablesFresh calls) :
    ∃ after, map.callAll calls = some ((applyAll map.binding (calls.map Prod.fst)).1, after) ∧
      after.Represents (applyAll map.binding (calls.map Prod.fst)).2 := by
  obtain ⟨after, ran, -, represents⟩ := wellFormed.callAll (fun _ _ => rfl) valid fresh
  exact ⟨after, ran, represents⟩

/-- The page map of `k_mem_Init` before any page is mapped. -/
def selfMap : PageMap :=
  { cr3 := 4096
    mem := fun page entry =>
      if page = 4096 ∧ entry = 1023 then 8192 ||| 515
      else if page = 8192 ∧ entry = 1023 then 4096 ||| 515
      else if page = 8192 ∧ entry = 1022 then 8192 ||| 515
      else 0 }

theorem selfMap_directory (index : Nat) (below : index < 1022) :
    selfMap.mem selfMap.cr3 index = 0 := by
  unfold selfMap
  simp only
  rw [if_neg (by omega), if_neg (by omega), if_neg (by omega)]

theorem selfMap_unused (index : Nat) (below : index < 1022) : ¬ selfMap.TableUsed index := by
  unfold PageMap.TableUsed
  rw [selfMap_directory index below]
  exact not_hasFlag_zero _

theorem selfMap_wellFormed : selfMap.WellFormed := by
  refine ⟨⟨by decide, by decide⟩, ⟨by decide, by decide⟩, ⟨by decide, by decide⟩, by decide,
    ?_, ?_, ?_, ?_, ?_⟩
  · intro index below
    refine iff_of_false (selfMap_unused index below) ?_
    rw [selfMap_directory index below]
    exact not_hasFlag_zero _
  · exact fun index below used => absurd used (selfMap_unused index below)
  · exact fun index below used => absurd used (selfMap_unused index below)
  · exact fun index below used => absurd used (selfMap_unused index below)
  · exact fun index below used => absurd used (selfMap_unused index below)

theorem pageMap_partialMap_map :
    ∃ after, selfMap.callAll [(.map 0x5000 0x9000 2, 12288)] =
        some ((applyAll selfMap.binding [.map 0x5000 0x9000 2]).1, after) ∧
      after.Represents (applyAll selfMap.binding [.map 0x5000 0x9000 2]).2 := by
  refine pageMap_partialMap selfMap selfMap_wellFormed [(.map 0x5000 0x9000 2, 12288)] ?_ ?_
  · intro call member
    rw [List.mem_singleton.mp member]
    exact ⟨by decide, by decide⟩
  · exact ⟨fun _ => ⟨by decide, by decide, by decide, by decide, fun index below used =>
      absurd used (selfMap_unused index below)⟩, fun _ _ _ => trivial⟩

end DoggOS.Mem

/-
A map call for which there is no page left to make a page table from.

The source combines what `k_mem_AllocPhysicalPage` returned with the flags, stores
the word in the directory and tests the stored word for zero.  The flags are
never zero, so the test never fails: reading the entry back through the window
gives the word just stored, in every page map, because the store cannot change
the two words that the walk to the directory reads.
-/

import DoggOS.Mem.PageMapCalls
import DoggOS.Mem.PhysicalPages

namespace DoggOS.Mem

namespace PageMap

variable {map map' : PageMap} {Pages : Type}

theorem walk_store (map : PageMap) (page entry : Nat) {word address : Nat}
    (directory : pdirIndex address ≠ word) (table : ptableIndex address ≠ word) :
    (map.store page word entry).walk address = map.walk address := by
  unfold walk
  simp only [store_cr3, store_mem_of_ne map entry (Or.inr directory),
    store_mem_of_ne map entry (Or.inr table)]

theorem readEntry_writeEntry {tableIndex entry : Nat} (below : tableIndex < pmapPdirIndex)
    (written : map.writeEntry (pentryPointer pmapPdirIndex tableIndex) entry = some map') :
    map'.readEntry (pentryPointer pmapPdirIndex tableIndex) = some entry := by
  unfold pmapPdirIndex at below
  have atDirectory : pdirIndex (pentryPointer pmapPdirIndex tableIndex) = 1023 := by
    rw [pdirIndex_eq, pentryPointer_eq, show pmapPdirIndex = 1023 from rfl]
    omega
  have atTable : ptableIndex (pentryPointer pmapPdirIndex tableIndex) = 1023 := by
    rw [ptableIndex_eq, pentryPointer_eq, show pmapPdirIndex = 1023 from rfl]
    omega
  unfold writeEntry at written
  obtain ⟨page, walked, stored⟩ := Option.map_eq_some_iff.mp written
  rw [pentryPointer_word (by omega)] at stored
  subst stored
  unfold readEntry
  rw [walk_store map page entry (by omega) (by omega), walked, pentryPointer_word (by omega)]
  exact congrArg some (store_mem_self map page tableIndex entry)

/-- The test for a missing page never succeeds. -/
theorem addPageTable_created {tableIndex pageTable flags : Nat} {created : Bool}
    (below : tableIndex < pmapPdirIndex)
    (ran : map.addPageTable tableIndex pageTable (mapFlags flags) = some (created, map')) :
    created = true := by
  have nonZero : pageTable ||| mapFlags flags ≠ 0 := fun zero =>
    not_hasFlag_zero _ (zero ▸ hasFlag_mapFlags_used pageTable flags)
  unfold addPageTable at ran
  obtain ⟨first, written, afterWrite⟩ := Option.bind_eq_some_iff.mp ran
  rw [readEntry_writeEntry below written] at afterWrite
  simp only [Option.bind_eq_bind, Option.bind_some, if_neg nonZero] at afterWrite
  obtain ⟨second, -, afterShare⟩ := Option.bind_eq_some_iff.mp afterWrite
  obtain ⟨third, -, result⟩ := Option.bind_eq_some_iff.mp afterShare
  exact (congrArg Prod.fst (Option.some_inj.mp result)).symm

theorem bindEntry_status {linearAddress physicalAddress flags : Nat} {status : Status}
    (ran : map.bindEntry linearAddress physicalAddress flags = some (status, map')) :
    status = .ok ∨ status = .linearAddressInUse := by
  unfold bindEntry at ran
  obtain ⟨entry, -, afterRead⟩ := Option.bind_eq_some_iff.mp ran
  split_ifs at afterRead with isBig asBig
  · exact .inr (congrArg Prod.fst (Option.some_inj.mp afterRead)).symm
  · obtain ⟨stored, -, result⟩ := Option.bind_eq_some_iff.mp afterRead
    exact .inl (congrArg Prod.fst (Option.some_inj.mp result)).symm
  · obtain ⟨tableEntry, -, afterTable⟩ := Option.bind_eq_some_iff.mp afterRead
    split_ifs at afterTable
    · exact .inr (congrArg Prod.fst (Option.some_inj.mp afterTable)).symm
    · obtain ⟨stored, -, result⟩ := Option.bind_eq_some_iff.mp afterTable
      exact .inl (congrArg Prod.fst (Option.some_inj.mp result)).symm

theorem pdirIndex_lt {linearAddress : Nat} (accepted : ¬ Forbidden linearAddress) :
    pdirIndex linearAddress < pmapPdirIndex := by
  have window : pentryPagePointer 0 = 0xffc00000 := rfl
  unfold Forbidden at accepted
  rw [window] at accepted
  rw [pdirIndex_eq, show pmapPdirIndex = 1023 from rfl]
  omega

/-- No call ends with the status that is meant for a missing page. -/
theorem mapLinearAddress_status (map : PageMap) (allocPhysicalPage : Pages → Nat × Pages)
    (pages : Pages) (linearAddress physicalAddress flags : Nat) {after : PageMap × Pages} :
    map.mapLinearAddress allocPhysicalPage pages linearAddress physicalAddress flags ≠
      some (.outOfPhysicalMem, after) := by
  intro ran
  unfold mapLinearAddress at ran
  split_ifs at ran with forbidden
  · have same : Status.forbidden = .outOfPhysicalMem := congrArg Prod.fst (Option.some_inj.mp ran)
    cases same
  · obtain ⟨entry, -, afterRead⟩ := Option.bind_eq_some_iff.mp ran
    have bound {start : PageMap} {status : Status} {flags : Nat} {after : PageMap}
        (bind : start.bindEntry linearAddress physicalAddress flags = some (status, after)) :
        status ≠ .outOfPhysicalMem := by
      rcases bindEntry_status bind with ok | inUse
      · rw [ok]
        decide
      · rw [inUse]
        decide
    split_ifs at afterRead
    · obtain ⟨⟨created, withTable⟩, add, afterAdd⟩ := Option.bind_eq_some_iff.mp afterRead
      have isCreated := addPageTable_created (pdirIndex_lt forbidden) add
      simp only [isCreated, if_true] at afterAdd
      obtain ⟨⟨status, last⟩, bind, result⟩ := Option.bind_eq_some_iff.mp afterAdd
      exact bound bind (congrArg Prod.fst (Option.some_inj.mp result))
    · obtain ⟨⟨status, last⟩, bind, result⟩ := Option.bind_eq_some_iff.mp afterRead
      exact bound bind (congrArg Prod.fst (Option.some_inj.mp result))

/-- A call allocates at most one page. -/
theorem mapLinearAddress_pages {allocPhysicalPage : Pages → Nat × Pages} {pages pages' : Pages}
    {linearAddress physicalAddress flags : Nat} {status : Status}
    (ran : map.mapLinearAddress allocPhysicalPage pages linearAddress physicalAddress flags =
      some (status, map', pages')) : pages' = pages ∨ pages' = (allocPhysicalPage pages).2 := by
  unfold mapLinearAddress at ran
  split_ifs at ran with forbidden
  · exact .inl (congrArg (fun result => result.2.2) (Option.some_inj.mp ran)).symm
  · obtain ⟨entry, -, afterRead⟩ := Option.bind_eq_some_iff.mp ran
    split_ifs at afterRead
    · right
      obtain ⟨⟨created, withTable⟩, -, afterAdd⟩ := Option.bind_eq_some_iff.mp afterRead
      dsimp only at afterAdd
      split_ifs at afterAdd
      · obtain ⟨bound, -, result⟩ := Option.bind_eq_some_iff.mp afterAdd
        exact (congrArg (fun result => result.2.2) (Option.some_inj.mp result)).symm
      · exact (congrArg (fun result => result.2.2) (Option.some_inj.mp afterAdd)).symm
    · left
      obtain ⟨bound, -, result⟩ := Option.bind_eq_some_iff.mp afterRead
      exact (congrArg (fun result => result.2.2) (Option.some_inj.mp result)).symm

structure Exhausted (map : PageMap) (allocPhysicalPage : Pages → Nat × Pages) (pages : Pages)
    (linearAddress flags : Nat) : Prop where
  accepted : ¬ Forbidden linearAddress
  small : ¬ hasFlag flags pentryFlagBigPage
  unused : ∀ entry ∈ map.readEntry (pentryPointer pmapPdirIndex (pdirIndex linearAddress)),
    ¬ hasFlag entry pentryFlagUsed
  null : (allocPhysicalPage pages).1 = nullPage

/-- The call reports the failure, and leaves the directory, the page table of the window and every
translation alone. -/
def FailsCleanly (map : PageMap) (result : Option (Status × PageMap × Pages)) : Prop :=
  ∃ after pages, result = some (.outOfPhysicalMem, after, pages) ∧ after.cr3 = map.cr3 ∧
    (∀ index, index < 1024 → after.mem map.cr3 index = map.mem map.cr3 index) ∧
    (∀ index, index < 1024 → after.mem map.ptable index = map.mem map.ptable index) ∧
    ∀ address, after.walk address = map.walk address

/-- What the call does instead, when page zero is not in use: it makes page zero a page table. -/
theorem WellFormed.mapLinearAddress_exhausted (wellFormed : map.WellFormed)
    {allocPhysicalPage : Pages → Nat × Pages} {pages : Pages}
    {linearAddress physicalAddress flags : Nat}
    (exhausted : map.Exhausted allocPhysicalPage pages linearAddress flags)
    (below : linearAddress < 0xff800000) (word : physicalAddress < 2 ^ 32) (low : flags < 4096)
    (fresh : map.FreshTable nullPage) : ∃ after,
    map.mapLinearAddress allocPhysicalPage pages linearAddress physicalAddress flags =
      some (.ok, after, (allocPhysicalPage pages).2) ∧
    after.TableUsed (pdirIndex linearAddress) ∧ after.table (pdirIndex linearAddress) = nullPage := by
  obtain ⟨accepted, small, unused, null⟩ := exhausted
  have positive : 0 < linearAddress := Nat.pos_of_ne_zero fun zero => accepted (.inl zero)
  obtain ⟨atDirectory, -, inRange, inDirectory, -⟩ := indices below
  have notUsed : ¬ map.TableUsed (pdirIndex linearAddress) :=
    unused _ (wellFormed.readPdir (by omega))
  rcases wellFormed.mapLinearAddress allocPhysicalPage pages positive below word low small
    (fun _ => null ▸ fresh) with ⟨bound, -⟩ | ⟨-, after, ran, afterFormed, bindings, grows⟩
  · exact absurd (wellFormed.binding_eq_none below notUsed) bound
  · rw [if_neg notUsed] at ran
    have used : after.TableUsed (pdirIndex linearAddress) := by
      by_contra stillUnused
      have bound := bindings _ inRange
      rw [if_pos rfl, afterFormed.binding_eq_none below stillUnused] at bound
      cases bound
    refine ⟨after, ran, used, ?_⟩
    rcases grows.adds _ inDirectory used with wasUsed | ⟨-, -, named⟩
    · exact absurd wasUsed notUsed
    · rw [named, null]

end PageMap

/-- A map call that gets no page for its page table never fails cleanly. -/
theorem mapLinearAddress_not_clean {Pages : Type} (map : PageMap)
    (allocPhysicalPage : Pages → Nat × Pages) (pages : Pages)
    (linearAddress physicalAddress flags : Nat)
    (_exhausted : map.Exhausted allocPhysicalPage pages linearAddress flags) :
    ¬ map.FailsCleanly
      (map.mapLinearAddress allocPhysicalPage pages linearAddress physicalAddress flags) := by
  rintro ⟨after, others, ran, -⟩
  exact map.mapLinearAddress_status allocPhysicalPage pages linearAddress physicalAddress flags ran

def noPages : PRList := ⟨fun _ => 0, []⟩

theorem selfMap_exhausted :
    selfMap.Exhausted (fun pages : PRList => pages.allocPhysicalPage 0) noPages 0x5000 0 := by
  refine ⟨by decide, by decide, fun entry read => ?_, rfl⟩
  rw [selfMap_wellFormed.readPdir (by decide)] at read
  cases read
  decide

theorem mapLinearAddress_not_clean_selfMap : ¬ selfMap.FailsCleanly
    (selfMap.mapLinearAddress (fun pages : PRList => pages.allocPhysicalPage 0) noPages
      0x5000 0x9000 0) :=
  mapLinearAddress_not_clean selfMap _ noPages 0x5000 0x9000 0 selfMap_exhausted

/-- The call reports success and hangs page zero below the directory. -/
theorem mapLinearAddress_takes_page_zero :
    ¬ ∀ (map : PageMap) (pages : PRList) (linearAddress physicalAddress flags : Nat),
      map.Exhausted (fun pages => pages.allocPhysicalPage 0) pages linearAddress flags →
      map.FailsCleanly (map.mapLinearAddress (fun pages => pages.allocPhysicalPage 0) pages
        linearAddress physicalAddress flags) := by
  intro clean
  have noTable : ∀ index, index < 1022 → selfMap.TableUsed index → nullPage ≠ selfMap.table index :=
    fun index below used => absurd used (selfMap_unused index below)
  obtain ⟨after, ran, -⟩ := selfMap_wellFormed.mapLinearAddress_exhausted
    selfMap_exhausted (by decide) (show 0x9000 < 2 ^ 32 by decide) (by decide)
    ⟨by decide, by decide, by decide, by decide, noTable⟩
  obtain ⟨other, others, failed, -⟩ :=
    clean selfMap noPages 0x5000 0x9000 0 selfMap_exhausted
  have same : Status.ok = .outOfPhysicalMem :=
    congrArg Prod.fst (Option.some_inj.mp (ran.symm.trans failed))
  cases same

end DoggOS.Mem

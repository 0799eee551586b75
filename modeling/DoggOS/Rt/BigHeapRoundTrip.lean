/-
When a big allocation and its free cancel.

`Backed` is what the physical ranges and the page map keep between the calls:
the page map's own pages are never free.  A successful allocation maps every
page of the block, the free undoes one page of it, and every allocation of a
physical page pops one page from each range that has any; the round trip
therefore needs a block of one page, a virtual range that was not taken whole,
and a single range with free pages.
-/

import DoggOS.Mem.PageMapCalls
import DoggOS.Mem.PhysicalPageSets
import DoggOS.Mem.VirtualRangeSets
import DoggOS.Rt.BigHeap

namespace DoggOS.Rt

open Mem

def OwnPage (map : PageMap) (page : Nat) : Prop :=
  page = map.cr3 ∨ page = map.ptable ∨
    ∃ index, index < 1022 ∧ map.TableUsed index ∧ page = map.table index

structure Backed (physical : PRList) (map : PageMap) : Prop where
  stacked : physical.Stacked
  pastWords : physical.PastWordsOk
  nullUnmanaged : ¬ physical.Managed nullPage
  wellFormed : map.WellFormed
  ownPages : ∀ page, OwnPage map page → page ≠ nullPage ∧ ¬ physical.Free page

def PagesSuffice : Nat → Nat → PRList → PageMap → Prop
  | 0, _, _, _ => True
  | count + 1, virtualPage, physical, map =>
      (physical.allocPhysicalPage 0).1 ≠ nullPage ∧
        (¬ map.TableUsed (pdirIndex virtualPage) →
          ((physical.allocPhysicalPage 0).2.allocPhysicalPage 0).1 ≠ nullPage) ∧
        ∀ status map' physical', mapPage (physical.allocPhysicalPage 0).2 map virtualPage
            (physical.allocPhysicalPage 0).1 = some (status, map', physical') →
          PagesSuffice count (virtualPage + 0x1000) physical' map'

namespace BigHeap

structure WellFormed (start size : Nat) (heap : BigHeap) : Prop where
  positive : 0 < start
  tiled : ∃ free used, heap.virtual.Shape free used ∧ Tiling start size free used ∧
    ∀ r ∈ free, r.start < 2 ^ 20
  backed : Backed heap.physical heap.map
  unmapped : ∀ page, page < 1022 * 1024 → heap.virtual.FreePage page →
    heap.map.binding page = none

/-- The call returns a block below the page map window and finds every physical page it needs. -/
structure Succeeds (heap : BigHeap) (size : Nat) : Prop where
  nonNull : (heap.virtual.allocVirtualRange size).1 ≠ 0
  below : (heap.virtual.allocVirtualRange size).1 / 4096 + pageCount size ≤ 1022 * 1024
  pages : PagesSuffice (pageCount size) (heap.virtual.allocVirtualRange size).1 heap.physical
    heap.map

/-- The allocation maps its block, and its free unmaps it, returns every physical page but new
page tables, and restores the set of free virtual pages. -/
def RoundTrip (heap : BigHeap) (size : Nat) : Prop :=
  ∃ address after freed, heap.bigAlloc size = some (address, after) ∧
    (∀ fuel, 0 < fuel → after.bigFree fuel address = some freed) ∧
    (∀ offset, offset < pageCount size → freed.map.binding (address / 4096 + offset) = none) ∧
    (∀ page, heap.physical.Free page → freed.physical.Free page ∨
      ∃ index, index < 1022 ∧ freed.map.TableUsed index ∧ ¬ heap.map.TableUsed index ∧
        freed.map.table index = page) ∧
    ∀ page, freed.virtual.FreePage page ↔ heap.virtual.FreePage page

end BigHeap

structure Owned (physical : PRList) (map : PageMap) : Prop where
  stacked : physical.Stacked
  nullUnmanaged : ¬ physical.Managed nullPage
  wellFormed : map.WellFormed
  ownPages : ∀ page, OwnPage map page → page ≠ nullPage ∧ ¬ physical.Free page

theorem Backed.owned {physical : PRList} {map : PageMap} (backed : Backed physical map) :
    Owned physical map :=
  ⟨backed.stacked, backed.nullUnmanaged, backed.wellFormed, backed.ownPages⟩

namespace Owned

variable {physical : PRList} {map : PageMap}

theorem fresh (owned : Owned physical map) {page : Nat} (free : physical.Free page) :
    map.FreshTable page := by
  obtain ⟨aligned, word⟩ := owned.stacked.managed_page (owned.stacked.free_managed free)
  refine ⟨aligned, word, ?_, ?_, ?_⟩
  · intro same
    exact (owned.ownPages page (Or.inl same)).2 free
  · intro same
    exact (owned.ownPages page (Or.inr (Or.inl same))).2 free
  · intro index below used same
    exact (owned.ownPages page (Or.inr (Or.inr ⟨index, below, used, same⟩))).2 free

theorem alloc (owned : Owned physical map) (flags : Nat) :
    Owned (physical.allocPhysicalPage flags).2 map := by
  obtain ⟨-, stacked, free, managed, -⟩ := owned.stacked.alloc flags
  refine ⟨stacked, fun null => owned.nullUnmanaged ((managed _).mp null), owned.wellFormed,
    fun page own => ?_⟩
  obtain ⟨nonNull, notFree⟩ := owned.ownPages page own
  exact ⟨nonNull, fun still => notFree ((free page).mp still).1⟩

theorem alloc_page (owned : Owned physical map) {flags : Nat}
    (nonNull : (physical.allocPhysicalPage flags).1 ≠ nullPage) :
    (physical.allocPhysicalPage flags).1 ∈ physical.tops ∧
      physical.Free (physical.allocPhysicalPage flags).1 ∧
      ¬ (physical.allocPhysicalPage flags).2.Free (physical.allocPhysicalPage flags).1 := by
  have top := (owned.stacked.alloc_returns flags).resolve_left nonNull
  obtain ⟨-, -, free, -, -⟩ := owned.stacked.alloc flags
  exact ⟨top, PRList.free_of_top top, fun still => ((free _).mp still).2 top⟩

/-- One turn of the page loop binds one page. -/
theorem mapPage (owned : Owned physical map) {virtualPage pageAddress : Nat}
    (positive : 0 < virtualPage) (below : virtualPage < 0xff800000) (word : pageAddress < 2 ^ 32)
    (unmapped : map.binding (virtualPage / 4096) = none)
    (table : ¬ map.TableUsed (pdirIndex virtualPage) →
      (physical.allocPhysicalPage 0).1 ≠ nullPage) :
    ∃ map', Rt.mapPage physical map virtualPage pageAddress =
        some (.ok, map', if map.TableUsed (pdirIndex virtualPage) then physical
          else (physical.allocPhysicalPage 0).2) ∧
      Owned (if map.TableUsed (pdirIndex virtualPage) then physical
        else (physical.allocPhysicalPage 0).2) map' ∧
      (∀ page, page < 1022 * 1024 → map'.binding page =
        if page = virtualPage / 4096 then some (pageAddress - pageAddress % 4096)
        else map.binding page) ∧
      map.Grows map' (pdirIndex virtualPage) (physical.allocPhysicalPage 0).1 := by
  have fresh : ¬ map.TableUsed (pdirIndex virtualPage) →
      map.FreshTable (physical.allocPhysicalPage 0).1 := fun unused =>
    owned.fresh (owned.alloc_page (table unused)).2.1
  have low : bigAllocFlags < 4096 := by decide
  rcases owned.wellFormed.mapLinearAddress (fun physical => physical.allocPhysicalPage 0) physical
    positive below word low (by decide) fresh with
    ⟨bound, -⟩ | ⟨-, map', ran, wellFormed, bindings, grows⟩
  · exact absurd unmapped bound
  · refine ⟨map', ran, ?_, bindings, grows⟩
    by_cases used : map.TableUsed (pdirIndex virtualPage)
    · rw [if_pos used]
      refine ⟨owned.stacked, owned.nullUnmanaged, wellFormed, fun page own => ?_⟩
      refine owned.ownPages page ?_
      rcases own with directory | ptable | ⟨index, inDirectory, tableUsed, same⟩
      · exact Or.inl (directory.trans grows.cr3)
      · exact Or.inr (Or.inl (ptable.trans grows.ptable))
      · have wasUsed := (grows.adds index inDirectory tableUsed).resolve_right
          fun new => new.1 used
        rw [(grows.keeps index inDirectory wasUsed).2] at same
        exact Or.inr (Or.inr ⟨index, inDirectory, wasUsed, same⟩)
    · rw [if_neg used]
      obtain ⟨-, -, notFree⟩ := owned.alloc_page (table used)
      have after := owned.alloc 0
      refine ⟨after.stacked, after.nullUnmanaged, wellFormed, fun page own => ?_⟩
      rcases own with directory | ptable | ⟨index, inDirectory, tableUsed, same⟩
      · exact after.ownPages page (Or.inl (directory.trans grows.cr3))
      · exact after.ownPages page (Or.inr (Or.inl (ptable.trans grows.ptable)))
      · rcases grows.adds index inDirectory tableUsed with wasUsed | ⟨-, -, isNew⟩
        · rw [(grows.keeps index inDirectory wasUsed).2] at same
          exact after.ownPages page (Or.inr (Or.inr ⟨index, inDirectory, wasUsed, same⟩))
        · rw [same, isNew]
          exact ⟨table used, notFree⟩

end Owned

namespace Backed

variable {physical : PRList} {map : PageMap}

theorem alloc (backed : Backed physical map) (flags : Nat) :
    Backed (physical.allocPhysicalPage flags).2 map := by
  obtain ⟨-, -, -, -, past⟩ := backed.stacked.alloc flags
  have after := backed.owned.alloc flags
  exact ⟨after.stacked, past backed.pastWords, after.nullUnmanaged, after.wellFormed, after.ownPages⟩

theorem mapPage (backed : Backed physical map) {virtualPage pageAddress : Nat}
    (positive : 0 < virtualPage) (below : virtualPage < 0xff800000) (word : pageAddress < 2 ^ 32)
    (unmapped : map.binding (virtualPage / 4096) = none)
    (table : ¬ map.TableUsed (pdirIndex virtualPage) →
      (physical.allocPhysicalPage 0).1 ≠ nullPage) :
    ∃ map', Rt.mapPage physical map virtualPage pageAddress =
        some (.ok, map', if map.TableUsed (pdirIndex virtualPage) then physical
          else (physical.allocPhysicalPage 0).2) ∧
      Backed (if map.TableUsed (pdirIndex virtualPage) then physical
        else (physical.allocPhysicalPage 0).2) map' ∧
      (∀ page, page < 1022 * 1024 → map'.binding page =
        if page = virtualPage / 4096 then some (pageAddress - pageAddress % 4096)
        else map.binding page) ∧
      map.Grows map' (pdirIndex virtualPage) (physical.allocPhysicalPage 0).1 := by
  obtain ⟨map', ran, after, bindings, grows⟩ :=
    backed.owned.mapPage positive below word unmapped table
  have past : (if map.TableUsed (pdirIndex virtualPage) then physical
      else (physical.allocPhysicalPage 0).2).PastWordsOk := by
    by_cases used : map.TableUsed (pdirIndex virtualPage)
    · rw [if_pos used]
      exact backed.pastWords
    · rw [if_neg used]
      exact (backed.alloc 0).pastWords
  exact ⟨map', ran,
    ⟨after.stacked, past, after.nullUnmanaged, after.wellFormed, after.ownPages⟩, bindings, grows⟩

/-- The whole page loop: every page of the block ends up mapped. -/
theorem mapPages (count : Nat) (backed : Backed physical map) {page : Nat} (positive : 0 < page)
    (below : page + count ≤ 1022 * 1024)
    (unmapped : ∀ offset, offset < count → map.binding (page + offset) = none)
    (suffice : PagesSuffice count (page * 4096) physical map) :
    ∃ physical' map', Rt.mapPages count (page * 4096) physical map =
        some (true, physical', map') ∧ Backed physical' map' ∧
      (∀ offset, offset < count → map'.binding (page + offset) ≠ none) ∧
      ∀ other, other < 1022 * 1024 → map.binding other ≠ none → map'.binding other ≠ none := by
  induction count generalizing page physical map with
  | zero =>
      exact ⟨physical, map, rfl, backed, fun _ impossible => absurd impossible (by omega),
        fun _ _ bound => bound⟩
  | succ count ih =>
      obtain ⟨nonNull, table, later⟩ := suffice
      have allocated := backed.alloc 0
      have word : (physical.allocPhysicalPage 0).1 < 2 ^ 32 :=
        (backed.stacked.managed_page
          (backed.stacked.free_managed (backed.owned.alloc_page nonNull).2.1)).2
      have samePage : page * 4096 / 4096 = page := Nat.mul_div_cancel _ (by omega)
      have hereUnmapped : map.binding (page * 4096 / 4096) = none := by
        rw [samePage]
        exact unmapped 0 (by omega)
      obtain ⟨middle, ran, middleBacked, middleBindings, -⟩ := allocated.mapPage
        (by omega) (by omega) word hereUnmapped table
      rw [samePage] at middleBindings
      have next : (page * 4096 + 0x1000) % wordLimit = (page + 1) * 4096 := by
        unfold wordLimit
        omega
      have rest := later _ _ _ ran
      rw [show page * 4096 + 0x1000 = (page + 1) * 4096 by omega] at rest
      obtain ⟨physical', map', ranRest, backed', bound, kept⟩ := ih middleBacked (by omega)
        (by omega) (fun offset inBlock => by
          rw [middleBindings _ (by omega), if_neg (by omega), Nat.add_assoc]
          exact unmapped (1 + offset) (by omega)) rest
      refine ⟨physical', map', ?_, backed', fun offset inBlock => ?_, fun other inRange was => ?_⟩
      · rw [Rt.mapPages]
        simp only [ran, Option.bind_eq_bind, Option.bind_some, next]
        exact ranRest
      · by_cases first : offset = 0
        · subst first
          refine kept page (by omega) ?_
          rw [middleBindings page (by omega), if_pos rfl]
          exact Option.some_ne_none _
        · have atRest := bound (offset - 1) (by omega)
          rwa [show page + 1 + (offset - 1) = page + offset by omega] at atRest
      · refine kept other inRange ?_
        rw [middleBindings other inRange]
        by_cases here : other = page
        · rw [if_pos here]
          exact Option.some_ne_none _
        · rw [if_neg here]
          exact was

theorem free (backed : Backed physical map) {page : Nat} (held : physical.Held page)
    (nonNull : page ≠ nullPage) :
    ∃ after, (∀ fuel, 0 < fuel → physical.freePhysicalPages fuel page = some after) ∧
      ∀ other, after.Free other ↔ physical.Free other ∨ other = page := by
  have ends := backed.stacked.endsAt backed.pastWords page
  obtain ⟨after, freed, -, free, -⟩ := backed.stacked.free ends nonNull held
  exact ⟨after, freed, free⟩

end Backed

namespace BigHeap

variable {start size : Nat} {heap : BigHeap} {bytes : Nat}

theorem WellFormed.block (wellFormed : heap.WellFormed start size) (request : 0 < bytes)
    (succeeds : heap.Succeeds bytes) :
    ∃ page, 0 < page ∧ page + pageCount bytes ≤ 1022 * 1024 ∧
      (heap.virtual.allocVirtualRange bytes).1 = page * 4096 ∧
      (∀ offset, offset < pageCount bytes → heap.map.binding (page + offset) = none) ∧
      ((∀ other, ((heap.virtual.allocVirtualRange bytes).2.freeVirtualRange
          (page * 4096)).FreePage other ↔ heap.virtual.FreePage other) ↔
        ¬ heap.virtual.ExactFit (pageCount bytes)) := by
  obtain ⟨free, used, shape, tiling, words⟩ := wellFormed.tiled
  have nonNull := succeeds.nonNull
  have below := succeeds.below
  have pages := pageCount_pos request
  by_cases exactFit : heap.virtual.ExactFit (pageCount bytes)
  · obtain ⟨page, positive, -, address, freePages, lost⟩ :=
      shape.exactFit_free tiling wellFormed.positive words exactFit
    rw [address, Nat.mul_div_cancel _ (by omega)] at below
    refine ⟨page, positive, below, address, fun offset inBlock =>
      wellFormed.unmapped _ (by omega) (freePages offset inBlock), ?_⟩
    refine iff_of_false (fun restored => lost ((restored page).mpr ?_)) (fun no => no exactFit)
    exact freePages 0 pages
  · obtain ⟨page, positive, -, address, freePages, restored⟩ :=
      shape.alloc_free tiling wellFormed.positive words request exactFit nonNull
    rw [address, Nat.mul_div_cancel _ (by omega)] at below
    exact ⟨page, positive, below, address, fun offset inBlock =>
      wellFormed.unmapped _ (by omega) (freePages offset inBlock), iff_of_true restored exactFit⟩

theorem bigAlloc_eq (request : 0 < bytes) {physical : PRList} {map : PageMap}
    (mapped : mapPages (pageCount bytes) (heap.virtual.allocVirtualRange bytes).1 heap.physical
      heap.map = some (true, physical, map)) :
    heap.bigAlloc bytes = some ((heap.virtual.allocVirtualRange bytes).1,
      { virtual := (heap.virtual.allocVirtualRange bytes).2, physical, map }) := by
  unfold bigAlloc
  rw [if_neg (by omega)]
  simp only [mapped, Option.bind_eq_bind, Option.bind_some, if_true]
  rfl

/-- What the free does to the page map, and which page it hands back. -/
theorem bigFree_eq {page : Nat} (wellFormed : heap.map.WellFormed) (positive : 0 < page)
    (below : page < 1022 * 1024) (bound : heap.map.binding page ≠ none) :
    ∃ map, (∀ fuel, heap.bigFree fuel (page * 4096) =
        (heap.physical.freePhysicalPages fuel ((heap.map.binding page).getD nullPage)).map
          (fun physical => { virtual := heap.virtual.freeVirtualRange (page * 4096), physical, map })) ∧
      (∀ other, other < 1022 * 1024 → map.binding other =
        if other = page then none else heap.map.binding other) ∧
      ∀ pageTable, heap.map.Grows map (pdirIndex (page * 4096)) pageTable := by
  have samePage : page * 4096 / 4096 = page := Nat.mul_div_cancel _ (by omega)
  have addressPositive : 0 < page * 4096 := by omega
  have addressBelow : page * 4096 < 0xff800000 := by omega
  have lookup := wellFormed.linearAddressPhysicalPage addressPositive addressBelow
  rw [samePage] at lookup
  rcases wellFormed.unmapLinearAddress addressPositive addressBelow with
    ⟨free, -⟩ | ⟨-, map, ran, -, bindings, grows⟩
  · rw [samePage] at free
    exact absurd free bound
  · rw [samePage] at bindings
    refine ⟨map, fun fuel => ?_, bindings, grows⟩
    unfold bigFree
    rw [if_neg (by omega)]
    simp only [lookup, ran, Option.bind_eq_bind, Option.bind_some]
    cases heap.physical.freePhysicalPages fuel ((heap.map.binding page).getD nullPage) <;> rfl

/-- A block of several pages keeps all but its first page mapped. -/
theorem WellFormed.one_page_of_roundTrip (wellFormed : heap.WellFormed start size) (request : 0 < bytes)
    (succeeds : heap.Succeeds bytes) (roundTrip : heap.RoundTrip bytes) : pageCount bytes = 1 := by
  obtain ⟨page, positive, below, address, unmapped, -⟩ := wellFormed.block request succeeds
  have pages := pageCount_pos request
  have suffice := succeeds.pages
  rw [address] at suffice
  obtain ⟨physical', map', ran, backed', bound, -⟩ :=
    wellFormed.backed.mapPages _ positive below unmapped suffice
  rw [← address] at ran
  obtain ⟨returned, after, freed, allocated, released, blockUnmapped, -, -⟩ := roundTrip
  rw [bigAlloc_eq request ran, Option.some_inj, address] at allocated
  obtain ⟨rfl, rfl⟩ := Prod.mk.inj allocated
  obtain ⟨map, freeEq, bindings, -⟩ := @bigFree_eq
    { virtual := (heap.virtual.allocVirtualRange bytes).2, physical := physical', map := map' }
    page backed'.wellFormed positive (by omega) (bound 0 pages)
  by_contra several
  have once := released 1 (by omega)
  rw [freeEq 1, Option.map_eq_some_iff] at once
  obtain ⟨physical, -, rfl⟩ := once
  have gone := blockUnmapped 1 (by omega)
  rw [Nat.mul_div_cancel _ (by omega), bindings _ (by omega), if_neg (by omega)] at gone
  exact bound 1 (by omega) gone

theorem tops_eq_singleton {list : PRList} {page : Nat} (top : page ∈ list.tops)
    (few : list.tops.length ≤ 1) : list.tops = [page] := by
  obtain ⟨only, same⟩ := List.length_eq_one_iff.mp
    (Nat.le_antisymm few (List.length_pos_of_mem top))
  rw [same, List.mem_singleton] at top
  rw [same, top]

/-- A block of one page: the free gives its physical page back, and what is missing then is
what the other ranges lost. -/
theorem WellFormed.roundTrip_one_page (wellFormed : heap.WellFormed start size) (request : 0 < bytes)
    (succeeds : heap.Succeeds bytes) (single : pageCount bytes = 1) :
    heap.RoundTrip bytes ↔ ¬ heap.virtual.ExactFit (pageCount bytes) ∧
      heap.physical.tops.length = 1 := by
  obtain ⟨page, positive, below, address, unmapped, restored⟩ := wellFormed.block request succeeds
  have suffice := succeeds.pages
  rw [address, single] at suffice
  rw [single] at below unmapped
  obtain ⟨nonNull, table, -⟩ := suffice
  have backed := wellFormed.backed
  have samePage : page * 4096 / 4096 = page := Nat.mul_div_cancel _ (by omega)
  obtain ⟨dataTop, dataFree, dataTaken⟩ := backed.owned.alloc_page nonNull
  obtain ⟨returned, -, firstFree, firstManaged, -⟩ := backed.stacked.alloc 0
  have first := backed.alloc 0
  obtain ⟨physical, physicalEq⟩ : ∃ physical, physical = (heap.physical.allocPhysicalPage 0).2 :=
    ⟨_, rfl⟩
  obtain ⟨data, dataEq⟩ : ∃ data, data = (heap.physical.allocPhysicalPage 0).1 := ⟨_, rfl⟩
  rw [← physicalEq] at dataTaken firstFree firstManaged first table
  rw [← dataEq] at nonNull dataTop dataFree dataTaken returned
  obtain ⟨dataAligned, dataWord⟩ :=
    backed.stacked.managed_page (backed.stacked.free_managed dataFree)
  have addressPositive : 0 < page * 4096 := by omega
  have addressBelow : page * 4096 < 0xff800000 := by omega
  obtain ⟨map', mapped, backed', bindings, grows⟩ := first.mapPage addressPositive addressBelow
    dataWord (by rw [samePage]; exact unmapped 0 (by omega)) table
  rw [samePage, show data - data % 4096 = data by omega] at bindings
  obtain ⟨final, finalEq⟩ : ∃ final, final = if heap.map.TableUsed (pdirIndex (page * 4096)) then
      physical else (physical.allocPhysicalPage 0).2 := ⟨_, rfl⟩
  rw [← finalEq] at mapped backed'
  have bound : map'.binding page = some data := by rw [bindings page (by omega), if_pos rfl]
  -- the page table that was created, when one was, holds the only other page taken
  have finalFree : ∀ other, final.Free other → physical.Free other := by
    intro other free
    rw [finalEq] at free
    by_cases used : heap.map.TableUsed (pdirIndex (page * 4096))
    · rwa [if_pos used] at free
    · rw [if_neg used] at free
      exact (((first.stacked.alloc 0).2.2.1 other).mp free).1
  have finalManaged : ∀ other, final.Managed other ↔ physical.Managed other := by
    intro other
    rw [finalEq]
    by_cases used : heap.map.TableUsed (pdirIndex (page * 4096))
    · rw [if_pos used]
    · rw [if_neg used]
      exact (first.stacked.alloc 0).2.2.2.1 other
  have held : final.Held data := (backed'.stacked.held_iff data).mpr
    ⟨(finalManaged data).mpr ((firstManaged data).mpr (backed.stacked.free_managed dataFree)),
      fun free => dataTaken (finalFree data free)⟩
  obtain ⟨freedPhysical, freed, freedFree⟩ := backed'.free held nonNull
  obtain ⟨map, freeEq, mapBindings, mapGrows⟩ := @bigFree_eq
    { virtual := (heap.virtual.allocVirtualRange bytes).2, physical := final, map := map' }
    page backed'.wellFormed positive (by omega) (by simp [bound])
  simp only [bound, Option.getD_some] at freeEq
  have ran : mapPages (pageCount bytes) (heap.virtual.allocVirtualRange bytes).1 heap.physical
      heap.map = some (true, final, map') := by
    rw [single, address, mapPages]
    simp only [← physicalEq, ← dataEq, mapped, Option.bind_eq_bind, Option.bind_some]
    rfl
  have allocated := bigAlloc_eq request ran
  rw [address] at allocated
  obtain ⟨-, -, -, inDirectory, -⟩ := PageMap.indices addressBelow
  have usedAfter : map'.TableUsed (pdirIndex (page * 4096)) := by
    by_contra unused
    have unbound := backed'.wellFormed.binding_eq_none addressBelow unused
    rw [samePage, bound] at unbound
    cases unbound
  have newTable : ∀ index, index < 1022 → map.TableUsed index → ¬ heap.map.TableUsed index →
      ¬ heap.map.TableUsed (pdirIndex (page * 4096)) ∧ index = pdirIndex (page * 4096) ∧
        map.table index = (physical.allocPhysicalPage 0).1 := by
    intro index below used unused
    have middleUsed := ((mapGrows nullPage).adds index below used).resolve_right
      fun new => new.1 usedAfter
    obtain ⟨fresh, here, isTable⟩ := (grows.adds index below middleUsed).resolve_left unused
    exact ⟨fresh, here, ((mapGrows nullPage).keeps index below middleUsed).2.trans isTable⟩
  constructor
  · rintro ⟨otherAddress, after, result, ranAlloc, ranFree, -, pagesBack, virtualBack⟩
    rw [allocated, Option.some_inj] at ranAlloc
    obtain ⟨rfl, rfl⟩ := Prod.mk.inj ranAlloc
    have once := ranFree 1 (by omega)
    rw [freeEq 1, freed 1 (by omega), Option.map_some, Option.some_inj] at once
    subst once
    refine ⟨restored.mp virtualBack, ?_⟩
    by_contra several
    obtain ⟨front, split⟩ : ∃ front, heap.physical.tops = front ++ [data] := by
      rcases List.eq_nil_or_concat heap.physical.tops with none | ⟨front, last, split⟩
      · rw [none] at dataTop
        cases dataTop
      · rw [List.concat_eq_append] at split
        refine ⟨front, ?_⟩
        rw [returned, split]
        simp
    obtain ⟨lost, inFront⟩ : ∃ lost, lost ∈ front := by
      refine List.exists_mem_of_ne_nil front fun empty => several ?_
      rw [split, empty]
      rfl
    have lostTop : lost ∈ heap.physical.tops := by simp [split, inFront]
    have different : lost ≠ data := by
      intro same
      have nodup := backed.stacked.tops_nodup
      rw [split] at nodup
      exact (List.nodup_append.mp nodup).2.2 lost inFront data (by simp) same
    have notFree : ¬ physical.Free lost := fun free => ((firstFree lost).mp free).2 lostTop
    rcases pagesBack lost (PRList.free_of_top lostTop) with
      free | ⟨index, below, used, unused, isTable⟩
    · rcases (freedFree lost).mp free with still | same
      · exact notFree (finalFree lost still)
      · exact different same
    · obtain ⟨fresh, -, tableEq⟩ := newTable index below used unused
      rw [← isTable, tableEq] at notFree
      exact notFree (first.owned.alloc_page (table fresh)).2.1
  · rintro ⟨noExactFit, one⟩
    have onlyTop := tops_eq_singleton dataTop one.le
    refine ⟨page * 4096, _,
      { virtual := (heap.virtual.allocVirtualRange bytes).2.freeVirtualRange (page * 4096)
        physical := freedPhysical, map },
      allocated, fun fuel positiveFuel => ?_, ?_, ?_, ?_⟩
    · rw [freeEq fuel, freed fuel positiveFuel]
      rfl
    · intro offset inBlock
      rw [samePage, show offset = 0 by omega]
      exact (mapBindings page (by omega)).trans (if_pos rfl)
    · intro other free
      by_cases isData : other = data
      · exact Or.inl ((freedFree other).mpr (Or.inr isData))
      · have stillFree : physical.Free other :=
          (firstFree other).mpr ⟨free, by rw [onlyTop]; simpa using isData⟩
        by_cases used : heap.map.TableUsed (pdirIndex (page * 4096))
        · rw [if_pos used] at finalEq
          exact Or.inl ((freedFree other).mpr (Or.inl (finalEq ▸ stillFree)))
        · rw [if_neg used] at finalEq
          obtain ⟨tableTop, -, -⟩ := first.owned.alloc_page (table used)
          have fewer := backed.stacked.alloc_tops_length 0
          rw [← physicalEq] at fewer
          have onlyTable := tops_eq_singleton tableTop (fewer.trans one.le)
          by_cases isTable : other = (physical.allocPhysicalPage 0).1
          · obtain ⟨finalUsed, finalTable⟩ := (mapGrows nullPage).keeps _ inDirectory usedAfter
            obtain ⟨-, -, created⟩ :=
              (grows.adds _ inDirectory usedAfter).resolve_left used
            exact Or.inr ⟨_, inDirectory, finalUsed, used,
              finalTable.trans (created.trans isTable.symm)⟩
          · left
            refine (freedFree other).mpr (Or.inl ?_)
            rw [finalEq]
            exact ((first.stacked.alloc 0).2.2.1 other).mpr
              ⟨stillFree, by rw [onlyTable]; simpa using isTable⟩
    · exact restored.mpr noExactFit

/-- The exact condition for a free to undo its allocation. -/
theorem WellFormed.roundTrip_iff (wellFormed : heap.WellFormed start size) (request : 0 < bytes)
    (succeeds : heap.Succeeds bytes) :
    heap.RoundTrip bytes ↔ pageCount bytes = 1 ∧ ¬ heap.virtual.ExactFit (pageCount bytes) ∧
      heap.physical.tops.length = 1 := by
  constructor
  · intro roundTrip
    have single := wellFormed.one_page_of_roundTrip request succeeds roundTrip
    exact ⟨single, (wellFormed.roundTrip_one_page request succeeds single).mp roundTrip⟩
  · rintro ⟨single, rest⟩
    exact (wellFormed.roundTrip_one_page request succeeds single).mpr rest

end BigHeap

/-- The free of a big allocation undoes it exactly for one-page blocks that were not a whole free
range, with one physical range that has free pages. -/
theorem bigFree_undoes_bigAlloc_iff (start size : Nat) (heap : BigHeap)
    (wellFormed : heap.WellFormed start size) (bytes : Nat) (request : 0 < bytes)
    (succeeds : heap.Succeeds bytes) :
    heap.RoundTrip bytes ↔ pageCount bytes = 1 ∧ ¬ heap.virtual.ExactFit (pageCount bytes) ∧
      heap.physical.ranges.countP (fun range => decide (range.freeCount ≠ 0)) = 1 := by
  rw [← PRList.tops_length]
  exact wellFormed.roundTrip_iff request succeeds

def sampleHeap : BigHeap :=
  { virtual := { freeCount := 1, rangeCount := 1
                 ranges := fun slot => if slot = 0 then ⟨16, 16⟩ else ⟨0, 0⟩ }
    physical := PRList.init [(0x100000, 0x8000)] 0 (fun _ => 0)
    map := selfMap }

theorem sampleHeap_wellFormed : sampleHeap.WellFormed 16 16 := by
  have shape : sampleHeap.virtual.Shape [⟨16, 16⟩] [] := ⟨rfl, rfl, rfl, trivial⟩
  have tiling : Tiling 16 16 [⟨16, 16⟩] [] := by
    refine ⟨fun point => ?_, by simp, by simp, by simp, by simp, by simp⟩
    simp only [List.append_nil, Extent.cover_cons, Extent.cover_nil, Nat.zero_add]
    rfl
  have stacked : sampleHeap.physical.Stacked :=
    PRList.init_stacked (by decide) (List.pairwise_singleton _ _)
  have pastWords : ∀ range ∈ sampleHeap.physical.ranges, 0 < range.pageCount →
      range.flags sampleHeap.physical.mem range.pageCount % 4 ≠ 1 := by decide
  have ranges : ∀ range ∈ sampleHeap.physical.ranges, range.baseAddress = 0x100000 := by decide
  have high : ∀ page, sampleHeap.physical.Managed page → 0x100000 ≤ page := by
    rintro page ⟨range, member, index, -, same⟩
    have base := ranges range member
    unfold PRange.pageAt at same
    omega
  refine ⟨by omega, ⟨_, _, shape, tiling, by simp⟩,
    ⟨stacked, pastWords, fun null => ?_, selfMap_wellFormed, fun page own => ?_⟩, ?_⟩
  · have impossible := high _ null
    unfold nullPage at impossible
    omega
  · have low : page = 4096 ∨ page = 8192 := by
      rcases own with directory | ptable | ⟨index, below, used, -⟩
      · exact Or.inl directory
      · exact Or.inr (ptable.trans (by decide))
      · exact absurd used (selfMap_unused index below)
    refine ⟨by unfold nullPage; omega, fun free => ?_⟩
    have managed := high page (stacked.free_managed free)
    omega
  · intro page inRange _
    have used := selfMap_unused (page / 1024) (by omega)
    exact (selfMap_wellFormed.binding_eq inRange).trans (if_neg fun both => used both.1)

theorem bigFree_undoes_bigAlloc_one : sampleHeap.RoundTrip 4096 :=
  (bigFree_undoes_bigAlloc_iff 16 16 sampleHeap sampleHeap_wellFormed 4096 (by decide)
    ⟨by decide, by decide, by decide, fun _ => by decide, fun _ _ _ _ => trivial⟩).mpr
    ⟨by decide, fun ⟨index, fit, exact⟩ => by
      have atFirst : sampleHeap.virtual.firstFit (pageCount 4096) = some 0 := by decide
      rw [atFirst, Option.mem_some_iff] at fit
      subst fit
      exact absurd exact (by decide), by decide⟩

/-- Two pages: the second one stays mapped, and its physical page stays taken. -/
theorem bigFree_keeps_second_page :
    ¬ ∀ start size heap, BigHeap.WellFormed start size heap → ∀ bytes, 0 < bytes →
      heap.Succeeds bytes → heap.RoundTrip bytes := by
  intro undoes
  have backed := sampleHeap_wellFormed.backed
  have suffice : PagesSuffice 2 0x10000 sampleHeap.physical sampleHeap.map := by
    refine ⟨by decide, fun _ => by decide, fun status map' physical' ran => ?_⟩
    obtain ⟨mapped, known, -⟩ := @Backed.mapPage _ _ (backed.alloc 0) 0x10000
      (sampleHeap.physical.allocPhysicalPage 0).1 (by omega) (by omega) (by decide)
      (sampleHeap_wellFormed.unmapped _ (by omega) ⟨⟨16, 16⟩, by decide, by decide⟩)
      (fun _ => by decide)
    rw [known, Option.some_inj] at ran
    obtain ⟨-, rest⟩ := Prod.mk.inj ran
    obtain ⟨-, rfl⟩ := Prod.mk.inj rest
    refine ⟨by decide, fun _ => by decide, fun _ _ _ _ => trivial⟩
  have succeeds : sampleHeap.Succeeds 8192 := ⟨by decide, by decide, suffice⟩
  have roundTrip := undoes 16 16 sampleHeap sampleHeap_wellFormed 8192 (by decide) succeeds
  have single := sampleHeap_wellFormed.one_page_of_roundTrip (by decide) succeeds roundTrip
  exact absurd single (by decide)

end DoggOS.Rt

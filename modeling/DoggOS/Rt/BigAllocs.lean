/-
Which big allocations are all or nothing.

The page loop ends early only on a status that `k_mem_MapLinearAddress` never
returns, so a call returns what the virtual ranges gave it.  When the physical
pages run out the pages are mapped to page zero, and when there is no virtual
range the loop maps the pages from address zero on.  `Untouched` are the states
in which that second loop leaves no trace.
-/

import DoggOS.Mem.PageMapExhaustion
import DoggOS.Mem.PageZeroTables
import DoggOS.Mem.PhysicalPageRoom
import DoggOS.Rt.BigHeapRoundTrip
import Mathlib.Data.Finset.Card

namespace DoggOS.Rt

open Mem

def newTables (map : PageMap) (page count : Nat) : Finset Nat :=
  (Finset.range 1022).filter fun index =>
    ¬ map.TableUsed index ∧ page < (index + 1) * 1024 ∧ index * 1024 < page + count

namespace BigHeap

/-- The states between the calls; slot `0x3fe` of the directory is the page map's own. -/
structure Consistent (heap : BigHeap) : Prop where
  owned : Owned heap.physical heap.map
  held : ∀ page frame, page < 1022 * 1024 → heap.map.binding page = some frame →
    ¬ heap.physical.Free frame
  reserved : ¬ heap.map.TableUsed pmapPtableIndex

/-- The free range in slot `index` has the block below the slots that the page map keeps for
itself, and there is a page for each page of the block and each page table that it lacks. -/
structure Supplied (heap : BigHeap) (bytes index : Nat) : Prop where
  positive : 0 < (heap.virtual.ranges index).start
  below : (heap.virtual.ranges index).start + pageCount bytes ≤ 1022 * 1024
  pages : pageCount bytes + (newTables heap.map (heap.virtual.ranges index).start
    (pageCount bytes)).card ≤ heap.physical.room

def CanObtain (heap : BigHeap) (bytes : Nat) : Prop :=
  ∃ index ∈ heap.virtual.firstFit (pageCount bytes), heap.Supplied bytes index

def Unmapped (heap : BigHeap) (bytes : Nat) : Prop :=
  ∀ index ∈ heap.virtual.firstFit (pageCount bytes), ∀ offset < pageCount bytes,
    heap.map.binding ((heap.virtual.ranges index).start + offset) = none

/-- The pages of the block are mapped to different pages that were free before and are not now,
and that are no page tables. -/
structure MapsFresh (heap after : BigHeap) (page count : Nat) (frames : Nat → Nat) : Prop where
  mapped : ∀ offset < count, after.map.binding (page + offset) = some (frames offset)
  taken : ∀ offset < count,
    heap.physical.Free (frames offset) ∧ ¬ after.physical.Free (frames offset)
  noTable : ∀ offset < count, ¬ OwnPage after.map (frames offset)
  distinct : ∀ offset < count, ∀ other < count, frames offset = frames other → offset = other

/-- The call returns a mapped block, or NULL if there is none and then leaves the state alone. -/
structure AllOrNothing (heap : BigHeap) (bytes address : Nat) (after : BigHeap) : Prop where
  null_iff : address = 0 ↔ ¬ heap.CanObtain bytes
  mapped : address ≠ 0 → ∃ frames, heap.MapsFresh after (address / 4096) (pageCount bytes) frames
  unchanged : address = 0 → after = heap

structure Untouched (heap : BigHeap) (bytes : Nat) : Prop where
  noRange : ∀ range ∈ heap.virtual.freeRanges, range.size < pageCount bytes
  noPage : heap.physical.room = 0
  below : pageCount bytes ≤ 1022 * 1024
  inUse : ∀ page, 0 < page → page < pageCount bytes → heap.map.binding page ≠ none

end BigHeap

/-! ### The new page tables of a run -/

section NewTables

variable {map map' : PageMap} {page count pageTable : Nat}

theorem newTables_succ (below : page < 1022 * 1024)
    (used : ∀ index, index < 1022 →
      (map'.TableUsed index ↔ map.TableUsed index ∨ index = page / 1024)) :
    (newTables map page (count + 1)).card =
      (newTables map' (page + 1) count).card +
        if map.TableUsed (page / 1024) then 0 else 1 := by
  have bounds : ∀ index, index ≠ page / 1024 →
      (page < (index + 1) * 1024 ∧ index * 1024 < page + (count + 1) ↔
        page + 1 < (index + 1) * 1024 ∧ index * 1024 < page + 1 + count) := by
    intro index slot
    omega
  by_cases here : map.TableUsed (page / 1024)
  · have same : newTables map page (count + 1) = newTables map' (page + 1) count := by
      ext index
      unfold newTables
      rw [Finset.mem_filter, Finset.mem_filter, Finset.mem_range]
      by_cases inDirectory : index < 1022
      · rw [used index inDirectory]
        by_cases slot : index = page / 1024
        · rw [slot]
          simp only [here, true_or, not_true, false_and, and_false]
        · rw [bounds index slot, or_iff_left slot]
      · simp only [inDirectory, false_and]
    rw [if_pos here, same]
    exact (Nat.add_zero _).symm
  · have split : newTables map page (count + 1) =
        insert (page / 1024) (newTables map' (page + 1) count) := by
      ext index
      unfold newTables
      rw [Finset.mem_insert, Finset.mem_filter, Finset.mem_filter, Finset.mem_range]
      by_cases slot : index = page / 1024
      · rw [slot]
        simp only [here, not_false_eq_true, true_and, true_or, iff_true]
        omega
      · by_cases inDirectory : index < 1022
        · rw [used index inDirectory]
          rw [bounds index slot, or_iff_left slot, or_iff_right slot]
        · simp only [inDirectory, slot, false_and, false_or]
    have fresh : page / 1024 ∉ newTables map' (page + 1) count := by
      unfold newTables
      rw [Finset.mem_filter]
      intro both
      exact both.2.1 ((used _ (by omega)).mpr (Or.inr rfl))
    rw [if_neg here, split, Finset.card_insert_of_notMem fresh]

theorem newTables_first (below : page < 1022 * 1024) :
    (if map.TableUsed (page / 1024) then 0 else 1) ≤ (newTables map page (count + 1)).card := by
  by_cases here : map.TableUsed (page / 1024)
  · rw [if_pos here]
    exact Nat.zero_le _
  · have member : page / 1024 ∈ newTables map page (count + 1) := by
      unfold newTables
      rw [Finset.mem_filter, Finset.mem_range]
      have past : page < (page / 1024 + 1) * 1024 :=
        Nat.mul_comm 1024 _ ▸ Nat.lt_mul_div_succ page (show 0 < 1024 by omega)
      have before : page / 1024 * 1024 < page + (count + 1) :=
        Nat.lt_of_le_of_lt (Nat.div_mul_le_self page 1024)
          (Nat.lt_add_of_pos_right (Nat.succ_pos count))
      exact ⟨Nat.div_lt_of_lt_mul below, here, past, before⟩
    rw [if_neg here]
    exact Finset.card_pos.mpr ⟨_, member⟩

end NewTables

/-! ### The page loop -/

section PageLoop

variable {physical physical' : PRList} {map map' : PageMap} {count virtualPage page : Nat}
  {mapped : Bool}

/-- No status ends the page loop early. -/
theorem mapPages_succ (count virtualPage : Nat) (physical : PRList) (map : PageMap) :
    mapPages (count + 1) virtualPage physical map =
      (mapPage (physical.allocPhysicalPage 0).2 map virtualPage
        (physical.allocPhysicalPage 0).1).bind fun result =>
          mapPages count ((virtualPage + 0x1000) % wordLimit) result.2.2 result.2.1 := by
  rw [mapPages]
  cases ran : mapPage (physical.allocPhysicalPage 0).2 map virtualPage
      (physical.allocPhysicalPage 0).1 with
  | none => simp only [ran, Option.bind_eq_bind, Option.bind_none]
  | some result =>
      obtain ⟨status, after, pages⟩ := result
      have goesOn : status ≠ .outOfPhysicalMem := fun out =>
        map.mapLinearAddress_status _ _ _ _ _ (out ▸ ran)
      simp only [ran, Option.bind_eq_bind, Option.bind_some, if_neg goesOn]

theorem mapPages_next (below : page + (count + 1) ≤ 2 ^ 20) (physical : PRList) (map : PageMap) :
    mapPages (count + 1) (page * 4096) physical map =
      (mapPage (physical.allocPhysicalPage 0).2 map (page * 4096)
        (physical.allocPhysicalPage 0).1).bind fun result =>
          mapPages count ((page + 1) * 4096) result.2.2 result.2.1 := by
  rw [mapPages_succ]
  cases count with
  | zero => simp only [mapPages]
  | succ count =>
      have next : (page * 4096 + 0x1000) % wordLimit = (page + 1) * 4096 := by
        unfold wordLimit
        omega
      rw [next]

theorem mapPages_true (ran : mapPages count virtualPage physical map =
    some (mapped, physical', map')) : mapped = true := by
  induction count generalizing virtualPage physical map with
  | zero => exact (congrArg Prod.fst (Option.some_inj.mp ran)).symm
  | succ count ih =>
      rw [mapPages_succ] at ran
      obtain ⟨result, -, rest⟩ := Option.bind_eq_some_iff.mp ran
      exact ih rest

theorem mapPage_room {pageAddress : Nat} {status : Status}
    (ran : mapPage physical map virtualPage pageAddress = some (status, map', physical')) :
    physical'.room ≤ physical.room := by
  rcases PageMap.mapLinearAddress_pages ran with same | taken
  · rw [same]
  · rw [taken, PRList.alloc_room]
    exact Nat.sub_le _ _

/-- Every turn takes a page from the fullest stack. -/
theorem mapPages_room (ran : mapPages count virtualPage physical map =
    some (mapped, physical', map')) : physical'.room ≤ physical.room - count := by
  induction count generalizing virtualPage physical map with
  | zero =>
      have same : physical = physical' := congrArg (fun result => result.2.1) (Option.some_inj.mp ran)
      rw [same]
      exact Nat.le_refl _
  | succ count ih =>
      rw [mapPages_succ] at ran
      obtain ⟨⟨status, map1, physical1⟩, turn, rest⟩ := Option.bind_eq_some_iff.mp ran
      have first := mapPage_room turn
      rw [PRList.alloc_room] at first
      have later := ih rest
      dsimp only at later
      omega

end PageLoop

/-! ### A block with enough pages -/

structure PageTaken (physical : PRList) (map : PageMap) (page frame : Nat) (physical' : PRList)
    (map' : PageMap) : Prop where
  owned : Owned physical' map'
  room : physical'.room = physical.room - 1 - if map.TableUsed (page / 1024) then 0 else 1
  tables : ∀ index, index < 1022 →
    (map'.TableUsed index ↔ map.TableUsed index ∨ index = page / 1024)
  bindings : ∀ other, other < 1022 * 1024 →
    map'.binding other = if other = page then some frame else map.binding other
  wasFree : physical.Free frame
  free : ∀ other, physical'.Free other → physical.Free other ∧ other ≠ frame
  own : ∀ page, OwnPage map' page → OwnPage map page ∨ physical.Free page ∧ page ≠ frame

structure BlockTaken (physical : PRList) (map : PageMap) (page count : Nat) (physical' : PRList)
    (map' : PageMap) (frames : Nat → Nat) : Prop where
  mapped : ∀ offset < count, map'.binding (page + offset) = some (frames offset)
  others : ∀ other, other < page → map'.binding other = map.binding other
  free : ∀ other, physical'.Free other → physical.Free other
  taken : ∀ offset < count, physical.Free (frames offset) ∧ ¬ physical'.Free (frames offset)
  own : ∀ page, OwnPage map' page → OwnPage map page ∨ physical.Free page
  noTable : ∀ offset < count, ¬ OwnPage map' (frames offset)
  distinct : ∀ offset < count, ∀ other < count, frames offset = frames other → offset = other

theorem PageTaken.cons {physical physical1 physical2 : PRList} {map map1 map2 : PageMap}
    {page count frame : Nat} {frames : Nat → Nat} (owned : Owned physical map)
    (first : PageTaken physical map page frame physical1 map1) (below : page < 1022 * 1024)
    (rest : BlockTaken physical1 map1 (page + 1) count physical2 map2 frames) :
    BlockTaken physical map page (count + 1) physical2 map2
      (fun offset => if offset = 0 then frame else frames (offset - 1)) where
  mapped offset inBlock := by
    cases offset with
    | zero =>
        rw [if_pos rfl, Nat.add_zero, rest.others page (Nat.lt_succ_self page),
          first.bindings page below, if_pos rfl]
    | succ offset =>
        have later := rest.mapped offset (by omega)
        rw [if_neg (Nat.succ_ne_zero offset), Nat.succ_sub_one, ← later]
        congr 1
        omega
  others other before := by
    rw [rest.others other (by omega), first.bindings other (by omega), if_neg (by omega)]
  free other stays := (first.free other (rest.free other stays)).1
  taken offset inBlock := by
    cases offset with
    | zero => exact ⟨first.wasFree, fun stays => (first.free frame (rest.free frame stays)).2 rfl⟩
    | succ offset =>
        obtain ⟨was, notNow⟩ := rest.taken offset (by omega)
        exact ⟨(first.free _ was).1, notNow⟩
  own other isOwn := by
    cases rest.own other isOwn with
    | inl middle =>
        cases first.own other middle with
        | inl before => exact Or.inl before
        | inr new => exact Or.inr new.1
    | inr was => exact Or.inr (first.free other was).1
  noTable offset inBlock isOwn := by
    cases offset with
    | zero =>
        have isFrame : OwnPage map2 frame := isOwn
        cases rest.own frame isFrame with
        | inl middle =>
            cases first.own frame middle with
            | inl before => exact (owned.ownPages frame before).2 first.wasFree
            | inr new => exact new.2 rfl
        | inr was => exact (first.free frame was).2 rfl
    | succ offset => exact rest.noTable offset (by omega) isOwn
  distinct offset inBlock other otherIn same := by
    have differs : ∀ later, later < count → frames later ≠ frame := fun later inRest =>
      (first.free _ (rest.taken later inRest).1).2
    cases offset with
    | zero =>
        cases other with
        | zero => rfl
        | succ other => exact absurd same.symm (differs other (by omega))
    | succ offset =>
        cases other with
        | zero => exact absurd same (differs offset (by omega))
        | succ other =>
            have equal := rest.distinct offset (by omega) other (by omega) same
            rw [equal]

namespace Owned

variable {physical : PRList} {map : PageMap}

theorem mapPage_taken (owned : Owned physical map) {page : Nat} (positive : 0 < page)
    (below : page < 1022 * 1024) (unmapped : map.binding page = none)
    (room : 1 + (if map.TableUsed (page / 1024) then 0 else 1) ≤ physical.room) :
    ∃ physical' map', Rt.mapPage (physical.allocPhysicalPage 0).2 map (page * 4096)
        (physical.allocPhysicalPage 0).1 = some (.ok, map', physical') ∧
      PageTaken physical map page (physical.allocPhysicalPage 0).1 physical' map' := by
  have nonNull := owned.stacked.alloc_nonNull owned.nullUnmanaged (by omega) 0
  obtain ⟨-, wasFree, taken⟩ := owned.alloc_page nonNull
  obtain ⟨-, -, firstFree, -, -⟩ := owned.stacked.alloc 0
  have firstRoom := physical.alloc_room 0
  have first := owned.alloc 0
  have word := (owned.stacked.managed_page (owned.stacked.free_managed wasFree))
  generalize (physical.allocPhysicalPage 0).1 = frame at *
  generalize (physical.allocPhysicalPage 0).2 = physical1 at *
  have samePage : page * 4096 / 4096 = page := Nat.mul_div_cancel _ (by omega)
  have slot : pdirIndex (page * 4096) = page / 1024 := (PageMap.page_indices (by omega)).1
  have table : ¬ map.TableUsed (pdirIndex (page * 4096)) →
      (physical1.allocPhysicalPage 0).1 ≠ nullPage := by
    intro unused
    rw [slot] at unused
    rw [if_neg unused] at room
    exact first.stacked.alloc_nonNull first.nullUnmanaged (by omega) 0
  obtain ⟨map', ran, owned', bindings, grows⟩ :=
    first.mapPage (by omega) (by omega) word.2 (by rw [samePage]; exact unmapped) table
  rw [slot] at ran owned' grows table
  rw [samePage, show frame - frame % 4096 = frame by omega] at bindings
  have stillFree : ∀ other, physical1.Free other → physical.Free other ∧ other ≠ frame := by
    intro other free
    exact ⟨((firstFree other).mp free).1, fun same => taken (same ▸ free)⟩
  refine ⟨_, map', ran, owned', ?_, ?_, bindings, wasFree, ?_, ?_⟩
  · by_cases used : map.TableUsed (page / 1024)
    · rw [if_pos used, if_pos used, firstRoom]
      rfl
    · rw [if_neg used, if_neg used, physical1.alloc_room, firstRoom]
  · intro index inDirectory
    constructor
    · intro used
      rcases grows.adds index inDirectory used with was | new
      · exact Or.inl was
      · exact Or.inr new.2.1
    · rintro (was | here)
      · exact (grows.keeps index inDirectory was).1
      · by_contra unused
        have unbound := owned'.wellFormed.binding_eq_none
          (show page * 4096 < 0xff800000 by omega) (by rw [slot, ← here]; exact unused)
        rw [samePage, bindings page below, if_pos rfl] at unbound
        cases unbound
  · intro other free
    by_cases used : map.TableUsed (page / 1024)
    · rw [if_pos used] at free
      exact stillFree other free
    · rw [if_neg used] at free
      exact stillFree other (((first.stacked.alloc 0).2.2.1 other).mp free).1
  · intro own isOwn
    rcases isOwn with directory | ptable | ⟨index, inDirectory, used, isTable⟩
    · exact Or.inl (Or.inl (directory.trans grows.cr3))
    · exact Or.inl (Or.inr (Or.inl (ptable.trans grows.ptable)))
    · rcases grows.adds index inDirectory used with was | new
      · rw [(grows.keeps index inDirectory was).2] at isTable
        exact Or.inl (Or.inr (Or.inr ⟨index, inDirectory, was, isTable⟩))
      · rw [isTable, new.2.2]
        exact Or.inr (stillFree _ (first.alloc_page (table new.1)).2.1)

/-- With enough pages every page of the block gets one of its own. -/
theorem mapPages_taken (count : Nat) (owned : Owned physical map) {page : Nat}
    (positive : 0 < page) (below : page + count ≤ 1022 * 1024)
    (unmapped : ∀ offset, offset < count → map.binding (page + offset) = none)
    (room : count + (newTables map page count).card ≤ physical.room) :
    ∃ physical' map' frames, Rt.mapPages count (page * 4096) physical map =
        some (true, physical', map') ∧
      BlockTaken physical map page count physical' map' frames := by
  induction count generalizing page physical map with
  | zero =>
      refine ⟨physical, map, fun _ => 0, rfl, ?_⟩
      constructor
      · exact fun _ impossible => absurd impossible (Nat.not_lt_zero _)
      · exact fun _ _ => rfl
      · exact fun _ stays => stays
      · exact fun _ impossible => absurd impossible (Nat.not_lt_zero _)
      · exact fun _ isOwn => Or.inl isOwn
      · exact fun _ impossible => absurd impossible (Nat.not_lt_zero _)
      · exact fun _ impossible => absurd impossible (Nat.not_lt_zero _)
  | succ count ih =>
      have first : (if map.TableUsed (page / 1024) then 0 else 1) ≤
          (newTables map page (count + 1)).card := newTables_first (by omega)
      obtain ⟨physical1, map1, ran, taken⟩ := owned.mapPage_taken positive (by omega)
        (unmapped 0 (by omega)) (by omega)
      have split := @newTables_succ map map1 page count (by omega) taken.tables
      have enough := taken.room
      have unmappedRest : ∀ offset, offset < count → map1.binding (page + 1 + offset) = none := by
        intro offset inBlock
        rw [taken.bindings _ (by omega), if_neg (by omega), Nat.add_assoc]
        exact unmapped (1 + offset) (by omega)
      obtain ⟨physical2, map2, frames, ranRest, rest⟩ := @ih physical1 map1 taken.owned (page + 1)
        (by omega) (by omega) unmappedRest (by omega)
      refine ⟨physical2, map2, _, ?_, taken.cons owned (by omega) rest⟩
      rw [mapPages_next (by omega), ran]
      exact ranRest

/-- A turn of the page loop at a page that is mapped already loses its physical page. -/
theorem mapPage_bound (owned : Owned physical map) {page : Nat} (positive : 0 < page)
    (below : page < 1022 * 1024) (bound : map.binding page ≠ none) :
    Rt.mapPage (physical.allocPhysicalPage 0).2 map (page * 4096)
      (physical.allocPhysicalPage 0).1 =
        some (.linearAddressInUse, map, (physical.allocPhysicalPage 0).2) := by
  have samePage : page * 4096 / 4096 = page := Nat.mul_div_cancel _ (by omega)
  have addressBelow : page * 4096 < 0xff800000 := by omega
  have word : (physical.allocPhysicalPage 0).1 < 2 ^ 32 := by
    cases owned.stacked.alloc_returns 0 with
    | inl null =>
        rw [null]
        decide
    | inr top => exact (owned.stacked.managed_page
        (owned.stacked.free_managed (PRList.free_of_top top))).2
  have used : map.TableUsed (pdirIndex (page * 4096)) := by
    by_contra unused
    have unbound := owned.wellFormed.binding_eq_none addressBelow unused
    rw [samePage] at unbound
    exact bound unbound
  rcases owned.wellFormed.mapLinearAddress (fun physical => physical.allocPhysicalPage 0)
    (physical.allocPhysicalPage 0).2 (by omega) addressBelow word
    (show bigAllocFlags < 4096 by decide) (by decide) (fun unused => absurd used unused) with
    ⟨-, ran⟩ | ⟨free, -⟩
  · exact ran
  · rw [samePage] at free
    exact absurd free bound

theorem mapPages_keeps (count : Nat) (owned : Owned physical map) {page : Nat}
    (positive : 0 < page) (below : page + count ≤ 1022 * 1024)
    (room : count + (newTables map page count).card ≤ physical.room)
    {mapped : Bool} {physical' : PRList} {map' : PageMap}
    (ran : Rt.mapPages count (page * 4096) physical map = some (mapped, physical', map')) :
    ∀ other frame, other < 1022 * 1024 → map.binding other = some frame →
      map'.binding other = some frame := by
  induction count generalizing page physical map with
  | zero =>
      have same : map = map' := congrArg (fun result => result.2.2) (Option.some_inj.mp ran)
      exact fun _ _ _ was => same ▸ was
  | succ count ih =>
      have first : (if map.TableUsed (page / 1024) then 0 else 1) ≤
          (newTables map page (count + 1)).card := newTables_first (by omega)
      rw [mapPages_next (by omega)] at ran
      by_cases unmapped : map.binding page = none
      · obtain ⟨physical1, map1, turn, taken⟩ := owned.mapPage_taken positive (by omega) unmapped
          (by omega)
        rw [turn] at ran
        have split := @newTables_succ map map1 page count (by omega) taken.tables
        have enough := taken.room
        intro other frame inRange was
        refine @ih physical1 map1 taken.owned (page + 1) (by omega) (by omega) (by omega) ran other
          frame inRange ?_
        have elsewhere : other ≠ page := fun here => by
          rw [here, unmapped] at was
          cases was
        rw [taken.bindings other inRange, if_neg elsewhere]
        exact was
      · rw [owned.mapPage_bound positive (by omega) unmapped] at ran
        have used : map.TableUsed (page / 1024) := by
          by_contra unused
          exact unmapped (owned.wellFormed.formed.binding_of_unused (by omega) unused)
        have split := @newTables_succ map map page count (by omega) fun index _ =>
          ⟨Or.inl, fun either => either.elim id fun here => here ▸ used⟩
        rw [if_pos used] at split
        have left := physical.alloc_room 0
        exact @ih (physical.allocPhysicalPage 0).2 map (owned.alloc 0) (page + 1) (by omega)
          (by omega) (by omega) ran

end Owned

/-! ### The loop without physical pages -/

section NoPages

variable {physical physical' : PRList} {map map' : PageMap} {page count : Nat} {mapped : Bool}

def Climbs (map : PageMap) (page : Nat) : Prop :=
  map.Overlaid ∨ 1022 * 1024 ≤ page ∧ map.Spilled

theorem mapPage_climbs (empty : physical.room = 0) (climbs : Climbs map page)
    (positive : 0 < page) : ∃ status after,
      mapPage (physical.allocPhysicalPage 0).2 map (page * 4096) (physical.allocPhysicalPage 0).1 =
        some (status, after, physical) ∧ Climbs after (page + 1) ∧ map.KeepsUsed after := by
  have noPage := PRList.alloc_empty empty 0
  have low : bigAllocFlags < 4096 := by decide
  rw [PRList.alloc_empty empty 0]
  cases climbs with
  | inl overlaid =>
      by_cases below : page < 1022 * 1024
      · obtain ⟨status, after, ran, afterOverlaid, kept⟩ := overlaid.mapLinearAddress
          (fun physical => physical.allocPhysicalPage 0) physical
          (show 0 < page * 4096 by omega) (by omega) nullPage low (by decide) noPage
        exact ⟨status, after, ran, Or.inl afterOverlaid, kept⟩
      · by_cases inWindow : page < 1023 * 1024
        · obtain ⟨status, after, ran, spilled, kept, -⟩ := overlaid.mapLinearAddress_reserved
            (fun physical => physical.allocPhysicalPage 0) physical
            (show 0xff800000 ≤ page * 4096 by omega) (by omega) nullPage low (by decide) noPage
          exact ⟨status, after, ran, Or.inr ⟨by omega, spilled⟩, kept⟩
        · have forbidden : PageMap.Forbidden (page * 4096) := Or.inr (by
            rw [show pentryPagePointer 0 = 0xffc00000 from rfl]
            omega)
          refine ⟨.forbidden, map, ?_, Or.inl overlaid, PageMap.KeepsUsed.refl map⟩
          unfold mapPage PageMap.mapLinearAddress
          rw [if_pos forbidden]
  | inr above =>
      obtain ⟨status, after, ran, spilled, kept⟩ := above.2.mapLinearAddress
        (fun physical => physical.allocPhysicalPage 0) physical
        (show 0xff800000 ≤ page * 4096 by omega) nullPage
        (show ¬ hasFlag bigAllocFlags pentryFlagBigPage by decide)
      exact ⟨status, after, ran, Or.inr ⟨by omega, spilled⟩, kept⟩

theorem mapPages_zero (empty : physical.room = 0) (map : PageMap) :
    mapPages (count + 1) 0 physical map = mapPages count (1 * 4096) physical map := by
  have forbidden : mapPage physical map 0 nullPage = some (.forbidden, map, physical) := by
    unfold mapPage PageMap.mapLinearAddress
    rw [if_pos (show PageMap.Forbidden 0 from Or.inl rfl)]
  have next : (0 + 0x1000) % wordLimit = 1 * 4096 := by decide
  rw [mapPages_succ, PRList.alloc_empty empty 0, forbidden, next]
  rfl

theorem mapPages_climbs (empty : physical.room = 0) (climbs : Climbs map page)
    (positive : 0 < page) (below : page + count ≤ 2 ^ 20)
    (ran : mapPages count (page * 4096) physical map = some (mapped, physical', map')) :
    map.KeepsUsed map' := by
  induction count generalizing page map with
  | zero =>
      have same : map = map' := congrArg (fun result => result.2.2) (Option.some_inj.mp ran)
      exact same ▸ PageMap.KeepsUsed.refl map
  | succ count ih =>
      obtain ⟨status, after, turn, afterClimbs, kept⟩ := mapPage_climbs empty climbs positive
      rw [mapPages_next below, turn] at ran
      exact kept.trans (ih afterClimbs (by omega) (by omega) ran)

theorem Owned.mapPage_marks (owned : Owned physical map) (empty : physical.room = 0)
    (positive : 0 < page) (below : page < 1022 * 1024) (unmapped : map.binding page = none)
    {status : Status} (ran : Rt.mapPage (physical.allocPhysicalPage 0).2 map (page * 4096)
      (physical.allocPhysicalPage 0).1 = some (status, map', physical')) : map.Marks map' := by
  have samePage : page * 4096 / 4096 = page := Nat.mul_div_cancel _ (by omega)
  have slot : pdirIndex (page * 4096) = page / 1024 := (PageMap.page_indices (by omega)).1
  have nullTables : ∀ index, index < 1022 → map.TableUsed index → nullPage ≠ map.table index :=
    fun index inDirectory used =>
      Ne.symm (owned.ownPages _ (Or.inr (Or.inr ⟨index, inDirectory, used, rfl⟩))).1
  have nullDirectory := Ne.symm (owned.ownPages map.cr3 (Or.inl rfl)).1
  have nullPtable := Ne.symm (owned.ownPages map.ptable (Or.inr (Or.inl rfl))).1
  have noPage := PRList.alloc_empty empty 0
  have fresh : map.FreshTable (physical.allocPhysicalPage 0).1 := by
    rw [noPage]
    exact ⟨rfl, Nat.zero_lt_succ _, nullDirectory, nullPtable, nullTables⟩
  rw [noPage] at ran
  rcases owned.wellFormed.mapLinearAddress (fun physical => physical.allocPhysicalPage 0) physical
    (show 0 < page * 4096 by omega) (by omega) (show nullPage < 2 ^ 32 by decide)
    (show bigAllocFlags < 4096 by decide) (by decide)
    (fun _ => fresh) with
    ⟨bound, -⟩ | ⟨-, after, turn, afterFormed, bindings, grows⟩
  · rw [samePage] at bound
    exact absurd unmapped bound
  · have same : map' = after :=
      congrArg (fun result => result.2.1) (Option.some_inj.mp (ran.symm.trans turn))
    rw [samePage] at bindings
    rw [slot] at grows
    subst same
    refine owned.wellFormed.marks nullDirectory nullTables afterFormed below grows unmapped ?_
    rw [bindings page below, if_pos rfl]
    exact Option.some_ne_none _

theorem Owned.mapPages_inUse (owned : Owned physical map) (empty : physical.room = 0)
    (positive : 0 < page) (below : page + count ≤ 1022 * 1024)
    (inUse : ∀ offset < count, map.binding (page + offset) ≠ none) :
    Rt.mapPages count (page * 4096) physical map = some (true, physical, map) := by
  induction count generalizing page with
  | zero => rfl
  | succ count ih =>
      have turn := owned.mapPage_bound positive (by omega) (inUse 0 (by omega))
      rw [PRList.alloc_empty empty 0] at turn
      rw [mapPages_next (by omega), PRList.alloc_empty empty 0, turn]
      refine ih (by omega) (by omega) fun offset inBlock => ?_
      rw [Nat.add_assoc]
      exact inUse (1 + offset) (by omega)

/-- A run that changes nothing stays below the window and finds every page mapped. -/
theorem Owned.inUse_of_unchanged (owned : Owned physical map)
    (reserved : ¬ map.TableUsed pmapPtableIndex) (empty : physical.room = 0) (positive : 0 < page)
    (start : page ≤ 1022 * 1024) (below : page + count ≤ 2 ^ 20)
    (ran : Rt.mapPages count (page * 4096) physical map = some (mapped, physical', map)) :
    page + count ≤ 1022 * 1024 ∧ ∀ offset < count, map.binding (page + offset) ≠ none := by
  have nullApart : nullPage ≠ map.cr3 ∧ nullPage ≠ map.ptable :=
    ⟨Ne.symm (owned.ownPages map.cr3 (Or.inl rfl)).1,
      Ne.symm (owned.ownPages map.ptable (Or.inr (Or.inl rfl))).1⟩
  have overlaid := owned.wellFormed.overlaid nullApart reserved
  have noPage := PRList.alloc_empty empty 0
  have low : bigAllocFlags < 4096 := by decide
  induction count generalizing page with
  | zero => exact ⟨start, fun _ impossible => absurd impossible (Nat.not_lt_zero _)⟩
  | succ count ih =>
      rw [mapPages_next below] at ran
      by_cases inside : page < 1022 * 1024
      · by_cases unmapped : map.binding page = none
        · -- the first page that is not mapped leaves a mark
          obtain ⟨status, after, turn, climbs, -⟩ :=
            mapPage_climbs empty (Or.inl overlaid : Climbs map page) positive
          rw [turn] at ran
          have kept := mapPages_climbs empty climbs (by omega) (by omega) ran
          exact absurd rfl ((owned.mapPage_marks empty positive inside unmapped turn).ne kept)
        · have turn := owned.mapPage_bound positive inside unmapped
          rw [turn, PRList.alloc_empty empty 0] at ran
          obtain ⟨fits, inUse⟩ := ih (by omega) (by omega) (by omega) ran
          refine ⟨by omega, fun offset inBlock => ?_⟩
          cases offset with
          | zero => exact unmapped
          | succ offset =>
              have later := inUse offset (by omega)
              rwa [Nat.add_assoc, Nat.add_comm 1 offset] at later
      · -- page zero takes the slot of the window
        obtain ⟨status, after, turn, spilled, -, marks⟩ := overlaid.mapLinearAddress_reserved
          (fun physical => physical.allocPhysicalPage 0) physical
          (show 0xff800000 ≤ page * 4096 by omega) (by omega) nullPage low (by decide) noPage
        have here : Rt.mapPage (physical.allocPhysicalPage 0).2 map (page * 4096)
            (physical.allocPhysicalPage 0).1 = some (status, after, physical) := by
          rw [PRList.alloc_empty empty 0]
          exact turn
        rw [here] at ran
        have kept := mapPages_climbs empty (Or.inr ⟨by omega, spilled⟩) (by omega) (by omega) ran
        exact absurd rfl (marks.ne kept)

end NoPages

/-! ### The call -/

namespace BigHeap

variable {heap after : BigHeap} {bytes address : Nat}

theorem firstFit_large {list : VrList} {request index : Nat}
    (fit : index ∈ list.firstFit request) : index < list.freeCount ∧
      request ≤ (list.ranges index).size := by
  unfold VrList.firstFit at fit
  have large := List.find?_some fit
  exact ⟨List.mem_range.mp (List.mem_of_find?_eq_some fit), of_decide_eq_true large⟩

theorem firstFit_none_iff {list : VrList} {request : Nat} : list.firstFit request = none ↔
    ∀ range ∈ list.freeRanges, range.size < request := by
  unfold VrList.firstFit VrList.freeRanges
  rw [List.find?_eq_none]
  simp only [List.mem_map, List.mem_range, decide_eq_true_eq, Nat.not_le]
  exact ⟨fun small range ⟨index, inside, same⟩ => same ▸ small index inside,
    fun small index inside => small _ ⟨index, inside, rfl⟩⟩

theorem allocVirtualRange_changes {list : VrList} {index : Nat}
    (fit : index ∈ list.firstFit (pageCount bytes)) : (list.allocVirtualRange bytes).2 ≠ list := by
  have inside := (firstFit_large fit).1
  have found : list.firstFit (pageCount bytes) = some index := fit
  unfold VrList.allocVirtualRange
  simp only [found]
  intro same
  split_ifs at same
  · have counts := congrArg VrList.rangeCount same
    exact absurd counts (Nat.succ_ne_self _)
  · have counts : list.freeCount - 1 = list.freeCount := congrArg VrList.freeCount same
    omega

theorem allocVirtualRange_start {list : VrList} {index : Nat}
    (fit : index ∈ list.firstFit (pageCount bytes)) (word : (list.ranges index).start < 2 ^ 20) :
    (list.allocVirtualRange bytes).1 = (list.ranges index).start * 4096 := by
  have found : list.firstFit (pageCount bytes) = some index := fit
  have memory : ((list.ranges index).start <<< addressShift4KB) % wordLimit =
      (list.ranges index).start * 4096 := by
    rw [shiftLeft_pageShift, wordLimit, Nat.mod_eq_of_lt (by omega)]
  unfold VrList.allocVirtualRange
  simp only [found, memory]
  split_ifs <;> rfl

/-- What a call returns comes from the virtual ranges alone. -/
theorem bigAlloc_inv (request : 0 < bytes) (ran : heap.bigAlloc bytes = some (address, after)) :
    address = (heap.virtual.allocVirtualRange bytes).1 ∧
      after.virtual = (heap.virtual.allocVirtualRange bytes).2 ∧
      mapPages (pageCount bytes) address heap.physical heap.map =
        some (true, after.physical, after.map) := by
  unfold bigAlloc at ran
  rw [if_neg (by omega)] at ran
  obtain ⟨⟨mapped, physical, map⟩, loop, result⟩ := Option.bind_eq_some_iff.mp ran
  have isTrue := mapPages_true loop
  subst isTrue
  obtain ⟨rfl, rfl⟩ := Prod.mk.inj (Option.some_inj.mp result)
  exact ⟨rfl, rfl, loop⟩

theorem Supplied.start {index : Nat} (supplied : heap.Supplied bytes index)
    (fit : index ∈ heap.virtual.firstFit (pageCount bytes)) (request : 0 < bytes) :
    (heap.virtual.allocVirtualRange bytes).1 = (heap.virtual.ranges index).start * 4096 := by
  have below := supplied.below
  have pages := pageCount_pos request
  exact allocVirtualRange_start fit (by omega)

theorem Consistent.mapsFresh (consistent : heap.Consistent) (request : 0 < bytes) {index : Nat}
    (fit : index ∈ heap.virtual.firstFit (pageCount bytes)) (supplied : heap.Supplied bytes index)
    (unmapped : heap.Unmapped bytes) : ∃ address after,
      heap.bigAlloc bytes = some (address, after) ∧ heap.AllOrNothing bytes address after := by
  have address := supplied.start fit request
  obtain ⟨physical, map, frames, ran, taken⟩ := consistent.owned.mapPages_taken (pageCount bytes)
    supplied.positive supplied.below (unmapped index fit) supplied.pages
  rw [← address] at ran
  have nonNull : (heap.virtual.allocVirtualRange bytes).1 ≠ 0 := by
    have positive := supplied.positive
    omega
  refine ⟨_, _, bigAlloc_eq request ran, ?_, fun _ => ⟨frames, ?_⟩, fun null => absurd null nonNull⟩
  · exact iff_of_false nonNull (not_not_intro ⟨index, fit, supplied⟩)
  · rw [address, Nat.mul_div_cancel _ (by decide)]
    exact ⟨taken.mapped, taken.taken, taken.noTable, taken.distinct⟩

theorem Consistent.untouched (consistent : heap.Consistent) (request : 0 < bytes)
    (untouched : heap.Untouched bytes) : ∃ address after,
      heap.bigAlloc bytes = some (address, after) ∧ heap.AllOrNothing bytes address after := by
  have noFit := firstFit_none_iff.mpr untouched.noRange
  have noRange : heap.virtual.allocVirtualRange bytes = (0, heap.virtual) := by
    unfold VrList.allocVirtualRange
    simp only [noFit]
  obtain ⟨count, counted⟩ := Nat.exists_eq_succ_of_ne_zero (pageCount_pos request).ne'
  have below := untouched.below
  have rest := consistent.owned.mapPages_inUse untouched.noPage (show 0 < 1 by decide)
    (show 1 + count ≤ 1022 * 1024 by omega)
    fun offset inBlock => untouched.inUse (1 + offset) (by omega) (by omega)
  have ran : mapPages (pageCount bytes) (heap.virtual.allocVirtualRange bytes).1 heap.physical
      heap.map = some (true, heap.physical, heap.map) := by
    rw [noRange, counted]
    exact (mapPages_zero untouched.noPage heap.map).trans rest
  have result := bigAlloc_eq request ran
  rw [noRange] at result
  refine ⟨0, heap, result, ?_, fun nonNull => absurd rfl nonNull, fun _ => rfl⟩
  refine iff_of_true rfl fun ⟨index, fit, _⟩ => ?_
  rw [noFit] at fit
  cases fit

theorem AllOrNothing.unmapped (consistent : heap.Consistent) (request : 0 < bytes)
    (ran : heap.bigAlloc bytes = some (address, after)) (nonNull : address ≠ 0)
    (all : heap.AllOrNothing bytes address after) : heap.CanObtain bytes ∧ heap.Unmapped bytes := by
  have obtains : heap.CanObtain bytes := by
    by_contra none
    exact nonNull (all.null_iff.mpr none)
  refine ⟨obtains, fun other otherFit offset inBlock => ?_⟩
  obtain ⟨index, fit, supplied⟩ := obtains
  obtain rfl : other = index := Option.some_inj.mp (otherFit.symm.trans fit)
  obtain ⟨frames, fresh⟩ := all.mapped nonNull
  obtain ⟨same, -, loop⟩ := bigAlloc_inv request ran
  have below := supplied.below
  rw [supplied.start fit request] at same
  rw [same] at loop fresh
  rw [Nat.mul_div_cancel _ (by decide)] at fresh
  -- a page that was mapped before stays mapped to the page it had, which was not free
  by_contra bound
  obtain ⟨frame, mapped⟩ := Option.ne_none_iff_exists'.mp bound
  have kept := consistent.owned.mapPages_keeps (pageCount bytes) supplied.positive below
    supplied.pages loop _ frame (by omega) mapped
  rw [fresh.mapped offset inBlock, Option.some_inj] at kept
  exact consistent.held _ frame (by omega) mapped (kept ▸ (fresh.taken offset inBlock).1)

theorem AllOrNothing.untouched (consistent : heap.Consistent) (request : 0 < bytes)
    (word : bytes < 2 ^ 32) (ran : heap.bigAlloc bytes = some (0, after))
    (all : heap.AllOrNothing bytes 0 after) : heap.Untouched bytes := by
  obtain ⟨-, virtual, loop⟩ := bigAlloc_inv request ran
  rw [all.unchanged rfl] at virtual loop
  have noFit : heap.virtual.firstFit (pageCount bytes) = none := by
    by_contra some
    obtain ⟨index, fit⟩ := Option.ne_none_iff_exists'.mp some
    exact allocVirtualRange_changes fit virtual.symm
  have pages := pageCount_pos request
  have few : pageCount bytes ≤ 2 ^ 20 := by
    rw [pageCount_eq]
    omega
  have noPage : heap.physical.room = 0 := by
    have left := mapPages_room loop
    omega
  obtain ⟨count, counted⟩ := Nat.exists_eq_succ_of_ne_zero pages.ne'
  rw [counted, mapPages_zero noPage] at loop
  obtain ⟨below, inUse⟩ := consistent.owned.inUse_of_unchanged consistent.reserved noPage
    (show 0 < 1 by decide) (by decide) (show 1 + count ≤ 2 ^ 20 by omega) loop
  refine ⟨firstFit_none_iff.mp noFit, noPage, by omega, fun page positive inBlock => ?_⟩
  have here := inUse (page - 1) (by omega)
  rwa [show 1 + (page - 1) = page by omega] at here

end BigHeap

/-- A big allocation is all or nothing exactly when there is everything it needs and nothing is in
its way, or when there is nothing at all. -/
theorem bigAlloc_allOrNothing_iff (heap : BigHeap) (consistent : heap.Consistent) (bytes : Nat)
    (request : 0 < bytes) (word : bytes < 2 ^ 32) :
    (∃ address after, heap.bigAlloc bytes = some (address, after) ∧
      heap.AllOrNothing bytes address after) ↔
    (heap.CanObtain bytes ∧ heap.Unmapped bytes) ∨ heap.Untouched bytes := by
  constructor
  · intro ⟨address, after, ran, all⟩
    by_cases null : address = 0
    · subst null
      exact Or.inr (all.untouched consistent request word ran)
    · exact Or.inl (all.unmapped consistent request ran null)
  · intro met
    cases met with
    | inl obtains =>
        obtain ⟨⟨index, fit, supplied⟩, unmapped⟩ := obtains
        exact consistent.mapsFresh request fit supplied unmapped
    | inr untouched => exact consistent.untouched request untouched

theorem sampleHeap_unmapped {page : Nat} (below : page < 1022 * 1024) :
    sampleHeap.map.binding page = none := by
  have used := selfMap_unused (page / 1024) (by omega)
  exact (selfMap_wellFormed.binding_eq below).trans (if_neg fun both => used both.1)

theorem sampleHeap_consistent : sampleHeap.Consistent where
  owned := sampleHeap_wellFormed.backed.owned
  held page frame below mapped := by
    rw [sampleHeap_unmapped below] at mapped
    cases mapped
  reserved := by decide

/-- Two pages and a page table of the eight pages. -/
theorem bigAlloc_allOrNothing_two : ∃ address after,
    sampleHeap.bigAlloc 8192 = some (address, after) ∧
      sampleHeap.AllOrNothing 8192 address after := by
  have pages : pageCount 8192 = 2 := by decide
  have start : (sampleHeap.virtual.ranges 0).start = 16 := rfl
  refine (bigAlloc_allOrNothing_iff sampleHeap sampleHeap_consistent 8192 (by decide)
    (by decide)).mpr (Or.inl ⟨⟨0, by decide, by decide, by decide, ?_⟩, ?_⟩)
  · have oneTable : newTables sampleHeap.map 16 2 ⊆ {0} := by
      intro index member
      unfold newTables at member
      rw [Finset.mem_filter] at member
      rw [Finset.mem_singleton]
      omega
    have few : (newTables sampleHeap.map 16 2).card ≤ 1 := Finset.card_le_card oneTable
    have room : sampleHeap.physical.room = 8 := by decide
    rw [room, pages, start]
    omega
  · intro index fit offset inBlock
    have first : index = 0 := Option.some_inj.mp (Eq.symm fit)
    subst first
    rw [pages] at inBlock
    exact sampleHeap_unmapped (by omega)

/-- Without physical pages the call still returns an address, with page zero mapped there. -/
theorem bigAlloc_not_allOrNothing : ¬ ∀ heap : BigHeap, heap.Consistent → ∀ bytes, 0 < bytes →
    bytes < 2 ^ 32 → ∃ address after, heap.bigAlloc bytes = some (address, after) ∧
      heap.AllOrNothing bytes address after := by
  intro allOrNothing
  obtain ⟨starved, starvedEq⟩ : ∃ starved, starved = { sampleHeap with physical := noPages } :=
    ⟨_, rfl⟩
  have consistent : starved.Consistent := by
    have owned := sampleHeap_consistent.owned
    have noFree : ∀ page, ¬ noPages.Free page := by
      rintro page ⟨range, member, -⟩
      cases member
    rw [starvedEq]
    refine ⟨⟨?_, ?_, owned.wellFormed, ?_⟩, fun _ frame _ _ => noFree frame,
      sampleHeap_consistent.reserved⟩
    · exact ⟨fun _ member => absurd member List.not_mem_nil, List.Pairwise.nil⟩
    · rintro ⟨range, member, -⟩
      cases member
    · exact fun page own => ⟨(owned.ownPages page own).1, noFree page⟩
  obtain ⟨address, after, ran, all⟩ := allOrNothing starved consistent 4096 (by decide) (by decide)
  by_cases null : address = 0
  · subst null
    have small := (all.untouched consistent (by decide) (by decide) ran).noRange ⟨16, 16⟩
      (by rw [starvedEq]; decide)
    exact absurd small (by decide)
  · obtain ⟨⟨index, -, supplied⟩, -⟩ := all.unmapped consistent (by decide) ran null
    have room := supplied.pages
    have empty : starved.physical.room = 0 := by
      rw [starvedEq]
      rfl
    have one : pageCount 4096 = 1 := by decide
    omega

end DoggOS.Rt

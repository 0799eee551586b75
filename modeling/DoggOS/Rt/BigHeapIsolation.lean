/-
What the big heap does to pages that are mapped already.

In an isolated state every mapped page has a physical page of its own, which is
neither free nor a part of the page map.  With enough physical pages the page
loop of `k_rt_BigAlloc` keeps the state isolated, also where it meets pages
that an earlier `k_rt_BigFree` left mapped, and both calls leave the mappings
and the words of all other pages alone.
-/

import DoggOS.Mem.PageMapFrames
import DoggOS.Rt.BigAllocs

namespace DoggOS.Rt

open Mem

structure Isolated (physical : PRList) (map : PageMap) : Prop where
  owned : Owned physical map
  held : ∀ page frame, page < 1022 * 1024 → map.binding page = some frame →
    ¬ physical.Free frame ∧ ¬ OwnPage map frame
  distinct : ∀ page other frame, page < 1022 * 1024 → other < 1022 * 1024 →
    map.binding page = some frame → map.binding other = some frame → page = other

def KeepsPages (map after : PageMap) (kept : Nat → Prop) : Prop :=
  ∀ page frame, page < 1022 * 1024 → kept page → map.binding page = some frame →
    after.binding page = some frame ∧ after.mem frame = map.mem frame

section OwnPages

variable {map after : PageMap} {page index pageTable : Nat}

theorem foreign_of_not_own (notOwn : ¬ OwnPage map page) : map.Foreign page := by
  constructor
  · exact fun directory => notOwn (.inl directory)
  · exact fun ptable => notOwn (.inr (.inl ptable))
  · exact fun index below used isTable => notOwn (.inr (.inr ⟨index, below, used, isTable⟩))

/-- A page map that grew has at most one more page. -/
theorem own_of_grows (grows : map.Grows after index pageTable) (own : OwnPage after page) :
    OwnPage map page ∨ ¬ map.TableUsed index ∧ page = pageTable := by
  rcases own with directory | ptable | ⟨other, below, used, isTable⟩
  · exact .inl (.inl (directory.trans grows.cr3))
  · exact .inl (.inr (.inl (ptable.trans grows.ptable)))
  · rcases grows.adds other below used with was | ⟨unused, -, isNew⟩
    · rw [(grows.keeps other below was).2] at isTable
      exact .inl (.inr (.inr ⟨other, below, was, isTable⟩))
    · exact .inr ⟨unused, isTable.trans isNew⟩

theorem entryPage_aligned (entry : Nat) :
    entryPage entry % 4096 = 0 ∧ entryPage entry < 2 ^ 32 := by
  have word : entryPage entry < 2 ^ 32 :=
    Nat.lt_of_le_of_lt Nat.and_le_right (show addressMask4KB < 2 ^ 32 by decide)
  have masked := and_addressMask (entryPage entry) word
  have again : entryPage entry &&& addressMask4KB = entryPage entry := by
    unfold entryPage
    rw [Nat.and_assoc, Nat.and_self]
  rw [again] at masked
  exact ⟨by omega, word⟩

theorem binding_aligned (wellFormed : map.WellFormed) (below : page < 1022 * 1024) {frame : Nat}
    (bound : map.binding page = some frame) : frame % 4096 = 0 ∧ frame < 2 ^ 32 := by
  rw [wellFormed.binding_eq below] at bound
  split at bound
  · rw [← Option.some.inj bound]
    exact entryPage_aligned _
  · cases bound

theorem tableUsed_of_bound (wellFormed : map.WellFormed) (below : page < 1022 * 1024)
    (bound : map.binding page ≠ none) : map.TableUsed (page / 1024) := by
  by_contra unused
  exact bound (wellFormed.formed.binding_of_unused below unused)

end OwnPages

structure PageMapped (physical : PRList) (map : PageMap) (page : Nat) (physical' : PRList)
    (map' : PageMap) : Prop where
  isolated : Isolated physical' map'
  bound : map'.binding page ≠ none
  keeps : KeepsPages map map' fun _ => True
  tables : ∀ index, index < 1022 →
    (map'.TableUsed index ↔ map.TableUsed index ∨ index = page / 1024)
  room : physical'.room = physical.room - 1 - if map.TableUsed (page / 1024) then 0 else 1

namespace Isolated

variable {physical : PRList} {map : PageMap} {page : Nat}

theorem alloc (isolated : Isolated physical map) (flags : Nat) :
    Isolated (physical.allocPhysicalPage flags).2 map where
  owned := isolated.owned.alloc flags
  held page frame below bound := by
    obtain ⟨notFree, notOwn⟩ := isolated.held page frame below bound
    refine ⟨fun free => notFree ?_, notOwn⟩
    exact ((isolated.owned.stacked.alloc flags).2.2.1 frame |>.mp free).1
  distinct := isolated.distinct

theorem mapPage_again (isolated : Isolated physical map) (positive : 0 < page)
    (below : page < 1022 * 1024) (bound : map.binding page ≠ none) :
    ∃ status physical' map', Rt.mapPage (physical.allocPhysicalPage 0).2 map (page * 4096)
        (physical.allocPhysicalPage 0).1 = some (status, map', physical') ∧
      PageMapped physical map page physical' map' := by
  have used := tableUsed_of_bound isolated.owned.wellFormed below bound
  refine ⟨_, _, _, isolated.owned.mapPage_bound positive below bound, isolated.alloc 0, bound, ?_, ?_, ?_⟩
  · exact fun _ _ _ _ was => ⟨was, rfl⟩
  · exact fun index _ => ⟨.inl, fun either => either.elim id fun here => here ▸ used⟩
  · rw [if_pos used, physical.alloc_room]
    rfl

theorem mapPage_mem (isolated : Isolated physical map) {other frame : Nat} (positive : 0 < page)
    (below : page < 1022 * 1024) (room : 1 + (if map.TableUsed (page / 1024) then 0 else 1) ≤ physical.room)
    {status : Status} {physical' : PRList} {map' : PageMap}
    (ran : Rt.mapPage (physical.allocPhysicalPage 0).2 map (page * 4096)
      (physical.allocPhysicalPage 0).1 = some (status, map', physical'))
    (inRange : other < 1022 * 1024) (bound : map.binding other = some frame) :
    map'.mem frame = map.mem frame := by
  obtain ⟨notFree, notOwn⟩ := (isolated.alloc 0).held other frame inRange bound
  have first := isolated.owned.alloc 0
  have firstRoom := physical.alloc_room 0
  have slot : pdirIndex (page * 4096) = page / 1024 := (PageMap.page_indices (by omega)).1
  have tableFree : ¬ map.TableUsed (pdirIndex (page * 4096)) →
      (physical.allocPhysicalPage 0).2.Free
        ((physical.allocPhysicalPage 0).2.allocPhysicalPage 0).1 := by
    intro unused
    rw [slot] at unused
    rw [if_neg unused] at room
    exact (first.alloc_page
      (first.stacked.alloc_nonNull first.nullUnmanaged (by omega) 0)).2.1
  unfold Rt.mapPage at ran
  refine isolated.owned.wellFormed.mapLinearAddress_mem ?_ ?_ ?_ ?_ ?_ ran
    (foreign_of_not_own notOwn) ?_
  · omega
  · omega
  · exact show bigAllocFlags < 4096 by decide
  · decide
  · exact fun unused => first.fresh (tableFree unused)
  · exact fun unused isTable => notFree (isTable ▸ tableFree unused)

theorem mapPage_new (isolated : Isolated physical map) (positive : 0 < page)
    (below : page < 1022 * 1024) (unmapped : map.binding page = none)
    (room : 1 + (if map.TableUsed (page / 1024) then 0 else 1) ≤ physical.room) :
    ∃ status physical' map', Rt.mapPage (physical.allocPhysicalPage 0).2 map (page * 4096)
        (physical.allocPhysicalPage 0).1 = some (status, map', physical') ∧
      PageMapped physical map page physical' map' := by
  obtain ⟨physical', map', ran, taken⟩ :=
    isolated.owned.mapPage_taken positive below unmapped room
  have notNew : ¬ OwnPage map' (physical.allocPhysicalPage 0).1 := by
    intro isOwn
    rcases taken.own _ isOwn with was | ⟨-, different⟩
    · exact (isolated.owned.ownPages _ was).2 taken.wasFree
    · exact different rfl
  have stays : ∀ other frame, other < 1022 * 1024 → map.binding other = some frame →
      other ≠ page := by
    intro other frame _ was here
    rw [here, unmapped] at was
    cases was
  refine ⟨_, physical', map', ran, ⟨taken.owned, ?_, ?_⟩, ?_, ?_, taken.tables, taken.room⟩
  · intro other frame inRange bound
    rw [taken.bindings other inRange] at bound
    by_cases here : other = page
    · rw [if_pos here] at bound
      cases bound
      exact ⟨fun free => (taken.free _ free).2 rfl, notNew⟩
    · rw [if_neg here] at bound
      obtain ⟨notFree, notOwn⟩ := isolated.held other frame inRange bound
      refine ⟨fun free => notFree (taken.free _ free).1, fun isOwn => ?_⟩
      rcases taken.own _ isOwn with was | ⟨wasFree, -⟩
      · exact notOwn was
      · exact notFree wasFree
  · intro one two frame oneIn twoIn oneBound twoBound
    rw [taken.bindings one oneIn] at oneBound
    rw [taken.bindings two twoIn] at twoBound
    by_cases oneHere : one = page
    · by_cases twoHere : two = page
      · exact oneHere.trans twoHere.symm
      · rw [if_pos oneHere] at oneBound
        rw [if_neg twoHere] at twoBound
        cases oneBound
        exact absurd taken.wasFree (isolated.held two _ twoIn twoBound).1
    · by_cases twoHere : two = page
      · rw [if_neg oneHere] at oneBound
        rw [if_pos twoHere] at twoBound
        cases twoBound
        exact absurd taken.wasFree (isolated.held one _ oneIn oneBound).1
      · rw [if_neg oneHere] at oneBound
        rw [if_neg twoHere] at twoBound
        exact isolated.distinct one two frame oneIn twoIn oneBound twoBound
  · rw [taken.bindings page below, if_pos rfl]
    exact Option.some_ne_none _
  · intro other frame inRange _ was
    rw [taken.bindings other inRange, if_neg (stays other frame inRange was)]
    exact ⟨was, isolated.mapPage_mem positive below room ran inRange was⟩

theorem mapPage (isolated : Isolated physical map) (positive : 0 < page)
    (below : page < 1022 * 1024)
    (room : 1 + (if map.TableUsed (page / 1024) then 0 else 1) ≤ physical.room) :
    ∃ status physical' map', Rt.mapPage (physical.allocPhysicalPage 0).2 map (page * 4096)
        (physical.allocPhysicalPage 0).1 = some (status, map', physical') ∧
      PageMapped physical map page physical' map' := by
  by_cases unmapped : map.binding page = none
  · exact isolated.mapPage_new positive below unmapped room
  · exact isolated.mapPage_again positive below unmapped

/-- The whole page loop, over pages that are mapped and pages that are not. -/
theorem mapPages (count : Nat) (isolated : Isolated physical map) (positive : 0 < page)
    (below : page + count ≤ 1022 * 1024)
    (room : count + (newTables map page count).card ≤ physical.room) :
    ∃ physical' map', Rt.mapPages count (page * 4096) physical map =
        some (true, physical', map') ∧ Isolated physical' map' ∧
      (∀ offset < count, map'.binding (page + offset) ≠ none) ∧
      KeepsPages map map' fun _ => True := by
  induction count generalizing page physical map with
  | zero =>
      exact ⟨physical, map, rfl, isolated, fun _ impossible => absurd impossible (Nat.not_lt_zero _),
        fun _ _ _ _ was => ⟨was, rfl⟩⟩
  | succ count ih =>
      have first : (if map.TableUsed (page / 1024) then 0 else 1) ≤
          (newTables map page (count + 1)).card := newTables_first (by omega)
      obtain ⟨status, physical1, map1, ran, mapped⟩ :=
        isolated.mapPage positive (by omega) (by omega)
      have split := @newTables_succ map map1 page count (by omega) mapped.tables
      have enough := mapped.room
      obtain ⟨physical2, map2, ranRest, isolated2, bound, keeps⟩ :=
        ih mapped.isolated (show 0 < page + 1 by omega) (by omega) (by omega)
      refine ⟨physical2, map2, ?_, isolated2, ?_, ?_⟩
      · rw [mapPages_next (by omega), ran]
        exact ranRest
      · intro offset inBlock
        cases offset with
        | zero =>
            obtain ⟨frame, isFrame⟩ := Option.ne_none_iff_exists'.mp mapped.bound
            rw [Nat.add_zero, (keeps page frame (by omega) trivial isFrame).1]
            exact Option.some_ne_none _
        | succ offset =>
            rw [show page + (offset + 1) = page + 1 + offset by omega]
            exact bound offset (by omega)
      · intro other frame inRange _ was
        obtain ⟨middle, sameWords⟩ := mapped.keeps other frame inRange trivial was
        obtain ⟨later, sameLater⟩ := keeps other frame inRange trivial middle
        exact ⟨later, sameLater.trans sameWords⟩

end Isolated

namespace BigHeap

variable {heap : BigHeap} {bytes page : Nat}

/-- An allocation that finds a range and the pages for it. -/
theorem bigAlloc_isolated (isolated : Isolated heap.physical heap.map) (request : 0 < bytes)
    {index : Nat} (fit : index ∈ heap.virtual.firstFit (pageCount bytes))
    (supplied : heap.Supplied bytes index) :
    ∃ after, heap.bigAlloc bytes = some ((heap.virtual.ranges index).start * 4096, after) ∧
      after.virtual = (heap.virtual.allocVirtualRange bytes).2 ∧
      Isolated after.physical after.map ∧
      (∀ offset < pageCount bytes,
        after.map.binding ((heap.virtual.ranges index).start + offset) ≠ none) ∧
      KeepsPages heap.map after.map fun _ => True := by
  have address := supplied.start fit request
  obtain ⟨physical, map, ran, after, bound, keeps⟩ :=
    isolated.mapPages (pageCount bytes) supplied.positive supplied.below supplied.pages
  rw [← address] at ran ⊢
  exact ⟨_, bigAlloc_eq request ran, rfl, after, bound, keeps⟩

/-- The physical page of a free goes to the free pages, unless the allocator never had it. -/
theorem free_frame (isolated : Isolated heap.physical heap.map)
    (past : heap.physical.PastWordsOk) (below : page < 1022 * 1024) {frame : Nat}
    (bound : heap.map.binding page = some frame) :
    ∃ physical, (∀ fuel, 0 < fuel → heap.physical.freePhysicalPages fuel frame = some physical) ∧
      physical.Stacked ∧ ¬ physical.Managed nullPage ∧
      ∀ other, physical.Free other → heap.physical.Free other ∨ other = frame := by
  have stacked := isolated.owned.stacked
  obtain ⟨aligned, word⟩ := binding_aligned isolated.owned.wellFormed below bound
  by_cases managed : heap.physical.Managed frame
  · have held : heap.physical.Held frame :=
      (stacked.held_iff frame).mpr ⟨managed, (isolated.held page frame below bound).1⟩
    have nonNull : frame ≠ nullPage := fun null => isolated.owned.nullUnmanaged (null ▸ managed)
    obtain ⟨physical, ran, after, free, sameManaged⟩ :=
      stacked.free (stacked.endsAt past frame) nonNull held
    exact ⟨physical, ran, after, fun null => isolated.owned.nullUnmanaged ((sameManaged _).mp null),
      fun other => (free other).mp⟩
  · have whole : pageOf frame = frame := by
      unfold pageOf
      omega
    have unheld : ¬ heap.physical.Held (pageOf frame) := by
      rw [whole]
      exact fun held => managed ((stacked.held_iff frame).mp held).1
    exact ⟨heap.physical, fun fuel _ => stacked.free_unheld word (.inr unheld) fuel, stacked,
      isolated.owned.nullUnmanaged, fun other => .inl⟩

theorem bigFree_isolated (isolated : Isolated heap.physical heap.map)
    (past : heap.physical.PastWordsOk) (positive : 0 < page) (below : page < 1022 * 1024)
    (mapped : heap.map.binding page ≠ none) :
    ∃ after, (∀ fuel, 0 < fuel → heap.bigFree fuel (page * 4096) = some after) ∧
      after.virtual = heap.virtual.freeVirtualRange (page * 4096) ∧
      Isolated after.physical after.map ∧
      KeepsPages heap.map after.map fun other => other ≠ page := by
  obtain ⟨frame, bound⟩ := Option.ne_none_iff_exists'.mp mapped
  have wellFormed := isolated.owned.wellFormed
  have samePage : page * 4096 / 4096 = page := Nat.mul_div_cancel _ (by omega)
  have addressBelow : page * 4096 < 0xff800000 := by omega
  have lookup := wellFormed.linearAddressPhysicalPage (show 0 < page * 4096 by omega) addressBelow
  rw [samePage, bound, Option.getD_some] at lookup
  have used : heap.map.TableUsed (pdirIndex (page * 4096)) := by
    rw [(PageMap.page_indices (by omega)).1]
    exact tableUsed_of_bound wellFormed below mapped
  obtain ⟨physical, ran, stacked, nullUnmanaged, free⟩ := free_frame isolated past below bound
  rcases wellFormed.unmapLinearAddress (show 0 < page * 4096 by omega) addressBelow with
    ⟨unbound, -⟩ | ⟨-, map, unmaps, wellFormed', bindings, grows⟩
  · rw [samePage] at unbound
    exact absurd unbound mapped
  · rw [samePage] at bindings
    have ownBefore : ∀ own, OwnPage map own → OwnPage heap.map own := fun own isOwn =>
      (own_of_grows (grows 0) isOwn).resolve_right fun new => new.1 used
    have boundBefore : ∀ other held, other < 1022 * 1024 → map.binding other = some held →
        other ≠ page ∧ heap.map.binding other = some held := by
      intro other held inRange isBound
      rw [bindings other inRange] at isBound
      by_cases here : other = page
      · rw [if_pos here] at isBound
        cases isBound
      · rw [if_neg here] at isBound
        exact ⟨here, isBound⟩
    refine ⟨{ virtual := heap.virtual.freeVirtualRange (page * 4096), physical, map }, ?_, rfl,
      ⟨⟨stacked, nullUnmanaged, wellFormed', ?_⟩, ?_, ?_⟩, ?_⟩
    · intro fuel some
      unfold bigFree
      rw [if_neg (by omega)]
      simp only [lookup, unmaps, ran fuel some, Option.bind_eq_bind, Option.bind_some]
      rfl
    · intro own isOwn
      obtain ⟨nonNull, notFree⟩ := isolated.owned.ownPages own (ownBefore own isOwn)
      refine ⟨nonNull, fun isFree => ?_⟩
      rcases free own isFree with was | same
      · exact notFree was
      · exact (isolated.held page frame below bound).2 (same ▸ ownBefore own isOwn)
    · intro other held inRange isBound
      obtain ⟨different, was⟩ := boundBefore other held inRange isBound
      obtain ⟨notFree, notOwn⟩ := isolated.held other held inRange was
      refine ⟨fun isFree => ?_, fun isOwn => notOwn (ownBefore held isOwn)⟩
      rcases free held isFree with wasFree | same
      · exact notFree wasFree
      · exact different (isolated.distinct other page held inRange below was (same ▸ bound))
    · intro one two held oneIn twoIn oneBound twoBound
      exact isolated.distinct one two held oneIn twoIn (boundBefore one held oneIn oneBound).2
        (boundBefore two held twoIn twoBound).2
    · intro other held inRange different was
      rw [bindings other inRange, if_neg different]
      exact ⟨was, wellFormed.unmapLinearAddress_mem (by omega) addressBelow unmaps
        (foreign_of_not_own (isolated.held other held inRange was).2)⟩

end BigHeap

end DoggOS.Rt

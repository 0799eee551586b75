/-
What the calls on a page map leave of the physical memory.

The words of a page change only if it is the directory, the page of the page
map's own table, a page table, or the page that becomes one.  So a store to any
other page leaves the translations alone, and a call leaves the words of every
mapped page alone.
-/

import DoggOS.Mem.PageMapCalls

namespace DoggOS.Mem.PageMap

variable {map after : PageMap} {page word entry linearAddress : Nat}

structure Foreign (map : PageMap) (page : Nat) : Prop where
  notDirectory : page ≠ map.cr3
  notPtable : page ≠ map.ptable
  notTable : ∀ index, index < 1022 → map.TableUsed index → page ≠ map.table index

theorem store_page {other : Nat} (different : other ≠ page) :
    (map.store page word entry).mem other = map.mem other := by
  funext place
  exact store_mem_of_ne map entry (.inl different)

/-- The walk does not look at the low bits. -/
theorem walk_eq_binding (map : PageMap) (address : Nat) :
    map.walk address = map.binding (address / 4096) := by
  have sameDirectory : pdirIndex (address / 4096 * 4096) = pdirIndex address := by
    rw [pdirIndex_eq, pdirIndex_eq]
    omega
  have sameTable : ptableIndex (address / 4096 * 4096) = ptableIndex address := by
    rw [ptableIndex_eq, ptableIndex_eq]
    omega
  have sameMiddle : address / 4096 * 4096 &&& 0x3ff000 = address &&& 0x3ff000 := by
    apply Nat.eq_of_testBit_eq
    intro bit
    rw [Nat.testBit_and, Nat.testBit_and, show 0x3ff000 = 1023 * 2 ^ 12 from rfl,
      show address / 4096 * 4096 = address / 2 ^ 12 * 2 ^ 12 from rfl, Nat.testBit_mul_two_pow,
      Nat.testBit_mul_two_pow, Nat.testBit_div_two_pow]
    by_cases high : 12 ≤ bit
    · rw [Nat.sub_add_cancel high, decide_eq_true high, Bool.true_and]
    · rw [decide_eq_false high, Bool.false_and, Bool.false_and, Bool.false_and, Bool.and_false]
  unfold binding walk
  rw [sameDirectory, sameTable, sameMiddle]

namespace WellFormed

theorem congr (wellFormed : map.WellFormed) (cr3 : after.cr3 = map.cr3)
    (directory : after.mem map.cr3 = map.mem map.cr3)
    (ptable : after.mem map.ptable = map.mem map.ptable)
    (tables : ∀ index, index < 1022 → map.TableUsed index →
      after.mem (map.table index) = map.mem (map.table index)) :
    after.WellFormed ∧ ∀ other, other < 1022 * 1024 → after.binding other = map.binding other := by
  have sameTable : ∀ index, after.table index = map.table index := by
    intro index
    unfold table
    rw [cr3, directory]
  have samePtable : after.ptable = map.ptable := sameTable _
  have sameUsed : ∀ index, after.TableUsed index ↔ map.TableUsed index := by
    intro index
    unfold TableUsed
    rw [cr3, directory]
  have window := wellFormed.formed.window.congr cr3 (congrFun directory _) (congrFun ptable _)
    (congrFun ptable _)
  constructor
  · refine ⟨window.selfMapped, window.showsPdir, window.showsPtable, window.apart, ?_, ?_, ?_, ?_, ?_⟩
    · intro index below
      rw [sameUsed, cr3, directory]
      exact wellFormed.used_iff index below
    · intro index below used
      rw [cr3, directory]
      exact wellFormed.small index below ((sameUsed index).mp used)
    · intro index below used
      unfold Shows
      rw [sameTable, samePtable, ptable]
      exact wellFormed.showsTable index below ((sameUsed index).mp used)
    · intro index below used
      obtain ⟨apartDirectory, apartPtable, apart⟩ :=
        wellFormed.tableApart index below ((sameUsed index).mp used)
      rw [sameTable, cr3, samePtable]
      refine ⟨apartDirectory, apartPtable, fun other otherBelow otherUsed different => ?_⟩
      rw [sameTable]
      exact apart other otherBelow ((sameUsed other).mp otherUsed) different
    · intro index below used
      have was := (sameUsed index).mp used
      rw [sameTable, tables index below was]
      exact wellFormed.entryUsed_iff index below was
  · intro other inRange
    apply wellFormed.formed.binding_congr inRange cr3 (congrFun directory _)
    intro tableAt
    rw [tables _ (by omega) tableAt.1]

theorem store_foreign (wellFormed : map.WellFormed) (foreign : map.Foreign page)
    (word entry : Nat) :
    (map.store page word entry).WellFormed ∧
      ∀ other, other < 1022 * 1024 → (map.store page word entry).binding other = map.binding other :=
  wellFormed.congr rfl (store_page foreign.notDirectory.symm) (store_page foreign.notPtable.symm)
    fun index below used => store_page (foreign.notTable index below used).symm

/-- The second half of a map call stores in the page table of its slot or nowhere. -/
theorem bindEntry_mem (formed : map.Formed) (below : linearAddress < 0xff800000)
    (tableAt : map.TableAt (pdirIndex linearAddress)) {physicalAddress flags : Nat}
    (notBig : ¬ hasFlag flags pentryFlagBigPage) {status : Status}
    (ran : map.bindEntry linearAddress physicalAddress (mapFlags flags) = some (status, after))
    (notTable : page ≠ map.table (pdirIndex linearAddress)) : after.mem page = map.mem page := by
  rcases formed.bindEntry below tableAt physicalAddress notBig with ⟨-, same⟩ | ⟨-, stored⟩
  · rw [same] at ran
    cases ran
    rfl
  · rw [stored] at ran
    cases ran
    exact store_page notTable

theorem mapLinearAddress_mem (wellFormed : map.WellFormed) {Pages : Type}
    {allocPhysicalPage : Pages → Nat × Pages} {pages left : Pages} (positive : 0 < linearAddress)
    (below : linearAddress < 0xff800000) {physicalAddress flags : Nat} (low : flags < 4096)
    (notBig : ¬ hasFlag flags pentryFlagBigPage)
    (fresh : ¬ map.TableUsed (pdirIndex linearAddress) →
      map.FreshTable (allocPhysicalPage pages).1) {status : Status}
    (ran : map.mapLinearAddress allocPhysicalPage pages linearAddress physicalAddress flags =
      some (status, after, left)) (foreign : map.Foreign page)
    (notNew : ¬ map.TableUsed (pdirIndex linearAddress) → page ≠ (allocPhysicalPage pages).1) :
    after.mem page = map.mem page := by
  obtain ⟨-, -, -, inDirectory, -⟩ := indices below
  have accepted := not_forbidden positive below
  have formed := wellFormed.formed
  have readDirectory := formed.window.readPdir (show pdirIndex linearAddress < 1024 by omega)
  by_cases used : map.TableUsed (pdirIndex linearAddress)
  · rw [mapLinearAddress_bind _ _ accepted readDirectory (.inl used)] at ran
    obtain ⟨bound, isBound, same⟩ := Option.map_eq_some_iff.mp ran
    cases same
    exact bindEntry_mem formed below (wellFormed.tableAt inDirectory used) notBig isBound
      (foreign.notTable _ inDirectory used)
  · -- The new page table is filled in before the entry goes into it.
    obtain ⟨aligned, pageWord, notDirectory, notPtable, notTable⟩ := (fresh used).spare
    obtain ⟨present, entryUsed, small, named⟩ := entry_mapFlags aligned pageWord low notBig
    obtain ⟨middle, created, adds⟩ := formed.window.addPageTable
      (show pdirIndex linearAddress < pmapPdirIndex by unfold pmapPdirIndex; omega) present named
      notDirectory notPtable
    obtain ⟨middleFormed, middleAt, -⟩ :=
      formed.adds adds inDirectory used present entryUsed small named notTable
    rw [mapLinearAddress_addTable _ _ accepted readDirectory used notBig created] at ran
    obtain ⟨bound, isBound, same⟩ := Option.map_eq_some_iff.mp ran
    cases same
    have elsewhere : page ≠ middle.table (pdirIndex linearAddress) := by
      rw [adds.table, if_pos rfl, named]
      exact notNew used
    rw [bindEntry_mem middleFormed below middleAt notBig isBound elsewhere]
    funext place
    exact adds.other (notNew used) foreign.notDirectory foreign.notPtable place

theorem unmapLinearAddress_mem (wellFormed : map.WellFormed) (positive : 0 < linearAddress)
    (below : linearAddress < 0xff800000) {status : Status}
    (ran : map.unmapLinearAddress linearAddress = some (status, after))
    (foreign : map.Foreign page) : after.mem page = map.mem page := by
  obtain ⟨-, -, -, inDirectory, inTable, -⟩ := indices below
  have readDirectory := wellFormed.readPdir (show pdirIndex linearAddress < 1024 by omega)
  unfold PageMap.unmapLinearAddress at ran
  simp only [if_neg (not_forbidden positive below), readDirectory, Option.bind_eq_bind,
    Option.bind_some] at ran
  by_cases used : map.TableUsed (pdirIndex linearAddress)
  · have entryUsed : hasFlag (map.mem map.cr3 (pdirIndex linearAddress)) pentryFlagUsed := used
    simp only [entryUsed, not_true_eq_false, if_false, if_neg (wellFormed.small _ inDirectory used),
      wellFormed.readTable inDirectory used inTable, Option.bind_some] at ran
    by_cases pageUsed : hasFlag (map.mem (map.table (pdirIndex linearAddress))
        (ptableIndex linearAddress)) pentryFlagUsed
    · simp only [pageUsed, not_true_eq_false, if_false,
        wellFormed.writeTable inDirectory used inTable] at ran
      cases ran
      exact store_page (foreign.notTable _ inDirectory used)
    · simp only [pageUsed, not_false_eq_true, if_true] at ran
      cases ran
      rfl
  · have entryUnused : ¬ hasFlag (map.mem map.cr3 (pdirIndex linearAddress)) pentryFlagUsed := used
    simp only [entryUnused, not_false_eq_true, if_true] at ran
    cases ran
    rfl

end WellFormed

end DoggOS.Mem.PageMap

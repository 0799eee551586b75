/-
Whole runs of the physical page allocator.

`owned` is the list of pages that were returned and not freed since.  A free
may name any 32-bit address; the only thing asked of a step is that the word
past each header table does not continue the block being freed.
-/

import DoggOS.Library.Machine
import DoggOS.Mem.PhysicalPageSets

namespace DoggOS.Mem

inductive PhysicalCall where
  | alloc (flags : Nat)
  | free (page : Nat)
deriving DecidableEq, Repr

structure PhysicalRun where
  list : PRList
  owned : List Nat

def PhysicalRun.alloc (run : PhysicalRun) (flags : Nat) : PhysicalRun :=
  { list := (run.list.allocPhysicalPage flags).2
    owned :=
      if (run.list.allocPhysicalPage flags).1 = nullPage then run.owned
      else (run.list.allocPhysicalPage flags).1 :: run.owned }

/-- Any number of ranges with separate pages, as `k_mem_Init` leaves them. -/
def physicalMachine : Machine PhysicalRun PhysicalCall where
  start run :=
    (∃ ranges pageHeaders mem, run.list = PRList.init ranges pageHeaders mem) ∧
      (∀ range ∈ run.list.ranges, range.pages.stop ≤ 2 ^ 32) ∧
      run.list.ranges.Pairwise (fun one two => one.pages.Disjoint two.pages) ∧ run.owned = []
  step before label after :=
    match label with
    | .alloc flags => after = before.alloc flags
    | .free page =>
        page < 2 ^ 32 ∧ ∃ fuel list, before.list.freePhysicalPages (fuel + 1) page = some list ∧
          after = { list, owned := before.owned.filter (fun other => decide (other ≠ pageOf page)) }

/-- A free reads the word past a table; it must not look like a used page that is no head. -/
def PastWordsOk (run : PhysicalRun) : PhysicalCall → Prop
  | .alloc _ => True
  | .free _ => run.list.PastWordsOk

structure PhysicalRun.Consistent (run : PhysicalRun) : Prop where
  freeDistinct : ∀ range ∈ run.list.ranges, (range.freeList run.list.mem).Nodup
  freeExactly : ∀ range ∈ run.list.ranges, ∀ page, page ∈ range.freeList run.list.mem ↔
    ∃ index, index < range.pageCount ∧ page = range.baseAddress + index * 4096 ∧
      range.flags run.list.mem index &&& pageFlagUsed = 0
  freeAligned : ∀ range ∈ run.list.ranges, ∀ page ∈ range.freeList run.list.mem, page % 4096 = 0
  freeCount_le : ∀ range ∈ run.list.ranges, range.freeCount ≤ range.pageCount
  returnsUnowned : run.owned.Nodup ∧ ∀ flags, (run.list.allocPhysicalPage flags).1 ∉ run.owned
  unusedUnchanged : ∀ page, page < 2 ^ 32 → (∀ range ∈ run.list.ranges, ∀ index,
      index < range.pageCount → pageOf page = range.baseAddress + index * 4096 →
      range.flags run.list.mem index &&& pageFlagUsed = 0) →
    ∀ fuel, run.list.freePhysicalPages fuel page = some run.list
  freeReturns : ∀ page, page < 2 ^ 32 → run.list.PastWordsOk →
    ∃ after, ∀ fuel, 0 < fuel → run.list.freePhysicalPages fuel page = some after

structure PhysicalRun.Tracked (run : PhysicalRun) : Prop where
  stacked : run.list.Stacked
  ownedNodup : run.owned.Nodup
  ownedNonNull : nullPage ∉ run.owned
  ownedHeld : ∀ page ∈ run.owned, run.list.Held page

namespace PhysicalRun

variable {run : PhysicalRun}

theorem Tracked.alloc (tracked : run.Tracked) (flags : Nat) : (run.alloc flags).Tracked := by
  obtain ⟨-, stacked, free, managed, -⟩ := tracked.stacked.alloc flags
  have oldHeld : ∀ page ∈ run.owned, (run.list.allocPhysicalPage flags).2.Held page := by
    intro page member
    obtain ⟨isManaged, notFree⟩ := (tracked.stacked.held_iff page).mp (tracked.ownedHeld page member)
    exact (stacked.held_iff page).mpr
      ⟨(managed page).mpr isManaged, fun still => notFree ((free page).mp still).1⟩
  unfold PhysicalRun.alloc
  by_cases null : (run.list.allocPhysicalPage flags).1 = nullPage
  · rw [if_pos null]
    exact ⟨stacked, tracked.ownedNodup, tracked.ownedNonNull, oldHeld⟩
  · rw [if_neg null]
    have top := (tracked.stacked.alloc_returns flags).resolve_left null
    have wasFree := PRList.free_of_top top
    refine ⟨stacked, List.nodup_cons.mpr ⟨fun owned => ?_, tracked.ownedNodup⟩, ?_, ?_⟩
    · exact ((tracked.stacked.held_iff _).mp (tracked.ownedHeld _ owned)).2 wasFree
    · intro member
      rcases List.mem_cons.mp member with here | old
      · exact null here.symm
      · exact tracked.ownedNonNull old
    · intro page member
      rcases List.mem_cons.mp member with here | old
      · rw [here]
        exact (stacked.held_iff _).mpr ⟨(managed _).mpr (tracked.stacked.free_managed wasFree),
          fun still => ((free _).mp still).2 top⟩
      · exact oldHeld page old

/-- A free either changes nothing, as its page is in use nowhere, or releases exactly that page. -/
theorem Tracked.free (tracked : run.Tracked) {page : Nat} (word : page < 2 ^ 32)
    (ends : run.list.EndsAt (pageOf page)) :
    ∃ list, (∀ fuel, 0 < fuel → run.list.freePhysicalPages fuel page = some list) ∧
      Tracked { list, owned := run.owned.filter (fun other => decide (other ≠ pageOf page)) } := by
  by_cases released : pageOf page ≠ nullPage ∧ run.list.Held (pageOf page)
  · obtain ⟨nonNull, held⟩ := released
    obtain ⟨after, freed, stacked, free, managed⟩ := tracked.stacked.free ends nonNull held
    have pageAligned : pageOf page % 4096 = 0 := by
      unfold pageOf
      omega
    have samePage : ∀ fuel, run.list.freePhysicalPages fuel page =
        run.list.freePhysicalPages fuel (pageOf page) := by
      intro fuel
      have pageWord : pageOf page < 2 ^ 32 := by
        unfold pageOf
        omega
      unfold PRList.freePhysicalPages
      rw [and_addressMask page word, and_addressMask (pageOf page) pageWord, pageAligned, Nat.sub_zero]
      rfl
    refine ⟨after, fun fuel positive => (samePage fuel).trans (freed fuel positive), stacked,
      tracked.ownedNodup.filter _, ?_, fun other member => ?_⟩
    · exact fun member => tracked.ownedNonNull (List.mem_of_mem_filter member)
    · obtain ⟨wasOwned, kept⟩ := List.mem_filter.mp member
      have different : other ≠ pageOf page := of_decide_eq_true kept
      obtain ⟨isManaged, notFree⟩ :=
        (tracked.stacked.held_iff other).mp (tracked.ownedHeld other wasOwned)
      exact (stacked.held_iff other).mpr ⟨(managed other).mpr isManaged,
        fun still => ((free other).mp still).elim notFree different⟩
  · have unheld : pageOf page = nullPage ∨ ¬ run.list.Held (pageOf page) := by
      by_cases null : pageOf page = nullPage
      · exact Or.inl null
      · exact Or.inr fun held => released ⟨null, held⟩
    have kept : run.owned.filter (fun other => decide (other ≠ pageOf page)) = run.owned := by
      refine List.filter_eq_self.mpr fun other member => decide_eq_true fun same => ?_
      rcases unheld with null | notHeld
      · exact tracked.ownedNonNull (null ▸ same ▸ member)
      · exact notHeld (same ▸ tracked.ownedHeld other member)
    refine ⟨run.list, fun fuel _ => tracked.stacked.free_unheld word unheld fuel, ?_⟩
    rw [kept]
    exact tracked

theorem tracked_start (initial : physicalMachine.start run) : run.Tracked := by
  obtain ⟨⟨ranges, pageHeaders, mem, listEq⟩, fits, disjoint, noneOwned⟩ := initial
  rw [listEq] at fits disjoint
  refine ⟨?_, by simp [noneOwned], by simp [noneOwned], by simp [noneOwned]⟩
  rw [listEq]
  exact PRList.init_stacked fits disjoint

theorem Tracked.consistent (tracked : run.Tracked) : run.Consistent := by
  have used_iff : ∀ range ∈ run.list.ranges, ∀ index, index < range.pageCount →
      (range.flags run.list.mem index &&& pageFlagUsed = 0 ↔
        range.flags run.list.mem index % 4 = 0) := by
    intro range member index inRange
    have low : range.flags run.list.mem index &&& pageFlagUsed =
        range.flags run.list.mem index % 2 := Bits.and_low _ 1
    have headed := (tracked.stacked.stacked range member).headed index inRange
    rw [low]
    omega
  refine ⟨fun range member => (tracked.stacked.stacked range member).nodup, ?_, ?_,
    fun range member => (tracked.stacked.stacked range member).freeCount_le,
    ⟨tracked.ownedNodup, ?_⟩, ?_, ?_⟩
  · intro range member page
    rw [(tracked.stacked.stacked range member).mem_freeList]
    refine exists_congr fun index => and_congr_right fun inRange => and_congr_right fun _ => ?_
    exact (used_iff range member index inRange).symm
  · intro range member page free
    have stacked := tracked.stacked.stacked range member
    have aligned := stacked.aligned
    obtain ⟨index, -, same, -⟩ := (stacked.mem_freeList page).mp free
    rw [same]
    unfold PRange.pageAt
    omega
  · intro flags owned
    rcases tracked.stacked.alloc_returns flags with null | top
    · exact tracked.ownedNonNull (null ▸ owned)
    · exact ((tracked.stacked.held_iff _).mp (tracked.ownedHeld _ owned)).2
        (PRList.free_of_top top)
  · intro page word unused fuel
    refine tracked.stacked.free_unheld word (Or.inr ?_) fuel
    rintro ⟨range, member, index, inRange, same, used⟩
    have clear := (used_iff range member index inRange).mp (unused range member index inRange same)
    omega
  · intro page word past
    obtain ⟨list, freed, -⟩ := tracked.free word (tracked.stacked.endsAt past (pageOf page))
    exact ⟨list, freed⟩

end PhysicalRun

/-- Both representations agree in every state of a run, and no page is owned twice. -/
theorem physicalPages_consistent (run : PhysicalRun)
    (reachable : (physicalMachine.restrict PastWordsOk).Reachable run) : run.Consistent := by
  refine PhysicalRun.Tracked.consistent (Machine.invariant _ ?_ ?_ reachable)
  · intro first initial
    exact PhysicalRun.tracked_start initial
  · rintro before label after tracked ⟨past, step⟩
    cases label with
    | alloc flags =>
        have same : after = before.alloc flags := step
        exact same ▸ tracked.alloc flags
    | free page =>
        obtain ⟨word, fuel, list, ran, rfl⟩ := step
        obtain ⟨result, freed, newTracked⟩ :=
          tracked.free word (tracked.stacked.endsAt past (pageOf page))
        rw [freed _ (Nat.succ_pos fuel), Option.some_inj] at ran
        exact ran ▸ newTracked

def twoRanges : PhysicalRun :=
  { list := PRList.init [(4096, 8192), (65536, 4096)] 0 (fun _ => 0), owned := [] }

example : (twoRanges.alloc 0).owned = [65536] ∧
    (twoRanges.alloc 0).list.ranges.map PRange.freeCount = [1, 0] := by decide

theorem twoRanges_start : physicalMachine.start twoRanges := by
  refine ⟨⟨_, _, _, rfl⟩, by decide, List.pairwise_cons.mpr ⟨?_, List.pairwise_singleton _ _⟩, rfl⟩
  intro range member
  rw [List.mem_singleton.mp member]
  exact Extent.disjoint_of_stop_le (by decide)

theorem physicalPages_consistent_alloc : (twoRanges.alloc 0).Consistent :=
  physicalPages_consistent _ (Machine.reachable_step _ (Machine.reachable_start _ twoRanges_start)
    ⟨show PastWordsOk twoRanges (.alloc 0) from trivial, rfl⟩)

end DoggOS.Mem

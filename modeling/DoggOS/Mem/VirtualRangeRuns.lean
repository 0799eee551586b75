/-
Whole runs of the virtual range allocator.

A run starts from one free range and makes calls in any order; `live` records
the blocks handed out and not yet freed, each with the pages of its rounded
request.  Runs whose allocations split a range that starts in the address space
keep the two lists consistent with `live`; the interval may end beyond it, as
that of `k_mem_Init` does.
Taking a whole free range does not: the source then stores the range's size as
its start, into a slot that the move before it has already left behind.
-/

import DoggOS.Library.Machine
import DoggOS.Mem.VirtualRangeTiling

namespace DoggOS.Mem

open Extent

inductive VirtualCall where
  | alloc (size : Nat)
  | free (mem : Nat)
deriving DecidableEq, Repr

structure VirtualRun where
  list : VrList
  live : List VRange

def VirtualRun.call (run : VirtualRun) : VirtualCall → VirtualRun
  | .alloc size =>
      { list := (run.list.allocVirtualRange size).2
        live :=
          if (run.list.allocVirtualRange size).1 = 0 then run.live
          else ⟨(run.list.allocVirtualRange size).1 / 4096, pageCount size⟩ :: run.live }
  | .free mem =>
      { list := run.list.freeVirtualRange mem
        live :=
          if mem = 0 then run.live
          else run.live.filter (fun block => decide (block.start ≠ mem / 4096)) }

/-- The list of `k_mem_Init`, with one free range; slots past it hold anything. -/
def virtualMachine (start size : Nat) : Machine VirtualRun VirtualCall where
  start run :=
    run.list.freeCount = 1 ∧ run.list.rangeCount = 1 ∧ run.list.ranges 0 = ⟨start, size⟩ ∧
      run.live = []
  step before label after :=
    (∀ bytes, label = .alloc bytes → 0 < bytes) ∧ after = before.call label

/-- The allocation, if any range fits, leaves pages of the range and gets a 32-bit address. -/
def SplitsInSpace (run : VirtualRun) : VirtualCall → Prop
  | .alloc size =>
      ¬ run.list.ExactFit (pageCount size) ∧ run.list.StartsInSpace (pageCount size)
  | .free _ => True

structure VirtualRun.Consistent (start size : Nat) (run : VirtualRun) : Prop where
  freeNonempty : ∀ r ∈ run.list.freeRanges, 0 < r.size
  freeSorted : run.list.freeRanges.Pairwise (fun a b => a.start < b.start ∧ a.Disjoint b)
  usedSorted : run.list.usedRanges.Pairwise (fun a b => a.start < b.start)
  usedLive : run.list.usedRanges.Perm run.live
  partition : Partition (run.list.freeRanges ++ run.list.usedRanges) start size

def VirtualRun.Tiled (start size : Nat) (run : VirtualRun) : Prop :=
  ∃ free used, run.list.Shape free used ∧ Tiling start size free used ∧ used.Perm run.live

namespace VirtualRun

variable {start size : Nat} {run : VirtualRun}

theorem Tiled.consistent (tiled : run.Tiled start size) : run.Consistent start size := by
  obtain ⟨free, used, shape, tiling, perm⟩ := tiled
  have freeEq := shape.freeRanges_eq
  have usedEq := shape.usedRanges_eq
  refine ⟨?_, ?_, ?_, ?_, ?_⟩
  · rw [freeEq]
    exact tiling.freeNonempty
  · rw [freeEq]
    refine tiling.freeSorted.imp fun {a b} below => ⟨?_, disjoint_of_stop_le below.le⟩
    exact (Nat.le_add_right a.start a.size).trans_lt below
  · rw [usedEq]
    exact tiling.usedSorted
  · rw [usedEq]
    exact perm
  · rw [freeEq, usedEq]
    exact tiling.partition

theorem tiled_start (nonempty : 0 < size)
    (initial : (virtualMachine start size).start run) : run.Tiled start size := by
  obtain ⟨freeCount, rangeCount, first, noLive⟩ := initial
  refine ⟨[⟨start, size⟩], [], ⟨freeCount, rangeCount, first, trivial⟩, ?_, by rw [noLive]⟩
  refine ⟨fun point => ?_, by simpa using nonempty, by simp, by simp, by simp, by simp⟩
  simp only [List.append_nil, cover_cons, cover_nil, Nat.zero_add]
  rfl

theorem Tiled.alloc (tiled : run.Tiled start size) (positive : 0 < start) {bytes : Nat}
    (request : 0 < bytes) (splits : SplitsInSpace run (.alloc bytes)) :
    (run.call (.alloc bytes)).Tiled start size := by
  obtain ⟨free, used, shape, tiling, perm⟩ := tiled
  obtain ⟨noExactFit, inSpace⟩ := splits
  rcases shape.allocVirtualRange tiling positive inSpace request noExactFit with
    ⟨unchanged, -⟩ | ⟨page, before, after, grown, split, nonNull, -, address, newShape, newTiling⟩
  · refine ⟨free, used, ?_, tiling, ?_⟩
    · simpa only [call, unchanged] using shape
    · simpa only [call, unchanged, if_true] using perm
  · refine ⟨grown, before ++ ⟨page, pageCount bytes⟩ :: after, newShape, newTiling, ?_⟩
    have returned : (run.list.allocVirtualRange bytes).1 ≠ 0 := by
      rw [address]
      omega
    simp only [call, if_neg returned]
    rw [address, Nat.mul_div_cancel _ (by omega)]
    subst split
    exact List.perm_middle.trans (perm.cons _)

theorem Tiled.free (tiled : run.Tiled start size) (mem : Nat) :
    (run.call (.free mem)).Tiled start size := by
  obtain ⟨free, used, shape, tiling, perm⟩ := tiled
  by_cases null : mem = 0
  · subst null
    exact ⟨free, used, shape, tiling, perm⟩
  rcases shape.freeVirtualRange tiling null with
    ⟨unchanged, notUsed⟩ | ⟨before, u, after, grown, split, atStart, newShape, newTiling⟩
  · refine ⟨free, used, by simpa only [call, unchanged] using shape, tiling, ?_⟩
    have kept : run.live.filter (fun block => decide (block.start ≠ mem / 4096)) = run.live :=
      List.filter_eq_self.mpr fun block member =>
        decide_eq_true (notUsed block (perm.mem_iff.mpr member))
    simpa only [call, if_neg null, kept] using perm
  · refine ⟨grown, before ++ after, newShape, newTiling, ?_⟩
    subst split
    have sorted := tiling.usedSorted
    simp only [List.pairwise_append, List.pairwise_cons] at sorted
    have dropped : (before ++ u :: after).filter (fun block => decide (block.start ≠ mem / 4096)) =
        before ++ after := by
      rw [List.filter_append, List.filter_cons_of_neg (by simp [atStart]),
        List.filter_eq_self.mpr fun block member => ?_,
        List.filter_eq_self.mpr fun block member => ?_]
      · have beyond := sorted.2.1.1 block member
        exact decide_eq_true (by omega)
      · have below := sorted.2.2 block member u List.mem_cons_self
        exact decide_eq_true (by omega)
    simp only [call, if_neg null]
    rw [← dropped]
    exact perm.filter _

end VirtualRun

/-- Every state of a run whose allocations never use a range up is consistent. -/
theorem virtualRanges_consistent (start size : Nat) (positive : 0 < start) (nonempty : 0 < size)
    (run : VirtualRun)
    (reachable : ((virtualMachine start size).restrict SplitsInSpace).Reachable run) :
    run.Consistent start size := by
  refine VirtualRun.Tiled.consistent (Machine.invariant _ ?_ ?_ reachable)
  · intro first initial
    exact VirtualRun.tiled_start nonempty initial
  · rintro before label after tiled ⟨allowed, wellFormed, rfl⟩
    cases label with
    | alloc bytes => exact tiled.alloc positive (wellFormed bytes rfl) allowed
    | free mem => exact tiled.free mem

def oneFreeRange (start size : Nat) : VirtualRun :=
  { list := { freeCount := 1, rangeCount := 1
              ranges := fun slot => if slot = 0 then ⟨start, size⟩ else ⟨0, 0⟩ }
    live := [] }

theorem splitsInSpace_of_firstFit {run : VirtualRun} {bytes : Nat} (index : Nat)
    (fit : run.list.firstFit (pageCount bytes) = some index)
    (splits : (run.list.ranges index).size ≠ pageCount bytes ∧
      (run.list.ranges index).start < 2 ^ 20) : SplitsInSpace run (.alloc bytes) := by
  constructor
  · rintro ⟨other, isFit, exact⟩
    rw [fit, Option.mem_some_iff] at isFit
    exact splits.1 (isFit ▸ exact)
  · intro other isFit
    rw [fit, Option.mem_some_iff] at isFit
    exact isFit ▸ splits.2

/-- The list of `k_mem_Init`: two blocks, the first one freed and its pages taken in part. -/
theorem virtualRanges_consistent_kernel :
    (((((oneFreeRange 0x1000 0xffffe).call (.alloc 8192)).call (.alloc 4096)).call
      (.free 0x1000000)).call (.alloc 4096)).Consistent 0x1000 0xffffe := by
  refine virtualRanges_consistent 0x1000 0xffffe (by omega) (by omega) _ ?_
  have initial : ((virtualMachine 0x1000 0xffffe).restrict SplitsInSpace).Reachable
      (oneFreeRange 0x1000 0xffffe) := Machine.reachable_start _ ⟨rfl, rfl, rfl, rfl⟩
  have first := Machine.reachable_step _ initial
    ⟨splitsInSpace_of_firstFit 0 (by decide) (by decide),
      fun bytes (same : VirtualCall.alloc 8192 = _) => by cases same; omega, rfl⟩
  have second := Machine.reachable_step _ first
    ⟨splitsInSpace_of_firstFit 0 (by decide) (by decide),
      fun bytes (same : VirtualCall.alloc 4096 = _) => by cases same; omega, rfl⟩
  have freed := Machine.reachable_step _ second
    ⟨show SplitsInSpace _ (.free 0x1000000) from trivial,
      fun bytes (same : VirtualCall.free 0x1000000 = .alloc bytes) => (by cases same), rfl⟩
  exact Machine.reachable_step _ freed
    ⟨splitsInSpace_of_firstFit 0 (by decide) (by decide),
      fun bytes (same : VirtualCall.alloc 4096 = _) => by cases same; omega, rfl⟩

/-- Asking for the only managed page loses it: the used slot holds neither its
start nor any page that was managed. -/
theorem virtualRanges_exactFit_inconsistent :
    ¬ ∀ start size : Nat, 0 < start → 0 < size → start + size ≤ 2 ^ 20 →
      ∀ run, (virtualMachine start size).Reachable run → run.Consistent start size := by
  intro consistent
  have after := consistent 5 1 (by omega) (by omega) (by omega)
    ((oneFreeRange 5 1).call (.alloc 4096))
    (Machine.reachable_step _ (Machine.reachable_start _ ⟨rfl, rfl, rfl, rfl⟩)
      ⟨fun bytes same => by cases same; omega, rfl⟩)
  have owned := after.usedLive.mem_iff (a := ⟨5, 1⟩)
  exact absurd (owned.mpr (by decide)) (by decide)

end DoggOS.Mem

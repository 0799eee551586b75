/-
The objects of a new page.

The header of a page has 24 bytes.  The first object is moved up to its
alignment, and it is the remainder and not the padding that is taken from the
room for objects.  For alignments up to the size of a page the objects still end
inside the page, since their sizes are multiples of the alignment.  For larger
ones the remainder can exceed the room, and then there are objects that no page
has room for.
-/

import DoggOS.Rt.PoolRuns

namespace DoggOS.Rt

open Mem

/-- A type whose objects can be aligned and have room for a node. -/
structure PoolType.Valid (type : PoolType) : Prop where
  align : ∃ power, type.objAlign = 2 ^ power
  sized : 0 < type.objSize
  multiple : type.objAlign ∣ type.objSize
  node : type.nodeOffset + 4 ≤ type.objSize

def Pool.ZeroPage (pool : Pool) (page : Nat) : Prop :=
  ∀ place, page ≤ place → place < page + poolPageSize → pool.poolNode place = 0

/-- The free list of the page ends in a null pointer; its objects are apart from each other, aligned,
and between the header and the end of the page. -/
structure Pool.LaidOut (type : PoolType) (pool : Pool) (page : Nat) (objects : List Nat) : Prop where
  list : Leads pool.poolNode (pool.nextFree page) (objects.map fun obj => obj + type.nodeOffset) 0
  count : objects.length = type.entryCount page
  apart : objects.Pairwise type.Apart
  aligned : ∀ obj ∈ objects, obj % type.objAlign = 0
  inPage : ∀ obj ∈ objects, type.InPage page obj

namespace PoolType

variable {type : PoolType} {page : Nat}

theorem Valid.align_dvd (valid : type.Valid) (small : type.objAlign ≤ poolPageSize) :
    type.objAlign ∣ poolPageSize := by
  obtain ⟨power, isPower⟩ := valid.align
  have page : poolPageSize = 2 ^ 12 := rfl
  rw [isPower, page] at small ⊢
  exact Nat.pow_dvd_pow 2 ((Nat.pow_le_pow_iff_right (by decide)).mp small)

theorem Valid.align_pos (valid : type.Valid) : 0 < type.objAlign := by
  obtain ⟨power, isPower⟩ := valid.align
  rw [isPower]
  exact Nat.two_pow_pos power

theorem entriesBlock_dvd (positive : 0 < type.objAlign) :
    type.objAlign ∣ (Pool.entriesBlock type page).1 := by
  have below := Nat.mod_lt (page + poolPageHeader) positive
  have division := Nat.div_add_mod (page + poolPageHeader) type.objAlign
  unfold Pool.entriesBlock
  dsimp only
  split
  · refine ⟨(page + poolPageHeader) / type.objAlign + 1, ?_⟩
    dsimp only
    rw [Nat.mul_add, Nat.mul_one]
    omega
  · rename_i aligned
    exact Nat.dvd_of_mod_eq_zero (not_not.mp aligned)

/-- What is cut off from the room is less than the next multiple of the alignment. -/
theorem entries_lt (positive : 0 < type.objAlign)
    (rest : (page + poolPageHeader) % type.objAlign ≤ poolPageSize - poolPageHeader) :
    (Pool.entriesBlock type page).1 + type.entryCount page * type.objSize <
      page + poolPageSize + type.objAlign := by
  have below := Nat.mod_lt (page + poolPageHeader) positive
  unfold PoolType.entryCount Pool.entriesBlock
  unfold poolPageSize poolPageHeader wordLimit at *
  dsimp only
  generalize (page + 24) % type.objAlign = align at *
  split
  · rename_i padded
    have room : (4096 - 24 + 2 ^ 32 - align) % 2 ^ 32 = 4096 - 24 - align := by omega
    have used := Nat.div_mul_le_self (4096 - 24 - align) type.objSize
    dsimp only
    rw [room]
    omega
  · have used := Nat.div_mul_le_self (4096 - 24) type.objSize
    dsimp only
    omega

/-- The objects that the code counts have room, all being multiples of the alignment. -/
theorem Valid.entries_inside (valid : type.Valid) (small : type.objAlign ≤ poolPageSize)
    (atPage : page % poolPageSize = 0) :
    (Pool.entriesBlock type page).1 + type.entryCount page * type.objSize ≤
      page + poolPageSize := by
  have positive := valid.align_pos
  have pageAligned : type.objAlign ∣ page :=
    Nat.dvd_trans (valid.align_dvd small) (Nat.dvd_of_mod_eq_zero atPage)
  have rest : (page + poolPageHeader) % type.objAlign ≤ poolPageSize - poolPageHeader := by
    obtain ⟨pages, isPages⟩ := pageAligned
    rw [isPages, Nat.mul_add_mod]
    exact Nat.le_trans (Nat.mod_le _ _) (by decide)
  have below := entries_lt positive rest
  obtain ⟨stop, isStop⟩ := Nat.dvd_add pageAligned (valid.align_dvd small)
  obtain ⟨used, isUsed⟩ := Nat.dvd_add (@entriesBlock_dvd type page positive)
    (Nat.dvd_mul_left_of_dvd valid.multiple (type.entryCount page))
  rw [isUsed, isStop] at below ⊢
  rw [← Nat.mul_succ] at below
  exact Nat.mul_le_mul_left _ (Nat.le_of_lt_succ (Nat.lt_of_mul_lt_mul_left below))

theorem Valid.fits (valid : type.Valid) (small : type.objAlign ≤ poolPageSize)
    (atPage : page % poolPageSize = 0) (some : 0 < type.entryCount page) : type.Fits page :=
  ⟨valid.node, valid.align_pos, some, valid.entries_inside small atPage⟩

def objects (type : PoolType) (page : Nat) : List Nat :=
  (List.range (type.entryCount page)).map (type.object page)

theorem objects_apart (type : PoolType) (page : Nat) :
    (type.objects page).Pairwise type.Apart := by
  unfold objects
  rw [List.pairwise_map]
  exact List.nodup_range.imp object_apart

end PoolType

namespace Pool

variable {type : PoolType} {pool : Pool} {page : Nat}

theorem linkPage_kept (pool : Pool) (page : Nat) :
    (pool.linkPage page).poolNode = pool.poolNode ∧ (pool.linkPage page).nextFree = pool.nextFree := by
  unfold linkPage
  split
  · exact ⟨rfl, rfl⟩
  · exact ⟨rfl, rfl⟩

theorem currentPage_taken {init : Pool} (noPage : pool.curPage = 0)
    (taken : pool.takePage type page = (page, init)) :
    (pool.currentPage type page).2.poolNode = init.poolNode ∧
      (pool.currentPage type page).2.nextFree = init.nextFree := by
  have linked := linkPage_kept { init with curPage := page } page
  unfold currentPage
  simp only [noPage, taken, ne_eq, not_true_eq_false, if_false]
  exact linked

theorem LaidOut.align_le {objects : List Nat} (laidOut : pool.LaidOut type page objects)
    (valid : type.Valid) (some : 0 < type.entryCount page) : type.objAlign ≤ poolPageSize := by
  rw [← laidOut.count] at some
  have inPage := laidOut.inPage _ (List.getElem_mem some)
  have order := Nat.le_of_dvd valid.sized valid.multiple
  unfold PoolType.InPage at inPage
  omega

/-- A new page with room for objects, by its count of them, is laid out well just for alignments up
to the size of a page. -/
theorem currentPage_laidOut_iff (type : PoolType) (pool : Pool) (page : Nat) (valid : type.Valid)
    (noPage : pool.curPage = 0) (noFreeable : pool.freeablePages = 0)
    (atPage : page % poolPageSize = 0) (zero : pool.ZeroPage page)
    (some : 0 < type.entryCount page) :
    (∃ objects, (pool.currentPage type page).2.LaidOut type page objects) ↔
      type.objAlign ≤ poolPageSize := by
  constructor
  · intro laidOut
    obtain ⟨objects, laidOut⟩ := laidOut
    exact laidOut.align_le valid some
  · intro small
    have fits := valid.fits small atPage some
    have node := valid.node
    obtain ⟨init, taken, leads, -⟩ :=
      takePage_fresh valid.sized some fits.entryCount_lt noFreeable
    obtain ⟨poolNode, nextFree⟩ := currentPage_taken noPage taken
    have last := fits.object_inPage (Nat.sub_lt some Nat.one_pos)
    unfold PoolType.InPage at last
    rw [zero _ (by omega) (by omega)] at leads
    refine ⟨type.objects page, ⟨?_, ?_, type.objects_apart page, ?_, ?_⟩⟩
    · unfold PoolType.objects
      rw [poolNode, nextFree, List.map_map]
      exact leads
    · unfold PoolType.objects
      rw [List.length_map, List.length_range]
    · intro obj member
      obtain ⟨index, -, rfl⟩ := List.mem_map.mp member
      exact Nat.mod_eq_zero_of_dvd (Nat.dvd_add (PoolType.entriesBlock_dvd valid.align_pos)
        (Nat.dvd_mul_left_of_dvd valid.multiple index))
    · intro obj member
      obtain ⟨index, inside, rfl⟩ := List.mem_map.mp member
      exact fits.object_inPage (List.mem_range.mp inside)

end Pool

/-- Objects of 192 bytes at multiples of 64, whose padding is larger than what is cut off. -/
theorem currentPage_laidOut_line :
    ∃ objects, (newPool.pool.currentPage ⟨0, 192, 64⟩ 4096).2.LaidOut ⟨0, 192, 64⟩ 4096 objects :=
  (Pool.currentPage_laidOut_iff ⟨0, 192, 64⟩ newPool.pool 4096
    ⟨⟨6, rfl⟩, by decide, by decide, by decide⟩ rfl rfl rfl (fun _ _ _ => rfl) (by decide)).mpr
    (by decide)

/-- For an alignment of 8192 the code counts 524287 objects in the page at 4096. -/
theorem currentPage_not_laidOut :
    PoolType.entryCount ⟨0, 8192, 8192⟩ 4096 = 524287 ∧
      ¬ ∃ objects,
        (newPool.pool.currentPage ⟨0, 8192, 8192⟩ 4096).2.LaidOut ⟨0, 8192, 8192⟩ 4096 objects := by
  refine ⟨by decide, ?_⟩
  intro laidOut
  obtain ⟨objects, laidOut⟩ := laidOut
  have valid : PoolType.Valid ⟨0, 8192, 8192⟩ := ⟨⟨13, rfl⟩, by decide, by decide, by decide⟩
  exact absurd (laidOut.align_le valid (by decide)) (by decide)

end DoggOS.Rt

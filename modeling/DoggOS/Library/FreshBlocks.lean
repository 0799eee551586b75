/-
A heap that hands out fresh blocks of byte memory.

The heap is known by its promise only: a block that it grants is not at address
zero, ends within the 32-bit address space, starts where no live block starts
and shares no byte with one; what it contains is arbitrary.  Which block that
is comes from outside, as the list of the next grants.  A client that owns the
live blocks owns one more after a malloc and one less after a free.
-/

import DoggOS.Library.ExtentSums
import DoggOS.Library.Words

namespace DoggOS

namespace Extent

def Separate (left right : Extent) : Prop :=
  left.start ≠ right.start ∧
    (left.size = 0 ∨ right.size = 0 ∨ left.stop ≤ right.start ∨ right.stop ≤ left.start)

instance (left right : Extent) : Decidable (left.Separate right) :=
  inferInstanceAs (Decidable (_ ∧ _))

theorem Separate.symm {left right : Extent} (separate : left.Separate right) :
    right.Separate left := by
  unfold Separate at *
  omega

theorem Separate.disjoint {left right : Extent} (separate : left.Separate right) :
    left.Disjoint right := by
  rintro point ⟨inLeft, inRight⟩
  unfold Separate Contains stop at *
  omega

theorem Separate.of_pairwise {blocks : List Extent} (separate : blocks.Pairwise Separate)
    {one other : Nat} {left right : Extent} (atOne : blocks[one]? = some left)
    (atOther : blocks[other]? = some right) (different : one ≠ other) : left.Separate right := by
  obtain ⟨inOne, rfl⟩ := List.getElem?_eq_some_iff.mp atOne
  obtain ⟨inOther, rfl⟩ := List.getElem?_eq_some_iff.mp atOther
  rcases Nat.lt_or_gt_of_ne different with before | behind
  · exact List.pairwise_iff_getElem.mp separate one other inOne inOther before
  · exact (List.pairwise_iff_getElem.mp separate other one inOther inOne behind).symm

end Extent

structure Grant where
  start : Nat
  contents : Bytes

structure BlockHeap where
  memory : Bytes
  blocks : List Extent
  grants : List Grant

namespace BlockHeap

def Fresh (heap : BlockHeap) (block : Extent) : Prop :=
  block.start ≠ 0 ∧ block.stop ≤ 2 ^ 32 ∧ ∀ other ∈ heap.blocks, block.Separate other

instance (heap : BlockHeap) (block : Extent) : Decidable (heap.Fresh block) :=
  inferInstanceAs (Decidable (_ ∧ _ ∧ _))

def malloc (heap : BlockHeap) (size : Nat) : Option (Nat × BlockHeap) :=
  match heap.grants with
  | [] => none
  | grant :: grants =>
      if heap.Fresh ⟨grant.start, size⟩ then
        some (grant.start,
          { memory := fillBytes heap.memory grant.start size grant.contents
            blocks := ⟨grant.start, size⟩ :: heap.blocks
            grants := grants })
      else none

def free (heap : BlockHeap) (start : Nat) : BlockHeap :=
  { heap with blocks := heap.blocks.filter fun block => block.start ≠ start }

def withMemory (heap : BlockHeap) (memory : Bytes) : BlockHeap := { heap with memory := memory }

def withGrants (heap : BlockHeap) (grants : List Grant) : BlockHeap := { heap with grants := grants }

def store (heap : BlockHeap) (place word : Nat) : BlockHeap :=
  heap.withMemory (storeWordAt heap.memory place word)

structure Owns (heap : BlockHeap) (own : List Extent) : Prop where
  blocks : heap.blocks.Perm own
  separate : own.Pairwise Extent.Separate
  inside : ∀ block ∈ own, block.start ≠ 0 ∧ block.stop ≤ 2 ^ 32

variable {heap after : BlockHeap} {own : List Extent} {size start : Nat}

theorem Owns.perm (owns : heap.Owns own) {other : List Extent} (perm : own.Perm other) :
    heap.Owns other where
  blocks := owns.blocks.trans perm
  separate := (perm.pairwise_iff Extent.Separate.symm).mp owns.separate
  inside := fun block member => owns.inside block (perm.mem_iff.mpr member)

theorem Owns.withMemory (owns : heap.Owns own) (memory : Bytes) :
    (heap.withMemory memory).Owns own := ⟨owns.blocks, owns.separate, owns.inside⟩

theorem Owns.withGrants (owns : heap.Owns own) (grants : List Grant) :
    (heap.withGrants grants).Owns own := ⟨owns.blocks, owns.separate, owns.inside⟩

theorem owns_nil (memory : Bytes) (grants : List Grant) : Owns ⟨memory, [], grants⟩ [] :=
  ⟨.nil, .nil, nofun⟩

theorem malloc_cases (allocated : heap.malloc size = some (start, after)) :
    heap.Fresh ⟨start, size⟩ ∧ ∃ contents grants, after =
      { memory := fillBytes heap.memory start size contents
        blocks := ⟨start, size⟩ :: heap.blocks
        grants := grants } := by
  unfold malloc at allocated
  cases next : heap.grants with
  | nil =>
      rw [next] at allocated
      cases allocated
  | cons grant grants =>
      rw [next] at allocated
      simp only at allocated
      split at allocated
      · rename_i fresh
        cases allocated
        exact ⟨fresh, grant.contents, grants, rfl⟩
      · cases allocated

theorem malloc_owns (owns : heap.Owns own) (allocated : heap.malloc size = some (start, after)) :
    after.Owns (⟨start, size⟩ :: own) := by
  obtain ⟨⟨nonzero, inside, separate⟩, contents, grants, rfl⟩ := malloc_cases allocated
  constructor
  · exact owns.blocks.cons _
  · refine List.pairwise_cons.mpr ⟨?_, owns.separate⟩
    intro block member
    exact separate block (owns.blocks.mem_iff.mpr member)
  · intro block member
    rcases List.mem_cons.mp member with rfl | member
    · exact ⟨nonzero, inside⟩
    · exact owns.inside block member

theorem malloc_outside (allocated : heap.malloc size = some (start, after)) {place : Nat}
    (outside : place < start ∨ start + size ≤ place) : after.memory place = heap.memory place := by
  obtain ⟨_, contents, grants, rfl⟩ := malloc_cases allocated
  exact Words.fillBytes_outside contents outside

theorem free_owns {block : Extent} (owns : heap.Owns (block :: own)) :
    (heap.free block.start).Owns own := by
  obtain ⟨first, rest⟩ := List.pairwise_cons.mp owns.separate
  have kept : (block :: own).filter (fun other => other.start ≠ block.start) = own := by
    rw [List.filter_cons_of_neg (by simp), List.filter_eq_self]
    intro other member
    simpa using (first other member).1.symm
  constructor
  · have filtered := owns.blocks.filter fun other => other.start ≠ block.start
    rw [kept] at filtered
    exact filtered
  · exact rest
  · intro other member
    exact owns.inside other (List.mem_cons_of_mem _ member)

theorem Owns.total_le (owns : heap.Owns own) : (own.map Extent.size).sum ≤ 2 ^ 32 := by
  apply Extent.sum_size_le
  · intro block member
    exact (owns.inside block member).2
  · exact Extent.cover_le_one (owns.separate.imp Extent.Separate.disjoint)

end BlockHeap

end DoggOS

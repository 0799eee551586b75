/-
Whether the pages that `k_mem_AllocVirtualRange` hands out can be mapped.

A run builds the free list as `k_mem_Init` does, with any kernel data below
3 GiB, and then allocates and frees.  The free list starts with addresses for
pages: the first page of its one range is number `0x1000`, and its end lies
beyond the last page of the address space and beyond the window of the page
map.  What an allocation takes is checked against neither.
-/

import DoggOS.Library.Machine
import DoggOS.Mem.KernelPages
import DoggOS.Mem.VirtualRangeMerges

namespace DoggOS.Mem

open Extent

inductive SpaceCall where
  | mapKernelData (address size : Nat)
  | finishInit
  | alloc (size : Nat)
  | free (mem : Nat)
deriving DecidableEq, Repr

/-- The free list and the page map, the pages that the mapping loop came to, and every block that
was handed out with the number of its pages. -/
structure KernelSpace where
  list : VrList
  map : PageMap
  physical : PRList
  running : Bool
  kernelPages : Nat → Prop
  blocks : List (Nat × Nat)

namespace KernelSpace

def allocated (before : KernelSpace) (size : Nat) : KernelSpace :=
  let (address, list) := before.list.allocVirtualRange size
  { before with
    list
    blocks := if address = 0 then before.blocks else (address, pageCount size) :: before.blocks }

@[simp] theorem allocated_list (before : KernelSpace) (size : Nat) :
    (before.allocated size).list = (before.list.allocVirtualRange size).2 := rfl

@[simp] theorem allocated_running (before : KernelSpace) (size : Nat) :
    (before.allocated size).running = before.running := rfl

@[simp] theorem allocated_blocks (before : KernelSpace) (size : Nat) :
    (before.allocated size).blocks =
      if (before.list.allocVirtualRange size).1 = 0 then before.blocks
      else ((before.list.allocVirtualRange size).1, pageCount size) :: before.blocks := rfl

/-- The list of `k_mem_Init` before any kernel data is mapped. -/
def Initial (space : KernelSpace) : Prop :=
  space.list.freeCount = 1 ∧ space.list.rangeCount = 1 ∧
    space.list.ranges 0 = ⟨0x00001000, (0xffffffff - 0x1000) >>> addressShift4KB⟩ ∧
    space.running = false ∧ (∀ page, ¬ space.kernelPages page) ∧ space.blocks = []

/-- Kernel data is mapped before the allocator runs, and lies below 3 GiB. -/
def Step (before : KernelSpace) : SpaceCall → KernelSpace → Prop
  | .mapKernelData address size, after =>
      before.running = false ∧ address + size ≤ 0xc0000000 ∧ ∃ turns list map physical,
        mapKernelData turns before.list before.map before.physical address size =
          some (list, map, physical) ∧
        after = { before with
          list, map, physical
          kernelPages := fun page => before.kernelPages page ∨
            KernelMapping.Visits (address + size)
              (kernelMappingStart address before.map before.physical) page }
  | .finishInit, after =>
      before.running = false ∧ after = { before with
        list := { before.list with rangeCount := before.list.freeCount }
        running := true }
  | .alloc size, after =>
      before.running = true ∧ after = before.allocated size
  | .free mem, after =>
      before.running = true ∧ after = { before with list := before.list.freeVirtualRange mem }

def machine : Machine KernelSpace SpaceCall where
  start := Initial
  step := Step

/-- The address of a page that the kernel may map: not null, in the address space, not mapped as
kernel data, and not refused by `k_mem_MapLinearAddress`. -/
def Mappable (space : KernelSpace) (address : Nat) : Prop :=
  0 < address ∧ address < wordLimit ∧ ¬ space.kernelPages (address / 4096) ∧
    ¬ PageMap.Forbidden address

def AllMappable (space : KernelSpace) : Prop :=
  ∀ block ∈ space.blocks, ∀ page, page < block.2 → space.Mappable (block.1 + page * 4096)

/-- Kernel data cuts no free range in two but the last and leaves none of its pages free; an
allocation takes part of its range only, and that part ends below the window of the page map. -/
def Sound (space : KernelSpace) : SpaceCall → Prop
  | .mapKernelData address size =>
      space.list.ChopFits (kernelInterval address size).1 (kernelInterval address size).2 ∧
        ∀ page, space.list.FreePage page → ¬ UnreservedPage address size page
  | .alloc size => ∀ index ∈ space.list.firstFit (pageCount size),
      pageCount size < (space.list.ranges index).size ∧
        (space.list.ranges index).start + pageCount size ≤ 0xffc00
  | _ => True

def Clear (space : KernelSpace) (ranges : List VRange) : Prop :=
  ∀ r ∈ ranges, ∀ page, r.Contains page → 0 < page ∧ ¬ space.kernelPages page

structure Building (space : KernelSpace) : Prop where
  nonempty : ∀ r ∈ space.list.freeRanges, 0 < r.size
  sorted : space.list.freeRanges.Pairwise (fun a b => a.stop ≤ b.start)
  clear : space.Clear space.list.freeRanges
  blocks : space.blocks = []

def Serving (space : KernelSpace) : Prop :=
  ∃ free used, space.list.Shape free used ∧ space.Clear (free ++ used) ∧ space.AllMappable

def Invariant (space : KernelSpace) : Prop :=
  if space.running then space.Serving else space.Building

variable {before after : KernelSpace}

theorem Initial.building (initial : before.Initial) : before.Building := by
  obtain ⟨freeCount, -, first, -, noKernel, noBlocks⟩ := initial
  have free : before.list.freeRanges = [⟨0x1000, 0xffffe⟩] := by
    unfold VrList.freeRanges
    rw [freeCount]
    simp [first, addressShift4KB]
  refine ⟨by rw [free]; decide, by rw [free]; simp, ?_, noBlocks⟩
  rw [free]
  intro r member page inside
  rw [List.mem_singleton.mp member] at inside
  exact ⟨Nat.lt_of_lt_of_le (by decide) inside.1, noKernel page⟩

theorem Building.mapKernelData (building : before.Building) {address size : Nat}
    (sound : before.Sound (.mapKernelData address size))
    (step : before.Step (.mapKernelData address size) after) : after.Building := by
  obtain ⟨-, below, turns, list, map, physical, ran, rfl⟩ := step
  obtain ⟨fits, reserved⟩ := sound
  have noWrap : address + size < wordLimit := by
    unfold wordLimit
    omega
  have ordered : (kernelInterval address size).1 ≤ (kernelInterval address size).2 := by
    rw [kernelInterval_eq noWrap]
    simp only
    split_ifs <;> omega
  obtain ⟨left, chops, subtracts_iff⟩ := before.list.chops_cases building.nonempty building.sorted
    ordered
  have same : list = left := by
    unfold Mem.mapKernelData at ran
    simp only [Option.bind_eq_bind, Option.bind_eq_some_iff] at ran
    obtain ⟨chopped, chopRan, mapping, -, result⟩ := ran
    have listEq : chopped = list := congrArg Prod.fst (Option.some_inj.mp result)
    exact chops.eq_of_chop (listEq ▸ chopRan)
  subst same
  have subtracts := subtracts_iff.mpr fits
  refine ⟨subtracts.nonempty, subtracts.sorted, ?_, building.blocks⟩
  intro r member page inside
  obtain ⟨⟨old, inFree, holds⟩, outside⟩ := (subtracts.covers page).mp ⟨r, member, inside⟩
  obtain ⟨positive, notKernel⟩ := building.clear old inFree page holds
  refine ⟨positive, ?_⟩
  rintro (kernel | visits)
  · exact notKernel kernel
  · have addressWord : address < wordLimit := by omega
    have atFirst := kernelMappingStart_address addressWord before.map before.physical
    obtain ⟨first, last⟩ := (KernelMapping.visits_iff atFirst (by rw [atFirst]; omega)
      (by omega)).mp visits
    rcases inKernelInterval_or_unreserved noWrap first last with reservedPage | unreserved
    · exact outside reservedPage
    · exact reserved page ⟨old, inFree, holds⟩ unreserved

theorem Building.finishInit (building : before.Building)
    (step : before.Step .finishInit after) : after.Serving := by
  obtain ⟨-, rfl⟩ := step
  refine ⟨before.list.freeRanges, [], ⟨?_, ?_, ?_⟩, ?_, ?_⟩
  · exact before.list.freeShape_freeRanges.freeCount
  · exact before.list.freeShape_freeRanges.freeCount
  · rw [List.append_nil]
    exact before.list.freeShape_freeRanges.holds
  · rw [List.append_nil]
    exact building.clear
  · intro block member
    rw [show _ = [] from building.blocks] at member
    cases member

theorem mappable_page {space : KernelSpace} {page : Nat} (below : page < 0xffc00)
    (clear : 0 < page ∧ ¬ space.kernelPages page) : space.Mappable (page * 4096) := by
  have number : page * 4096 / 4096 = page := Nat.mul_div_cancel page (by omega)
  refine ⟨by omega, ?_, ?_, ?_⟩
  · unfold wordLimit
    omega
  · rw [number]
    exact clear.2
  · have window : pentryPagePointer 0 = 0xffc00000 := rfl
    unfold PageMap.Forbidden
    rw [window]
    omega

theorem contains_of_split {front back usedBefore usedAfter : List VRange} {r x : VRange}
    {request page : Nat} (smaller : request < r.size)
    (member : x ∈ (front ++ ⟨r.start + request, r.size - request⟩ :: back) ++
      (usedBefore ++ ⟨r.start, request⟩ :: usedAfter)) (inside : x.Contains page) :
    r.Contains page ∨ x ∈ (front ++ r :: back) ++ (usedBefore ++ usedAfter) := by
  have tail (is : x = ⟨r.start + request, r.size - request⟩) : r.Contains page := by
    subst is
    unfold Contains Extent.stop at *
    simp only at inside
    omega
  have head (is : x = ⟨r.start, request⟩) : r.Contains page := by
    subst is
    unfold Contains Extent.stop at *
    simp only at inside
    omega
  rcases List.mem_append.mp member with inFree | inUsed
  · rcases List.mem_append.mp inFree with inFront | inRest
    · exact .inr (by simp [inFront])
    · cases inRest with
      | head => exact .inl (tail rfl)
      | tail _ inBack =>
          have old : x ∈ back := inBack
          exact .inr (by simp [old])
  · rcases List.mem_append.mp inUsed with inBefore | inRest
    · exact .inr (by simp [inBefore])
    · cases inRest with
      | head => exact .inl (head rfl)
      | tail _ inAfter =>
          have old : x ∈ usedAfter := inAfter
          exact .inr (by simp [old])

theorem Serving.alloc (serving : before.Serving) {size : Nat} (sound : before.Sound (.alloc size))
    (step : before.Step (.alloc size) after) : after.Serving := by
  obtain ⟨-, rfl⟩ := step
  obtain ⟨free, used, shape, clear, mappable⟩ := serving
  rcases shape.allocVirtualRange_cases size with
    ⟨-, unchanged, -⟩ | ⟨front, r, back, rfl, fit, atFree, -, taken⟩
  · refine ⟨free, used, ?_, clear, ?_⟩
    · rw [allocated_list, unchanged]
      exact shape
    · intro block member
      rw [allocated_blocks, unchanged, if_pos rfl] at member
      exact mappable block member
  · obtain ⟨smaller, below⟩ := sound front.length fit
    rw [atFree] at smaller below
    obtain ⟨usedBefore, usedAfter, rfl, -, -, address, newShape⟩ := taken smaller
    have inRange : ∀ page, r.Contains page → 0 < page ∧ ¬ before.kernelPages page :=
      clear r (by simp)
    refine ⟨_, _, newShape, ?_, ?_⟩
    · intro x member page inside
      rcases contains_of_split smaller member inside with within | old
      · exact inRange page within
      · exact clear x old page inside
    · have noWrap : r.start * 4096 % wordLimit = r.start * 4096 :=
        Nat.mod_eq_of_lt (by unfold wordLimit; omega)
      rw [noWrap] at address
      intro block member page inBlock
      rw [allocated_blocks, address] at member
      split_ifs at member with null
      · exact mappable block member page inBlock
      · cases member with
        | head =>
            have inside : r.Contains (r.start + page) := by
              unfold Contains Extent.stop
              simp only at inBlock
              omega
            have at_page : r.start * 4096 + page * 4096 = (r.start + page) * 4096 := by omega
            simp only at inBlock ⊢
            rw [at_page]
            exact mappable_page (by omega) (inRange _ inside)
        | tail _ old => exact mappable block old page inBlock

theorem Serving.free (serving : before.Serving) {mem : Nat} (step : before.Step (.free mem) after) :
    after.Serving := by
  obtain ⟨-, rfl⟩ := step
  obtain ⟨free, used, shape, clear, mappable⟩ := serving
  by_cases null : mem = 0
  · have unchanged : before.list.freeVirtualRange mem = before.list := by
      unfold VrList.freeVirtualRange
      rw [if_pos null]
    exact ⟨free, used, by rw [unchanged]; exact shape, clear, mappable⟩
  · obtain ⟨usedBefore, rest, rfl, -, -, unchanged | freed⟩ := shape.freeVirtualRange_cases null
    · exact ⟨free, _, by rw [unchanged.1]; exact shape, clear, mappable⟩
    · obtain ⟨u, usedAfter, front, r, back, grown, rfl, -, rfl, -, -, newShape, merged⟩ := freed
      refine ⟨grown, _, newShape, ?_, mappable⟩
      intro x member page inside
      rcases List.mem_append.mp member with inFree | inUsed
      · rcases (merged.mem_iff page).mp ⟨x, inFree, inside⟩ with ⟨y, inOld, holds⟩ | holds
        · exact clear y (List.mem_append_left _ inOld) page holds
        · exact clear u (by simp) page holds
      · refine clear x (List.mem_append_right _ ?_) page inside
        rcases List.mem_append.mp inUsed with inBefore | inAfter
        · exact List.mem_append_left _ inBefore
        · exact List.mem_append_right _ (List.mem_cons_of_mem _ inAfter)

theorem Invariant.step (invariant : before.Invariant) {call : SpaceCall}
    (sound : before.Sound call) (step : before.Step call after) : after.Invariant := by
  unfold Invariant at *
  cases call with
  | mapKernelData address size =>
      have starting : before.running = false := step.1
      rw [starting, if_neg (by decide)] at invariant
      have built := invariant.mapKernelData sound step
      obtain ⟨-, -, turns, list, map, physical, -, rfl⟩ := step
      rw [starting] at built ⊢
      rw [if_neg (by decide)]
      exact built
  | finishInit =>
      have starting : before.running = false := step.1
      rw [starting, if_neg (by decide)] at invariant
      have serving := invariant.finishInit step
      obtain ⟨-, rfl⟩ := step
      exact serving
  | alloc size =>
      have running : before.running = true := step.1
      rw [running, if_pos rfl] at invariant
      have serving := invariant.alloc sound step
      obtain ⟨-, rfl⟩ := step
      rw [allocated_running, running, if_pos rfl]
      exact serving
  | free mem =>
      have running : before.running = true := step.1
      rw [running, if_pos rfl] at invariant
      have serving := invariant.free step
      obtain ⟨-, rfl⟩ := step
      rw [running, if_pos rfl]
      exact serving

theorem Invariant.allMappable {space : KernelSpace} (invariant : space.Invariant) :
    space.AllMappable := by
  unfold Invariant at invariant
  split_ifs at invariant
  · exact invariant.choose_spec.choose_spec.2.2
  · intro block member
    rw [invariant.blocks] at member
    cases member

/-- In a run whose steps are all sound, every page of every block handed out can be mapped. -/
theorem mappable_of_sound {space : KernelSpace}
    (reachable : (machine.restrict Sound).Reachable space) : space.AllMappable := by
  refine Invariant.allMappable (Machine.invariant _ ?_ ?_ reachable)
  · intro space initial
    unfold Invariant
    rw [initial.2.2.2.1, if_neg (by decide)]
    exact initial.building
  · rintro before call after invariant ⟨sound, step⟩
    exact invariant.step sound step

/-- The list that `k_mem_Init` fills in, with nothing else set up. -/
def first : KernelSpace where
  list := ⟨1, 1, fun _ => ⟨0x00001000, (0xffffffff - 0x1000) >>> addressShift4KB⟩⟩
  map := ⟨0, fun _ _ => 0⟩
  physical := ⟨fun _ => 0, []⟩
  running := false
  kernelPages := fun _ => False
  blocks := []

theorem first_initial : first.Initial :=
  ⟨rfl, rfl, rfl, rfl, fun _ kernel => kernel, rfl⟩

def served : KernelSpace := { first with running := true }

theorem first_finishInit : machine.step first .finishInit served :=
  ⟨rfl, rfl⟩

theorem served_alloc (size : Nat) : machine.step served (.alloc size) (served.allocated size) :=
  ⟨rfl, rfl⟩

theorem mappable_of_sound_one : (served.allocated 4096).AllMappable := by
  refine mappable_of_sound ?_
  have finish : (machine.restrict Sound).step first .finishInit served := ⟨trivial, first_finishInit⟩
  have alloc : (machine.restrict Sound).step served (.alloc 4096) (served.allocated 4096) := by
    refine ⟨?_, served_alloc 4096⟩
    intro index fit
    have atFirst : served.list.firstFit (pageCount 4096) = some 0 := by decide
    cases atFirst.symm.trans fit
    decide
  exact Machine.reachable_step _ (Machine.reachable_step _ (Machine.reachable_start _ first_initial)
    finish) alloc

/-- A request that the free list grants and the page map refuses. -/
theorem alloc_beyond_window :
    ¬ ∀ space : KernelSpace, machine.Reachable space → space.AllMappable := by
  intro claimed
  have reachable : machine.Reachable (served.allocated 0xff000000) :=
    Machine.reachable_step _ (Machine.reachable_step _ (Machine.reachable_start _ first_initial)
      first_finishInit) (served_alloc 0xff000000)
  have block : (0x1000000, 0xff000) ∈ (served.allocated 0xff000000).blocks := by decide
  have mappable := claimed _ reachable _ block 0xfec00 (by decide)
  exact mappable.2.2.2 (by decide)

end KernelSpace

end DoggOS.Mem

/-
Runs of an object list's user.

The list keeps live elements apart as long as each appended element has its bytes
in the buffer, which the code does not see to: a buffer has `buffer_size` bytes
and not `buffer_size` elements.
-/

import DoggOS.Rt.ObjectListSteps

namespace DoggOS.Rt

namespace ObjUsage

variable {usage after : ObjUsage} {table : List Nat}

theorem Start.kept (start : usage.Start) : ∃ table, usage.Kept table := by
  obtain ⟨elemSize, bufferSize, sheap, preserveFree, memory, grants, elements, sized, sheapValid,
    _, _, created, live, freed⟩ := start
  obtain ⟨buffer, sound, cursor, free⟩ :=
    ObjList.createObjList_sound elements sized sheapValid created
  refine ⟨[buffer], sound, ?_, ?_⟩
  · rw [live, freed, cursor]
    exact .refl _
  · rw [freed]
    exact free

theorem Kept.appends (kept : usage.Kept table) (noStack : ¬ usage.list.PopsStack)
    (noChain : ¬ usage.list.PopsChain) {grants : List Grant}
    (stepped : usage.next (.alloc grants) = some after)
    (same : after.list.bufferCount = usage.list.bufferCount) :
    ∃ used, after =
      { list := { usage.list with cursor := usage.list.cursor + 1, used := used }
        heap := usage.heap.withGrants grants
        live := usage.list.cursor :: usage.live
        freed := usage.freed.erase usage.list.cursor } := by
  obtain ⟨⟨index, list, heap⟩, allocated, stepped⟩ := Option.bind_eq_some_iff.mp stepped
  cases stepped
  simp only [ObjList.allocObjListElement, if_neg kept.sound.created] at allocated
  obtain ⟨⟨taken, before, granted⟩, isTaken, allocated⟩ := Option.bind_eq_some_iff.mp allocated
  cases allocated
  have room := kept.sound.room
  have product := kept.sound.product_lt
  have next : (usage.list.cursor + 1) % 2 ^ 32 = usage.list.cursor + 1 := by omega
  simp only [ObjList.takeIndex, if_neg noStack, if_neg noChain, next] at isTaken
  split at isTaken
  · obtain ⟨⟨grown, later⟩, added, isTaken⟩ := Option.bind_eq_some_iff.mp isTaken
    cases isTaken
    have laid := (kept.sound.laid.withGrants grants).update (usage.list.cursor + 1)
      usage.list.used usage.list.freeStackTop usage.list.nextFree
    obtain ⟨_, _, _, _, rfl, _⟩ := ObjList.addObjListBuffer_spec laid added
    exact absurd same (Nat.succ_ne_self _)
  · cases isTaken
    exact ⟨_, rfl⟩

/-- An element that does not fit is in no buffer, unless its allocation adds one. -/
theorem Kept.overflow_outside (kept : usage.Kept table) (noStack : ¬ usage.list.PopsStack)
    (noChain : ¬ usage.list.PopsChain)
    (overflow : usage.list.bufferSize <
      (usage.list.cursor % usage.list.bufferSize + 1) * usage.list.elemSize)
    {grants : List Grant} (stepped : usage.next (.alloc grants) = some after)
    (same : after.list.bufferCount = usage.list.bufferCount) : ¬ after.Disjoint := by
  obtain ⟨used, rfl⟩ := kept.appends noStack noChain stepped same
  intro disjoint
  obtain ⟨single, bound, below, above⟩ := kept.sound.overflow overflow
  have member : usage.list.cursor ∈ usage.list.cursor :: usage.live := List.mem_cons_self
  obtain ⟨block, buffer, starts, stops⟩ := disjoint.inside usage.list.cursor member
  obtain ⟨number, first, named⟩ := buffer.named
  have zero : number = 0 := Nat.lt_one_iff.mp (first.trans_eq (same.trans single))
  rw [zero] at named
  change loadWordAt usage.heap.memory usage.list.buffers = block.start at named
  have place : (usage.list.buffers + 4 * (usage.list.cursor / usage.list.bufferSize)) % 2 ^ 32 =
      usage.list.buffers := by
    have inside := kept.sound.laid.table_le kept.sound.created
    rw [Nat.div_eq_of_lt bound]
    omega
  have start : ObjList.getObjListElement { usage.list with cursor := usage.list.cursor + 1 }
      usage.heap usage.list.cursor =
      (block.start + usage.list.cursor * usage.list.elemSize) % 2 ^ 32 := by
    simp only [ObjList.getObjListElement, kept.sound.created, ne_eq, not_false_eq_true,
      Nat.lt_succ_self, and_self, if_true, place, named, Nat.mod_eq_of_lt bound]
  obtain ⟨nonzero, inside⟩ := kept.sound.laid.owns.inside block
    (kept.sound.laid.owns.blocks.mem_iff.mp buffer.live)
  have size : block.size = usage.list.bufferSize := buffer.size
  change block.start ≤ ObjList.getObjListElement
    { usage.list with cursor := usage.list.cursor + 1 } usage.heap usage.list.cursor at starts
  change ObjList.getObjListElement { usage.list with cursor := usage.list.cursor + 1 } usage.heap
    usage.list.cursor + usage.list.elemSize ≤ block.start + block.size at stops
  unfold Extent.stop at inside
  rw [start] at starts stops
  rw [size] at inside stops
  -- The address wraps at most to zero, in front of the buffer.
  rcases Nat.lt_or_ge (block.start + usage.list.cursor * usage.list.elemSize) (2 ^ 32) with
    plain | wraps
  · rw [Nat.mod_eq_of_lt plain] at stops
    omega
  · omega

theorem reachable_kept (reachable : (machine.restrict Meets).Reachable usage) :
    ∃ table, usage.Kept table := by
  apply (machine.restrict Meets).invariant _ _ reachable
  · intro first start
    exact Start.kept start
  · intro before call after kept step
    obtain ⟨table, kept⟩ := kept
    exact kept.step step.1 step.2

/-- Without a new buffer an allocation keeps the elements apart exactly if it meets the condition. -/
theorem Kept.alloc_iff (kept : usage.Kept table) {grants : List Grant}
    (stepped : usage.next (.alloc grants) = some after)
    (same : after.list.bufferCount = usage.list.bufferCount) :
    after.Disjoint ↔ usage.Meets (.alloc grants) := by
  constructor
  · intro disjoint
    by_contra violates
    simp only [Meets, not_or, Nat.not_le] at violates
    obtain ⟨noStack, noChain, overflow⟩ := violates
    exact kept.overflow_outside noStack noChain overflow stepped same disjoint
  · intro meets
    obtain ⟨_, table', keptAfter⟩ := kept.alloc meets stepped
    exact keptAfter.disjoint

/-- Live elements stay apart while appended elements fit, and a freed number is reused once. -/
theorem objList_disjoint (reachable : (machine.restrict Meets).Reachable usage) :
    usage.Disjoint ∧
      (∀ grants after, usage.Meets (.alloc grants) → usage.next (.alloc grants) = some after →
        ∃ index, after.live = index :: usage.live ∧ after.freed = usage.freed.erase index ∧
          index ∉ usage.live ∧ index ∉ after.freed ∧
          (index ∈ usage.freed ∨ index = usage.list.cursor)) ∧
      ∀ grants after, usage.next (.alloc grants) = some after →
        after.list.bufferCount = usage.list.bufferCount →
        (after.Disjoint ↔ usage.Meets (.alloc grants)) := by
  obtain ⟨table, kept⟩ := reachable_kept reachable
  refine ⟨kept.disjoint, ?_, ?_⟩
  · intro grants after meets stepped
    obtain ⟨⟨index, live, freed, source⟩, table', keptAfter⟩ := kept.alloc meets stepped
    have nodup := keptAfter.nodup
    rw [live, List.cons_append, List.nodup_cons, List.mem_append] at nodup
    refine ⟨index, live, freed, ?_, ?_, ?_⟩
    · exact fun member => nodup.1 (.inl member)
    · exact fun member => nodup.1 (.inr member)
    · rcases source with free | ⟨appended, _⟩
      · exact .inl free
      · exact .inr appended
  · intro grants after stepped same
    exact kept.alloc_iff stepped same

instance (usage : ObjUsage) (call : ObjCall) : Decidable (usage.Meets call) :=
  match call with
  | .alloc _ => inferInstanceAs (Decidable (_ ∨ _ ∨ _))
  | .free _ => inferInstanceAs (Decidable (_ ∨ _))
  | .write _ _ => .isTrue trivial

section Example

def created (elemSize bufferSize preserveFree : Nat) (grants : List Grant) : Option ObjUsage := do
  let (list, heap) ←
    ObjList.createObjList elemSize bufferSize 4096 preserveFree ⟨fun _ => 0, [], grants⟩
  some { list, heap, live := [], freed := [] }

theorem created_start {elemSize bufferSize preserveFree : Nat} {grants : List Grant}
    (elements : elemSize ≠ 0 ∧ elemSize < 2 ^ 32) (sized : bufferSize ≠ 0 ∧ bufferSize < 2 ^ 32)
    (returned : created elemSize bufferSize preserveFree grants = some usage) : usage.Start := by
  obtain ⟨⟨list, heap⟩, listed, returned⟩ := Option.bind_eq_some_iff.mp returned
  cases returned
  exact ⟨elemSize, bufferSize, 4096, preserveFree, fun _ => 0, grants, elements.1, sized.1,
    by omega, elements.2, sized.2, listed, rfl, rfl⟩

def nextMeeting (usage : ObjUsage) (call : ObjCall) : Option ObjUsage :=
  if usage.Meets call then usage.next call else none

def grantsAt (starts : List Nat) : List Grant := starts.map fun start => ⟨start, fun _ => 255⟩

/-- Buffers of two bytes for elements of one; the second allocation adds a buffer. -/
def byteCalls : List ObjCall :=
  [.alloc [], .alloc (grantsAt [20480, 24576, 28672]), .alloc [], .free 0, .free 1, .alloc []]

def byteRun : Option ObjUsage :=
  (created 1 2 1 (grantsAt [8192, 12288, 16384])).bind fun usage =>
    Machine.follow nextMeeting usage byteCalls

theorem byteRun_eq : byteRun.map (fun usage => (usage.live, usage.freed, usage.list.cursor,
    usage.element 1, usage.element 2)) = some ([1, 2], [0], 3, ⟨16385, 1⟩, ⟨28672, 1⟩) := by
  decide +kernel

/-- The first number is free again when the second element of the run is live. -/
theorem objList_disjoint_bytes : ∃ usage, (machine.restrict Meets).Reachable usage ∧
    usage.live = [1, 2] ∧ usage.freed = [0] ∧ usage.Disjoint := by
  obtain ⟨usage, run, values⟩ := Option.map_eq_some_iff.mp byteRun_eq
  obtain ⟨first, returned, followed⟩ := Option.bind_eq_some_iff.mp run
  have start := created_start ⟨by omega, by omega⟩ ⟨by omega, by omega⟩ returned
  have reachable : (machine.restrict Meets).Reachable usage := by
    apply Machine.follow_reachable _ _ (Machine.reachable_start _ start) followed
    intro before call after step
    unfold nextMeeting at step
    split at step
    · rename_i meets
      exact ⟨meets, step⟩
    · cases step
  have main := objList_disjoint reachable
  simp only [Prod.mk.injEq] at values
  exact ⟨usage, reachable, values.1, values.2.1, main.1⟩

/-- Four elements of eight bytes are wanted in a buffer, and it has four bytes. -/
def shortRun : Option ObjUsage :=
  (created 8 4 1 (grantsAt [8192, 12288, 16384])).bind fun usage =>
    Machine.follow next usage [.alloc []]

theorem shortRun_eq : shortRun.map (fun usage => (usage.live, usage.list.elemSize,
    usage.list.bufferSize, usage.element 0, usage.heap.blocks)) =
      some ([0], 8, 4, ⟨16384, 8⟩, [⟨16384, 4⟩, ⟨12288, 16⟩, ⟨8192, 4⟩]) := by
  decide +kernel

theorem objList_not_disjoint : ∃ usage, machine.Reachable usage ∧ usage.live = [0] ∧
    usage.list.elemSize = 8 ∧ usage.list.bufferSize = 4 ∧ ¬ usage.Disjoint := by
  obtain ⟨usage, run, values⟩ := Option.map_eq_some_iff.mp shortRun_eq
  obtain ⟨first, returned, followed⟩ := Option.bind_eq_some_iff.mp run
  have start := created_start ⟨by omega, by omega⟩ ⟨by omega, by omega⟩ returned
  have reachable : machine.Reachable usage :=
    Machine.follow_reachable _ (fun _ _ _ step => step) (Machine.reachable_start _ start) followed
  simp only [Prod.mk.injEq] at values
  obtain ⟨live, elements, sized, _, _⟩ := values
  refine ⟨usage, reachable, live, elements, sized, ?_⟩
  intro disjoint
  have member : 0 ∈ usage.live := by
    rw [live]
    exact List.mem_singleton_self 0
  obtain ⟨block, buffer, starts, stops⟩ := disjoint.inside 0 member
  have size := buffer.size
  have bytes : (usage.element 0).size = 8 := elements
  unfold Extent.stop at stops
  omega

end Example

end ObjUsage

end DoggOS.Rt

/-
The calls of an object list's user.

The user allocates numbers, frees those that are live and writes to the elements
that it holds.  What the calls keep says where the elements and the tables are
and in which order the free numbers wait; each call keeps it where the element
that it appends has its bytes in the buffer, and the number that it pushes its
word on the stack.
-/

import DoggOS.Library.Machine
import DoggOS.Rt.ObjectListElements

namespace DoggOS.Rt

/-- A list with the numbers that the user holds, and those that it gave back, the last first. -/
structure ObjUsage where
  list : ObjList
  heap : BlockHeap
  live : List Nat
  freed : List Nat

/-- A call of the user, with the blocks that the heap grants to it. -/
inductive ObjCall
  | alloc (grants : List Grant)
  | free (index : Nat)
  | write (index : Nat) (contents : Bytes)

namespace ObjUsage

def element (usage : ObjUsage) (index : Nat) : Extent :=
  ⟨usage.list.getObjListElement usage.heap index, usage.list.elemSize⟩

def next (usage : ObjUsage) : ObjCall → Option ObjUsage
  | .alloc grants => do
      let (index, list, heap) ←
        usage.list.allocObjListElement (usage.heap.withGrants grants)
      some { list, heap, live := index :: usage.live, freed := usage.freed.erase index }
  | .free index =>
      if index ∈ usage.live then
        let (list, heap) := usage.list.freeObjListElement usage.heap index
        some { list, heap, live := usage.live.erase index, freed := index :: usage.freed }
      else none
  | .write index contents =>
      if index ∈ usage.live then
        some { usage with
          heap := usage.heap.withMemory (fillBytes usage.heap.memory (usage.element index).start
            (usage.element index).size contents) }
      else none

def Start (usage : ObjUsage) : Prop :=
  ∃ elemSize bufferSize sheap preserveFree memory grants,
    elemSize ≠ 0 ∧ bufferSize ≠ 0 ∧ sheap ≠ 0 ∧ elemSize < 2 ^ 32 ∧ bufferSize < 2 ^ 32 ∧
      ObjList.createObjList elemSize bufferSize sheap preserveFree ⟨memory, [], grants⟩ =
        some (usage.list, usage.heap) ∧
      usage.live = [] ∧ usage.freed = []

def machine : Machine ObjUsage ObjCall := .ofNext Start next

/-- An appended element has its bytes in the buffer, and a pushed number its word on the stack. -/
def Meets (usage : ObjUsage) : ObjCall → Prop
  | .alloc _ => usage.list.PopsStack ∨ usage.list.PopsChain ∨
      (usage.list.cursor % usage.list.bufferSize + 1) * usage.list.elemSize ≤
        usage.list.bufferSize
  | .free _ => usage.list.preserveFree = 0 ∨
      4 * ((usage.list.freeStackTop + 1) % 2 ^ 32 + 1) ≤ usage.list.stackSize
  | .write _ _ => True

structure IsBuffer (usage : ObjUsage) (block : Extent) : Prop where
  live : block ∈ usage.heap.blocks
  size : block.size = usage.list.bufferSize
  named : ∃ buffer < usage.list.bufferCount,
    loadWordAt usage.heap.memory (usage.list.buffers + 4 * buffer) = block.start

/-- Live elements are in buffers and apart, and every number is held or free, once. -/
structure Disjoint (usage : ObjUsage) : Prop where
  distinct : usage.live.Nodup
  inside : ∀ index ∈ usage.live, ∃ block, usage.IsBuffer block ∧
    block.start ≤ (usage.element index).start ∧ (usage.element index).stop ≤ block.stop
  apart : ∀ one ∈ usage.live, ∀ other ∈ usage.live, one ≠ other →
    (usage.element one).Disjoint (usage.element other)
  numbers : (usage.live ++ usage.freed).Perm (List.range usage.list.cursor)

structure Kept (usage : ObjUsage) (table : List Nat) : Prop where
  sound : usage.list.Sound usage.heap table
  numbers : (usage.live ++ usage.freed).Perm (List.range usage.list.cursor)
  free : usage.list.HoldsFree usage.heap.memory table usage.freed

variable {usage after : ObjUsage} {table : List Nat} {index : Nat}

theorem Kept.live_lt (kept : usage.Kept table) (live : index ∈ usage.live) :
    index < usage.list.cursor :=
  List.mem_range.mp (kept.numbers.mem_iff.mp (List.mem_append_left _ live))

theorem Kept.freed_lt (kept : usage.Kept table) (freed : index ∈ usage.freed) :
    index < usage.list.cursor :=
  List.mem_range.mp (kept.numbers.mem_iff.mp (List.mem_append_right _ freed))

theorem Kept.nodup (kept : usage.Kept table) : (usage.live ++ usage.freed).Nodup :=
  kept.numbers.nodup_iff.mpr List.nodup_range

theorem Kept.notFreed (kept : usage.Kept table) (live : index ∈ usage.live) :
    index ∉ usage.freed := by
  intro free
  exact (List.nodup_append.mp kept.nodup).2.2 index live index free rfl

theorem Kept.disjoint (kept : usage.Kept table) : usage.Disjoint := by
  have laid := kept.sound.laid
  constructor
  · exact (List.nodup_append.mp kept.nodup).1
  · intro index live
    have below := kept.live_lt live
    obtain ⟨buffer, inTable, above, inside⟩ := (kept.sound.fits below).inside
    obtain ⟨place, bound, entry⟩ := List.mem_iff_getElem.mp inTable
    refine ⟨usage.list.bufferBlock buffer, ?_, ?_, ?_⟩
    · constructor
      · apply laid.owns.blocks.mem_iff.mpr
        apply List.mem_append_right
        apply List.mem_append_right
        exact List.mem_map_of_mem inTable
      · rfl
      · refine ⟨place, ?_, ?_⟩
        · rw [← laid.length]
          exact bound
        · apply laid.words
          rw [List.getElem?_eq_getElem bound, entry]
          rfl
    · unfold element
      rw [kept.sound.element_eq below]
      exact above
    · unfold element ObjList.bufferBlock
      rw [kept.sound.element_eq below, Extent.stop_mk, Extent.stop_mk]
      exact inside
  · intro one liveOne other liveOther different
    have belowOne := kept.live_lt liveOne
    have belowOther := kept.live_lt liveOther
    unfold element
    rw [kept.sound.element_eq belowOne, kept.sound.element_eq belowOther]
    have apart := (kept.sound.fits belowOne).apart laid kept.sound.created
      (kept.sound.fits belowOther) different
    rcases apart with before | behind
    · exact Extent.disjoint_of_stop_le before
    · apply Extent.Disjoint.symm
      exact Extent.disjoint_of_stop_le behind
  · exact kept.numbers

theorem decremented_top {top count : Nat} (next : (top + 1) % 2 ^ 32 = count + 1)
    (narrow : top < 2 ^ 32) : decremented top < 2 ^ 32 ∧ (decremented top + 1) % 2 ^ 32 = count := by
  unfold decremented
  split <;> omega

theorem Kept.popStack (kept : usage.Kept table) (pops : usage.list.PopsStack) :
    ∃ index rest, usage.freed = index :: rest ∧
      loadWordAt usage.heap.memory
        ((usage.list.freeStack + 4 * usage.list.freeStackTop) % 2 ^ 32) = index ∧
      Kept { usage with
        list := { usage.list with
          freeStackTop := decremented usage.list.freeStackTop }
        live := index :: usage.live
        freed := rest } table := by
  have numbers := kept.numbers
  cases kept.free with
  | inChain unpreserved _ => exact absurd unpreserved pops.1
  | onStack preserved narrow top room stack =>
      cases free : usage.freed with
      | nil =>
          rw [free, List.length_nil] at top
          have nonempty := pops.2
          omega
      | cons index rest =>
          rw [free] at top stack room numbers
          rw [List.length_cons] at top room
          have length : usage.list.freeStackTop = rest.length := by omega
          have inside := kept.sound.laid.stack_le kept.sound.created preserved
          have wrapped : (usage.list.freeStack + 4 * usage.list.freeStackTop) % 2 ^ 32 =
              usage.list.freeStack + 4 * rest.length := by omega
          obtain ⟨small, next⟩ := decremented_top top narrow
          have smaller : 4 * rest.length ≤ usage.list.stackSize := by omega
          refine ⟨index, rest, rfl, ?_, ?_⟩
          · rw [wrapped]
            exact stack.1
          · constructor
            · exact kept.sound.update _ _ _
            · exact List.perm_middle.symm.trans numbers
            · exact .onStack preserved small next smaller stack.2

theorem Kept.popChain (kept : usage.Kept table) (pops : usage.list.PopsChain) :
    ∃ index rest, usage.freed = index :: rest ∧
      loadWordAt usage.heap.memory ((usage.list.nextFree + 4) % 2 ^ 32) = index ∧
      Kept { usage with
        list := { usage.list with
          nextFree := loadWordAt usage.heap.memory usage.list.nextFree }
        live := index :: usage.live
        freed := rest } table := by
  have numbers := kept.numbers
  cases kept.free with
  | onStack preserved _ _ _ _ => exact absurd pops.1 preserved
  | inChain unpreserved chain =>
      cases free : usage.freed with
      | nil =>
          rw [free] at chain
          exact absurd chain pops.2
      | cons index rest =>
          have below := kept.freed_lt (free ▸ List.mem_cons_self)
          have bounds := ((kept.sound.fits below).bounds kept.sound.laid).2
          have record := kept.sound.record unpreserved
          rw [free] at chain numbers
          obtain ⟨head, number, chain⟩ := chain
          have wrapped : (usage.list.nextFree + 4) % 2 ^ 32 = usage.list.nextFree + 4 := by
            unfold objListSize at record
            omega
          refine ⟨index, rest, rfl, ?_, ?_⟩
          · rw [wrapped]
            exact number
          · constructor
            · exact kept.sound.update _ _ _
            · exact List.perm_middle.symm.trans numbers
            · exact .inChain unpreserved chain

/-- Nothing is free where an allocation appends an element. -/
theorem Kept.freed_nil (kept : usage.Kept table) (noStack : ¬ usage.list.PopsStack)
    (noChain : ¬ usage.list.PopsChain) : usage.freed = [] := by
  cases kept.free with
  | onStack preserved _ top _ _ =>
      have empty : usage.list.freeStackTop = 0xffffffff := by
        by_contra nonempty
        exact noStack ⟨preserved, nonempty⟩
      rw [empty] at top
      exact List.eq_nil_of_length_eq_zero top.symm
  | inChain unpreserved chain =>
      have empty : usage.list.nextFree = 0 := by
        by_contra nonempty
        exact noChain ⟨unpreserved, nonempty⟩
      cases free : usage.freed with
      | nil => rfl
      | cons index rest =>
          have below := kept.freed_lt (free ▸ List.mem_cons_self)
          have bounds := (kept.sound.fits below).bounds kept.sound.laid
          rw [free] at chain
          exact absurd (chain.1.symm.trans empty) bounds.1

theorem append_numbers {live : List Nat} {cursor : Nat}
    (numbers : (live ++ []).Perm (List.range cursor)) :
    (cursor :: live ++ []).Perm (List.range (cursor + 1)) := by
  rw [List.append_nil] at *
  rw [List.range_succ]
  exact (numbers.cons cursor).trans (List.perm_append_singleton _ _).symm

theorem Kept.append (kept : usage.Kept table) (noStack : ¬ usage.list.PopsStack)
    (noChain : ¬ usage.list.PopsChain)
    (appended : (usage.list.cursor % usage.list.bufferSize + 1) * usage.list.elemSize ≤
      usage.list.bufferSize) {list : ObjList} {heap : BlockHeap}
    (taken : usage.list.takeIndex usage.heap = some (index, list, heap)) :
    index = usage.list.cursor ∧ ∃ table',
      Kept { list, heap, live := index :: usage.live, freed := [] } table' := by
  have numbers := kept.numbers
  have free := kept.free
  rw [kept.freed_nil noStack noChain] at numbers free
  have room := kept.sound.room
  have product := kept.sound.product_lt
  have whole : usage.list.bufferSize * usage.list.bufferCount % 2 ^ 32 =
      usage.list.bufferSize * usage.list.bufferCount := Nat.mod_eq_of_lt product
  have next : (usage.list.cursor + 1) % 2 ^ 32 = usage.list.cursor + 1 := by omega
  simp only [ObjList.takeIndex, if_neg noStack, if_neg noChain, next, whole] at taken
  by_cases full : usage.list.cursor + 1 = usage.list.bufferSize * usage.list.bufferCount
  · rw [if_pos full] at taken
    obtain ⟨⟨grown, granted⟩, added, taken⟩ := Option.bind_eq_some_iff.mp taken
    cases taken
    obtain ⟨_, _, buffer, rfl, sound⟩ := kept.sound.grow appended full added
    exact ⟨rfl, table ++ [buffer], sound, append_numbers numbers, free.nil _ _ _ _ _ _⟩
  · rw [if_neg full] at taken
    cases taken
    exact ⟨rfl, table, kept.sound.advance appended full, append_numbers numbers,
      free.nil _ _ _ _ _ _⟩

/-- A number that was freed is handed out before any element is appended. -/
theorem Kept.take (kept : usage.Kept table)
    (meets : usage.list.PopsStack ∨ usage.list.PopsChain ∨
      (usage.list.cursor % usage.list.bufferSize + 1) * usage.list.elemSize ≤
        usage.list.bufferSize) {list : ObjList} {heap : BlockHeap}
    (taken : usage.list.takeIndex usage.heap = some (index, list, heap)) :
    (index ∈ usage.freed ∨ index = usage.list.cursor ∧ usage.freed = []) ∧ ∃ table',
      Kept { list, heap, live := index :: usage.live, freed := usage.freed.erase index } table' := by
  by_cases stack : usage.list.PopsStack
  · obtain ⟨first, rest, free, loaded, popped⟩ := kept.popStack stack
    simp only [ObjList.takeIndex, if_pos stack, loaded] at taken
    cases taken
    rw [free, List.erase_cons_head]
    exact ⟨.inl List.mem_cons_self, table, popped⟩
  · by_cases chain : usage.list.PopsChain
    · obtain ⟨first, rest, free, loaded, popped⟩ := kept.popChain chain
      simp only [ObjList.takeIndex, if_neg stack, if_pos chain, loaded] at taken
      cases taken
      rw [free, List.erase_cons_head]
      exact ⟨.inl List.mem_cons_self, table, popped⟩
    · have appended := (meets.resolve_left stack).resolve_left chain
      obtain ⟨rfl, table', grown⟩ := kept.append stack chain appended taken
      rw [kept.freed_nil stack chain]
      exact ⟨.inr ⟨rfl, rfl⟩, table', grown⟩

theorem Kept.alloc (kept : usage.Kept table) {grants : List Grant}
    (meets : usage.Meets (.alloc grants)) (stepped : usage.next (.alloc grants) = some after) :
    (∃ index, after.live = index :: usage.live ∧ after.freed = usage.freed.erase index ∧
      (index ∈ usage.freed ∨ index = usage.list.cursor ∧ usage.freed = [])) ∧
      ∃ table', after.Kept table' := by
  obtain ⟨⟨index, list, heap⟩, allocated, stepped⟩ := Option.bind_eq_some_iff.mp stepped
  cases stepped
  simp only [ObjList.allocObjListElement, if_neg kept.sound.created] at allocated
  obtain ⟨⟨taken, before, granted⟩, isTaken, allocated⟩ := Option.bind_eq_some_iff.mp allocated
  cases allocated
  have granting : Kept { usage with heap := usage.heap.withGrants grants } table :=
    ⟨kept.sound.withGrants grants, kept.numbers, kept.free⟩
  obtain ⟨source, table', kept⟩ := granting.take meets isTaken
  exact ⟨⟨taken, rfl, rfl, source⟩, table', kept.sound.update _ _ _, kept.numbers,
    kept.free.withUsed _⟩

theorem Kept.change (kept : usage.Kept table) (live : index ∈ usage.live) {memory : Bytes}
    (same : ∀ place, place < usage.list.slot table index ∨
      usage.list.slot table index + usage.list.elemSize ≤ place →
      memory place = usage.heap.memory place) :
    usage.list.Sound (usage.heap.withMemory memory) table ∧
      usage.list.HoldsFree memory table usage.freed := by
  have laid := kept.sound.laid
  have created := kept.sound.created
  have fits := kept.sound.fits (kept.live_lt live)
  constructor
  · apply kept.sound.withMemory
    apply laid.withMemory
    intro place above inside
    apply same
    have apart := fits.table_apart laid created
    omega
  · cases kept.free with
    | onStack preserved narrow top room stack =>
        refine .onStack preserved narrow top room (stack.congr ?_)
        intro place above inside
        apply same
        have apart := laid.stack_apart created preserved above (by omega)
        exact apart.2.2 index fits
    | inChain unpreserved chain =>
        refine .inChain unpreserved (chain.congr ?_)
        intro other freed offset inRecord
        apply same
        have different : index ≠ other := fun equal => kept.notFreed live (equal ▸ freed)
        have apart := fits.apart laid created (kept.sound.fits (kept.freed_lt freed)) different
        have record := kept.sound.record unpreserved
        unfold objListSize at record
        omega

theorem Kept.write (kept : usage.Kept table) {contents : Bytes}
    (stepped : usage.next (.write index contents) = some after) : after.Kept table := by
  simp only [next] at stepped
  split at stepped
  · rename_i live
    cases stepped
    have same : ∀ place, place < usage.list.slot table index ∨
        usage.list.slot table index + usage.list.elemSize ≤ place →
        fillBytes usage.heap.memory (usage.element index).start (usage.element index).size
          contents place = usage.heap.memory place := by
      intro place outside
      rw [← kept.sound.element_eq (kept.live_lt live)] at outside
      exact Words.fillBytes_outside contents outside
    obtain ⟨sound, free⟩ := kept.change live same
    exact ⟨sound, kept.numbers, free⟩
  · cases stepped

theorem Kept.free_numbers (kept : usage.Kept table) (live : index ∈ usage.live) :
    (usage.live.erase index ++ index :: usage.freed).Perm (List.range usage.list.cursor) := by
  apply List.perm_middle.trans
  exact ((List.perm_cons_erase live).symm.append_right usage.freed).trans kept.numbers

theorem Kept.push (kept : usage.Kept table) (preserved : usage.list.preserveFree ≠ 0)
    (stack : ObjList.StackHolds usage.heap.memory usage.list.freeStack usage.freed)
    (room : 4 * (usage.freed.length + 1) ≤ usage.list.stackSize) (narrow : index < 2 ^ 32) :
    usage.list.Laid (usage.heap.store (usage.list.freeStack + 4 * usage.freed.length) index)
        table ∧
      ObjList.StackHolds
        (usage.heap.store (usage.list.freeStack + 4 * usage.freed.length) index).memory
        usage.list.freeStack (index :: usage.freed) := by
  refine ⟨?_, ?_, ?_⟩
  · apply kept.sound.laid.withMemory
    intro place above inside
    apply Words.fillBytes_outside
    -- A byte of the pushed word would be one of the table.
    by_contra overlap
    have onStack : usage.list.freeStack ≤ place := by omega
    have outside := kept.sound.laid.stack_apart kept.sound.created preserved onStack (by omega)
    omega
  · exact Words.loadWordAt_storeWordAt _ _ narrow
  · apply stack.congr
    intro place above inside
    change storeWordAt usage.heap.memory _ index place = _
    exact Words.fillBytes_outside _ (.inl inside)

theorem Kept.chain_narrow (kept : usage.Kept table)
    (chain : ObjList.ChainHolds usage.heap.memory (usage.list.slot table) usage.list.nextFree
      usage.freed) (nonempty : 0 < usage.list.elemSize) : usage.list.nextFree < 2 ^ 32 := by
  cases free : usage.freed with
  | nil =>
      rw [free] at chain
      rw [show usage.list.nextFree = 0 from chain]
      omega
  | cons first rest =>
      have below := kept.freed_lt (free ▸ List.mem_cons_self)
      have inside := ((kept.sound.fits below).bounds kept.sound.laid).2
      rw [free] at chain
      rw [chain.1]
      omega

theorem Kept.link (kept : usage.Kept table) (unpreserved : usage.list.preserveFree = 0)
    (chain : ObjList.ChainHolds usage.heap.memory (usage.list.slot table) usage.list.nextFree
      usage.freed) (live : index ∈ usage.live) :
    usage.list.Laid ((usage.heap.store (usage.list.slot table index + 4) index).store
        (usage.list.slot table index) usage.list.nextFree) table ∧
      ObjList.ChainHolds ((usage.heap.store (usage.list.slot table index + 4) index).store
          (usage.list.slot table index) usage.list.nextFree).memory
        (usage.list.slot table) (usage.list.slot table index) (index :: usage.freed) := by
  have record := kept.sound.record unpreserved
  unfold objListSize at record
  have same : ∀ place, place < usage.list.slot table index ∨
      usage.list.slot table index + usage.list.elemSize ≤ place →
      storeWordAt (storeWordAt usage.heap.memory (usage.list.slot table index + 4) index)
        (usage.list.slot table index) usage.list.nextFree place = usage.heap.memory place := by
    intro place outside
    unfold storeWordAt
    rw [Words.fillBytes_outside _ (by omega), Words.fillBytes_outside _ (by omega)]
  have narrow := kept.sound.lt_word (kept.live_lt live)
  have nextNarrow := kept.chain_narrow chain kept.sound.nonempty
  obtain ⟨sound, free⟩ := kept.change live same
  cases free with
  | onStack preserved _ _ _ _ => exact absurd unpreserved preserved
  | inChain _ chain =>
      refine ⟨sound.laid, rfl, ?_, ?_⟩
      · change loadWordAt (storeWordAt _ _ _) _ = index
        unfold storeWordAt
        rw [Words.loadWordAt_fillBytes_outside _ (.inr (Nat.le_refl _))]
        exact Words.loadWordAt_storeWordAt _ _ narrow
      · change ObjList.ChainHolds _ _ (loadWordAt (storeWordAt _ _ _) _) _
        rw [Words.loadWordAt_storeWordAt _ _ nextNarrow]
        exact chain

theorem Kept.free_step (kept : usage.Kept table) (meets : usage.Meets (.free index))
    (stepped : usage.next (.free index) = some after) : after.Kept table := by
  simp only [next] at stepped
  split at stepped
  · rename_i live
    cases stepped
    have below := kept.live_lt live
    have bounds := (kept.sound.fits below).bounds kept.sound.laid
    simp only [ObjList.freeObjListElement, kept.sound.element_eq below, if_neg bounds.1]
    cases kept.free with
    | inChain unpreserved chain =>
        have record := kept.sound.record unpreserved
        have wrapped : (usage.list.slot table index + 4) % 2 ^ 32 =
            usage.list.slot table index + 4 := by
          unfold objListSize at record
          omega
        rw [if_neg (not_not_intro unpreserved), wrapped]
        obtain ⟨laid, chain⟩ := kept.link unpreserved chain live
        constructor
        · exact (kept.sound.withMemory laid).update _ _ _
        · exact kept.free_numbers live
        · exact .inChain unpreserved chain
    | onStack preserved narrow top _ stack =>
        have room := meets.resolve_left preserved
        have inside := kept.sound.laid.stack_le kept.sound.created preserved
        have size : usage.list.stackSize < 2 ^ 32 := Nat.mod_lt _ (by omega)
        rw [top] at room
        have wrapped : (usage.list.freeStack + 4 * usage.freed.length) % 2 ^ 32 =
            usage.list.freeStack + 4 * usage.freed.length := by omega
        rw [if_pos preserved, top, wrapped]
        obtain ⟨laid, stack⟩ := kept.push preserved stack room (kept.sound.lt_word below)
        have small : usage.freed.length < 2 ^ 32 := by omega
        have next : (usage.freed.length + 1) % 2 ^ 32 = usage.freed.length + 1 := by omega
        constructor
        · exact (kept.sound.withMemory laid).update _ _ _
        · exact kept.free_numbers live
        · exact .onStack preserved small next room stack
  · cases stepped

theorem Kept.step (kept : usage.Kept table) {call : ObjCall} (meets : usage.Meets call)
    (stepped : usage.next call = some after) : ∃ table', after.Kept table' := by
  cases call with
  | alloc grants => exact (kept.alloc meets stepped).2
  | free index => exact ⟨table, kept.free_step meets stepped⟩
  | write index contents => exact ⟨table, kept.write stepped⟩

end ObjUsage

end DoggOS.Rt

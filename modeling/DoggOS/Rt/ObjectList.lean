/-
The object list: numbered elements in buffers that are added as the list grows.

A table names the buffers.  An element's number says which buffer it is in and
where; a number that was freed waits on a stack of numbers, or in a chain through
the freed elements themselves where the list does not preserve them.  The code
requests each buffer with `buffer_size` bytes, while it counts `buffer_size`
elements in it.  `k_rt_CopyBytes` is the copy of a block to a separate one, and
the alignments that the code requests play no part.  Pointers wrap at 2^32.
-/

import DoggOS.Library.FreshBlocks

namespace DoggOS.Rt

/-- `struct k_rt_objlist_t`; `next_free` shares the union with the other two. -/
structure ObjList where
  heap : Nat
  elemSize : Nat
  bufferSize : Nat
  bufferCount : Nat
  cursor : Nat
  used : Nat
  buffers : Nat
  preserveFree : Nat
  freeStackTop : Nat
  freeStack : Nat
  nextFree : Nat
deriving DecidableEq, Repr

/-- `sizeof(struct k_rt_objlist_t)` -/
def objListSize : Nat := 40

/-- `--` of a `uint32_t`. -/
def decremented (word : Nat) : Nat := if word = 0 then 0xffffffff else word - 1

namespace ObjList

/-- The loop of addObjListBuffer. -/
def mallocBuffers (bufferSize buffers : Nat) : Nat → Nat → BlockHeap → Option BlockHeap
  | 0, _, heap => some heap
  | count + 1, bufferIndex, heap => do
      let (buffer, heap) ← heap.malloc bufferSize
      mallocBuffers bufferSize buffers count (bufferIndex + 1)
        (heap.store ((buffers + 4 * bufferIndex) % 2 ^ 32) buffer)

def moveBuffers (list : ObjList) (bufferList : Nat) (heap : BlockHeap) : BlockHeap :=
  if list.buffers = 0 then heap
  else
    let copied := heap.withMemory (fillBytes heap.memory bufferList
      (4 * list.bufferCount % 2 ^ 32) fun place => heap.memory (list.buffers + place))
    copied.free list.buffers

/-- A larger free stack; what was on the old one is not copied. -/
def mallocFreeStack (list : ObjList) (newBufferCount : Nat) (heap : BlockHeap) :
    Option (Nat × BlockHeap) :=
  if list.preserveFree = 0 then some (list.freeStack, heap)
  else
    let freed := if list.freeStack = 0 then heap else heap.free list.freeStack
    freed.malloc (4 * newBufferCount * list.bufferSize % 2 ^ 32)

def addObjListBuffer (list : ObjList) (bufferCount : Nat) (heap : BlockHeap) :
    Option (ObjList × BlockHeap) :=
  if bufferCount = 0 then some (list, heap)
  else do
    let newBufferCount := (list.bufferCount + bufferCount) % 2 ^ 32
    let (bufferList, heap) ← heap.malloc (4 * newBufferCount % 2 ^ 32)
    let (freeStack, heap) ←
      list.mallocFreeStack newBufferCount (list.moveBuffers bufferList heap)
    let heap ← mallocBuffers list.bufferSize bufferList (newBufferCount - list.bufferCount)
      list.bufferCount heap
    some ({ list with
      buffers := bufferList
      freeStack := freeStack
      bufferCount := newBufferCount }, heap)

/-- `struct k_rt_objlist_t obj_list = {}` -/
def zero : ObjList := ⟨0, 0, 0, 0, 0, 0, 0, 0, 0, 0, 0⟩

def blank (elemSize bufferSize sheap preserveFree : Nat) : ObjList :=
  { zero with
    freeStackTop := if preserveFree = 0 then 0 else 0xffffffff
    heap := sheap
    elemSize := if preserveFree = 0 ∧ elemSize < objListSize then objListSize else elemSize
    bufferSize := bufferSize
    preserveFree := preserveFree }

def createObjList (elemSize bufferSize sheap preserveFree : Nat) (heap : BlockHeap) :
    Option (ObjList × BlockHeap) :=
  if elemSize ≠ 0 ∧ bufferSize ≠ 0 ∧ sheap ≠ 0 then
    (blank elemSize bufferSize sheap preserveFree).addObjListBuffer 1 heap
  else some (zero, heap)

def getObjListElement (list : ObjList) (heap : BlockHeap) (index : Nat) : Nat :=
  if list.buffers ≠ 0 ∧ index < list.cursor then
    let buffer :=
      loadWordAt heap.memory ((list.buffers + 4 * (index / list.bufferSize)) % 2 ^ 32)
    (buffer + index % list.bufferSize * list.elemSize) % 2 ^ 32
  else 0

def PopsStack (list : ObjList) : Prop := list.preserveFree ≠ 0 ∧ list.freeStackTop ≠ 0xffffffff

instance (list : ObjList) : Decidable list.PopsStack := inferInstanceAs (Decidable (_ ∧ _))

def PopsChain (list : ObjList) : Prop := list.preserveFree = 0 ∧ list.nextFree ≠ 0

instance (list : ObjList) : Decidable list.PopsChain := inferInstanceAs (Decidable (_ ∧ _))

def takeIndex (list : ObjList) (heap : BlockHeap) : Option (Nat × ObjList × BlockHeap) :=
  if list.PopsStack then
    let index := loadWordAt heap.memory ((list.freeStack + 4 * list.freeStackTop) % 2 ^ 32)
    some (index, { list with freeStackTop := decremented list.freeStackTop }, heap)
  else if list.PopsChain then
    let index := loadWordAt heap.memory ((list.nextFree + 4) % 2 ^ 32)
    some (index, { list with nextFree := loadWordAt heap.memory list.nextFree }, heap)
  else
    let index := list.cursor
    let list := { list with cursor := (list.cursor + 1) % 2 ^ 32 }
    if list.cursor = list.bufferSize * list.bufferCount % 2 ^ 32 then do
      let (list, heap) ← list.addObjListBuffer 1 heap
      some (index, list, heap)
    else some (index, list, heap)

def allocObjListElement (list : ObjList) (heap : BlockHeap) :
    Option (Nat × ObjList × BlockHeap) :=
  if list.buffers = 0 then some (0xffffffff, list, heap)
  else do
    let (index, list, heap) ← list.takeIndex heap
    some (index, { list with used := (list.used + 1) % 2 ^ 32 }, heap)

def freeObjListElement (list : ObjList) (heap : BlockHeap) (index : Nat) : ObjList × BlockHeap :=
  let element := list.getObjListElement heap index
  let used := decremented list.used
  if element = 0 then (list, heap)
  else if list.preserveFree ≠ 0 then
    let top := (list.freeStackTop + 1) % 2 ^ 32
    ({ list with freeStackTop := top, used := used },
      heap.store ((list.freeStack + 4 * top) % 2 ^ 32) index)
  else
    ({ list with nextFree := element, used := used },
      (heap.store ((element + 4) % 2 ^ 32) index).store element list.nextFree)

def tableBlock (list : ObjList) : List Extent :=
  if list.buffers = 0 then [] else [⟨list.buffers, 4 * list.bufferCount⟩]

def stackSize (list : ObjList) : Nat := 4 * list.bufferCount * list.bufferSize % 2 ^ 32

def stackBlock (list : ObjList) : List Extent :=
  if list.freeStack = 0 then [] else [⟨list.freeStack, list.stackSize⟩]

def bufferBlock (list : ObjList) (buffer : Nat) : Extent := ⟨buffer, list.bufferSize⟩

def ownBlocks (list : ObjList) (table : List Nat) : List Extent :=
  list.tableBlock ++ (list.stackBlock ++ table.map list.bufferBlock)

/-- The table names the buffers, and the heap's live blocks are those of the list. -/
structure Laid (list : ObjList) (heap : BlockHeap) (table : List Nat) : Prop where
  owns : heap.Owns (list.ownBlocks table)
  length : table.length = list.bufferCount
  words : ∀ index buffer, table[index]? = some buffer →
    loadWordAt heap.memory (list.buffers + 4 * index) = buffer
  sized : 0 < list.bufferSize
  blank : list.buffers = 0 → list.bufferCount = 0
  mode : list.buffers ≠ 0 → (list.freeStack = 0 ↔ list.preserveFree = 0)
  unused : list.buffers = 0 → list.freeStack = 0

variable {list after : ObjList} {heap later : BlockHeap} {table : List Nat}

theorem bufferBlocks_size (list : ObjList) (table : List Nat) :
    ((table.map list.bufferBlock).map Extent.size).sum = table.length * list.bufferSize := by
  rw [List.map_map]
  change (table.map fun _ => list.bufferSize).sum = _
  rw [List.map_const', List.sum_replicate, nsmul_eq_mul, Nat.cast_id]

theorem Laid.room (laid : list.Laid heap table) :
    4 * list.bufferCount + list.bufferCount * list.bufferSize ≤ 2 ^ 32 := by
  have total := laid.owns.total_le
  unfold ownBlocks tableBlock at total
  rw [List.map_append, List.map_append, List.sum_append, List.sum_append, bufferBlocks_size,
    laid.length] at total
  by_cases none : list.buffers = 0
  · rw [laid.blank none]
    omega
  · rw [if_neg none] at total
    change (4 * list.bufferCount + 0) + _ ≤ _ at total
    omega

theorem Laid.count_lt (laid : list.Laid heap table) : 4 * (list.bufferCount + 1) < 2 ^ 32 := by
  have room := laid.room
  have each := Nat.le_mul_of_pos_right list.bufferCount laid.sized
  omega

/-- The new table has the old one's buffers, and the old one is not live any more. -/
theorem moveBuffers_spec (laid : list.Laid heap table) {bufferList size : Nat}
    (allocated : heap.malloc size = some (bufferList, later)) :
    (list.moveBuffers bufferList later).Owns
        (⟨bufferList, size⟩ :: (list.stackBlock ++ table.map list.bufferBlock)) ∧
      ∀ index buffer, table[index]? = some buffer →
        loadWordAt (list.moveBuffers bufferList later).memory (bufferList + 4 * index) = buffer := by
  have owns := BlockHeap.malloc_owns laid.owns allocated
  unfold moveBuffers
  by_cases none : list.buffers = 0
  · rw [if_pos none]
    constructor
    · unfold ownBlocks tableBlock at owns
      rw [if_pos none] at owns
      exact owns
    · intro index buffer entry
      have empty := laid.length.trans (laid.blank none)
      have inside := (List.getElem?_eq_some_iff.mp entry).1
      omega
  · rw [if_neg none]
    unfold ownBlocks tableBlock at owns
    rw [if_neg none] at owns
    have swapped := owns.perm (List.Perm.swap _ _ _)
    constructor
    · exact BlockHeap.free_owns (swapped.withMemory _)
    · intro index buffer entry
      have inside := (List.getElem?_eq_some_iff.mp entry).1
      have small := laid.count_lt
      rw [laid.length] at inside
      have separate := (List.pairwise_cons.mp owns.separate).1 _ List.mem_cons_self
      rw [← laid.words index buffer entry]
      apply Words.loadWordAt_moved
      intro place inWord
      -- The copy reads the old table, which the new block does not touch.
      change fillBytes later.memory bufferList (4 * list.bufferCount % 2 ^ 32)
        (fun place => later.memory (list.buffers + place)) (bufferList + 4 * index + place) = _
      rw [Nat.add_assoc bufferList, Words.fillBytes_inside _ (by omega), ← Nat.add_assoc]
      apply BlockHeap.malloc_outside allocated
      simp only [Extent.Separate, Extent.stop_mk] at separate
      omega

theorem malloc_word {own : List Extent} {size start place : Nat} {block : Extent}
    (owns : heap.Owns own) (member : block ∈ own) (inside : block.start ≤ place)
    (fits : place + 4 ≤ block.stop) (allocated : heap.malloc size = some (start, later)) :
    loadWordAt later.memory place = loadWordAt heap.memory place := by
  have after := BlockHeap.malloc_owns owns allocated
  have separate := (List.pairwise_cons.mp after.separate).1 block member
  apply Words.loadWordAt_congr
  intro offset inWord
  apply BlockHeap.malloc_outside allocated
  unfold Extent.Separate at separate
  rw [Extent.stop_mk] at separate
  unfold Extent.stop at *
  simp only at separate
  omega

/-- The free stack has room for a number of each element, and the other blocks are kept. -/
theorem mallocFreeStack_spec {others : List Extent} {newBufferCount freeStack : Nat}
    (owns : heap.Owns (list.stackBlock ++ others))
    (mode : list.preserveFree = 0 → list.freeStack = 0)
    (grown : list.mallocFreeStack newBufferCount heap = some (freeStack, later)) :
    later.Owns ((if freeStack = 0 then []
        else [⟨freeStack, 4 * newBufferCount * list.bufferSize % 2 ^ 32⟩]) ++ others) ∧
      (freeStack = 0 ↔ list.preserveFree = 0) ∧
      ∀ block ∈ others, ∀ place, block.start ≤ place → place + 4 ≤ block.stop →
        loadWordAt later.memory place = loadWordAt heap.memory place := by
  unfold mallocFreeStack at grown
  by_cases unpreserved : list.preserveFree = 0
  · rw [if_pos unpreserved] at grown
    cases grown
    have none := mode unpreserved
    unfold stackBlock at owns
    rw [if_pos none] at owns
    rw [if_pos none]
    refine ⟨owns, ?_, ?_⟩
    · rw [none, unpreserved]
    · intro block _ place _ _
      rfl
  · rw [if_neg unpreserved] at grown
    have freed : (if list.freeStack = 0 then heap else heap.free list.freeStack).Owns others := by
      unfold stackBlock at owns
      by_cases none : list.freeStack = 0
      · rw [if_pos none] at owns
        rw [if_pos none]
        exact owns
      · rw [if_neg none] at owns
        rw [if_neg none]
        exact BlockHeap.free_owns owns
    have memory : (if list.freeStack = 0 then heap else heap.free list.freeStack).memory =
        heap.memory := by
      split <;> rfl
    have nonzero : freeStack ≠ 0 := (BlockHeap.malloc_cases grown).1.1
    rw [if_neg nonzero]
    refine ⟨BlockHeap.malloc_owns freed grown, ?_, ?_⟩
    · simp [nonzero, unpreserved]
    · intro block member place inside fits
      rw [← memory]
      exact malloc_word freed member inside fits grown

theorem addObjListBuffer_spec (laid : list.Laid heap table)
    (added : list.addObjListBuffer 1 heap = some (after, later)) :
    ∃ bufferList freeStack buffer, bufferList ≠ 0 ∧
      after = { list with
        buffers := bufferList
        freeStack := freeStack
        bufferCount := list.bufferCount + 1 } ∧
      after.Laid later (table ++ [buffer]) := by
  have small := laid.count_lt
  have counted : (list.bufferCount + 1) % 2 ^ 32 = list.bufferCount + 1 := by omega
  have tabled : 4 * (list.bufferCount + 1) % 2 ^ 32 = 4 * (list.bufferCount + 1) := by omega
  have one : list.bufferCount + 1 - list.bufferCount = 1 := by omega
  have notZero : (1 : Nat) ≠ 0 := by omega
  simp only [addObjListBuffer, if_neg notZero, counted, tabled, one] at added
  obtain ⟨⟨bufferList, first⟩, allocated, added⟩ := Option.bind_eq_some_iff.mp added
  obtain ⟨⟨freeStack, second⟩, grown, added⟩ := Option.bind_eq_some_iff.mp added
  obtain ⟨third, filled, added⟩ := Option.bind_eq_some_iff.mp added
  obtain ⟨⟨buffer, fourth⟩, last, filled⟩ := Option.bind_eq_some_iff.mp filled
  cases filled
  cases added
  have nonzero : bufferList ≠ 0 := (BlockHeap.malloc_cases allocated).1.1
  obtain ⟨moved, words⟩ := moveBuffers_spec laid allocated
  have mode : list.preserveFree = 0 → list.freeStack = 0 := by
    intro unpreserved
    by_cases none : list.buffers = 0
    · exact laid.unused none
    · exact (laid.mode none).mpr unpreserved
  have stacked := moved.perm (List.perm_middle.symm :
    (⟨bufferList, 4 * (list.bufferCount + 1)⟩ :: (list.stackBlock ++
      table.map list.bufferBlock)).Perm (list.stackBlock ++
        ⟨bufferList, 4 * (list.bufferCount + 1)⟩ :: table.map list.bufferBlock))
  obtain ⟨owns, modes, kept⟩ := mallocFreeStack_spec stacked mode grown
  have complete := BlockHeap.malloc_owns owns last
  refine ⟨bufferList, freeStack, buffer, nonzero, rfl, ?_⟩
  have tablePlace : ∀ index ≤ list.bufferCount,
      bufferList + 4 * index + 4 ≤ bufferList + 4 * (list.bufferCount + 1) := by
    intro index small
    omega
  have tableMember : (⟨bufferList, 4 * (list.bufferCount + 1)⟩ : Extent) ∈
      ⟨bufferList, 4 * (list.bufferCount + 1)⟩ :: table.map list.bufferBlock :=
    List.mem_cons_self
  have inside := (owns.inside _ (List.mem_append_right _ tableMember)).2
  rw [Extent.stop_mk] at inside
  constructor
  · apply BlockHeap.Owns.withMemory
    apply complete.perm
    unfold ownBlocks tableBlock stackBlock
    simp only
    rw [if_neg nonzero, List.map_append]
    refine (List.perm_append_singleton _ _).symm.trans ?_
    rw [List.append_assoc, List.cons_append]
    exact List.perm_middle
  · rw [List.length_append, laid.length]
    rfl
  · intro index word entry
    have wrapped : (bufferList + 4 * list.bufferCount) % 2 ^ 32 =
        bufferList + 4 * list.bufferCount := by omega
    change loadWordAt (storeWordAt fourth.memory ((bufferList + 4 * list.bufferCount) % 2 ^ 32)
      buffer) (bufferList + 4 * index) = word
    rw [wrapped]
    have bound := (List.getElem?_eq_some_iff.mp entry).1
    rw [List.length_append, laid.length, List.length_singleton] at bound
    by_cases old : index < list.bufferCount
    · rw [List.getElem?_append_left (by rw [laid.length]; exact old)] at entry
      have fits := tablePlace index (by omega)
      have apart : bufferList + 4 * index + 4 ≤ bufferList + 4 * list.bufferCount := by omega
      calc loadWordAt (storeWordAt fourth.memory (bufferList + 4 * list.bufferCount) buffer)
            (bufferList + 4 * index)
          = loadWordAt fourth.memory (bufferList + 4 * index) :=
            Words.loadWordAt_fillBytes_outside _ (.inl apart)
        _ = loadWordAt second.memory (bufferList + 4 * index) :=
            malloc_word owns (List.mem_append_right _ tableMember) (Nat.le_add_right _ _) fits last
        _ = loadWordAt (list.moveBuffers bufferList first).memory (bufferList + 4 * index) :=
            kept _ tableMember _ (Nat.le_add_right _ _) fits
        _ = word := words index word entry
    · have newest : index = table.length := by
        rw [laid.length]
        omega
      rw [newest, List.getElem?_concat_length] at entry
      have granted := (complete.inside _ List.mem_cons_self).2
      rw [Extent.stop_mk] at granted
      have sized := laid.sized
      rw [newest, laid.length, ← Option.some.inj entry]
      exact Words.loadWordAt_storeWordAt _ _ (by omega)
  · exact laid.sized
  · intro none
    exact absurd none nonzero
  · intro _
    exact modes
  · intro none
    exact absurd none nonzero

end ObjList

end DoggOS.Rt

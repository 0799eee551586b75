/-
Elements of an object list, and the numbers that are free.

An element that fits into its buffer shares no byte with another one, nor with
the list's tables.  The free numbers lie on the stack or are chained through
their elements; both are read from few bytes, so writes elsewhere keep them.
-/

import DoggOS.Rt.ObjectList

namespace DoggOS.Rt.ObjList

def slot (list : ObjList) (table : List Nat) (index : Nat) : Nat :=
  table.getD (index / list.bufferSize) 0 + index % list.bufferSize * list.elemSize

/-- The element is in a buffer of the table, and the buffer has the element's bytes. -/
structure Fits (list : ObjList) (table : List Nat) (index : Nat) : Prop where
  inTable : index / list.bufferSize < table.length
  inBuffer : (index % list.bufferSize + 1) * list.elemSize ≤ list.bufferSize

def StackHolds (memory : Bytes) (base : Nat) : List Nat → Prop
  | [] => True
  | index :: rest =>
      loadWordAt memory (base + 4 * rest.length) = index ∧ StackHolds memory base rest

def ChainHolds (memory : Bytes) (place : Nat → Nat) : Nat → List Nat → Prop
  | head, [] => head = 0
  | head, index :: rest =>
      head = place index ∧ loadWordAt memory (head + 4) = index ∧
        ChainHolds memory place (loadWordAt memory head) rest

theorem StackHolds.congr {memory other : Bytes} {base : Nat} {freed : List Nat}
    (holds : StackHolds memory base freed)
    (same : ∀ place, base ≤ place → place < base + 4 * freed.length →
      other place = memory place) : StackHolds other base freed := by
  induction freed with
  | nil => trivial
  | cons index rest ih =>
      rw [List.length_cons] at same
      obtain ⟨top, holds⟩ := holds
      constructor
      · rw [← top]
        apply Words.loadWordAt_congr
        intro place inWord
        exact same _ (by omega) (by omega)
      · apply ih holds
        intro place above below
        exact same place above (by omega)

theorem ChainHolds.congr {memory other : Bytes} {place : Nat → Nat} {head : Nat}
    {freed : List Nat} (holds : ChainHolds memory place head freed)
    (same : ∀ index ∈ freed, ∀ offset < 8,
      other (place index + offset) = memory (place index + offset)) :
    ChainHolds other place head freed := by
  induction freed generalizing head with
  | nil => exact holds
  | cons index rest ih =>
      obtain ⟨first, number, holds⟩ := holds
      have here := same index List.mem_cons_self
      have next : loadWordAt other head = loadWordAt memory head := by
        apply Words.loadWordAt_congr
        intro offset inWord
        rw [first]
        exact here offset (by omega)
      have written : loadWordAt other (head + 4) = loadWordAt memory (head + 4) := by
        apply Words.loadWordAt_congr
        intro offset inWord
        rw [first, Nat.add_assoc]
        exact here (4 + offset) (by omega)
      refine ⟨first, written.trans number, ?_⟩
      rw [next]
      apply ih holds
      intro other member
      exact same other (List.mem_cons_of_mem _ member)

variable {list : ObjList} {heap : BlockHeap} {table : List Nat} {index other : Nat}

theorem Fits.entry (fits : list.Fits table index) :
    ∃ buffer, table[index / list.bufferSize]? = some buffer ∧
      list.slot table index = buffer + index % list.bufferSize * list.elemSize := by
  have entry := List.getElem?_eq_getElem fits.inTable
  refine ⟨_, entry, ?_⟩
  unfold slot
  rw [List.getD_eq_getElem?_getD, entry]
  rfl

theorem Fits.inside (fits : list.Fits table index) :
    ∃ buffer ∈ table, buffer ≤ list.slot table index ∧
      list.slot table index + list.elemSize ≤ buffer + list.bufferSize := by
  obtain ⟨buffer, entry, slot⟩ := fits.entry
  have inBuffer := fits.inBuffer
  rw [Nat.add_mul, Nat.one_mul] at inBuffer
  refine ⟨buffer, List.mem_of_getElem? entry, ?_, ?_⟩
  · omega
  · omega

theorem Laid.separate (laid : list.Laid heap table) (created : list.buffers ≠ 0) :
    (∀ block ∈ list.stackBlock ++ table.map list.bufferBlock,
      Extent.Separate ⟨list.buffers, 4 * list.bufferCount⟩ block) ∧
    (∀ block ∈ list.stackBlock, ∀ buffer ∈ table, block.Separate (list.bufferBlock buffer)) ∧
    (table.map list.bufferBlock).Pairwise Extent.Separate := by
  have separate := laid.owns.separate
  unfold ownBlocks tableBlock at separate
  rw [if_neg created, List.singleton_append] at separate
  obtain ⟨first, rest⟩ := List.pairwise_cons.mp separate
  obtain ⟨_, buffers, between⟩ := List.pairwise_append.mp rest
  refine ⟨first, ?_, buffers⟩
  intro block member buffer inTable
  exact between block member _ (List.mem_map_of_mem inTable)

theorem Fits.apart (laid : list.Laid heap table) (created : list.buffers ≠ 0)
    (fits : list.Fits table index) (fitsOther : list.Fits table other) (different : index ≠ other) :
    list.slot table index + list.elemSize ≤ list.slot table other ∨
      list.slot table other + list.elemSize ≤ list.slot table index := by
  obtain ⟨buffer, entry, slot⟩ := fits.entry
  obtain ⟨bufferOther, entryOther, slotOther⟩ := fitsOther.entry
  have inBuffer := fits.inBuffer
  have inOther := fitsOther.inBuffer
  rw [Nat.add_mul, Nat.one_mul] at inBuffer inOther
  rw [slot, slotOther]
  by_cases same : index / list.bufferSize = other / list.bufferSize
  · rw [same] at entry
    rw [Option.some.inj (entry.symm.trans entryOther)]
    have division := Nat.div_add_mod index list.bufferSize
    have divisionOther := Nat.div_add_mod other list.bufferSize
    rw [same] at division
    rcases Nat.lt_or_ge (index % list.bufferSize) (other % list.bufferSize) with below | above
    · have scaled := Nat.mul_le_mul_right list.elemSize (Nat.succ_le_of_lt below)
      rw [Nat.succ_mul] at scaled
      omega
    · have strict : other % list.bufferSize < index % list.bufferSize := by omega
      have scaled := Nat.mul_le_mul_right list.elemSize (Nat.succ_le_of_lt strict)
      rw [Nat.succ_mul] at scaled
      omega
  · have separate := (laid.separate created).2.2
    have block : (table.map list.bufferBlock)[index / list.bufferSize]? =
        some (list.bufferBlock buffer) := by rw [List.getElem?_map, entry, Option.map_some]
    have blockOther : (table.map list.bufferBlock)[other / list.bufferSize]? =
        some (list.bufferBlock bufferOther) := by rw [List.getElem?_map, entryOther, Option.map_some]
    have apart := (Extent.Separate.of_pairwise separate block blockOther same).2
    have sized := laid.sized
    unfold bufferBlock at apart
    rw [Extent.stop_mk, Extent.stop_mk] at apart
    simp only at apart
    omega

theorem Fits.count_pos (laid : list.Laid heap table) (fits : list.Fits table index) :
    0 < list.bufferCount := by
  rw [← laid.length]
  exact Nat.zero_lt_of_lt fits.inTable

theorem Fits.bounds (laid : list.Laid heap table) (fits : list.Fits table index) :
    list.slot table index ≠ 0 ∧ list.slot table index + list.elemSize ≤ 2 ^ 32 := by
  obtain ⟨buffer, member, above, below⟩ := fits.inside
  have block : list.bufferBlock buffer ∈ list.ownBlocks table := by
    apply List.mem_append_right
    apply List.mem_append_right
    exact List.mem_map_of_mem member
  obtain ⟨nonzero, inside⟩ := laid.owns.inside _ block
  unfold bufferBlock at nonzero inside
  rw [Extent.stop_mk] at inside
  constructor
  · simp only at nonzero
    omega
  · omega

theorem Fits.table_apart (laid : list.Laid heap table) (created : list.buffers ≠ 0)
    (fits : list.Fits table index) :
    list.slot table index + list.elemSize ≤ list.buffers ∨
      list.buffers + 4 * list.bufferCount ≤ list.slot table index := by
  obtain ⟨buffer, member, above, below⟩ := fits.inside
  have inOwn : list.bufferBlock buffer ∈ list.stackBlock ++ table.map list.bufferBlock :=
    List.mem_append_right _ (List.mem_map_of_mem member)
  have apart := ((laid.separate created).1 _ inOwn).2
  have sized := laid.sized
  have counted := fits.count_pos laid
  unfold bufferBlock at apart
  rw [Extent.stop_mk, Extent.stop_mk] at apart
  simp only at apart
  omega

theorem Laid.stack_mem (laid : list.Laid heap table) (created : list.buffers ≠ 0)
    (preserved : list.preserveFree ≠ 0) :
    ⟨list.freeStack, list.stackSize⟩ ∈ list.stackBlock := by
  have allocated : list.freeStack ≠ 0 := fun none => preserved ((laid.mode created).mp none)
  unfold stackBlock
  rw [if_neg allocated]
  exact List.mem_singleton_self _

theorem Laid.table_le (laid : list.Laid heap table) (created : list.buffers ≠ 0) :
    list.buffers + 4 * list.bufferCount ≤ 2 ^ 32 := by
  have block : (⟨list.buffers, 4 * list.bufferCount⟩ : Extent) ∈ list.ownBlocks table := by
    unfold ownBlocks tableBlock
    rw [if_neg created]
    exact List.mem_cons_self
  exact (laid.owns.inside _ block).2

theorem Laid.stack_le (laid : list.Laid heap table) (created : list.buffers ≠ 0)
    (preserved : list.preserveFree ≠ 0) : list.freeStack + list.stackSize ≤ 2 ^ 32 := by
  have block : (⟨list.freeStack, list.stackSize⟩ : Extent) ∈ list.ownBlocks table := by
    apply List.mem_append_right
    apply List.mem_append_left
    exact laid.stack_mem created preserved
  exact (laid.owns.inside _ block).2

theorem Laid.stack_apart (laid : list.Laid heap table) (created : list.buffers ≠ 0)
    (preserved : list.preserveFree ≠ 0) {place : Nat} (above : list.freeStack ≤ place)
    (below : place < list.freeStack + list.stackSize) :
    place < 2 ^ 32 ∧
      (place < list.buffers ∨ list.buffers + 4 * list.bufferCount ≤ place) ∧
      ∀ index, list.Fits table index →
        place < list.slot table index ∨ list.slot table index + list.elemSize ≤ place := by
  have member := laid.stack_mem created preserved
  obtain ⟨first, between, _⟩ := laid.separate created
  have apart := (first _ (List.mem_append_left _ member)).2
  have inside := laid.stack_le created preserved
  rw [Extent.stop_mk, Extent.stop_mk] at apart
  simp only at apart
  refine ⟨by omega, ?_, ?_⟩
  · omega
  · intro index fits
    obtain ⟨buffer, inTable, bufferAbove, bufferBelow⟩ := fits.inside
    have apart := (between _ member buffer inTable).2
    have sized := laid.sized
    unfold bufferBlock at apart
    rw [Extent.stop_mk, Extent.stop_mk] at apart
    simp only at apart
    omega

theorem Laid.withMemory (laid : list.Laid heap table) {memory : Bytes}
    (same : ∀ place, list.buffers ≤ place → place < list.buffers + 4 * list.bufferCount →
      memory place = heap.memory place) : list.Laid (heap.withMemory memory) table := by
  constructor
  · exact laid.owns.withMemory memory
  · exact laid.length
  · intro index buffer entry
    have bound := (List.getElem?_eq_some_iff.mp entry).1
    rw [laid.length] at bound
    rw [← laid.words index buffer entry]
    apply Words.loadWordAt_congr
    intro place inWord
    exact same _ (by omega) (by omega)
  · exact laid.sized
  · exact laid.blank
  · exact laid.mode
  · exact laid.unused

theorem Laid.withGrants (laid : list.Laid heap table) (grants : List Grant) :
    list.Laid (heap.withGrants grants) table :=
  ⟨laid.owns.withGrants grants, laid.length, laid.words, laid.sized, laid.blank, laid.mode,
    laid.unused⟩

theorem Laid.update (laid : list.Laid heap table) (cursor used freeStackTop nextFree : Nat) :
    { list with
      cursor := cursor
      used := used
      freeStackTop := freeStackTop
      nextFree := nextFree }.Laid heap table :=
  ⟨laid.owns, laid.length, laid.words, laid.sized, laid.blank, laid.mode, laid.unused⟩

theorem getObjListElement_eq (laid : list.Laid heap table) (created : list.buffers ≠ 0)
    (nonempty : 0 < list.elemSize) (below : index < list.cursor) (fits : list.Fits table index) :
    list.getObjListElement heap index = list.slot table index := by
  obtain ⟨buffer, entry, slot⟩ := fits.entry
  have inside := laid.table_le created
  have inTable := fits.inTable
  rw [laid.length] at inTable
  have wrapped : (list.buffers + 4 * (index / list.bufferSize)) % 2 ^ 32 =
      list.buffers + 4 * (index / list.bufferSize) := by omega
  have bounds := (fits.bounds laid).2
  unfold getObjListElement
  rw [if_pos ⟨created, below⟩]
  simp only
  rw [wrapped, laid.words _ buffer entry, ← slot]
  exact Nat.mod_eq_of_lt (by omega)

structure Sound (list : ObjList) (heap : BlockHeap) (table : List Nat) : Prop where
  laid : list.Laid heap table
  created : list.buffers ≠ 0
  nonempty : 0 < list.elemSize
  record : list.preserveFree = 0 → objListSize ≤ list.elemSize
  room : list.cursor < list.bufferSize * list.bufferCount
  needed : list.bufferSize * (list.bufferCount - 1) ≤ list.cursor
  inBuffers : ∀ index < list.cursor,
    (index % list.bufferSize + 1) * list.elemSize ≤ list.bufferSize

theorem Sound.product_lt (sound : list.Sound heap table) :
    list.bufferSize * list.bufferCount < 2 ^ 32 := by
  have room := sound.laid.room
  have some : 0 < list.bufferCount := by
    by_contra none
    have below := sound.room
    rw [Nat.eq_zero_of_not_pos none] at below
    omega
  rw [Nat.mul_comm]
  omega

theorem Sound.lt_word (sound : list.Sound heap table) (below : index < list.cursor) :
    index < 2 ^ 32 := by
  have room := sound.room
  have product := sound.product_lt
  omega

theorem Sound.fits (sound : list.Sound heap table) (below : index < list.cursor) :
    list.Fits table index := by
  constructor
  · rw [sound.laid.length]
    exact Nat.div_lt_of_lt_mul (Nat.lt_trans below sound.room)
  · exact sound.inBuffers index below

theorem Sound.element_eq (sound : list.Sound heap table) (below : index < list.cursor) :
    list.getObjListElement heap index = list.slot table index :=
  getObjListElement_eq sound.laid sound.created sound.nonempty below (sound.fits below)

theorem Sound.withMemory (sound : list.Sound heap table) {memory : Bytes}
    (laid : list.Laid (heap.withMemory memory) table) :
    list.Sound (heap.withMemory memory) table :=
  ⟨laid, sound.created, sound.nonempty, sound.record, sound.room, sound.needed, sound.inBuffers⟩

theorem Sound.withGrants (sound : list.Sound heap table) (grants : List Grant) :
    list.Sound (heap.withGrants grants) table :=
  ⟨sound.laid.withGrants grants, sound.created, sound.nonempty, sound.record, sound.room,
    sound.needed, sound.inBuffers⟩

theorem Sound.update (sound : list.Sound heap table) (used freeStackTop nextFree : Nat) :
    { list with used := used, freeStackTop := freeStackTop, nextFree := nextFree }.Sound
      heap table :=
  ⟨sound.laid.update _ _ _ _, sound.created, sound.nonempty, sound.record, sound.room,
    sound.needed, sound.inBuffers⟩

theorem Sound.inBuffers_succ (sound : list.Sound heap table)
    (appended : (list.cursor % list.bufferSize + 1) * list.elemSize ≤ list.bufferSize)
    (below : index < list.cursor + 1) :
    (index % list.bufferSize + 1) * list.elemSize ≤ list.bufferSize := by
  rcases Nat.lt_succ_iff_lt_or_eq.mp below with old | rfl
  · exact sound.inBuffers index old
  · exact appended

theorem Sound.advance (sound : list.Sound heap table)
    (appended : (list.cursor % list.bufferSize + 1) * list.elemSize ≤ list.bufferSize)
    (space : list.cursor + 1 ≠ list.bufferSize * list.bufferCount) :
    { list with cursor := list.cursor + 1 }.Sound heap table := by
  have room := sound.room
  have fits : ∀ index < list.cursor + 1, _ := fun _ below => sound.inBuffers_succ appended below
  constructor
  · exact sound.laid.update _ _ _ _
  · exact sound.created
  · exact sound.nonempty
  · exact sound.record
  · change list.cursor + 1 < list.bufferSize * list.bufferCount
    omega
  · exact Nat.le_succ_of_le sound.needed
  · exact fits

theorem Sound.grow (sound : list.Sound heap table)
    (appended : (list.cursor % list.bufferSize + 1) * list.elemSize ≤ list.bufferSize)
    (full : list.cursor + 1 = list.bufferSize * list.bufferCount) {after : ObjList}
    {later : BlockHeap}
    (added : { list with cursor := list.cursor + 1 }.addObjListBuffer 1 heap = some (after, later)) :
    ∃ bufferList freeStack buffer,
      after = { list with
        cursor := list.cursor + 1
        buffers := bufferList
        freeStack := freeStack
        bufferCount := list.bufferCount + 1 } ∧
      after.Sound later (table ++ [buffer]) := by
  have sized := sound.laid.sized
  have fits : ∀ index < list.cursor + 1, _ := fun _ below => sound.inBuffers_succ appended below
  have laid := sound.laid.update (list.cursor + 1) list.used list.freeStackTop list.nextFree
  obtain ⟨bufferList, freeStack, buffer, nonzero, rfl, laid⟩ := addObjListBuffer_spec laid added
  refine ⟨bufferList, freeStack, buffer, rfl, ?_⟩
  constructor
  · exact laid
  · exact nonzero
  · exact sound.nonempty
  · exact sound.record
  · change list.cursor + 1 < list.bufferSize * (list.bufferCount + 1)
    rw [Nat.mul_succ]
    omega
  · change list.bufferSize * (list.bufferCount + 1 - 1) ≤ list.cursor + 1
    rw [Nat.add_sub_cancel]
    omega
  · exact fits

/-- The first buffer is the only one as long as an element can fail to fit. -/
theorem Sound.overflow (sound : list.Sound heap table)
    (overflow : list.bufferSize < (list.cursor % list.bufferSize + 1) * list.elemSize) :
    list.bufferCount = 1 ∧ list.cursor < list.bufferSize ∧
      list.cursor * list.elemSize ≤ list.bufferSize ∧
      list.bufferSize < list.cursor * list.elemSize + list.elemSize := by
  have sized := sound.laid.sized
  have room := sound.room
  have needed := sound.needed
  have large : 1 < list.elemSize := by
    by_contra small
    have one : list.elemSize = 1 := Nat.le_antisymm (Nat.le_of_not_lt small) sound.nonempty
    have inside := Nat.mod_lt list.cursor sized
    rw [one, Nat.mul_one] at overflow
    omega
  have bound : list.cursor < list.bufferSize := by
    by_contra full
    -- The last element of the first buffer would have its bytes in it.
    have last := sound.inBuffers (list.bufferSize - 1) (by omega)
    rw [Nat.mod_eq_of_lt (by omega), Nat.sub_add_cancel sized] at last
    have more := (Nat.mul_lt_mul_left sized).mpr large
    omega
  have single : list.bufferCount = 1 := by
    by_contra several
    have some : 0 < list.bufferCount := Nat.pos_of_mul_pos_left (Nat.zero_lt_of_lt room)
    have whole := Nat.mul_le_mul_left list.bufferSize (show 1 ≤ list.bufferCount - 1 by omega)
    omega
  rw [Nat.mod_eq_of_lt bound, Nat.succ_mul] at overflow
  refine ⟨single, bound, ?_, overflow⟩
  cases cursor : list.cursor with
  | zero => simp
  | succ last =>
      have fits := sound.inBuffers last (by omega)
      rw [Nat.mod_eq_of_lt (by omega)] at fits
      exact fits

inductive HoldsFree (list : ObjList) (memory : Bytes) (table : List Nat) (freed : List Nat) : Prop
  | onStack (preserved : list.preserveFree ≠ 0) (narrow : list.freeStackTop < 2 ^ 32)
      (top : (list.freeStackTop + 1) % 2 ^ 32 = freed.length)
      (room : 4 * freed.length ≤ list.stackSize)
      (holds : StackHolds memory list.freeStack freed)
  | inChain (unpreserved : list.preserveFree = 0)
      (holds : ChainHolds memory (list.slot table) list.nextFree freed)

theorem HoldsFree.withUsed {memory : Bytes} {freed : List Nat}
    (free : list.HoldsFree memory table freed) (used : Nat) :
    { list with used := used }.HoldsFree memory table freed := by
  cases free with
  | onStack preserved narrow top room holds => exact .onStack preserved narrow top room holds
  | inChain unpreserved holds => exact .inChain unpreserved holds

theorem HoldsFree.nil {memory : Bytes} (free : list.HoldsFree memory table [])
    (later : Bytes) (grown : List Nat) (cursor buffers freeStack bufferCount : Nat) :
    { list with
      cursor := cursor
      buffers := buffers
      freeStack := freeStack
      bufferCount := bufferCount }.HoldsFree later grown [] := by
  cases free with
  | onStack preserved narrow top room holds =>
      exact .onStack preserved narrow top (Nat.zero_le _) trivial
  | inChain unpreserved holds => exact .inChain unpreserved holds

theorem blank_laid {elemSize bufferSize : Nat} (sized : bufferSize ≠ 0)
    (sheap preserveFree : Nat) (memory : Bytes) (grants : List Grant) :
    (blank elemSize bufferSize sheap preserveFree).Laid ⟨memory, [], grants⟩ [] where
  owns := BlockHeap.owns_nil memory grants
  length := rfl
  words := fun _ _ entry => nomatch entry
  sized := Nat.pos_of_ne_zero sized
  blank := fun _ => rfl
  mode := fun created => absurd rfl created
  unused := fun _ => rfl

/-- A new list has one buffer, and nothing of it is handed out or free. -/
theorem createObjList_sound {elemSize bufferSize sheap preserveFree : Nat} {memory : Bytes}
    {grants : List Grant} (elements : elemSize ≠ 0) (sized : bufferSize ≠ 0) (valid : sheap ≠ 0)
    (created : createObjList elemSize bufferSize sheap preserveFree ⟨memory, [], grants⟩ =
      some (list, heap)) :
    ∃ buffer, list.Sound heap [buffer] ∧ list.cursor = 0 ∧
      list.HoldsFree heap.memory [buffer] [] := by
  rw [createObjList, if_pos ⟨elements, sized, valid⟩] at created
  obtain ⟨bufferList, freeStack, buffer, nonzero, rfl, laid⟩ :=
    addObjListBuffer_spec (blank_laid sized sheap preserveFree memory grants) created
  refine ⟨buffer, ?_, rfl, ?_⟩
  · constructor
    · exact laid
    · exact nonzero
    · change 0 < if preserveFree = 0 ∧ elemSize < objListSize then objListSize else elemSize
      unfold objListSize
      split <;> omega
    · intro unpreserved
      change objListSize ≤
        if preserveFree = 0 ∧ elemSize < objListSize then objListSize else elemSize
      split
      · exact Nat.le_refl _
      · rename_i large
        exact Nat.le_of_not_lt fun small => large ⟨unpreserved, small⟩
    · exact Nat.mul_pos (Nat.pos_of_ne_zero sized) (Nat.succ_pos _)
    · exact Nat.le_refl _
    · intro index below
      exact absurd below (Nat.not_lt_zero index)
  · by_cases unpreserved : preserveFree = 0
    · exact .inChain unpreserved rfl
    · have top : (blank elemSize bufferSize sheap preserveFree).freeStackTop = 0xffffffff :=
        if_neg unpreserved
      have narrow : (blank elemSize bufferSize sheap preserveFree).freeStackTop < 2 ^ 32 := by
        rw [top]
        omega
      have next : ((blank elemSize bufferSize sheap preserveFree).freeStackTop + 1) % 2 ^ 32 = 0 := by
        rw [top]
        rfl
      exact .onStack unpreserved narrow next (Nat.zero_le _) trivial

end DoggOS.Rt.ObjList

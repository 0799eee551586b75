/-
A new content block of a file or a directory.

The contents of a node are in one block of the buffer of a cache entry, and
`contents` is the place of that block in the buffer.  Every store of the
initialisation is listed, so that one past the end of the block is seen even if
it stores what was there.  The number of entries comes from a division by the
number that fit, and the links between entries are bytes.
-/

import DoggOS.Fs.PupNodeInfo
import DoggOS.Library.Bits
import DoggOS.Library.Words

namespace DoggOS.Fs

structure ByteStore where
  place : Nat
  byte : UInt8
deriving DecidableEq, Repr

def storeAll (bytes : Bytes) (stores : List ByteStore) : Bytes :=
  stores.foldl (fun bytes store => Function.update bytes store.place store.byte) bytes

def halfStores (place value : Nat) : List ByteStore :=
  (List.range 2).map fun index => ⟨place + index, UInt8.ofNat (value / 256 ^ index)⟩

def longStores (place value : Nat) : List ByteStore :=
  (List.range 8).map fun index => ⟨place + index, UInt8.ofNat (value / 256 ^ index)⟩

/-- `K_FS_PUP_DIR_CONTENT_ENTRY_COUNT`: 16 bytes of fields, entries of 256 bytes. -/
def dirContentEntryCount : Nat := 0x1000 / ((0x1000 - 16) / 256)

/-- `K_FS_PUP_DATA_CONTENT_ENTRY_COUNT`: 8 bytes of fields, entries of 20 bytes. -/
def dataContentEntryCount : Nat := 0x1000 / ((0x1000 - 8) / 20)

/-- The loop over the data entries; `next_index` is a `uint16_t` and `right` a byte. -/
def dataEntryStores (contents : Nat) : Nat → Nat → List ByteStore
  | 0, _ => []
  | index + 1, nextIndex =>
      let entry := contents + 8 + 20 * index
      longStores entry 0 ++ ⟨entry + 17, UInt8.ofNat nextIndex⟩ :: longStores (entry + 8) 0 ++
        dataEntryStores contents index (index % 2 ^ 16)

def dirEntryStores (contents : Nat) : Nat → Nat → List ByteStore
  | 0, _ => []
  | index + 1, nextIndex =>
      let entry := contents + 16 + 256 * index
      longStores entry 0 ++ ⟨entry + 21, UInt8.ofNat nextIndex⟩ :: ⟨entry + 22, 0⟩ ::
        dirEntryStores contents index (index % 2 ^ 16)

def contentTypeData : Nat := 0

def contentTypeDir : Nat := 1

/-- `k_fs_PupInitContents` -/
def initContents (contents node type : Nat) : List ByteStore :=
  if type = contentTypeData then
    halfStores (contents + 2) 0 ++ dataEntryStores contents dataContentEntryCount 0xffff
  else if type = contentTypeDir then
    longStores contents node ++ ⟨contents + 9, 0⟩ :: ⟨contents + 8, 0xff⟩ ::
      halfStores (contents + 10) dirContentEntryCount ++
      dirEntryStores contents dirContentEntryCount 0xffff
  else []

/-- `K_FS_PUP_NODE_LINK` -/
def nodeLink (block index : Nat) : Nat := block <<< 8 ||| (index &&& (2 ^ 7 - 1))

def rightOf (bytes : Bytes) (contents index : Nat) : Nat :=
  (bytes (contents + 16 + 256 * index + 21)).toNat

def FollowsRight (bytes : Bytes) (contents current : Nat) : List Nat → Prop
  | [] => current = 0xff
  | index :: rest =>
      current = index ∧ current ≠ 0xff ∧
        FollowsRight bytes contents (rightOf bytes contents index) rest

def WritesInBlock (contents node : Nat) : Prop :=
  ∀ store ∈ initContents contents node contentTypeDir,
    contents ≤ store.place ∧ store.place < contents + 0x1000

def afterInit (before : Bytes) (contents node : Nat) : Bytes :=
  storeAll before (initContents contents node contentTypeDir)

/-- `entries` are the nodes from `next_free` on. -/
def IsFreeList (before : Bytes) (contents node : Nat) (entries : List Nat) : Prop :=
  FollowsRight (afterInit before contents node) contents
    (afterInit before contents node (contents + 9)).toNat entries

/-- The free list has `free_count` different nodes, all of them in the block. -/
def FreeListComplete (before : Bytes) (contents node : Nat) : Prop :=
  ∃ entries, IsFreeList before contents node entries ∧
    entries.length = loadHalfAt (afterInit before contents node) (contents + 10) ∧
    entries.Nodup ∧ ∀ index ∈ entries, 16 + 256 * (index + 1) ≤ 0x1000

/-- A link to a node of the free list gives back its block and its index. -/
def FreeNodesLinked (before : Bytes) (contents node : Nat) : Prop :=
  ∀ entries, IsFreeList before contents node entries → ∀ block, block < 2 ^ 56 →
    ∀ index ∈ entries,
      nodeBlock (nodeLink block index) = block ∧ nodeIndex (nodeLink block index) = index

section Stores

variable {bytes : Bytes} {stores : List ByteStore} {contents node place count : Nat}

theorem storeAll_append (bytes : Bytes) (first second : List ByteStore) :
    storeAll bytes (first ++ second) = storeAll (storeAll bytes first) second :=
  List.foldl_append

theorem storeAll_cons (bytes : Bytes) (store : ByteStore) (stores : List ByteStore) :
    storeAll bytes (store :: stores) =
      storeAll (Function.update bytes store.place store.byte) stores :=
  rfl

theorem storeAll_other (other : ∀ store ∈ stores, store.place ≠ place) :
    storeAll bytes stores place = bytes place := by
  induction stores generalizing bytes with
  | nil => rfl
  | cons store rest ih =>
      rw [storeAll_cons, ih fun later member => other later (List.mem_cons_of_mem _ member)]
      exact Function.update_of_ne (other store List.mem_cons_self).symm _ _

theorem longStores_place {start value : Nat} {store : ByteStore}
    (member : store ∈ longStores start value) : start ≤ store.place ∧ store.place < start + 8 := by
  obtain ⟨index, inLong, rfl⟩ := List.mem_map.mp member
  have small := List.mem_range.mp inLong
  exact ⟨Nat.le_add_right _ _, Nat.add_lt_add_left small _⟩

theorem dirEntryStores_place {nextIndex : Nat} {store : ByteStore}
    (member : store ∈ dirEntryStores contents count nextIndex) :
    contents + 16 ≤ store.place ∧ store.place < contents + 16 + 256 * count := by
  induction count generalizing nextIndex with
  | zero => cases member
  | succ index ih =>
      simp only [dirEntryStores, List.mem_append, List.mem_cons] at member
      rcases member with long | right | type | rest
      · have inLong := longStores_place long
        omega
      · subst right
        dsimp only
        omega
      · subst type
        dsimp only
        omega
      · have inRest := ih rest
        omega

/-- The last node gets the index that the loop started with, and each other node the next one. -/
theorem rightOf_dirEntryStores {nextIndex index : Nat} (short : count ≤ 2 ^ 16)
    (inside : index < count) :
    rightOf (storeAll bytes (dirEntryStores contents count nextIndex)) contents index =
      (if index + 1 = count then nextIndex else index + 1) % 2 ^ 8 := by
  induction count generalizing nextIndex bytes with
  | zero => omega
  | succ last ih =>
      simp only [dirEntryStores, storeAll_append, storeAll_cons]
      by_cases isLast : index = last
      · subst isLast
        have later : ∀ store ∈ dirEntryStores contents index (index % 2 ^ 16),
            store.place ≠ contents + 16 + 256 * index + 21 := by
          intro store member
          have inRest := dirEntryStores_place member
          omega
        rw [if_pos rfl]
        unfold rightOf
        rw [storeAll_other later, Function.update_of_ne (by omega), Function.update_self,
          UInt8.toNat_ofNat']
      · rw [ih (by omega) (by omega), if_neg (by omega : ¬ index + 1 = last + 1)]
        split
        · omega
        · rfl

end Stores

section Directory

variable (before : Bytes) (contents node : Nat)

theorem dirContentEntryCount_eq : dirContentEntryCount = 273 := by decide

theorem initContents_dir :
    initContents contents node contentTypeDir =
      (longStores contents node ++ ⟨contents + 9, 0⟩ :: ⟨contents + 8, 0xff⟩ ::
        halfStores (contents + 10) 273) ++ dirEntryStores contents 273 0xffff := by
  unfold initContents
  rw [if_neg (by decide), if_pos rfl, dirContentEntryCount_eq]

/-- The last node is far behind the block. -/
theorem initContents_leaves :
    ∃ store ∈ initContents contents node contentTypeDir, contents + 0x1000 ≤ store.place := by
  refine ⟨⟨contents + 16 + 256 * 272 + 22, 0⟩, ?_, ?_⟩
  · rw [initContents_dir]
    apply List.mem_append_right
    rw [dirEntryStores]
    simp only [List.mem_append, List.mem_cons]
    exact Or.inr (Or.inr (Or.inl trivial))
  · dsimp only
    omega

theorem afterInit_header :
    afterInit before contents node (contents + 9) = 0 ∧
      loadHalfAt (afterInit before contents node) (contents + 10) = 273 := by
  have header : ∀ place, place < 16 → afterInit before contents node (contents + place) =
      storeAll before (longStores contents node ++ ⟨contents + 9, 0⟩ :: ⟨contents + 8, 0xff⟩ ::
        halfStores (contents + 10) 273) (contents + place) := by
    intro place inHeader
    unfold afterInit
    rw [initContents_dir, storeAll_append]
    apply storeAll_other
    intro store member
    have behind := dirEntryStores_place member
    omega
  have half : halfStores (contents + 10) 273 = [⟨contents + 10, 17⟩, ⟨contents + 11, 1⟩] := rfl
  have stored : ∀ place, place < 16 → afterInit before contents node (contents + place) =
      Function.update (Function.update (Function.update (Function.update
        (storeAll before (longStores contents node)) (contents + 9) 0) (contents + 8) 0xff)
          (contents + 10) 17) (contents + 11) 1 (contents + place) := by
    intro place inHeader
    rw [header place inHeader, storeAll_append, half]
    rfl
  have low : afterInit before contents node (contents + 10) = 17 := by
    rw [stored 10 (by omega), Function.update_of_ne (by omega), Function.update_self]
  have high : afterInit before contents node (contents + 11) = 1 := by
    rw [stored 11 (by omega), Function.update_self]
  constructor
  · rw [stored 9 (by omega), Function.update_of_ne (by omega), Function.update_of_ne (by omega),
      Function.update_of_ne (by omega), Function.update_self]
  · unfold loadHalfAt
    rw [Nat.add_assoc contents 10 1, low, high]
    decide

theorem afterInit_right {index : Nat} (inside : index < 255) :
    rightOf (afterInit before contents node) contents index = index + 1 := by
  unfold afterInit
  rw [initContents_dir, storeAll_append, rightOf_dirEntryStores (by omega) (by omega),
    if_neg (by omega)]
  omega

/-- The list from a node on ends with node 254, whose link to node 255 reads as the end. -/
theorem afterInit_follows (entries : List Nat) {first : Nat} (start : first ≤ 255) :
    FollowsRight (afterInit before contents node) contents first entries ↔
      entries = List.range' first (255 - first) := by
  induction entries generalizing first with
  | nil =>
      change first = 255 ↔ _
      rw [eq_comm (a := []), List.range'_eq_nil_iff]
      omega
  | cons index rest ih =>
      change first = index ∧ first ≠ 255 ∧ _ ↔ _
      by_cases atEnd : first = 255
      · rw [atEnd, Nat.sub_self]
        exact ⟨fun follows => absurd rfl follows.2.1, fun same => absurd same (List.cons_ne_nil _ _)⟩
      · have more : 255 - first = 255 - (first + 1) + 1 := by omega
        rw [more, List.range'_succ, List.cons_eq_cons]
        constructor
        · intro follows
          obtain ⟨rfl, -, later⟩ := follows
          rw [afterInit_right before contents node (by omega)] at later
          exact ⟨rfl, (ih (by omega)).mp later⟩
        · intro same
          obtain ⟨rfl, rest⟩ := same
          refine ⟨rfl, atEnd, ?_⟩
          rw [afterInit_right before contents node (by omega)]
          exact (ih (by omega)).mpr rest

/-- The free list has 255 of the 273 nodes, and the last 240 of these are not in the block. -/
theorem isFreeList_iff (entries : List Nat) :
    IsFreeList before contents node entries ↔ entries = List.range' 0 255 := by
  unfold IsFreeList
  rw [(afterInit_header before contents node).1]
  exact afterInit_follows before contents node entries (by decide)

end Directory

theorem nodeLink_eq (block index : Nat) : nodeLink block index = block * 2 ^ 8 + index % 2 ^ 7 := by
  have low : index &&& (2 ^ 7 - 1) = index % 2 ^ 7 := Bits.and_low index 7
  have below : index % 2 ^ 7 < 2 ^ 8 := by omega
  unfold nodeLink
  rw [low, ← Nat.shiftLeft_add_eq_or_of_lt below, Bits.shiftLeft_eq]

theorem nodeIndex_nodeLink (block index : Nat) :
    nodeIndex (nodeLink block index) = index % 2 ^ 7 := by
  have low : nodeLink block index &&& 255 = nodeLink block index % 2 ^ 8 := Bits.and_low _ 8
  unfold nodeIndex
  rw [low, nodeLink_eq]
  omega

/-- No initialisation of a directory stores in its block only or has a complete free list, and for
none a link leads back to all nodes of the list. -/
theorem initContents_never (before : Bytes) (contents node : Nat) :
    ¬ WritesInBlock contents node ∧ ¬ FreeListComplete before contents node ∧
      ¬ FreeNodesLinked before contents node := by
  refine ⟨?_, ?_, ?_⟩
  · intro inBlock
    obtain ⟨store, member, behind⟩ := initContents_leaves contents node
    have inside := inBlock store member
    omega
  · intro complete
    obtain ⟨entries, isList, all, -, -⟩ := complete
    rw [(isFreeList_iff before contents node entries).mp isList, List.length_range',
      (afterInit_header before contents node).2] at all
    omega
  · intro linked
    have isList := (isFreeList_iff before contents node _).mpr rfl
    have back := (linked _ isList 1 (by decide) 128 (by decide)).2
    rw [nodeIndex_nodeLink] at back
    omega

/-- The root directory in block 1 of its group. -/
theorem initContents_root :
    ¬ (WritesInBlock 4096 256 ∧ FreeListComplete (fun _ => 0) 4096 256 ∧
      FreeNodesLinked (fun _ => 0) 4096 256) := by
  intro all
  obtain ⟨store, member, behind⟩ := initContents_leaves 4096 256
  have inside := all.1 store member
  omega

end DoggOS.Fs

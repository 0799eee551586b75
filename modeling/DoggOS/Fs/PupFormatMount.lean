/-
A mount after a format, on a disk in memory.

Three of the four transfers of a format decide what a mount finds: the clear of
the bitmap, the root record and the block of the root node, which lie apart.
The clear of the root block before them goes elsewhere, or is written over.  A
volume need not have a multiple of four blocks, but it has the first four, and
the root node is in their group.
-/

import DoggOS.Fs.PupFormat
import DoggOS.Fs.PupPaths

namespace DoggOS.Fs

open Dev Rt PupVolume

/-- `k_dsk_RamClear` -/
def ramClear (disk : Bytes) (address size : Nat) : Bytes :=
  (List.range size).foldl
    (fun disk index => Function.update disk ((address + index) % 2 ^ 32) 0) disk

def ramPartition (capacity blockSize firstBlock blockCount : Nat) : VolumePartition Bytes where
  disk := { driver := ramDriver capacity, blockSize := blockSize, type := .ram }
  firstBlock := firstBlock
  blockCount := blockCount
  clear := ramClear

/-- `k_fs_FormatPartition`: the disk, and the volume that is mounted. -/
def VolumePartition.formatPartition {Medium : Type*} (partition : VolumePartition Medium)
    (medium : Medium) (memory : FreshMemory) (blockCount : Nat) : Medium × PupVolume :=
  let medium := partition.formatVolume medium blockCount
  (medium, mountVolume partition.toPartition medium memory)

structure IsRootNode (contents : Bytes) : Prop where
  isDir : contents (nodeOffset 256 + 22) = 2
  named : HoldsString (nodeName contents 256) rootName
  empty : loadLongAt contents (nodeOffset 256) = nullLink
  left : contents (nodeOffset 256 + 20) = 0xff
  right : contents (nodeOffset 256 + 21) = 0xff
  ownParent : parentLink contents = 256

/-- A volume right after a format. -/
structure FreshVolume (partition : Partition Bytes) (medium : Bytes) (memory : FreshMemory)
    (volume : PupVolume) (blockCount : Nat) : Prop where
  root : volume.root = formatRoot blockCount
  clear : ∀ place < volume.root.bitmaskBlockCount * 0x1000, volume.blockBitmask place = 0
  rootNode : IsRootNode ((volume.findOrLoadCacheEntry partition medium memory 1).1.getBlock 1)

theorem ramClear_eq (disk : Bytes) (address : Nat) {size : Nat} (fits : address + size ≤ 2 ^ 32) :
    ramClear disk address size = fillBytes disk address size fun _ => 0 := by
  unfold ramClear
  induction size with
  | zero =>
      rw [Words.fillBytes_zero]
      rfl
  | succ size ih =>
      have last : (address + size) % 2 ^ 32 = address + size := Nat.mod_eq_of_lt (by omega)
      rw [List.range_succ, List.foldl_append, ih (by omega), ← Words.update_fillBytes]
      rw [List.foldl_cons, List.foldl_nil, last]

theorem isRootNode_of_contents {contents : Bytes}
    (same : ∀ place < 0x1000, contents place = rootContents place) : IsRootNode contents where
  isDir := same _ (by decide)
  named := by
    have holds : HoldsString (nodeName rootContents 256) rootName := ⟨by decide, by decide⟩
    apply holds.congr
    intro index inside
    change index ≤ 19 at inside
    have offset : nodeOffset 256 = 16 := rfl
    apply same
    omega
  empty := by
    have congr := @Words.loadLongAt_congr rootContents contents (nodeOffset 256) (by
      intro place inLong
      have offset : nodeOffset 256 = 16 := rfl
      exact same _ (by omega))
    rw [congr]
    decide
  left := same _ (by decide)
  right := same _ (by decide)
  ownParent := by
    have congr := @Words.loadLongAt_congr rootContents contents 0 (fun place inLong =>
      same _ (by omega))
    unfold parentLink
    rw [congr]
    decide

theorem Partition.writeVolumeBytes_root {Medium : Type*} {partition : Partition Medium}
    {blockCount : Nat} (writable : partition.disk.Writable) (holds : partition.Holds blockCount)
    (some : 1 ≤ blockCount) (medium : Medium) (buffer : Bytes) :
    partition.disk.driver.content (partition.writeVolumeBytes medium 0x1000 0 0 64 buffer) =
      fillBytes (partition.disk.driver.content medium) (partition.address 0) 64 buffer := by
  unfold Holds at holds
  have start : (partition.firstBlock * partition.disk.blockSize % 2 ^ 32 +
      (0 * 0x1000 + 0)) % 2 ^ 32 % 2 ^ 32 = partition.address 0 := by
    unfold address
    omega
  have size : 64 % 2 ^ 32 = 64 := by omega
  have fits : partition.address 0 + 64 ≤ partition.disk.driver.capacity := by
    unfold address
    omega
  unfold writeVolumeBytes
  rw [Dev.Disk.write_spec writable medium buffer (by rw [start, size]; exact fits), start, size]

section Ram

variable {capacity blockSize firstBlock partitionBlocks blockCount : Nat}

/-- The partition has exactly these blocks of 4096 bytes, below 4 GiB and on the disk. -/
structure RamVolume (capacity blockSize firstBlock partitionBlocks blockCount : Nat) : Prop where
  some : 4 ≤ blockCount
  exact : partitionBlocks * blockSize = blockCount * 0x1000
  below : (firstBlock + partitionBlocks) * blockSize < 2 ^ 32
  onDisk : (firstBlock + partitionBlocks) * blockSize ≤ capacity

theorem ramPartition_content (medium : Bytes) :
    (ramPartition capacity blockSize firstBlock partitionBlocks).disk.driver.content medium =
      medium :=
  rfl

variable (ram : RamVolume capacity blockSize firstBlock partitionBlocks blockCount)

include ram

theorem RamVolume.stop :
    (firstBlock + partitionBlocks) * blockSize = firstBlock * blockSize + blockCount * 0x1000 := by
  rw [Nat.add_mul, ram.exact]

theorem RamVolume.holds :
    (ramPartition capacity blockSize firstBlock partitionBlocks).Holds blockCount := by
  have onDisk := ram.onDisk
  rw [ram.stop] at onDisk
  exact onDisk

theorem RamVolume.address {block : Nat} (inside : block ≤ blockCount) :
    (ramPartition capacity blockSize firstBlock partitionBlocks).address block =
      firstBlock * blockSize + block * 0x1000 := by
  have below := ram.below
  rw [ram.stop] at below
  have before := Nat.add_le_add_left (Nat.mul_le_mul_right 0x1000 inside) (firstBlock * blockSize)
  have small : firstBlock * blockSize + block * 0x1000 < 2 ^ 32 := Nat.lt_of_le_of_lt before below
  unfold Partition.address
  exact Nat.mod_eq_of_lt small

theorem RamVolume.clearVolumeBlocks {block count : Nat} (inside : block + count ≤ blockCount)
    (medium : Bytes) :
    (ramPartition capacity blockSize firstBlock partitionBlocks).clearVolumeBlocks medium 0x1000
        block count =
      fillBytes medium (firstBlock * blockSize + block * 0x1000) (count * 0x1000) fun _ => 0 := by
  have below := ram.below
  have stop := ram.stop
  rw [stop] at below
  have start : (firstBlock * blockSize % 2 ^ 32 + (block % 2 ^ 32 * 0x1000 + 0)) % 2 ^ 32 =
      firstBlock * blockSize + block * 0x1000 := by omega
  have size : 0x1000 * (count % 2 ^ 32) % 2 ^ 32 = count * 0x1000 := by omega
  have diskEnd : (ramPartition capacity blockSize firstBlock partitionBlocks).diskEnd =
      firstBlock * blockSize + blockCount * 0x1000 := by
    unfold VolumePartition.diskEnd
    rw [Nat.mod_mul_mod, ← stop]
    exact Nat.mod_eq_of_lt ram.below
  unfold VolumePartition.clearVolumeBlocks VolumePartition.clearBlocksCmds
    VolumePartition.clearBytesCmds
  change List.foldl _ _ (if (((firstBlock * blockSize % 2 ^ 32 +
    (block % 2 ^ 32 * 0x1000 + 0)) % 2 ^ 32) + _) % 2 ^ 32 ≤ _ then _ else _) = _
  rw [start, size, diskEnd]
  have guard : (firstBlock * blockSize + block * 0x1000 + count * 0x1000) % 2 ^ 32 ≤
      firstBlock * blockSize + blockCount * 0x1000 := by omega
  have address : (firstBlock * blockSize + block * 0x1000) % 2 ^ 32 =
      firstBlock * blockSize + block * 0x1000 := by omega
  have bytes : count * 0x1000 % 2 ^ 32 = count * 0x1000 := by omega
  rw [if_pos guard]
  change ramClear medium ((firstBlock * blockSize % 2 ^ 32 +
    (block % 2 ^ 32 * 0x1000 + 0)) % 2 ^ 32 % 2 ^ 32) (count * 0x1000 % 2 ^ 32) = _
  rw [start, address, bytes]
  exact ramClear_eq _ _ (by omega)

/-- What a format leaves on the disk; the clear of the root block comes before. -/
theorem RamVolume.formatVolume (medium : Bytes) :
    ∃ before, (ramPartition capacity blockSize firstBlock partitionBlocks).formatVolume medium
        blockCount =
      fillBytes
        (fillBytes
          (fillBytes before (firstBlock * blockSize + 2 * 0x1000)
            (formatBitmaskBlocks blockCount * 0x1000) fun _ => 0)
          (firstBlock * blockSize) 64 (formatRoot blockCount).toBytes)
        (firstBlock * blockSize + 1 * 0x1000) (1 * 0x1000) rootContents := by
  have holds := ram.holds
  have some := ram.some
  have inside := formatBitmaskBlocks_inside some
  have small : blockCount * 0x1000 < 2 ^ 32 := by
    have below := ram.below
    rw [ram.stop] at below
    omega
  let partition := ramPartition capacity blockSize firstBlock partitionBlocks
  let before := partition.clearVolumeBlocks medium 0x1000 (formatRoot blockCount).rootNode 1
  have start : partition.address 0 = firstBlock * blockSize := by
    rw [ram.address (Nat.zero_le _), Nat.zero_mul, Nat.add_zero]
  have record : ∀ disk : Bytes, partition.writeVolumeBytes disk 0x1000 0 0 64
      (formatRoot blockCount).toBytes =
        fillBytes disk (firstBlock * blockSize) 64 (formatRoot blockCount).toBytes := by
    intro disk
    have written := Partition.writeVolumeBytes_root (Or.inl rfl) holds
      (show 1 ≤ blockCount by omega) disk (formatRoot blockCount).toBytes
    rw [start, ramPartition_content, ramPartition_content] at written
    exact written
  have block : ∀ disk : Bytes, partition.writeVolumeBlocks disk 0x1000 1 1 rootContents =
      fillBytes disk (firstBlock * blockSize + 1 * 0x1000) (1 * 0x1000) rootContents := by
    intro disk
    have two : 1 + 1 ≤ blockCount := Nat.le_trans (by decide) some
    have written := Partition.writeVolumeBlocks_spec (Or.inl rfl) holds small two disk rootContents
    rw [ram.address (Nat.le_of_succ_le two), ramPartition_content, ramPartition_content] at written
    exact written
  refine ⟨before, ?_⟩
  rw [← ram.clearVolumeBlocks inside, ← record, ← block]
  unfold VolumePartition.formatVolume
  dsimp only
  rw [formatRoot_rootBlock]
  rfl

theorem RamVolume.formatted (medium : Bytes) :
    let after := (ramPartition capacity blockSize firstBlock partitionBlocks).formatVolume medium
      blockCount
    (∀ place < 64, after (firstBlock * blockSize + place) = (formatRoot blockCount).toBytes place) ∧
      (∀ place < formatBitmaskBlocks blockCount * 0x1000,
        after (firstBlock * blockSize + 2 * 0x1000 + place) = 0) ∧
      ∀ place < 0x1000, after (firstBlock * blockSize + 1 * 0x1000 + place) = rootContents place := by
  intro after
  obtain ⟨before, written⟩ := ram.formatVolume medium
  change after = _ at written
  rw [written]
  refine ⟨?_, ?_, ?_⟩
  · intro place inside
    rw [Words.fillBytes_outside _ (by omega), Words.fillBytes_inside _ inside]
  · intro place inside
    rw [Words.fillBytes_outside _ (by omega), Words.fillBytes_outside _ (by omega),
      Words.fillBytes_inside _ inside]
  · intro place inside
    exact Words.fillBytes_inside _ (by omega)

theorem RamVolume.mounted {disk : Bytes} (memory : FreshMemory)
    (record : ∀ place < 64,
      disk (firstBlock * blockSize + place) = (formatRoot blockCount).toBytes place)
    (clear : ∀ place < formatBitmaskBlocks blockCount * 0x1000,
      disk (firstBlock * blockSize + 2 * 0x1000 + place) = 0)
    (contents : ∀ place < 0x1000,
      disk (firstBlock * blockSize + 1 * 0x1000 + place) = rootContents place) :
    let partition := (ramPartition capacity blockSize firstBlock partitionBlocks).toPartition
    FreshVolume partition disk memory (mountVolume partition disk memory) blockCount := by
  intro partition
  have holds := ram.holds
  have some := ram.some
  have inside := formatBitmaskBlocks_inside some
  have readable : partition.disk.Readable := Or.inl rfl
  have small : blockCount * 0x1000 < 2 ^ 32 := by
    have below := ram.below
    rw [ram.stop] at below
    omega
  have start : partition.address 0 = firstBlock * blockSize := by
    rw [ram.address (Nat.zero_le _), Nat.zero_mul, Nat.add_zero]
  have root : PupRoot.ofBytes (partition.readVolumeBytes disk partition.disk.blockSize 0 0 64
      (fun _ => 0)) = formatRoot blockCount := by
    rw [← ofBytes_formatRoot (show blockCount < 2 ^ 64 by omega)]
    apply PupRoot.ofBytes_congr
    intro place inRecord
    rw [Partition.readVolumeBytes_root readable holds (by omega), start]
    have read := record place inRecord
    rw [← Nat.zero_add place, Words.fillBytes_inside _ inRecord, Nat.zero_add]
    exact read
  -- the volume before the load, and the entry that is loaded
  let blockBitmask := partition.readVolumeBlocks disk 0x1000 2 (formatBitmaskBlocks blockCount)
    memory.blockBitmask
  let group := partition.readVolumeBlocks disk 0x1000 0 4 (memory.entryBuffer 0)
  have mount : mountVolume partition disk memory =
      ⟨formatRoot blockCount, blockBitmask, [⟨0, group⟩]⟩ := by
    have first : 1 &&& 0xfffffffffffffffc = 0 := by decide
    have bitmaskStart : (formatRoot blockCount).bitmaskStart % 2 ^ 32 = 2 := rfl
    have missing : ∀ blockBitmask, findCacheEntry ⟨formatRoot blockCount, blockBitmask, []⟩ 1 =
        none := fun _ => rfl
    unfold mountVolume
    dsimp only
    rw [root, formatRoot_rootBlock, bitmaskStart]
    unfold findOrLoadCacheEntry
    rw [missing]
    unfold loadedEntry
    rw [first]
    rfl
  have found : (mountVolume partition disk memory).findOrLoadCacheEntry partition disk memory 1 =
      (⟨0, group⟩, ⟨formatRoot blockCount, blockBitmask, [⟨0, group⟩]⟩) := by
    rw [mount]
    rfl
  constructor
  · rw [mount]
  · rw [mount]
    intro place inBitmask
    change partition.readVolumeBlocks disk 0x1000 2 _ _ place = 0
    have cleared := clear place inBitmask
    rw [Partition.readVolumeBlocks_spec readable holds small inside, ram.address (by omega)]
    rw [← Nat.zero_add place]
    exact (Words.fillBytes_inside _ inBitmask).trans cleared
  · rw [found]
    apply isRootNode_of_contents
    intro place inBlock
    have isGroup : (CacheEntry.mk 0 group).firstBlock = groupStart 1 := rfl
    rw [getBlock_eq isGroup]
    change partition.readVolumeBlocks disk 0x1000 0 4 (memory.entryBuffer 0) (0x1000 + place) = _
    have written := contents place inBlock
    rw [Nat.one_mul, Nat.add_assoc] at written
    rw [Partition.readVolumeBlocks_spec readable holds small some, start,
      ← Nat.zero_add (0x1000 + place)]
    exact (Words.fillBytes_inside _ (by omega)).trans written

end Ram

/-- A format and a mount give a fresh volume, whatever was on the disk. -/
theorem formatPartition_fresh (capacity blockSize firstBlock partitionBlocks blockCount : Nat)
    (ram : RamVolume capacity blockSize firstBlock partitionBlocks blockCount) (medium : Bytes)
    (memory : FreshMemory) :
    let partition := ramPartition capacity blockSize firstBlock partitionBlocks
    let formatted := partition.formatPartition medium memory blockCount
    FreshVolume partition.toPartition formatted.1 memory formatted.2 blockCount := by
  intro partition formatted
  obtain ⟨record, clear, contents⟩ := ram.formatted medium
  exact ram.mounted memory record clear contents

/-- A volume of five blocks, 64 KiB into a disk with blocks of 512 bytes. -/
theorem formatPartition_fresh_five :
    let partition := ramPartition 1048576 512 128 40
    let formatted := partition.formatPartition (fun _ => 7) sampleMemory 5
    FreshVolume partition.toPartition formatted.1 sampleMemory formatted.2 5 :=
  formatPartition_fresh 1048576 512 128 40 5
    ⟨by decide, by decide, by decide, by decide⟩ (fun _ => 7) sampleMemory

end DoggOS.Fs

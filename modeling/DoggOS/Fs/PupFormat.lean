/-
Formatting a Pup volume.

A format clears a block and the bitmap and writes the root record and the block
of the root node.  The clear of the root block takes the node link 256 for a
block number.  What the driver's clear does with the medium is a parameter, and
the partition has its length here, which the guard of a clear is about.
-/

import DoggOS.Fs.PupRanges

namespace DoggOS.Fs

open Dev

/-- `struct k_fs_part_t` with its length, and what `disk->clear` does. -/
structure VolumePartition (Medium : Type*) extends Partition Medium where
  blockCount : Nat
  clear : Medium → Nat → Nat → Medium

/-- The characters of `K_FS_PUP_MAGIC`, with the rest of the field. -/
def pupIdent : List UInt8 :=
  [79, 87, 79, 32, 85, 87, 85, 32, 76, 69, 32, 80, 85, 80, 32, 70, 83, 0, 0, 0, 0, 0, 0, 0]

/-- `root.bitmask_block_count` -/
def formatBitmaskBlocks (blockCount : Nat) : Nat :=
  let count := blockCount * 0x1000 % 2 ^ 32 / (0x1000 * 8 + 1)
  if count = 0 then 1 else count

/-- The root record that `k_fs_PupFormatVolume` writes. -/
def formatRoot (blockCount : Nat) : PupRoot where
  ident := pupIdent
  rootNode := 256
  bitmaskStart := 2
  bitmaskBlockCount := formatBitmaskBlocks blockCount
  allocStart := (2 + formatBitmaskBlocks blockCount + 3) / 4 * 4
  blockCount := blockCount

def longByte (value place : Nat) : UInt8 := UInt8.ofNat (value / 256 ^ place)

def PupRoot.toBytes (root : PupRoot) : Bytes := fun place =>
  if place < 24 then root.ident.getD place 0
  else if place < 32 then longByte root.rootNode (place - 24)
  else if place < 40 then longByte root.bitmaskStart (place - 32)
  else if place < 48 then longByte root.bitmaskBlockCount (place - 40)
  else if place < 56 then longByte root.allocStart (place - 48)
  else longByte root.blockCount (place - 56)

def rootName : List UInt8 :=
  [73, 39, 109, 32, 100, 97, 116, 32, 114, 111, 111, 116, 44, 32, 109, 111, 107, 102, 114]

/-- `volume_contents`: the parent link, and the first entry from byte 16 on. -/
def rootContents : Bytes := fun place =>
  if place < 8 then longByte 256 place
  else if place = 36 ∨ place = 37 then 0xff
  else if place = 38 then 2
  else if 40 ≤ place then rootName.getD (place - 40) 0
  else 0

namespace VolumePartition

variable {Medium : Type*} (partition : VolumePartition Medium)

def stop : Nat := (partition.firstBlock + partition.blockCount) * partition.disk.blockSize

/-- `disk_end` in `k_fs_ClearVolumeBytes` -/
def diskEnd : Nat :=
  (partition.firstBlock + partition.blockCount) % 2 ^ 32 * partition.disk.blockSize % 2 ^ 32

/-- The command of `k_fs_ClearVolumeBytes`. -/
def clearBytesCmds (blockSize firstBlock offset size : Nat) : List DiskCmd :=
  let writeStart := partition.firstBlock * partition.disk.blockSize % 2 ^ 32
  let writeStart := (writeStart + (firstBlock * blockSize + offset)) % 2 ^ 32
  if (writeStart + size) % 2 ^ 32 ≤ partition.diskEnd then
    partition.disk.clearCmds writeStart size
  else []

/-- The command of `k_fs_ClearVolumeBlocks`. -/
def clearBlocksCmds (blockSize firstBlock blockCount : Nat) : List DiskCmd :=
  partition.clearBytesCmds blockSize (firstBlock % 2 ^ 32) 0
    (blockSize * (blockCount % 2 ^ 32) % 2 ^ 32)

/-- `k_fs_ClearVolumeBlocks` -/
def clearVolumeBlocks (medium : Medium) (blockSize firstBlock blockCount : Nat) : Medium :=
  (partition.clearBlocksCmds blockSize firstBlock blockCount).foldl
    (fun medium cmd => partition.clear medium cmd.address cmd.size) medium

/-- `k_fs_PupFormatVolume` -/
def formatVolume (medium : Medium) (blockCount : Nat) : Medium :=
  let root := formatRoot blockCount
  let medium := partition.clearVolumeBlocks medium 0x1000 root.rootNode 1
  let medium := partition.clearVolumeBlocks medium 0x1000 root.bitmaskStart root.bitmaskBlockCount
  let medium := partition.writeVolumeBytes medium 0x1000 0 0 64 root.toBytes
  partition.writeVolumeBlocks medium 0x1000 (root.rootNode >>> 8) 1 rootContents

def formatCmds (blockCount : Nat) : List DiskCmd :=
  let root := formatRoot blockCount
  partition.clearBlocksCmds 0x1000 root.rootNode 1 ++
    partition.clearBlocksCmds 0x1000 root.bitmaskStart root.bitmaskBlockCount ++
    partition.writeBytesCmds 0x1000 0 0 64 ++
    partition.writeBlocksCmds 0x1000 (root.rootNode >>> 8) 1

end VolumePartition

theorem PupRoot.ofBytes_toBytes {root : PupRoot} (ident : root.ident.length = 24)
    (rootNode : root.rootNode < 2 ^ 64) (bitmaskStart : root.bitmaskStart < 2 ^ 64)
    (bitmaskBlockCount : root.bitmaskBlockCount < 2 ^ 64) (allocStart : root.allocStart < 2 ^ 64)
    (blockCount : root.blockCount < 2 ^ 64) : PupRoot.ofBytes root.toBytes = root := by
  have field : ∀ {offset value : Nat}, value < 2 ^ 64 →
      (∀ place < 8, root.toBytes (offset + place) = longByte value place) →
      loadLongAt root.toBytes offset = value := fun fits each =>
    Words.loadLongAt_of_bytes fits each
  have name : (List.range 24).map root.toBytes = root.ident := by
    apply List.ext_getElem
    · rw [List.length_map, List.length_range, ident]
    · intro place inRange inIdent
      rw [List.length_map, List.length_range] at inRange
      rw [List.getElem_map, List.getElem_range]
      unfold toBytes
      rw [if_pos inRange, List.getD_eq_getElem _ _ inIdent]
  have isRootNode : loadLongAt root.toBytes 24 = root.rootNode := by
    apply field rootNode
    intro place inLong
    unfold toBytes
    rw [if_neg (by omega), if_pos (by omega), Nat.add_sub_cancel_left]
  have isBitmaskStart : loadLongAt root.toBytes 32 = root.bitmaskStart := by
    apply field bitmaskStart
    intro place inLong
    unfold toBytes
    rw [if_neg (by omega), if_neg (by omega), if_pos (by omega), Nat.add_sub_cancel_left]
  have isBitmaskBlockCount : loadLongAt root.toBytes 40 = root.bitmaskBlockCount := by
    apply field bitmaskBlockCount
    intro place inLong
    unfold toBytes
    rw [if_neg (by omega), if_neg (by omega), if_neg (by omega), if_pos (by omega),
      Nat.add_sub_cancel_left]
  have isAllocStart : loadLongAt root.toBytes 48 = root.allocStart := by
    apply field allocStart
    intro place inLong
    unfold toBytes
    rw [if_neg (by omega), if_neg (by omega), if_neg (by omega), if_neg (by omega),
      if_pos (by omega), Nat.add_sub_cancel_left]
  have isBlockCount : loadLongAt root.toBytes 56 = root.blockCount := by
    apply field blockCount
    intro place inLong
    unfold toBytes
    rw [if_neg (by omega), if_neg (by omega), if_neg (by omega), if_neg (by omega),
      if_neg (by omega), Nat.add_sub_cancel_left]
  unfold ofBytes
  rw [name, isRootNode, isBitmaskStart, isBitmaskBlockCount, isAllocStart, isBlockCount]

theorem formatRoot_rootBlock (blockCount : Nat) : (formatRoot blockCount).rootNode >>> 8 = 1 := by
  have isLink : (formatRoot blockCount).rootNode = 256 := rfl
  rw [isLink]
  decide

theorem formatBitmaskBlocks_pos (blockCount : Nat) : 0 < formatBitmaskBlocks blockCount := by
  unfold formatBitmaskBlocks
  dsimp only
  split
  · exact Nat.one_pos
  · exact Nat.pos_of_ne_zero ‹_›

theorem formatBitmaskBlocks_inside {blockCount : Nat} (some : 4 ≤ blockCount) :
    2 + formatBitmaskBlocks blockCount ≤ blockCount := by
  unfold formatBitmaskBlocks
  dsimp only
  split
  · omega
  · omega

theorem ofBytes_formatRoot {blockCount : Nat} (word : blockCount < 2 ^ 64) :
    PupRoot.ofBytes (formatRoot blockCount).toBytes = formatRoot blockCount := by
  have small : formatBitmaskBlocks blockCount < 2 ^ 32 := by
    unfold formatBitmaskBlocks
    dsimp only
    split
    · omega
    · omega
  apply PupRoot.ofBytes_toBytes rfl
  · exact Nat.lt_of_lt_of_le (show 256 < 512 by omega) (by omega)
  · exact Nat.lt_of_lt_of_le (show 2 < 512 by omega) (by omega)
  · exact Nat.lt_trans small (by omega)
  · unfold formatRoot
    dsimp only
    omega
  · exact word

end DoggOS.Fs

/-
The byte ranges of the disk that stand for the blocks of a volume.

A block is read and written in the transfer of its group.  Both transfers have
the same 32-bit address, so a block is written where it is read; it is its own
place on the disk as long as the last group of the volume begins below 4 GiB.
-/

import DoggOS.Dev.DiskCommands
import DoggOS.Fs.PupCacheEntries

namespace DoggOS.Fs

open Dev

variable {Medium : Type*}

namespace Partition

variable (partition : Partition Medium)

/-- The command of `k_fs_ReadVolumeBytes`. -/
def readBytesCmds (blockSize firstBlock offset size : Nat) : List DiskCmd :=
  let readStart := partition.firstBlock * partition.disk.blockSize % 2 ^ 32
  let readStart := (readStart + (firstBlock * blockSize + offset) % 2 ^ 64) % 2 ^ 64
  partition.disk.readCmds readStart size

/-- The command of `k_fs_ReadVolumeBlocks`. -/
def readBlocksCmds (blockSize firstBlock blockCount : Nat) : List DiskCmd :=
  partition.readBytesCmds blockSize firstBlock 0 (blockSize * blockCount % 2 ^ 64)

/-- The command of `k_fs_WriteVolumeBytes`. -/
def writeBytesCmds (blockSize firstBlock offset size : Nat) : List DiskCmd :=
  let writeStart := partition.firstBlock * partition.disk.blockSize % 2 ^ 32
  let writeStart := (writeStart + (firstBlock * blockSize + offset)) % 2 ^ 32
  partition.disk.writeCmds writeStart size

/-- The command of `k_fs_WriteVolumeBlocks`. -/
def writeBlocksCmds (blockSize firstBlock blockCount : Nat) : List DiskCmd :=
  partition.writeBytesCmds blockSize (firstBlock % 2 ^ 32) 0
    (blockSize * (blockCount % 2 ^ 32) % 2 ^ 32)

def fillCmds (block : Nat) : List DiskCmd :=
  partition.readBlocksCmds 0x1000 (block &&& 0xfffffffffffffffc) 4

def storeCmds (firstBlock : Nat) : List DiskCmd :=
  partition.writeBlocksCmds 0x1000 firstBlock 4

theorem readVolumeBytes_eq (medium : Medium) (blockSize firstBlock offset size : Nat)
    (buffer : Bytes) : partition.readVolumeBytes medium blockSize firstBlock offset size buffer =
      (partition.readBytesCmds blockSize firstBlock offset size).foldl
        (fun buffer cmd => partition.disk.driver.read medium cmd.address cmd.size buffer) buffer :=
  partition.disk.read_eq_cmds medium _ _ _

theorem writeVolumeBytes_eq (medium : Medium) (blockSize firstBlock offset size : Nat)
    (buffer : Bytes) : partition.writeVolumeBytes medium blockSize firstBlock offset size buffer =
      (partition.writeBytesCmds blockSize firstBlock offset size).foldl
        (fun medium cmd => partition.disk.driver.write medium cmd.address cmd.size buffer) medium :=
  partition.disk.write_eq_cmds medium _ _ _

theorem loadedEntry_eq (medium : Medium) (memory : FreshMemory) (volume : PupVolume) (block : Nat) :
    (volume.loadedEntry partition medium memory block).buffer = (partition.fillCmds block).foldl
      (fun buffer cmd => partition.disk.driver.read medium cmd.address cmd.size buffer)
      (memory.entryBuffer volume.cacheEntries.length) :=
  partition.readVolumeBytes_eq medium _ _ _ _ _

theorem storeCacheEntry_eq (medium : Medium) (entry : CacheEntry) :
    PupVolume.storeCacheEntry partition medium entry = (partition.storeCmds entry.firstBlock).foldl
      (fun medium cmd => partition.disk.driver.write medium cmd.address cmd.size entry.buffer)
      medium :=
  partition.writeVolumeBytes_eq medium _ _ _ _ _

def blockStart (block : Nat) : Nat :=
  partition.firstBlock * partition.disk.blockSize + block * 0x1000

def placeOf (cmd : DiskCmd) (block : Nat) : Nat :=
  cmd.address + (block - groupStart block) * 0x1000

/-- Every block is read and written at its own place, apart from all others. -/
structure NoAliasing (blockCount : Nat) : Prop where
  reads : ∀ block < blockCount, ∀ cmd ∈ partition.fillCmds block,
    placeOf cmd block = partition.blockStart block
  writes : ∀ block < blockCount, ∀ cmd ∈ partition.storeCmds (groupStart block),
    placeOf cmd block = partition.blockStart block
  apart : ∀ block < blockCount, ∀ other < blockCount, block ≠ other →
    ∀ fill ∈ partition.fillCmds block, ∀ store ∈ partition.storeCmds (groupStart other),
      placeOf fill block + 0x1000 ≤ placeOf store other ∨
        placeOf store other + 0x1000 ≤ placeOf fill block

variable {partition} {block blockCount : Nat}

theorem fillCmds_eq (readable : partition.disk.Readable) (word : block < 2 ^ 64) :
    partition.fillCmds block = [⟨.read, partition.address (groupStart block), 0x4000⟩] := by
  have start : ((partition.firstBlock * partition.disk.blockSize % 2 ^ 32 +
      (groupStart block * 0x1000 + 0) % 2 ^ 64) % 2 ^ 64) % 2 ^ 32 =
        partition.address (groupStart block) := by
    unfold address
    omega
  have size : 0x1000 * 4 % 2 ^ 64 % 2 ^ 32 = 0x4000 := by omega
  unfold fillCmds readBlocksCmds readBytesCmds
  rw [PupVolume.and_groupMask word, readable.readCmds_eq, start, size]

theorem mem_storeCmds {first : Nat} {cmd : DiskCmd} (member : cmd ∈ partition.storeCmds first) :
    cmd = ⟨.write, partition.address first, 0x4000⟩ := by
  have start : ((partition.firstBlock * partition.disk.blockSize % 2 ^ 32 +
      (first % 2 ^ 32 * 0x1000 + 0)) % 2 ^ 32) % 2 ^ 32 = partition.address first := by
    unfold address
    omega
  have only := Disk.mem_writeCmds member
  rw [start] at only
  exact only

theorem blockStart_mono {other : Nat} (le : block ≤ other) :
    partition.blockStart (groupStart block) ≤ partition.blockStart (groupStart other) := by
  have groups := Nat.div_le_div_right (c := 4) le
  unfold blockStart groupStart
  omega

/-- A group below 4 GiB is at its own place, and the blocks in it are. -/
theorem address_add (below : partition.blockStart (groupStart block) < 2 ^ 32) :
    partition.address (groupStart block) + (block - groupStart block) * 0x1000 =
      partition.blockStart block := by
  unfold blockStart at below ⊢
  unfold address
  unfold groupStart at below ⊢
  omega

/-- The blocks of a volume do not alias exactly if its last group begins below 4 GiB. -/
theorem noAliasing_iff (readable : partition.disk.Readable) (word : blockCount < 2 ^ 64) :
    partition.NoAliasing blockCount ↔
      blockCount = 0 ∨ partition.blockStart (groupStart (blockCount - 1)) < 2 ^ 32 := by
  constructor
  · intro noAliasing
    by_cases empty : blockCount = 0
    · exact Or.inl empty
    · right
      have own := noAliasing.reads (blockCount - 1) (by omega)
        ⟨.read, partition.address (groupStart (blockCount - 1)), 0x4000⟩ (by
          rw [fillCmds_eq readable (by omega)]
          exact List.mem_singleton_self _)
      unfold placeOf blockStart address at own
      dsimp only at own
      unfold blockStart
      unfold groupStart at own ⊢
      omega
  · intro below
    have ownPlace : ∀ block < blockCount,
        partition.address (groupStart block) + (block - groupStart block) * 0x1000 =
          partition.blockStart block := by
      intro block inside
      apply address_add
      have notEmpty : blockCount ≠ 0 := Nat.ne_of_gt (Nat.zero_lt_of_lt inside)
      exact Nat.lt_of_le_of_lt (blockStart_mono (Nat.le_sub_one_of_lt inside))
        (below.resolve_left notEmpty)
    have reads : ∀ block < blockCount, ∀ cmd ∈ partition.fillCmds block,
        placeOf cmd block = partition.blockStart block := by
      intro block inside cmd member
      rw [fillCmds_eq readable (by omega)] at member
      rw [List.mem_singleton.mp member]
      exact ownPlace block inside
    have writes : ∀ block < blockCount, ∀ cmd ∈ partition.storeCmds (groupStart block),
        placeOf cmd block = partition.blockStart block := by
      intro block inside cmd member
      rw [mem_storeCmds member]
      exact ownPlace block inside
    refine ⟨reads, writes, ?_⟩
    intro block inside other otherInside different fill isFill store isStore
    rw [reads block inside fill isFill, writes other otherInside store isStore]
    unfold blockStart
    omega

def wholeDisk : Partition Bytes where
  disk := { driver := ramDriver (2 ^ 33), blockSize := 512, type := .ram }
  firstBlock := 0

/-- A volume that ends at 4 GiB. -/
theorem noAliasing_wholeDisk : wholeDisk.NoAliasing (2 ^ 20) :=
  (noAliasing_iff (Or.inl rfl) (by decide)).mpr (Or.inr (by decide))

/-- Block 2 ^ 20 is written where block 0 is read. -/
theorem secondBlock_overFirst : ¬ wholeDisk.NoAliasing (2 ^ 20 + 4) := by
  intro noAliasing
  have apart := noAliasing.apart 0 (by decide) (2 ^ 20) (by decide) (by decide)
    ⟨.read, 0, 0x4000⟩ (by decide) ⟨.write, 0, 0x4000⟩ (by decide)
  revert apart
  decide

end Partition

end DoggOS.Fs

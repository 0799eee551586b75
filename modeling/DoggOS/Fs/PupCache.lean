/-
The block cache between a Pup volume and its partition.

Four blocks are cached in one entry, and the entries of the set form a list
that only grows.  The volume functions of the file system layer turn a run of
blocks into a disk transfer; reads compute in 64 bits, writes in 32.  One
thread uses the volume, so that it always gets the lock of the set.
-/

import DoggOS.Dev.Disk
import DoggOS.Fs.PupVolume
import DoggOS.Library.Bits

namespace DoggOS.Fs

/-- `struct k_fs_part_t` -/
structure Partition (Medium : Type*) where
  disk : Dev.Disk Medium
  firstBlock : Nat

/-- What fresh memory holds: of the bitmap, and of the buffer of each entry in turn. -/
structure FreshMemory where
  blockBitmask : Bytes
  entryBuffer : Nat → Bytes

variable {Medium : Type*}

namespace Partition

variable (partition : Partition Medium) (medium : Medium)

/-- `k_fs_ReadVolumeBytes` -/
def readVolumeBytes (blockSize firstBlock offset size : Nat) (buffer : Bytes) : Bytes :=
  let readStart := partition.firstBlock * partition.disk.blockSize % 2 ^ 32
  let readStart := (readStart + (firstBlock * blockSize + offset) % 2 ^ 64) % 2 ^ 64
  partition.disk.read medium readStart size buffer

/-- `k_fs_ReadVolumeBlocks` -/
def readVolumeBlocks (blockSize firstBlock blockCount : Nat) (buffer : Bytes) : Bytes :=
  partition.readVolumeBytes medium blockSize firstBlock 0 (blockSize * blockCount % 2 ^ 64) buffer

/-- `k_fs_WriteVolumeBytes` -/
def writeVolumeBytes (blockSize firstBlock offset size : Nat) (buffer : Bytes) : Medium :=
  let writeStart := partition.firstBlock * partition.disk.blockSize % 2 ^ 32
  let writeStart := (writeStart + (firstBlock * blockSize + offset)) % 2 ^ 32
  partition.disk.write medium writeStart size buffer

/-- `k_fs_WriteVolumeBlocks`, with the conversion of its arguments. -/
def writeVolumeBlocks (blockSize firstBlock blockCount : Nat) (buffer : Bytes) : Medium :=
  partition.writeVolumeBytes medium blockSize (firstBlock % 2 ^ 32) 0
    (blockSize * (blockCount % 2 ^ 32) % 2 ^ 32) buffer

end Partition

def PupRoot.ofBytes (bytes : Bytes) : PupRoot where
  ident := (List.range 24).map bytes
  rootNode := loadLongAt bytes 24
  bitmaskStart := loadLongAt bytes 32
  bitmaskBlockCount := loadLongAt bytes 40
  allocStart := loadLongAt bytes 48
  blockCount := loadLongAt bytes 56

/-- The comparison in the loop of `k_fs_PupFindCacheEntry`. -/
def CacheEntry.covers (entry : CacheEntry) (block : Nat) : Bool :=
  let entryEnd := (entry.firstBlock + (4 - 1)) % 2 ^ 64
  !(decide (block < entry.firstBlock) || decide (block > entryEnd))

/-- `k_fs_PupGetBlock`: the bytes from the block on. -/
def CacheEntry.getBlock (entry : CacheEntry) (block : Nat) : Bytes :=
  let blockOffset := (block + 2 ^ 64 - entry.firstBlock) % 2 ^ 64 * 0x1000 % 2 ^ 32
  fun offset => entry.buffer (blockOffset + offset)

namespace PupVolume

/-- `k_fs_PupFindCacheEntry` -/
def findCacheEntry (volume : PupVolume) (block : Nat) : Option CacheEntry :=
  volume.cacheEntries.find? (fun entry => entry.covers block)

/-- `k_fs_PupStashCacheEntry` -/
def stashCacheEntry (volume : PupVolume) (entry : CacheEntry) : PupVolume :=
  { volume with cacheEntries := volume.cacheEntries ++ [entry] }

variable (partition : Partition Medium) (medium : Medium) (memory : FreshMemory)

def loadedEntry (volume : PupVolume) (block : Nat) : CacheEntry :=
  let firstBlock := block &&& 0xfffffffffffffffc
  { firstBlock := firstBlock
    buffer := partition.readVolumeBlocks medium 0x1000 firstBlock 4
      (memory.entryBuffer volume.cacheEntries.length) }

/-- `k_fs_PupFindOrLoadCacheEntry` -/
def findOrLoadCacheEntry (volume : PupVolume) (block : Nat) : CacheEntry × PupVolume :=
  match volume.findCacheEntry block with
  | some entry => (entry, volume)
  | none =>
      let entry := volume.loadedEntry partition medium memory block
      (entry, volume.stashCacheEntry entry)

/-- `k_fs_PupStoreCacheEntry` -/
def storeCacheEntry (entry : CacheEntry) : Medium :=
  partition.writeVolumeBlocks medium 0x1000 entry.firstBlock 4 entry.buffer

/-- `k_fs_PupFlushCache` -/
def flushCache (entries : List CacheEntry) : Medium :=
  entries.foldl (fun medium entry => storeCacheEntry partition medium entry) medium

/-- `k_fs_PupMountVolume`, up to the entry of the root node. -/
def mountVolume : PupVolume :=
  let root := PupRoot.ofBytes
    (partition.readVolumeBytes medium partition.disk.blockSize 0 0 64 (fun _ => 0))
  let blockBitmask := partition.readVolumeBlocks medium 0x1000 (root.bitmaskStart % 2 ^ 32)
    root.bitmaskBlockCount memory.blockBitmask
  let volume := { root := root, blockBitmask := blockBitmask, cacheEntries := [] }
  (findOrLoadCacheEntry partition medium memory volume (root.rootNode >>> 8)).2

/-- `k_fs_PupUnmountVolume`: the medium after the cache and then the bitmap are written. -/
def unmountVolume (volume : PupVolume) : Medium :=
  partition.writeVolumeBlocks (flushCache partition medium volume.cacheEntries) 0x1000
    volume.root.bitmaskStart volume.root.bitmaskBlockCount volume.blockBitmask

def changeByte (volume : PupVolume) (place offset : Nat) (byte : UInt8) : PupVolume :=
  { volume with
    cacheEntries := volume.cacheEntries.modify place fun entry =>
      { entry with buffer := Function.update entry.buffer offset byte } }

end PupVolume

/-- The sizes in the root record of a volume smaller than 4 GiB: groups of four blocks, the bitmap
behind block 0 and inside the volume, with a bit for each allocatable block. -/
structure PupRoot.WellFormed (root : PupRoot) : Prop where
  groups : root.blockCount % 4 = 0
  small : root.blockCount * 0x1000 < 2 ^ 32
  bitmaskStart : 1 ≤ root.bitmaskStart
  bitmaskEnd : root.bitmaskStart + root.bitmaskBlockCount ≤ root.blockCount
  allocStart : root.allocStart ≤ root.blockCount
  bits : root.blockCount - root.allocStart ≤ 8 * 0x1000 * root.bitmaskBlockCount
  rootNode : root.rootNode >>> 8 < root.blockCount

def PupRoot.IsBitmask (root : PupRoot) (block : Nat) : Prop :=
  root.bitmaskStart ≤ block ∧ block < root.bitmaskStart + root.bitmaskBlockCount

instance (root : PupRoot) (block : Nat) : Decidable (root.IsBitmask block) :=
  inferInstanceAs (Decidable (_ ∧ _))

def Partition.Holds (partition : Partition Medium) (blockCount : Nat) : Prop :=
  partition.firstBlock * partition.disk.blockSize + blockCount * 0x1000 ≤
    partition.disk.driver.capacity

namespace Partition

variable {partition : Partition Medium} {blockCount block count : Nat}

def address (partition : Partition Medium) (block : Nat) : Nat :=
  (partition.firstBlock * partition.disk.blockSize + block * 0x1000) % 2 ^ 32

theorem readVolumeBlocks_spec (readable : partition.disk.Readable)
    (holds : partition.Holds blockCount) (small : blockCount * 0x1000 < 2 ^ 32)
    (inside : block + count ≤ blockCount) (medium : Medium) (buffer : Bytes) :
    partition.readVolumeBlocks medium 0x1000 block count buffer =
      fillBytes buffer 0 (count * 0x1000)
        (fun place => partition.disk.driver.content medium (partition.address block + place)) := by
  unfold Holds at holds
  have start : ((partition.firstBlock * partition.disk.blockSize % 2 ^ 32 +
      (block * 0x1000 + 0) % 2 ^ 64) % 2 ^ 64) % 2 ^ 32 = partition.address block := by
    unfold address
    omega
  have size : (0x1000 * count % 2 ^ 64) % 2 ^ 32 = count * 0x1000 := by omega
  have fits : partition.address block + count * 0x1000 ≤ partition.disk.driver.capacity := by
    unfold address
    omega
  unfold readVolumeBlocks readVolumeBytes
  rw [Dev.Disk.read_spec readable medium buffer (by rw [start, size]; exact fits), start, size]

theorem writeVolumeBlocks_spec (writable : partition.disk.Writable)
    (holds : partition.Holds blockCount) (small : blockCount * 0x1000 < 2 ^ 32)
    (inside : block + count ≤ blockCount) (medium : Medium) (buffer : Bytes) :
    partition.disk.driver.content (partition.writeVolumeBlocks medium 0x1000 block count buffer) =
      fillBytes (partition.disk.driver.content medium) (partition.address block)
        (count * 0x1000) buffer := by
  unfold Holds at holds
  have start : ((partition.firstBlock * partition.disk.blockSize % 2 ^ 32 +
      (block % 2 ^ 32 * 0x1000 + 0)) % 2 ^ 32) % 2 ^ 32 = partition.address block := by
    unfold address
    omega
  have size : (0x1000 * (count % 2 ^ 32) % 2 ^ 32) % 2 ^ 32 = count * 0x1000 := by omega
  have fits : partition.address block + count * 0x1000 ≤ partition.disk.driver.capacity := by
    unfold address
    omega
  unfold writeVolumeBlocks writeVolumeBytes
  rw [Dev.Disk.write_spec writable medium buffer (by rw [start, size]; exact fits), start, size]

theorem readVolumeBytes_root (readable : partition.disk.Readable)
    (holds : partition.Holds blockCount) (some : 1 ≤ blockCount) (medium : Medium)
    (buffer : Bytes) :
    partition.readVolumeBytes medium partition.disk.blockSize 0 0 64 buffer =
      fillBytes buffer 0 64
        (fun place => partition.disk.driver.content medium (partition.address 0 + place)) := by
  unfold Holds at holds
  have start : ((partition.firstBlock * partition.disk.blockSize % 2 ^ 32 +
      (0 * partition.disk.blockSize + 0) % 2 ^ 64) % 2 ^ 64) % 2 ^ 32 = partition.address 0 := by
    unfold address
    rw [Nat.zero_mul, Nat.zero_mul]
    omega
  have size : 64 % 2 ^ 32 = 64 := by omega
  have fits : partition.address 0 + 64 ≤ partition.disk.driver.capacity := by
    unfold address
    omega
  unfold readVolumeBytes
  rw [Dev.Disk.read_spec readable medium buffer (by rw [start, size]; exact fits), start, size]

end Partition

end DoggOS.Fs

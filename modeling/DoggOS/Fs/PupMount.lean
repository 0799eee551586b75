/-
What a mount finds on the disk.

A partition has a Pup volume when the record in its first bytes is well formed
and the disk has room for the blocks.  The mount then has that record and the
bitmap in memory, and one cached group, the one of the root node.
-/

import DoggOS.Fs.PupCacheEntries

namespace DoggOS.Fs

open PupVolume

variable {Medium : Type*}

def Partition.rootOn (partition : Partition Medium) (medium : Medium) : PupRoot :=
  PupRoot.ofBytes fun place =>
    partition.disk.driver.content medium (partition.address 0 + place)

/-- The partition has a Pup volume, and the disk has room for all its blocks. -/
structure Partition.HasPup (partition : Partition Medium) (medium : Medium) : Prop where
  wellFormed : (partition.rootOn medium).WellFormed
  holds : partition.Holds (partition.rootOn medium).blockCount

theorem PupRoot.ofBytes_congr {bytes other : Bytes}
    (same : ∀ place < 64, bytes place = other place) :
    PupRoot.ofBytes bytes = PupRoot.ofBytes other := by
  have long : ∀ offset, offset + 8 ≤ 64 → loadLongAt bytes offset = loadLongAt other offset := by
    intro offset inside
    apply Words.loadLongAt_congr
    intro place inLong
    exact same (offset + place) (by omega)
  have ident : (List.range 24).map bytes = (List.range 24).map other := by
    apply List.map_congr_left
    intro place member
    have inside := List.mem_range.mp member
    exact same place (by omega)
  unfold PupRoot.ofBytes
  rw [ident, long 24 (by omega), long 32 (by omega), long 40 (by omega), long 48 (by omega),
    long 56 (by omega)]

namespace Partition.HasPup

variable {partition : Partition Medium} {medium : Medium} {memory : FreshMemory}

theorem loadable (pup : partition.HasPup medium) (readable : partition.disk.Readable) :
    Loadable partition (partition.rootOn medium) :=
  ⟨readable, pup.holds, pup.wellFormed.groups, pup.wellFormed.small⟩

theorem mount_eq (pup : partition.HasPup medium) (readable : partition.disk.Readable) :
    ∃ volume : PupVolume,
      mountVolume partition medium memory = (volume.findOrLoadCacheEntry partition
        medium memory ((partition.rootOn medium).rootNode >>> 8)).2 ∧
      volume.root = partition.rootOn medium ∧ volume.cacheEntries = [] ∧
      ∀ place < volume.root.bitmaskBlockCount * 0x1000, volume.blockBitmask place =
        partition.disk.driver.content medium
          (partition.address volume.root.bitmaskStart + place) := by
  obtain ⟨wellFormed, holds⟩ := pup
  have small := wellFormed.small
  have bitmaskEnd := wellFormed.bitmaskEnd
  have bitmaskStart := wellFormed.bitmaskStart
  have root : PupRoot.ofBytes (partition.readVolumeBytes medium partition.disk.blockSize 0 0 64
      (fun _ => 0)) = partition.rootOn medium := by
    apply PupRoot.ofBytes_congr
    intro place inRecord
    rw [Partition.readVolumeBytes_root readable holds (by omega)]
    unfold fillBytes
    rw [if_pos (by omega), Nat.sub_zero]
  refine ⟨⟨partition.rootOn medium, partition.readVolumeBlocks medium 0x1000
    ((partition.rootOn medium).bitmaskStart % 2 ^ 32) (partition.rootOn medium).bitmaskBlockCount
    memory.blockBitmask, []⟩, ?_, rfl, rfl, ?_⟩
  · unfold mountVolume
    rw [root]
  · intro place inBitmask
    have start : (partition.rootOn medium).bitmaskStart % 2 ^ 32 =
        (partition.rootOn medium).bitmaskStart := by omega
    change place < (partition.rootOn medium).bitmaskBlockCount * 0x1000 at inBitmask
    change partition.readVolumeBlocks medium 0x1000 _ _ _ place = _
    rw [start, Partition.readVolumeBlocks_spec readable holds small bitmaskEnd]
    unfold fillBytes
    rw [if_pos (by omega), Nat.sub_zero]

theorem mounted (pup : partition.HasPup medium) (readable : partition.disk.Readable) :
    (mountVolume partition medium memory).root = partition.rootOn medium ∧
      (mountVolume partition medium memory).Cached ∧
      (mountVolume partition medium memory).Mirrors partition medium ∧
      ∀ place < (partition.rootOn medium).bitmaskBlockCount * 0x1000,
        (mountVolume partition medium memory).blockBitmask place =
          partition.disk.driver.content medium
            (partition.address (partition.rootOn medium).bitmaskStart + place) := by
  obtain ⟨volume, mount, root, empty, blockBitmask⟩ := @mount_eq _ _ _ memory pup readable
  have loadable := pup.loadable readable
  have rootNode := pup.wellFormed.rootNode
  rw [← root] at loadable rootNode
  have cached : volume.Cached := by
    constructor
    · rw [empty]
      intro entry member
      cases member
    · rw [empty]
      intro entry member
      cases member
    · rw [empty]
      exact List.nodup_nil
  have mirrors : volume.Mirrors partition medium := by
    intro entry member
    rw [empty] at member
    cases member
  rw [mount]
  refine ⟨?_, ?_, ?_, ?_⟩
  · rw [findOrLoad_root]
    exact root
  · rw [← root]
    exact findOrLoad_cached loadable rootNode cached
  · rw [← root]
    exact findOrLoad_mirrors loadable rootNode mirrors
  · rw [findOrLoad_blockBitmask, ← root]
    exact blockBitmask

/-- A mount loads the group of the root node. -/
theorem mount_entries (pup : partition.HasPup medium) (readable : partition.disk.Readable) :
    ∃ entry, (mountVolume partition medium memory).cacheEntries = [entry] ∧
      entry.firstBlock = groupStart ((partition.rootOn medium).rootNode >>> 8) := by
  obtain ⟨volume, mount, root, empty, -⟩ := @mount_eq _ _ _ memory pup readable
  have loadable := pup.loadable readable
  have rootNode := pup.wellFormed.rootNode
  rw [← root] at loadable rootNode
  have missing : volume.findCacheEntry ((partition.rootOn medium).rootNode >>> 8) = none := by
    unfold findCacheEntry
    rw [empty]
    rfl
  refine ⟨volume.loadedEntry partition medium memory ((partition.rootOn medium).rootNode >>> 8),
    ?_, ?_⟩
  · rw [mount]
    unfold findOrLoadCacheEntry
    rw [missing]
    change volume.cacheEntries ++ [_] = _
    rw [empty]
    rfl
  · rw [← root]
    exact loadedEntry_firstBlock loadable rootNode

end Partition.HasPup

def sampleMedium : Bytes := fun place =>
  ([79, 87, 79, 32, 85, 87, 85, 32, 76, 69, 32, 80, 85, 80, 32, 70, 83, 0, 0, 0, 0, 0, 0, 0,
    0, 1, 0, 0, 0, 0, 0, 0, 2, 0, 0, 0, 0, 0, 0, 0, 1, 0, 0, 0, 0, 0, 0, 0,
    4, 0, 0, 0, 0, 0, 0, 0, 16, 0, 0, 0, 0, 0, 0, 0] : List UInt8).getD place 0

def samplePartition (type : Dev.DiskType) : Partition Bytes where
  disk := { driver := Dev.ramDriver 65536, blockSize := 512, type := type }
  firstBlock := 0

def sampleMemory : FreshMemory := { blockBitmask := fun _ => 0, entryBuffer := fun _ _ => 0 }

theorem samplePartition_rootOn (type : Dev.DiskType) :
    (samplePartition type).rootOn sampleMedium =
      ⟨(List.range 24).map sampleMedium, 256, 2, 1, 4, 16⟩ := by
  cases type
  all_goals decide +kernel

theorem samplePartition_hasPup (type : Dev.DiskType) :
    (samplePartition type).HasPup sampleMedium := by
  constructor
  · rw [samplePartition_rootOn]
    constructor
    all_goals decide
  · rw [samplePartition_rootOn]
    change 0 * 512 + 16 * 0x1000 ≤ 65536
    omega

end DoggOS.Fs

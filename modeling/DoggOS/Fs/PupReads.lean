/-
Reads of whole blocks through the cache.

A read takes one cached group a turn, as much of it as is still asked for.  It
gives the blocks as they are on the disk, whatever was cached before, as long
as the 32-bit addresses of the disk commands reach the whole volume.
-/

import DoggOS.Library.Machine
import DoggOS.Library.WhileLoop
import DoggOS.Fs.PupMount

namespace DoggOS.Fs

open PupVolume

variable {Medium : Type*}

/-- The variables of the loop in `k_fs_PupRead`. -/
structure BlockRead where
  firstBlock : Nat
  blockCount : Nat
  bufferCursor : Nat
  buffer : Bytes
  volume : PupVolume

namespace PupVolume

variable (partition : Partition Medium) (medium : Medium) (memory : FreshMemory)

def readTurn (lastBlock : Nat) (read : BlockRead) : Option BlockRead :=
  if read.firstBlock < lastBlock then
    let found := read.volume.findOrLoadCacheEntry partition medium memory read.firstBlock
    let blockOffset := (read.firstBlock + 2 ^ 64 - found.1.firstBlock) % 2 ^ 64 % 2 ^ 32
    let copySize := (4 + 2 ^ 32 - blockOffset) % 2 ^ 32
    let copySize := if copySize > read.blockCount then read.blockCount else copySize
    let byteOffset := blockOffset * 0x1000 % 2 ^ 32
    let byteSize := copySize * 0x1000 % 2 ^ 32
    some
      { firstBlock := (read.firstBlock + copySize) % 2 ^ 64
        blockCount := (read.blockCount + 2 ^ 32 - copySize) % 2 ^ 32
        bufferCursor := (read.bufferCursor + byteSize) % 2 ^ 32
        buffer := fillBytes read.buffer read.bufferCursor byteSize
          (fun place => found.1.buffer (byteOffset + place))
        volume := found.2 }
  else none

/-- `k_fs_PupRead` -/
def pupRead (volume : PupVolume) (firstBlock blockCount : Nat) (buffer : Bytes) :
    Option (Bytes × PupVolume) :=
  if blockCount > 0 then
    let lastBlock := (firstBlock + blockCount) % 2 ^ 64
    (whileLoop (readTurn partition medium memory lastBlock) (blockCount + 1)
      { firstBlock := firstBlock, blockCount := blockCount, bufferCursor := 0, buffer := buffer,
        volume := volume }).map (fun read => (read.buffer, read.volume))
  else some (buffer, volume)

end PupVolume

structure ReadCall where
  firstBlock : Nat
  blockCount : Nat
  buffer : Bytes

def readMachine (partition : Partition Medium) (medium : Medium) (memory : FreshMemory) :
    Machine PupVolume ReadCall where
  start volume := volume = mountVolume partition medium memory
  step before call after := call.firstBlock + call.blockCount ≤ before.root.blockCount ∧
    ∃ filled, before.pupRead partition medium memory call.firstBlock call.blockCount call.buffer =
      some (filled, after)

def Partition.blocksOn (partition : Partition Medium) (medium : Medium) (first : Nat) : Bytes :=
  fun place => partition.disk.driver.content medium
    (partition.firstBlock * partition.disk.blockSize + first * 0x1000 + place)

/-- The cache is not seen: reads give the blocks of the disk, and each entry has those of its
group, no two the same group. -/
structure PupVolume.Transparent (partition : Partition Medium) (medium : Medium)
    (memory : FreshMemory) (volume : PupVolume) : Prop where
  reads : ∀ first count buffer, first + count ≤ volume.root.blockCount →
    ∃ after, volume.pupRead partition medium memory first count buffer =
      some (fillBytes buffer 0 (count * 0x1000) (partition.blocksOn medium first), after)
  aligned : ∀ entry ∈ volume.cacheEntries, entry.firstBlock % 4 = 0
  distinct : volume.cacheEntries.Pairwise fun entry other =>
    ∀ block, ¬ (groupStart block = entry.firstBlock ∧ groupStart block = other.firstBlock)
  buffers : ∀ entry ∈ volume.cacheEntries, ∀ place < 4 * 0x1000,
    entry.buffer place = partition.blocksOn medium entry.firstBlock place

def Partition.Reaches (partition : Partition Medium) (blockCount : Nat) : Prop :=
  partition.firstBlock * partition.disk.blockSize + blockCount * 0x1000 ≤ 2 ^ 32

namespace PupVolume

variable {partition : Partition Medium} {medium : Medium} {memory : FreshMemory}
  {volume : PupVolume} {first count : Nat} {buffer : Bytes}

structure Clean (partition : Partition Medium) (medium : Medium) (volume : PupVolume) : Prop where
  root : volume.root = partition.rootOn medium
  cached : volume.Cached
  mirrors : volume.Mirrors partition medium

structure ReadUpTo (partition : Partition Medium) (medium : Medium) (first count : Nat)
    (buffer : Bytes) (done : Nat) (read : BlockRead) : Prop where
  some : done ≤ count
  firstBlock : read.firstBlock = first + done
  blockCount : read.blockCount = count - done
  bufferCursor : read.bufferCursor = done * 0x1000
  buffer : read.buffer = fillBytes buffer 0 (done * 0x1000) (partition.blocksOn medium first)
  clean : read.volume.Clean partition medium

private theorem part_bytes {part : Nat} (fits : part ≤ 4 - first % 4) :
    part * 0x1000 % 2 ^ 32 = part * 0x1000 := by
  omega

private theorem part_inGroup {part place : Nat} (fits : part ≤ 4 - first % 4)
    (inPart : place < part * 0x1000) : first % 4 * 0x1000 + place < 4 * 0x1000 := by
  omega

private theorem place_inRun {block done : Nat} (here : block = first + done) (start place : Nat) :
    start + groupStart block * 0x1000 + (block % 4 * 0x1000 + place) =
      start + first * 0x1000 + (done * 0x1000 + place) := by
  unfold groupStart
  omega

section Reads

variable (pup : partition.HasPup medium) (readable : partition.disk.Readable)
  (reaches : partition.Reaches (partition.rootOn medium).blockCount)

include pup reaches

theorem Clean.entry_buffer (clean : volume.Clean partition medium) {entry : CacheEntry}
    (member : entry ∈ volume.cacheEntries) {place : Nat} (inGroup : place < 4 * 0x1000) :
    entry.buffer place = partition.blocksOn medium entry.firstBlock place := by
  have inside := clean.cached.inside entry member
  have aligned := clean.cached.aligned entry member
  have groups := pup.wellFormed.groups
  rw [clean.root] at inside
  have address : partition.address entry.firstBlock =
      partition.firstBlock * partition.disk.blockSize + entry.firstBlock * 0x1000 := by
    unfold Partition.Reaches at reaches
    unfold Partition.address
    omega
  rw [clean.mirrors entry member place inGroup, address]
  rfl

include readable

omit reaches in
theorem Clean.findOrLoad (clean : volume.Clean partition medium)
    (inside : first < volume.root.blockCount) :
    (volume.findOrLoadCacheEntry partition medium memory first).2.Clean partition medium := by
  have loadable := pup.loadable readable
  rw [← clean.root] at loadable
  constructor
  · rw [findOrLoad_root]
    exact clean.root
  · exact findOrLoad_cached loadable inside clean.cached
  · exact findOrLoad_mirrors loadable inside clean.mirrors

theorem readTurn_spec (inside : first + count ≤ (partition.rootOn medium).blockCount) {done : Nat}
    {read : BlockRead} (upTo : ReadUpTo partition medium first count buffer done read)
    (more : done < count) :
    ∃ part next, 0 < part ∧ readTurn partition medium memory (first + count) read = some next ∧
      ReadUpTo partition medium first count buffer (done + part) next := by
  have small := pup.wellFormed.small
  have loadable := pup.loadable readable
  obtain ⟨-, firstBlock, blockCount, bufferCursor, filled, clean⟩ := upTo
  rw [← clean.root] at loadable inside small
  have blockInside : read.firstBlock < read.volume.root.blockCount := by omega
  have returned := @findOrLoad_entry _ _ medium memory _ _ loadable blockInside clean.cached
  have after := @Clean.findOrLoad _ _ _ memory _ _ pup readable clean blockInside
  cases found : read.volume.findOrLoadCacheEntry partition medium memory read.firstBlock with
  | mk entry volume =>
      rw [found] at returned after
      obtain ⟨member, group⟩ := returned
      change entry ∈ volume.cacheEntries at member
      change entry.firstBlock = groupStart read.firstBlock at group
      obtain ⟨part, isPart⟩ : ∃ part, part =
          if 4 - read.firstBlock % 4 > count - done then count - done
          else 4 - read.firstBlock % 4 := ⟨_, rfl⟩
      have partBounds : 0 < part ∧ part ≤ count - done ∧ part ≤ 4 - read.firstBlock % 4 := by
        split at isPart
        all_goals omega
      have blockOffset : (read.firstBlock + 2 ^ 64 - entry.firstBlock) % 2 ^ 64 % 2 ^ 32 =
          read.firstBlock % 4 := by
        rw [group]
        unfold groupStart
        omega
      have copySize : (4 + 2 ^ 32 - read.firstBlock % 4) % 2 ^ 32 = 4 - read.firstBlock % 4 := by
        omega
      have byteOffset : read.firstBlock % 4 * 0x1000 % 2 ^ 32 = read.firstBlock % 4 * 0x1000 := by
        omega
      have byteSize := part_bytes partBounds.2.2
      have nextBlock : (read.firstBlock + part) % 2 ^ 64 = first + (done + part) := by omega
      have nextCount : (count - done + 2 ^ 32 - part) % 2 ^ 32 = count - (done + part) := by omega
      have nextCursor : (read.bufferCursor + part * 0x1000) % 2 ^ 32 = (done + part) * 0x1000 := by
        omega
      refine ⟨part, ⟨first + (done + part), count - (done + part), (done + part) * 0x1000,
        fillBytes read.buffer read.bufferCursor (part * 0x1000)
          (fun place => entry.buffer (read.firstBlock % 4 * 0x1000 + place)), volume⟩,
        partBounds.1, ?_, ?_⟩
      · unfold readTurn
        rw [if_pos (by omega)]
        simp only [found, blockOffset, copySize, blockCount, ← isPart, byteOffset, byteSize,
          nextBlock, nextCount, nextCursor]
      · constructor
        · omega
        · rfl
        · rfl
        · rfl
        · have same : ∀ place < part * 0x1000,
              entry.buffer (read.firstBlock % 4 * 0x1000 + place) =
                partition.blocksOn medium first (done * 0x1000 + place) := by
            intro place inPart
            rw [after.entry_buffer pup reaches member (part_inGroup partBounds.2.2 inPart), group]
            unfold Partition.blocksOn
            rw [place_inRun firstBlock]
          have appended := Words.fillBytes_append buffer 0 (done * 0x1000) (part * 0x1000)
            (partition.blocksOn medium first)
          rw [Nat.zero_add, ← Nat.add_mul] at appended
          rw [Words.fillBytes_congr same, bufferCursor, filled]
          exact appended
        · exact after

theorem pupRead_spec (clean : volume.Clean partition medium)
    (inside : first + count ≤ volume.root.blockCount) :
    ∃ after, volume.pupRead partition medium memory first count buffer =
        some (fillBytes buffer 0 (count * 0x1000) (partition.blocksOn medium first), after) ∧
      after.Clean partition medium := by
  have small := pup.wellFormed.small
  rw [clean.root] at inside
  unfold pupRead
  by_cases nonempty : count > 0
  · have noWrap : (first + count) % 2 ^ 64 = first + count := by omega
    have start : ReadUpTo partition medium first count buffer 0
        ⟨first, count, 0, buffer, volume⟩ := by
      constructor
      · omega
      · rfl
      · rfl
      · rfl
      · rw [Nat.zero_mul, Words.fillBytes_zero]
      · exact clean
    have preserved : ∀ done read next, ReadUpTo partition medium first count buffer done read →
        readTurn partition medium memory (first + count) read = some next →
        ∃ further, ReadUpTo partition medium first count buffer further next ∧
          count - further < count - done := by
      intro done read next upTo ran
      have more : done < count := by
        apply Nat.lt_of_not_le
        intro all
        have firstBlock := upTo.firstBlock
        unfold readTurn at ran
        rw [if_neg (by omega)] at ran
        cases ran
      obtain ⟨part, found, positive, turned, kept⟩ := @readTurn_spec _ _ _ memory _ _ _ pup
        readable reaches inside done read upTo more
      rw [turned] at ran
      cases ran
      exact ⟨done + part, kept, by omega⟩
    obtain ⟨done, read, ran, upTo, stopped⟩ := @WhileLoop.rule _ _
      (readTurn partition medium memory (first + count))
      (ReadUpTo partition medium first count buffer) (fun done => count - done) preserved 0 _ start
      (count + 1) (by omega)
    have all : done = count := by
      apply Nat.le_antisymm upTo.some
      apply Nat.le_of_not_lt
      intro more
      obtain ⟨part, found, -, turned, -⟩ := @readTurn_spec _ _ _ memory _ _ _ pup readable reaches
        inside done read upTo more
      rw [turned] at stopped
      cases stopped
    refine ⟨read.volume, ?_, upTo.clean⟩
    rw [if_pos nonempty]
    simp only [noWrap]
    rw [ran, Option.map_some, upTo.buffer, all]
  · have none : count = 0 := by omega
    refine ⟨volume, ?_, clean⟩
    rw [if_neg nonempty, none, Nat.zero_mul, Words.fillBytes_zero]

theorem Clean.transparent (clean : volume.Clean partition medium) :
    volume.Transparent partition medium memory := by
  constructor
  · intro first count buffer inside
    obtain ⟨after, ran, -⟩ := @pupRead_spec _ _ _ memory _ _ _ buffer pup readable reaches clean
      inside
    exact ⟨after, ran⟩
  · exact clean.cached.aligned
  · have distinct := List.pairwise_map.mp clean.cached.distinct
    apply distinct.imp
    intro entry other different block both
    exact different (both.1.symm.trans both.2)
  · intro entry member place inGroup
    exact clean.entry_buffer pup reaches member inGroup

end Reads

end PupVolume

/-- In every state of every run of reads the cache is transparent. -/
theorem pupRead_transparent (partition : Partition Medium) (medium : Medium) (memory : FreshMemory)
    (readable : partition.disk.Readable) (pup : partition.HasPup medium)
    (reaches : partition.Reaches (partition.rootOn medium).blockCount) (volume : PupVolume)
    (reachable : (readMachine partition medium memory).Reachable volume) :
    volume.Transparent partition medium memory := by
  apply Clean.transparent pup readable reaches
  apply Machine.invariant _ _ _ reachable
  · intro first initial
    obtain ⟨root, cached, mirrors, -⟩ := @pup.mounted _ _ _ memory readable
    rw [initial]
    exact ⟨root, cached, mirrors⟩
  · intro before call after clean moved
    obtain ⟨inside, filled, ran⟩ := moved
    obtain ⟨last, result, kept⟩ := @pupRead_spec _ _ _ memory _ _ _ call.buffer pup readable reaches
      clean inside
    rw [ran] at result
    rw [(Prod.mk.inj (Option.some.inj result)).2]
    exact kept

private theorem samplePartition_reaches (type : Dev.DiskType) :
    (samplePartition type).Reaches ((samplePartition type).rootOn sampleMedium).blockCount := by
  rw [samplePartition_rootOn]
  change 0 * 512 + 16 * 0x1000 ≤ 2 ^ 32
  omega

theorem pupRead_transparent_boot :
    (mountVolume (samplePartition .boot) sampleMedium sampleMemory).Transparent
      (samplePartition .boot) sampleMedium sampleMemory :=
  pupRead_transparent (samplePartition .boot) sampleMedium sampleMemory (Or.inr (Or.inl rfl))
    (samplePartition_hasPup .boot) (samplePartition_reaches .boot)
    (mountVolume (samplePartition .boot) sampleMedium sampleMemory)
    (Machine.reachable_start _ rfl)

def farPartition : Partition Bytes where
  disk := { driver := Dev.ramDriver (2 ^ 33), blockSize := 512, type := .ram }
  firstBlock := 2 ^ 23

/-- The same volume at 0 and at 4 GiB, but for the first byte of block 5. -/
def farMedium : Bytes := fun place =>
  if place < 2 ^ 32 then sampleMedium place
  else if place = 2 ^ 32 + 5 * 0x1000 then 1
  else sampleMedium (place - 2 ^ 32)

/-- The read takes block 5 of the volume at 0; of a USB disk nothing is read. -/
theorem pupRead_not_transparent :
    ((PupRoot.ofBytes (farPartition.blocksOn farMedium 0)).WellFormed ∧
      farPartition.HasPup farMedium ∧
      ¬ (mountVolume farPartition farMedium sampleMemory).Transparent farPartition farMedium
        sampleMemory) ∧
    ((samplePartition .usb).HasPup sampleMedium ∧
      ¬ (mountVolume (samplePartition .usb) sampleMedium sampleMemory).Transparent
        (samplePartition .usb) sampleMedium sampleMemory) := by
  have farRoot : farPartition.rootOn farMedium =
      ⟨(List.range 24).map sampleMedium, 256, 2, 1, 4, 16⟩ := by
    decide +kernel
  have realRoot : PupRoot.ofBytes (farPartition.blocksOn farMedium 0) =
      ⟨(List.range 24).map sampleMedium, 256, 2, 1, 4, 16⟩ := by
    decide +kernel
  refine ⟨⟨?_, ?_, ?_⟩, samplePartition_hasPup .usb, ?_⟩
  · rw [realRoot]
    constructor
    all_goals decide
  · constructor
    · rw [farRoot]
      constructor
      all_goals decide
    · rw [farRoot]
      change 2 ^ 23 * 512 + 16 * 0x1000 ≤ 2 ^ 33
      omega
  · intro transparent
    obtain ⟨after, ran⟩ := transparent.reads 5 1 (fun _ => 0) (by decide +kernel)
    have firstByte := congrArg (Option.map fun result => result.1 0) ran
    simp only [Option.map_some] at firstByte
    exact absurd firstByte (by decide +kernel)
  · intro transparent
    have asRead : ((mountVolume (samplePartition .usb) sampleMedium sampleMemory).cacheEntries.all
        fun entry => decide (entry.buffer 0 =
          (samplePartition .usb).blocksOn sampleMedium entry.firstBlock 0)) = true := by
      apply List.all_eq_true.mpr
      intro entry member
      exact decide_eq_true (transparent.buffers entry member 0 (by omega))
    exact absurd asRead (by decide +kernel)

end DoggOS.Fs

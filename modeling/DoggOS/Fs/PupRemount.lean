/-
A volume that is unmounted and mounted again.

The flush writes every cached group, also the blocks of the bitmap as they were
when their group was read; the bitmap is written after it.  Groups do not
overlap on the disk and a bitmap block overlaps no other block, whichever way
the 32-bit addresses wrap, so the second mount finds what was in memory.
-/

import DoggOS.Library.Machine
import DoggOS.Fs.PupMount

namespace DoggOS.Fs

open PupVolume

variable {Medium : Type*}

inductive CacheCall where
  | findOrLoad (block : Nat)
  | change (place offset : Nat) (byte : UInt8)
  | alloc

/-- One thread on a mounted volume: lookups of its blocks, changes of cached blocks that are
neither block 0 nor in the bitmap, and allocations. -/
def cacheMachine (partition : Partition Medium) (medium : Medium) (memory : FreshMemory) :
    Machine PupVolume CacheCall where
  start volume := volume = mountVolume partition medium memory
  step before call after :=
    match call with
    | .findOrLoad block => block < before.root.blockCount ∧
        after = (before.findOrLoadCacheEntry partition medium memory block).2
    | .change place offset byte => ∃ entry, before.cacheEntries[place]? = some entry ∧
        offset < 4 * 0x1000 ∧ entry.firstBlock + offset / 0x1000 ≠ 0 ∧
        ¬ before.root.IsBitmask (entry.firstBlock + offset / 0x1000) ∧
        after = before.changeByte place offset byte
    | .alloc => ∃ block, before.allocBlock = some (block, after)

def IsLookup (_ : PupVolume) (call : CacheCall) : Prop := ∃ block, call = .findOrLoad block

def PupVolume.readThrough (partition : Partition Medium) (medium : Medium) (memory : FreshMemory)
    (volume : PupVolume) (block : Nat) : Bytes :=
  (volume.findOrLoadCacheEntry partition medium memory block).1.getBlock block

/-- A mount after the unmount of `volume` finds the same record and the same bitmap, and every
block outside of the bitmap that is then read through the cache is as it was last in memory. -/
structure PupVolume.SurvivesRemount (partition : Partition Medium) (medium : Medium)
    (memory later : FreshMemory) (volume : PupVolume) : Prop where
  root : (mountVolume partition (volume.unmountVolume partition medium) later).root = volume.root
  blockBitmask : ∀ place < volume.root.bitmaskBlockCount * 0x1000,
    (mountVolume partition (volume.unmountVolume partition medium) later).blockBitmask place =
      volume.blockBitmask place
  blocks : ∀ remounted,
    ((cacheMachine partition (volume.unmountVolume partition medium) later).restrict
      IsLookup).Reachable remounted →
    ∀ block < volume.root.blockCount, ¬ volume.root.IsBitmask block → ∀ offset < 0x1000,
      remounted.readThrough partition (volume.unmountVolume partition medium) later block offset =
        volume.readThrough partition medium memory block offset

namespace Partition

variable {partition : Partition Medium} {blockCount first other block place : Nat}

theorem address_apart (small : blockCount * 0x1000 < 2 ^ 32) (aligned : first % 4 = 0)
    (otherAligned : other % 4 = 0) (inside : first < blockCount) (otherInside : other < blockCount)
    (different : first ≠ other) (inGroup : place < 4 * 0x1000) :
    ¬ (partition.address other ≤ partition.address first + place ∧
      partition.address first + place < partition.address other + 4 * 0x1000) := by
  unfold address
  omega

/-- A block outside of a run of blocks is apart from the run, also where the run wraps. -/
theorem address_outside {start count offset : Nat} (small : blockCount * 0x1000 < 2 ^ 32)
    (inside : block < blockCount) (runInside : start + count ≤ blockCount)
    (outside : ¬ (start ≤ block ∧ block < start + count)) (inBlock : offset < 0x1000) :
    ¬ (partition.address start ≤
        partition.address (groupStart block) + (block % 4 * 0x1000 + offset) ∧
      partition.address (groupStart block) + (block % 4 * 0x1000 + offset) <
        partition.address start + count * 0x1000) := by
  intro overlap
  obtain ⟨run, inRun, turn⟩ : ∃ run, run < count ∧
      partition.address (groupStart block) + (block % 4 * 0x1000 + offset) =
        partition.address start + run * 0x1000 + offset := by
    refine ⟨(partition.address (groupStart block) + (block % 4 * 0x1000 + offset) -
      partition.address start) / 0x1000, ?_, ?_⟩
    · omega
    · unfold address groupStart at overlap ⊢
      omega
  have same : start + run = block := by
    unfold address groupStart at turn
    omega
  omega

end Partition

namespace PupVolume

variable {partition : Partition Medium} {medium : Medium} {memory : FreshMemory}
  {volume : PupVolume} {blockCount first place : Nat}

section Flush

variable (writable : partition.disk.Writable) (holds : partition.Holds blockCount)
  (groups : blockCount % 4 = 0) (small : blockCount * 0x1000 < 2 ^ 32)

include writable holds groups small

theorem storeCacheEntry_spec {entry : CacheEntry} (aligned : entry.firstBlock % 4 = 0)
    (inside : entry.firstBlock < blockCount) :
    partition.disk.driver.content (storeCacheEntry partition medium entry) =
      fillBytes (partition.disk.driver.content medium) (partition.address entry.firstBlock)
        (4 * 0x1000) entry.buffer :=
  Partition.writeVolumeBlocks_spec writable holds small (by omega) medium entry.buffer

theorem flushCache_other {entries : List CacheEntry}
    (aligned : ∀ entry ∈ entries, entry.firstBlock % 4 = 0)
    (inside : ∀ entry ∈ entries, entry.firstBlock < blockCount)
    (firstAligned : first % 4 = 0) (firstInside : first < blockCount)
    (other : ∀ entry ∈ entries, entry.firstBlock ≠ first) (inGroup : place < 4 * 0x1000) :
    partition.disk.driver.content (flushCache partition medium entries)
        (partition.address first + place) =
      partition.disk.driver.content medium (partition.address first + place) := by
  induction entries generalizing medium with
  | nil => rfl
  | cons entry rest ih =>
      have here := List.mem_cons_self (a := entry) (l := rest)
      have below : ∀ found ∈ rest, found ∈ entry :: rest := fun _ => List.mem_cons_of_mem entry
      have restKept := @ih (storeCacheEntry partition medium entry)
        (fun found member => aligned found (below found member))
        (fun found member => inside found (below found member))
        (fun found member => other found (below found member))
      have apart := @Partition.address_apart _ partition _ first entry.firstBlock place small
        firstAligned (aligned entry here) firstInside (inside entry here)
        (fun same => other entry here same.symm) inGroup
      have stored := @storeCacheEntry_spec _ partition medium _ writable holds groups small entry
        (aligned entry here) (inside entry here)
      change partition.disk.driver.content
        (flushCache partition (storeCacheEntry partition medium entry) rest) _ = _
      rw [restKept, stored]
      unfold fillBytes
      rw [if_neg apart]

theorem flushCache_entry {entries : List CacheEntry} {entry : CacheEntry}
    (aligned : ∀ entry ∈ entries, entry.firstBlock % 4 = 0)
    (inside : ∀ entry ∈ entries, entry.firstBlock < blockCount)
    (distinct : (entries.map CacheEntry.firstBlock).Nodup) (member : entry ∈ entries)
    (inGroup : place < 4 * 0x1000) :
    partition.disk.driver.content (flushCache partition medium entries)
        (partition.address entry.firstBlock + place) = entry.buffer place := by
  induction entries generalizing medium with
  | nil => cases member
  | cons head rest ih =>
      have below : ∀ found ∈ rest, found ∈ head :: rest := fun _ => List.mem_cons_of_mem head
      have restAligned : ∀ found ∈ rest, found.firstBlock % 4 = 0 :=
        fun found member => aligned found (below found member)
      have restInside : ∀ found ∈ rest, found.firstBlock < blockCount :=
        fun found member => inside found (below found member)
      rw [List.map_cons, List.nodup_cons] at distinct
      change partition.disk.driver.content
        (flushCache partition (storeCacheEntry partition medium head) rest) _ = _
      rcases List.mem_cons.mp member with here | inRest
      · have other : ∀ found ∈ rest, found.firstBlock ≠ head.firstBlock := by
          intro found foundMember same
          exact distinct.1 (List.mem_map.mpr ⟨found, foundMember, same⟩)
        have headAligned := aligned entry member
        have headInside := inside entry member
        rw [here] at headAligned headInside ⊢
        rw [flushCache_other writable holds groups small restAligned restInside headAligned
          headInside other inGroup,
          storeCacheEntry_spec writable holds groups small headAligned headInside]
        unfold fillBytes
        rw [if_pos (by omega), Nat.add_sub_cancel_left]
      · exact ih restAligned restInside distinct.2 inRest

/-- After the flush the groups on the disk are as they were in memory. -/
theorem flushCache_inMemory (cached : volume.Cached) (count : volume.root.blockCount = blockCount)
    (aligned : first % 4 = 0) (inside : first < blockCount) (inGroup : place < 4 * 0x1000) :
    partition.disk.driver.content (flushCache partition medium volume.cacheEntries)
        (partition.address first + place) = volume.inMemory partition medium first place := by
  have entryInside := cached.inside
  rw [count] at entryInside
  cases found : volume.findCacheEntry first with
  | some entry =>
      obtain ⟨member, group⟩ := cached.find_some (by omega) found
      rw [groupStart_self aligned] at group
      rw [← group, cached.inMemory_member (by omega) member]
      exact flushCache_entry writable holds groups small cached.aligned entryInside
        cached.distinct member inGroup
  | none =>
      have other := cached.find_none (by omega) found
      rw [groupStart_self aligned] at other
      rw [Cached.inMemory_uncached found]
      exact flushCache_other writable holds groups small cached.aligned entryInside aligned inside
        other inGroup

end Flush

end PupVolume

namespace PupVolume

variable {partition : Partition Medium} {medium : Medium} {memory later : FreshMemory}
  {volume after : PupVolume} {block : Nat}

structure Held (partition : Partition Medium) (medium : Medium) (volume : PupVolume) : Prop where
  root : volume.root = partition.rootOn medium
  cached : volume.Cached
  rootBlock : ∀ place < 0x1000, volume.inMemory partition medium 0 place =
    partition.disk.driver.content medium (partition.address 0 + place)

theorem allocBlock_keeps (ran : volume.allocBlock = some (block, after)) :
    after.root = volume.root ∧ after.cacheEntries = volume.cacheEntries := by
  unfold allocBlock at ran
  obtain ⟨search, -, same⟩ := Option.map_eq_some_iff.mp ran
  rw [← (Prod.mk.inj same).2]
  exact ⟨rfl, rfl⟩

section Runs

variable (pup : partition.HasPup medium) (readable : partition.disk.Readable)

include pup readable

theorem Held.start : (mountVolume partition medium memory).Held partition medium := by
  obtain ⟨root, cached, mirrors, -⟩ := @pup.mounted _ _ _ memory readable
  have small := pup.wellFormed.small
  constructor
  · exact root
  · exact cached
  · intro place inBlock
    apply cached.inMemory_mirrors _ mirrors (by omega) (by omega)
    rw [root]
    omega

theorem Held.step {call : CacheCall} (held : volume.Held partition medium)
    (moved : (cacheMachine partition medium memory).step volume call after) :
    after.Held partition medium := by
  have small := pup.wellFormed.small
  have loadable := pup.loadable readable
  rw [← held.root] at small loadable
  cases call with
  | findOrLoad block =>
      obtain ⟨inside, rfl⟩ := moved
      constructor
      · rw [findOrLoad_root]
        exact held.root
      · exact findOrLoad_cached loadable inside held.cached
      · intro place inBlock
        rw [findOrLoad_inMemory loadable inside held.cached (by omega) (by omega)]
        exact held.rootBlock place inBlock
  | change place offset byte =>
      obtain ⟨entry, here, inGroup, notRoot, -, rfl⟩ := moved
      constructor
      · exact held.root
      · exact held.cached.changeByte
      · intro inner inBlock
        rw [changeByte_inMemory held.cached (by omega) here (by omega), if_neg (by omega)]
        exact held.rootBlock inner inBlock
  | alloc =>
      obtain ⟨block, ran⟩ := moved
      obtain ⟨root, entries⟩ := allocBlock_keeps ran
      have memorySame : ∀ first, after.findCacheEntry first = volume.findCacheEntry first := by
        intro first
        unfold findCacheEntry
        rw [entries]
      constructor
      · rw [root]
        exact held.root
      · obtain ⟨aligned, inside, distinct⟩ := held.cached
        constructor
        · rw [entries]
          exact aligned
        · rw [entries, root]
          exact inside
        · rw [entries]
          exact distinct
      · intro place inBlock
        unfold inMemory
        rw [memorySame]
        exact held.rootBlock place inBlock

theorem reachable_held (reachable : (cacheMachine partition medium memory).Reachable volume) :
    volume.Held partition medium := by
  apply Machine.invariant _ _ _ reachable
  · intro first initial
    rw [initial]
    exact Held.start pup readable
  · intro before call after held moved
    exact held.step pup readable moved

/-- With lookups only, the entries hold what is on the disk. -/
theorem reachable_mirrors {remounted : PupVolume}
    (reachable : ((cacheMachine partition medium memory).restrict IsLookup).Reachable remounted) :
    remounted.Held partition medium ∧ remounted.Mirrors partition medium := by
  apply Machine.invariant _ _ _ reachable
  · intro first initial
    rw [initial]
    exact ⟨Held.start pup readable, (pup.mounted readable).2.2.1⟩
  · intro before call after invariant moved
    obtain ⟨held, mirrors⟩ := invariant
    obtain ⟨⟨block, isLookup⟩, step⟩ := moved
    have loadable := pup.loadable readable
    rw [← held.root] at loadable
    constructor
    · exact held.step pup readable step
    · rw [isLookup] at step
      obtain ⟨inside, rfl⟩ := step
      exact findOrLoad_mirrors loadable inside mirrors

theorem Held.readThrough (held : volume.Held partition medium)
    (inside : block < volume.root.blockCount) {offset : Nat} (inBlock : offset < 0x1000) :
    volume.readThrough partition medium memory block offset =
      volume.inMemory partition medium (groupStart block) (block % 4 * 0x1000 + offset) := by
  have loadable := pup.loadable readable
  rw [← held.root] at loadable
  have group := (@findOrLoad_entry _ _ medium memory _ _ loadable inside held.cached).2
  unfold PupVolume.readThrough
  rw [getBlock_eq group, findOrLoad_buffer loadable inside held.cached (by omega)]

end Runs

section Unmount

variable (pup : partition.HasPup medium) (writable : partition.disk.Writable)
  (held : volume.Held partition medium)

include pup writable held

theorem Held.unmount_block (inside : block < volume.root.blockCount)
    (outside : ¬ volume.root.IsBitmask block) {offset : Nat} (inBlock : offset < 0x1000) :
    partition.disk.driver.content (volume.unmountVolume partition medium)
        (partition.address (groupStart block) + (block % 4 * 0x1000 + offset)) =
      volume.inMemory partition medium (groupStart block) (block % 4 * 0x1000 + offset) := by
  obtain ⟨wellFormed, holds⟩ := pup
  rw [← held.root] at wellFormed holds
  have apart := @Partition.address_outside _ partition _ block _ _ offset wellFormed.small inside
    wellFormed.bitmaskEnd outside inBlock
  have aligned : groupStart block % 4 = 0 := by
    unfold groupStart
    omega
  have groupInside : groupStart block < volume.root.blockCount := by
    unfold groupStart
    omega
  unfold unmountVolume
  rw [Partition.writeVolumeBlocks_spec writable holds wellFormed.small wellFormed.bitmaskEnd]
  unfold fillBytes
  rw [if_neg apart]
  exact flushCache_inMemory writable holds wellFormed.groups wellFormed.small held.cached rfl
    aligned groupInside (by omega)

theorem Held.unmount_bitmask {place : Nat}
    (inBitmask : place < volume.root.bitmaskBlockCount * 0x1000) :
    partition.disk.driver.content (volume.unmountVolume partition medium)
        (partition.address volume.root.bitmaskStart + place) = volume.blockBitmask place := by
  obtain ⟨wellFormed, holds⟩ := pup
  rw [← held.root] at wellFormed holds
  unfold unmountVolume
  rw [Partition.writeVolumeBlocks_spec writable holds wellFormed.small wellFormed.bitmaskEnd]
  unfold fillBytes
  rw [if_pos (by omega), Nat.add_sub_cancel_left]

theorem Held.unmount_root :
    partition.rootOn (volume.unmountVolume partition medium) = partition.rootOn medium := by
  have wellFormed := pup.wellFormed
  rw [← held.root] at wellFormed
  obtain ⟨-, -, bitmaskStart, bitmaskEnd, -, -, rootNode⟩ := wellFormed
  apply PupRoot.ofBytes_congr
  intro place inRecord
  have notBitmask : ¬ volume.root.IsBitmask 0 := by
    unfold PupRoot.IsBitmask
    omega
  have written := @Held.unmount_block _ partition medium volume 0 pup writable held (by omega)
    notBitmask place (by omega)
  change partition.disk.driver.content _ (partition.address 0 + (0 + place)) =
    volume.inMemory partition medium 0 (0 + place) at written
  rw [Nat.zero_add] at written
  rw [written]
  exact held.rootBlock place (by omega)

theorem Held.survives : volume.SurvivesRemount partition medium memory later := by
  have readable := writable.readable
  have root := held.unmount_root pup writable
  have again : partition.HasPup (volume.unmountVolume partition medium) := by
    constructor
    · rw [root]
      exact pup.wellFormed
    · rw [root]
      exact pup.holds
  obtain ⟨mountedRoot, -, -, blockBitmask⟩ := @again.mounted _ _ _ later readable
  rw [root, ← held.root] at mountedRoot blockBitmask
  constructor
  · exact mountedRoot
  · intro place inBitmask
    rw [blockBitmask place inBitmask]
    exact held.unmount_bitmask pup writable inBitmask
  · intro remounted reachable block inside outside offset inBlock
    have inGroup : block % 4 * 0x1000 + offset < 4 * 0x1000 := by omega
    obtain ⟨reheld, mirrors⟩ := reachable_mirrors again readable reachable
    have sameRoot := reheld.root
    rw [root, ← held.root] at sameRoot
    have small := pup.wellFormed.small
    rw [← held.root] at small
    have aligned : groupStart block % 4 = 0 := by
      unfold groupStart
      omega
    have remountedInside : block < remounted.root.blockCount := by
      rw [sameRoot]
      exact inside
    have remountedSmall : remounted.root.blockCount < 2 ^ 32 := by
      rw [sameRoot]
      omega
    rw [reheld.readThrough again readable remountedInside inBlock,
      held.readThrough pup readable inside inBlock,
      reheld.cached.inMemory_mirrors remountedSmall mirrors aligned inGroup]
    exact held.unmount_block pup writable inside outside inBlock

end Unmount

end PupVolume

/-- An unmount and a mount keep the volume on every disk that is written. -/
theorem pupVolume_survives_remount (partition : Partition Medium) (medium : Medium)
    (memory later : FreshMemory) (writable : partition.disk.Writable)
    (pup : partition.HasPup medium) (volume : PupVolume)
    (reachable : (cacheMachine partition medium memory).Reachable volume) :
    volume.SurvivesRemount partition medium memory later := by
  have held := reachable_held pup writable.readable reachable
  exact held.survives pup writable

def sampleVolume (type : Dev.DiskType) : PupVolume :=
  (mountVolume (samplePartition type) sampleMedium sampleMemory).changeByte 0 0x1000 7

private theorem sampleVolume_reachable {type : Dev.DiskType}
    (readable : (samplePartition type).disk.Readable) :
    (cacheMachine (samplePartition type) sampleMedium sampleMemory).Reachable
      (sampleVolume type) := by
  have pup := samplePartition_hasPup type
  have root := (@pup.mounted _ _ _ sampleMemory readable).1
  obtain ⟨entry, entries, first⟩ := @pup.mount_entries _ _ _ sampleMemory readable
  rw [samplePartition_rootOn] at root first
  change entry.firstBlock = 0 at first
  have mounted := Machine.reachable_start
    (cacheMachine (samplePartition type) sampleMedium sampleMemory) rfl
  have step : (cacheMachine (samplePartition type) sampleMedium sampleMemory).step
      (mountVolume (samplePartition type) sampleMedium sampleMemory) (.change 0 0x1000 7)
      (sampleVolume type) := by
    have inGroup : 0x1000 < 4 * 0x1000 := by decide
    refine ⟨entry, ?_, inGroup, ?_, ?_, rfl⟩
    · rw [entries]
      rfl
    · rw [first]
      decide
    · rw [first, root]
      decide
  exact Machine.reachable_step _ mounted step

theorem pupVolume_survives_remount_ram :
    (sampleVolume .ram).SurvivesRemount (samplePartition .ram) sampleMedium sampleMemory
      sampleMemory :=
  pupVolume_survives_remount (samplePartition .ram) sampleMedium sampleMemory sampleMemory
    (Or.inl rfl) (samplePartition_hasPup .ram) (sampleVolume .ram)
    (sampleVolume_reachable (Or.inl rfl))

/-- A boot disk drops the writes. -/
theorem pupVolume_lost_on_boot_disk :
    ∃ volume, (samplePartition .boot).HasPup sampleMedium ∧
      (cacheMachine (samplePartition .boot) sampleMedium sampleMemory).Reachable volume ∧
      ¬ volume.SurvivesRemount (samplePartition .boot) sampleMedium sampleMemory sampleMemory := by
  refine ⟨sampleVolume .boot, samplePartition_hasPup .boot,
    sampleVolume_reachable (Or.inr (Or.inl rfl)), ?_⟩
  intro survives
  have lost := survives.blocks _ (Machine.reachable_start _ rfl) 1 (by decide +kernel)
    (by decide +kernel) 0 (by decide)
  exact absurd lost (by decide +kernel)

end DoggOS.Fs

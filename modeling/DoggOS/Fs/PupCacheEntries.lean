/-
The entries of the block cache and what they hold.

The entries of a set begin at multiples of four, inside the volume, and no two
of them at the same block, so that a block is covered by at most one entry.  A
lookup with a load keeps this and returns the entry of the group of the block;
as long as nothing is changed in place the entries hold what the disk holds.
-/

import DoggOS.Fs.PupCache

namespace DoggOS.Fs

def groupStart (block : Nat) : Nat := block / 4 * 4

namespace PupVolume

variable {Medium : Type*} {partition : Partition Medium} {medium : Medium} {memory : FreshMemory}
  {volume : PupVolume} {block first : Nat}

structure Cached (volume : PupVolume) : Prop where
  aligned : ∀ entry ∈ volume.cacheEntries, entry.firstBlock % 4 = 0
  inside : ∀ entry ∈ volume.cacheEntries, entry.firstBlock < volume.root.blockCount
  distinct : (volume.cacheEntries.map CacheEntry.firstBlock).Nodup

/-- Every entry holds the blocks of its group as they are on the disk. -/
def Mirrors (partition : Partition Medium) (medium : Medium) (volume : PupVolume) : Prop :=
  ∀ entry ∈ volume.cacheEntries, ∀ place < 4 * 0x1000, entry.buffer place =
    partition.disk.driver.content medium (partition.address entry.firstBlock + place)

/-- What is in memory for a byte of a group: the cached one, or else the one on the disk. -/
def inMemory (partition : Partition Medium) (medium : Medium) (volume : PupVolume)
    (first place : Nat) : UInt8 :=
  match volume.findCacheEntry first with
  | some entry => entry.buffer place
  | none => partition.disk.driver.content medium (partition.address first + place)

theorem groupStart_self (aligned : first % 4 = 0) : groupStart first = first := by
  unfold groupStart
  omega

/-- The mask of `k_fs_PupFindOrLoadCacheEntry`. -/
theorem and_groupMask (word : block < 2 ^ 64) :
    block &&& 0xfffffffffffffffc = groupStart block := by
  have mask := Bits.and_high block 2 64 word (by omega)
  change block &&& (2 ^ 64 - 2 ^ 2) = groupStart block
  rw [mask]
  unfold groupStart
  omega

theorem covers_iff {entry : CacheEntry} (aligned : entry.firstBlock % 4 = 0)
    (small : entry.firstBlock < 2 ^ 64) :
    entry.covers block = true ↔ entry.firstBlock = groupStart block := by
  have noWrap : (entry.firstBlock + (4 - 1)) % 2 ^ 64 = entry.firstBlock + 3 := by omega
  unfold CacheEntry.covers groupStart
  rw [noWrap, Bool.not_eq_true', Bool.or_eq_false_iff, decide_eq_false_iff_not,
    decide_eq_false_iff_not]
  omega

theorem getBlock_eq {entry : CacheEntry} (group : entry.firstBlock = groupStart block)
    (offset : Nat) :
    entry.getBlock block offset = entry.buffer (block % 4 * 0x1000 + offset) := by
  have blockOffset : (block + 2 ^ 64 - entry.firstBlock) % 2 ^ 64 * 0x1000 % 2 ^ 32 =
      block % 4 * 0x1000 := by
    rw [group]
    unfold groupStart
    omega
  unfold CacheEntry.getBlock
  rw [blockOffset]

namespace Cached

theorem find_some (cached : volume.Cached) (small : volume.root.blockCount < 2 ^ 32)
    {entry : CacheEntry} (found : volume.findCacheEntry block = some entry) :
    entry ∈ volume.cacheEntries ∧ entry.firstBlock = groupStart block := by
  have member := List.mem_of_find?_eq_some found
  have covered := List.find?_some found
  have inside := cached.inside entry member
  constructor
  · exact member
  · exact (covers_iff (cached.aligned entry member) (by omega)).mp covered

theorem find_none (cached : volume.Cached) (small : volume.root.blockCount < 2 ^ 32)
    (missing : volume.findCacheEntry block = none) :
    ∀ entry ∈ volume.cacheEntries, entry.firstBlock ≠ groupStart block := by
  intro entry member same
  have inside := cached.inside entry member
  have uncovered := List.find?_eq_none.mp missing entry member
  exact uncovered ((covers_iff (cached.aligned entry member) (by omega)).mpr same)

theorem eq_of_first (cached : volume.Cached) {entry other : CacheEntry}
    (member : entry ∈ volume.cacheEntries) (otherMember : other ∈ volume.cacheEntries)
    (same : entry.firstBlock = other.firstBlock) : entry = other :=
  List.inj_on_of_nodup_map cached.distinct member otherMember same

theorem find_member (cached : volume.Cached) (small : volume.root.blockCount < 2 ^ 32)
    {entry : CacheEntry} (member : entry ∈ volume.cacheEntries)
    (group : entry.firstBlock = groupStart block) : volume.findCacheEntry block = some entry := by
  cases found : volume.findCacheEntry block with
  | none => exact absurd group (cached.find_none small found entry member)
  | some other =>
      obtain ⟨otherMember, otherGroup⟩ := cached.find_some small found
      rw [cached.eq_of_first otherMember member (otherGroup.trans group.symm)]

theorem inMemory_member (cached : volume.Cached) (small : volume.root.blockCount < 2 ^ 32)
    {entry : CacheEntry} (member : entry ∈ volume.cacheEntries) (place : Nat) :
    volume.inMemory partition medium entry.firstBlock place = entry.buffer place := by
  have group := groupStart_self (cached.aligned entry member)
  unfold inMemory
  rw [cached.find_member small member group.symm]

theorem inMemory_uncached (missing : volume.findCacheEntry first = none) (place : Nat) :
    volume.inMemory partition medium first place =
      partition.disk.driver.content medium (partition.address first + place) := by
  unfold inMemory
  rw [missing]

end Cached

structure Loadable (partition : Partition Medium) (root : PupRoot) : Prop where
  readable : partition.disk.Readable
  holds : partition.Holds root.blockCount
  groups : root.blockCount % 4 = 0
  small : root.blockCount * 0x1000 < 2 ^ 32

theorem findOrLoad_root :
    (volume.findOrLoadCacheEntry partition medium memory block).2.root = volume.root := by
  unfold findOrLoadCacheEntry
  cases volume.findCacheEntry block with
  | some entry => rfl
  | none => rfl

theorem findOrLoad_blockBitmask :
    (volume.findOrLoadCacheEntry partition medium memory block).2.blockBitmask =
      volume.blockBitmask := by
  unfold findOrLoadCacheEntry
  cases volume.findCacheEntry block with
  | some entry => rfl
  | none => rfl

theorem stash_distinct (distinct : (volume.cacheEntries.map CacheEntry.firstBlock).Nodup)
    {entry : CacheEntry}
    (fresh : ∀ other ∈ volume.cacheEntries, other.firstBlock ≠ entry.firstBlock) :
    ((volume.stashCacheEntry entry).cacheEntries.map CacheEntry.firstBlock).Nodup := by
  unfold stashCacheEntry
  rw [List.map_append, List.nodup_append]
  refine ⟨distinct, List.nodup_singleton _, ?_⟩
  intro old oldMember new newMember same
  obtain ⟨other, member, rfl⟩ := List.mem_map.mp oldMember
  rw [List.map_singleton, List.mem_singleton] at newMember
  exact fresh other member (same.trans newMember)

section FindOrLoad

variable (loadable : Loadable partition volume.root) (inside : block < volume.root.blockCount)

include loadable inside

theorem loadedEntry_firstBlock :
    (volume.loadedEntry partition medium memory block).firstBlock = groupStart block := by
  have small := loadable.small
  exact and_groupMask (by omega)

theorem loadedEntry_buffer {place : Nat} (inGroup : place < 4 * 0x1000) :
    (volume.loadedEntry partition medium memory block).buffer place =
      partition.disk.driver.content medium (partition.address (groupStart block) + place) := by
  have first := @loadedEntry_firstBlock _ _ medium memory _ _ loadable inside
  have groupInside : groupStart block + 4 ≤ volume.root.blockCount := by
    have groups := loadable.groups
    unfold groupStart
    omega
  have read := Partition.readVolumeBlocks_spec loadable.readable loadable.holds loadable.small
    groupInside medium (memory.entryBuffer volume.cacheEntries.length)
  have buffer : (volume.loadedEntry partition medium memory block).buffer =
      partition.readVolumeBlocks medium 0x1000
        (volume.loadedEntry partition medium memory block).firstBlock 4
        (memory.entryBuffer volume.cacheEntries.length) := rfl
  rw [buffer, first, read]
  unfold fillBytes
  rw [if_pos (by omega), Nat.sub_zero]

theorem findOrLoad_mirrors (mirrors : volume.Mirrors partition medium) :
    (volume.findOrLoadCacheEntry partition medium memory block).2.Mirrors partition medium := by
  unfold findOrLoadCacheEntry
  cases volume.findCacheEntry block with
  | some entry => exact mirrors
  | none =>
      intro entry member place inGroup
      rcases List.mem_append.mp member with old | new
      · exact mirrors entry old place inGroup
      · rw [List.mem_singleton.mp new, loadedEntry_firstBlock loadable inside]
        exact loadedEntry_buffer loadable inside inGroup

variable (cached : volume.Cached)

include cached

theorem findOrLoad_entry :
    (volume.findOrLoadCacheEntry partition medium memory block).1 ∈
        (volume.findOrLoadCacheEntry partition medium memory block).2.cacheEntries ∧
      (volume.findOrLoadCacheEntry partition medium memory block).1.firstBlock =
        groupStart block := by
  have small := loadable.small
  unfold findOrLoadCacheEntry
  cases found : volume.findCacheEntry block with
  | some entry => exact cached.find_some (by omega) found
  | none =>
      constructor
      · exact List.mem_append_right _ (List.mem_singleton_self _)
      · exact loadedEntry_firstBlock loadable inside

/-- The returned entry holds what is in memory for its group. -/
theorem findOrLoad_buffer {place : Nat} (inGroup : place < 4 * 0x1000) :
    (volume.findOrLoadCacheEntry partition medium memory block).1.buffer place =
      volume.inMemory partition medium (groupStart block) place := by
  have small := loadable.small
  unfold findOrLoadCacheEntry
  cases found : volume.findCacheEntry block with
  | some entry =>
      obtain ⟨member, group⟩ := cached.find_some (by omega) found
      rw [← group, cached.inMemory_member (by omega) member]
  | none =>
      have missing : volume.findCacheEntry (groupStart block) = none := by
        cases other : volume.findCacheEntry (groupStart block) with
        | none => rfl
        | some entry =>
            obtain ⟨member, group⟩ := cached.find_some (by omega) other
            have aligned : groupStart block % 4 = 0 := by
              unfold groupStart
              omega
            rw [groupStart_self aligned] at group
            exact absurd group (cached.find_none (by omega) found entry member)
      rw [Cached.inMemory_uncached missing]
      exact loadedEntry_buffer loadable inside inGroup

theorem findOrLoad_cached :
    (volume.findOrLoadCacheEntry partition medium memory block).2.Cached := by
  have small := loadable.small
  unfold findOrLoadCacheEntry
  cases found : volume.findCacheEntry block with
  | some entry => exact cached
  | none =>
      have first := @loadedEntry_firstBlock _ _ medium memory _ _ loadable inside
      have fresh := cached.find_none (by omega) found
      constructor
      · intro entry member
        rcases List.mem_append.mp member with old | new
        · exact cached.aligned entry old
        · rw [List.mem_singleton.mp new, first]
          unfold groupStart
          omega
      · intro entry member
        rcases List.mem_append.mp member with old | new
        · exact cached.inside entry old
        · rw [List.mem_singleton.mp new, first]
          change groupStart block < volume.root.blockCount
          unfold groupStart
          omega
      · apply stash_distinct cached.distinct
        intro entry member
        rw [first]
        exact fresh entry member

end FindOrLoad

/-- A lookup does not change what is in memory. -/
theorem findOrLoad_inMemory (loadable : Loadable partition volume.root)
    (inside : block < volume.root.blockCount) (cached : volume.Cached) (aligned : first % 4 = 0)
    {place : Nat} (inGroup : place < 4 * 0x1000) :
    (volume.findOrLoadCacheEntry partition medium memory block).2.inMemory partition medium first
        place = volume.inMemory partition medium first place := by
  have small := loadable.small
  have after := @findOrLoad_cached _ _ medium memory _ _ loadable inside cached
  have root := @findOrLoad_root _ partition medium memory volume block
  unfold findOrLoadCacheEntry at after root ⊢
  cases found : volume.findCacheEntry block with
  | some entry => rfl
  | none =>
      rw [found] at after root
      cases old : volume.findCacheEntry first with
      | some entry =>
          obtain ⟨member, group⟩ := cached.find_some (by omega) old
          rw [groupStart_self aligned] at group
          rw [← group, cached.inMemory_member (by omega) member]
          apply after.inMemory_member
          · rw [root]
            omega
          · exact List.mem_append_left _ member
      | none =>
          rw [Cached.inMemory_uncached old]
          by_cases loaded : groupStart block = first
          · have entry := @loadedEntry_firstBlock _ _ medium memory _ _ loadable inside
            have buffer := @loadedEntry_buffer _ _ medium memory _ _ loadable inside _ inGroup
            rw [loaded] at entry buffer
            rw [← entry] at buffer ⊢
            rw [← buffer]
            apply after.inMemory_member
            · rw [root]
              omega
            · exact List.mem_append_right _ (List.mem_singleton_self _)
          · apply Cached.inMemory_uncached
            apply List.find?_eq_none.mpr
            intro entry member covered
            have entryInside := after.inside entry member
            rw [root] at entryInside
            have group := (covers_iff (after.aligned entry member) (by omega)).mp covered
            rw [groupStart_self aligned] at group
            rcases List.mem_append.mp member with stashed | new
            · have apart := cached.find_none (by omega) old entry stashed
              rw [groupStart_self aligned] at apart
              exact apart group
            · rw [List.mem_singleton.mp new, loadedEntry_firstBlock loadable inside] at group
              exact loaded group

section ChangeByte

variable {place offset : Nat} {byte : UInt8}

theorem changeByte_firstBlocks :
    (volume.changeByte place offset byte).cacheEntries.map CacheEntry.firstBlock =
      volume.cacheEntries.map CacheEntry.firstBlock := by
  apply List.ext_getElem?
  intro index
  unfold changeByte
  rw [List.getElem?_map, List.getElem?_map]
  by_cases here : place = index
  · rw [here, List.getElem?_modify_eq]
    cases volume.cacheEntries[index]? with
    | none => rfl
    | some entry => rfl
  · rw [List.getElem?_modify_ne _ _ here]

theorem Cached.changeByte (cached : volume.Cached) :
    (volume.changeByte place offset byte).Cached := by
  have kept : ∀ entry ∈ (volume.changeByte place offset byte).cacheEntries,
      ∃ old ∈ volume.cacheEntries, old.firstBlock = entry.firstBlock := by
    intro entry member
    have inMap := List.mem_map_of_mem (f := CacheEntry.firstBlock) member
    rw [changeByte_firstBlocks] at inMap
    exact List.mem_map.mp inMap
  constructor
  · intro entry member
    obtain ⟨old, oldMember, same⟩ := kept entry member
    rw [← same]
    exact cached.aligned old oldMember
  · intro entry member
    obtain ⟨old, oldMember, same⟩ := kept entry member
    rw [← same]
    exact cached.inside old oldMember
  · rw [changeByte_firstBlocks]
    exact cached.distinct

theorem changeByte_inMemory (cached : volume.Cached) (small : volume.root.blockCount < 2 ^ 32)
    {entry : CacheEntry} (here : volume.cacheEntries[place]? = some entry)
    (aligned : first % 4 = 0) (inner : Nat) :
    (volume.changeByte place offset byte).inMemory partition medium first inner =
      if first = entry.firstBlock ∧ inner = offset then byte
      else volume.inMemory partition medium first inner := by
  have after : (volume.changeByte place offset byte).Cached := cached.changeByte
  have entryMember := List.mem_of_getElem? here
  cases old : volume.findCacheEntry first with
  | some found =>
      obtain ⟨member, group⟩ := cached.find_some small old
      rw [groupStart_self aligned] at group
      rw [← group, cached.inMemory_member small member]
      by_cases same : found.firstBlock = entry.firstBlock
      · have isEntry := cached.eq_of_first member entryMember same
        have changed : { entry with buffer := Function.update entry.buffer offset byte } ∈
            (volume.changeByte place offset byte).cacheEntries := by
          apply List.mem_of_getElem? (i := place)
          unfold PupVolume.changeByte
          rw [List.getElem?_modify_eq, here]
          rfl
        rw [isEntry]
        change (volume.changeByte place offset byte).inMemory partition medium
          ({ entry with buffer := Function.update entry.buffer offset byte } :
            CacheEntry).firstBlock inner = _
        rw [after.inMemory_member small changed]
        by_cases atOffset : inner = offset
        · rw [if_pos ⟨rfl, atOffset⟩, atOffset]
          exact Function.update_self offset byte entry.buffer
        · rw [if_neg (fun both => atOffset both.2)]
          exact Function.update_of_ne atOffset byte entry.buffer
      · have kept : found ∈ (volume.changeByte place offset byte).cacheEntries := by
          obtain ⟨index, atIndex⟩ := List.mem_iff_getElem?.mp member
          have apart : place ≠ index := by
            intro equal
            rw [← equal, here] at atIndex
            exact same (congrArg CacheEntry.firstBlock (Option.some.inj atIndex)).symm
          apply List.mem_of_getElem? (i := index)
          unfold PupVolume.changeByte
          rw [List.getElem?_modify_ne _ _ apart]
          exact atIndex
        rw [after.inMemory_member small kept, if_neg (fun both => same both.1)]
  | none =>
      have apart := cached.find_none small old
      rw [groupStart_self aligned] at apart
      have missing : (volume.changeByte place offset byte).findCacheEntry first = none := by
        cases new : (volume.changeByte place offset byte).findCacheEntry first with
        | none => rfl
        | some found =>
            obtain ⟨member, group⟩ := after.find_some small new
            rw [groupStart_self aligned] at group
            have inMap := List.mem_map_of_mem (f := CacheEntry.firstBlock) member
            rw [changeByte_firstBlocks] at inMap
            obtain ⟨other, otherMember, same⟩ := List.mem_map.mp inMap
            exact absurd (same.trans group) (apart other otherMember)
      rw [Cached.inMemory_uncached old, Cached.inMemory_uncached missing,
        if_neg (fun both => apart entry entryMember both.1.symm)]

end ChangeByte

theorem Cached.inMemory_mirrors (cached : volume.Cached) (small : volume.root.blockCount < 2 ^ 32)
    (mirrors : volume.Mirrors partition medium) (aligned : first % 4 = 0) {place : Nat}
    (inGroup : place < 4 * 0x1000) :
    volume.inMemory partition medium first place =
      partition.disk.driver.content medium (partition.address first + place) := by
  cases found : volume.findCacheEntry first with
  | none => exact Cached.inMemory_uncached found place
  | some entry =>
      obtain ⟨member, group⟩ := cached.find_some small found
      rw [groupStart_self aligned] at group
      rw [← group, cached.inMemory_member small member, mirrors entry member place inGroup]

end PupVolume

end DoggOS.Fs

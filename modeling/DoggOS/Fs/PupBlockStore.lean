/-
A Pup volume is a store of blocks.

Blocks are read and changed through the cache, blocks are allocated, and the
volume is unmounted and mounted again at any time.  Over any number of mounts
the volume refines a plain store: each byte of a block has its last value, and a
block that was allocated once is not allocated again.
-/

import DoggOS.Fs.PupBitmap
import DoggOS.Fs.PupRemount
import DoggOS.Library.BlockStores

namespace DoggOS.Fs

open PupVolume

variable {Medium : Type*}

/-- A mounted volume, its disk, and what fresh memory held at its mount. -/
structure MountedVolume (Medium : Type*) where
  medium : Medium
  memory : FreshMemory
  volume : PupVolume

def PupRoot.HasByte (root : PupRoot) (key : Nat × Nat) : Prop :=
  key.1 < root.blockCount ∧ ¬ root.IsBitmask key.1 ∧ key.2 < 0x1000

theorem PupRoot.HasByte.inGroup {root : PupRoot} {key : Nat × Nat} (has : root.HasByte key) :
    key.1 % 4 * 0x1000 + key.2 < 4 * 0x1000 := by
  have inBlock := has.2.2
  omega

def PupRoot.slotBlock (root : PupRoot) : Option Nat → Nat
  | some slot => root.allocStart + slot
  | none => nullLink

/-- The offset of `k_fs_PupGetBlock`. -/
def CacheEntry.blockOffset (entry : CacheEntry) (block : Nat) : Nat :=
  (block + 2 ^ 64 - entry.firstBlock) % 2 ^ 64 * 0x1000 % 2 ^ 32

namespace MountedVolume

variable (partition : Partition Medium)

/-- `k_fs_PupMountVolume` -/
def mount (medium : Medium) (memory : FreshMemory) : MountedVolume Medium where
  medium := medium
  memory := memory
  volume := mountVolume partition medium memory

/-- `k_fs_PupFindOrLoadCacheEntry` -/
def load (mounted : MountedVolume Medium) (block : Nat) : CacheEntry × PupVolume :=
  mounted.volume.findOrLoadCacheEntry partition mounted.medium mounted.memory block

/-- A byte at the pointer of `k_fs_PupGetBlock` is read or written, `k_fs_PupAllocBlock`, and
`k_fs_PupUnmountVolume` with the `k_fs_PupMountVolume` after it. -/
def machine (root : PupRoot) (start : MountedVolume Medium → Prop) :
    Machine (MountedVolume Medium) (StoreCall (Nat × Nat) UInt8) where
  start := start
  step before call after :=
    match call with
    | .read key byte => root.HasByte key ∧
        (before.load partition key.1).1.getBlock key.1 key.2 = byte ∧
        after = { before with volume := (before.load partition key.1).2 }
    | .write key byte => root.HasByte key ∧ key.1 ≠ 0 ∧
        ∃ place, (before.load partition key.1).2.cacheEntries[place]? =
            some (before.load partition key.1).1 ∧
          after = { before with
            volume := (before.load partition key.1).2.changeByte place
              ((before.load partition key.1).1.blockOffset key.1 + key.2) byte }
    | .alloc slot => ∃ volume, before.volume.allocBlock = some (root.slotBlock slot, volume) ∧
        after = { before with volume := volume }
    | .restart => ∃ later,
        after = mount partition (before.volume.unmountVolume partition before.medium) later

def onDisk (medium : Medium) (key : Nat × Nat) : UInt8 :=
  partition.disk.driver.content medium
    (partition.address (groupStart key.1) + (key.1 % 4 * 0x1000 + key.2))

/-- The store shows what the volume holds in memory. -/
structure Shows (root : PupRoot) (mounted : MountedVolume Medium)
    (store : Store (Nat × Nat) UInt8) : Prop where
  pup : partition.HasPup mounted.medium
  record : mounted.volume.root = root
  held : mounted.volume.Held partition mounted.medium
  contents : ∀ key, root.HasByte key → store.contents key =
    mounted.volume.inMemory partition mounted.medium (groupStart key.1) (key.1 % 4 * 0x1000 + key.2)
  used : ∀ slot < root.blockCount - root.allocStart, store.used slot = mounted.volume.isSet slot

section Steps

variable {partition : Partition Medium} {root : PupRoot} {before after : MountedVolume Medium}
  {store : Store (Nat × Nat) UInt8} {key : Nat × Nat} {byte : UInt8}

theorem Shows.loadable (shows : Shows partition root before store)
    (readable : partition.disk.Readable) : Loadable partition before.volume.root := by
  rw [shows.held.root]
  exact shows.pup.loadable readable

theorem Shows.small (shows : Shows partition root before store) :
    root.blockCount * 0x1000 < 2 ^ 32 := by
  rw [← shows.record, shows.held.root]
  exact shows.pup.wellFormed.small

/-- A load changes nothing that can be seen. -/
theorem Shows.load (shows : Shows partition root before store) (readable : partition.disk.Readable)
    {block : Nat} (inside : block < root.blockCount) :
    Shows partition root { before with volume := (before.load partition block).2 } store := by
  have loadable := shows.loadable readable
  have inside' : block < before.volume.root.blockCount := by
    rw [shows.record]
    exact inside
  have moved : (cacheMachine partition before.medium before.memory).step before.volume
      (.findOrLoad block) (before.load partition block).2 := ⟨inside', rfl⟩
  constructor
  · exact shows.pup
  · exact findOrLoad_root.trans shows.record
  · exact shows.held.step shows.pup readable moved
  · intro key has
    rw [shows.contents key has]
    symm
    apply findOrLoad_inMemory loadable inside' shows.held.cached
    · exact Nat.mul_mod_left _ 4
    · exact has.inGroup
  · intro slot small
    rw [shows.used slot small]
    unfold PupVolume.isSet MountedVolume.load
    rw [findOrLoad_blockBitmask]

theorem Shows.load_entry (shows : Shows partition root before store)
    (readable : partition.disk.Readable) {block : Nat} (inside : block < root.blockCount) :
    (before.load partition block).1.firstBlock = groupStart block ∧
      (before.load partition block).1.blockOffset block = block % 4 * 0x1000 := by
  have inside' : block < before.volume.root.blockCount := by
    rw [shows.record]
    exact inside
  have small := shows.small
  have group : (before.load partition block).1.firstBlock = groupStart block :=
    (findOrLoad_entry (shows.loadable readable) inside' shows.held.cached).2
  refine ⟨group, ?_⟩
  unfold CacheEntry.blockOffset
  rw [group]
  unfold groupStart
  omega

theorem Shows.load_place (shows : Shows partition root before store)
    (readable : partition.disk.Readable) {block : Nat} (inside : block < root.blockCount) :
    ∃ place : Nat, (before.load partition block).2.cacheEntries[place]? =
      some (before.load partition block).1 := by
  have inside' : block < before.volume.root.blockCount := by
    rw [shows.record]
    exact inside
  exact List.getElem?_of_mem
    (findOrLoad_entry (shows.loadable readable) inside' shows.held.cached).1

theorem Shows.read (shows : Shows partition root before store) (readable : partition.disk.Readable)
    (has : root.HasByte key) :
    (before.load partition key.1).1.getBlock key.1 key.2 = store.contents key := by
  have inside : key.1 < before.volume.root.blockCount := by
    rw [shows.record]
    exact has.1
  rw [shows.contents key has]
  change before.volume.readThrough partition before.medium before.memory key.1 key.2 = _
  exact shows.held.readThrough shows.pup readable inside has.2.2

theorem Shows.write (shows : Shows partition root before store) (readable : partition.disk.Readable)
    (has : root.HasByte key) (notRoot : key.1 ≠ 0) {place : Nat}
    (here : (before.load partition key.1).2.cacheEntries[place]? =
      some (before.load partition key.1).1) :
    Shows partition root
      { before with
        volume := (before.load partition key.1).2.changeByte place
          ((before.load partition key.1).1.blockOffset key.1 + key.2) byte }
      { store with contents := Function.update store.contents key byte } := by
  have loaded := shows.load readable has.1
  obtain ⟨group, offset⟩ := shows.load_entry readable has.1
  have small := shows.small
  have inBlock := has.2.2
  have sum : groupStart key.1 + (key.1 % 4 * 0x1000 + key.2) / 0x1000 = key.1 := by
    unfold groupStart
    omega
  have record : (before.load partition key.1).2.root = root := loaded.record
  have moved : (cacheMachine partition before.medium before.memory).step
      (before.load partition key.1).2
      (.change place ((before.load partition key.1).1.blockOffset key.1 + key.2) byte)
      ((before.load partition key.1).2.changeByte place
        ((before.load partition key.1).1.blockOffset key.1 + key.2) byte) := by
    refine ⟨_, here, ?_, ?_, ?_, rfl⟩
    · omega
    · rw [offset, group, sum]
      exact notRoot
    · rw [offset, group, sum, record]
      exact has.2.1
  constructor
  · exact shows.pup
  · exact loaded.record
  · exact Held.step shows.pup readable loaded.held moved
  · intro other otherHas
    have smallRoot : (before.load partition key.1).2.root.blockCount < 2 ^ 32 := by
      rw [record]
      omega
    have otherInBlock := otherHas.2.2
    change Function.update store.contents key byte other = inMemory partition before.medium
      ((before.load partition key.1).2.changeByte place
        ((before.load partition key.1).1.blockOffset key.1 + key.2) byte)
      (groupStart other.1) (other.1 % 4 * 0x1000 + other.2)
    have aligned : groupStart other.1 % 4 = 0 := Nat.mul_mod_left _ 4
    have cached : (before.load partition key.1).2.Cached := loaded.held.cached
    rw [changeByte_inMemory cached smallRoot here aligned, group, offset, Function.update_apply]
    by_cases same : other = key
    · rw [if_pos same, if_pos ⟨by rw [same], by rw [same]⟩]
    · have different : ¬ (groupStart other.1 = groupStart key.1 ∧
          other.1 % 4 * 0x1000 + other.2 = key.1 % 4 * 0x1000 + key.2) := by
        rintro ⟨groups, offsets⟩
        apply same
        unfold groupStart at groups
        apply Prod.ext
        · omega
        · omega
      rw [if_neg same, if_neg different]
      exact loaded.contents other otherHas
  · exact loaded.used

theorem Shows.sized (shows : Shows partition root before store) : before.volume.Sized := by
  have wellFormed := shows.pup.wellFormed
  rw [← shows.held.root] at wellFormed
  have small := wellFormed.small
  exact ⟨wellFormed.allocStart, by omega⟩

theorem Shows.searchCount (shows : Shows partition root before store) :
    before.volume.searchCount = root.blockCount - root.allocStart := by
  have small := shows.small
  rw [shows.sized.searchCount]
  unfold allocatable
  rw [shows.record]
  exact Nat.mod_eq_of_lt (by omega)

theorem Shows.mark (shows : Shows partition root before store) {volume : PupVolume}
    {used : Nat → Bool} (sameRoot : volume.root = before.volume.root)
    (entries : volume.cacheEntries = before.volume.cacheEntries)
    (marks : ∀ slot < root.blockCount - root.allocStart, used slot = volume.isSet slot) :
    Shows partition root { before with volume := volume } { store with used := used } := by
  have memorySame : ∀ first place, volume.inMemory partition before.medium first place =
      before.volume.inMemory partition before.medium first place := by
    intro first place
    unfold inMemory findCacheEntry
    rw [entries]
  obtain ⟨aligned, inside, distinct⟩ := shows.held.cached
  constructor
  · exact shows.pup
  · exact sameRoot.trans shows.record
  · constructor
    · exact sameRoot.trans shows.held.root
    · constructor
      · rw [entries]
        exact aligned
      · rw [entries, sameRoot]
        exact inside
      · rw [entries]
        exact distinct
    · intro place inBlock
      rw [memorySame]
      exact shows.held.rootBlock place inBlock
  · intro key has
    rw [memorySame]
    exact shows.contents key has
  · exact marks

theorem Shows.alloc (shows : Shows partition root before store) (start : 1 ≤ root.allocStart)
    {slots : Nat} (isSlots : slots = root.blockCount - root.allocStart)
    {stores : Store (Nat × Nat) UInt8 → Prop} {slot : Option Nat} {volume : PupVolume}
    (ran : before.volume.allocBlock = some (root.slotBlock slot, volume)) :
    ∃ store', (Store.machine slots stores).step store (.alloc slot) store' ∧
      Shows partition root { before with volume := volume } store' := by
  have count := shows.searchCount
  have record := shows.record
  rcases allocBlock_spec shows.sized with ⟨found, inside, clear, lower, found_eq⟩ | ⟨full, null⟩
  · rw [ran, Option.some_inj, Prod.mk.injEq, record] at found_eq
    obtain ⟨block, volume_eq⟩ := found_eq
    cases slot with
    | none =>
        change nullLink = root.allocStart + found at block
        unfold nullLink at block
        omega
    | some slot =>
        have same : slot = found := Nat.add_left_cancel block
        rw [count] at inside
        rw [same, volume_eq, isSlots]
        refine ⟨{ store with used := Function.update store.used found true },
          ⟨inside, ?_, ?_, rfl⟩, shows.mark rfl rfl ?_⟩
        · rw [shows.used found inside]
          exact clear
        · intro other less
          rw [shows.used other (by omega)]
          exact lower other less
        · intro other small
          rw [isSet_take, Function.update_apply, shows.used other small]
          by_cases here : other = found
          · rw [if_pos here, here, decide_eq_true rfl, Bool.or_true]
          · rw [if_neg here, decide_eq_false (Ne.symm here), Bool.or_false]
  · rw [ran, Option.some_inj, Prod.mk.injEq] at null
    obtain ⟨block, volume_eq⟩ := null
    cases slot with
    | some slot =>
        change root.allocStart + slot = nullLink at block
        unfold nullLink at block
        omega
    | none =>
        rw [volume_eq, isSlots]
        refine ⟨store, ⟨?_, rfl⟩, shows⟩
        intro other small
        rw [shows.used other small]
        exact full other (by rw [count]; exact small)

/-- The disk has all of the volume after an unmount. -/
theorem Shows.restart (shows : Shows partition root before store)
    (writable : partition.disk.Writable) (later : FreshMemory) :
    Shows partition root
      (mount partition (before.volume.unmountVolume partition before.medium) later) store := by
  have readable := writable.readable
  have pup := shows.pup
  have held := shows.held
  have sameRoot := held.unmount_root pup writable
  have again : partition.HasPup (before.volume.unmountVolume partition before.medium) := by
    constructor
    · rw [sameRoot]
      exact pup.wellFormed
    · rw [sameRoot]
      exact pup.holds
  obtain ⟨mountedRoot, cached, mirrors, blockBitmask⟩ := @again.mounted _ _ _ later readable
  rw [sameRoot, ← held.root, shows.record] at mountedRoot blockBitmask
  have small := shows.small
  have bits := pup.wellFormed.bits
  rw [← held.root, shows.record] at bits
  constructor
  · exact again
  · exact mountedRoot
  · exact Held.start again readable
  · intro key has
    have smallRoot : (mountVolume partition (before.volume.unmountVolume partition before.medium)
        later).root.blockCount < 2 ^ 32 := by
      rw [mountedRoot]
      omega
    have aligned : groupStart key.1 % 4 = 0 := Nat.mul_mod_left _ 4
    have has' := has
    rw [← shows.record] at has'
    have reads := cached.inMemory_mirrors smallRoot mirrors aligned has.inGroup
    rw [shows.contents key has, ← held.unmount_block pup writable has'.1 has'.2.1 has'.2.2]
    exact reads.symm
  · intro slot inside
    have inBitmap : slot / 8 < root.bitmaskBlockCount * 0x1000 := by omega
    have written : (mountVolume partition (before.volume.unmountVolume partition before.medium)
        later).blockBitmask (slot / 8) = before.volume.blockBitmask (slot / 8) := by
      rw [blockBitmask _ inBitmap, ← shows.record]
      apply held.unmount_bitmask pup writable
      rw [shows.record]
      exact inBitmap
    rw [shows.used slot inside]
    change bitAt _ slot = bitAt (mountVolume partition (before.volume.unmountVolume partition
      before.medium) later).blockBitmask slot
    unfold bitAt
    rw [written]

end Steps

section Runs

variable {partition : Partition Medium} {root : PupRoot}

def diskStore (partition : Partition Medium) (medium : Medium) : Store (Nat × Nat) UInt8 where
  contents := onDisk partition medium
  used slot := bitAt (fun place => partition.disk.driver.content medium
    (partition.address (partition.rootOn medium).bitmaskStart + place)) slot

theorem mount_shows {medium : Medium} (pup : partition.HasPup medium)
    (readable : partition.disk.Readable) (memory : FreshMemory) :
    Shows partition (partition.rootOn medium) (mount partition medium memory)
      (diskStore partition medium) := by
  obtain ⟨mountedRoot, cached, mirrors, blockBitmask⟩ := @pup.mounted _ _ _ memory readable
  have small := pup.wellFormed.small
  have bits := pup.wellFormed.bits
  constructor
  · exact pup
  · exact mountedRoot
  · exact Held.start pup readable
  · intro key has
    have smallRoot : (mountVolume partition medium memory).root.blockCount < 2 ^ 32 := by
      rw [mountedRoot]
      omega
    have aligned : groupStart key.1 % 4 = 0 := Nat.mul_mod_left _ 4
    have reads := cached.inMemory_mirrors smallRoot mirrors aligned has.inGroup
    exact reads.symm
  · intro slot inside
    have written := blockBitmask (slot / 8) (by omega)
    unfold diskStore PupVolume.isSet bitAt
    exact congrArg (fun byte : UInt8 => byte.toBitVec.getLsbD (slot % 8)) written.symm

theorem refines_store {medium : Medium} (pup : partition.HasPup medium)
    (writable : partition.disk.Writable) (isRoot : root = partition.rootOn medium)
    (start : 1 ≤ root.allocStart) :
    (machine partition root fun mounted => ∃ memory, mounted = mount partition medium memory).Refines
      (Store.machine (root.blockCount - root.allocStart)
        fun store => store = diskStore partition medium)
      (Shows partition root) := by
  have readable := writable.readable
  constructor
  · rintro mounted ⟨memory, isMounted⟩
    rw [isMounted, isRoot]
    exact ⟨_, rfl, mount_shows pup readable memory⟩
  · intro before store label after shows step
    cases label with
    | read key byte =>
        obtain ⟨has, reads, isAfter⟩ := step
        rw [isAfter]
        exact ⟨store, ⟨(shows.read readable has).symm.trans reads, rfl⟩,
          shows.load readable has.1⟩
    | write key byte =>
        obtain ⟨has, notRoot, place, here, isAfter⟩ := step
        rw [isAfter]
        exact ⟨_, rfl, shows.write readable has notRoot here⟩
    | alloc slot =>
        obtain ⟨volume, ran, isAfter⟩ := step
        rw [isAfter]
        exact shows.alloc start rfl ran
    | restart =>
        obtain ⟨later, isAfter⟩ := step
        rw [isAfter]
        exact ⟨store, rfl, shows.restart writable later⟩

/-- What a run of calls on a volume gives back. -/
structure Stores (partition : Partition Medium) (medium : Medium)
    (calls : List (StoreCall (Nat × Nat) UInt8)) : Prop where
  reads : ∀ earlier key byte later, calls = earlier ++ .read key byte :: later →
    byte = Store.written (onDisk partition medium) earlier key
  allocs : (Store.handedOut calls).Nodup
  free : ∀ slot ∈ Store.handedOut calls,
    slot < (partition.rootOn medium).blockCount - (partition.rootOn medium).allocStart ∧
      (diskStore partition medium).used slot = false

/-- Over any number of mounts, a byte that is read is the one that was last written, or else the
one on the disk at the start, and each allocation gives another block that was free there. -/
theorem volume_stores (partition : Partition Medium) (medium : Medium)
    (writable : partition.disk.Writable) (pup : partition.HasPup medium)
    (start : 1 ≤ (partition.rootOn medium).allocStart) (memory : FreshMemory)
    (starts : MountedVolume Medium → Prop) (calls : List (StoreCall (Nat × Nat) UInt8))
    (last : MountedVolume Medium)
    (run : (machine partition (partition.rootOn medium) starts).Run
      (mount partition medium memory) calls last) :
    Stores partition medium calls := by
  have refines := refines_store pup writable rfl start
  have shows := mount_shows pup writable.readable memory
  have run' : (machine partition (partition.rootOn medium) fun mounted =>
      ∃ memory, mounted = mount partition medium memory).Run (mount partition medium memory) calls
        last := by
    induction run with
    | nil => exact .nil
    | snoc _ step ih => exact ih.snoc step
  obtain ⟨store, abstractRun, _⟩ := refines.run shows run'
  obtain ⟨_, nodup, free⟩ := Store.run_hands abstractRun
  refine ⟨?_, nodup, free⟩
  intro earlier key byte later isCalls
  rw [isCalls] at abstractRun
  exact Store.run_reads abstractRun

/-- A byte that is written is read after the next mount. -/
theorem volume_stores_remounted : ∃ value, value = 42 ∧
    Stores (samplePartition .ram) sampleMedium
      [.alloc (some 0), .write (5, 7) 42, .restart, .read (5, 7) value] := by
  have writable : (samplePartition .ram).disk.Writable := Or.inl rfl
  have pup := samplePartition_hasPup .ram
  have start : 1 ≤ ((samplePartition .ram).rootOn sampleMedium).allocStart := by
    rw [samplePartition_rootOn]
    decide
  have has : ((samplePartition .ram).rootOn sampleMedium).HasByte (5, 7) := by
    rw [samplePartition_rootOn]
    refine ⟨by decide, ?_, by decide⟩
    unfold PupRoot.IsBitmask
    decide
  have slots : 0 < ((samplePartition .ram).rootOn sampleMedium).blockCount -
      ((samplePartition .ram).rootOn sampleMedium).allocStart := by
    rw [samplePartition_rootOn]
    decide
  have shows := mount_shows pup writable.readable sampleMemory
  have free : (mount (samplePartition .ram) sampleMedium sampleMemory).volume.isSet 0 = false := by
    rw [← shows.used 0 slots]
    decide +kernel
  obtain ⟨volume, ran⟩ : ∃ volume,
      (mount (samplePartition .ram) sampleMedium sampleMemory).volume.allocBlock =
        some (((samplePartition .ram).rootOn sampleMedium).slotBlock (some 0), volume) := by
    rcases allocBlock_spec shows.sized with ⟨found, _, _, lower, ran⟩ | ⟨full, _⟩
    · have first : found = 0 := by
        by_contra later
        rw [lower 0 (Nat.pos_of_ne_zero later)] at free
        cases free
      rw [shows.record, first] at ran
      exact ⟨_, ran⟩
    · rw [full 0 (by rw [shows.searchCount]; exact slots)] at free
      cases free
  obtain ⟨_, _, allocated⟩ : ∃ store', (Store.machine _ fun _ => True).step
      (diskStore (samplePartition .ram) sampleMedium) (.alloc (some 0)) store' ∧
        Shows (samplePartition .ram) ((samplePartition .ram).rootOn sampleMedium)
          { mount (samplePartition .ram) sampleMedium sampleMemory with volume := volume } store' :=
    shows.alloc start rfl ran
  obtain ⟨place, here⟩ := allocated.load_place writable.readable has.1
  have allocate : (machine (samplePartition .ram) ((samplePartition .ram).rootOn sampleMedium)
      fun _ => True).step (mount (samplePartition .ram) sampleMedium sampleMemory) (.alloc (some 0))
        { mount (samplePartition .ram) sampleMedium sampleMemory with volume := volume } :=
    ⟨volume, ran, rfl⟩
  obtain ⟨written, write⟩ : ∃ written, (machine (samplePartition .ram)
      ((samplePartition .ram).rootOn sampleMedium) fun _ => True).step
        { mount (samplePartition .ram) sampleMedium sampleMemory with volume := volume }
        (.write (5, 7) 42) written :=
    ⟨_, has, by decide, place, here, rfl⟩
  obtain ⟨again, remount⟩ : ∃ again, (machine (samplePartition .ram)
      ((samplePartition .ram).rootOn sampleMedium) fun _ => True).step written .restart again :=
    ⟨_, sampleMemory, rfl⟩
  obtain ⟨value, last, read⟩ : ∃ value last, (machine (samplePartition .ram)
      ((samplePartition .ram).rootOn sampleMedium) fun _ => True).step again (.read (5, 7) value)
        last :=
    ⟨_, _, has, rfl, rfl⟩
  have stores := volume_stores (samplePartition .ram) sampleMedium writable pup start sampleMemory
    _ _ _ (.snoc (.snoc (.snoc (.snoc .nil allocate) write) remount) read)
  exact ⟨value, stores.reads [.alloc (some 0), .write (5, 7) 42, .restart] (5, 7) value [] rfl,
    stores⟩

end Runs

end MountedVolume

end DoggOS.Fs

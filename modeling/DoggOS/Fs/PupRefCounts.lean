/-
The reference counts of cached entries.

An entry is named by its place in the set, which it keeps.  The lookup counts an
entry up that it finds; the load of an entry that it does not find counts
nothing, and the release of an entry whose count is zero is silent.  `held` is a
history that the code does not keep: how often an entry was returned to a caller
and not released since.
-/

import DoggOS.Fs.PupReads

namespace DoggOS.Fs

open PupVolume

variable {Medium : Type*}

/-- A volume with `ref_count` of each entry of its set. -/
structure CountedCache where
  volume : PupVolume
  refCounts : Nat → Nat

namespace CountedCache

variable (partition : Partition Medium) (medium : Medium) (memory : FreshMemory)

/-- `k_fs_PupAcquireEntry` -/
def acquireEntry (cache : CountedCache) : Option Nat → CountedCache
  | some place => { cache with
      refCounts := Function.update cache.refCounts place ((cache.refCounts place + 1) % 2 ^ 32) }
  | none => cache

/-- `k_fs_PupReleaseEntry` -/
def releaseEntry (cache : CountedCache) (place : Nat) : CountedCache :=
  if cache.refCounts place ≠ 0 then
    { cache with
      refCounts := Function.update cache.refCounts place
        ((cache.refCounts place + (2 ^ 32 - 1)) % 2 ^ 32) }
  else cache

/-- The entry at which the loop of `k_fs_PupFindCacheEntry` stops. -/
def placeOf (cache : CountedCache) (block : Nat) : Option Nat :=
  cache.volume.cacheEntries.findIdx? fun entry => entry.covers block

/-- `k_fs_PupFindCacheEntry` -/
def findCacheEntry (cache : CountedCache) (block : Nat) : Option Nat × CountedCache :=
  (cache.placeOf block, cache.acquireEntry (cache.placeOf block))

/-- `k_fs_PupFindOrLoadCacheEntry`; `k_fs_PupAllocCacheEntry` clears the count. -/
def findOrLoadCacheEntry (cache : CountedCache) (block : Nat) : Nat × CountedCache :=
  match cache.findCacheEntry block with
  | (some place, cache) => (place, cache)
  | (none, cache) =>
      let place := cache.volume.cacheEntries.length
      (place,
        { volume := cache.volume.stashCacheEntry
            (cache.volume.loadedEntry partition medium memory block)
          refCounts := Function.update cache.refCounts place 0 })

/-- A turn of the loop of `k_fs_PupRead`; the entry is released after the copy. -/
def readTurn (lastBlock : Nat) : BlockRead × (Nat → Nat) → Option (BlockRead × (Nat → Nat))
  | (read, refCounts) =>
      let found := findOrLoadCacheEntry partition medium memory ⟨read.volume, refCounts⟩
        read.firstBlock
      (PupVolume.readTurn partition medium memory lastBlock read).map fun next =>
        (next, (found.2.releaseEntry found.1).refCounts)

/-- `k_fs_PupRead` -/
def pupRead (cache : CountedCache) (firstBlock blockCount : Nat) (buffer : Bytes) :
    Option CountedCache :=
  if blockCount > 0 then
    let lastBlock := (firstBlock + blockCount) % 2 ^ 64
    (whileLoop (readTurn partition medium memory lastBlock) (blockCount + 1)
      ({ firstBlock := firstBlock, blockCount := blockCount, bufferCursor := 0, buffer := buffer,
         volume := cache.volume }, cache.refCounts)).map fun result =>
      ⟨result.1.volume, result.2⟩
  else some cache

end CountedCache

inductive CountedCall where
  | find (block : Nat)
  | findOrLoad (block : Nat)
  | read (firstBlock blockCount : Nat) (buffer : Bytes)
  | release (place : Nat)

structure CacheRun where
  cache : CountedCache
  held : Nat → Nat

namespace CacheRun

def returned (run : CacheRun) : Option Nat × CountedCache → CacheRun
  | (some place, cache) => ⟨cache, Function.update run.held place (run.held place + 1)⟩
  | (none, cache) => ⟨cache, run.held⟩

def release (run : CacheRun) (place : Nat) : CacheRun :=
  ⟨run.cache.releaseEntry place, Function.update run.held place (run.held place - 1)⟩

/-- The count of an entry is how often it is held; what is held has a count. -/
structure Counted (run : CacheRun) : Prop where
  counts : ∀ place, place < run.cache.volume.cacheEntries.length →
    run.cache.refCounts place = run.held place
  nonzero : ∀ place, 0 < run.held place → run.cache.refCounts place ≠ 0

end CacheRun

/-- One thread; only entries that are held are released.  A read holds an entry between its lookup
and its release, and none afterwards. -/
def countedMachine (partition : Partition Medium) (medium : Medium) (memory : FreshMemory) :
    Machine CacheRun CountedCall where
  start run := (∀ place, run.cache.refCounts place = 0) ∧ ∀ place, run.held place = 0
  step before label after :=
    match label with
    | .find block => after = before.returned (before.cache.findCacheEntry block)
    | .findOrLoad block =>
        let found := before.cache.findOrLoadCacheEntry partition medium memory block
        after = before.returned (some found.1, found.2)
    | .read firstBlock blockCount buffer =>
        ∃ cache, before.cache.pupRead partition medium memory firstBlock blockCount buffer =
          some cache ∧ after = ⟨cache, before.held⟩
    | .release place => 0 < before.held place ∧ after = before.release place

/-- No count is at its limit, and a lookup with a load finds the block cached. -/
def FindsCached (run : CacheRun) (label : CountedCall) : Prop :=
  (∀ place, run.cache.refCounts place + 1 < 2 ^ 32) ∧
    match label with
    | .findOrLoad block => ∃ entry ∈ run.cache.volume.cacheEntries, entry.covers block = true
    | .find _ | .read _ _ _ | .release _ => True

namespace CountedCache

variable {partition : Partition Medium} {medium : Medium} {memory : FreshMemory}
  {cache : CountedCache} {block place : Nat}

theorem placeOf_none_iff : cache.placeOf block = none ↔ cache.volume.findCacheEntry block = none := by
  unfold placeOf PupVolume.findCacheEntry
  rw [List.findIdx?_eq_none_iff, List.find?_eq_none]
  simp only [Bool.not_eq_true]

theorem placeOf_lt (found : cache.placeOf block = some place) :
    place < cache.volume.cacheEntries.length := by
  obtain ⟨inside, -⟩ := List.findIdx?_eq_some_iff_getElem.mp found
  exact inside

/-- The counts play no role for the volume. -/
theorem findOrLoad_volume (cache : CountedCache) (block : Nat) :
    (cache.findOrLoadCacheEntry partition medium memory block).2.volume =
      (cache.volume.findOrLoadCacheEntry partition medium memory block).2 := by
  unfold findOrLoadCacheEntry PupVolume.findOrLoadCacheEntry findCacheEntry
  cases found : cache.placeOf block with
  | none =>
      rw [placeOf_none_iff.mp found]
      rfl
  | some place =>
      cases entry : cache.volume.findCacheEntry block with
      | none =>
          rw [placeOf_none_iff.mpr entry] at found
          cases found
      | some entry => rfl

theorem findOrLoad_hit (found : cache.placeOf block = some place) :
    cache.findOrLoadCacheEntry partition medium memory block =
      (place, cache.acquireEntry (some place)) := by
  unfold findOrLoadCacheEntry findCacheEntry
  rw [found]

theorem findOrLoad_miss (missing : cache.placeOf block = none) :
    cache.findOrLoadCacheEntry partition medium memory block =
      (cache.volume.cacheEntries.length,
        { volume := cache.volume.stashCacheEntry
            (cache.volume.loadedEntry partition medium memory block)
          refCounts := Function.update cache.refCounts cache.volume.cacheEntries.length 0 }) := by
  unfold findOrLoadCacheEntry findCacheEntry
  rw [missing]
  rfl

theorem acquire_counts (below : cache.refCounts place + 1 < 2 ^ 32) :
    (cache.acquireEntry (some place)).refCounts =
      Function.update cache.refCounts place (cache.refCounts place + 1) := by
  unfold acquireEntry
  dsimp only
  rw [Nat.mod_eq_of_lt below]

theorem release_counts (below : cache.refCounts place < 2 ^ 32) :
    (cache.releaseEntry place).refCounts =
      Function.update cache.refCounts place (cache.refCounts place - 1) := by
  unfold releaseEntry
  by_cases zero : cache.refCounts place = 0
  · rw [if_neg (not_not_intro zero), zero, Nat.zero_sub, ← zero, Function.update_eq_self]
  · have less : (cache.refCounts place + (2 ^ 32 - 1)) % 2 ^ 32 = cache.refCounts place - 1 := by
      omega
    rw [if_pos zero]
    dsimp only
    rw [less]

theorem findOrLoad_release (below : ∀ place, cache.refCounts place + 1 < 2 ^ 32)
    (unused : ∀ place, cache.volume.cacheEntries.length ≤ place → cache.refCounts place = 0)
    (block : Nat) :
    let found := cache.findOrLoadCacheEntry partition medium memory block
    (found.2.releaseEntry found.1).refCounts = cache.refCounts ∧
      cache.volume.cacheEntries.length ≤ found.2.volume.cacheEntries.length := by
  cases found : cache.placeOf block with
  | none =>
      have fresh := unused _ (Nat.le_refl _)
      have same : Function.update cache.refCounts cache.volume.cacheEntries.length 0 =
          cache.refCounts := by
        rw [← fresh, Function.update_eq_self]
      rw [findOrLoad_miss found, same]
      constructor
      · unfold releaseEntry
        rw [if_neg (not_not_intro fresh)]
      · change _ ≤ (cache.volume.cacheEntries ++ [_]).length
        rw [List.length_append]
        exact Nat.le_add_right _ _
  | some place =>
      rw [findOrLoad_hit found]
      refine ⟨?_, Nat.le_refl _⟩
      have acquired := acquire_counts (below place)
      have more : (cache.acquireEntry (some place)).refCounts place = cache.refCounts place + 1 := by
        rw [acquired, Function.update_self]
      rw [release_counts (by rw [more]; exact below place), more, acquired, Function.update_idem,
        Nat.add_sub_cancel, Function.update_eq_self]

theorem readTurn_volume {lastBlock : Nat} {read next : BlockRead}
    (turned : PupVolume.readTurn partition medium memory lastBlock read = some next) :
    next.volume = (read.volume.findOrLoadCacheEntry partition medium memory read.firstBlock).2 := by
  unfold PupVolume.readTurn at turned
  by_cases more : read.firstBlock < lastBlock
  · rw [if_pos more] at turned
    exact Option.some.inj turned ▸ rfl
  · rw [if_neg more] at turned
    cases turned

theorem readTurn_counts (below : ∀ place, cache.refCounts place + 1 < 2 ^ 32)
    (unused : ∀ place, cache.volume.cacheEntries.length ≤ place → cache.refCounts place = 0)
    {lastBlock : Nat} {read : BlockRead} {after : BlockRead × (Nat → Nat)}
    (longer : cache.volume.cacheEntries.length ≤ read.volume.cacheEntries.length)
    (turned : readTurn partition medium memory lastBlock (read, cache.refCounts) = some after) :
    after.2 = cache.refCounts ∧
      cache.volume.cacheEntries.length ≤ after.1.volume.cacheEntries.length := by
  obtain ⟨next, turned', rfl⟩ := Option.map_eq_some_iff.mp turned
  have kept := @findOrLoad_release Medium partition medium memory ⟨read.volume, cache.refCounts⟩
    below (fun place outside => unused place (longer.trans outside)) read.firstBlock
  have grown := kept.2
  rw [findOrLoad_volume, ← readTurn_volume turned'] at grown
  exact ⟨kept.1, longer.trans grown⟩

theorem pupRead_counts (below : ∀ place, cache.refCounts place + 1 < 2 ^ 32)
    (unused : ∀ place, cache.volume.cacheEntries.length ≤ place → cache.refCounts place = 0)
    {firstBlock blockCount : Nat} {buffer : Bytes} {after : CountedCache}
    (ran : cache.pupRead partition medium memory firstBlock blockCount buffer = some after) :
    after.refCounts = cache.refCounts ∧
      cache.volume.cacheEntries.length ≤ after.volume.cacheEntries.length := by
  unfold pupRead at ran
  by_cases nonempty : blockCount > 0
  · rw [if_pos nonempty] at ran
    obtain ⟨result, looped, rfl⟩ := Option.map_eq_some_iff.mp ran
    let kept : BlockRead × (Nat → Nat) → Prop := fun state =>
      state.2 = cache.refCounts ∧
        cache.volume.cacheEntries.length ≤ state.1.volume.cacheEntries.length
    have turns : ∀ state next, kept state →
        readTurn partition medium memory ((firstBlock + blockCount) % 2 ^ 64) state = some next →
        kept next := by
      intro state next held turned
      obtain ⟨read, refCounts⟩ := state
      obtain ⟨same, longer⟩ := held
      change refCounts = cache.refCounts at same
      rw [same] at turned
      exact readTurn_counts below unused longer turned
    exact WhileLoop.keeps turns ⟨rfl, Nat.le_refl _⟩ looped
  · rw [if_neg nonempty] at ran
    cases ran
    exact ⟨rfl, Nat.le_refl _⟩

end CountedCache

namespace CacheRun

open CountedCache

structure Tracked (run : CacheRun) : Prop where
  counts : ∀ place, run.cache.refCounts place = run.held place
  unused : ∀ place, run.cache.volume.cacheEntries.length ≤ place → run.cache.refCounts place = 0

variable {partition : Partition Medium} {medium : Medium} {memory : FreshMemory}
  {run after : CacheRun} {block place : Nat}

theorem Tracked.counted (tracked : run.Tracked) : run.Counted where
  counts place _ := tracked.counts place
  nonzero place positive := by
    rw [tracked.counts place]
    exact Nat.pos_iff_ne_zero.mp positive

theorem Tracked.acquire (tracked : run.Tracked)
    (below : ∀ place, run.cache.refCounts place + 1 < 2 ^ 32)
    (found : run.cache.placeOf block = some place) :
    (run.returned (some place, run.cache.acquireEntry (some place))).Tracked := by
  have acquired := acquire_counts (below place)
  constructor
  · intro other
    change (run.cache.acquireEntry (some place)).refCounts other =
      Function.update run.held place (run.held place + 1) other
    rw [acquired, tracked.counts place, funext tracked.counts]
  · intro other outside
    have apart : other ≠ place := by
      have inside := placeOf_lt found
      change run.cache.volume.cacheEntries.length ≤ other at outside
      omega
    change (run.cache.acquireEntry (some place)).refCounts other = 0
    rw [acquired, Function.update_of_ne apart]
    exact tracked.unused other outside

theorem Tracked.find (tracked : run.Tracked)
    (below : ∀ place, run.cache.refCounts place + 1 < 2 ^ 32) (block : Nat) :
    (run.returned (run.cache.findCacheEntry block)).Tracked := by
  unfold CountedCache.findCacheEntry
  cases found : run.cache.placeOf block with
  | none => exact ⟨tracked.counts, tracked.unused⟩
  | some place => exact tracked.acquire below found

theorem Tracked.release (tracked : run.Tracked)
    (below : ∀ place, run.cache.refCounts place + 1 < 2 ^ 32) (place : Nat) :
    (run.release place).Tracked := by
  have released := release_counts (Nat.lt_of_succ_lt (below place))
  have volume : (run.cache.releaseEntry place).volume = run.cache.volume := by
    unfold releaseEntry
    split <;> rfl
  constructor
  · intro other
    change (run.cache.releaseEntry place).refCounts other =
      Function.update run.held place (run.held place - 1) other
    rw [released, tracked.counts place, funext tracked.counts]
  · intro other outside
    change (run.cache.releaseEntry place).volume.cacheEntries.length ≤ other at outside
    rw [volume] at outside
    have zero := tracked.unused other outside
    change (run.cache.releaseEntry place).refCounts other = 0
    rw [released, Function.update_apply]
    by_cases same : other = place
    · rw [if_pos same, ← same, zero]
    · rw [if_neg same, zero]

theorem Tracked.step {label : CountedCall} (tracked : run.Tracked)
    (finds : FindsCached run label) (step : (countedMachine partition medium memory).step run label after) :
    after.Tracked := by
  obtain ⟨below, cached⟩ := finds
  cases label with
  | find block =>
      cases step
      exact tracked.find below block
  | findOrLoad block =>
      cases step
      cases found : run.cache.placeOf block with
      | none =>
          obtain ⟨entry, member, covered⟩ := cached
          rw [placeOf, List.findIdx?_eq_none_iff] at found
          rw [found entry member] at covered
          cases covered
      | some place =>
          rw [findOrLoad_hit found]
          exact tracked.acquire below found
  | read firstBlock blockCount buffer =>
      obtain ⟨cache, ran, rfl⟩ := step
      obtain ⟨same, longer⟩ := pupRead_counts below tracked.unused ran
      constructor
      · intro place
        change cache.refCounts place = run.held place
        rw [same]
        exact tracked.counts place
      · intro place outside
        change cache.refCounts place = 0
        rw [same]
        exact tracked.unused place (longer.trans outside)
  | release place =>
      obtain ⟨-, rfl⟩ := step
      exact tracked.release below place

end CacheRun

/-- While every lookup with a load finds its block, `ref_count` counts the holders. -/
theorem cacheRun_counted (partition : Partition Medium) (medium : Medium) (memory : FreshMemory)
    {run : CacheRun}
    (reachable : ((countedMachine partition medium memory).restrict FindsCached).Reachable run) :
    run.Counted := by
  have tracked : run.Tracked := by
    refine Machine.invariant _ ?_ ?_ reachable
    · intro run start
      obtain ⟨counts, held⟩ := start
      exact ⟨fun place => (counts place).trans (held place).symm, fun place _ => counts place⟩
    · intro before label after tracked step
      exact tracked.step step.1 step.2
  exact tracked.counted

private def idleCache (firstBlocks : List Nat) : CountedCache where
  volume :=
    { root := ⟨[], 0, 0, 0, 0, 16⟩
      blockBitmask := fun _ => 0
      cacheEntries := firstBlocks.map fun block => ⟨block, fun _ => 0⟩ }
  refCounts _ := 0

private theorem idleCache_start (firstBlocks : List Nat) :
    (countedMachine (samplePartition .boot) sampleMedium sampleMemory).start
      ⟨idleCache firstBlocks, fun _ => 0⟩ :=
  ⟨fun _ => rfl, fun _ => rfl⟩

theorem cacheRun_counted_hit :
    (CacheRun.returned ⟨idleCache [4], fun _ => 0⟩
      (some 0, (idleCache [4]).acquireEntry (some 0))).Counted := by
  apply cacheRun_counted (samplePartition .boot) sampleMedium sampleMemory
  have finds : FindsCached ⟨idleCache [4], fun _ => 0⟩ (.findOrLoad 6) :=
    ⟨fun _ => Nat.one_lt_two_pow (by decide), ⟨4, fun _ => 0⟩, List.mem_singleton_self _, rfl⟩
  exact Machine.reachable_step _ (Machine.reachable_start _ (idleCache_start [4])) ⟨finds, rfl⟩

/-- The entry of a block that is not cached is returned with a count of zero. -/
theorem cacheRun_not_counted :
    ∃ run, (countedMachine (samplePartition .boot) sampleMedium sampleMemory).Reachable run ∧
      run.held 0 = 1 ∧ run.cache.refCounts 0 = 0 ∧ ¬ run.Counted := by
  let missed :=
    (idleCache []).findOrLoadCacheEntry (samplePartition .boot) sampleMedium sampleMemory 6
  let run := CacheRun.returned ⟨idleCache [], fun _ => 0⟩ (some missed.1, missed.2)
  have step : (countedMachine (samplePartition .boot) sampleMedium sampleMemory).step
      ⟨idleCache [], fun _ => 0⟩ (.findOrLoad 6) run := rfl
  have reachable :=
    Machine.reachable_step _ (Machine.reachable_start _ (idleCache_start [])) step
  have uncounted : ¬ run.Counted := by
    intro counted
    exact counted.nonzero 0 Nat.one_pos rfl
  exact ⟨run, reachable, rfl, rfl, uncounted⟩

end DoggOS.Fs

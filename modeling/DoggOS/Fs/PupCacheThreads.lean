/-
Lookups of several threads in one cache set.

The miss and the insertion of `k_fs_PupFindOrLoadCacheEntry` are two critical
sections.  A thread that misses may find the lock free after another thread has
loaded its group, and one that finds the lock taken assumes that the holder is
loading its group.  As long as both assumptions hold when a thread tries the
lock, every call returns an entry that covers its block, and the entries of the
set have different groups.  Each label is one step of one thread.
-/

import DoggOS.Library.Machine
import DoggOS.Fs.PupCacheEntries

namespace DoggOS.Fs

inductive CallPlace where
  | idle
  | lookup (block : Nat)
  | tryLock (block : Nat)
  | stash (block : Nat)
  | unlock (block : Nat) (entry : CacheEntry)
  | spinWait (block : Nat)
  | lookupAgain (block : Nat)
  | returned (block : Nat) (entry : Option CacheEntry)

structure CacheThreads where
  volume : PupVolume
  lock : Option Nat
  place : Nat → CallPlace

inductive CacheTurn where
  | call (thread block : Nat)
  | lookup (thread : Nat)
  | tryLock (thread : Nat)
  | stash (thread : Nat)
  | unlock (thread : Nat)
  | spinWait (thread : Nat)
  | lookupAgain (thread : Nat)
deriving DecidableEq, Repr

namespace CacheThreads

def move (state : CacheThreads) (thread : Nat) (place : CallPlace) : CacheThreads :=
  { state with place := Function.update state.place thread place }

variable (memory : FreshMemory)

/-- The entry that is allocated for a block; its blocks are read after the lock is released. -/
def newEntry (volume : PupVolume) (block : Nat) : CacheEntry where
  firstBlock := block &&& 0xfffffffffffffffc
  buffer := memory.entryBuffer volume.cacheEntries.length

/-- The steps of `k_fs_PupFindOrLoadCacheEntry`. A lookup takes the lock of the set for a moment,
and `k_rt_SpinWait` lasts until the lock is free. -/
def next (state : CacheThreads) : CacheTurn → Option CacheThreads
  | .call thread block =>
      match state.place thread with
      | .idle | .returned _ (some _) =>
          if block < 2 ^ 64 then some (state.move thread (.lookup block)) else none
      | _ => none
  | .lookup thread =>
      match state.place thread, state.lock with
      | .lookup block, none =>
          match state.volume.findCacheEntry block with
          | some entry => some (state.move thread (.returned block (some entry)))
          | none => some (state.move thread (.tryLock block))
      | _, _ => none
  | .tryLock thread =>
      match state.place thread with
      | .tryLock block =>
          match state.lock with
          | none => some { state.move thread (.stash block) with lock := some thread }
          | some _ => some (state.move thread (.spinWait block))
      | _ => none
  | .stash thread =>
      match state.place thread with
      | .stash block =>
          let entry := newEntry memory state.volume block
          some { state.move thread (.unlock block entry) with
            volume := state.volume.stashCacheEntry entry }
      | _ => none
  | .unlock thread =>
      match state.place thread with
      | .unlock block entry =>
          some { state.move thread (.returned block (some entry)) with lock := none }
      | _ => none
  | .spinWait thread =>
      match state.place thread, state.lock with
      | .spinWait block, none => some (state.move thread (.lookupAgain block))
      | _, _ => none
  | .lookupAgain thread =>
      match state.place thread, state.lock with
      | .lookupAgain block, none =>
          some (state.move thread (.returned block (state.volume.findCacheEntry block)))
      | _, _ => none

structure Apart (entries : List CacheEntry) : Prop where
  aligned : ∀ entry ∈ entries, entry.firstBlock % 4 = 0
  word : ∀ entry ∈ entries, entry.firstBlock < 2 ^ 64
  distinct : (entries.map CacheEntry.firstBlock).Nodup

def Start (state : CacheThreads) : Prop :=
  Apart state.volume.cacheEntries ∧ state.lock = none ∧ ∀ thread, state.place thread = .idle

def machine : Machine CacheThreads CacheTurn := Machine.ofNext Start (next memory)

/-- Every returned entry is there and covers the block, and no block has two entries. -/
structure Sound (state : CacheThreads) : Prop where
  returned : ∀ thread block entry, state.place thread = .returned block entry →
    ∃ found, entry = some found ∧ found ∈ state.volume.cacheEntries ∧ found.covers block = true
  single : state.volume.cacheEntries.Pairwise fun entry other =>
    ∀ block, ¬ (entry.covers block = true ∧ other.covers block = true)

def Covered (state : CacheThreads) (block : Nat) : Prop :=
  ∃ entry ∈ state.volume.cacheEntries, entry.covers block = true

/-- What a thread that tries the lock assumes: if it is free, the block has no entry still; if it is
taken, the holder is about to stash the group of the block, or has done so. -/
def Assumed (state : CacheThreads) : CacheTurn → Prop
  | .tryLock thread => ∀ block, state.place thread = .tryLock block →
      match state.lock with
      | none => ¬ state.Covered block
      | some holder => state.Covered block ∨
          ∃ loading, state.place holder = .stash loading ∧ groupStart loading = groupStart block
  | _ => True

def Known (state : CacheThreads) (thread : Nat) : CallPlace → Prop
  | .idle => True
  | .lookup block | .tryLock block => block < 2 ^ 64
  | .stash block => block < 2 ^ 64 ∧ state.lock = some thread ∧ ¬ state.Covered block
  | .unlock block entry => state.lock = some thread ∧ entry ∈ state.volume.cacheEntries ∧
      entry.covers block = true
  | .spinWait block => state.Covered block ∨ ∃ holder loading, state.lock = some holder ∧
      state.place holder = .stash loading ∧ groupStart loading = groupStart block
  | .lookupAgain block => state.Covered block
  | .returned block entry => ∃ found, entry = some found ∧ found ∈ state.volume.cacheEntries ∧
      found.covers block = true

structure Invariant (state : CacheThreads) : Prop where
  apart : Apart state.volume.cacheEntries
  known : ∀ thread, state.Known thread (state.place thread)

section Proofs

variable {memory : FreshMemory} {state before after : CacheThreads} {thread other block : Nat}

theorem covers_group {entry : CacheEntry} (apart : Apart state.volume.cacheEntries)
    (member : entry ∈ state.volume.cacheEntries) :
    entry.covers block = true ↔ entry.firstBlock = groupStart block :=
  PupVolume.covers_iff (apart.aligned entry member) (apart.word entry member)

theorem find_covered (covered : state.Covered block) :
    ∃ found, state.volume.findCacheEntry block = some found ∧
      found ∈ state.volume.cacheEntries ∧ found.covers block = true := by
  obtain ⟨entry, member, covers⟩ := covered
  cases found : state.volume.findCacheEntry block with
  | none =>
      have uncovered := List.find?_eq_none.mp found entry member
      exact absurd covers uncovered
  | some entry =>
      have covers := List.find?_some (p := fun entry => CacheEntry.covers entry block) found
      exact ⟨entry, rfl, List.mem_of_find?_eq_some found, covers⟩

/-- What is known at a place stays known when entries are only added, nobody but the thread itself
changes what it holds, and a thread that waits is not left behind. -/
theorem Known.keep {place : CallPlace} (known : before.Known thread place)
    (grows : ∀ entry ∈ before.volume.cacheEntries, entry ∈ after.volume.cacheEntries)
    (held : before.lock = some thread →
      after.lock = some thread ∧ after.volume.cacheEntries = before.volume.cacheEntries)
    (waits : ∀ block, before.Known thread (.spinWait block) →
      after.Known thread (.spinWait block)) :
    after.Known thread place := by
  cases place with
  | idle => trivial
  | lookup block => exact known
  | tryLock block => exact known
  | stash block =>
      obtain ⟨word, lock, uncovered⟩ := known
      obtain ⟨kept, same⟩ := held lock
      refine ⟨word, kept, ?_⟩
      unfold Covered
      rw [same]
      exact uncovered
  | unlock block entry =>
      obtain ⟨lock, member, covers⟩ := known
      exact ⟨(held lock).1, grows entry member, covers⟩
  | spinWait block => exact waits block known
  | lookupAgain block =>
      obtain ⟨entry, member, covers⟩ := known
      exact ⟨entry, grows entry member, covers⟩
  | returned block entry =>
      obtain ⟨found, isFound, member, covers⟩ := known
      exact ⟨found, isFound, grows found member, covers⟩

theorem Covered.grow (covered : before.Covered block)
    (grows : ∀ entry ∈ before.volume.cacheEntries, entry ∈ after.volume.cacheEntries) :
    after.Covered block := by
  obtain ⟨entry, member, covers⟩ := covered
  exact ⟨entry, grows entry member, covers⟩

theorem Invariant.of_step (invariant : before.Invariant) (place : CallPlace)
    (moved : after.place = Function.update before.place thread place)
    (apart : Apart after.volume.cacheEntries) (own : after.Known thread place)
    (others : ∀ other place, other ≠ thread → before.Known other place →
      after.Known other place) : after.Invariant := by
  constructor
  · exact apart
  · intro other
    rw [moved]
    by_cases same : other = thread
    · rw [same, Function.update_self]
      exact own
    · rw [Function.update_of_ne same]
      exact others other _ same (invariant.known other)

theorem Known.move {place : CallPlace} (notStash : ∀ block, before.place thread ≠ .stash block)
    (next : CallPlace) (known : before.Known other place) :
    (before.move thread next).Known other place := by
  refine known.keep (fun _ member => member) (fun lock => ⟨lock, rfl⟩) ?_
  intro block waiting
  rcases waiting with covered | ⟨holder, loading, lock, atStash, group⟩
  · exact Or.inl covered
  · right
    refine ⟨holder, loading, lock, ?_, group⟩
    change Function.update before.place thread next holder = _
    rw [Function.update_of_ne]
    · exact atStash
    · intro same
      rw [same] at atStash
      exact notStash loading atStash

theorem Invariant.move (invariant : before.Invariant)
    (notStash : ∀ block, before.place thread ≠ .stash block) {next : CallPlace}
    (own : before.Known thread next) : (before.move thread next).Invariant :=
  @Invariant.of_step _ (before.move thread next) thread invariant next rfl invariant.apart
    (own.move notStash next) (fun _ _ _ known => known.move notStash next)

theorem Invariant.call (invariant : before.Invariant)
    (moved : next memory before (.call thread block) = some after) : after.Invariant := by
  simp only [next] at moved
  split at moved
  all_goals
    try cases moved
  all_goals
    rename_i place
    split at moved
    · rename_i word
      cases moved
      apply invariant.move
      · rw [place]
        intro block atStash
        cases atStash
      · exact word
    · cases moved

theorem Invariant.lookup (invariant : before.Invariant)
    (moved : next memory before (.lookup thread) = some after) : after.Invariant := by
  have known := invariant.known thread
  simp only [next] at moved
  split at moved
  · rename_i block place lock
    rw [place] at known
    have notStash : ∀ loading, before.place thread ≠ .stash loading := by
      rw [place]
      intro loading atStash
      cases atStash
    split at moved
    · rename_i entry found
      cases moved
      apply invariant.move notStash
      have covers := List.find?_some (p := fun entry => CacheEntry.covers entry block) found
      exact ⟨entry, rfl, List.mem_of_find?_eq_some found, covers⟩
    · cases moved
      exact invariant.move notStash known
  · cases moved

/-- A free lock is taken, or a taken one waited for, under what the thread assumes. -/
theorem Invariant.tryLock (invariant : before.Invariant)
    (assumed : before.Assumed (.tryLock thread))
    (moved : next memory before (.tryLock thread) = some after) : after.Invariant := by
  have known := invariant.known thread
  simp only [next] at moved
  split at moved
  · rename_i block place
    rw [place] at known
    have holds := assumed block place
    have notStash : ∀ loading, before.place thread ≠ .stash loading := by
      rw [place]
      intro loading atStash
      cases atStash
    split at moved
    · rename_i lock
      rw [lock] at holds
      cases moved
      refine invariant.of_step (.stash block) rfl invariant.apart ?_ ?_
      · exact ⟨known, rfl, holds⟩
      · intro other kept different otherKnown
        refine otherKnown.keep (fun _ member => member) ?_ ?_
        · intro held
          rw [lock] at held
          cases held
        · intro waiting waits
          rcases waits with covered | ⟨holder, loading, held, -⟩
          · exact Or.inl covered
          · rw [lock] at held
            cases held
    · rename_i holder lock
      rw [lock] at holds
      cases moved
      apply invariant.move notStash
      rcases holds with covered | ⟨loading, atStash, group⟩
      · exact Or.inl covered
      · exact Or.inr ⟨holder, loading, lock, atStash, group⟩
  · cases moved

theorem Invariant.stash (invariant : before.Invariant)
    (moved : next memory before (.stash thread) = some after) : after.Invariant := by
  have known := invariant.known thread
  simp only [next] at moved
  split at moved
  · rename_i block place
    rw [place] at known
    obtain ⟨word, lock, uncovered⟩ := known
    have first : (newEntry memory before.volume block).firstBlock = groupStart block :=
      PupVolume.and_groupMask word
    have fresh : ∀ entry ∈ before.volume.cacheEntries, entry.firstBlock ≠ groupStart block := by
      intro entry member same
      exact uncovered ⟨entry, member, (covers_group invariant.apart member).mpr same⟩
    cases moved
    have apart : Apart (before.volume.stashCacheEntry
        (newEntry memory before.volume block)).cacheEntries := by
      obtain ⟨aligned, words, distinct⟩ := invariant.apart
      constructor
      · intro entry member
        rcases List.mem_append.mp member with old | new
        · exact aligned entry old
        · rw [List.mem_singleton.mp new, first]
          unfold groupStart
          omega
      · intro entry member
        rcases List.mem_append.mp member with old | new
        · exact words entry old
        · rw [List.mem_singleton.mp new, first]
          unfold groupStart
          omega
      · exact PupVolume.stash_distinct distinct (fun entry member same =>
          fresh entry member (same.trans first))
    have grows : ∀ entry ∈ before.volume.cacheEntries, entry ∈ (before.volume.stashCacheEntry
        (newEntry memory before.volume block)).cacheEntries :=
      fun _ member => List.mem_append_left _ member
    have stashed : newEntry memory before.volume block ∈ (before.volume.stashCacheEntry
        (newEntry memory before.volume block)).cacheEntries :=
      List.mem_append_right _ (List.mem_singleton_self _)
    refine invariant.of_step (.unlock block (newEntry memory before.volume block)) rfl apart ?_ ?_
    · refine ⟨lock, stashed, ?_⟩
      exact (PupVolume.covers_iff (apart.aligned _ stashed) (apart.word _ stashed)).mpr first
    · intro other kept different otherKnown
      refine otherKnown.keep grows ?_ ?_
      · intro held
        rw [lock] at held
        exact absurd (Option.some.inj held).symm different
      · intro waiting waits
        left
        rcases waits with covered | ⟨holder, loading, held, atStash, group⟩
        · exact covered.grow grows
        · have isHolder : thread = holder := by
            rw [lock] at held
            exact Option.some.inj held
          rw [← isHolder] at atStash
          have same : block = loading := by
            have atSame := place.symm.trans atStash
            cases atSame
            rfl
          refine ⟨_, stashed, ?_⟩
          rw [PupVolume.covers_iff (apart.aligned _ stashed) (apart.word _ stashed), first, same]
          exact group
  · cases moved

theorem Invariant.unlock (invariant : before.Invariant)
    (moved : next memory before (.unlock thread) = some after) : after.Invariant := by
  have known := invariant.known thread
  simp only [next] at moved
  split at moved
  · rename_i block entry place
    rw [place] at known
    obtain ⟨lock, member, covers⟩ := known
    cases moved
    refine invariant.of_step (.returned block (some entry)) rfl invariant.apart ?_ ?_
    · exact ⟨entry, rfl, member, covers⟩
    · intro other kept different otherKnown
      refine otherKnown.keep (fun _ member => member) ?_ ?_
      · intro held
        rw [lock] at held
        exact absurd (Option.some.inj held).symm different
      · intro waiting waits
        rcases waits with covered | ⟨holder, loading, held, atStash, group⟩
        · exact Or.inl covered
        · have isHolder : thread = holder := by
            rw [lock] at held
            exact Option.some.inj held
          rw [← isHolder, place] at atStash
          cases atStash
  · cases moved

/-- With the lock free the group that a thread waited for has its entry. -/
theorem Invariant.spinWait (invariant : before.Invariant)
    (moved : next memory before (.spinWait thread) = some after) : after.Invariant := by
  have known := invariant.known thread
  simp only [next] at moved
  split at moved
  · rename_i block place lock
    rw [place] at known
    cases moved
    apply invariant.move
    · rw [place]
      intro loading atStash
      cases atStash
    · rcases known with covered | ⟨holder, loading, held, -⟩
      · exact covered
      · rw [lock] at held
        cases held
  · cases moved

theorem Invariant.lookupAgain (invariant : before.Invariant)
    (moved : next memory before (.lookupAgain thread) = some after) : after.Invariant := by
  have known := invariant.known thread
  simp only [next] at moved
  split at moved
  · rename_i block place lock
    rw [place] at known
    cases moved
    apply invariant.move
    · rw [place]
      intro loading atStash
      cases atStash
    · exact find_covered known
  · cases moved

theorem Invariant.sound (invariant : state.Invariant) : state.Sound := by
  constructor
  · intro thread block entry place
    have known := invariant.known thread
    rw [place] at known
    exact known
  · have distinct := List.pairwise_map.mp invariant.apart.distinct
    apply List.Pairwise.imp_of_mem _ distinct
    intro entry other member otherMember different block both
    obtain ⟨first, second⟩ := both
    rw [covers_group invariant.apart member] at first
    rw [covers_group invariant.apart otherMember] at second
    exact different (first.trans second.symm)

end Proofs

/-- Under what the threads assume when they try the lock, every state of every run is sound. -/
theorem cacheThreads_sound (memory : FreshMemory) (state : CacheThreads)
    (reachable : ((machine memory).restrict Assumed).Reachable state) : state.Sound := by
  apply Invariant.sound
  apply Machine.invariant _ _ _ reachable
  · intro first initial
    obtain ⟨apart, -, idle⟩ := initial
    constructor
    · exact apart
    · intro thread
      rw [idle thread]
      trivial
  · intro before turn after invariant moved
    obtain ⟨assumed, step⟩ := moved
    cases turn with
    | call thread block => exact invariant.call step
    | lookup thread => exact invariant.lookup step
    | tryLock thread => exact invariant.tryLock assumed step
    | stash thread => exact invariant.stash step
    | unlock thread => exact invariant.unlock step
    | spinWait thread => exact invariant.spinWait step
    | lookupAgain thread => exact invariant.lookupAgain step

def emptyCache : CacheThreads where
  volume := { root := ⟨[], 256, 2, 1, 4, 16⟩, blockBitmask := fun _ => 0, cacheEntries := [] }
  lock := none
  place := fun _ => .idle

private def zeroMemory : FreshMemory := { blockBitmask := fun _ => 0, entryBuffer := fun _ _ => 0 }

private theorem emptyCache_start : Start emptyCache := by
  refine ⟨⟨?_, ?_, List.nodup_nil⟩, rfl, fun _ => rfl⟩
  · intro entry member
    cases member
  · intro entry member
    cases member

def bothMiss : List CacheTurn := [.call 0 5, .lookup 0, .call 1 6, .lookup 1]

def bothMissed : CacheThreads :=
  (Machine.follow (next zeroMemory) emptyCache bothMiss).getD emptyCache

def oneLocked : CacheThreads :=
  (Machine.follow (next zeroMemory) bothMissed [.tryLock 0, .tryLock 1]).getD emptyCache

def oneLoads : List CacheTurn := [.stash 0, .unlock 0, .spinWait 1, .lookupAgain 1]

theorem oneLocked_reachable : ((machine zeroMemory).restrict Assumed).Reachable oneLocked := by
  have untried : ∀ turn ∈ bothMiss, ∀ state : CacheThreads, state.Assumed turn := by
    intro turn member state
    simp only [bothMiss, List.mem_cons, List.not_mem_nil, or_false] at member
    rcases member with rfl | rfl | rfl | rfl <;> trivial
  have missed := (machine zeroMemory).follow_restrict (fun _ _ _ step => step) untried
    (Machine.reachable_start ((machine zeroMemory).restrict Assumed) emptyCache_start)
    (show Machine.follow (next zeroMemory) emptyCache bothMiss = some bothMissed from rfl)
  have free : bothMissed.Assumed (.tryLock 0) := by
    intro block place covered
    obtain ⟨entry, member, covers⟩ := covered
    cases member
  have taken : CacheThreads.Assumed { bothMissed.move 0 (.stash 5) with lock := some 0 }
      (.tryLock 1) := by
    intro block place
    have same : block = 6 := by
      cases place
      rfl
    exact .inr ⟨5, rfl, by rw [same]; decide⟩
  have locked : ((machine zeroMemory).restrict Assumed).Reachable
      { bothMissed.move 0 (.stash 5) with lock := some 0 } :=
    Machine.reachable_step _ missed ⟨free, rfl⟩
  exact Machine.reachable_step _ locked ⟨taken, rfl⟩

/-- The second thread returns the entry of the first. -/
theorem cacheThreads_sound_shared : ∃ state : CacheThreads, state.Sound ∧
    state.place 0 = .returned 5 (some ⟨4, fun _ => 0⟩) ∧
      state.place 1 = .returned 6 (some ⟨4, fun _ => 0⟩) := by
  obtain ⟨last, followed, first, second⟩ : ∃ last,
      Machine.follow (next zeroMemory) oneLocked oneLoads = some last ∧
        last.place 0 = .returned 5 (some ⟨4, fun _ => 0⟩) ∧
        last.place 1 = .returned 6 (some ⟨4, fun _ => 0⟩) := ⟨_, rfl, rfl, rfl⟩
  have locked : ∀ turn ∈ oneLoads, ∀ state : CacheThreads, state.Assumed turn := by
    intro turn member state
    simp only [oneLoads, List.mem_cons, List.not_mem_nil, or_false] at member
    rcases member with rfl | rfl | rfl | rfl <;> trivial
  have reachable := (machine zeroMemory).follow_restrict (fun _ _ _ step => step) locked
    oneLocked_reachable followed
  exact ⟨last, cacheThreads_sound zeroMemory last reachable, first, second⟩

def otherGroup : List CacheTurn :=
  [.call 0 1, .lookup 0, .call 1 5, .lookup 1, .tryLock 0, .tryLock 1, .stash 0, .unlock 0,
    .spinWait 1, .lookupAgain 1]

def sameGroup : List CacheTurn :=
  [.call 0 1, .lookup 0, .call 1 2, .lookup 1, .tryLock 0, .stash 0, .unlock 0, .tryLock 1,
    .stash 1]

/-- A call returns no entry, and a group gets two. -/
theorem cacheThreads_unsound :
    (∃ state, (machine zeroMemory).Reachable state ∧ ¬ state.Sound ∧
      ∃ block, state.place 1 = .returned block none) ∧
    ∃ state, (machine zeroMemory).Reachable state ∧ ¬ state.Sound ∧
      state.volume.cacheEntries.map CacheEntry.firstBlock = [0, 0] := by
  have steps : ∀ before turn after, next zeroMemory before turn = some after →
      (machine zeroMemory).step before turn after := fun _ _ _ step => step
  have start := Machine.reachable_start (machine zeroMemory) emptyCache_start
  constructor
  · obtain ⟨last, followed, place⟩ : ∃ last,
        Machine.follow (next zeroMemory) emptyCache otherGroup = some last ∧
          last.place 1 = .returned 5 none := ⟨_, rfl, rfl⟩
    refine ⟨last, Machine.follow_reachable _ steps start followed, ?_, 5, place⟩
    intro sound
    obtain ⟨found, isFound, -⟩ := sound.returned 1 5 none place
    cases isFound
  · obtain ⟨last, followed, entries⟩ : ∃ last,
        Machine.follow (next zeroMemory) emptyCache sameGroup = some last ∧
          last.volume.cacheEntries = [⟨0, fun _ => 0⟩, ⟨0, fun _ => 0⟩] := ⟨_, rfl, rfl⟩
    refine ⟨last, Machine.follow_reachable _ steps start followed, ?_, ?_⟩
    · intro sound
      have single := sound.single
      rw [entries, List.pairwise_cons] at single
      exact single.1 ⟨0, fun _ => 0⟩ (List.mem_singleton_self _) 0 ⟨by decide, by decide⟩
    · rw [entries]
      rfl

end CacheThreads

end DoggOS.Fs

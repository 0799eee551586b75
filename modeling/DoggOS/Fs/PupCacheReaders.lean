/-
The reader count of a cache set.

`k_fs_PupFindCacheEntry` holds the lock of the set only while it raises the
reader count, and then walks the list of entries without the lock; the thread
that adds an entry takes the lock, waits until the count is zero, and links the
entry at the end.  Every access to the set is a step of its own here, and any
number of threads below 2^32 take turns.
-/

import DoggOS.Fs.PupCacheEntries
import DoggOS.Library.LinkedQueues
import DoggOS.Library.Machine
import DoggOS.Library.PlaceCounts
import Mathlib.Data.List.Find

namespace DoggOS.Fs

/-- The next access of a thread in `k_fs_PupFindCacheEntry`. -/
inductive FindPoint
  | locks
  | increments
  | unlocks
  | enters
  | compares (entry : Nat)
  | advances (entry : Nat)
  | acquires (entry : Nat)
  | decrements (entry : Nat)
  deriving DecidableEq

/-- The next access of a thread in the rest of `k_fs_PupFindOrLoadCacheEntry`. -/
inductive LoadPoint
  | tries
  | allocates
  | names (entry : Nat)
  | stashes (entry : Nat)
  | links (entry : Nat)
  | follows (entry : Nat)
  | unlocks (entry : Nat)
  | spins
  deriving DecidableEq

/-- Where a thread is; `again` is the lookup behind `k_rt_SpinWait`. -/
inductive SetPlace
  | idle
  | find (again : Bool) (block : BitVec 64) (point : FindPoint)
  | load (block : BitVec 64) (point : LoadPoint)
  | returned (block : BitVec 64) (entry : Nat)
  deriving DecidableEq

structure EntryList where
  firstEntry : Nat
  lastEntry : Nat
  next : Nat → Nat
  firstBlock : Nat → BitVec 64
  allocated : List Nat

structure CacheSet (Thread : Type*) where
  list : EntryList
  refCount : Nat → BitVec 32
  readCount : BitVec 32
  lock : Option Thread
  place : Thread → SetPlace

inductive SetTurn (Thread : Type*)
  | call (thread : Thread) (block : BitVec 64)
  | access (thread : Thread)
  | allocate (thread : Thread) (entry : Nat)

namespace EntryList

/-- The comparison in the loop of `k_fs_PupFindCacheEntry`. -/
def covers (list : EntryList) (block : BitVec 64) (entry : Nat) : Bool :=
  CacheEntry.covers ⟨(list.firstBlock entry).toNat, fun _ => 0⟩ block.toNat

/-- `entry->next = NULL` of `k_fs_PupAllocCacheEntry`. -/
def allocate (list : EntryList) (entry : Nat) : EntryList :=
  { list with
    next := Function.update list.next entry 0
    allocated := entry :: list.allocated }

def name (list : EntryList) (block : BitVec 64) (entry : Nat) : EntryList :=
  { list with
    firstBlock := Function.update list.firstBlock entry (block &&& 0xfffffffffffffffc#64) }

/-- The branch of `k_fs_PupStashCacheEntry`. -/
def link (list : EntryList) (entry : Nat) : EntryList :=
  if list.firstEntry = 0 then { list with firstEntry := entry }
  else { list with next := Function.update list.next list.lastEntry entry }

def follow (list : EntryList) (entry : Nat) : EntryList :=
  { list with lastEntry := entry }

end EntryList

namespace CacheSet

variable {Thread : Type*} [DecidableEq Thread]

def moveTo (state : CacheSet Thread) (thread : Thread) (place : SetPlace) : CacheSet Thread :=
  { state with place := Function.update state.place thread place }

/-- A lookup is over; the first one goes on with the lock when it found nothing. -/
def found (again : Bool) (block : BitVec 64) (entry : Nat) : SetPlace :=
  if entry = 0 ∧ again = false then .load block .tries else .returned block entry

def findAccess (state : CacheSet Thread) (thread : Thread) (again : Bool) (block : BitVec 64) :
    FindPoint → Option (CacheSet Thread)
  | .locks =>
      if state.lock = none then
        some { state.moveTo thread (.find again block .increments) with lock := some thread }
      else none
  | .increments =>
      some { state.moveTo thread (.find again block .unlocks) with
        readCount := state.readCount + 1#32 }
  | .unlocks => some { state.moveTo thread (.find again block .enters) with lock := none }
  | .enters => some (state.moveTo thread (.find again block (.compares state.list.firstEntry)))
  | .compares entry =>
      if entry ≠ 0 ∧ state.list.covers block entry = false then
        some (state.moveTo thread (.find again block (.advances entry)))
      else some (state.moveTo thread (.find again block (.acquires entry)))
  | .advances entry =>
      some (state.moveTo thread (.find again block (.compares (state.list.next entry))))
  | .acquires entry =>
      some { state.moveTo thread (.find again block (.decrements entry)) with
        refCount := if entry = 0 then state.refCount
          else Function.update state.refCount entry (state.refCount entry + 1#32) }
  | .decrements entry =>
      some { state.moveTo thread (found again block entry) with
        readCount := state.readCount + 0xffffffff#32 }

def loadAccess (state : CacheSet Thread) (thread : Thread) (block : BitVec 64) :
    LoadPoint → Option (CacheSet Thread)
  | .tries =>
      if state.lock = none then
        some { state.moveTo thread (.load block .allocates) with lock := some thread }
      else some (state.moveTo thread (.load block .spins))
  | .allocates => none
  | .names entry =>
      some { state.moveTo thread (.load block (.stashes entry)) with
        list := state.list.name block entry }
  | .stashes entry =>
      if state.readCount = 0#32 then some (state.moveTo thread (.load block (.links entry)))
      else none
  | .links entry =>
      some { state.moveTo thread (.load block (.follows entry)) with list := state.list.link entry }
  | .follows entry =>
      some { state.moveTo thread (.load block (.unlocks entry)) with
        list := state.list.follow entry }
  | .unlocks entry => some { state.moveTo thread (.returned block entry) with lock := none }
  | .spins =>
      if state.lock = none then some (state.moveTo thread (.find true block .locks)) else none

/-- A wait that goes on is no step, and a null pointer that is returned ends its thread. -/
def next (state : CacheSet Thread) : SetTurn Thread → Option (CacheSet Thread)
  | .call thread block =>
      match state.place thread with
      | .idle => some (state.moveTo thread (.find false block .locks))
      | .returned _ entry =>
          if entry ≠ 0 then some (state.moveTo thread (.find false block .locks)) else none
      | _ => none
  | .access thread =>
      match state.place thread with
      | .find again block point => state.findAccess thread again block point
      | .load block point => state.loadAccess thread block point
      | _ => none
  | .allocate thread entry =>
      match state.place thread with
      | .load block .allocates =>
          -- `k_fs_PupAllocCacheEntry` gives no entry out twice.
          if entry ≠ 0 ∧ entry ∉ state.list.allocated then
            some { state.moveTo thread (.load block (.names entry)) with
              list := state.list.allocate entry
              refCount := Function.update state.refCount entry 0#32 }
          else none
      | _ => none

/-- The set after `k_fs_PupMountVolume` cleared it. -/
structure Cleared (state : CacheSet Thread) : Prop where
  firstEntry : state.list.firstEntry = 0
  allocated : state.list.allocated = []
  readCount : state.readCount = 0#32
  lock : state.lock = none
  idle : ∀ thread, state.place thread = .idle

def machine (Thread : Type*) [DecidableEq Thread] : Machine (CacheSet Thread) (SetTurn Thread) :=
  .ofNext Cleared next

end CacheSet

namespace SetPlace

/-- The thread is counted by `read_count`. -/
def reads : SetPlace → Bool
  | .find _ _ .locks | .find _ _ .increments => false
  | .find _ _ _ => true
  | _ => false

def holds : SetPlace → Bool
  | .find _ _ .increments | .find _ _ .unlocks => true
  | .load _ .tries | .load _ .spins => false
  | .load _ _ => true
  | _ => false

def writes : SetPlace → Bool
  | .load _ (.links _) | .load _ (.follows _) => true
  | _ => false

def adds : SetPlace → Bool
  | .load _ .tries | .load _ .spins => false
  | .load _ _ => true
  | _ => false

def busy : SetPlace → Bool
  | .find _ _ _ | .load _ _ => true
  | _ => false

end SetPlace

namespace EntryList

def Passed (list : EntryList) (entries : List Nat) (block : BitVec 64) (entry : Nat) : Prop :=
  ∃ front rest, entries = front ++ rest ∧ Chain list.next entry rest ∧
    ∀ other ∈ front, list.covers block other = false

def Answer (list : EntryList) (entries : List Nat) (block : BitVec 64) (entry : Nat) : Prop :=
  entry = (entries.find? (list.covers block)).getD 0

structure Unlisted (list : EntryList) (entries : List Nat) (entry : Nat) : Prop where
  nonNull : entry ≠ 0
  allocated : entry ∈ list.allocated
  absent : entry ∉ entries
  next : list.next entry = 0

def Known (list : EntryList) (entries : List Nat) : SetPlace → Prop
  | .find _ block (.compares entry) => list.Passed entries block entry
  | .find _ block (.advances entry) =>
      list.Passed entries block entry ∧ entry ≠ 0 ∧ list.covers block entry = false
  | .find _ block (.acquires entry) | .find _ block (.decrements entry) =>
      list.Answer entries block entry
  | .load _ (.names entry) => list.Unlisted entries entry
  | .load block (.stashes entry) | .load block (.links entry) =>
      list.Unlisted entries entry ∧ list.covers block entry = true
  | .load block (.follows entry) =>
      entries.getLast? = some entry ∧ list.covers block entry = true
  | .load block (.unlocks entry) => entry ∈ entries ∧ list.covers block entry = true
  | .returned block entry => entry ≠ 0 → entry ∈ entries ∧ list.covers block entry = true
  | _ => True

/-- The list later on: the same entries with the same blocks, and more behind them. -/
structure Grows (list after : EntryList) (entries grown : List Nat) : Prop where
  grown : entries <+: grown
  blocks : ∀ cell ∈ entries, after.firstBlock cell = list.firstBlock cell

section Lists

variable {list after : EntryList} {entries : List Nat} {block : BitVec 64} {entry : Nat}

theorem Passed.start (chain : Chain list.next list.firstEntry entries) :
    list.Passed entries block list.firstEntry :=
  ⟨[], entries, rfl, chain, nofun⟩

theorem Passed.exists_cons (passed : list.Passed entries block entry) (nonNull : entry ≠ 0) :
    ∃ front rest, entries = front ++ entry :: rest ∧ Chain list.next (list.next entry) rest ∧
      ∀ other ∈ front, list.covers block other = false := by
  obtain ⟨front, rest, split, chain, before⟩ := passed
  cases rest with
  | nil => exact absurd chain nonNull
  | cons cell rest =>
      obtain ⟨here, _, chain⟩ := chain
      rw [← here] at split chain
      exact ⟨front, rest, split, chain, before⟩

theorem Passed.advance (passed : list.Passed entries block entry) (nonNull : entry ≠ 0)
    (other : list.covers block entry = false) :
    list.Passed entries block (list.next entry) := by
  obtain ⟨front, rest, split, chain, before⟩ := passed.exists_cons nonNull
  refine ⟨front ++ [entry], rest, ?_, chain, ?_⟩
  · rw [split, List.append_assoc, List.singleton_append]
  · intro cell member
    rcases List.mem_append.mp member with earlier | here
    · exact before cell earlier
    · rw [List.mem_singleton.mp here]
      exact other

theorem Passed.answer (passed : list.Passed entries block entry)
    (stop : ¬ (entry ≠ 0 ∧ list.covers block entry = false)) :
    list.Answer entries block entry := by
  unfold Answer
  by_cases null : entry = 0
  · obtain ⟨front, rest, split, chain, before⟩ := passed
    rw [chain.eq_nil_iff.mpr null, List.append_nil] at split
    have nothing : entries.find? (list.covers block) = none := by
      rw [split, List.find?_eq_none]
      intro cell member
      simp [before cell member]
    rw [nothing, null, Option.getD_none]
  · obtain ⟨front, rest, split, _, before⟩ := passed.exists_cons null
    have covered : list.covers block entry = true := by
      by_contra not
      exact stop ⟨null, Bool.eq_false_iff.mpr not⟩
    have found : entries.find? (list.covers block) = some entry := by
      rw [split, List.find?_append, List.find?_eq_none.mpr, Option.none_or,
        List.find?_cons_of_pos covered]
      intro cell member
      simp [before cell member]
    rw [found, Option.getD_some]

theorem Answer.covered (answer : list.Answer entries block entry) (nonNull : entry ≠ 0) :
    entry ∈ entries ∧ list.covers block entry = true := by
  unfold Answer at answer
  cases found : entries.find? (list.covers block) with
  | none =>
      rw [found] at answer
      exact absurd answer nonNull
  | some first =>
      rw [found, Option.getD_some] at answer
      rw [answer]
      exact ⟨List.mem_of_find?_eq_some found, List.find?_some found⟩

theorem Answer.null (answer : list.Answer entries block 0) (nonNull : ∀ cell ∈ entries, cell ≠ 0)
    {cell : Nat} (member : cell ∈ entries) : list.covers block cell = false := by
  unfold Answer at answer
  cases found : entries.find? (list.covers block) with
  | none =>
      have not := List.find?_eq_none.mp found cell member
      exact Bool.eq_false_iff.mpr not
  | some first =>
      rw [found, Option.getD_some] at answer
      exact absurd answer.symm (nonNull first (List.mem_of_find?_eq_some found))

theorem covers_name (list : EntryList) (block : BitVec 64) (entry : Nat) :
    (list.name block entry).covers block entry = true := by
  have named : (list.name block entry).firstBlock entry = block &&& 0xfffffffffffffffc#64 :=
    Function.update_self _ _ _
  unfold covers
  rw [named]
  have group : (block &&& 0xfffffffffffffffc#64).toNat = groupStart block.toNat := by
    rw [BitVec.toNat_and]
    exact PupVolume.and_groupMask block.isLt
  rw [PupVolume.covers_iff, group]
  · rw [group]
    exact Nat.mul_mod_left _ 4
  · exact (block &&& 0xfffffffffffffffc#64).isLt

theorem covers_congr {other : Nat} (same : after.firstBlock other = list.firstBlock other) :
    after.covers block other = list.covers block other := by
  unfold covers
  rw [same]

theorem chain_allocate (chain : Chain list.next list.firstEntry entries)
    (absent : entry ∉ entries) :
    Chain (list.allocate entry).next (list.allocate entry).firstEntry entries :=
  chain.update absent 0

theorem chain_link (chain : Chain list.next list.firstEntry entries) (nodup : entries.Nodup)
    (last : ∀ cell, entries.getLast? = some cell → list.lastEntry = cell)
    (unlisted : list.Unlisted entries entry) :
    Chain (list.link entry).next (list.link entry).firstEntry (entries ++ [entry]) := by
  unfold link
  by_cases null : list.firstEntry = 0
  · rw [if_pos null, chain.eq_nil_iff.mpr null]
    exact ⟨rfl, unlisted.nonNull, unlisted.next⟩
  · rw [if_neg null]
    have nonempty : entries ≠ [] := fun empty => null (chain.eq_nil_iff.mp empty)
    obtain ⟨front, final, split⟩ := (List.eq_nil_or_concat entries).resolve_left nonempty
    have isLast : list.lastEntry = final := by
      apply last
      rw [split, List.concat_eq_append, List.getLast?_concat]
    rw [List.concat_eq_append] at split
    rw [split] at chain nodup
    have absent : final ∉ front := by
      intro member
      exact (List.nodup_append.mp nodup).2.2 final member final (List.mem_singleton_self _) rfl
    have different : entry ≠ final := by
      intro same
      apply unlisted.absent
      rw [split, same]
      exact List.mem_append_right _ (List.mem_singleton_self _)
    rw [split, List.append_assoc, List.singleton_append, isLast]
    refine chain.link absent ?_ ?_
    · intro other member
      exact Function.update_of_ne (ne_of_mem_of_not_mem member absent) _ _
    · change Chain (Function.update list.next final entry)
        (Function.update list.next final entry final) [entry]
      rw [Function.update_self]
      refine ⟨rfl, unlisted.nonNull, ?_⟩
      rw [Function.update_of_ne different]
      exact unlisted.next

/-- Of the entries that were there, `k_fs_PupStashCacheEntry` writes at most the last one. -/
theorem link_firstBlock (list : EntryList) (entry : Nat) :
    (list.link entry).firstBlock = list.firstBlock ∧
      (list.link entry).allocated = list.allocated := by
  unfold link
  split
  · exact ⟨rfl, rfl⟩
  · exact ⟨rfl, rfl⟩

theorem Passed.keep (passed : list.Passed entries block entry)
    (linked : ∀ cell ∈ entries, after.next cell = list.next cell)
    (named : ∀ cell ∈ entries, after.firstBlock cell = list.firstBlock cell) :
    after.Passed entries block entry := by
  obtain ⟨front, rest, split, chain, before⟩ := passed
  refine ⟨front, rest, split, ?_, ?_⟩
  · apply chain.frame
    intro cell member
    apply linked
    rw [split]
    exact List.mem_append_right _ member
  · intro cell member
    rw [covers_congr (named cell _), before cell member]
    rw [split]
    exact List.mem_append_left _ member

theorem Answer.keep (answer : list.Answer entries block entry)
    (named : ∀ cell ∈ entries, after.firstBlock cell = list.firstBlock cell) :
    after.Answer entries block entry := by
  have same : entries.find? (after.covers block) = entries.find? (list.covers block) := by
    apply List.find?_congr
    intro cell member
    exact covers_congr (named cell member)
  unfold Answer at answer ⊢
  rw [same]
  exact answer

theorem covered_keep {more : List Nat} (covered : entry ∈ entries ∧ list.covers block entry = true)
    (named : ∀ cell ∈ entries, after.firstBlock cell = list.firstBlock cell) :
    entry ∈ entries ++ more ∧ after.covers block entry = true := by
  refine ⟨List.mem_append_left more covered.1, ?_⟩
  rw [covers_congr (named entry covered.1)]
  exact covered.2

/-- What a thread knows when another one adds entries: readers see none. -/
theorem Known.keep {place : SetPlace} {more : List Nat} (known : list.Known entries place)
    (passive : place.adds = false)
    (named : ∀ cell ∈ entries, after.firstBlock cell = list.firstBlock cell)
    (readers : place.reads = true →
      more = [] ∧ ∀ cell ∈ entries, after.next cell = list.next cell) :
    after.Known (entries ++ more) place := by
  cases place with
  | idle => trivial
  | find again block point =>
      cases point with
      | locks | increments | unlocks | enters => trivial
      | compares entry =>
          obtain ⟨none, linked⟩ := readers rfl
          rw [none, List.append_nil]
          exact Passed.keep known linked named
      | advances entry =>
          obtain ⟨none, linked⟩ := readers rfl
          obtain ⟨passed, nonNull, other⟩ := known
          obtain ⟨front, rest, split, _⟩ := passed.exists_cons nonNull
          rw [none, List.append_nil]
          refine ⟨passed.keep linked named, nonNull, ?_⟩
          rw [covers_congr (named entry _), other]
          rw [split]
          exact List.mem_append_right _ List.mem_cons_self
      | acquires entry | decrements entry =>
          obtain ⟨none, _⟩ := readers rfl
          rw [none, List.append_nil]
          exact Answer.keep known named
  | load block point =>
      cases point with
      | tries | spins => trivial
      | _ => cases passive
  | returned block entry =>
      intro nonNull
      exact covered_keep (known nonNull) named

theorem Grows.refl (blocks : ∀ cell ∈ entries, after.firstBlock cell = list.firstBlock cell) :
    Grows list after entries entries :=
  ⟨List.prefix_rfl, blocks⟩

theorem Grows.trans {last : EntryList} {grown longer : List Nat}
    (first : Grows list after entries grown) (second : Grows after last grown longer) :
    Grows list last entries longer where
  grown := first.grown.trans second.grown
  blocks cell member := by
    rw [second.blocks cell (first.grown.subset member), first.blocks cell member]

end Lists

end EntryList

namespace SetPlace

variable {place : SetPlace}

theorem adds_holds (adds : place.adds = true) : place.holds = true := by
  cases place with
  | load block point => cases point <;> first | rfl | cases adds
  | _ => cases adds

theorem writes_adds (writes : place.writes = true) : place.adds = true := by
  cases place with
  | load block point => cases point <;> first | rfl | cases writes
  | _ => cases writes

theorem not_reads_of_writes (writes : place.writes = true) : place.reads = false := by
  cases place with
  | load block point => rfl
  | _ => cases writes

end SetPlace

namespace CacheSet

variable {Thread : Type*} [Fintype Thread]

/-- The set holds the list `entries`, whatever each thread is doing. -/
structure Holds (state : CacheSet Thread) (entries : List Nat) : Prop where
  chain : Chain state.list.next state.list.firstEntry entries
  nodup : entries.Nodup
  allocated : ∀ entry ∈ entries, entry ∈ state.list.allocated
  last : (∀ thread block entry, state.place thread ≠ .load block (.follows entry)) →
    ∀ entry, entries.getLast? = some entry → state.list.lastEntry = entry
  counted : state.readCount.toNat = placeCount SetPlace.reads state.place
  owner : ∀ thread, (state.place thread).holds = true ↔ state.lock = some thread
  apart : ∀ writer reader, (state.place writer).writes = true →
    (state.place reader).reads = false
  known : ∀ thread, state.list.Known entries (state.place thread)

section Steps

variable {before after : CacheSet Thread} {entries : List Nat}
  {thread : Thread} {old place : SetPlace}

theorem Holds.sole (holds : before.Holds entries) (here : (before.place thread).holds = true)
    {other : Thread} (different : other ≠ thread) : (before.place other).holds = false := by
  by_contra not
  have ownsHere := (holds.owner thread).mp here
  have ownsOther := (holds.owner other).mp (Bool.eq_true_of_not_eq_false not)
  exact different (Option.some.inj (ownsOther.symm.trans ownsHere))

theorem Holds.others_passive (holds : before.Holds entries)
    (here : (before.place thread).holds = true) {other : Thread} (different : other ≠ thread) :
    (before.place other).adds = false := by
  by_contra not
  have adds := SetPlace.adds_holds (Bool.eq_true_of_not_eq_false not)
  rw [holds.sole here different] at adds
  cases adds

/-- A reader keeps the count from being zero. -/
theorem Holds.counted_pos (holds : before.Holds entries)
    (here : (before.place thread).reads = true) : 0 < before.readCount.toNat := by
  rw [holds.counted]
  by_contra not
  have none := placeCount_eq_zero.mp (Nat.eq_zero_of_not_pos not) thread
  rw [here] at none
  cases none

variable [DecidableEq Thread]

theorem Holds.frame (holds : before.Holds entries) (here : before.place thread = old)
    (same : after.list = before.list)
    (moved : after.place = Function.update before.place thread place)
    (known : before.list.Known entries place)
    (counted : after.readCount.toNat + old.reads.toNat =
      before.readCount.toNat + place.reads.toNat)
    (owner : place.holds = true ↔ after.lock = some thread)
    (owners : ∀ other, other ≠ thread → (before.lock = some other ↔ after.lock = some other))
    (apart : place.writes = true → ∀ reader, (before.place reader).reads = false)
    (enters : place.reads = true → old.reads = true ∨
      ∀ writer, writer ≠ thread → (before.place writer).writes = false)
    (elsewhere : ∀ block entry, old ≠ .load block (.follows entry)) :
    after.Holds entries := by
  constructor
  · rw [same]
    exact holds.chain
  · exact holds.nodup
  · rw [same]
    exact holds.allocated
  · intro quiet
    rw [same]
    apply holds.last
    intro other block entry follows
    by_cases isThread : other = thread
    · rw [isThread, here] at follows
      exact elsewhere block entry follows
    · apply quiet other block entry
      rw [moved, Function.update_of_ne isThread, follows]
  · have count := placeCount_update SetPlace.reads before.place thread place
    have counted' := holds.counted
    rw [here] at count
    rw [moved]
    omega
  · intro other
    rw [moved]
    by_cases isThread : other = thread
    · rw [isThread, Function.update_self]
      exact owner
    · rw [Function.update_of_ne isThread, holds.owner other]
      exact owners other isThread
  · intro writer reader writes
    rw [moved] at writes ⊢
    by_cases isWriter : writer = thread
    · rw [isWriter, Function.update_self] at writes
      by_cases isReader : reader = thread
      · rw [isReader, Function.update_self]
        exact SetPlace.not_reads_of_writes writes
      · rw [Function.update_of_ne isReader]
        exact apart writes reader
    · rw [Function.update_of_ne isWriter] at writes
      by_cases isReader : reader = thread
      · rw [isReader, Function.update_self]
        by_contra reads
        rcases enters (Bool.eq_true_of_not_eq_false reads) with earlier | none
        · rw [← here, holds.apart writer thread writes] at earlier
          cases earlier
        · rw [none writer isWriter] at writes
          cases writes
      · rw [Function.update_of_ne isReader]
        exact holds.apart writer reader writes
  · intro other
    rw [same, moved]
    by_cases isThread : other = thread
    · rw [isThread, Function.update_self]
      exact known
    · rw [Function.update_of_ne isThread]
      exact holds.known other

theorem Holds.goes (holds : before.Holds entries) (here : before.place thread = old)
    (same : after.list = before.list)
    (moved : after.place = Function.update before.place thread place)
    (count : after.readCount = before.readCount) (lock : after.lock = before.lock)
    (known : before.list.Known entries place)
    (reads : place.reads = old.reads) (held : place.holds = old.holds)
    (apart : place.writes = true → ∀ reader, (before.place reader).reads = false)
    (elsewhere : ∀ block entry, old ≠ .load block (.follows entry)) :
    after.Holds entries := by
  apply holds.frame here same moved known _ _ _ apart _ elsewhere
  · rw [count, reads]
  · rw [held, lock, ← here]
    exact holds.owner thread
  · intro other _
    rw [lock]
  · intro reading
    rw [reads] at reading
    exact .inl reading

theorem Holds.takes (holds : before.Holds entries) (here : before.place thread = old)
    (free : before.lock = none) (same : after.list = before.list)
    (moved : after.place = Function.update before.place thread place)
    (count : after.readCount = before.readCount) (lock : after.lock = some thread)
    (known : before.list.Known entries place) (uncounted : old.reads = false)
    (reads : place.reads = false) (held : place.holds = true) (writes : place.writes = false)
    (elsewhere : ∀ block entry, old ≠ .load block (.follows entry)) :
    after.Holds entries := by
  apply holds.frame here same moved known _ _ _ _ _ elsewhere
  · rw [count, reads, uncounted]
  · rw [held, lock]
    exact ⟨fun _ => rfl, fun _ => rfl⟩
  · intro other different
    rw [free, lock]
    exact ⟨nofun, fun same => absurd (Option.some.inj same).symm different⟩
  · rw [writes]
    nofun
  · rw [reads]
    nofun

theorem Holds.gives (holds : before.Holds entries) (here : before.place thread = old)
    (owned : old.holds = true) (same : after.list = before.list)
    (moved : after.place = Function.update before.place thread place)
    (count : after.readCount = before.readCount) (lock : after.lock = none)
    (known : before.list.Known entries place) (reads : place.reads = old.reads)
    (held : place.holds = false) (writes : place.writes = false)
    (elsewhere : ∀ block entry, old ≠ .load block (.follows entry)) :
    after.Holds entries := by
  have locked : before.lock = some thread := by
    apply (holds.owner thread).mp
    rw [here]
    exact owned
  apply holds.frame here same moved known _ _ _ _ _ elsewhere
  · rw [count, reads]
  · rw [held, lock]
    exact ⟨nofun, nofun⟩
  · intro other different
    rw [locked, lock]
    exact ⟨fun same => absurd (Option.some.inj same).symm different, nofun⟩
  · rw [writes]
    nofun
  · intro reading
    rw [reads] at reading
    exact .inl reading

/-- The thread that adds an entry is the one that could be between its two writes. -/
theorem Holds.lastEntry (holds : before.Holds entries) (here : before.place thread = old)
    (adds : old.adds = true) (elsewhere : ∀ block entry, old ≠ .load block (.follows entry))
    {entry : Nat} (last : entries.getLast? = some entry) : before.list.lastEntry = entry := by
  apply holds.last _ entry last
  intro other block entry follows
  by_cases same : other = thread
  · rw [same, here] at follows
    exact elsewhere block entry follows
  · have held : (before.place thread).holds = true := by
      rw [here]
      exact SetPlace.adds_holds adds
    have passive := holds.others_passive held same
    rw [follows] at passive
    cases passive

theorem Holds.edit {grown more : List Nat} (holds : before.Holds entries)
    (here : before.place thread = old) (adds : old.adds = true)
    (moved : after.place = Function.update before.place thread place)
    (count : after.readCount = before.readCount) (lock : after.lock = before.lock)
    (grows : grown = entries ++ more)
    (chain : Chain after.list.next after.list.firstEntry grown) (nodup : grown.Nodup)
    (allocated : ∀ entry ∈ grown, entry ∈ after.list.allocated)
    (last : (∀ block entry, place ≠ .load block (.follows entry)) →
      ∀ entry, grown.getLast? = some entry → after.list.lastEntry = entry)
    (held : place.holds = true) (uncounted : place.reads = false)
    (apart : place.writes = true → old.writes = true)
    (known : after.list.Known grown place)
    (named : ∀ cell ∈ entries, after.list.firstBlock cell = before.list.firstBlock cell)
    (readers : old.writes = true ∨
      more = [] ∧ ∀ cell ∈ entries, after.list.next cell = before.list.next cell) :
    after.Holds grown := by
  have owned : (before.place thread).holds = true := by
    rw [here]
    exact SetPlace.adds_holds adds
  have noReader : old.reads = false := by
    cases old with
    | load block point => rfl
    | _ => cases adds
  constructor
  · exact chain
  · exact nodup
  · exact allocated
  · intro quiet
    apply last
    intro block entry follows
    apply quiet thread block entry
    rw [moved, Function.update_self, follows]
  · have counts := placeCount_update SetPlace.reads before.place thread place
    rw [here, noReader, uncounted] at counts
    rw [count, moved, holds.counted]
    exact (Nat.add_right_cancel counts).symm
  · intro other
    rw [moved, lock]
    by_cases isThread : other = thread
    · rw [isThread, Function.update_self, ← holds.owner thread, held, owned]
    · rw [Function.update_of_ne isThread]
      exact holds.owner other
  · intro writer reader writes
    rw [moved] at writes ⊢
    have wrote : (before.place writer).writes = true := by
      by_cases isWriter : writer = thread
      · rw [isWriter, Function.update_self] at writes
        rw [isWriter, here]
        exact apart writes
      · rw [Function.update_of_ne isWriter] at writes
        exact writes
    by_cases isReader : reader = thread
    · rw [isReader, Function.update_self]
      exact uncounted
    · rw [Function.update_of_ne isReader]
      exact holds.apart writer reader wrote
  · intro other
    rw [moved]
    by_cases isThread : other = thread
    · rw [isThread, Function.update_self]
      exact known
    · rw [Function.update_of_ne isThread, grows]
      apply (holds.known other).keep (holds.others_passive owned isThread) named
      intro reads
      rcases readers with writes | stays
      · rw [← here] at writes
        rw [holds.apart thread other writes] at reads
        cases reads
      · exact stays

end Steps

end CacheSet

end DoggOS.Fs

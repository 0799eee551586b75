/-
What a cache set guarantees to threads that search it and add to it.

The list stays as it is while anyone is counted, so that a lookup gives the
first entry that covers the block; an entry that was added is on the list from
then on, and a lookup that begins later finds it.
-/

import DoggOS.Fs.PupCacheReaders

namespace DoggOS.Fs.CacheSet

variable {Thread : Type*} [Fintype Thread]

section Steps

variable {before after : CacheSet Thread} {entries : List Nat} {thread : Thread}
  {block : BitVec 64}

theorem Holds.decrement (holds : before.Holds entries)
    (reads : (before.place thread).reads = true) :
    (before.readCount + 0xffffffff#32).toNat + 1 = before.readCount.toNat := by
  have positive := holds.counted_pos reads
  have word := before.readCount.isLt
  rw [BitVec.toNat_add, BitVec.toNat_ofNat]
  omega

variable [DecidableEq Thread]

theorem Holds.call (holds : before.Holds entries)
    (stepped : before.next (.call thread block) = some after) :
    after.Holds entries ∧ after.list = before.list := by
  simp only [next] at stepped
  split at stepped
  · rename_i here
    cases stepped
    refine ⟨?_, rfl⟩
    exact holds.goes here rfl rfl rfl rfl trivial rfl rfl nofun nofun
  · rename_i here
    split at stepped
    · cases stepped
      refine ⟨?_, rfl⟩
      exact holds.goes here rfl rfl rfl rfl trivial rfl rfl nofun nofun
    · cases stepped
  · cases stepped

theorem known_found {list : EntryList} {entry : Nat} (answer : list.Answer entries block entry)
    (again : Bool) : list.Known entries (found again block entry) := by
  unfold found
  split
  · trivial
  · exact answer.covered

theorem found_outside (again : Bool) (block : BitVec 64) (entry : Nat) :
    (found again block entry).reads = false ∧ (found again block entry).holds = false ∧
      (found again block entry).writes = false := by
  unfold found
  split
  · exact ⟨rfl, rfl, rfl⟩
  · exact ⟨rfl, rfl, rfl⟩

theorem Holds.increment (holds : before.Holds entries) (few : Fintype.card Thread < 2 ^ 32)
    {again : Bool} (here : before.place thread = .find again block .increments) :
    (before.readCount + 1#32).toNat = before.readCount.toNat + 1 := by
  -- The thread is not counted yet, so that all the others are fewer than `Thread`.
  have count := placeCount_update SetPlace.reads before.place thread (.find again block .unlocks)
  have bound := placeCount_le_card SetPlace.reads
    (Function.update before.place thread (.find again block .unlocks))
  have counted := holds.counted
  rw [here] at count
  simp only [SetPlace.reads, Bool.toNat_true, Bool.toNat_false] at count
  rw [BitVec.toNat_add, BitVec.toNat_ofNat]
  omega

omit [Fintype Thread] in
theorem findAccess_list {again : Bool} {point : FindPoint}
    (stepped : before.findAccess thread again block point = some after) :
    after.list = before.list := by
  cases point with
  | locks =>
      simp only [findAccess] at stepped
      split at stepped
      · cases stepped
        rfl
      · cases stepped
  | compares entry =>
      simp only [findAccess] at stepped
      split at stepped
      · cases stepped
        rfl
      · cases stepped
        rfl
  | _ =>
      cases stepped
      rfl

theorem Holds.findAccess (holds : before.Holds entries) (few : Fintype.card Thread < 2 ^ 32)
    {again : Bool} {point : FindPoint} (here : before.place thread = .find again block point)
    (stepped : before.findAccess thread again block point = some after) :
    after.Holds entries := by
  have known := holds.known thread
  rw [here] at known
  cases point with
  | locks =>
      simp only [CacheSet.findAccess] at stepped
      split at stepped
      · rename_i free
        cases stepped
        exact holds.takes here free rfl rfl rfl rfl trivial rfl rfl rfl rfl nofun
      · cases stepped
  | increments =>
      cases stepped
      have held : (before.place thread).holds = true := by rw [here]; rfl
      have locked := (holds.owner thread).mp held
      refine holds.frame here rfl rfl trivial ?_ ?_ (fun _ _ => Iff.rfl) nofun ?_ nofun
      · exact holds.increment few here
      · exact ⟨fun _ => locked, fun _ => rfl⟩
      · intro _
        right
        intro writer different
        by_contra writes
        have adds := SetPlace.writes_adds (Bool.eq_true_of_not_eq_false writes)
        rw [holds.others_passive held different] at adds
        cases adds
  | unlocks =>
      cases stepped
      exact holds.gives here rfl rfl rfl rfl rfl trivial rfl rfl rfl nofun
  | enters =>
      cases stepped
      have start : before.list.Passed entries block before.list.firstEntry := .start holds.chain
      exact holds.goes here rfl rfl rfl rfl start rfl rfl nofun nofun
  | compares entry =>
      have passed : before.list.Passed entries block entry := known
      simp only [CacheSet.findAccess] at stepped
      split at stepped
      · rename_i goesOn
        cases stepped
        exact holds.goes here rfl rfl rfl rfl ⟨passed, goesOn⟩ rfl rfl nofun nofun
      · rename_i stop
        cases stepped
        exact holds.goes here rfl rfl rfl rfl (passed.answer stop) rfl rfl nofun nofun
  | advances entry =>
      cases stepped
      obtain ⟨passed, nonNull, other⟩ := known
      exact holds.goes here rfl rfl rfl rfl (passed.advance nonNull other) rfl rfl nofun nofun
  | acquires entry =>
      cases stepped
      have answer : before.list.Answer entries block entry := known
      exact holds.goes here rfl rfl rfl rfl answer rfl rfl nofun nofun
  | decrements entry =>
      cases stepped
      obtain ⟨reads, held, writes⟩ := found_outside again block entry
      have unlocked : before.lock ≠ some thread := by
        intro mine
        have owned := (holds.owner thread).mpr mine
        rw [here] at owned
        cases owned
      refine holds.frame here rfl rfl (known_found known again) ?_ ?_ (fun _ _ => Iff.rfl) ?_ ?_
        nofun
      · rw [reads]
        apply holds.decrement
        rw [here]
        rfl
      · rw [held]
        exact ⟨nofun, fun mine => absurd mine unlocked⟩
      · rw [writes]
        nofun
      · rw [reads]
        nofun

theorem Holds.allocate {entry : Nat} (holds : before.Holds entries)
    (stepped : before.next (.allocate thread entry) = some after) :
    after.Holds entries ∧ after.list.firstBlock = before.list.firstBlock := by
  simp only [next] at stepped
  split at stepped
  · rename_i loading here
    split at stepped
    · rename_i fresh
      obtain ⟨nonNull, unused⟩ := fresh
      cases stepped
      have absent : entry ∉ entries := fun member => unused (holds.allocated entry member)
      have apart : ∀ cell ∈ entries, (before.list.allocate entry).next cell =
          before.list.next cell := fun cell member =>
        Function.update_of_ne (ne_of_mem_of_not_mem member absent) _ _
      refine ⟨?_, rfl⟩
      refine holds.edit here rfl rfl rfl rfl (List.append_nil entries).symm ?_ holds.nodup ?_ ?_
        rfl rfl nofun ?_ (fun _ _ => rfl) (.inr ⟨rfl, apart⟩)
      · exact EntryList.chain_allocate holds.chain absent
      · intro cell member
        exact List.mem_cons_of_mem entry (holds.allocated cell member)
      · intro _ cell last
        exact holds.lastEntry here rfl nofun last
      · exact ⟨nonNull, List.mem_cons_self, absent, Function.update_self _ _ _⟩
    · cases stepped
  · cases stepped

theorem Holds.names {entry : Nat} (holds : before.Holds entries)
    (here : before.place thread = .load block (.names entry))
    (stepped : before.loadAccess thread block (.names entry) = some after) :
    after.Holds entries ∧
      ∀ cell ∈ entries, after.list.firstBlock cell = before.list.firstBlock cell := by
  have known := holds.known thread
  rw [here] at known
  cases stepped
  have unlisted : before.list.Unlisted entries entry := known
  have named : ∀ cell ∈ entries, (before.list.name block entry).firstBlock cell =
      before.list.firstBlock cell := fun cell member =>
    Function.update_of_ne (ne_of_mem_of_not_mem member unlisted.absent) _ _
  refine ⟨?_, named⟩
  refine holds.edit here rfl rfl rfl rfl (List.append_nil entries).symm holds.chain holds.nodup
    holds.allocated ?_ rfl rfl nofun ?_ named (.inr ⟨rfl, fun _ _ => rfl⟩)
  · intro _ cell last
    exact holds.lastEntry here rfl nofun last
  · exact ⟨⟨unlisted.nonNull, unlisted.allocated, unlisted.absent, unlisted.next⟩,
      EntryList.covers_name _ _ _⟩

theorem Holds.links {entry : Nat} (holds : before.Holds entries)
    (here : before.place thread = .load block (.links entry))
    (stepped : before.loadAccess thread block (.links entry) = some after) :
    after.Holds (entries ++ [entry]) ∧ after.list.firstBlock = before.list.firstBlock := by
  have known := holds.known thread
  rw [here] at known
  cases stepped
  obtain ⟨unlisted, covered⟩ := known
  obtain ⟨sameBlocks, sameAllocated⟩ := EntryList.link_firstBlock before.list entry
  refine ⟨?_, sameBlocks⟩
  refine holds.edit here rfl rfl rfl rfl rfl ?_ ?_ ?_ ?_ rfl rfl (fun _ => rfl) ?_
    (fun cell _ => congrFun sameBlocks cell) (.inl rfl)
  · apply EntryList.chain_link holds.chain holds.nodup _ unlisted
    intro cell last
    exact holds.lastEntry here rfl nofun last
  · rw [← List.concat_eq_append]
    exact holds.nodup.concat unlisted.absent
  · intro cell member
    change cell ∈ (before.list.link entry).allocated
    rw [sameAllocated]
    rcases List.mem_append.mp member with earlier | new
    · exact holds.allocated cell earlier
    · rw [List.mem_singleton.mp new]
      exact unlisted.allocated
  · intro elsewhere
    exact absurd rfl (elsewhere block entry)
  · refine ⟨List.getLast?_concat, ?_⟩
    rw [EntryList.covers_congr (congrFun sameBlocks entry)]
    exact covered

theorem Holds.follows {entry : Nat} (holds : before.Holds entries)
    (here : before.place thread = .load block (.follows entry))
    (stepped : before.loadAccess thread block (.follows entry) = some after) :
    after.Holds entries ∧ after.list.firstBlock = before.list.firstBlock := by
  have known := holds.known thread
  rw [here] at known
  cases stepped
  obtain ⟨last, covered⟩ := known
  refine ⟨?_, rfl⟩
  refine holds.edit here rfl rfl rfl rfl (List.append_nil entries).symm holds.chain holds.nodup
    holds.allocated ?_ rfl rfl nofun ⟨List.mem_of_getLast? last, covered⟩ (fun _ _ => rfl)
    (.inl rfl)
  intro _ cell isLast
  rw [last] at isLast
  exact Option.some.inj isLast

/-- The steps around an insertion that only take or give the lock, or wait. -/
theorem Holds.waits {point : LoadPoint} (holds : before.Holds entries)
    (here : before.place thread = .load block point)
    (stepped : before.loadAccess thread block point = some after)
    (reading : ∀ entry, point ≠ .names entry ∧ point ≠ .links entry ∧ point ≠ .follows entry) :
    after.Holds entries ∧ after.list = before.list := by
  have known := holds.known thread
  rw [here] at known
  cases point with
  | tries =>
      simp only [CacheSet.loadAccess] at stepped
      split at stepped
      · rename_i free
        cases stepped
        refine ⟨?_, rfl⟩
        exact holds.takes here free rfl rfl rfl rfl trivial rfl rfl rfl rfl nofun
      · cases stepped
        refine ⟨?_, rfl⟩
        exact holds.goes here rfl rfl rfl rfl trivial rfl rfl nofun nofun
  | allocates => cases stepped
  | names entry => exact absurd rfl (reading entry).1
  | stashes entry =>
      simp only [CacheSet.loadAccess] at stepped
      split at stepped
      · rename_i zero
        cases stepped
        refine ⟨?_, rfl⟩
        refine holds.goes here rfl rfl rfl rfl known rfl rfl ?_ nofun
        intro _
        apply placeCount_eq_zero.mp
        rw [← holds.counted, zero]
        rfl
      · cases stepped
  | links entry => exact absurd rfl (reading entry).2.1
  | follows entry => exact absurd rfl (reading entry).2.2
  | unlocks entry =>
      cases stepped
      refine ⟨?_, rfl⟩
      exact holds.gives here rfl rfl rfl rfl rfl (fun _ => known) rfl rfl rfl nofun
  | spins =>
      simp only [CacheSet.loadAccess] at stepped
      split at stepped
      · cases stepped
        refine ⟨?_, rfl⟩
        exact holds.goes here rfl rfl rfl rfl trivial rfl rfl nofun nofun
      · cases stepped

theorem Holds.loadAccess {point : LoadPoint} (holds : before.Holds entries)
    (here : before.place thread = .load block point)
    (stepped : before.loadAccess thread block point = some after) :
    ∃ grown, after.Holds grown ∧ EntryList.Grows before.list after.list entries grown := by
  cases point with
  | names entry =>
      obtain ⟨holds, named⟩ := holds.names here stepped
      exact ⟨entries, holds, .refl named⟩
  | links entry =>
      obtain ⟨holds, same⟩ := holds.links here stepped
      exact ⟨_, holds, List.prefix_append _ _, fun cell _ => congrFun same cell⟩
  | follows entry =>
      obtain ⟨holds, same⟩ := holds.follows here stepped
      exact ⟨entries, holds, .refl fun cell _ => congrFun same cell⟩
  | _ =>
      obtain ⟨holds, same⟩ := holds.waits here stepped fun _ => ⟨nofun, nofun, nofun⟩
      exact ⟨entries, holds, .refl fun cell _ => by rw [same]⟩

theorem Holds.next {turn : SetTurn Thread} (holds : before.Holds entries)
    (few : Fintype.card Thread < 2 ^ 32) (stepped : before.next turn = some after) :
    ∃ grown, after.Holds grown ∧ EntryList.Grows before.list after.list entries grown := by
  cases turn with
  | call thread block =>
      obtain ⟨holds, same⟩ := holds.call stepped
      exact ⟨entries, holds, .refl fun cell _ => by rw [same]⟩
  | access thread =>
      simp only [CacheSet.next] at stepped
      split at stepped
      · rename_i here
        have same := findAccess_list stepped
        exact ⟨entries, holds.findAccess few here stepped, .refl fun cell _ => by rw [same]⟩
      · rename_i here
        exact holds.loadAccess here stepped
      · cases stepped
  | allocate thread entry =>
      obtain ⟨holds, same⟩ := holds.allocate stepped
      exact ⟨entries, holds, .refl fun cell _ => congrFun same cell⟩

end Steps

def mounted : CacheSet (Fin 2) where
  list := ⟨0, 0, fun _ => 0, fun _ => 0#64, []⟩
  refCount := fun _ => 0#32
  readCount := 0#32
  lock := none
  place := fun _ => .idle

/-- One thread misses block 5 and adds an entry for it, up to the first write of two. -/
def addsFive : List (SetTurn (Fin 2)) :=
  .call 0 5#64 :: List.replicate 8 (.access 0) ++ .allocate 0 64 :: List.replicate 3 (.access 0)

def fiveAdded : CacheSet (Fin 2) := (Machine.follow next mounted addsFive).getD mounted

theorem fiveAdded_reachable : (machine (Fin 2)).Reachable fiveAdded := by
  apply (machine (Fin 2)).follow_reachable (fun _ _ _ step => step) _
    (show Machine.follow next mounted addsFive = some fiveAdded from rfl)
  exact (machine (Fin 2)).reachable_start ⟨rfl, rfl, rfl, rfl, fun _ => rfl⟩

/-- What every turn leaves: a list without a cycle that nobody changes under a reader, and
lookups that give the first entry covering their block. -/
structure Sound (state : CacheSet Thread) (entries : List Nat) : Prop where
  chain : Chain state.list.next state.list.firstEntry entries
  nodup : entries.Nodup
  counted : state.readCount.toNat = placeCount SetPlace.reads state.place
  apart : ∀ writer reader, (state.place writer).writes = true →
    (state.place reader).reads = false
  answer : ∀ thread again block entry, state.place thread = .find again block (.decrements entry) →
    entry = (entries.find? (state.list.covers block)).getD 0
  returned : ∀ thread block entry, state.place thread = .returned block entry → entry ≠ 0 →
    entry ∈ entries ∧ state.list.covers block entry = true

section Runs

variable {state before after : CacheSet Thread} {entries : List Nat}

theorem Cleared.holds (cleared : state.Cleared) : state.Holds [] where
  chain := cleared.firstEntry
  nodup := List.nodup_nil
  allocated := nofun
  last := nofun
  counted := by
    rw [cleared.readCount]
    symm
    apply placeCount_eq_zero.mpr
    intro thread
    rw [cleared.idle thread]
    rfl
  owner thread := by
    rw [cleared.idle thread, cleared.lock]
    exact ⟨nofun, nofun⟩
  apart writer reader := by
    rw [cleared.idle writer]
    nofun
  known thread := by
    rw [cleared.idle thread]
    trivial

theorem Holds.sound (holds : state.Holds entries) : state.Sound entries where
  chain := holds.chain
  nodup := holds.nodup
  counted := holds.counted
  apart := holds.apart
  answer thread again block entry here := by
    have known := holds.known thread
    rw [here] at known
    exact known
  returned thread block entry here := by
    have known := holds.known thread
    rw [here] at known
    exact known

variable [DecidableEq Thread]

theorem reachable_holds (few : Fintype.card Thread < 2 ^ 32)
    (reachable : (machine Thread).Reachable state) : ∃ entries, state.Holds entries := by
  apply (machine Thread).invariant _ _ reachable
  · intro initial cleared
    exact ⟨[], Cleared.holds cleared⟩
  · intro before turn after holds step
    obtain ⟨entries, holds⟩ := holds
    obtain ⟨grown, holds, _⟩ := holds.next few step
    exact ⟨grown, holds⟩

/-- In every run of fewer than 2^32 threads the set is sound between any two accesses. -/
theorem cacheSet_sound (few : Fintype.card Thread < 2 ^ 32)
    (reachable : (machine Thread).Reachable state) : ∃ entries, state.Sound entries := by
  obtain ⟨entries, holds⟩ := reachable_holds few reachable
  exact ⟨entries, holds.sound⟩

end Runs

theorem cacheSet_sound_fiveAdded : ∃ entries, fiveAdded.Sound entries :=
  cacheSet_sound (by decide) fiveAdded_reachable

def Misses (block : BitVec 64) : SetPlace → Prop
  | .load loading _ => loading = block
  | .returned looked entry => looked = block ∧ entry = 0
  | _ => False

section Misses

omit [Fintype Thread]

variable {before after : CacheSet Thread} {thread mover : Thread} {block looked : BitVec 64}
  {entries : List Nat}

theorem found_misses {again : Bool} {entry : Nat}
    (misses : Misses block (found again looked entry)) : looked = block ∧ entry = 0 := by
  unfold found at misses
  split at misses
  · rename_i null
    exact ⟨misses, null.1⟩
  · exact misses

variable [DecidableEq Thread]

theorem misses_move {place : SetPlace}
    (moved : after.place = Function.update before.place mover place)
    (misses : Misses block (after.place thread)) :
    Misses block (before.place thread) ∨ thread = mover ∧ Misses block place := by
  rw [moved] at misses
  by_cases same : thread = mover
  · rw [same, Function.update_self] at misses
    exact .inr ⟨same, misses⟩
  · rw [Function.update_of_ne same] at misses
    exact .inl misses

theorem findAccess_misses {again : Bool} {point : FindPoint}
    (here : before.place mover = .find again looked point)
    (stepped : before.findAccess mover again looked point = some after)
    (misses : Misses block (after.place thread)) :
    Misses block (before.place thread) ∨
      ∃ again, before.place thread = .find again block (.decrements 0) := by
  have goesOn : ∀ point',
      after.place = Function.update before.place mover (.find again looked point') →
      Misses block (before.place thread) := by
    intro point' moved
    rcases misses_move moved misses with earlier | ⟨_, new⟩
    · exact earlier
    · exact new.elim
  cases point with
  | locks =>
      simp only [findAccess] at stepped
      split at stepped
      · cases stepped
        exact .inl (goesOn .increments rfl)
      · cases stepped
  | increments =>
      cases stepped
      exact .inl (goesOn .unlocks rfl)
  | unlocks =>
      cases stepped
      exact .inl (goesOn .enters rfl)
  | enters =>
      cases stepped
      exact .inl (goesOn _ rfl)
  | compares entry =>
      simp only [findAccess] at stepped
      split at stepped
      · cases stepped
        exact .inl (goesOn _ rfl)
      · cases stepped
        exact .inl (goesOn _ rfl)
  | advances entry =>
      cases stepped
      exact .inl (goesOn _ rfl)
  | acquires entry =>
      cases stepped
      exact .inl (goesOn (.decrements entry) rfl)
  | decrements entry =>
      cases stepped
      rcases misses_move rfl misses with earlier | ⟨same, new⟩
      · exact .inl earlier
      · obtain ⟨looks, null⟩ := found_misses new
        rw [looks, null] at here
        rw [same]
        exact .inr ⟨again, here⟩

theorem loadAccess_misses {point : LoadPoint} (here : before.place mover = .load looked point)
    (stepped : before.loadAccess mover looked point = some after)
    (misses : Misses block (after.place thread)) : Misses block (before.place thread) := by
  have adds : ∀ place, after.place = Function.update before.place mover place →
      (Misses block place → looked = block) → Misses block (before.place thread) := by
    intro place moved missed
    rcases misses_move moved misses with earlier | ⟨same, new⟩
    · exact earlier
    · rw [same, here]
      exact missed new
  cases point with
  | tries =>
      simp only [loadAccess] at stepped
      split at stepped
      · cases stepped
        exact adds (.load looked .allocates) rfl id
      · cases stepped
        exact adds (.load looked .spins) rfl id
  | allocates => cases stepped
  | names entry =>
      cases stepped
      exact adds (.load looked (.stashes entry)) rfl id
  | stashes entry =>
      simp only [loadAccess] at stepped
      split at stepped
      · cases stepped
        exact adds (.load looked (.links entry)) rfl id
      · cases stepped
  | links entry =>
      cases stepped
      exact adds (.load looked (.follows entry)) rfl id
  | follows entry =>
      cases stepped
      exact adds (.load looked (.unlocks entry)) rfl id
  | unlocks entry =>
      cases stepped
      exact adds (.returned looked entry) rfl And.left
  | spins =>
      simp only [loadAccess] at stepped
      split at stepped
      · cases stepped
        exact adds (.find true looked .locks) rfl False.elim
      · cases stepped

/-- A thread that comes to miss a block has just read the whole list. -/
theorem next_misses {turn : SetTurn Thread} (stepped : before.next turn = some after)
    (misses : Misses block (after.place thread)) :
    Misses block (before.place thread) ∨
      ∃ again, before.place thread = .find again block (.decrements 0) := by
  cases turn with
  | call mover called =>
      simp only [next] at stepped
      have starts : after = before.moveTo mover (.find false called .locks) := by
        split at stepped
        · exact (Option.some.inj stepped).symm
        · split at stepped
          · exact (Option.some.inj stepped).symm
          · cases stepped
        · cases stepped
      rw [starts] at misses
      rcases misses_move rfl misses with earlier | ⟨_, new⟩
      · exact .inl earlier
      · exact new.elim
  | access mover =>
      simp only [next] at stepped
      split at stepped
      · rename_i here
        exact findAccess_misses here stepped misses
      · rename_i here
        exact .inl (loadAccess_misses here stepped misses)
      · cases stepped
  | allocate mover entry =>
      simp only [next] at stepped
      split at stepped
      · rename_i here
        split at stepped
        · cases stepped
          rcases misses_move rfl misses with earlier | ⟨same, new⟩
          · exact .inl earlier
          · rw [same, here]
            exact .inl new
        · cases stepped
      · cases stepped

end Misses

section Found

variable {before after : CacheSet Thread} {thread : Thread} {block : BitVec 64} {cell : Nat}

structure Serves (state : CacheSet Thread) (block : BitVec 64) (cell : Nat) : Prop where
  listed : ∃ entries, Chain state.list.next state.list.firstEntry entries ∧ cell ∈ entries
  covers : state.list.covers block cell = true

theorem Holds.mem {entries : List Nat} (holds : before.Holds entries)
    (serves : before.Serves block cell) : cell ∈ entries := by
  obtain ⟨listed, chain, member⟩ := serves.listed
  rw [holds.chain.unique chain]
  exact member

variable [DecidableEq Thread]

theorem Holds.serves_next {entries : List Nat} {turn : SetTurn Thread}
    (holds : before.Holds entries) (few : Fintype.card Thread < 2 ^ 32)
    (stepped : before.next turn = some after) (serves : before.Serves block cell) :
    after.Serves block cell := by
  have member := holds.mem serves
  obtain ⟨grown, holds', grows⟩ := holds.next few stepped
  refine ⟨⟨grown, holds'.chain, grows.grown.subset member⟩, ?_⟩
  rw [EntryList.covers_congr (grows.blocks cell member)]
  exact serves.covers

theorem Holds.serves_misses {entries : List Nat} {turn : SetTurn Thread}
    (holds : before.Holds entries) (stepped : before.next turn = some after)
    (serves : before.Serves block cell) (outside : ¬ Misses block (before.place thread)) :
    ¬ Misses block (after.place thread) := by
  intro misses
  rcases next_misses stepped misses with earlier | ⟨again, here⟩
  · exact outside earlier
  · have answer := holds.sound.answer thread again block 0 here
    have nonNull : ∀ cell ∈ entries, cell ≠ 0 := fun cell member =>
      holds.chain.ne_zero_of_mem member
    have not := EntryList.Answer.null answer nonNull (holds.mem serves)
    rw [serves.covers] at not
    cases not

/-- From a state on in which an entry covers a block, that entry stays on the list, and no thread
that was not missing the block adds another one for it or returns null for it. -/
theorem cacheSet_found (few : Fintype.card Thread < 2 ^ 32)
    (reachable : (machine Thread).Reachable before) (serves : before.Serves block cell)
    (outside : ¬ Misses block (before.place thread))
    (path : Relation.ReflTransGen (machine Thread).Moves before after) :
    after.Serves block cell ∧ ¬ Misses block (after.place thread) := by
  induction path with
  | refl => exact ⟨serves, outside⟩
  | tail path move ih =>
      obtain ⟨turn, step⟩ := move
      obtain ⟨serves, outside⟩ := ih
      obtain ⟨first, initial, earlier⟩ := reachable
      obtain ⟨entries, holds⟩ := reachable_holds few ⟨first, initial, earlier.trans path⟩
      exact ⟨holds.serves_next few step serves, holds.serves_misses step serves outside⟩

end Found

def findsSeven : List (SetTurn (Fin 2)) :=
  List.replicate 2 (.access 0) ++ .call 1 7#64 :: List.replicate 7 (.access 1)

def sevenFound : CacheSet (Fin 2) := (Machine.follow next fiveAdded findsSeven).getD mounted

/-- The lookup finds the entry that the first thread has added. -/
theorem cacheSet_found_seven : sevenFound.Serves 7#64 64 ∧
    ¬ Misses 7#64 (sevenFound.place 1) ∧ sevenFound.place 1 = .returned 7#64 64 := by
  have path := (machine (Fin 2)).follow_moves (fun _ _ _ step => step)
    (show Machine.follow next fiveAdded findsSeven = some sevenFound from rfl)
  have found : sevenFound.Serves 7#64 64 ∧ ¬ Misses 7#64 (sevenFound.place 1) :=
    cacheSet_found (by decide) fiveAdded_reachable
      ⟨⟨[64], ⟨rfl, by decide, rfl⟩, List.mem_singleton_self 64⟩, by decide⟩ id path
  exact ⟨found.1, found.2, rfl⟩

section Progress

variable {state : CacheSet Thread} {entries : List Nat} {thread : Thread}

def Waits (state : CacheSet Thread) : SetPlace → Prop
  | .find _ _ .locks | .load _ .spins => state.lock ≠ none
  | .load _ (.stashes _) => state.readCount ≠ 0#32
  | _ => False

theorem Holds.exists_reader (holds : state.Holds entries) (counted : state.readCount ≠ 0#32) :
    ∃ reader, (state.place reader).reads = true := by
  by_contra none
  have zero : placeCount SetPlace.reads state.place = 0 := by
    apply placeCount_eq_zero.mpr
    intro reader
    by_contra reads
    exact none ⟨reader, Bool.eq_true_of_not_eq_false reads⟩
  rw [← holds.counted] at zero
  exact counted (BitVec.eq_of_toNat_eq zero)

omit [Fintype Thread] in
theorem reads_goesOn {place : SetPlace} (reads : place.reads = true) :
    place.busy = true ∧ ¬ state.Waits place := by
  cases place with
  | find again block point =>
      cases point with
      | locks => cases reads
      | _ => exact ⟨rfl, id⟩
  | _ => cases reads

omit [Fintype Thread] in
theorem holds_waits {place : SetPlace} (held : place.holds = true) (waits : state.Waits place) :
    state.readCount ≠ 0#32 := by
  cases place with
  | find again block point =>
      cases point with
      | locks => cases held
      | _ => exact waits.elim
  | load block point =>
      cases point with
      | spins => cases held
      | stashes entry => exact waits
      | _ => exact waits.elim
  | _ => cases held

omit [Fintype Thread] in
theorem waits_locked {place : SetPlace} (waits : state.Waits place)
    (uncounted : state.readCount = 0#32) : state.lock ≠ none := by
  cases place with
  | find again block point =>
      cases point with
      | locks => exact waits
      | _ => exact waits.elim
  | load block point =>
      cases point with
      | spins => exact waits
      | stashes entry => exact absurd uncounted waits
      | _ => exact waits.elim
  | _ => exact waits.elim

theorem holds_busy {place : SetPlace} (held : place.holds = true) : place.busy = true := by
  cases place with
  | find again block point => rfl
  | load block point => rfl
  | _ => cases held

variable [DecidableEq Thread]

def CanStep (state : CacheSet Thread) (thread : Thread) : Prop :=
  (∃ after, state.next (.access thread) = some after) ∨
    ∃ entry after, state.next (.allocate thread entry) = some after

omit [Fintype Thread] in
theorem canStep_of_not_waits (busy : (state.place thread).busy = true)
    (ready : ¬ state.Waits (state.place thread)) : state.CanStep thread := by
  cases here : state.place thread with
  | idle =>
      rw [here] at busy
      cases busy
  | returned block entry =>
      rw [here] at busy
      cases busy
  | find again block point =>
      rw [here] at ready
      have steps : ∃ after, state.findAccess thread again block point = some after := by
        cases point with
        | locks =>
            have free : state.lock = none := not_not.mp ready
            exact ⟨_, if_pos free⟩
        | compares entry =>
            simp only [findAccess]
            split
            · exact ⟨_, rfl⟩
            · exact ⟨_, rfl⟩
        | _ => exact ⟨_, rfl⟩
      obtain ⟨after, step⟩ := steps
      refine .inl ⟨after, ?_⟩
      simp only [next, here]
      exact step
  | load block point =>
      rw [here] at ready
      cases point with
      | allocates =>
          obtain ⟨entry, fresh⟩ :=
            Infinite.exists_notMem_finset (0 :: state.list.allocated).toFinset
          rw [List.mem_toFinset, List.mem_cons, not_or] at fresh
          refine .inr ⟨entry, ?_⟩
          simp only [next, here]
          rw [if_pos fresh]
          exact ⟨_, rfl⟩
      | tries =>
          have steps : ∃ after, state.loadAccess thread block .tries = some after := by
            simp only [loadAccess]
            split
            · exact ⟨_, rfl⟩
            · exact ⟨_, rfl⟩
          obtain ⟨after, step⟩ := steps
          refine .inl ⟨after, ?_⟩
          simp only [next, here]
          exact step
      | stashes entry =>
          have zero : state.readCount = 0#32 := not_not.mp ready
          refine .inl ?_
          simp only [next, here, loadAccess]
          rw [if_pos zero]
          exact ⟨_, rfl⟩
      | spins =>
          have free : state.lock = none := not_not.mp ready
          refine .inl ?_
          simp only [next, here, loadAccess]
          rw [if_pos free]
          exact ⟨_, rfl⟩
      | _ =>
          refine .inl ?_
          simp only [next, here, loadAccess]
          exact ⟨_, rfl⟩

/-- As long as a call is going on, one of the calls can make its next access: the threads never
wait for each other in a circle. -/
theorem cacheSet_progress (few : Fintype.card Thread < 2 ^ 32)
    (reachable : (machine Thread).Reachable state) (busy : (state.place thread).busy = true) :
    ∃ other, (state.place other).busy = true ∧ state.CanStep other := by
  obtain ⟨entries, holds⟩ := reachable_holds few reachable
  by_cases waits : state.Waits (state.place thread)
  · by_cases counted : state.readCount = 0#32
    · -- The holder of the lock waits for readers only, and there are none.
      obtain ⟨holder, lock⟩ := Option.ne_none_iff_exists'.mp (waits_locked waits counted)
      have held := (holds.owner holder).mpr lock
      have ready : ¬ state.Waits (state.place holder) := fun waits =>
        holds_waits held waits counted
      exact ⟨holder, holds_busy held, canStep_of_not_waits (holds_busy held) ready⟩
    · obtain ⟨reader, reads⟩ := holds.exists_reader counted
      obtain ⟨busy, ready⟩ : (state.place reader).busy = true ∧
          ¬ state.Waits (state.place reader) := reads_goesOn reads
      exact ⟨reader, busy, canStep_of_not_waits busy ready⟩
  · exact ⟨thread, busy, canStep_of_not_waits busy waits⟩

end Progress

theorem cacheSet_progress_fiveAdded : ∃ other, (fiveAdded.place other).busy = true ∧
    fiveAdded.CanStep other :=
  cacheSet_progress (by decide) fiveAdded_reachable
    (show (fiveAdded.place 0).busy = true from rfl)

end DoggOS.Fs.CacheSet

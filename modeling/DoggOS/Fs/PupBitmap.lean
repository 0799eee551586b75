/-
The block bitmap over whole runs of allocations and frees.

An allocation takes the lowest clear bit.  A free clears a bit of the right
byte, but the bit number comes from the byte index, so it is the bit of the
block only when these two agree.  In runs that free only such blocks the set
bits are exactly the live blocks.
-/

import DoggOS.Library.Machine
import DoggOS.Fs.PupVolume

namespace DoggOS.Fs

namespace PupVolume

variable {volume after : PupVolume} {block index : Nat}

def allocatable (volume : PupVolume) : Nat := volume.root.blockCount - volume.root.allocStart

def isSet (volume : PupVolume) (index : Nat) : Bool := bitAt volume.blockBitmask index

theorem cmpXchg8_self (bytes : Bytes) (location : Nat) (new : UInt8) :
    cmpXchg8 bytes location (bytes location) new = (true, Function.update bytes location new) := by
  unfold cmpXchg8
  rw [if_pos rfl]

private theorem and_seven (index : Nat) : index &&& 0x7 = index % 8 :=
  Nat.and_two_pow_sub_one_eq_mod index 3

private theorem shift_three (index : Nat) : index >>> 3 = index / 8 :=
  Nat.shiftRight_eq_div_pow index 3

def taken (bytes : Bytes) (index : Nat) : Bytes :=
  Function.update bytes (index / 8) (bytes (index / 8) ||| byteBit (index % 8))

theorem allocTurn_set {allocStart count : Nat} {bytes : Bytes} (inside : index < count)
    (fits : count < 2 ^ 32) (set : bitAt bytes index = true) :
    allocTurn allocStart count ⟨index, block, bytes, false⟩ =
      some ⟨index + 1, block, bytes, false⟩ := by
  have notClear : ¬ bytes (index / 8) &&& byteBit (index % 8) = 0 := by
    rw [BitArray.and_byteBit (Nat.mod_lt _ (by decide))]
    unfold bitAt at set
    rw [set]
    exact Bool.noConfusion
  have next : (index + 1) % 2 ^ 32 = index + 1 := by omega
  unfold allocTurn
  rw [if_neg (by simp [inside])]
  simp only [shift_three, and_seven, next]
  rw [if_neg notClear]

theorem allocTurn_clear {allocStart count : Nat} {bytes : Bytes} (inside : index < count)
    (clear : bitAt bytes index = false) :
    allocTurn allocStart count ⟨index, block, bytes, false⟩ =
      some ⟨index, (allocStart + index) % 2 ^ 64, taken bytes index, true⟩ := by
  have isClear : bytes (index / 8) &&& byteBit (index % 8) = 0 := by
    rw [BitArray.and_byteBit (Nat.mod_lt _ (by decide))]
    exact clear
  unfold allocTurn
  rw [if_neg (by simp [inside])]
  simp only [shift_three, and_seven, cmpXchg8_self]
  rw [if_pos isClear, if_pos trivial]
  rfl

theorem search_spec (allocStart : Nat) {count : Nat} (fits : count < 2 ^ 32) (bytes : Bytes)
    (turns : Nat) (index : Nat) (enough : count - index < turns) :
    (∃ found, index ≤ found ∧ found < count ∧ bitAt bytes found = false ∧
      (∀ lower, index ≤ lower → lower < found → bitAt bytes lower = true) ∧
      whileLoop (allocTurn allocStart count) turns ⟨index, nullLink, bytes, false⟩ =
        some ⟨found, (allocStart + found) % 2 ^ 64, taken bytes found, true⟩) ∨
    ((∀ lower, index ≤ lower → lower < count → bitAt bytes lower = true) ∧
      ∃ last, whileLoop (allocTurn allocStart count) turns ⟨index, nullLink, bytes, false⟩ =
        some ⟨last, nullLink, bytes, false⟩) := by
  induction turns generalizing index with
  | zero => omega
  | succ turns ih =>
      by_cases inside : index < count
      · cases bit : bitAt bytes index with
        | false =>
            left
            refine ⟨index, Nat.le_refl _, inside, bit, ?_, ?_⟩
            · intro lower above below
              omega
            · rw [WhileLoop.turn (allocTurn_clear inside bit)]
              cases turns with
              | zero => omega
              | succ turns => exact WhileLoop.stop (by simp [allocTurn]) turns
        | true =>
            rw [WhileLoop.turn (allocTurn_set inside fits bit)]
            rcases ih (index + 1) (by omega) with found | exhausted
            · obtain ⟨found, above, below, clear, lowerSet, ran⟩ := found
              left
              refine ⟨found, by omega, below, clear, ?_, ran⟩
              intro lower from_index below_found
              by_cases same : lower = index
              · rw [same]
                exact bit
              · exact lowerSet lower (by omega) below_found
            · right
              refine ⟨?_, exhausted.2⟩
              intro lower from_index below_count
              by_cases same : lower = index
              · rw [same]
                exact bit
              · exact exhausted.1 lower (by omega) below_count
      · right
        constructor
        · intro lower above below
          omega
        · exact ⟨index, WhileLoop.stop (by simp [allocTurn, inside]) turns⟩

def take (volume : PupVolume) (index : Nat) : PupVolume :=
  { volume with blockBitmask := taken volume.blockBitmask index }

theorem isSet_take (other : Nat) :
    (volume.take index).isSet other = (volume.isSet other || decide (index = other)) :=
  BitArray.bitAt_set other

structure Sized (volume : PupVolume) : Prop where
  order : volume.root.allocStart ≤ volume.root.blockCount
  word : volume.root.blockCount < 2 ^ 64

theorem Sized.searchCount (sized : volume.Sized) :
    volume.searchCount = volume.allocatable % 2 ^ 32 := by
  obtain ⟨order, word⟩ := sized
  unfold PupVolume.searchCount allocatable
  omega

/-- `k_fs_PupAllocBlock` returns, with the lowest free block or with none. -/
theorem allocBlock_spec (sized : volume.Sized) :
    (∃ found, found < volume.searchCount ∧ volume.isSet found = false ∧
      (∀ lower, lower < found → volume.isSet lower = true) ∧
      volume.allocBlock = some (volume.root.allocStart + found, volume.take found)) ∨
    ((∀ index, index < volume.searchCount → volume.isSet index = true) ∧
      volume.allocBlock = some (nullLink, volume)) := by
  have count := sized.searchCount
  obtain ⟨order, word⟩ := sized
  have fits : volume.searchCount < 2 ^ 32 := by omega
  have searched := search_spec volume.root.allocStart fits volume.blockBitmask
    (volume.searchCount + 1) 0 (by omega)
  rcases searched with found | none
  · obtain ⟨found, -, below, clear, lowerSet, ran⟩ := found
    left
    refine ⟨found, below, clear, fun lower => lowerSet lower (Nat.zero_le _), ?_⟩
    have noWrap : (volume.root.allocStart + found) % 2 ^ 64 = volume.root.allocStart + found := by
      unfold allocatable at count
      omega
    unfold allocBlock
    rw [ran, noWrap]
    rfl
  · obtain ⟨allSet, last, ran⟩ := none
    right
    constructor
    · intro index
      exact allSet index (Nat.zero_le _)
    · unfold allocBlock
      rw [ran]
      rfl

theorem allocBlock_lowest (sized : volume.Sized) (inside : index < volume.searchCount)
    (clear : volume.isSet index = false)
    (lower : ∀ other, other < index → volume.isSet other = true) :
    volume.allocBlock = some (volume.root.allocStart + index, volume.take index) := by
  rcases allocBlock_spec sized with found | none
  · obtain ⟨found, -, foundClear, lowerSet, ran⟩ := found
    rcases Nat.lt_trichotomy found index with below | same | above
    · have set := lower found below
      rw [foundClear] at set
      cases set
    · rw [← same]
      exact ran
    · have set := lowerSet index above
      rw [clear] at set
      cases set
  · have set := none.1 index inside
    rw [clear] at set
    cases set

/-- The first clear bit is taken and no other, or there is none and nothing happens. -/
structure FirstFit (volume : PupVolume) : Prop where
  lowest : ∀ index, index < volume.allocatable → volume.isSet index = false →
    (∀ lower, lower < index → volume.isSet lower = true) →
    ∃ after, volume.allocBlock = some (volume.root.allocStart + index, after) ∧
      after.root = volume.root ∧ after.cacheEntries = volume.cacheEntries ∧
      ∀ other, after.isSet other = (volume.isSet other || decide (index = other))
  full : (∀ index, index < volume.allocatable → volume.isSet index = true) ↔
    volume.allocBlock = some (nullLink, volume)
  nullWhenFull : ∀ after, volume.allocBlock = some (nullLink, after) →
    ∀ index, index < volume.allocatable → volume.isSet index = true
  returns : ∃ block after, volume.allocBlock = some (block, after)

theorem allocBlock_firstFit (volume : PupVolume) (start : 1 ≤ volume.root.allocStart)
    (order : volume.root.allocStart ≤ volume.root.blockCount)
    (small : volume.root.blockCount < 2 ^ 32) : volume.FirstFit := by
  have sized : volume.Sized := ⟨order, by omega⟩
  -- No part of the count is lost in the 32-bit variable.
  have count : volume.searchCount = volume.allocatable := by
    rw [sized.searchCount]
    unfold allocatable
    omega
  have nonNull : ∀ index, volume.root.allocStart + index ≠ nullLink := by
    intro index
    unfold nullLink
    omega
  have spec := allocBlock_spec sized
  rw [count] at spec
  have whenNull : ∀ after, volume.allocBlock = some (nullLink, after) →
      ∀ index, index < volume.allocatable → volume.isSet index = true := by
    intro after null
    rcases spec with found | none
    · obtain ⟨found, -, -, -, ran⟩ := found
      rw [ran] at null
      exact absurd (Prod.mk.inj (Option.some.inj null)).1 (nonNull found)
    · exact none.1
  constructor
  · intro index inside clear lower
    refine ⟨volume.take index, ?_, rfl, rfl, isSet_take⟩
    exact allocBlock_lowest sized (by omega) clear lower
  · constructor
    · intro allSet
      rcases spec with found | none
      · obtain ⟨found, below, clear, -, -⟩ := found
        rw [allSet found below] at clear
        cases clear
      · exact none.2
    · exact whenNull volume
  · exact whenNull
  · rcases spec with found | none
    · obtain ⟨found, -, -, -, ran⟩ := found
      exact ⟨_, _, ran⟩
    · exact ⟨_, _, none.2⟩

/-- Twenty blocks behind the bitmap, the first nine of them in use. -/
theorem allocBlock_firstFit_nine : FirstFit
    { root := ⟨[], 256, 2, 1, 4, 24⟩
      blockBitmask := fun index => if index = 0 then 0xff else 1
      cacheEntries := [] } :=
  allocBlock_firstFit _ (by decide) (by decide) (by decide)

def clearedBit (index : Nat) : Nat := index / 8 * 8 + index / 8 % 8

theorem isSet_freeBlock (sized : volume.Sized) (inside : index < volume.allocatable) (other : Nat) :
    (volume.freeBlock (volume.root.allocStart + index)).isSet other =
      (volume.isSet other && !decide (clearedBit index = other)) := by
  obtain ⟨order, word⟩ := sized
  unfold allocatable at inside
  have offset : (volume.root.allocStart + index + 2 ^ 64 - volume.root.allocStart) % 2 ^ 64 =
      index := by omega
  have cleared : (volume.freeBlock (volume.root.allocStart + index)).blockBitmask =
      Function.update volume.blockBitmask (index / 8)
        (volume.blockBitmask (index / 8) &&& ~~~ byteBit (index / 8 % 8)) := by
    unfold freeBlock
    simp only [offset, shift_three, and_seven, cmpXchg8_self]
  unfold isSet
  rw [cleared]
  exact BitArray.bitAt_clear (Nat.mod_lt _ (by decide)) other

def allocBlocks : Nat → PupVolume → Option (List Nat × PupVolume)
  | 0, volume => some ([], volume)
  | count + 1, volume => volume.allocBlock.bind fun first =>
      (allocBlocks count first.2).map fun rest => (first.1 :: rest.1, rest.2)

theorem allocBlocks_reaches (sized : volume.Sized) (inside : index < volume.searchCount)
    (clear : volume.isSet index = false) (gap : Nat) (lower : ∀ other, other + gap < index →
      volume.isSet other = true) :
    ∃ count blocks after, allocBlocks count volume = some (blocks, after) ∧
      volume.root.allocStart + index ∈ blocks := by
  induction gap generalizing volume with
  | zero =>
      have ran := allocBlock_lowest sized inside clear lower
      refine ⟨1, [volume.root.allocStart + index], volume.take index, ?_, ?_⟩
      · simp only [allocBlocks, ran, Option.bind_some, Option.map_some]
      · exact List.mem_singleton_self _
  | succ gap ih =>
      rcases allocBlock_spec sized with found | none
      · obtain ⟨found, -, foundClear, lowerSet, ran⟩ := found
        by_cases same : found = index
        · refine ⟨1, [volume.root.allocStart + found], volume.take found, ?_, ?_⟩
          · simp only [allocBlocks, ran, Option.bind_some, Option.map_some]
          · rw [same]
            exact List.mem_singleton_self _
        · have below : found < index := by
            apply Nat.lt_of_not_le
            intro above
            have set := lowerSet index (by omega)
            rw [clear] at set
            cases set
          have stillClear : (volume.take found).isSet index = false := by
            rw [isSet_take, clear, decide_eq_false same]
            rfl
          have enough : ∀ other, other + gap < index → (volume.take found).isSet other = true := by
            intro other close
            rw [isSet_take]
            by_cases atFound : found = other
            · rw [decide_eq_true atFound, Bool.or_true]
            · have set : volume.isSet other = true := by
                by_cases under : other < found
                · exact lowerSet other under
                · apply lower other
                  apply Nat.lt_of_not_le
                  intro far
                  have foundSet := lower found (by omega)
                  rw [foundClear] at foundSet
                  cases foundSet
              rw [set, Bool.true_or]
          obtain ⟨count, blocks, after, rest, member⟩ :=
            @ih (volume.take found) ⟨sized.order, sized.word⟩ inside stillClear enough
          refine ⟨count + 1, (volume.root.allocStart + found) :: blocks, after, ?_, ?_⟩
          · simp only [allocBlocks, ran, Option.bind_some, rest, Option.map_some]
          · exact List.mem_cons_of_mem _ member
      · have set := none.1 index inside
        rw [clear] at set
        cases set

end PupVolume

open PupVolume

inductive BlockCall where
  | alloc
  | free (block : Nat)
deriving DecidableEq, Repr

structure BlockRun where
  volume : PupVolume
  live : List Nat

def BlockRun.alloc (run : BlockRun) (block : Nat) (volume : PupVolume) : BlockRun :=
  { volume, live := if block = nullLink then run.live else block :: run.live }

def BlockRun.free (run : BlockRun) (block : Nat) : BlockRun :=
  { volume := run.volume.freeBlock block
    live := run.live.filter (fun other => decide (other ≠ block)) }

/-- A mounted volume with a clear bitmap; only live blocks are freed. -/
def blockMachine : Machine BlockRun BlockCall where
  start run := run.volume.Sized ∧ run.live = [] ∧
    ∀ index, index < run.volume.allocatable → run.volume.isSet index = false
  step before label after :=
    match label with
    | .alloc => ∃ block volume, before.volume.allocBlock = some (block, volume) ∧
        after = before.alloc block volume
    | .free block => block ∈ before.live ∧ after = before.free block

/-- The byte index and the block number agree on the bit; block 0 is not allocatable. -/
def BitsAgree (run : BlockRun) : BlockCall → Prop
  | .alloc => run.volume.root.allocStart ≠ nullLink
  | .free block =>
      let index := block - run.volume.root.allocStart
      index / 8 % 8 = index % 8

/-- The free clears the bit of its block only, and the block can be returned again. -/
structure PupVolume.FreesExactly (volume : PupVolume) (block : Nat) : Prop where
  ownBit : ∀ index, index < volume.allocatable → (volume.freeBlock block).isSet index =
    (volume.isSet index && !decide (volume.root.allocStart + index = block))
  again : ∃ count blocks after, allocBlocks count (volume.freeBlock block) = some (blocks, after) ∧
    block ∈ blocks

structure BlockRun.Consistent (run : BlockRun) : Prop where
  setExactly : ∀ index, index < run.volume.allocatable →
    (run.volume.isSet index = true ↔ run.volume.root.allocStart + index ∈ run.live)
  allocReturns : ∃ block volume, run.volume.allocBlock = some (block, volume) ∧ block ∉ run.live
  freeExactly : ∀ block ∈ run.live,
    (run.volume.FreesExactly block ↔ BitsAgree run (.free block))

structure BlockRun.Tracked (run : BlockRun) : Prop where
  sized : run.volume.Sized
  setExactly : ∀ index, index < run.volume.allocatable →
    (run.volume.isSet index = true ↔ run.volume.root.allocStart + index ∈ run.live)
  liveBlocks : ∀ block ∈ run.live, block ≠ nullLink ∧
    ∃ index, index < run.volume.searchCount ∧ block = run.volume.root.allocStart + index

namespace BlockRun.Tracked

variable {run : BlockRun}

theorem searchCount_le (tracked : run.Tracked) : run.volume.searchCount ≤ run.volume.allocatable := by
  rw [tracked.sized.searchCount]
  exact Nat.mod_le _ _

theorem alloc (tracked : run.Tracked) (nonNull : run.volume.root.allocStart ≠ nullLink)
    {block : Nat} {volume : PupVolume} (ran : run.volume.allocBlock = some (block, volume)) :
    (run.alloc block volume).Tracked := by
  have order := tracked.searchCount_le
  rcases allocBlock_spec tracked.sized with found | none
  · obtain ⟨found, below, clear, -, result⟩ := found
    rw [result] at ran
    obtain ⟨rfl, rfl⟩ := Prod.mk.inj (Option.some.inj ran)
    have blockNonNull : run.volume.root.allocStart + found ≠ nullLink := by
      unfold nullLink at nonNull ⊢
      omega
    have live : (run.alloc (run.volume.root.allocStart + found) (run.volume.take found)).live =
        (run.volume.root.allocStart + found) :: run.live := if_neg blockNonNull
    refine ⟨⟨tracked.sized.order, tracked.sized.word⟩, ?_, ?_⟩
    · intro index inside
      have old := tracked.setExactly index inside
      change (run.volume.take found).isSet index = true ↔ _
      rw [live, isSet_take, Bool.or_eq_true, decide_eq_true_eq, List.mem_cons, old]
      change _ ↔ run.volume.root.allocStart + index = _ ∨ run.volume.root.allocStart + index ∈ _
      constructor
      · intro either
        rcases either with already | here
        · exact Or.inr already
        · exact Or.inl (by rw [here])
      · intro either
        rcases either with here | already
        · exact Or.inr (by omega)
        · exact Or.inl already
    · intro other member
      rw [live] at member
      rcases List.mem_cons.mp member with here | old
      · rw [here]
        exact ⟨blockNonNull, found, below, rfl⟩
      · exact tracked.liveBlocks other old
  · rw [none.2] at ran
    obtain ⟨rfl, rfl⟩ := Prod.mk.inj (Option.some.inj ran)
    exact ⟨tracked.sized, tracked.setExactly, tracked.liveBlocks⟩

theorem free (tracked : run.Tracked) {block : Nat} (live : block ∈ run.live)
    (agree : BitsAgree run (.free block)) : (run.free block).Tracked := by
  obtain ⟨nonNull, freed, below, rfl⟩ := tracked.liveBlocks block live
  have order := tracked.searchCount_le
  have cleared : clearedBit freed = freed := by
    simp only [BitsAgree, Nat.add_sub_cancel_left] at agree
    unfold clearedBit
    omega
  refine ⟨⟨tracked.sized.order, tracked.sized.word⟩, ?_, ?_⟩
  · intro index inside
    have old := tracked.setExactly index inside
    change (run.volume.freeBlock _).isSet index = true ↔ _
    rw [isSet_freeBlock tracked.sized (by omega), cleared, Bool.and_eq_true, old]
    have different : (!decide (freed = index)) = true ↔
        run.volume.root.allocStart + index ≠ run.volume.root.allocStart + freed := by
      rw [Bool.not_eq_true', decide_eq_false_iff_not]
      omega
    change _ ↔ run.volume.root.allocStart + index ∈ run.live.filter _
    rw [different, List.mem_filter, decide_eq_true_eq]
  · intro other member
    exact tracked.liveBlocks other (List.mem_of_mem_filter member)

/-- For a live block the two computations agree exactly when the free clears its bit. -/
theorem freesExactly_iff (tracked : run.Tracked) {block : Nat} (live : block ∈ run.live) :
    run.volume.FreesExactly block ↔ BitsAgree run (.free block) := by
  obtain ⟨nonNull, freed, below, rfl⟩ := tracked.liveBlocks block live
  have order := tracked.searchCount_le
  have inside : freed < run.volume.allocatable := by omega
  have set := (tracked.setExactly freed inside).mpr live
  simp only [BitsAgree, Nat.add_sub_cancel_left]
  constructor
  · intro exactly
    have own := exactly.ownBit freed inside
    rw [isSet_freeBlock tracked.sized inside, set, decide_eq_true rfl, Bool.true_and,
      Bool.not_true, Bool.and_false, Bool.not_eq_false', decide_eq_true_eq] at own
    unfold clearedBit at own
    omega
  · intro agree
    have cleared : clearedBit freed = freed := by
      unfold clearedBit
      omega
    constructor
    · intro index inRange
      have same : freed = index ↔
          run.volume.root.allocStart + index = run.volume.root.allocStart + freed := by omega
      rw [isSet_freeBlock tracked.sized inside, cleared]
      simp only [same]
    · have clear : (run.volume.freeBlock (run.volume.root.allocStart + freed)).isSet freed =
          false := by
        rw [isSet_freeBlock tracked.sized inside, cleared, decide_eq_true rfl, Bool.not_true,
          Bool.and_false]
      have sized : (run.volume.freeBlock (run.volume.root.allocStart + freed)).Sized :=
        ⟨tracked.sized.order, tracked.sized.word⟩
      exact allocBlocks_reaches sized below clear freed (fun other far => absurd far (by omega))

theorem consistent (tracked : run.Tracked) : run.Consistent := by
  constructor
  · exact tracked.setExactly
  · have order := tracked.searchCount_le
    rcases allocBlock_spec tracked.sized with found | none
    · obtain ⟨found, below, clear, -, ran⟩ := found
      refine ⟨_, _, ran, ?_⟩
      intro live
      have set := (tracked.setExactly found (by omega)).mpr live
      rw [clear] at set
      cases set
    · refine ⟨_, _, none.2, ?_⟩
      intro live
      exact (tracked.liveBlocks nullLink live).1 rfl
  · intro block live
    exact tracked.freesExactly_iff live

theorem start (initial : blockMachine.start run) : run.Tracked := by
  obtain ⟨sized, noneLive, clear⟩ := initial
  refine ⟨sized, ?_, ?_⟩
  · intro index inside
    rw [clear index inside, noneLive]
    simp
  · intro block live
    rw [noneLive] at live
    cases live

end BlockRun.Tracked

/-- In every run that frees only blocks for which the byte index gives the right bit. -/
theorem pupBlocks_consistent (run : BlockRun)
    (reachable : (blockMachine.restrict BitsAgree).Reachable run) : run.Consistent := by
  apply BlockRun.Tracked.consistent
  apply Machine.invariant _ _ _ reachable
  · intro first initial
    exact BlockRun.Tracked.start initial
  · intro before label after tracked moved
    obtain ⟨agree, step⟩ := moved
    cases label with
    | alloc =>
        obtain ⟨block, volume, ran, rfl⟩ := step
        exact tracked.alloc agree ran
    | free block =>
        obtain ⟨live, rfl⟩ := step
        exact tracked.free live agree

def smallRun : BlockRun :=
  { volume :=
      { root := ⟨[], 256, 2, 1, 3, 16⟩, blockBitmask := fun _ => 0, cacheEntries := [] }
    live := [] }

theorem smallRun_start : blockMachine.start smallRun := by
  refine ⟨⟨by decide, by decide⟩, rfl, ?_⟩
  intro index inside
  simp [isSet, bitAt, smallRun]

private theorem smallRun_sized : smallRun.volume.Sized := smallRun_start.1

private theorem smallRun_first :
    smallRun.volume.allocBlock = some (3, smallRun.volume.take 0) :=
  @allocBlock_lowest smallRun.volume 0 smallRun_sized (by decide) (by decide)
    (fun other below => absurd below (by omega))

private theorem smallRun_second :
    (smallRun.volume.take 0).allocBlock = some (4, (smallRun.volume.take 0).take 1) := by
  apply @allocBlock_lowest (smallRun.volume.take 0) 1 ⟨by decide, by decide⟩ (by decide) (by decide)
  intro other below
  have zero : other = 0 := by omega
  rw [zero]
  decide

theorem pupBlocks_consistent_first : (smallRun.alloc 3 (smallRun.volume.take 0)).Consistent := by
  have atStart := Machine.reachable_start (blockMachine.restrict BitsAgree) smallRun_start
  have step : (blockMachine.restrict BitsAgree).step smallRun .alloc
      (smallRun.alloc 3 (smallRun.volume.take 0)) :=
    ⟨show (3 : Nat) ≠ 0 by decide, 3, _, smallRun_first, rfl⟩
  exact pupBlocks_consistent _ (Machine.reachable_step _ atStart step)

/-- Two blocks are allocated and the second is freed: the bit of the first is cleared. -/
theorem pupFreeBlock_clears_other_block :
    ∃ run, blockMachine.Reachable run ∧ 3 ∈ run.live ∧ run.volume.root.allocStart = 3 ∧
      run.volume.isSet 0 = false ∧ ¬ run.Consistent := by
  have once : blockMachine.Reachable (smallRun.alloc 3 (smallRun.volume.take 0)) := by
    have step : blockMachine.step smallRun .alloc (smallRun.alloc 3 (smallRun.volume.take 0)) :=
      ⟨3, _, smallRun_first, rfl⟩
    exact Machine.reachable_step _ (Machine.reachable_start _ smallRun_start) step
  have twice : blockMachine.Reachable
      ((smallRun.alloc 3 (smallRun.volume.take 0)).alloc 4 ((smallRun.volume.take 0).take 1)) := by
    have step : blockMachine.step (smallRun.alloc 3 (smallRun.volume.take 0)) .alloc _ :=
      ⟨4, _, smallRun_second, rfl⟩
    exact Machine.reachable_step _ once step
  refine ⟨_, Machine.reachable_step _ twice (show blockMachine.step _ (.free 4) _ from
    ⟨by decide, rfl⟩), by decide, rfl, by decide, ?_⟩
  intro consistent
  have set := (consistent.setExactly 0 (by decide)).mpr (by decide)
  exact absurd set (by decide)

end DoggOS.Fs

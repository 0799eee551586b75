/-
The commands of a read from an IDE disk.

The driver writes the sector and the count to five registers and the command to
a sixth; all registers are bytes.  A drive keeps what was written and starts a
read of the sectors in its registers when the command comes.  Whatever the
registers held before, the reads of one call are consecutive and are together
the sectors that have a byte of the request.
-/

import DoggOS.Dev.IdeReads

namespace DoggOS.Dev

/-- `enum K_IDE_CMD_REGS`: the registers that a read writes. -/
inductive IdeReg where
  | secCount
  | secNumber
  | cylLow
  | cylHi
  | drvHead
  | cmd
deriving DecidableEq, Repr

structure RegWrite where
  reg : IdeReg
  value : Nat
deriving DecidableEq, Repr

/-- `WriteReg8`; the value is a `uint8_t`. -/
def writeReg8 (reg : IdeReg) (value : Nat) : RegWrite where
  reg := reg
  value := value % 2 ^ 8

/-- `K_IDE_CMD_READ_SEC_NR` -/
def readSecNr : Nat := 0x21

/-- The writes for one command, the last one by `k_IDE_ExecCmd`. -/
def commandWrites (firstBlock readBlockCount : Nat) : List RegWrite :=
  [writeReg8 .secNumber (firstBlock &&& 0xff),
    writeReg8 .cylLow ((firstBlock >>> 8) &&& 0xff),
    writeReg8 .cylHi ((firstBlock >>> 16) &&& 0xff),
    writeReg8 .drvHead (((firstBlock >>> 24) &&& 0x0f) ||| 0xe0),
    writeReg8 .secCount readBlockCount,
    writeReg8 .cmd readSecNr]

/-- The variables of the loop in `k_IDE_Read`, and what was written so far. -/
structure IdeSplit where
  firstBlock : Nat
  blockCount : Nat
  writes : List RegWrite

def splitTurn (split : IdeSplit) : Option IdeSplit :=
  if split.blockCount > 0 then
    let readBlockCount := if split.blockCount > 256 then 256 else split.blockCount
    some
      { firstBlock := (split.firstBlock + readBlockCount) % 2 ^ 32
        blockCount := (split.blockCount + 2 ^ 32 - readBlockCount) % 2 ^ 32
        writes := split.writes ++ commandWrites split.firstBlock readBlockCount }
  else none

/-- What `k_IDE_Read` writes to the registers of a disk with blocks of `blockSize` bytes. -/
def ideReadWrites (blockSize address size : Nat) : Option (List RegWrite) :=
  let firstBlock := address / blockSize
  let mask := 2 ^ 32 - 1 - (blockSize - 1)
  let lastBlock := (((address + size + blockSize - 1) % 2 ^ 32) &&& mask) / blockSize
  let blockCount := (lastBlock + 2 ^ 32 - firstBlock) % 2 ^ 32
  if blockCount ≠ 0 then
    (whileLoop splitTurn (blockCount + 1)
      { firstBlock := firstBlock, blockCount := blockCount, writes := [] }).map IdeSplit.writes
  else some []

structure IdeDrive where
  regs : IdeRegs
  reads : List (Nat × Nat)

namespace IdeDrive

def write (drive : IdeDrive) (write : RegWrite) : IdeDrive :=
  match write.reg with
  | .secCount => { drive with regs := { drive.regs with secCount := write.value } }
  | .secNumber => { drive with regs := { drive.regs with secNumber := write.value } }
  | .cylLow => { drive with regs := { drive.regs with cylLow := write.value } }
  | .cylHi => { drive with regs := { drive.regs with cylHi := write.value } }
  | .drvHead => { drive with regs := { drive.regs with drvHead := write.value } }
  | .cmd =>
      if write.value = readSecNr then
        { drive with reads := drive.reads ++ [(drive.regs.sector, drive.regs.count)] }
      else drive

def writes (drive : IdeDrive) (list : List RegWrite) : IdeDrive := list.foldl write drive

def sectors (drive : IdeDrive) : List Nat :=
  drive.reads.flatMap fun read => List.range' read.1 read.2

theorem writes_append (drive : IdeDrive) (first second : List RegWrite) :
    drive.writes (first ++ second) = (drive.writes first).writes second :=
  List.foldl_append

/-- The registers hold bytes of the sector number, so nothing is cut off in the writes. -/
theorem writes_command (drive : IdeDrive) (firstBlock readBlockCount : Nat) :
    drive.writes (commandWrites firstBlock readBlockCount) =
      { regs := IdeRegs.ofBlocks firstBlock readBlockCount
        reads := drive.reads ++ [((IdeRegs.ofBlocks firstBlock readBlockCount).sector,
          (IdeRegs.ofBlocks firstBlock readBlockCount).count)] } := by
  have byte : ∀ word : Nat, (word &&& 0xff) % 2 ^ 8 = word &&& 0xff := by
    intro word
    have low : word &&& 0xff = word % 2 ^ 8 := Bits.and_low word 8
    rw [low, Nat.mod_mod]
  have head : ((firstBlock >>> 24 &&& 0x0f) ||| 0xe0) % 2 ^ 8 =
      (firstBlock >>> 24 &&& 0x0f) ||| 0xe0 := by
    have nibble : firstBlock >>> 24 &&& 0x0f = firstBlock >>> 24 % 2 ^ 4 := Bits.and_low _ 4
    have small : firstBlock >>> 24 % 2 ^ 4 % 2 ^ 8 = firstBlock >>> 24 % 2 ^ 4 := by omega
    have flags : 0xe0 % 2 ^ 8 = 0xe0 := by decide
    rw [nibble, Bits.or_mod, small, flags]
  unfold writes commandWrites writeReg8
  simp only [byte, head]
  rfl

end IdeDrive

structure IdeSplit.At (first total done : Nat) (split : IdeSplit) : Prop where
  inside : done ≤ total
  firstBlock : split.firstBlock = first + done
  blockCount : split.blockCount = total - done
  sizes : ∀ regs, ∀ read ∈ (IdeDrive.writes ⟨regs, []⟩ split.writes).reads,
    1 ≤ read.2 ∧ read.2 ≤ 256
  sectors : ∀ regs, (IdeDrive.writes ⟨regs, []⟩ split.writes).sectors = List.range' first done

section Split

variable {first total done : Nat} {split : IdeSplit}

theorem splitTurn_spec (addressed : first + total ≤ 2 ^ 28) (before : split.At first total done)
    {next : IdeSplit} (turned : splitTurn split = some next) :
    ∃ part, 0 < part ∧ next.At first total (done + part) := by
  obtain ⟨inside, firstBlock, blockCount, sizes, sectors⟩ := before
  by_cases more : split.blockCount > 0
  · obtain ⟨part, isPart⟩ : ∃ part, part =
        if split.blockCount > 256 then 256 else split.blockCount := ⟨_, rfl⟩
    have bounds : 0 < part ∧ part ≤ 256 ∧ part ≤ split.blockCount := by
      split at isPart
      all_goals omega
    unfold splitTurn at turned
    rw [if_pos more, ← isPart] at turned
    have sector := @IdeRegs.sector_ofBlocks (first + done) (by omega) part
    have count := @IdeRegs.count_ofBlocks (first + done) part bounds.1 bounds.2.1
    have served : ∀ regs, (IdeDrive.writes ⟨regs, []⟩ next.writes).reads =
        (IdeDrive.writes ⟨regs, []⟩ split.writes).reads ++ [(first + done, part)] := by
      intro regs
      cases turned
      rw [IdeDrive.writes_append, firstBlock, IdeDrive.writes_command, sector, count]
    refine ⟨part, bounds.1, ?_⟩
    constructor
    · omega
    · cases turned
      change (split.firstBlock + part) % 2 ^ 32 = _
      omega
    · cases turned
      change (split.blockCount + 2 ^ 32 - part) % 2 ^ 32 = _
      omega
    · intro regs read member
      rw [served] at member
      rcases List.mem_append.mp member with old | new
      · exact sizes regs read old
      · rw [List.mem_singleton.mp new]
        exact ⟨bounds.1, bounds.2.1⟩
    · intro regs
      have old := sectors regs
      unfold IdeDrive.sectors at old ⊢
      rw [served, List.flatMap_append, old, List.flatMap_singleton]
      have joined := @List.range'_append first done part 1
      rw [Nat.one_mul] at joined
      exact joined
  · unfold splitTurn at turned
    rw [if_neg more] at turned
    cases turned

theorem splitTurns_all (addressed : first + total ≤ 2 ^ 28) :
    ∃ split, whileLoop splitTurn (total + 1)
        { firstBlock := first, blockCount := total, writes := [] } = some split ∧
      split.At first total total := by
  have start : IdeSplit.At first total 0
      { firstBlock := first, blockCount := total, writes := [] } := by
    refine ⟨Nat.zero_le _, rfl, rfl, ?_, fun regs => rfl⟩
    intro regs read member
    cases member
  have preserved : ∀ done (split next : IdeSplit), split.At first total done →
      splitTurn split = some next →
      ∃ further, next.At first total further ∧ total - further < total - done := by
    intro done split next before turned
    obtain ⟨part, advanced, after⟩ := splitTurn_spec addressed before turned
    have inside := after.inside
    exact ⟨done + part, after, by omega⟩
  obtain ⟨done, split, ran, after, stopped⟩ := WhileLoop.rule (IdeSplit.At first total)
    (fun done => total - done) preserved 0 _ start (show total - 0 < total + 1 by omega)
  have all : done = total := by
    have left := after.blockCount
    have inside := after.inside
    by_cases more : split.blockCount > 0
    · unfold splitTurn at stopped
      rw [if_pos more] at stopped
      cases stopped
    · omega
  exact ⟨split, ran, all ▸ after⟩

end Split

/-- The last block of the request, rounded up with a mask. -/
theorem lastBlock_eq {power bytes : Nat} (fits : bytes < 2 ^ 32 - 2 ^ power) :
    ((bytes + 2 ^ power - 1) % 2 ^ 32 &&& (2 ^ 32 - 1 - (2 ^ power - 1))) / 2 ^ power =
      (bytes + 2 ^ power - 1) / 2 ^ power := by
  have positive : 0 < 2 ^ power := Nat.two_pow_pos power
  have order : power ≤ 32 := by
    apply Nat.le_of_not_lt
    intro above
    have larger : 2 ^ 32 ≤ 2 ^ power := Nat.pow_le_pow_right (by decide) (Nat.le_of_lt above)
    omega
  have mask : 2 ^ 32 - 1 - (2 ^ power - 1) = 2 ^ 32 - 2 ^ power := by omega
  have small : bytes + 2 ^ power - 1 < 2 ^ 32 := by omega
  have rounded : bytes + 2 ^ power - 1 - (bytes + 2 ^ power - 1) % 2 ^ power =
      2 ^ power * ((bytes + 2 ^ power - 1) / 2 ^ power) := by
    have division := Nat.div_add_mod (bytes + 2 ^ power - 1) (2 ^ power)
    omega
  rw [Nat.mod_eq_of_lt small, mask, Bits.and_high _ _ _ small order, rounded,
    Nat.mul_div_cancel_left _ positive]

/-- A sector has a byte of the request if and only if it is of the range that the driver computes. -/
theorem sector_requested_iff {blockSize address size sector : Nat} (positive : 0 < blockSize)
    (nonempty : 0 < size) :
    (address / blockSize ≤ sector ∧ sector < (address + size + blockSize - 1) / blockSize) ↔
      ∃ byte, address ≤ byte ∧ byte < address + size ∧ byte / blockSize = sector := by
  have upper : sector < (address + size + blockSize - 1) / blockSize ↔
      sector * blockSize < address + size := by
    rw [Nat.lt_iff_add_one_le, Nat.le_div_iff_mul_le positive, Nat.add_mul]
    omega
  have lower : address / blockSize ≤ sector ↔ address < (sector + 1) * blockSize := by
    rw [← Nat.lt_add_one_iff, Nat.div_lt_iff_lt_mul positive]
  rw [upper, lower]
  constructor
  · intro inside
    by_cases starts : address ≤ sector * blockSize
    · exact ⟨sector * blockSize, starts, inside.2, Nat.mul_div_cancel _ positive⟩
    · refine ⟨address, Nat.le_refl _, by omega, ?_⟩
      have above : sector ≤ address / blockSize := by
        rw [Nat.le_div_iff_mul_le positive]
        omega
      have below : address / blockSize ≤ sector := lower.mpr inside.1
      omega
  · intro requested
    obtain ⟨byte, above, below, here⟩ := requested
    have division := Nat.div_add_mod byte blockSize
    have rest := Nat.mod_lt byte positive
    rw [here, Nat.mul_comm] at division
    rw [Nat.add_mul]
    omega

/-- The reads of the drive: 1 to 256 sectors each, consecutive, and just the sectors that have a
byte of the request. -/
structure IdeDrive.Requested (drive : IdeDrive) (blockSize address size : Nat) : Prop where
  sizes : ∀ read ∈ drive.reads, 1 ≤ read.2 ∧ read.2 ≤ 256
  consecutive : ∃ first total, drive.sectors = List.range' first total
  smallest : ∀ sector, sector ∈ drive.sectors ↔
    ∃ byte, address ≤ byte ∧ byte < address + size ∧ byte / blockSize = sector

theorem ideReadWrites_requested (power address size : Nat) (large : 512 ≤ 2 ^ power)
    (nonempty : 0 < size) (fits : address + size < 2 ^ 32 - 2 ^ power) :
    ∃ list, ideReadWrites (2 ^ power) address size = some list ∧
      ∀ regs, (IdeDrive.writes ⟨regs, []⟩ list).Requested (2 ^ power) address size := by
  have positive : 0 < 2 ^ power := Nat.two_pow_pos power
  obtain ⟨first, isFirst⟩ : ∃ first, first = address / 2 ^ power := ⟨_, rfl⟩
  obtain ⟨last, isLast⟩ : ∃ last, last = (address + size + 2 ^ power - 1) / 2 ^ power := ⟨_, rfl⟩
  have below : last < 2 ^ 28 := by
    rw [isLast, Nat.div_lt_iff_lt_mul positive]
    omega
  have order : first < last := by
    have requested := (@sector_requested_iff (2 ^ power) address size first positive nonempty).mpr
      ⟨address, Nat.le_refl _, by omega, isFirst.symm⟩
    rw [isLast]
    exact requested.2
  have blockCount : (last + 2 ^ 32 - first) % 2 ^ 32 = last - first := by omega
  obtain ⟨split, ran, atEnd⟩ := @splitTurns_all first (last - first) (by omega)
  refine ⟨split.writes, ?_, ?_⟩
  · unfold ideReadWrites
    simp only [lastBlock_eq fits]
    rw [← isFirst, ← isLast, blockCount, if_pos (by omega), ran]
    rfl
  · intro regs
    have sectors := atEnd.sectors regs
    constructor
    · exact atEnd.sizes regs
    · exact ⟨_, _, sectors⟩
    · intro sector
      rw [sectors, List.mem_range'_1, ← sector_requested_iff positive nonempty, ← isFirst, ← isLast]
      omega

/-- Half a megabyte from the middle of a sector on takes five commands. -/
theorem ideReadWrites_requested_long :
    ∃ list, ideReadWrites (2 ^ 9) 300 524288 = some list ∧
      ∀ regs, (IdeDrive.writes ⟨regs, []⟩ list).Requested (2 ^ 9) 300 524288 :=
  ideReadWrites_requested 9 300 524288 (by decide) (by decide) (by decide)

/-- The turns are those of the read with the drive. -/
theorem ideTurn_splits {content : Bytes} {read next : IdeRead} (more : read.blockCount > 0)
    (turned : ideTurn content read = some next) (list : List RegWrite) :
    ∃ split, splitTurn ⟨read.firstBlock, read.blockCount, list⟩ = some split ∧
      split.firstBlock = next.firstBlock ∧ split.blockCount = next.blockCount := by
  unfold splitTurn
  rw [if_pos more]
  refine ⟨_, rfl, ?_⟩
  unfold ideTurn at turned
  obtain ⟨part, isPart⟩ : ∃ part, part = if read.blockCount > 256 then 256 else read.blockCount :=
    ⟨_, rfl⟩
  simp only [← isPart] at turned ⊢
  obtain ⟨-, same⟩ := Option.ite_none_right_eq_some.mp turned
  rw [← Option.some.inj same]
  exact ⟨rfl, rfl⟩

end DoggOS.Dev

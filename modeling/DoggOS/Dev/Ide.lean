/-
Reads from an IDE disk.

The driver issues commands of at most 256 sectors, and the drive raises one
interrupt for each sector.  The handler takes the words of the sector from the
data register and stores bytes at `address`, which counts what was stored.  What
the read has stored is kept apart from what the buffer held, so that an offset
it never wrote has no byte.  Counters are 32-bit words.
-/

import DoggOS.Dev.Disk
import DoggOS.Library.WhileLoop

namespace DoggOS.Dev

/-- `struct k_dev_dsk_ide_cmd_t`, with the stored bytes of the buffer. -/
structure IdeCmd where
  type : DiskCmdType
  address : Nat
  size : Nat
  buffer : Nat → Option UInt8
  condition : Bool
  transferCondition : Bool
  skipCount : Nat
  sectorCount : Nat

/-- A command during an interrupt, and the words taken from the data register since its start. -/
structure IdeTransfer where
  cmd : IdeCmd
  taken : Nat

namespace IdeTransfer

variable (sector : Bytes) (transfer : IdeTransfer)

/-- `ReadReg16` of the data register. -/
def readReg16 : Nat × IdeTransfer :=
  (loadHalfAt sector (2 * transfer.taken), { transfer with taken := transfer.taken + 1 })

def storeByte (byte : UInt8) : IdeTransfer :=
  { transfer with
    cmd := { transfer.cmd with
      buffer := Function.update transfer.cmd.buffer transfer.cmd.address (some byte)
      address := (transfer.cmd.address + 1) % 2 ^ 32 } }

def discard : Nat → IdeTransfer → IdeTransfer
  | 0, transfer => transfer
  | count + 1, transfer => discard count (transfer.readReg16 sector).2

def copyWords : Nat → IdeTransfer → IdeTransfer
  | 0, transfer => transfer
  | count + 1, transfer =>
      let read := transfer.readReg16 sector
      let transfer := read.2.storeByte (UInt8.ofNat read.1)
      copyWords count (transfer.storeByte (UInt8.ofNat (read.1 >>> 8)))

/-- `ReadReg16S`: words to memory at the address. -/
def readReg16S (count : Nat) : IdeTransfer :=
  { transfer with
    cmd := { transfer.cmd with
      buffer := fun offset =>
        if transfer.cmd.address ≤ offset ∧ offset < transfer.cmd.address + 2 * count then
          some (sector (2 * transfer.taken + (offset - transfer.cmd.address)))
        else transfer.cmd.buffer offset }
    taken := transfer.taken + count }

def skipHead (availableBytes : Nat) : IdeTransfer × Nat :=
  let wordCount := transfer.cmd.skipCount / 2
  let transfer := discard sector wordCount transfer
  let availableBytes := (availableBytes + 2 ^ 32 - wordCount * 2) % 2 ^ 32
  let skipped :=
    if transfer.cmd.skipCount &&& 1 ≠ 0 then
      let read := transfer.readReg16 sector
      (read.2.storeByte (UInt8.ofNat (read.1 >>> 8)), (availableBytes + 2 ^ 32 - 2) % 2 ^ 32)
    else (transfer, availableBytes)
  ({ skipped.1 with cmd := { skipped.1.cmd with skipCount := 0 } }, skipped.2)

def copyBulk (availableBytes : Nat) : IdeTransfer × Nat :=
  if availableBytes > 1 then
    let copySize := availableBytes / 2
    let bufferWordCount := transfer.cmd.size >>> 1
    let copySize := if copySize > bufferWordCount then bufferWordCount else copySize
    let transfer :=
      if transfer.cmd.address &&& 1 ≠ 0 then copyWords sector copySize transfer
      else
        let stored := transfer.readReg16S sector copySize
        { stored with
          cmd := { stored.cmd with address := (stored.cmd.address + copySize * 2) % 2 ^ 32 } }
    (transfer, (availableBytes + 2 ^ 32 - copySize * 2) % 2 ^ 32)
  else (transfer, availableBytes)

/-- The last byte of a buffer that is not a round number of words, or the rest of the sector. -/
def copyTail (availableBytes : Nat) : IdeTransfer :=
  if availableBytes = 1 then
    let read := transfer.readReg16 sector
    read.2.storeByte (UInt8.ofNat read.1)
  else discard sector (availableBytes / 2) transfer

/-- The cases of a read and of an identify command. -/
def readSector (blockSize : Nat) : IdeTransfer :=
  let started :=
    if transfer.cmd.skipCount ≠ 0 then transfer.skipHead sector blockSize else (transfer, blockSize)
  if transfer.cmd.skipCount ≠ 0 ∧ started.2 = 0 then started.1
  else
    let copied := started.1.copyBulk sector started.2
    copied.1.copyTail sector copied.2

end IdeTransfer

/-- `k_IDE_InterruptHandler`, with the status register and the sector in the data register. -/
def interruptHandler (blockSize status : Nat) (sector : Bytes) (cmd : IdeCmd) : IdeTransfer :=
  if status &&& 1 ≠ 0 then { cmd := { cmd with condition := true }, taken := 0 }
  else
    let transfer : IdeTransfer := { cmd := cmd, taken := 0 }
    let transfer :=
      match cmd.type with
      | .read | .identify => transfer.readSector sector blockSize
      | .write | .clear | .last => transfer
    let cmd := transfer.cmd
    let cmd := { cmd with sectorCount := (cmd.sectorCount + 2 ^ 16 - 1) % 2 ^ 16 }
    let cmd := if cmd.address = cmd.size then { cmd with condition := true } else cmd
    let cmd := if cmd.sectorCount = 0 then { cmd with transferCondition := true } else cmd
    { transfer with cmd := cmd }

/-- A read on the way: the command, and for each interrupt the words that were taken and whether
the condition was signalled after it. -/
structure IdeRun where
  cmd : IdeCmd
  taken : List Nat
  signalled : List Bool

namespace IdeRun

variable (content : Bytes)

def interrupt (run : IdeRun) (sector : Nat) : IdeRun :=
  let transfer := interruptHandler 512 0 (fun place => content (512 * sector + place)) run.cmd
  { cmd := transfer.cmd
    taken := run.taken ++ [transfer.taken]
    signalled := run.signalled ++ [transfer.cmd.condition] }

def serve (sector : Nat) : Nat → IdeRun → IdeRun
  | 0, run => run
  | count + 1, run => serve (sector + 1) count (run.interrupt content sector)

end IdeRun

/-- The registers that `k_IDE_Read` writes for a command. -/
structure IdeRegs where
  secNumber : Nat
  cylLow : Nat
  cylHi : Nat
  drvHead : Nat
  secCount : Nat

def IdeRegs.ofBlocks (firstBlock readBlockCount : Nat) : IdeRegs where
  secNumber := firstBlock &&& 0xff
  cylLow := (firstBlock >>> 8) &&& 0xff
  cylHi := (firstBlock >>> 16) &&& 0xff
  drvHead := ((firstBlock >>> 24) &&& 0x0f) ||| 0xe0
  secCount := readBlockCount % 2 ^ 8

/-- The sector that the drive reads first: 28 bits of the registers. -/
def IdeRegs.sector (regs : IdeRegs) : Nat :=
  regs.secNumber + 2 ^ 8 * regs.cylLow + 2 ^ 16 * regs.cylHi + 2 ^ 24 * (regs.drvHead % 2 ^ 4)

/-- The number of sectors that the drive reads; zero stands for 256. -/
def IdeRegs.count (regs : IdeRegs) : Nat := if regs.secCount = 0 then 256 else regs.secCount

/-- The variables of the loop in `k_IDE_Read`. -/
structure IdeRead where
  run : IdeRun
  firstBlock : Nat
  blockCount : Nat

/-- One command. The turn has no result when the wait for the end of the transfer does not end. -/
def ideTurn (content : Bytes) (read : IdeRead) : Option IdeRead :=
  let readBlockCount := if read.blockCount > 256 then 256 else read.blockCount
  let cmd := { read.run.cmd with transferCondition := false, sectorCount := readBlockCount }
  let regs := IdeRegs.ofBlocks read.firstBlock readBlockCount
  let run := { read.run with cmd := cmd }.serve content regs.sector regs.count
  if run.cmd.transferCondition then
    some
      { run := run
        firstBlock := (read.firstBlock + readBlockCount) % 2 ^ 32
        blockCount := (read.blockCount + 2 ^ 32 - readBlockCount) % 2 ^ 32 }
  else none

/-- `k_IDE_Read` with the interrupts of the drive, for a command from `k_dev_DiskRead`. -/
def ideRead (content : Bytes) (address size : Nat) : Option IdeRun :=
  let blockSize := 512
  let firstBlock := address / blockSize
  let lastBlock := (((address + size + blockSize - 1) % 2 ^ 32) &&& 0xfffffe00) / blockSize
  let blockCount := (lastBlock + 2 ^ 32 - firstBlock) % 2 ^ 32
  let cmd : IdeCmd :=
    { type := .read, address := address, size := size, buffer := fun _ => none, condition := false,
      transferCondition := false, skipCount := 0, sectorCount := 0 }
  if blockCount ≠ 0 then
    let cmd := { cmd with skipCount := address &&& 0x1ff, address := 0 }
    (faultLoop (fun read => decide (read.blockCount > 0)) (ideTurn content) (blockCount + 1)
      { run := { cmd := cmd, taken := [], signalled := [] }, firstBlock := firstBlock,
        blockCount := blockCount }).map IdeRead.run
  else some { cmd := { cmd with condition := true }, taken := [], signalled := [] }

end DoggOS.Dev

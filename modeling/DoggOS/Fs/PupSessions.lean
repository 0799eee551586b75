/-
Sessions on a partition, with the disk commands they issue.

A session formats the partition, mounts the volume, loads and reads blocks,
flushes and unmounts.  The log collects the command of each transfer.  What the
calls do to the medium and the volume is what the functions of the cache do; a
read is the loop of `k_fs_PupRead` with its loads logged.
-/

import DoggOS.Fs.PupFormat
import DoggOS.Fs.PupReads

namespace DoggOS.Fs

open Dev PupVolume

variable {Medium : Type*}

namespace VolumePartition

def volumeBlocks (partition : VolumePartition Medium) : Nat :=
  partition.blockCount * partition.disk.blockSize / 0x1000

end VolumePartition

namespace PupVolume

variable (partition : Partition Medium)

/-- The command of `k_fs_PupFindOrLoadCacheEntry`, if the block is not cached. -/
def findOrLoadCmds (volume : PupVolume) (block : Nat) : List DiskCmd :=
  match volume.findCacheEntry block with
  | some _ => []
  | none => partition.fillCmds block

/-- The commands of `k_fs_PupMountVolume`. -/
def mountCmds (medium : Medium) : List DiskCmd :=
  let root := PupRoot.ofBytes
    (partition.readVolumeBytes medium partition.disk.blockSize 0 0 64 (fun _ => 0))
  partition.readBytesCmds partition.disk.blockSize 0 0 64 ++
    partition.readBlocksCmds 0x1000 (root.bitmaskStart % 2 ^ 32) root.bitmaskBlockCount ++
    partition.fillCmds (root.rootNode >>> 8)

/-- The commands of `k_fs_PupFlushCache`. -/
def flushCmds (volume : PupVolume) : List DiskCmd :=
  volume.cacheEntries.flatMap fun entry => partition.storeCmds entry.firstBlock

/-- The commands of `k_fs_PupUnmountVolume`. -/
def unmountCmds (volume : PupVolume) : List DiskCmd :=
  volume.flushCmds partition ++
    partition.writeBlocksCmds 0x1000 volume.root.bitmaskStart volume.root.bitmaskBlockCount

variable (medium : Medium) (memory : FreshMemory)

/-- A turn of the loop of `k_fs_PupRead` and the command of its load. -/
def loggedTurn (lastBlock : Nat) : BlockRead × List DiskCmd → Option (BlockRead × List DiskCmd)
  | (read, log) => (readTurn partition medium memory lastBlock read).map fun next =>
      (next, log ++ read.volume.findOrLoadCmds partition read.firstBlock)

/-- `k_fs_PupRead`, with its commands. -/
def loggedRead (volume : PupVolume) (firstBlock blockCount : Nat) (buffer : Bytes) :
    Option (PupVolume × List DiskCmd) :=
  if blockCount > 0 then
    let lastBlock := (firstBlock + blockCount) % 2 ^ 64
    (whileLoop (loggedTurn partition medium memory lastBlock) (blockCount + 1)
      ({ firstBlock := firstBlock, blockCount := blockCount, bufferCursor := 0, buffer := buffer,
         volume := volume }, [])).map fun result => (result.1.volume, result.2)
  else some (volume, [])

theorem loggedRead_volume (volume : PupVolume) (firstBlock blockCount : Nat) (buffer : Bytes) :
    (volume.loggedRead partition medium memory firstBlock blockCount buffer).map Prod.fst =
      (volume.pupRead partition medium memory firstBlock blockCount buffer).map Prod.snd := by
  have same : ∀ read log, (loggedTurn partition medium memory
      ((firstBlock + blockCount) % 2 ^ 64) (read, log)).map Prod.fst =
        readTurn partition medium memory ((firstBlock + blockCount) % 2 ^ 64) read := by
    intro read log
    unfold loggedTurn
    rw [Option.map_map]
    exact Option.map_id'
  unfold loggedRead pupRead
  by_cases some : blockCount > 0
  · rw [if_pos some, if_pos some]
    dsimp only
    rw [← WhileLoop.log same (blockCount + 1) _ [], Option.map_map, Option.map_map, Option.map_map]
    rfl
  · rw [if_neg some, if_neg some]
    rfl

end PupVolume

structure PupSession (Medium : Type*) where
  medium : Medium
  volume : Option PupVolume
  formatted : Bool
  log : List DiskCmd

inductive SessionCall where
  | formatVolume
  | mountVolume (memory : FreshMemory)
  | findOrLoadCacheEntry (memory : FreshMemory) (block : Nat)
  | read (memory : FreshMemory) (firstBlock blockCount : Nat) (buffer : Bytes)
  | flushCache
  | unmountVolume

namespace PupSession

variable (partition : VolumePartition Medium) (session : PupSession Medium)

def formatVolume : PupSession Medium :=
  { session with
    medium := partition.formatVolume session.medium partition.volumeBlocks
    formatted := true
    log := session.log ++ partition.formatCmds partition.volumeBlocks }

def mountVolume (memory : FreshMemory) : PupSession Medium :=
  { session with
    volume := some (PupVolume.mountVolume partition.toPartition session.medium memory)
    log := session.log ++ mountCmds partition.toPartition session.medium }

def findOrLoadCacheEntry (memory : FreshMemory) (volume : PupVolume) (block : Nat) :
    PupSession Medium :=
  { session with
    volume := some
      (volume.findOrLoadCacheEntry partition.toPartition session.medium memory block).2
    log := session.log ++ volume.findOrLoadCmds partition.toPartition block }

def read (memory : FreshMemory) (volume : PupVolume) (firstBlock blockCount : Nat)
    (buffer : Bytes) : Option (PupSession Medium) :=
  (volume.loggedRead partition.toPartition session.medium memory firstBlock blockCount buffer).map
    fun (volume, cmds) => { session with volume := some volume, log := session.log ++ cmds }

def flushCache (volume : PupVolume) : PupSession Medium :=
  { session with
    medium := PupVolume.flushCache partition.toPartition session.medium volume.cacheEntries
    log := session.log ++ volume.flushCmds partition.toPartition }

def unmountVolume (volume : PupVolume) : PupSession Medium :=
  { session with
    medium := volume.unmountVolume partition.toPartition session.medium
    volume := none
    log := session.log ++ volume.unmountCmds partition.toPartition }

def call : SessionCall → Option (PupSession Medium)
  | .formatVolume => if session.volume.isNone then some (session.formatVolume partition) else none
  | .mountVolume memory =>
      if session.volume.isNone ∧ session.formatted then some (session.mountVolume partition memory)
      else none
  | .findOrLoadCacheEntry memory block => session.volume.bind fun volume =>
      if block < partition.volumeBlocks then
        some (session.findOrLoadCacheEntry partition memory volume block)
      else none
  | .read memory firstBlock blockCount buffer => session.volume.bind fun volume =>
      if firstBlock + blockCount ≤ partition.volumeBlocks ∧ blockCount < 2 ^ 32 then
        session.read partition memory volume firstBlock blockCount buffer
      else none
  | .flushCache => session.volume.map fun volume => session.flushCache partition volume
  | .unmountVolume => session.volume.map fun volume => session.unmountVolume partition volume

def machine (partition : VolumePartition Medium) : Machine (PupSession Medium) SessionCall where
  start session := session.volume = none ∧ session.formatted = false ∧ session.log = []
  step before label after := before.call partition label = some after

end PupSession

end DoggOS.Fs

/-
The commands of sessions stay inside the partition.

A transfer of blocks that are in the volume and below 4 GiB has its own place on
the disk.  Groups of four are loaded, so this is asked of the whole group of each
block.  The root record survives every flush, because the entry that holds it was
loaded with it; so a mount finds the bitmap where the format put it.
-/

import DoggOS.Fs.PupSessions

namespace DoggOS.Fs

open Dev PupVolume

variable {Medium : Type*}

namespace VolumePartition

def Fits (partition : VolumePartition Medium) (first count : Nat) : Prop :=
  first + count ≤ partition.volumeBlocks ∧
    partition.firstBlock * partition.disk.blockSize + (first + count) * 0x1000 ≤ 2 ^ 32

/-- A partition with room for a volume, on a disk that can be written and has room for it.  The
number of blocks is a 32-bit argument of a format. -/
structure Usable (partition : VolumePartition Medium) : Prop where
  writable : partition.disk.Writable
  blocks : 4 ≤ partition.volumeBlocks
  word : partition.volumeBlocks < 2 ^ 32
  room : partition.stop ≤ partition.disk.driver.capacity

variable {partition : VolumePartition Medium} {first count : Nat} {cmd : DiskCmd}

theorem volumeBlocks_stop (partition : VolumePartition Medium) :
    partition.firstBlock * partition.disk.blockSize + partition.volumeBlocks * 0x1000 ≤
      partition.stop := by
  have floor := Nat.div_mul_le_self (partition.blockCount * partition.disk.blockSize) 0x1000
  unfold volumeBlocks stop
  rw [Nat.add_mul]
  omega

theorem Fits.stop (fits : partition.Fits first count) :
    partition.firstBlock * partition.disk.blockSize + (first + count) * 0x1000 ≤
      partition.stop := by
  have inVolume := Nat.mul_le_mul_right 0x1000 fits.1
  exact Nat.le_trans (Nat.add_le_add_left inVolume _) partition.volumeBlocks_stop

theorem Fits.readCmds (fits : partition.Fits first count) (some : 0 < count)
    (member : cmd ∈ partition.readBlocksCmds 0x1000 first count) :
    cmd.Inside (partition.firstBlock * partition.disk.blockSize) partition.stop := by
  have stop := fits.stop
  have below := fits.2
  rw [Disk.mem_readCmds member]
  unfold DiskCmd.Inside
  dsimp only
  generalize partition.firstBlock * partition.disk.blockSize = start at stop below ⊢
  omega

theorem Fits.writeCmds (fits : partition.Fits first count) (some : 0 < count)
    (member : cmd ∈ partition.writeBlocksCmds 0x1000 first count) :
    cmd.Inside (partition.firstBlock * partition.disk.blockSize) partition.stop := by
  have stop := fits.stop
  have below := fits.2
  rw [Disk.mem_writeCmds member]
  unfold DiskCmd.Inside
  dsimp only
  generalize partition.firstBlock * partition.disk.blockSize = start at stop below ⊢
  omega

theorem diskEnd_le (partition : VolumePartition Medium) : partition.diskEnd ≤ partition.stop :=
  Nat.le_trans (Nat.mod_le _ _) (Nat.mul_le_mul_right _ (Nat.mod_le _ _))

/-- A clear that does not reach 4 GiB is issued only inside the partition. -/
theorem clearCmds_inside (some : 0 < count)
    (below : partition.firstBlock * partition.disk.blockSize + (first + count) * 0x1000 < 2 ^ 32)
    (member : cmd ∈ partition.clearBlocksCmds 0x1000 first count) :
    cmd.Inside (partition.firstBlock * partition.disk.blockSize) partition.stop := by
  have stop := partition.diskEnd_le
  unfold clearBlocksCmds clearBytesCmds at member
  dsimp only at member
  split at member
  · rename_i guard
    rw [Disk.mem_clearCmds member]
    unfold DiskCmd.Inside
    dsimp only
    generalize partition.firstBlock * partition.disk.blockSize = start at below guard ⊢
    omega
  · cases member

theorem Fits.clearCmds (fits : partition.Fits first count) (some : 0 < count)
    (member : cmd ∈ partition.clearBlocksCmds 0x1000 first count) :
    cmd.Inside (partition.firstBlock * partition.disk.blockSize) partition.stop := by
  have stop := fits.stop
  have below := fits.2
  unfold clearBlocksCmds clearBytesCmds at member
  dsimp only at member
  split at member
  · rw [Disk.mem_clearCmds member]
    unfold DiskCmd.Inside
    dsimp only
    generalize partition.firstBlock * partition.disk.blockSize = start at stop below ⊢
    omega
  · cases member

theorem readStart_eq {start : Nat} (below : start + (first + count) * 0x1000 ≤ 2 ^ 32)
    (some : 0 < count) :
    (start % 2 ^ 32 + (first * 0x1000 + 0) % 2 ^ 64) % 2 ^ 64 % 2 ^ 32 = start + first * 0x1000 := by
  omega

theorem writeStart_eq {start : Nat} (below : start + (first + count) * 0x1000 ≤ 2 ^ 32)
    (some : 0 < count) :
    (start % 2 ^ 32 + (first % 2 ^ 32 * 0x1000 + 0)) % 2 ^ 32 % 2 ^ 32 = start + first * 0x1000 := by
  omega

theorem rootStart_eq {start : Nat} (below : start + (0 + 1) * 0x1000 ≤ 2 ^ 32) :
    (start % 2 ^ 32 + (0 * 0x1000 + 0)) % 2 ^ 32 % 2 ^ 32 = start ∧ 64 % 2 ^ 32 = 64 := by
  omega

theorem Fits.room (fits : partition.Fits first count) (usable : partition.Usable) :
    partition.blockStart first + count * 0x1000 ≤ partition.disk.driver.capacity := by
  have stop := fits.stop
  have room := usable.room
  unfold Partition.blockStart
  rw [Nat.add_mul] at stop
  omega

theorem Fits.content_write (fits : partition.Fits first count) (usable : partition.Usable)
    (some : 0 < count) (small : count * 0x1000 < 2 ^ 32) (medium : Medium) (buffer : Bytes) :
    partition.disk.driver.content (partition.writeVolumeBlocks medium 0x1000 first count buffer) =
      fillBytes (partition.disk.driver.content medium) (partition.blockStart first)
        (count * 0x1000) buffer := by
  have room := fits.room usable
  have isStart := writeStart_eq fits.2 some
  have size : 0x1000 * (count % 2 ^ 32) % 2 ^ 32 % 2 ^ 32 = count * 0x1000 := by omega
  unfold Partition.writeVolumeBlocks Partition.writeVolumeBytes
  rw [Disk.write_spec usable.writable medium buffer (by rw [isStart, size]; exact room), isStart,
    size]
  rfl

theorem Fits.read_content (fits : partition.Fits first count) (usable : partition.Usable)
    (some : 0 < count) (small : count * 0x1000 < 2 ^ 32) (medium : Medium) (buffer : Bytes) :
    partition.readVolumeBlocks medium 0x1000 first count buffer =
      fillBytes buffer 0 (count * 0x1000)
        (fun place => partition.disk.driver.content medium (partition.blockStart first + place)) := by
  have room := fits.room usable
  have isStart := readStart_eq fits.2 some
  have size : 0x1000 * count % 2 ^ 64 % 2 ^ 32 = count * 0x1000 := by omega
  unfold Partition.readVolumeBlocks Partition.readVolumeBytes
  rw [Disk.read_spec usable.writable.readable medium buffer (by rw [isStart, size]; exact room),
    isStart, size]
  rfl

def Formatted (partition : VolumePartition Medium) (medium : Medium) : Prop :=
  ∀ place < 64, partition.disk.driver.content medium
    (partition.firstBlock * partition.disk.blockSize + place) =
      (formatRoot partition.volumeBlocks).toBytes place

/-- The 32-bit addresses of a format do not wrap. -/
def FormatFits (partition : VolumePartition Medium) : Prop :=
  partition.firstBlock * partition.disk.blockSize + 257 * 0x1000 < 2 ^ 32 ∧
    partition.firstBlock * partition.disk.blockSize +
      (2 + formatBitmaskBlocks partition.volumeBlocks) * 0x1000 ≤ 2 ^ 32

/-- The transfers of a format, besides the clear of block 256. -/
theorem FormatFits.fits (format : partition.FormatFits) (usable : partition.Usable) :
    partition.Fits 2 (formatBitmaskBlocks partition.volumeBlocks) ∧ partition.Fits 1 1 ∧
      partition.Fits 0 4 ∧ partition.Fits 0 1 := by
  have blocks := usable.blocks
  have inside := formatBitmaskBlocks_inside blocks
  obtain ⟨below, bitmap⟩ := format
  refine ⟨⟨inside, bitmap⟩, ⟨by omega, ?_⟩, ⟨by omega, ?_⟩, ⟨by omega, ?_⟩⟩
  · exact Nat.le_trans (Nat.add_le_add_left (by omega) _) (Nat.le_of_lt below)
  · exact Nat.le_trans (Nat.add_le_add_left (by omega) _) (Nat.le_of_lt below)
  · exact Nat.le_trans (Nat.add_le_add_left (by omega) _) (Nat.le_of_lt below)

theorem formatCmds_inside (format : partition.FormatFits) (usable : partition.Usable)
    (member : cmd ∈ partition.formatCmds partition.volumeBlocks) :
    cmd.Inside (partition.firstBlock * partition.disk.blockSize) partition.stop := by
  obtain ⟨bitmap, rootNode, -, first⟩ := format.fits usable
  unfold formatCmds at member
  dsimp only [formatRoot] at member
  rw [List.mem_append, List.mem_append, List.mem_append] at member
  rcases member with ((clearRoot | clearBitmap) | writeRoot) | writeNode
  · exact clearCmds_inside Nat.one_pos format.1 clearRoot
  · exact bitmap.clearCmds (formatBitmaskBlocks_pos _) clearBitmap
  · have stop := first.stop
    have below := first.2
    obtain ⟨isStart, size⟩ := rootStart_eq below
    have only := Disk.mem_writeCmds writeRoot
    rw [isStart, size] at only
    rw [only]
    exact ⟨Nat.le_refl _,
      Nat.le_trans (Nat.add_le_add_left (show 64 ≤ (0 + 1) * 0x1000 by omega) _) stop⟩
  · exact rootNode.writeCmds Nat.one_pos writeNode

theorem Formatted.write {medium : Medium} (formatted : partition.Formatted medium)
    (fits : partition.Fits first count) (usable : partition.Usable) (some : 0 < count)
    (small : count * 0x1000 < 2 ^ 32) (behind : 0 < first) (buffer : Bytes) :
    partition.Formatted (partition.writeVolumeBlocks medium 0x1000 first count buffer) := by
  intro place inRecord
  rw [fits.content_write usable some small]
  unfold fillBytes Partition.blockStart
  rw [if_neg (by omega)]
  exact formatted place inRecord

theorem formatted_formatVolume (format : partition.FormatFits) (usable : partition.Usable)
    (medium : Medium) :
    partition.Formatted (partition.formatVolume medium partition.volumeBlocks) := by
  obtain ⟨bitmap, rootNode, -, first⟩ := format.fits usable
  have small : 1 * 0x1000 < 2 ^ 32 := by omega
  unfold formatVolume
  dsimp only
  rw [formatRoot_rootBlock]
  refine Formatted.write ?_ rootNode usable Nat.one_pos small Nat.one_pos _
  intro place inRecord
  have room := first.room usable
  have below := first.2
  obtain ⟨isStart, size⟩ := rootStart_eq below
  have inside : partition.firstBlock * partition.disk.blockSize + 64 ≤
      partition.disk.driver.capacity := by
    unfold Partition.blockStart at room
    exact Nat.le_trans (by omega) room
  unfold Partition.writeVolumeBytes
  rw [Disk.write_spec usable.writable _ _ (by rw [isStart, size]; exact inside), isStart, size]
  unfold fillBytes
  rw [if_pos (by omega), Nat.add_sub_cancel_left]

structure Sound (partition : VolumePartition Medium) (volume : PupVolume) : Prop where
  root : volume.root = formatRoot partition.volumeBlocks
  aligned : ∀ entry ∈ volume.cacheEntries, entry.firstBlock % 4 = 0
  fits : ∀ entry ∈ volume.cacheEntries, partition.Fits entry.firstBlock 4
  record : ∀ entry ∈ volume.cacheEntries, entry.firstBlock = 0 →
    ∀ place < 64, entry.buffer place = (formatRoot partition.volumeBlocks).toBytes place

/-- The group of a block is whole, and a transfer of it does not reach 4 GiB. -/
def Whole (partition : VolumePartition Medium) (block : Nat) : Prop :=
  partition.Fits (groupStart block) 4

variable {volume : PupVolume} {medium : Medium} {memory : FreshMemory} {block : Nat}

theorem Whole.word (whole : partition.Whole block) : block < 2 ^ 64 := by
  have below := whole.2
  unfold groupStart at below
  have small : (block / 4 * 4 + 4) * 0x1000 ≤ 2 ^ 32 := Nat.le_trans (Nat.le_add_left _ _) below
  omega

theorem Whole.fillCmds (whole : partition.Whole block) (member : cmd ∈ partition.fillCmds block) :
    cmd.Inside (partition.firstBlock * partition.disk.blockSize) partition.stop := by
  unfold Partition.fillCmds at member
  rw [and_groupMask whole.word] at member
  exact Fits.readCmds whole (by omega) member

theorem Sound.find (sound : partition.Sound volume) {entry : CacheEntry}
    (found : volume.findCacheEntry block = some entry) :
    entry ∈ volume.cacheEntries ∧ entry.firstBlock = groupStart block := by
  have member := List.mem_of_find?_eq_some found
  have covers := List.find?_some found
  have below := (sound.fits entry member).2
  have small : (entry.firstBlock + 4) * 0x1000 ≤ 2 ^ 32 :=
    Nat.le_trans (Nat.le_add_left _ _) below
  exact ⟨member, (covers_iff (sound.aligned entry member) (by omega)).mp covers⟩

/-- A load of a whole group keeps the volume sound, and its command is inside the partition. -/
theorem Sound.findOrLoad (sound : partition.Sound volume) (formatted : partition.Formatted medium)
    (usable : partition.Usable) (whole : partition.Whole block) :
    partition.Sound
        (volume.findOrLoadCacheEntry partition.toPartition medium memory block).2 ∧
      (volume.findOrLoadCacheEntry partition.toPartition medium memory block).1.firstBlock =
        groupStart block ∧
      ∀ cmd ∈ volume.findOrLoadCmds partition.toPartition block,
        cmd.Inside (partition.firstBlock * partition.disk.blockSize) partition.stop := by
  unfold findOrLoadCacheEntry findOrLoadCmds
  cases found : volume.findCacheEntry block with
  | some entry =>
      exact ⟨sound, (sound.find found).2, fun _ => nofun⟩
  | none =>
      have first : (volume.loadedEntry partition.toPartition medium memory block).firstBlock =
          groupStart block := and_groupMask whole.word
      refine ⟨⟨sound.root, ?_, ?_, ?_⟩, first, fun cmd member => whole.fillCmds member⟩
      · intro entry member
        rcases List.mem_append.mp member with old | new
        · exact sound.aligned entry old
        · rw [List.mem_singleton.mp new, first]
          exact Nat.mul_mod_left _ _
      · intro entry member
        rcases List.mem_append.mp member with old | new
        · exact sound.fits entry old
        · rw [List.mem_singleton.mp new, first]
          exact whole
      · intro entry member atStart place inRecord
        rcases List.mem_append.mp member with old | new
        · exact sound.record entry old atStart place inRecord
        · rw [List.mem_singleton.mp new] at atStart ⊢
          rw [first] at atStart
          unfold loadedEntry
          dsimp only
          rw [and_groupMask whole.word, Fits.read_content whole usable (by omega) (by omega)]
          unfold fillBytes Partition.blockStart
          rw [if_pos (by omega), atStart, Nat.zero_mul, Nat.add_zero, Nat.sub_zero]
          exact formatted place inRecord

/-- A flush writes the record that it finds. -/
theorem Sound.flush (sound : partition.Sound volume) (usable : partition.Usable) :
    ∀ entries medium, entries ⊆ volume.cacheEntries → partition.Formatted medium →
      partition.Formatted (flushCache partition.toPartition medium entries) := by
  intro entries
  induction entries with
  | nil => exact fun medium _ formatted => formatted
  | cons entry rest ih =>
      intro medium subset formatted
      have member := subset List.mem_cons_self
      have fits := sound.fits entry member
      apply ih _ fun other inRest => subset (List.mem_cons_of_mem _ inRest)
      by_cases atStart : entry.firstBlock = 0
      · intro place inRecord
        unfold storeCacheEntry
        rw [fits.content_write usable (by omega) (by omega)]
        unfold fillBytes Partition.blockStart
        rw [atStart, Nat.zero_mul, Nat.add_zero, if_pos (by omega), Nat.add_sub_cancel_left]
        exact sound.record entry member atStart place inRecord
      · exact formatted.write fits usable (by omega) (by omega) (Nat.pos_of_ne_zero atStart) _

theorem Sound.flushCmds (sound : partition.Sound volume)
    (member : cmd ∈ volume.flushCmds partition.toPartition) :
    cmd.Inside (partition.firstBlock * partition.disk.blockSize) partition.stop := by
  obtain ⟨entry, inCache, isStore⟩ := List.mem_flatMap.mp member
  exact (sound.fits entry inCache).writeCmds (by omega) isStore

theorem Formatted.root (formatted : partition.Formatted medium) (usable : partition.Usable)
    (fits : partition.Fits 0 1) :
    PupRoot.ofBytes (partition.readVolumeBytes medium partition.disk.blockSize 0 0 64
      (fun _ => 0)) = formatRoot partition.volumeBlocks := by
  have room := fits.room usable
  have below := fits.2
  have isStart : (partition.firstBlock * partition.disk.blockSize % 2 ^ 32 +
      (0 * partition.disk.blockSize + 0) % 2 ^ 64) % 2 ^ 64 % 2 ^ 32 =
        partition.firstBlock * partition.disk.blockSize := by
    rw [Nat.zero_mul]
    generalize partition.firstBlock * partition.disk.blockSize = start at below ⊢
    omega
  have size : 64 % 2 ^ 32 = 64 := by omega
  have inside : partition.firstBlock * partition.disk.blockSize + 64 ≤
      partition.disk.driver.capacity := by
    unfold Partition.blockStart at room
    exact Nat.le_trans (by omega) room
  rw [← ofBytes_formatRoot (Nat.lt_trans usable.word (by decide))]
  apply PupRoot.ofBytes_congr
  intro place inRecord
  unfold Partition.readVolumeBytes
  rw [Disk.read_spec usable.writable.readable _ _ (by rw [isStart, size]; exact inside), isStart,
    size]
  unfold fillBytes
  rw [if_pos (by omega), Nat.sub_zero]
  exact formatted place inRecord

theorem Formatted.mount (formatted : partition.Formatted medium) (usable : partition.Usable)
    (format : partition.FormatFits) :
    partition.Sound (PupVolume.mountVolume partition.toPartition medium memory) ∧
      ∀ cmd ∈ mountCmds partition.toPartition medium,
        cmd.Inside (partition.firstBlock * partition.disk.blockSize) partition.stop := by
  obtain ⟨bitmap, -, group, first⟩ := format.fits usable
  have whole : partition.Whole 1 := group
  have root := formatted.root usable first
  unfold PupVolume.mountVolume mountCmds
  dsimp only
  rw [root, formatRoot_rootBlock]
  constructor
  · apply (Sound.findOrLoad _ formatted usable whole).1
    exact ⟨rfl, fun _ => nofun, fun _ => nofun, fun _ => nofun⟩
  · intro cmd member
    rw [List.mem_append, List.mem_append] at member
    rcases member with (readRoot | readBitmap) | fillNode
    · have stop := first.stop
      have below := first.2
      have only := Disk.mem_readCmds readRoot
      have isStart : (partition.firstBlock * partition.disk.blockSize % 2 ^ 32 +
          (0 * partition.disk.blockSize + 0) % 2 ^ 64) % 2 ^ 64 % 2 ^ 32 =
            partition.firstBlock * partition.disk.blockSize := by
        rw [Nat.zero_mul]
        generalize partition.firstBlock * partition.disk.blockSize = start at below ⊢
        omega
      rw [isStart] at only
      rw [only]
      exact ⟨Nat.le_refl _,
        Nat.le_trans (Nat.add_le_add_left (show 64 % 2 ^ 32 ≤ (0 + 1) * 0x1000 by omega) _) stop⟩
    · exact bitmap.readCmds (formatBitmaskBlocks_pos _) readBitmap
    · exact whole.fillCmds fillNode

theorem Sound.unmount (sound : partition.Sound volume) (formatted : partition.Formatted medium)
    (usable : partition.Usable) (format : partition.FormatFits) :
    partition.Formatted (volume.unmountVolume partition.toPartition medium) ∧
      ∀ cmd ∈ volume.unmountCmds partition.toPartition,
        cmd.Inside (partition.firstBlock * partition.disk.blockSize) partition.stop := by
  obtain ⟨bitmap, -, -, -⟩ := format.fits usable
  have flushed := sound.flush usable volume.cacheEntries medium (List.Subset.refl _) formatted
  have small : formatBitmaskBlocks partition.volumeBlocks * 0x1000 < 2 ^ 32 := by
    have below := bitmap.2
    omega
  unfold PupVolume.unmountVolume unmountCmds
  rw [sound.root]
  constructor
  · exact flushed.write bitmap usable (formatBitmaskBlocks_pos _) small (by decide) _
  · intro cmd member
    rcases List.mem_append.mp member with isFlush | isBitmap
    · exact sound.flushCmds isFlush
    · exact bitmap.writeCmds (formatBitmaskBlocks_pos _) isBitmap

structure ReadSound (partition : VolumePartition Medium) (first last : Nat)
    (turn : BlockRead × List DiskCmd) : Prop where
  sound : partition.Sound turn.1.volume
  behind : first ≤ turn.1.firstBlock
  rest : turn.1.firstBlock + turn.1.blockCount = last
  small : turn.1.blockCount < 2 ^ 32
  inside : ∀ cmd ∈ turn.2,
    cmd.Inside (partition.firstBlock * partition.disk.blockSize) partition.stop

theorem ReadSound.turn {last : Nat} {turn next : BlockRead × List DiskCmd}
    (reading : partition.ReadSound first last turn) (formatted : partition.Formatted medium)
    (usable : partition.Usable) (word : last < 2 ^ 64)
    (whole : ∀ block, first ≤ block → block < last → partition.Whole block)
    (turned : loggedTurn partition.toPartition medium memory last turn = some next) :
    partition.ReadSound first last next := by
  obtain ⟨read, log⟩ := turn
  obtain ⟨sound, behind, rest, small, inside⟩ := reading
  dsimp only at sound behind rest small inside
  obtain ⟨read', turns, result⟩ := Option.map_eq_some_iff.mp turned
  unfold readTurn at turns
  split at turns
  · rename_i more
    obtain ⟨sound', group, loads⟩ := @Sound.findOrLoad _ _ _ _ memory _ sound formatted usable
      (whole read.firstBlock behind more)
    rw [← result, ← Option.some.inj turns, group]
    unfold groupStart
    refine ⟨sound', ?_, ?_, ?_, ?_⟩
    · dsimp only
      split
      · omega
      · omega
    · dsimp only
      split
      · omega
      · omega
    · exact Nat.mod_lt _ (by decide)
    · intro cmd member
      rcases List.mem_append.mp member with old | new
      · exact inside cmd old
      · exact loads cmd new
  · cases turns

theorem Sound.read (sound : partition.Sound volume) (formatted : partition.Formatted medium)
    (usable : partition.Usable) {firstBlock blockCount : Nat} {buffer : Bytes}
    (small : blockCount < 2 ^ 32)
    (whole : ∀ block, firstBlock ≤ block → block < firstBlock + blockCount → partition.Whole block)
    {after : PupVolume} {cmds : List DiskCmd}
    (ran : volume.loggedRead partition.toPartition medium memory firstBlock blockCount buffer =
      some (after, cmds)) :
    partition.Sound after ∧
      ∀ cmd ∈ cmds, cmd.Inside (partition.firstBlock * partition.disk.blockSize) partition.stop := by
  unfold loggedRead at ran
  by_cases some : blockCount > 0
  · rw [if_pos some] at ran
    obtain ⟨⟨last, log⟩, looped, result⟩ := Option.map_eq_some_iff.mp ran
    cases result
    have word : firstBlock + blockCount < 2 ^ 64 := by
      have below := (whole (firstBlock + blockCount - 1) (by omega) (by omega)).2
      have lastSmall : (groupStart (firstBlock + blockCount - 1) + 4) * 0x1000 ≤ 2 ^ 32 :=
        Nat.le_trans (Nat.le_add_left _ _) below
      unfold groupStart at lastSmall
      omega
    rw [Nat.mod_eq_of_lt word] at looped
    have start : partition.ReadSound firstBlock (firstBlock + blockCount)
        ({ firstBlock := firstBlock, blockCount := blockCount, bufferCursor := 0, buffer := buffer,
           volume := volume }, []) :=
      ⟨sound, Nat.le_refl _, rfl, small, fun _ member => absurd member List.not_mem_nil⟩
    have kept := WhileLoop.keeps (fun _ _ reading turned =>
      ReadSound.turn reading formatted usable word whole turned) start looped
    exact ⟨kept.sound, kept.inside⟩
  · rw [if_neg some] at ran
    cases ran
    exact ⟨sound, fun _ member => absurd member List.not_mem_nil⟩

end VolumePartition

namespace PupSession

variable {partition : VolumePartition Medium} {session : PupSession Medium}

/-- The addresses of a format do not wrap, and blocks are loaded in whole groups below 4 GiB. -/
def Meets (partition : VolumePartition Medium) (_ : PupSession Medium) : SessionCall → Prop
  | .formatVolume => partition.FormatFits
  | .findOrLoadCacheEntry _ block => partition.Whole block
  | .read _ firstBlock blockCount _ =>
      ∀ block, firstBlock ≤ block → block < firstBlock + blockCount → partition.Whole block
  | _ => True

structure Safe (partition : VolumePartition Medium) (session : PupSession Medium) : Prop where
  inside : ∀ cmd ∈ session.log,
    cmd.Inside (partition.firstBlock * partition.disk.blockSize) partition.stop
  format : session.formatted = true → partition.FormatFits ∧ partition.Formatted session.medium
  mounted : ∀ volume, session.volume = some volume →
    session.formatted = true ∧ partition.Sound volume

theorem inside_append {start stop : Nat} {log cmds : List DiskCmd}
    (old : ∀ cmd ∈ log, cmd.Inside start stop) (new : ∀ cmd ∈ cmds, cmd.Inside start stop) :
    ∀ cmd ∈ log ++ cmds, cmd.Inside start stop := by
  intro cmd member
  rcases List.mem_append.mp member with inLog | inCmds
  · exact old cmd inLog
  · exact new cmd inCmds

theorem Safe.call (safe : session.Safe partition) (usable : partition.Usable)
    {label : SessionCall} {after : PupSession Medium} (meets : session.Meets partition label)
    (called : session.call partition label = some after) : after.Safe partition := by
  cases label with
  | formatVolume =>
      unfold PupSession.call at called
      dsimp only at called
      split at called
      · rename_i unmounted
        cases called
        refine ⟨inside_append safe.inside fun cmd => VolumePartition.formatCmds_inside meets usable,
          fun _ => ⟨meets, VolumePartition.formatted_formatVolume meets usable _⟩, ?_⟩
        intro volume mounted
        have mounted : session.volume = some volume := mounted
        rw [mounted] at unmounted
        cases unmounted
      · cases called
  | mountVolume memory =>
      unfold PupSession.call at called
      dsimp only at called
      split at called
      · rename_i ready
        cases called
        obtain ⟨format, formatted⟩ := safe.format ready.2
        obtain ⟨sound, cmds⟩ := @VolumePartition.Formatted.mount _ _ _ memory formatted usable format
        refine ⟨inside_append safe.inside cmds, safe.format, ?_⟩
        intro volume mounted
        exact ⟨ready.2, Option.some.inj mounted ▸ sound⟩
      · cases called
  | findOrLoadCacheEntry memory block =>
      obtain ⟨volume, mounted, called⟩ := Option.bind_eq_some_iff.mp called
      obtain ⟨isFormatted, sound⟩ := safe.mounted volume mounted
      split at called
      · cases called
        obtain ⟨sound', -, cmds⟩ := @VolumePartition.Sound.findOrLoad _ _ _ _ memory _ sound
          (safe.format isFormatted).2 usable meets
        refine ⟨inside_append safe.inside cmds, safe.format, ?_⟩
        intro other mounted
        exact ⟨isFormatted, Option.some.inj mounted ▸ sound'⟩
      · cases called
  | read memory firstBlock blockCount buffer =>
      obtain ⟨volume, mounted, called⟩ := Option.bind_eq_some_iff.mp called
      obtain ⟨isFormatted, sound⟩ := safe.mounted volume mounted
      split at called
      · rename_i inVolume
        obtain ⟨⟨last, cmds⟩, ran, result⟩ := Option.map_eq_some_iff.mp called
        obtain ⟨sound', inside⟩ := sound.read (safe.format isFormatted).2 usable inVolume.2 meets ran
        rw [← result]
        refine ⟨inside_append safe.inside inside, safe.format, ?_⟩
        intro other mounted
        exact ⟨isFormatted, Option.some.inj mounted ▸ sound'⟩
      · cases called
  | flushCache =>
      obtain ⟨volume, mounted, result⟩ := Option.map_eq_some_iff.mp called
      obtain ⟨isFormatted, sound⟩ := safe.mounted volume mounted
      obtain ⟨format, formatted⟩ := safe.format isFormatted
      rw [← result]
      refine ⟨inside_append safe.inside fun _ => sound.flushCmds, fun _ => ⟨format, ?_⟩, safe.mounted⟩
      exact sound.flush usable volume.cacheEntries session.medium (List.Subset.refl _) formatted
  | unmountVolume =>
      obtain ⟨volume, mounted, result⟩ := Option.map_eq_some_iff.mp called
      obtain ⟨isFormatted, sound⟩ := safe.mounted volume mounted
      obtain ⟨format, formatted⟩ := safe.format isFormatted
      obtain ⟨formatted', cmds⟩ := sound.unmount formatted usable format
      rw [← result]
      exact ⟨inside_append safe.inside cmds, fun _ => ⟨format, formatted'⟩, fun _ => nofun⟩

/-- In a session whose calls all meet the condition every command is inside the partition. -/
theorem commands_inside (usable : partition.Usable)
    (reachable : ((machine partition).restrict (Meets partition)).Reachable session) :
    ∀ cmd ∈ session.log,
      cmd.Inside (partition.firstBlock * partition.disk.blockSize) partition.stop := by
  have safe : session.Safe partition := by
    apply ((machine partition).restrict (Meets partition)).invariant _ _ reachable
    · rintro first ⟨unmounted, unformatted, noLog⟩
      refine ⟨?_, ?_, ?_⟩
      · rw [noLog]
        exact fun _ => nofun
      · rw [unformatted]
        exact nofun
      · rw [unmounted]
        exact fun _ => nofun
    · rintro before label after safe ⟨meets, called⟩
      exact safe.call usable meets called
  exact safe.inside

def ramPartition (blockCount : Nat) : VolumePartition Bytes where
  disk := { driver := Dev.ramDriver 0x8000, blockSize := 512, type := .ram }
  firstBlock := 0
  blockCount := blockCount
  clear medium address size := fillBytes medium address size fun _ => 0

def freshSession : PupSession Bytes where
  medium _ := 0
  volume := none
  formatted := false
  log := []

theorem freshSession_start (partition : VolumePartition Bytes) :
    (machine partition).start freshSession := ⟨rfl, rfl, rfl⟩

theorem commands_inside_ram : ∃ session,
    ((machine (ramPartition 64)).restrict (Meets (ramPartition 64))).Reachable session ∧
      session.log.length = 12 ∧ ∀ cmd ∈ session.log, cmd.Inside 0 (ramPartition 64).stop := by
  have usable : (ramPartition 64).Usable :=
    ⟨Or.inl rfl, by decide, by decide, by decide⟩
  have ran : (Machine.follow (fun session => PupSession.call (ramPartition 64) session) freshSession
      [.formatVolume, .mountVolume sampleMemory, .findOrLoadCacheEntry sampleMemory 5, .flushCache,
        .unmountVolume]).map (fun session => session.log.length) = some 12 := by
    decide +kernel
  obtain ⟨session, followed, length⟩ := Option.map_eq_some_iff.mp ran
  have start : ((machine (ramPartition 64)).restrict (Meets (ramPartition 64))).Reachable
      freshSession := Machine.reachable_start _ (freshSession_start (ramPartition 64))
  have meets : ∀ label ∈ [SessionCall.formatVolume, .mountVolume sampleMemory,
      .findOrLoadCacheEntry sampleMemory 5, .flushCache, .unmountVolume],
      ∀ session, Meets (ramPartition 64) session label := by
    intro label member session
    simp only [List.mem_cons, List.not_mem_nil, or_false] at member
    rcases member with rfl | rfl | rfl | rfl | rfl
    · exact ⟨by decide, by decide⟩
    · trivial
    · exact ⟨by decide, by decide⟩
    · trivial
    · trivial
  have reachable := Machine.follow_restrict _ (fun _ _ _ step => step) meets start followed
  exact ⟨session, reachable, length, commands_inside usable reachable⟩

/-- The last block of five is read with three blocks behind the partition. -/
theorem lastGroup_outside : ∃ session, (machine (ramPartition 40)).Reachable session ∧
    (ramPartition 40).Usable ∧
    ∃ cmd ∈ session.log, ¬ cmd.Inside 0 (ramPartition 40).stop := by
  have ran : (Machine.follow (fun session => PupSession.call (ramPartition 40) session) freshSession
      [.formatVolume, .mountVolume sampleMemory, .findOrLoadCacheEntry sampleMemory 4]).map
        (fun session => session.log.contains ⟨.read, 0x4000, 0x4000⟩) = some true := by
    decide +kernel
  obtain ⟨session, followed, member⟩ := Option.map_eq_some_iff.mp ran
  have reachable := (machine (ramPartition 40)).follow_reachable (fun _ _ _ step => step)
    ((machine (ramPartition 40)).reachable_start (freshSession_start _)) followed
  refine ⟨session, reachable, ⟨Or.inl rfl, by decide, by decide, by decide⟩,
    ⟨.read, 0x4000, 0x4000⟩, List.contains_iff_mem.mp member, by decide⟩

end PupSession

end DoggOS.Fs

/-
One turn of the page loop of `k_proc_CreateProcess`, and the page it leaves.

Page `place` of a segment is written in one turn.  `pageBytes` is what the turn
makes of the bytes that the page had: the pages with bytes of the file are
filled, but pages behind the last byte of the file keep what was in them, and a
file that starts and ends inside the first page is overwritten from the offset
on that equals its size.  `skew` is how far behind a page boundary such a
segment leaves the loop.
-/

import DoggOS.Proc.ProcessMapping

namespace DoggOS.Proc

open DoggOS.Mem

namespace ProgramHeader

def pad (header : ProgramHeader) : Nat := header.vaddr % 4096

def firstPage (header : ProgramHeader) : Nat := header.vaddr / 4096

def lastPage (header : ProgramHeader) : Nat := (header.vaddr + header.memSize - 1) / 4096

def Occupies (header : ProgramHeader) (number : Nat) : Prop :=
  0 < header.memSize ∧ header.firstPage ≤ number ∧ number ≤ header.lastPage

/-- The file is no larger than the segment, and the end of its last page is a 32-bit address. -/
structure Valid (header : ProgramHeader) : Prop where
  file : header.fileSize ≤ header.memSize
  noWrap : header.vaddr + header.memSize + 4095 < 2 ^ 32

def skew (header : ProgramHeader) : Nat :=
  if 0 < header.fileSize ∧ header.pad + header.fileSize < 4096 then header.pad else 0

def Turns (header : ProgramHeader) (place : Nat) : Prop :=
  if place = 0 then 0 < header.memSize else 4096 * place + header.skew < header.memSize

def pageBytes (image : Bytes) (header : ProgramHeader) (place : Nat) (prior : Bytes) : Bytes :=
  fun offset =>
    if place = 0 then
      if offset < header.pad then 0
      else if header.fileSize = 0 then prior offset
      else if header.pad + header.fileSize < 4096 ∧ header.fileSize ≤ offset then 0
      else image (header.offset + (offset - header.pad))
    else if 4096 * place < header.pad + header.fileSize then
      if 4096 * place + offset < header.pad + header.fileSize then
        image (header.offset + (4096 * place + offset - header.pad))
      else 0
    else prior offset

/-- `linear_address` before the turn for page `place`. -/
def addressAt (header : ProgramHeader) (place : Nat) : Nat :=
  4096 * (header.firstPage + place) + if place = 0 then 0 else header.skew

/-- `copied_segment_bytes` before the turn for page `place`. -/
def copiedAt (header : ProgramHeader) (place : Nat) : Nat :=
  min header.fileSize (4096 * place - header.pad)

end ProgramHeader

namespace ProcessMem

variable {pages : Nat → Nat} {image : Bytes} {header : ProgramHeader} {process : ProcessMem}

theorem writePage_writePage (page : Nat) (first second : Bytes) :
    (process.writePage page first).writePage page second = process.writePage page second := by
  unfold writePage
  simp only [Function.update_idem]

@[simp] theorem writePage_page (page : Nat) (bytes : Bytes) :
    (process.writePage page bytes).page = process.page := rfl

@[simp] theorem writePage_mem (page : Nat) (bytes : Bytes) :
    (process.writePage page bytes).mem page = bytes := Function.update_self ..

theorem fillPage_eq {start count : Nat} (fits : start + count ≤ 4096) (source : Bytes) :
    process.fillPage start count source = some (process.writePage process.page
      (fillBytes (process.mem process.page) start count source)) :=
  if_pos (.inr fits)

/-- The three byte loops of a turn, one after another on the page that is shown. -/
theorem segmentTurn_eq {linearAddress copied padSize copySize : Nat}
    (padIs : (if linearAddress < header.vaddr then header.vaddr - linearAddress else 0) = padSize)
    (copyIs : (if copied < header.fileSize then min (4096 - padSize) (header.fileSize - copied)
      else 4096 - padSize) = copySize)
    (inPage : padSize + copySize ≤ 4096)
    (noWrap : linearAddress + padSize + 4096 < 2 ^ 32) :
    segmentTurn pages image header ⟨linearAddress, copied, process⟩ = some
      { linearAddress := linearAddress + padSize + copySize +
          if (linearAddress + padSize + copySize) % 4096 = 0 then 0 else 4096 - copySize
        copiedSegmentBytes := copied + if copied < header.fileSize then copySize else 0
        process := (process.mapProcessAddress pages linearAddress 0).writePage
          (process.mapProcessAddress pages linearAddress 0).page
          (fillBytes (fillBytes (fillBytes
            ((process.mapProcessAddress pages linearAddress 0).mem
              (process.mapProcessAddress pages linearAddress 0).page)
            0 padSize (fun _ => 0))
            padSize (if copied < header.fileSize then copySize else 0)
            (fun index => image (header.offset + copied + index)))
            copySize
            (if (linearAddress + padSize + copySize) % 4096 = 0 then 0 else 4096 - copySize)
            (fun _ => 0)) } := by
  have room : sub32 0x1000 padSize = 4096 - padSize := by
    unfold sub32
    omega
  have tail : sub32 0x1000 copySize = 4096 - copySize := by
    unfold sub32
    omega
  have next : (linearAddress + padSize + copySize) % 2 ^ 32 = linearAddress + padSize + copySize :=
    Nat.mod_eq_of_lt (by omega)
  have low : (linearAddress + padSize + copySize) &&& 0xfff =
      (linearAddress + padSize + copySize) % 4096 := Bits.and_low _ 12
  unfold segmentTurn
  simp only [padIs, room, copyIs]
  generalize process.mapProcessAddress pages linearAddress 0 = mapped
  rw [fillPage_eq (by omega)]
  simp only [Option.bind_eq_bind, Option.bind_some]
  have copiedFits : padSize + (if copied < header.fileSize then copySize else 0) ≤ 4096 := by
    split_ifs <;> omega
  rw [fillPage_eq copiedFits]
  simp only [Option.bind_some, writePage_page, writePage_mem, writePage_writePage, next, low]
  by_cases ends : (linearAddress + padSize + copySize) % 4096 = 0
  · rw [if_neg (not_not_intro ends), if_pos ends, Words.fillBytes_zero]
    rfl
  · rw [if_pos ends, if_neg ends, tail, fillPage_eq (by omega)]
    simp only [Option.bind_some, writePage_page, writePage_mem, writePage_writePage]
    rw [Nat.mod_eq_of_lt (by omega)]
    rfl

end ProcessMem

namespace ProgramHeader

variable {pages : Nat → Nat} {image : Bytes} {header : ProgramHeader} {process after : ProcessMem}
  {place : Nat}

theorem pad_lt (header : ProgramHeader) : header.pad < 4096 := Nat.mod_lt _ (by decide)

theorem vaddr_eq (header : ProgramHeader) :
    header.vaddr = 4096 * header.firstPage + header.pad := by
  unfold firstPage pad
  omega

theorem skew_le (header : ProgramHeader) : header.skew ≤ header.pad := by
  unfold skew
  split_ifs <;> omega

theorem addressAt_zero (header : ProgramHeader) : header.addressAt 0 = 4096 * header.firstPage := by
  unfold addressAt
  rw [if_pos rfl, Nat.add_zero, Nat.add_zero]

theorem addressAt_pos (positive : 0 < place) :
    header.addressAt place = 4096 * (header.firstPage + place) + header.skew := by
  unfold addressAt
  rw [if_neg (by omega)]

theorem pageBytes_later (positive : 0 < place)
    (inFile : 4096 * place < header.pad + header.fileSize) (prior : Bytes) (offset : Nat) :
    header.pageBytes image place prior offset =
      if 4096 * place + offset < header.pad + header.fileSize then
        image (header.offset + (4096 * place + offset - header.pad))
      else 0 := by
  unfold pageBytes
  rw [if_neg (by omega), if_pos inFile]

structure TurnOf (pages : Nat → Nat) (image : Bytes) (header : ProgramHeader) (place : Nat)
    (process after : ProcessMem) : Prop where
  turn : segmentTurn pages image header
      ⟨header.addressAt place, header.copiedAt place, process⟩ =
    some ⟨header.addressAt (place + 1), header.copiedAt (place + 1), after⟩
  writes : ∃ bytes, after = (process.mapProcessAddress pages (header.addressAt place) 0).writePage
      (process.mapProcessAddress pages (header.addressAt place) 0).page bytes ∧
    ∀ offset, offset < 4096 → bytes offset = header.pageBytes image place
      ((process.mapProcessAddress pages (header.addressAt place) 0).mem
        (process.mapProcessAddress pages (header.addressAt place) 0).page) offset

theorem exists_turnOf (padSize copySize tailSize : Nat)
    (padIs : (if header.addressAt place < header.vaddr then
      header.vaddr - header.addressAt place else 0) = padSize)
    (copyIs : (if header.copiedAt place < header.fileSize then
      min (4096 - padSize) (header.fileSize - header.copiedAt place) else 4096 - padSize) = copySize)
    (tailIs : (if (header.addressAt place + padSize + copySize) % 4096 = 0 then 0
      else 4096 - copySize) = tailSize)
    (inPage : padSize + copySize ≤ 4096)
    (noWrap : header.addressAt place + padSize + 4096 < 2 ^ 32)
    (nextAddress : header.addressAt place + padSize + copySize + tailSize =
      header.addressAt (place + 1))
    (nextCopied : (header.copiedAt place + if header.copiedAt place < header.fileSize then copySize
      else 0) = header.copiedAt (place + 1))
    (content : ∀ prior : Bytes, ∀ offset, offset < 4096 →
      fillBytes (fillBytes (fillBytes prior 0 padSize (fun _ => 0)) padSize
        (if header.copiedAt place < header.fileSize then copySize else 0)
        (fun index => image (header.offset + header.copiedAt place + index))) copySize tailSize
        (fun _ => 0) offset = header.pageBytes image place prior offset)
    (pages : Nat → Nat) (process : ProcessMem) :
    ∃ after, TurnOf pages image header place process after := by
  have turned := @ProcessMem.segmentTurn_eq pages image header process _ _ _ _ padIs copyIs inPage
    noWrap
  rw [tailIs, nextAddress, nextCopied] at turned
  exact ⟨_, turned, _, rfl, content _⟩

/-- The first page: the bytes before the segment are cleared. -/
theorem first_turn (valid : header.Valid) (some : 0 < header.memSize)
    (pages : Nat → Nat) (image : Bytes) (process : ProcessMem) :
    ∃ after, TurnOf pages image header 0 process after := by
  have padLt := header.pad_lt
  have start := header.vaddr_eq
  have noWrap := valid.noWrap
  have file := valid.file
  have address := header.addressAt_zero
  have next : header.addressAt (0 + 1) = 4096 * (header.firstPage + (0 + 1)) + header.skew :=
    addressAt_pos (by omega)
  have copied : header.copiedAt 0 = 0 := by
    unfold copiedAt
    omega
  have copiedNext : header.copiedAt (0 + 1) = min header.fileSize (4096 - header.pad) := rfl
  rcases Nat.eq_zero_or_pos header.fileSize with none | file
  · have skew : header.skew = 0 := if_neg (by omega)
    refine exists_turnOf header.pad (4096 - header.pad) 0 ?_ ?_ ?_ ?_ ?_ ?_ ?_ ?_ pages process
    · rw [address]
      split_ifs <;> omega
    · rw [copied, none, if_neg (Nat.lt_irrefl 0)]
    · rw [address, if_pos (by omega)]
    · omega
    · omega
    · omega
    · rw [copied, none, copiedNext, none]
      simp
    · intro prior offset inside
      rw [copied, none, if_neg (Nat.lt_irrefl 0), Words.fillBytes_zero, Words.fillBytes_zero]
      unfold fillBytes pageBytes
      rw [if_pos rfl, if_pos none]
      by_cases below : offset < header.pad
      · rw [if_pos below, if_pos (by omega)]
      · rw [if_neg below, if_neg (by omega)]
  by_cases short : header.pad + header.fileSize < 4096
  · have skew : header.skew = header.pad := if_pos ⟨file, short⟩
    refine exists_turnOf header.pad header.fileSize (4096 - header.fileSize) ?_ ?_ ?_ ?_ ?_ ?_ ?_ ?_
      pages process
    · rw [address]
      split_ifs <;> omega
    · rw [copied, if_pos file]
      omega
    · rw [address, if_neg (by omega)]
    · omega
    · omega
    · omega
    · rw [copied, if_pos file, copiedNext]
      omega
    · intro prior offset inside
      rw [copied, if_pos file]
      unfold fillBytes pageBytes
      rw [if_pos rfl]
      by_cases cleared : header.fileSize ≤ offset
      · rw [if_pos ⟨cleared, by omega⟩]
        split_ifs <;> first | rfl | omega
      · rw [if_neg (by omega)]
        by_cases below : offset < header.pad
        · rw [if_neg (by omega), if_pos (by omega), if_pos below]
        · rw [if_pos (by omega), if_neg below, if_neg (by omega), if_neg (by omega)]
          rfl
  · have skew : header.skew = 0 := if_neg (by omega)
    refine exists_turnOf header.pad (4096 - header.pad) 0 ?_ ?_ ?_ ?_ ?_ ?_ ?_ ?_ pages process
    · rw [address]
      split_ifs <;> omega
    · rw [copied, if_pos file]
      omega
    · rw [address, if_pos (by omega)]
    · omega
    · omega
    · omega
    · rw [copied, if_pos file, copiedNext]
      omega
    · intro prior offset inside
      rw [copied, if_pos file, Words.fillBytes_zero]
      unfold fillBytes pageBytes
      rw [if_pos rfl]
      by_cases below : offset < header.pad
      · rw [if_neg (by omega), if_pos (by omega), if_pos below]
      · rw [if_pos (by omega), if_neg below, if_neg (by omega), if_neg (by omega)]
        rfl

/-- A later page: the rest of the file goes in, or the page stays as it was. -/
theorem later_turn (valid : header.Valid) (positive : 0 < place) (turns : header.Turns place)
    (pages : Nat → Nat) (image : Bytes) (process : ProcessMem) :
    ∃ after, TurnOf pages image header place process after := by
  have padLt := header.pad_lt
  have start := header.vaddr_eq
  have noWrap := valid.noWrap
  have file := valid.file
  have skewLe := header.skew_le
  have address := header.addressAt_pos positive
  have next : header.addressAt (place + 1) = 4096 * (header.firstPage + (place + 1)) + header.skew :=
    addressAt_pos (Nat.succ_pos place)
  have running : 4096 * place + header.skew < header.memSize := by
    unfold Turns at turns
    rwa [if_neg (by omega)] at turns
  have copied : header.copiedAt place = min header.fileSize (4096 * place - header.pad) := rfl
  have copiedNext : header.copiedAt (place + 1) =
      min header.fileSize (4096 * (place + 1) - header.pad) := rfl
  have noPad : (if header.addressAt place < header.vaddr then
      header.vaddr - header.addressAt place else 0) = 0 := by
    rw [address]
    split_ifs <;> omega
  by_cases more : header.copiedAt place < header.fileSize
  · have skew : header.skew = 0 := if_neg (by omega)
    have sofar : header.copiedAt place = 4096 * place - header.pad := by omega
    by_cases last : header.pad + header.fileSize < 4096 * (place + 1)
    · obtain ⟨rest, restEq⟩ : ∃ rest, rest = header.fileSize - header.copiedAt place := ⟨_, rfl⟩
      have sum : 4096 * place + rest = header.pad + header.fileSize := by omega
      refine exists_turnOf 0 rest (4096 - rest) noPad ?_ ?_ ?_ ?_ ?_ ?_ ?_ pages process
      · rw [if_pos more]
        omega
      · rw [address, if_neg (by omega)]
      · omega
      · omega
      · omega
      · rw [if_pos more, copiedNext]
        omega
      · intro prior offset inside
        rw [if_pos more, Words.fillBytes_zero, pageBytes_later positive (by omega)]
        unfold fillBytes
        by_cases inFile : 4096 * place + offset < header.pad + header.fileSize
        · rw [if_neg (by omega), if_pos (by omega), if_pos inFile]
          exact congrArg image (by omega)
        · rw [if_pos (by omega), if_neg inFile]
    · refine exists_turnOf 0 4096 0 noPad ?_ ?_ ?_ ?_ ?_ ?_ ?_ pages process
      · rw [if_pos more]
        omega
      · rw [address, if_pos (by omega)]
      · omega
      · omega
      · omega
      · rw [if_pos more, copiedNext]
        omega
      · intro prior offset inside
        rw [if_pos more, Words.fillBytes_zero, Words.fillBytes_zero,
          pageBytes_later positive (by omega), if_pos (by omega)]
        unfold fillBytes
        rw [if_pos (by omega)]
        exact congrArg image (by omega)
  · have done : header.copiedAt place = header.fileSize := by omega
    refine exists_turnOf 0 4096 0 noPad ?_ ?_ ?_ ?_ ?_ ?_ ?_ pages process
    · rw [if_neg more]
    · split_ifs <;> omega
    · omega
    · omega
    · omega
    · rw [if_neg more, copiedNext]
      omega
    · intro prior offset inside
      rw [if_neg more, Words.fillBytes_zero, Words.fillBytes_zero, Words.fillBytes_zero]
      unfold pageBytes
      rw [if_neg (by omega), if_neg (by omega)]

theorem exists_turn (valid : header.Valid) (turns : header.Turns place)
    (pages : Nat → Nat) (image : Bytes) (process : ProcessMem) :
    ∃ after, TurnOf pages image header place process after := by
  rcases Nat.eq_zero_or_pos place with first | later
  · subst first
    exact first_turn valid (by unfold Turns at turns; exact turns) pages image process
  · exact later_turn valid later turns pages image process

end ProgramHeader

end DoggOS.Proc

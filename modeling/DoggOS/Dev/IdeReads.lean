/-
What a read from an IDE disk stores.

An interrupt takes all words of its sector and stores consecutive bytes of it.
For every sector but the last these are all bytes that are asked for.  In the
last sector the limit on the copy is the size of the whole read and no longer
what is left of it, so the read is exact for some addresses and sizes only.
-/

import DoggOS.Dev.Ide
import DoggOS.Library.Bits

namespace DoggOS.Dev

namespace IdeTransfer

variable {sector : Bytes} {transfer : IdeTransfer} {count : Nat}

def stored (sector : Bytes) (transfer : IdeTransfer) (start count words : Nat) : IdeTransfer :=
  { cmd := { transfer.cmd with
      buffer := fun offset =>
        if transfer.cmd.address ≤ offset ∧ offset < transfer.cmd.address + count then
          some (sector (start + (offset - transfer.cmd.address)))
        else transfer.cmd.buffer offset
      address := transfer.cmd.address + count }
    taken := transfer.taken + words }

theorem stored_zero (start words : Nat) :
    transfer.stored sector start 0 words = { transfer with taken := transfer.taken + words } := by
  have buffer : (fun offset =>
      if transfer.cmd.address ≤ offset ∧ offset < transfer.cmd.address + 0 then
        some (sector (start + (offset - transfer.cmd.address)))
      else transfer.cmd.buffer offset) = transfer.cmd.buffer := by
    funext offset
    rw [if_neg (by omega)]
  unfold stored
  rw [buffer]
  rfl

theorem stored_stored (start first second words more : Nat) :
    (transfer.stored sector start first words).stored sector (start + first) second more =
      transfer.stored sector start (first + second) (words + more) := by
  have buffer : (fun offset =>
      if transfer.cmd.address + first ≤ offset ∧
          offset < transfer.cmd.address + first + second then
        some (sector (start + first + (offset - (transfer.cmd.address + first))))
      else if transfer.cmd.address ≤ offset ∧ offset < transfer.cmd.address + first then
        some (sector (start + (offset - transfer.cmd.address)))
      else transfer.cmd.buffer offset) = fun offset =>
        if transfer.cmd.address ≤ offset ∧ offset < transfer.cmd.address + (first + second) then
          some (sector (start + (offset - transfer.cmd.address)))
        else transfer.cmd.buffer offset := by
    funext offset
    by_cases inSecond : transfer.cmd.address + first ≤ offset ∧
        offset < transfer.cmd.address + first + second
    · have place : start + first + (offset - (transfer.cmd.address + first)) =
          start + (offset - transfer.cmd.address) := by omega
      rw [if_pos inSecond, if_pos (by omega), place]
    · rw [if_neg inSecond]
      by_cases inFirst : transfer.cmd.address ≤ offset ∧ offset < transfer.cmd.address + first
      · rw [if_pos inFirst, if_pos (by omega)]
      · rw [if_neg inFirst, if_neg (by omega)]
  unfold stored
  simp only [buffer]
  rw [Nat.add_assoc, Nat.add_assoc transfer.taken]

theorem discard_eq (count : Nat) :
    discard sector count transfer = { transfer with taken := transfer.taken + count } := by
  induction count generalizing transfer with
  | zero => rfl
  | succ count ih =>
      rw [discard, ih]
      change IdeTransfer.mk transfer.cmd (transfer.taken + 1 + count) = _
      rw [Nat.add_assoc, Nat.add_comm 1 count]

theorem low_byte (offset : Nat) : UInt8.ofNat (loadHalfAt sector offset) = sector offset := by
  unfold loadHalfAt
  apply UInt8.toNat_inj.mp
  rw [UInt8.toNat_ofNat']
  have low := (sector offset).toNat_lt
  omega

theorem high_byte (offset : Nat) :
    UInt8.ofNat (loadHalfAt sector offset >>> 8) = sector (offset + 1) := by
  unfold loadHalfAt
  apply UInt8.toNat_inj.mp
  rw [UInt8.toNat_ofNat', Nat.shiftRight_eq_div_pow]
  have low := (sector offset).toNat_lt
  have high := (sector (offset + 1)).toNat_lt
  omega

theorem storeByte_eq (start : Nat) (fits : transfer.cmd.address + 1 < 2 ^ 32) :
    transfer.storeByte (sector start) = transfer.stored sector start 1 0 := by
  have buffer : Function.update transfer.cmd.buffer transfer.cmd.address (some (sector start)) =
      fun offset =>
        if transfer.cmd.address ≤ offset ∧ offset < transfer.cmd.address + 1 then
          some (sector (start + (offset - transfer.cmd.address)))
        else transfer.cmd.buffer offset := by
    funext offset
    by_cases here : offset = transfer.cmd.address
    · rw [if_pos (by omega), here, Function.update_self, Nat.sub_self, Nat.add_zero]
    · rw [if_neg (by omega), Function.update_of_ne here]
  have address : (transfer.cmd.address + 1) % 2 ^ 32 = transfer.cmd.address + 1 :=
    Nat.mod_eq_of_lt fits
  unfold storeByte stored
  rw [buffer, address]
  rfl

theorem copyWords_eq (fits : transfer.cmd.address + 2 * count < 2 ^ 32) :
    copyWords sector count transfer =
      transfer.stored sector (2 * transfer.taken) (2 * count) count := by
  induction count generalizing transfer with
  | zero =>
      rw [Nat.mul_zero, stored_zero]
      rfl
  | succ count ih =>
      have first := @storeByte_eq sector (transfer.readReg16 sector).2 (2 * transfer.taken)
        (by change transfer.cmd.address + 1 < _; omega)
      have second := @storeByte_eq sector ((transfer.readReg16 sector).2.stored sector
        (2 * transfer.taken) 1 0) (2 * transfer.taken + 1)
        (by change transfer.cmd.address + 1 + 1 < _; omega)
      rw [stored_stored] at second
      change copyWords sector count ((IdeTransfer.storeByte _ (UInt8.ofNat
        (loadHalfAt sector (2 * transfer.taken)))).storeByte (UInt8.ofNat
          (loadHalfAt sector (2 * transfer.taken) >>> 8))) = _
      rw [low_byte, high_byte]
      have rest := @ih ((transfer.readReg16 sector).2.stored sector (2 * transfer.taken) (1 + 1)
        (0 + 0)) (by change transfer.cmd.address + 2 + 2 * count < _; omega)
      have word : (transfer.readReg16 sector).2.stored sector (2 * transfer.taken) (1 + 1)
          (0 + 0) = transfer.stored sector (2 * transfer.taken) 2 1 := rfl
      rw [first, second, rest, word]
      have join := @stored_stored sector transfer (2 * transfer.taken) 2 (2 * count) 1 count
      have start : 2 * (transfer.taken + 1) = 2 * transfer.taken + 2 := by omega
      have bytes : 2 + 2 * count = 2 * (count + 1) := by omega
      rw [bytes, Nat.add_comm 1 count] at join
      change (transfer.stored sector (2 * transfer.taken) 2 1).stored sector
        (2 * (transfer.taken + 1)) (2 * count) count = _
      rw [start, join]

theorem copyBulk_eq {available : Nat} (left : available ≤ 512) (even : available % 2 = 0)
    (fits : transfer.cmd.address + 512 < 2 ^ 32) :
    transfer.copyBulk sector available =
      (transfer.stored sector (2 * transfer.taken) (2 * min (available / 2) (transfer.cmd.size / 2))
        (min (available / 2) (transfer.cmd.size / 2)),
        available - 2 * min (available / 2) (transfer.cmd.size / 2)) := by
  obtain ⟨words, isWords⟩ : ∃ words, words = min (available / 2) (transfer.cmd.size / 2) :=
    ⟨_, rfl⟩
  have copySize : (if available / 2 > transfer.cmd.size >>> 1 then transfer.cmd.size >>> 1
      else available / 2) = words := by
    rw [Nat.shiftRight_eq_div_pow, Nat.pow_one, isWords]
    split
    all_goals omega
  have rest : (available + 2 ^ 32 - words * 2) % 2 ^ 32 = available - 2 * words := by omega
  have address : (transfer.cmd.address + words * 2) % 2 ^ 32 =
      transfer.cmd.address + 2 * words := by omega
  unfold copyBulk
  rw [← isWords]
  by_cases some : available > 1
  · rw [if_pos some]
    simp only [copySize, rest]
    split
    · rw [copyWords_eq (by omega)]
    · change (IdeTransfer.mk { (transfer.readReg16S sector words).cmd with
        address := (transfer.cmd.address + words * 2) % 2 ^ 32 } _, _) = _
      rw [address]
      rfl
  · have none : words = 0 := by omega
    have same : available - 2 * words = available := by omega
    rw [if_neg some, same, none, Nat.mul_zero, stored_zero]
    rfl

theorem copyTail_eq {available : Nat} (even : available % 2 = 0) :
    transfer.copyTail sector available =
      { transfer with taken := transfer.taken + available / 2 } := by
  unfold copyTail
  rw [if_neg (by omega), discard_eq]

def copied (skip size : Nat) : Nat := skip % 2 + 2 * min ((512 - skip) / 2) (size / 2)

/-- The skipped part of the sector is read; of an odd start the second byte is stored. -/
theorem skipHead_eq (fresh : transfer.taken = 0) (skip : transfer.cmd.skipCount < 512)
    (fits : transfer.cmd.address + 1 < 2 ^ 32) :
    transfer.skipHead sector 512 =
      ({ cmd := { (transfer.stored sector transfer.cmd.skipCount (transfer.cmd.skipCount % 2)
          0).cmd with skipCount := 0 }
         taken := (transfer.cmd.skipCount + 1) / 2 },
        512 - (transfer.cmd.skipCount + transfer.cmd.skipCount % 2)) := by
  have words : (512 + 2 ^ 32 - transfer.cmd.skipCount / 2 * 2) % 2 ^ 32 =
      512 - transfer.cmd.skipCount / 2 * 2 := by omega
  unfold skipHead
  simp only [discard_eq, Nat.and_one_is_mod, fresh, Nat.zero_add, words]
  rcases Nat.mod_two_eq_zero_or_one transfer.cmd.skipCount with even | odd
  · have half : (transfer.cmd.skipCount + 1) / 2 = transfer.cmd.skipCount / 2 := by omega
    have whole : transfer.cmd.skipCount / 2 * 2 = transfer.cmd.skipCount := by omega
    rw [even, if_neg (fun odd => odd rfl), stored_zero, half, whole]
    rfl
  · have half : (transfer.cmd.skipCount + 1) / 2 = transfer.cmd.skipCount / 2 + 1 := by omega
    have place : 2 * (transfer.cmd.skipCount / 2) + 1 = transfer.cmd.skipCount := by omega
    have rest : (512 - transfer.cmd.skipCount / 2 * 2 + 2 ^ 32 - 2) % 2 ^ 32 =
        512 - (transfer.cmd.skipCount + 1) := by omega
    have byte := @storeByte_eq sector { transfer with taken := transfer.cmd.skipCount / 2 + 1 }
      transfer.cmd.skipCount fits
    rw [odd, if_pos (by omega), rest, half]
    change (IdeTransfer.mk { (IdeTransfer.storeByte _ (UInt8.ofNat
      (loadHalfAt sector (2 * (transfer.cmd.skipCount / 2)) >>> 8))).cmd with skipCount := 0 } _,
        _) = _
    rw [high_byte, place]
    change (IdeTransfer.mk { (IdeTransfer.storeByte
      { transfer with taken := transfer.cmd.skipCount / 2 + 1 }
        (sector transfer.cmd.skipCount)).cmd with skipCount := 0 } _, _) = _
    rw [byte]
    rfl

/-- An interrupt takes the 256 words of the sector and stores bytes from the skipped start on. -/
theorem readSector_eq (fresh : transfer.taken = 0) (skip : transfer.cmd.skipCount < 512)
    (fits : transfer.cmd.address + 513 < 2 ^ 32) :
    transfer.readSector sector 512 =
      { cmd := { (transfer.stored sector transfer.cmd.skipCount
          (copied transfer.cmd.skipCount transfer.cmd.size) 256).cmd with skipCount := 0 }
        taken := 256 } := by
  obtain ⟨start, isStart⟩ : ∃ start, start = transfer.cmd.skipCount := ⟨_, rfl⟩
  obtain ⟨words, isWords⟩ : ∃ words, words = min ((512 - start) / 2) (transfer.cmd.size / 2) :=
    ⟨_, rfl⟩
  have started : (if transfer.cmd.skipCount ≠ 0 then transfer.skipHead sector 512
      else (transfer, 512)) =
        ({ cmd := { (transfer.stored sector start (start % 2) 0).cmd with skipCount := 0 }
           taken := (start + 1) / 2 }, 512 - (start + start % 2)) := by
    by_cases skipped : transfer.cmd.skipCount = 0
    · have zero : start = 0 := isStart.trans skipped
      rw [if_neg (fun nonzero => nonzero skipped), zero, stored_zero]
      obtain ⟨⟨type, address, size, buffer, condition, transferCondition, skipCount, sectorCount⟩,
        taken⟩ := transfer
      change taken = 0 at fresh
      change skipCount = 0 at skipped
      rw [fresh, skipped]
    · rw [if_pos skipped, skipHead_eq fresh skip (by omega), isStart]
  unfold readSector
  simp only [started]
  rw [← isStart] at skip ⊢
  unfold copied
  rw [← isWords]
  by_cases whole : start ≠ 0 ∧ 512 - (start + start % 2) = 0
  · have last : start = 511 := by omega
    have none : words = 0 := by omega
    rw [if_pos whole, none, last]
    rfl
  · have bulk := @copyBulk_eq sector
      { cmd := { (transfer.stored sector start (start % 2) 0).cmd with skipCount := 0 }
        taken := (start + 1) / 2 } (512 - (start + start % 2)) (by omega) (by omega)
      (by change transfer.cmd.address + start % 2 + 512 < _; omega)
    have limit : min ((512 - (start + start % 2)) / 2) (transfer.cmd.size / 2) = words := by
      omega
    have place : 2 * ((start + 1) / 2) = start + start % 2 := by omega
    have taken : (start + 1) / 2 + words + (512 - (start + start % 2) - 2 * words) / 2 = 256 := by
      omega
    have join := @stored_stored sector transfer start (start % 2) (2 * words) 0 words
    rw [if_neg whole, bulk]
    change copyTail sector (stored sector _ (2 * ((start + 1) / 2))
      (2 * min ((512 - (start + start % 2)) / 2) (transfer.cmd.size / 2))
      (min ((512 - (start + start % 2)) / 2) (transfer.cmd.size / 2)))
      (512 - (start + start % 2) -
        2 * min ((512 - (start + start % 2)) / 2) (transfer.cmd.size / 2)) = _
    rw [limit, place, copyTail_eq (by omega)]
    change IdeTransfer.mk { ((transfer.stored sector start (start % 2) 0).stored sector
      (start + start % 2) (2 * words) words).cmd with skipCount := 0 }
        ((start + 1) / 2 + words + (512 - (start + start % 2) - 2 * words) / 2) = _
    rw [join, taken]
    rfl

end IdeTransfer

open IdeTransfer

theorem interruptHandler_eq {sector : Bytes} {cmd : IdeCmd} (isRead : cmd.type = .read)
    (skip : cmd.skipCount < 512) (fits : cmd.address + 513 < 2 ^ 32) :
    interruptHandler 512 0 sector cmd =
      { cmd := { cmd with
          address := cmd.address + copied cmd.skipCount cmd.size
          buffer := fun offset =>
            if cmd.address ≤ offset ∧ offset < cmd.address + copied cmd.skipCount cmd.size then
              some (sector (cmd.skipCount + (offset - cmd.address)))
            else cmd.buffer offset
          condition := cmd.condition ||
            decide (cmd.address + copied cmd.skipCount cmd.size = cmd.size)
          transferCondition := cmd.transferCondition ||
            decide ((cmd.sectorCount + 2 ^ 16 - 1) % 2 ^ 16 = 0)
          skipCount := 0
          sectorCount := (cmd.sectorCount + 2 ^ 16 - 1) % 2 ^ 16 }
        taken := 256 } := by
  have read := @readSector_eq sector { cmd := cmd, taken := 0 } rfl skip fits
  have noError : ¬ 0 &&& 1 ≠ 0 := by decide
  unfold interruptHandler
  rw [if_neg noError]
  simp only [isRead, read]
  unfold stored
  by_cases atEnd : cmd.address + copied cmd.skipCount cmd.size = cmd.size
  · by_cases served : (cmd.sectorCount + 2 ^ 16 - 1) % 2 ^ 16 = 0
    · simp only [isRead, if_pos atEnd, if_pos served, decide_eq_true atEnd, decide_eq_true served,
        Bool.or_true]
    · simp only [isRead, if_pos atEnd, if_neg served, decide_eq_true atEnd, decide_eq_false served,
        Bool.or_true, Bool.or_false]
  · by_cases served : (cmd.sectorCount + 2 ^ 16 - 1) % 2 ^ 16 = 0
    · simp only [isRead, if_neg atEnd, if_pos served, decide_eq_false atEnd, decide_eq_true served,
        Bool.or_true, Bool.or_false]
    · simp only [isRead, if_neg atEnd, if_neg served, decide_eq_false atEnd, decide_eq_false served,
        Bool.or_false]

def sectorCount (address size : Nat) : Nat := (address % 512 + size + 511) / 512

def storedAfter (address size done : Nat) : Nat :=
  if done = 0 then 0
  else if done < sectorCount address size then 512 * done - address % 512
  else 512 * (sectorCount address size - 1) - address % 512 +
    copied (if sectorCount address size = 1 then address % 512 else 0) size

structure IdeRun.Served (content : Bytes) (address size done : Nat) (run : IdeRun) : Prop where
  type : run.cmd.type = .read
  wanted : run.cmd.size = size
  stored : run.cmd.address = storedAfter address size done
  skipCount : run.cmd.skipCount = if done = 0 then address % 512 else 0
  buffer : ∀ offset, run.cmd.buffer offset =
    if offset < storedAfter address size done then some (content (address + offset)) else none
  condition : run.cmd.condition = decide (storedAfter address size done = size)
  taken : run.taken = List.replicate done 256
  signalled : run.signalled =
    (List.range done).map fun index => decide (storedAfter address size (index + 1) = size)

/-- The read is exact: the buffer gets the bytes and nothing else is stored, every interrupt takes
one whole sector, and the condition is signalled in the interrupt for the last one. -/
structure IdeRun.Delivers (content : Bytes) (address size : Nat) (run : IdeRun) : Prop where
  buffer : ∀ offset, run.cmd.buffer offset =
    if offset < size then some (content (address + offset)) else none
  taken : ∀ words ∈ run.taken, words = 256
  signalled : run.signalled = (List.range (sectorCount address size)).map fun index =>
    decide (index + 1 = sectorCount address size)

/-- One sector and an even end; or whole sectors to the end and at least one; or the last byte of a
sector with an even number of bytes behind it. -/
def ReadsWhole (address size : Nat) : Prop :=
  (address % 512 + size ≤ 512 ∧ (address % 512 + size) % 2 = 0) ∨
    (512 < address % 512 + size ∧ 512 ≤ size ∧ (address % 512 + size) % 512 = 0) ∨
    (address % 512 = 511 ∧ size % 2 = 1 ∧ size < 512)

section Reads

variable {content : Bytes} {address size done : Nat} {run : IdeRun}

theorem storedAfter_next (more : done < sectorCount address size) :
    storedAfter address size (done + 1) = storedAfter address size done +
      copied (if done = 0 then address % 512 else 0) size := by
  unfold storedAfter
  rw [if_neg (Nat.succ_ne_zero done)]
  by_cases last : done + 1 < sectorCount address size
  · rw [if_pos last]
    by_cases first : done = 0
    · rw [if_pos first, if_pos first, first]
      rw [first] at last
      unfold sectorCount at last
      unfold copied
      omega
    · rw [if_neg first, if_neg first, if_pos more]
      unfold sectorCount at last
      unfold copied
      omega
  · have isLast : done = sectorCount address size - 1 := by omega
    rw [if_neg last]
    by_cases first : done = 0
    · have single : sectorCount address size = 1 := by omega
      rw [if_pos first, if_pos first, if_pos single, single, Nat.sub_self, Nat.mul_zero,
        Nat.zero_sub]
    · have several : sectorCount address size ≠ 1 := by omega
      rw [if_neg first, if_neg first, if_neg several, if_pos more, ← isLast]

theorem storedAfter_eq (more : done < sectorCount address size) :
    storedAfter address size done = if done = 0 then 0 else 512 * done - address % 512 := by
  unfold storedAfter
  rw [if_pos more]

theorem storedAfter_lt (positive : 0 < size) (more : done < sectorCount address size) :
    storedAfter address size done < size := by
  rw [storedAfter_eq more]
  unfold sectorCount at more
  split
  all_goals omega

/-- The byte of a sector that goes to an offset of the buffer. -/
theorem served_place (more : done < sectorCount address size) {offset : Nat}
    (above : storedAfter address size done ≤ offset) :
    512 * (address / 512 + done) + ((if done = 0 then address % 512 else 0) +
      (offset - storedAfter address size done)) = address + offset := by
  rw [storedAfter_eq more] at above ⊢
  by_cases first : done = 0
  · rw [if_pos first, if_pos first, first]
    omega
  · rw [if_neg first] at above
    rw [if_neg first, if_neg first]
    omega

theorem IdeRun.Served.next (served : run.Served content address size done) (positive : 0 < size)
    (fits : address + size < 2 ^ 32 - 512) (more : done < sectorCount address size) :
    (run.interrupt content (address / 512 + done)).Served content address size (done + 1) := by
  have below := storedAfter_lt positive more
  have step := storedAfter_next more
  have skip : run.cmd.skipCount < 512 := by
    rw [served.skipCount]
    split
    all_goals omega
  have handled := @interruptHandler_eq
    (fun place => content (512 * (address / 512 + done) + place)) run.cmd served.type skip
    (by rw [served.stored]; omega)
  have stored : run.cmd.address + copied run.cmd.skipCount run.cmd.size =
      storedAfter address size (done + 1) := by
    rw [served.stored, served.skipCount, served.wanted, step]
  rw [stored] at handled
  have notYet : run.cmd.condition = false := by
    rw [served.condition]
    exact decide_eq_false (Nat.ne_of_lt below)
  rw [notYet, Bool.false_or, served.wanted] at handled
  unfold IdeRun.interrupt
  rw [handled]
  constructor
  · exact served.type
  · rfl
  · rfl
  · exact (if_neg (Nat.succ_ne_zero done)).symm
  · intro offset
    change (if run.cmd.address ≤ offset ∧ offset < storedAfter address size (done + 1) then
      some (content (512 * (address / 512 + done) +
        (run.cmd.skipCount + (offset - run.cmd.address)))) else run.cmd.buffer offset) = _
    rw [served.stored, served.skipCount, served.buffer]
    by_cases old : offset < storedAfter address size done
    · rw [if_neg (by omega), if_pos old, if_pos (by omega)]
    · by_cases new : offset < storedAfter address size (done + 1)
      · rw [if_pos (by omega), if_pos new, served_place more (Nat.le_of_not_lt old)]
      · rw [if_neg (by omega), if_neg old, if_neg new]
  · rfl
  · change run.taken ++ [256] = _
    rw [served.taken, List.replicate_succ']
  · change run.signalled ++ [decide (storedAfter address size (done + 1) = size)] = _
    rw [served.signalled, List.range_succ, List.map_append]
    rfl

/-- The drive serves a command: its sectors are read, and the end of the transfer is signalled. -/
theorem IdeRun.Served.serve (positive : 0 < size) (fits : address + size < 2 ^ 32 - 512)
    (count : Nat) (served : run.Served content address size done)
    (inside : done + count ≤ sectorCount address size) (sectors : run.cmd.sectorCount = count)
    (short : count < 2 ^ 16) :
    (run.serve content (address / 512 + done) count).Served content address size (done + count) ∧
      (0 < count →
        (run.serve content (address / 512 + done) count).cmd.transferCondition = true) := by
  induction count generalizing run done with
  | zero => exact ⟨served, fun some => absurd some (Nat.lt_irrefl 0)⟩
  | succ count ih =>
      have more : done < sectorCount address size := by omega
      have next := served.next positive fits more
      have below := storedAfter_lt positive more
      have skip : run.cmd.skipCount < 512 := by
        rw [served.skipCount]
        split
        all_goals omega
      have handled := @interruptHandler_eq
        (fun place => content (512 * (address / 512 + done) + place)) run.cmd served.type skip
        (by rw [served.stored]; omega)
      have left : (run.interrupt content (address / 512 + done)).cmd.sectorCount = count := by
        unfold IdeRun.interrupt
        rw [handled]
        change (run.cmd.sectorCount + 2 ^ 16 - 1) % 2 ^ 16 = count
        omega
      have rest := ih next (by omega) left (by omega)
      have order : done + 1 + count = done + (count + 1) := by omega
      rw [order] at rest
      refine ⟨rest.1, ?_⟩
      intro _
      by_cases some : 0 < count
      · exact rest.2 some
      · have none : count = 0 := by omega
        subst none
        change (run.interrupt content (address / 512 + done)).cmd.transferCondition = true
        unfold IdeRun.interrupt
        rw [handled]
        change (run.cmd.transferCondition || decide ((run.cmd.sectorCount + 2 ^ 16 - 1) % 2 ^ 16 =
          0)) = true
        rw [sectors, Bool.or_eq_true]
        exact Or.inr (decide_eq_true (by omega))

theorem IdeRegs.sector_ofBlocks {firstBlock : Nat} (fits : firstBlock < 2 ^ 28) (count : Nat) :
    (IdeRegs.ofBlocks firstBlock count).sector = firstBlock := by
  have byte : ∀ word : Nat, word &&& 0xff = word % 2 ^ 8 := fun word => Bits.and_low word 8
  have nibble : ∀ word : Nat, word &&& 0x0f = word % 2 ^ 4 := fun word => Bits.and_low word 4
  have flags : 0xe0 % 2 ^ 4 = 0 := by decide
  unfold IdeRegs.sector IdeRegs.ofBlocks
  simp only [byte, nibble, Bits.or_mod, flags, Nat.or_zero, Nat.shiftRight_eq_div_pow]
  omega

theorem IdeRegs.count_ofBlocks (firstBlock : Nat) {count : Nat} (some : 0 < count)
    (small : count ≤ 256) : (IdeRegs.ofBlocks firstBlock count).count = count := by
  unfold IdeRegs.count IdeRegs.ofBlocks
  by_cases all : count = 256
  · rw [all]
    rfl
  · have kept : count % 2 ^ 8 = count := by omega
    simp only [kept]
    rw [if_neg (by omega)]

/-- The loop of `k_IDE_Read` after `done` of the sectors. -/
structure IdeRead.ServedTo (content : Bytes) (address size done : Nat) (read : IdeRead) : Prop where
  inside : done ≤ sectorCount address size
  firstBlock : read.firstBlock = address / 512 + done
  blockCount : read.blockCount = sectorCount address size - done
  served : read.run.Served content address size done

theorem ideTurn_spec (positive : 0 < size) (fits : address + size < 2 ^ 32 - 512)
    {read : IdeRead} (servedTo : read.ServedTo content address size done)
    (more : 0 < read.blockCount) :
    ∃ part next, 0 < part ∧ ideTurn content read = some next ∧
      next.ServedTo content address size (done + part) := by
  obtain ⟨inside, firstBlock, blockCount, served⟩ := servedTo
  have sectors : sectorCount address size * 512 ≤ address % 512 + size + 511 := by
    unfold sectorCount
    omega
  obtain ⟨part, isPart⟩ : ∃ part, part = if read.blockCount > 256 then 256 else read.blockCount :=
    ⟨_, rfl⟩
  have partBounds : 0 < part ∧ part ≤ 256 ∧ part ≤ read.blockCount := by
    split at isPart
    all_goals omega
  have started : ({ read.run with cmd := { read.run.cmd with
      transferCondition := false, sectorCount := part } } : IdeRun).Served content address size
        done :=
    ⟨served.type, served.wanted, served.stored, served.skipCount, served.buffer, served.condition,
      served.taken, served.signalled⟩
  have ran := started.serve positive fits part (by omega) rfl (by omega)
  have sector := @IdeRegs.sector_ofBlocks (address / 512 + done) (by omega) part
  have count := @IdeRegs.count_ofBlocks (address / 512 + done) part partBounds.1 partBounds.2.1
  refine ⟨part, ⟨({ read.run with cmd := { read.run.cmd with
      transferCondition := false, sectorCount := part } } : IdeRun).serve content
        (address / 512 + done) part, (address / 512 + done + part) % 2 ^ 32,
      (read.blockCount + 2 ^ 32 - part) % 2 ^ 32⟩, partBounds.1, ?_, ?_⟩
  · unfold ideTurn
    rw [← isPart, firstBlock]
    simp only [sector, count]
    rw [if_pos (ran.2 partBounds.1)]
  · constructor
    · omega
    · change (address / 512 + done + part) % 2 ^ 32 = _
      omega
    · change (read.blockCount + 2 ^ 32 - part) % 2 ^ 32 = _
      omega
    · exact ran.1

/-- The read ends with all its sectors served. -/
theorem ideRead_served (positive : 0 < size) (fits : address + size < 2 ^ 32 - 512) :
    ∃ run, ideRead content address size = some run ∧
      run.Served content address size (sectorCount address size) := by
  have mask := Bits.and_high (address + size + 512 - 1) 9 32 (by omega) (by omega)
  have last : ((address + size + 512 - 1) % 2 ^ 32 &&& 0xfffffe00) / 512 =
      (address + size + 511) / 512 := by
    rw [Nat.mod_eq_of_lt (by omega)]
    change (address + size + 512 - 1 &&& 2 ^ 32 - 2 ^ 9) / 512 = _
    rw [mask]
    omega
  have blockCount : ((address + size + 511) / 512 + 2 ^ 32 - address / 512) % 2 ^ 32 =
      sectorCount address size := by
    unfold sectorCount
    omega
  have nonempty : 0 < sectorCount address size := by
    unfold sectorCount
    omega
  have offset : address &&& 0x1ff = address % 512 := Bits.and_low address 9
  have start : IdeRead.ServedTo content address size 0
      { run :=
          { cmd :=
              { type := .read, address := 0, size := size, buffer := fun _ => none,
                condition := false, transferCondition := false, skipCount := address % 512,
                sectorCount := 0 }
            taken := []
            signalled := [] }
        firstBlock := address / 512
        blockCount := sectorCount address size } := by
    refine ⟨Nat.zero_le _, rfl, rfl, ⟨rfl, rfl, rfl, rfl, ?_, ?_, rfl, rfl⟩⟩
    · intro offset
      exact (if_neg (Nat.not_lt_zero offset)).symm
    · exact (decide_eq_false (Nat.ne_of_lt positive)).symm
  have preserved : ∀ done (read : IdeRead), read.ServedTo content address size done →
      decide (read.blockCount > 0) = true → ∃ further next, ideTurn content read = some next ∧
        next.ServedTo content address size further ∧
        sectorCount address size - further < sectorCount address size - done := by
    intro done read servedTo more
    have left := of_decide_eq_true more
    obtain ⟨part, next, advanced, turned, kept⟩ := ideTurn_spec positive fits servedTo left
    have inside := kept.inside
    exact ⟨done + part, next, turned, kept, by omega⟩
  obtain ⟨done, read, ran, servedTo, stopped⟩ := @WhileLoop.fault_rule _ _
    (fun read : IdeRead => decide (read.blockCount > 0)) (ideTurn content)
    (IdeRead.ServedTo content address size) (fun done => sectorCount address size - done) preserved
    0 _ start (sectorCount address size + 1) (by omega)
  have all : done = sectorCount address size := by
    have none := of_decide_eq_false stopped
    have inside := servedTo.inside
    have left := servedTo.blockCount
    omega
  refine ⟨read.run, ?_, all ▸ servedTo.served⟩
  unfold ideRead
  simp only [last, blockCount, offset]
  rw [if_pos (by omega), ran]
  rfl

/-- The last sector ends with the last byte just for these addresses and sizes. -/
theorem storedAfter_all_iff (positive : 0 < size) :
    storedAfter address size (sectorCount address size) = size ↔ ReadsWhole address size := by
  have some : sectorCount address size ≠ 0 := by
    unfold sectorCount
    omega
  have offset : address % 512 < 512 := Nat.mod_lt _ (by decide)
  unfold storedAfter ReadsWhole copied
  rw [if_neg some, if_neg (Nat.lt_irrefl _)]
  unfold sectorCount
  generalize address % 512 = start at *
  by_cases single : (start + size + 511) / 512 = 1
  · rw [if_pos single, single, Nat.sub_self, Nat.mul_zero, Nat.zero_sub, Nat.zero_add]
    have short : start + size ≤ 512 := by omega
    clear single some
    omega
  · rw [if_neg single]
    have long : 512 < start + size := by omega
    clear single some
    omega

theorem IdeRun.Served.delivers_iff (positive : 0 < size)
    (served : run.Served content address size (sectorCount address size)) :
    run.Delivers content address size ↔
      storedAfter address size (sectorCount address size) = size := by
  constructor
  · intro delivers
    obtain ⟨total, isTotal⟩ : ∃ total, total =
      storedAfter address size (sectorCount address size) := ⟨_, rfl⟩
    rw [← isTotal]
    rcases Nat.lt_trichotomy total size with fewer | exactly | further
    · have missing := served.buffer total
      rw [delivers.buffer, if_pos fewer, ← isTotal, if_neg (Nat.lt_irrefl total)] at missing
      cases missing
    · exact exactly
    · have past := served.buffer size
      rw [delivers.buffer, if_neg (Nat.lt_irrefl size), ← isTotal, if_pos further] at past
      cases past
  · intro whole
    constructor
    · intro offset
      rw [served.buffer, whole]
    · intro words member
      rw [served.taken] at member
      exact List.eq_of_mem_replicate member
    · rw [served.signalled]
      apply List.map_congr_left
      intro index member
      have inside := List.mem_range.mp member
      apply decide_eq_decide.mpr
      constructor
      · intro complete
        apply Nat.le_antisymm inside
        apply Nat.le_of_not_lt
        intro more
        have below := @storedAfter_lt address size (index + 1) positive more
        omega
      · intro last
        rw [last]
        exact whole

end Reads

/-- A read from an IDE disk ends, and it is exact if and only if the address and the size are of
one of the three kinds. -/
theorem ideRead_delivers_iff (content : Bytes) (address size : Nat) (positive : 0 < size)
    (fits : address + size < 2 ^ 32 - 512) :
    ∃ run, ideRead content address size = some run ∧
      (run.Delivers content address size ↔ ReadsWhole address size) := by
  obtain ⟨run, ran, served⟩ := @ideRead_served content _ _ positive fits
  refine ⟨run, ran, ?_⟩
  rw [served.delivers_iff positive]
  exact storedAfter_all_iff positive

/-- Five bytes from an odd address on. -/
theorem ideRead_delivers_five :
    ∃ run, ideRead (fun _ => 7) 3 5 = some run ∧ run.Delivers (fun _ => 7) 3 5 := by
  obtain ⟨run, ran, iff⟩ := ideRead_delivers_iff (fun _ => 7) 3 5 (by decide) (by decide)
  have whole : ReadsWhole 3 5 := Or.inl ⟨by decide, by decide⟩
  exact ⟨run, ran, iff.mpr whole⟩

/-- Of three bytes the last one is not stored; a read of 514 bytes stores 1024. The condition is
signalled for neither of them. -/
theorem ideRead_not_exact :
    (∃ run, ideRead (fun _ => 7) 0 3 = some run ∧ ¬ run.Delivers (fun _ => 7) 0 3 ∧
      run.cmd.buffer 2 = none ∧ run.cmd.condition = false) ∧
    ∃ run, ideRead (fun _ => 7) 0 514 = some run ∧ ¬ run.Delivers (fun _ => 7) 0 514 ∧
      run.cmd.buffer 1023 = some 7 ∧ run.cmd.condition = false := by
  constructor
  · obtain ⟨run, ran, served⟩ := @ideRead_served (fun _ => 7) 0 3 (by decide) (by decide)
    refine ⟨run, ran, ?_, ?_, ?_⟩
    · rw [served.delivers_iff (by decide)]
      decide
    · rw [served.buffer]
      decide
    · rw [served.condition]
      decide
  · obtain ⟨run, ran, served⟩ := @ideRead_served (fun _ => 7) 0 514 (by decide) (by decide)
    refine ⟨run, ran, ?_, ?_, ?_⟩
    · rw [served.delivers_iff (by decide)]
      decide
    · rw [served.buffer]
      decide
    · rw [served.condition]
      decide

end DoggOS.Dev

/-
The chain of buffers behind a stream.

Byte `i` of what was written is byte `i % 4088` of buffer `i / 4088`.  The chain
ends with the buffer that the next byte goes to; the reader is somewhere before.
A turn of the write loop fills up one buffer and adds a new one, or stops inside
a buffer; a turn of the read loop does the same without changing any buffer.
-/

import DoggOS.Io.Stream

namespace DoggOS.Io

/-- The addresses that `k_rt_Malloc` gives are not NULL and all different. -/
structure Fresh (malloc : Nat → Nat) : Prop where
  nonzero : ∀ i, malloc i ≠ 0
  distinct : ∀ i j, malloc i = malloc j → i = j

/-- What was written and read so far; buffer `i` of the chain is the `i`th that was allocated. -/
structure Carries (malloc : Nat → Nat) (stream : Stream) (history : Bytes) (written read : Nat) :
    Prop where
  writeOffset : stream.writeOffset = written
  readOffset : stream.readOffset = read
  ordered : read ≤ written
  fits : written < 2 ^ 32
  allocated : stream.allocated = written / 4088 + 1
  unused : ∀ i, written / 4088 < i → stream.bufs (malloc i) = none
  linked : ∀ i ≤ written / 4088, ∃ buf, stream.bufs (malloc i) = some buf ∧
    buf.next = (if i < written / 4088 then malloc (i + 1) else 0) ∧
    ∀ place < 4088, 4088 * i + place < written →
      buf.data place = history (4088 * i + place)
  buffers : stream.buffers = malloc 0
  lastBuffer : stream.lastBuffer = malloc (written / 4088)
  readBuffer : stream.readBuffer = malloc (read / 4088)
  writeBuffer : stream.writeBuffer = malloc (written / 4088)
  freeBuffers : stream.freeBuffers = 0
  notBlocked : stream.flags &&& flagBlocked = 0
  notClearing : stream.flags &&& flagClearRead = 0

namespace Stream

variable {stream : Stream} {buffer : Nat} {found : StreamBuf}

theorem deref_eq (present : stream.bufs buffer = some found) (nonzero : buffer ≠ 0) :
    stream.deref buffer = some found := by
  unfold deref
  rw [if_neg nonzero, present]

theorem modify_eq (present : stream.bufs buffer = some found) (nonzero : buffer ≠ 0)
    (change : StreamBuf → StreamBuf) : stream.modify buffer change =
      some { stream with bufs := Function.update stream.bufs buffer (some (change found)) } := by
  unfold modify
  rw [deref_eq present nonzero]
  rfl

theorem allocStreamBuffer_eq {malloc : Nat → Nat} (fresh : Fresh malloc)
    (noFree : stream.freeBuffers = 0) (started : stream.buffers ≠ 0)
    (nonzero : stream.lastBuffer ≠ 0) (last : stream.bufs stream.lastBuffer = some found)
    (other : stream.lastBuffer ≠ malloc stream.allocated) :
    stream.allocStreamBuffer malloc = some { stream with
      bufs := Function.update
        (Function.update stream.bufs stream.lastBuffer
          (some { found with next := malloc stream.allocated }))
        (malloc stream.allocated) (some { next := 0, prev := stream.lastBuffer, data := fun _ => 0 })
      lastBuffer := malloc stream.allocated
      allocated := stream.allocated + 1 } := by
  have taken : stream.takeBuffer malloc = some (malloc stream.allocated, { stream with
      bufs := Function.update stream.bufs (malloc stream.allocated)
        (some { next := 0, prev := 0, data := fun _ => 0 })
      allocated := stream.allocated + 1 }) := by
    unfold takeBuffer
    rw [if_neg (fun free => free noFree)]
  have linked := @modify_eq { stream with
      bufs := Function.update stream.bufs (malloc stream.allocated)
        (some { next := 0, prev := 0, data := fun _ => 0 })
      allocated := stream.allocated + 1 } stream.lastBuffer found
    ((Function.update_of_ne other _ _).trans last) nonzero
    (fun found => { found with next := malloc stream.allocated })
  have back := @modify_eq { stream with
      bufs := Function.update (Function.update stream.bufs (malloc stream.allocated)
        (some { next := 0, prev := 0, data := fun _ => 0 })) stream.lastBuffer
          (some { found with next := malloc stream.allocated })
      allocated := stream.allocated + 1 } (malloc stream.allocated) _
    ((Function.update_of_ne other.symm _ _).trans (Function.update_self _ _ _))
    (fresh.nonzero stream.allocated) (fun found => { found with prev := stream.lastBuffer })
  have order : Function.update (Function.update (Function.update stream.bufs
      (malloc stream.allocated) (some { next := 0, prev := 0, data := fun _ => 0 }))
      stream.lastBuffer (some { found with next := malloc stream.allocated }))
      (malloc stream.allocated) (some { next := 0, prev := stream.lastBuffer, data := fun _ => 0 }) =
      Function.update (Function.update stream.bufs stream.lastBuffer
        (some { found with next := malloc stream.allocated })) (malloc stream.allocated)
          (some { next := 0, prev := stream.lastBuffer, data := fun _ => 0 }) := by
    funext address
    simp only [Function.update_apply]
    split
    · rfl
    · rfl
  unfold allocStreamBuffer
  rw [taken, Option.bind_some]
  simp only [if_neg started, linked, Option.bind_some, back, Option.map_some, order]

end Stream

theorem bufDataSize_eq : bufDataSize = 4088 := rfl

namespace Carries

variable {malloc : Nat → Nat} {stream : Stream} {history source : Bytes} {written read size : Nat}

theorem appended_byte {found : StreamBuf} {i place : Nat} (small : place < 4088)
    (inside : size ≤ 4088 - written % 4088)
    (data : 4088 * i + place < written → found.data place = history (4088 * i + place))
    (below : 4088 * i + place < written + size) :
    (if i = written / 4088 then fillBytes found.data (written % 4088) size source place
      else found.data place) = fillBytes history written size source (4088 * i + place) := by
  by_cases last : i = written / 4088
  · rw [if_pos last]
    unfold fillBytes
    by_cases old : 4088 * i + place < written
    · rw [if_neg (by omega), if_neg (by omega), data old]
    · rw [if_pos (by omega), if_pos (by omega)]
      congr 1
      omega
  · rw [if_neg last, data (by omega)]
    unfold fillBytes
    rw [if_neg (by omega)]

theorem write_inside (fresh : Fresh malloc) (carries : Carries malloc stream history written read)
    (fits : written + size < 2 ^ 32) (inside : size < 4088 - written % 4088) {found : StreamBuf}
    {bufs : Bufs} (last : stream.bufs stream.writeBuffer = some found)
    (filled : bufs stream.writeBuffer = some { found with
      data := fillBytes found.data (written % 4088) size source })
    (others : ∀ buffer, buffer ≠ stream.writeBuffer → bufs buffer = stream.bufs buffer) :
    Carries malloc { stream with
      writeOffset := (stream.writeOffset + size) % 2 ^ 32
      bufs := bufs } (fillBytes history written size source) (written + size) read := by
  have same : (written + size) / 4088 = written / 4088 := by omega
  have apart : ∀ i, i ≠ written / 4088 → malloc i ≠ malloc (written / 4088) := by
    intro i different equal
    exact different (fresh.distinct _ _ equal)
  rw [carries.writeBuffer] at last filled others
  constructor
  case writeOffset =>
    change (stream.writeOffset + size) % 2 ^ 32 = _
    rw [carries.writeOffset, Nat.mod_eq_of_lt fits]
  case readOffset => exact carries.readOffset
  case ordered =>
    have ordered := carries.ordered
    omega
  case fits => exact fits
  case allocated =>
    rw [same]
    exact carries.allocated
  case unused =>
    rw [same]
    intro i above
    exact (others _ (apart i (by omega))).trans (carries.unused i above)
  case linked =>
    rw [same]
    intro i upTo
    obtain ⟨buf, present, next, data⟩ := carries.linked i upTo
    by_cases isLast : i = written / 4088
    · rw [isLast] at present next ⊢
      rw [last] at present
      cases present
      refine ⟨_, filled, next, ?_⟩
      intro place small below
      have byte := @appended_byte history source written size found (written / 4088) place small
        (by omega) (by rw [isLast] at data; exact data place small) below
      rw [if_pos rfl] at byte
      exact byte
    · refine ⟨buf, (others _ (apart i isLast)).trans present, next, ?_⟩
      intro place small below
      have byte := @appended_byte history source written size buf i place small (by omega)
        (data place small) below
      rw [if_neg isLast] at byte
      exact byte
  case buffers => exact carries.buffers
  case lastBuffer =>
    rw [same]
    exact carries.lastBuffer
  case readBuffer => exact carries.readBuffer
  case writeBuffer =>
    rw [same]
    exact carries.writeBuffer
  case freeBuffers => exact carries.freeBuffers
  case notBlocked => exact carries.notBlocked
  case notClearing => exact carries.notClearing

theorem write_full (fresh : Fresh malloc) (carries : Carries malloc stream history written read)
    (fits : written + size < 2 ^ 32) (full : size = 4088 - written % 4088)
    {found empty : StreamBuf} {bufs : Bufs}
    (last : stream.bufs stream.writeBuffer = some found)
    (filled : bufs stream.writeBuffer = some { found with
      next := malloc stream.allocated
      data := fillBytes found.data (written % 4088) size source })
    (added : bufs (malloc stream.allocated) = some empty) (ends : empty.next = 0)
    (others : ∀ buffer, buffer ≠ stream.writeBuffer → buffer ≠ malloc stream.allocated →
      bufs buffer = stream.bufs buffer) :
    Carries malloc { stream with
      writeOffset := (stream.writeOffset + size) % 2 ^ 32
      bufs := bufs
      allocated := stream.allocated + 1
      lastBuffer := malloc stream.allocated
      writeBuffer := malloc stream.allocated }
      (fillBytes history written size source) (written + size) read := by
  have next : (written + size) / 4088 = written / 4088 + 1 := by omega
  have apart : ∀ i j, i ≠ j → malloc i ≠ malloc j := by
    intro i j different equal
    exact different (fresh.distinct _ _ equal)
  rw [carries.writeBuffer] at last filled others
  rw [carries.allocated] at filled added others
  constructor
  case writeOffset =>
    change (stream.writeOffset + size) % 2 ^ 32 = _
    rw [carries.writeOffset, Nat.mod_eq_of_lt fits]
  case readOffset => exact carries.readOffset
  case ordered =>
    have ordered := carries.ordered
    omega
  case fits => exact fits
  case allocated =>
    rw [next]
    exact congrArg (· + 1) carries.allocated
  case unused =>
    rw [next]
    intro i above
    exact (others _ (apart _ _ (by omega)) (apart _ _ (by omega))).trans
      (carries.unused i (by omega))
  case linked =>
    rw [next]
    intro i upTo
    by_cases isNew : i = written / 4088 + 1
    · rw [isNew]
      refine ⟨empty, added, ?_, ?_⟩
      · rw [if_neg (by omega)]
        exact ends
      · intro place _ below
        omega
    · obtain ⟨buf, present, link, data⟩ := carries.linked i (by omega)
      rw [if_pos (by omega)]
      by_cases isLast : i = written / 4088
      · rw [isLast] at present data ⊢
        rw [last] at present
        cases present
        refine ⟨_, filled, rfl, ?_⟩
        intro place small below
        have byte := @appended_byte history source written size found (written / 4088) place small
          (by omega) (data place small) below
        rw [if_pos rfl] at byte
        exact byte
      · refine ⟨buf, (others _ (apart i _ isLast) (apart i _ (by omega))).trans present, ?_, ?_⟩
        · rw [link, if_pos (by omega)]
        · intro place small below
          have byte := @appended_byte history source written size buf i place small (by omega)
            (data place small) below
          rw [if_neg isLast] at byte
          exact byte
  case buffers => exact carries.buffers
  case lastBuffer =>
    rw [next]
    exact congrArg malloc carries.allocated
  case readBuffer => exact carries.readBuffer
  case writeBuffer =>
    rw [next]
    exact congrArg malloc carries.allocated
  case freeBuffers => exact carries.freeBuffers
  case notBlocked => exact carries.notBlocked
  case notClearing => exact carries.notClearing

/-- One turn of the write loop appends at least one byte. -/
theorem writeTurn_spec (fresh : Fresh malloc) {copying : Copying}
    (carries : Carries malloc copying.stream history written read) (more : 0 < copying.size)
    (fits : written + copying.size < 2 ^ 32) (offset : copying.dataOffset + copying.size < 2 ^ 32) :
    ∃ size after, 0 < size ∧ size ≤ copying.size ∧
      Stream.writeTurn malloc copying = some after ∧
      Carries malloc after.stream (fillBytes history written size
        fun byte => copying.data (copying.dataOffset + byte)) (written + size) read ∧
      after.data = copying.data ∧ after.dataOffset = copying.dataOffset + size ∧
      after.size = copying.size - size ∧
      after.stream.availableCount = copying.stream.availableCount ∧
      after.stream.condition = copying.stream.condition := by
  obtain ⟨found, last, ends, _⟩ := carries.linked (written / 4088) (Nat.le_refl _)
  rw [if_neg (Nat.lt_irrefl _)] at ends
  have nonzero := fresh.nonzero (written / 4088)
  rw [← carries.writeBuffer] at last nonzero
  have offsetEq : copying.stream.writeOffset % 4088 = written % 4088 := by
    rw [carries.writeOffset]
  have isLast := carries.lastBuffer.trans carries.writeBuffer.symm
  have other : copying.stream.writeBuffer ≠ malloc copying.stream.allocated := by
    rw [carries.writeBuffer, carries.allocated]
    intro same
    have equal := fresh.distinct _ _ same
    omega
  by_cases full : 4088 - written % 4088 ≤ copying.size
  · have allocated := Stream.allocStreamBuffer_eq fresh carries.freeBuffers
      (by rw [carries.buffers]; exact fresh.nonzero 0) (by rw [isLast]; exact nonzero)
      (by rw [isLast]; exact last) (by rw [isLast]; exact other)
    rw [isLast] at allocated
    have turned : (Function.update (Function.update copying.stream.bufs copying.stream.writeBuffer
        (some { found with next := malloc copying.stream.allocated })) (malloc copying.stream.allocated)
          (some { next := 0, prev := copying.stream.writeBuffer, data := fun _ => 0 }))
        copying.stream.writeBuffer = some { found with next := malloc copying.stream.allocated } :=
      (Function.update_of_ne other _ _).trans (Function.update_self _ _ _)
    have again := @Stream.deref_eq { copying.stream with
      bufs := Function.update (Function.update copying.stream.bufs copying.stream.writeBuffer
        (some { found with next := malloc copying.stream.allocated })) (malloc copying.stream.allocated)
          (some { next := 0, prev := copying.stream.writeBuffer, data := fun _ => 0 })
      lastBuffer := malloc copying.stream.allocated
      allocated := copying.stream.allocated + 1 } _ _ turned nonzero
    have stored := @Stream.modify_eq { copying.stream with
      bufs := Function.update (Function.update copying.stream.bufs copying.stream.writeBuffer
        (some { found with next := malloc copying.stream.allocated })) (malloc copying.stream.allocated)
          (some { next := 0, prev := copying.stream.writeBuffer, data := fun _ => 0 })
      lastBuffer := malloc copying.stream.allocated
      allocated := copying.stream.allocated + 1
      writeBuffer := malloc copying.stream.allocated } _ _ turned nonzero
      (fun found => { found with
        data := fillBytes found.data (written % 4088) (4088 - written % 4088)
          fun byte => copying.data (copying.dataOffset + byte) })
    have runs : Stream.writeTurn malloc copying = some { copying with
        stream := { copying.stream with
          writeOffset := (copying.stream.writeOffset + (4088 - written % 4088)) % 2 ^ 32
          bufs := Function.update (Function.update (Function.update copying.stream.bufs
            copying.stream.writeBuffer (some { found with next := malloc copying.stream.allocated }))
            (malloc copying.stream.allocated)
            (some { next := 0, prev := copying.stream.writeBuffer, data := fun _ => 0 }))
            copying.stream.writeBuffer (some { found with
              next := malloc copying.stream.allocated
              data := fillBytes found.data (written % 4088) (4088 - written % 4088)
                fun byte => copying.data (copying.dataOffset + byte) })
          allocated := copying.stream.allocated + 1
          lastBuffer := malloc copying.stream.allocated
          writeBuffer := malloc copying.stream.allocated }
        dataOffset := (copying.dataOffset + (4088 - written % 4088)) % 2 ^ 32
        size := copying.size - (4088 - written % 4088) } := by
      unfold Stream.writeTurn
      simp only [offsetEq, bufDataSize_eq, if_pos full, Stream.deref_eq last nonzero,
        Option.bind_some, ends, if_true, allocated, again, Option.map_some, stored]
    refine ⟨4088 - written % 4088, _, by omega, full, runs, ?_, rfl, ?_, rfl, rfl, rfl⟩
    · apply carries.write_full fresh (by omega) rfl last (Function.update_self _ _ _)
        ((Function.update_of_ne other.symm _ _).trans (Function.update_self _ _ _)) rfl
      intro buffer notLast notNew
      rw [Function.update_of_ne notLast, Function.update_of_ne notNew, Function.update_of_ne notLast]
    · exact Nat.mod_eq_of_lt (by omega)
  · have runs : Stream.writeTurn malloc copying = some { copying with
        stream := { copying.stream with
          writeOffset := (copying.stream.writeOffset + copying.size) % 2 ^ 32
          bufs := Function.update copying.stream.bufs copying.stream.writeBuffer (some { found with
            data := fillBytes found.data (written % 4088) copying.size
              fun byte => copying.data (copying.dataOffset + byte) }) }
        dataOffset := (copying.dataOffset + copying.size) % 2 ^ 32
        size := copying.size - copying.size } := by
      unfold Stream.writeTurn
      simp only [offsetEq, bufDataSize_eq, if_neg full, Option.bind_some,
        Stream.modify_eq last nonzero, Option.map_some]
    refine ⟨copying.size, _, more, Nat.le_refl _, runs, ?_, rfl, ?_, rfl, rfl, rfl⟩
    · apply carries.write_inside fresh fits (by omega) last (Function.update_self _ _ _)
      intro buffer other
      exact Function.update_of_ne other _ _
    · exact Nat.mod_eq_of_lt offset

theorem read_to (carries : Carries malloc stream history written read) (inside : read + size ≤ written)
    {buffer : Nat} (passed : buffer = malloc ((read + size) / 4088)) :
    Carries malloc { stream with
      readBuffer := buffer
      readOffset := (stream.readOffset + size) % 2 ^ 32 } history written (read + size) := by
  have fits := carries.fits
  exact { carries with
    readOffset := by
      change (stream.readOffset + size) % 2 ^ 32 = _
      rw [carries.readOffset, Nat.mod_eq_of_lt (by omega)]
    ordered := inside
    readBuffer := passed }

/-- One turn of the read loop passes on at least one byte. -/
theorem readTurn_spec (fresh : Fresh malloc) {copying : Copying}
    (carries : Carries malloc copying.stream history written read)
    (more : 0 < copying.size) (inside : read + copying.size ≤ written)
    (offset : copying.dataOffset + copying.size < 2 ^ 32) :
    ∃ size after, 0 < size ∧ size ≤ copying.size ∧ Stream.readTurn copying = some after ∧
      Carries malloc after.stream history written (read + size) ∧
      after.data = fillBytes copying.data copying.dataOffset size
        (fun byte => history (read + byte)) ∧
      after.dataOffset = copying.dataOffset + size ∧ after.size = copying.size - size ∧
      after.stream.availableCount = copying.stream.availableCount ∧
      after.stream.condition = copying.stream.condition := by
  have fits := carries.fits
  obtain ⟨found, present, next, data⟩ := carries.linked (read / 4088) (by omega)
  have nonzero := fresh.nonzero (read / 4088)
  rw [← carries.readBuffer] at present nonzero
  have offsetEq : copying.stream.readOffset % 4088 = read % 4088 := by
    rw [carries.readOffset]
  have byte : ∀ {size}, read % 4088 + size ≤ 4088 ∧ read + size ≤ written → ∀ place < size,
      found.data (read % 4088 + place) = history (read + place) := by
    intro size bounds place small
    rw [data _ (by omega) (by omega)]
    congr 1
    omega
  by_cases full : 4088 - read % 4088 ≤ copying.size
  · have again := @Stream.deref_eq { copying.stream with readBuffer := found.next } _ _ present nonzero
    have runs : Stream.readTurn copying = some
        { stream := { copying.stream with
            readBuffer := found.next
            readOffset := (copying.stream.readOffset + (4088 - read % 4088)) % 2 ^ 32 }
          data := fillBytes copying.data copying.dataOffset (4088 - read % 4088)
            fun byte => found.data (read % 4088 + byte)
          dataOffset := (copying.dataOffset + (4088 - read % 4088)) % 2 ^ 32
          size := copying.size - (4088 - read % 4088)
          lastFreed := copying.stream.readBuffer } := by
      unfold Stream.readTurn
      simp only [offsetEq, bufDataSize_eq, if_pos full, Stream.deref_eq present nonzero,
        Option.map_some, Option.bind_some, again]
    refine ⟨4088 - read % 4088, _, by omega, full, runs, ?_, ?_, ?_, rfl, rfl, rfl⟩
    · apply carries.read_to (by omega)
      have moved : (read + (4088 - read % 4088)) / 4088 = read / 4088 + 1 := by omega
      rw [moved, next, if_pos (by omega)]
    · exact Words.fillBytes_congr (byte (by omega))
    · exact Nat.mod_eq_of_lt (by omega)
  · have runs : Stream.readTurn copying = some
        { stream := { copying.stream with
            readOffset := (copying.stream.readOffset + copying.size) % 2 ^ 32 }
          data := fillBytes copying.data copying.dataOffset copying.size
            fun byte => found.data (read % 4088 + byte)
          dataOffset := (copying.dataOffset + copying.size) % 2 ^ 32
          size := copying.size - copying.size
          lastFreed := copying.lastFreed } := by
      unfold Stream.readTurn
      simp only [offsetEq, bufDataSize_eq, if_neg full, Stream.deref_eq present nonzero,
        Option.map_some, Option.bind_some]
    refine ⟨copying.size, _, more, Nat.le_refl _, runs, ?_, ?_, ?_, rfl, rfl, rfl⟩
    · apply carries.read_to (by omega)
      have same : (read + copying.size) / 4088 = read / 4088 := by omega
      rw [same]
      exact carries.readBuffer
    · exact Words.fillBytes_congr (byte (by omega))
    · exact Nat.mod_eq_of_lt (by omega)

end Carries

end DoggOS.Io

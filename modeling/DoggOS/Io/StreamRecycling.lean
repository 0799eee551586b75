/-
Writes and reads on a stream that hands its read buffers back to the writer.

Buffer `i` of the list has the bytes from `4088 * (base + i)` on, where `base`
is the number of buffers that were given back.  A read moves the reader inside
the list first; the buffers behind it go when it is done, so between the calls
the reader is at the first buffer.
-/

import DoggOS.Io.StreamLists
import DoggOS.Io.StreamRuns

namespace DoggOS.Io

structure Recycles (malloc : Nat → Nat) (stream : Stream) (history : Bytes) (written read base : Nat)
    (chain free : List Nat) : Prop where
  listed : Listed malloc stream chain free
  writeOffset : stream.writeOffset = written
  readOffset : stream.readOffset = read
  ordered : read ≤ written
  fits : written < 2 ^ 32
  behind : base ≤ read / 4088
  count : base + chain.length = written / 4088 + 1
  writeBuffer : stream.writeBuffer = stream.lastBuffer
  readBuffer : chain[read / 4088 - base]? = some stream.readBuffer
  holds : ∀ i buffer, chain[i]? = some buffer → ∀ place < 4088, 4088 * (base + i) + place < written →
    dataOf stream.bufs buffer place = history (4088 * (base + i) + place)
  notBlocked : stream.flags &&& flagBlocked = 0
  clearing : stream.flags &&& flagClearRead ≠ 0

namespace Recycles

variable {malloc : Nat → Nat} {stream : Stream} {history source : Bytes}
  {written read base size : Nat} {chain free : List Nat}

theorem last_index (recycles : Recycles malloc stream history written read base chain free)
    {i buffer : Nat} (here : chain[i]? = some buffer) :
    buffer = stream.lastBuffer ↔ base + i = written / 4088 := by
  obtain ⟨inside, isBuffer⟩ := List.getElem?_eq_some_iff.mp here
  have count := recycles.count
  have distinct := (List.nodup_append.mp recycles.listed.distinct).1
  have last := recycles.listed.last
  rw [List.getLast?_eq_getElem?] at last
  obtain ⟨insideLast, isLast⟩ := List.getElem?_eq_some_iff.mp last
  rw [← isBuffer, ← isLast, distinct.getElem_inj_iff]
  omega

theorem store (recycles : Recycles malloc stream history written read base chain free)
    (inside : size ≤ 4088 - written % 4088) {i buffer place : Nat} (here : chain[i]? = some buffer)
    (small : place < 4088) (below : 4088 * (base + i) + place < written + size) :
    Function.update (dataOf stream.bufs) stream.lastBuffer
        (fillBytes (dataOf stream.bufs stream.lastBuffer) (written % 4088) size source) buffer place =
      fillBytes history written size source (4088 * (base + i) + place) := by
  have byte := @Carries.appended_byte history source written size
    ⟨0, 0, dataOf stream.bufs buffer⟩ (base + i) place small inside
    (recycles.holds i buffer here place small) below
  rw [← byte]
  by_cases isLast : buffer = stream.lastBuffer
  · rw [isLast, Function.update_self, if_pos ((recycles.last_index here).mp isLast)]
  · rw [Function.update_of_ne isLast, if_neg (fun same => isLast ((recycles.last_index here).mpr same))]

theorem write_full (recycles : Recycles malloc stream history written read base chain free)
    (fits : written + size < 2 ^ 32) (full : size = 4088 - written % 4088) {buffer allocated : Nat}
    {bufs : Bufs}
    (linked : Listed malloc { stream with
      bufs := bufs, allocated := allocated, freeBuffers := 0, lastBuffer := buffer }
      (chain ++ [buffer]) [])
    (filled : ∀ other ∈ chain, dataOf bufs other =
      Function.update (dataOf stream.bufs) stream.lastBuffer
        (fillBytes (dataOf stream.bufs stream.lastBuffer) (written % 4088) size source) other) :
    Recycles malloc { stream with
      writeOffset := (stream.writeOffset + size) % 2 ^ 32
      bufs := bufs
      allocated := allocated
      freeBuffers := 0
      lastBuffer := buffer
      writeBuffer := buffer }
      (fillBytes history written size source) (written + size) read base (chain ++ [buffer]) [] := by
  have next : (written + size) / 4088 = written / 4088 + 1 := by omega
  have ordered := recycles.ordered
  have count := recycles.count
  constructor
  case listed => exact { linked with }
  case writeOffset =>
    change (stream.writeOffset + size) % 2 ^ 32 = _
    rw [recycles.writeOffset, Nat.mod_eq_of_lt fits]
  case readOffset => exact recycles.readOffset
  case ordered => exact Nat.le_add_right_of_le ordered
  case fits => exact fits
  case behind => exact recycles.behind
  case count =>
    rw [List.length_append, List.length_singleton, next]
    omega
  case writeBuffer => rfl
  case readBuffer =>
    obtain ⟨inside, -⟩ := List.getElem?_eq_some_iff.mp recycles.readBuffer
    rw [List.getElem?_append_left inside]
    exact recycles.readBuffer
  case holds =>
    intro i other here place small below
    by_cases old : i < chain.length
    · rw [List.getElem?_append_left old] at here
      change dataOf bufs other place = _
      rw [filled other (List.mem_of_getElem? here)]
      exact recycles.store (by omega) here small below
    · omega
  case notBlocked => exact recycles.notBlocked
  case clearing => exact recycles.clearing

theorem write_inside (recycles : Recycles malloc stream history written read base chain free)
    (fits : written + size < 2 ^ 32) (inside : size < 4088 - written % 4088) {bufs : Bufs}
    (linked : Listed malloc { stream with bufs := bufs } chain free)
    (filled : dataOf bufs = Function.update (dataOf stream.bufs) stream.lastBuffer
      (fillBytes (dataOf stream.bufs stream.lastBuffer) (written % 4088) size source)) :
    Recycles malloc { stream with
      writeOffset := (stream.writeOffset + size) % 2 ^ 32
      bufs := bufs }
      (fillBytes history written size source) (written + size) read base chain free := by
  have same : (written + size) / 4088 = written / 4088 := by omega
  constructor
  case listed => exact { linked with }
  case writeOffset =>
    change (stream.writeOffset + size) % 2 ^ 32 = _
    rw [recycles.writeOffset, Nat.mod_eq_of_lt fits]
  case readOffset => exact recycles.readOffset
  case ordered => exact Nat.le_add_right_of_le recycles.ordered
  case fits => exact fits
  case behind => exact recycles.behind
  case count => exact same ▸ recycles.count
  case writeBuffer => exact recycles.writeBuffer
  case readBuffer => exact recycles.readBuffer
  case holds =>
    intro i other here place small below
    change dataOf bufs other place = _
    rw [filled]
    exact recycles.store (by omega) here small below
  case notBlocked => exact recycles.notBlocked
  case clearing => exact recycles.clearing

theorem writeTurn_spec (fresh : Fresh malloc) {copying : Copying}
    (recycles : Recycles malloc copying.stream history written read base chain free)
    (more : 0 < copying.size) (fits : written + copying.size < 2 ^ 32)
    (offset : copying.dataOffset + copying.size < 2 ^ 32)
    (room : written % 4088 + copying.size < 4088 ∨ free.length ≤ 1) :
    ∃ size after chain free, 0 < size ∧ size ≤ copying.size ∧
      Stream.writeTurn malloc copying = some after ∧
      Recycles malloc after.stream (fillBytes history written size
        fun byte => copying.data (copying.dataOffset + byte)) (written + size) read base chain free ∧
      ((written + size) % 4088 + after.size < 4088 ∨ free.length ≤ 1) ∧
      after.data = copying.data ∧ after.dataOffset = copying.dataOffset + size ∧
      after.size = copying.size - size ∧
      after.stream.availableCount = copying.stream.availableCount ∧
      after.stream.condition = copying.stream.condition := by
  obtain ⟨stream, data, dataOffset, total, lastFreed⟩ := copying
  dsimp only at *
  have offsetEq : stream.writeOffset % 4088 = written % 4088 := by
    rw [recycles.writeOffset]
  have ordered := recycles.ordered
  have count := recycles.count
  have listed := recycles.listed
  have lastMember := List.mem_append_left free listed.last_mem
  by_cases full : 4088 - written % 4088 ≤ total
  -- The writer goes to the taken buffer before the bytes are stored in the one that it leaves.
  · obtain ⟨last, isLast⟩ := listed.found lastMember
    have ends : last.next = 0 := by
      have noNext := listed.next_last
      rw [nextOf, isLast] at noNext
      exact noNext
    have lastNonNull := listed.ne_zero fresh lastMember
    obtain ⟨buffer, bufs, allocated, took, linked, next, same⟩ :=
      listed.allocStreamBuffer_spec fresh (room.resolve_left (by omega))
    have stillIn : stream.lastBuffer ∈ chain ++ [buffer] ++ [] :=
      List.mem_append_left _ (List.mem_append_left _ listed.last_mem)
    obtain ⟨passed, isPassed⟩ := linked.found stillIn
    change bufs stream.lastBuffer = some passed at isPassed
    have passedNext : passed.next = buffer := by
      rw [nextOf, isPassed] at next
      exact next
    have again := @Stream.deref_eq { stream with
      bufs := bufs, allocated := allocated, freeBuffers := 0, lastBuffer := buffer
      writeBuffer := stream.lastBuffer } _ _ isPassed lastNonNull
    have moved : Listed malloc { stream with
        bufs := bufs, allocated := allocated, freeBuffers := 0, lastBuffer := buffer
        writeBuffer := buffer } (chain ++ [buffer]) [] := { linked with }
    obtain ⟨filled, stored, kept, -, filledEq⟩ := moved.modify_data fresh stillIn fun old =>
      fillBytes old (written % 4088) (4088 - written % 4088) fun byte => data (dataOffset + byte)
    have runs : Stream.writeTurn malloc ⟨stream, data, dataOffset, total, lastFreed⟩ = some
        { stream := { stream with
            writeOffset := (stream.writeOffset + (4088 - written % 4088)) % 2 ^ 32
            bufs := filled
            allocated := allocated
            freeBuffers := 0
            lastBuffer := buffer
            writeBuffer := buffer }
          data := data
          dataOffset := (dataOffset + (4088 - written % 4088)) % 2 ^ 32
          size := total - (4088 - written % 4088)
          lastFreed := lastFreed } := by
      unfold Stream.writeTurn
      simp only [offsetEq, bufDataSize_eq, if_pos full, recycles.writeBuffer,
        Stream.deref_eq isLast lastNonNull, Option.bind_some, ends, if_true, took, again,
        Option.map_some, passedNext, stored]
    refine ⟨4088 - written % 4088, _, chain ++ [buffer], [], by omega, full, runs, ?_, ?_, rfl, ?_, rfl, rfl, rfl⟩
    · apply recycles.write_full (by omega) rfl { kept with }
      intro other member
      rw [filledEq]
      by_cases isEnd : other = stream.lastBuffer
      · rw [isEnd, Function.update_self, Function.update_self]
        change fillBytes (dataOf bufs _) _ _ _ = _
        rw [same _ listed.last_mem]
      · rw [Function.update_of_ne isEnd, Function.update_of_ne isEnd]
        exact same other member
    · exact Or.inr (Nat.zero_le _)
    · exact Nat.mod_eq_of_lt (by omega)
  · obtain ⟨filled, stored, kept, -, filledEq⟩ := listed.modify_data fresh lastMember fun old =>
      fillBytes old (written % 4088) total fun byte => data (dataOffset + byte)
    have runs : Stream.writeTurn malloc ⟨stream, data, dataOffset, total, lastFreed⟩ = some
        { stream := { stream with
            writeOffset := (stream.writeOffset + total) % 2 ^ 32
            bufs := filled }
          data := data
          dataOffset := (dataOffset + total) % 2 ^ 32
          size := total - total
          lastFreed := lastFreed } := by
      unfold Stream.writeTurn
      simp only [offsetEq, bufDataSize_eq, if_neg full, recycles.writeBuffer, Option.bind_some, stored,
        Option.map_some]
    refine ⟨total, _, chain, free, more, Nat.le_refl _, runs, ?_, ?_, rfl, ?_, rfl, rfl, rfl⟩
    · exact recycles.write_inside fits (by omega) kept filledEq
    · left
      change _ + (total - total) < 4088
      omega
    · exact Nat.mod_eq_of_lt offset

theorem writeStreamData_spec (fresh : Fresh malloc)
    (recycles : Recycles malloc stream history written read base chain free)
    (available : stream.availableCount = written - read) (positive : 0 < size)
    (fits : written + size < 2 ^ 32) (room : written % 4088 + size < 4088 ∨ free.length ≤ 1)
    (data : Bytes) :
    ∃ after chain free, stream.writeStreamData malloc (some data) size = some (.ok, after) ∧
      Recycles malloc after (fillBytes history written size data) (written + size) read base
        chain free ∧
      after.availableCount = written + size - read := by
  obtain ⟨last, ran, ⟨offset, _, _, available', _⟩, _, chain', free', now, _⟩ := Carries.Copied.loop
    (fun done copying => copying.data = data ∧
      ∃ chain free, Recycles malloc copying.stream (fillBytes history written done data)
          (written + done) read base chain free ∧
        ((written + done) % 4088 + copying.size < 4088 ∨ free.length ≤ 1))
    (fun done copying copied left invariant => by
      obtain ⟨sameData, chain, free, now, roomNow⟩ := invariant
      obtain ⟨offset, rest, upTo, _, _⟩ := copied
      obtain ⟨moved, next, chain', free', positive, inside, runs, carried, roomNext, same, moves⟩ :=
        now.writeTurn_spec fresh left (by omega) (by omega) roomNow
      refine ⟨moved, next, positive, inside, runs, ⟨same.trans sameData, chain', free', ?_, ?_⟩, moves⟩
      · rw [sameData, offset, Words.fillBytes_append, Nat.add_assoc] at carried
        exact carried
      · rw [← Nat.add_assoc]
        exact roomNext)
    ⟨stream, data, 0, size, 0⟩ ⟨rfl, rfl, Nat.zero_le _, rfl, rfl⟩
    ⟨rfl, chain, free, by
      rw [Words.fillBytes_zero]
      exact recycles, room⟩
  have reader : ¬ last.stream.readBuffer = 0 :=
    now.listed.ne_zero fresh (List.mem_append_left _ (List.mem_of_getElem? now.readBuffer))
  have available'' : (last.stream.availableCount + last.dataOffset) % 2 ^ 32 =
      written + size - read := by
    have ordered := recycles.ordered
    rw [available', available, offset]
    omega
  refine ⟨{ last.stream with availableCount := written + size - read }, chain', free', ?_,
    { now with listed := { now.listed with } }, rfl⟩
  unfold Stream.writeStreamData
  simp only [if_neg (Nat.ne_of_gt positive), recycles.notBlocked, ne_eq, not_true_eq_false,
    if_false, ran, Option.map_some, reader, available'']

theorem read_to (recycles : Recycles malloc stream history written read base chain free)
    (inside : read + size ≤ written) {buffer : Nat}
    (passed : chain[(read + size) / 4088 - base]? = some buffer) :
    Recycles malloc { stream with
      readBuffer := buffer
      readOffset := (stream.readOffset + size) % 2 ^ 32 } history written (read + size) base chain
      free := by
  have fits := recycles.fits
  have behind := recycles.behind
  exact { recycles with
    listed := { recycles.listed with }
    readOffset := by
      change (stream.readOffset + size) % 2 ^ 32 = _
      rw [recycles.readOffset, Nat.mod_eq_of_lt (by omega)]
    ordered := inside
    behind := by omega
    readBuffer := passed }

theorem next_reader (recycles : Recycles malloc stream history written read base chain free)
    (more : read / 4088 < written / 4088) :
    chain[read / 4088 - base + 1]? = some (nextOf stream.bufs stream.readBuffer) := by
  have behind := recycles.behind
  have count := recycles.count
  have inside : read / 4088 - base + 1 < chain.length := by omega
  have further : chain[read / 4088 - base + 1]? = some chain[read / 4088 - base + 1] :=
    List.getElem?_eq_getElem inside
  rw [recycles.listed.chained.next_eq recycles.readBuffer further]
  exact further

def lastPassed (chain : List Nat) (count : Nat) : Nat := (chain.take count).getLast?.getD 0

theorem lastPassed_succ {count buffer : Nat} (here : chain[count]? = some buffer) :
    lastPassed chain (count + 1) = buffer := by
  rw [lastPassed, List.take_add_one, here, Option.toList_some, List.getLast?_concat, Option.getD_some]

theorem readTurn_spec (fresh : Fresh malloc) {copying : Copying}
    (recycles : Recycles malloc copying.stream history written read base chain free)
    (more : 0 < copying.size) (inside : read + copying.size ≤ written)
    (offset : copying.dataOffset + copying.size < 2 ^ 32)
    (passed : copying.lastFreed = lastPassed chain (read / 4088 - base)) :
    ∃ size after, 0 < size ∧ size ≤ copying.size ∧ Stream.readTurn copying = some after ∧
      Recycles malloc after.stream history written (read + size) base chain free ∧
      after.data = fillBytes copying.data copying.dataOffset size
        (fun byte => history (read + byte)) ∧
      after.dataOffset = copying.dataOffset + size ∧ after.size = copying.size - size ∧
      after.lastFreed = lastPassed chain ((read + size) / 4088 - base) ∧
      after.stream.availableCount = copying.stream.availableCount ∧
      after.stream.condition = copying.stream.condition := by
  obtain ⟨stream, data, dataOffset, total, lastFreed⟩ := copying
  dsimp only at *
  have behind := recycles.behind
  have reader : stream.readBuffer ∈ chain ++ free :=
    List.mem_append_left free (List.mem_of_getElem? recycles.readBuffer)
  obtain ⟨found, present⟩ := recycles.listed.found reader
  have nonNull := recycles.listed.ne_zero fresh reader
  have offsetEq : stream.readOffset % 4088 = read % 4088 := by
    rw [recycles.readOffset]
  have byte : ∀ {size}, read % 4088 + size ≤ 4088 ∧ read + size ≤ written → ∀ place < size,
      found.data (read % 4088 + place) = history (read + place) := by
    intro size bounds place small
    have held := recycles.holds _ _ recycles.readBuffer (read % 4088 + place) (by omega) (by omega)
    rw [dataOf, present] at held
    rw [show read + place = 4088 * (base + (read / 4088 - base)) + (read % 4088 + place) by omega]
    exact held
  by_cases full : 4088 - read % 4088 ≤ total
  · have again := @Stream.deref_eq { stream with readBuffer := found.next } _ _ present nonNull
    have runs : Stream.readTurn ⟨stream, data, dataOffset, total, lastFreed⟩ = some
        { stream := { stream with
            readBuffer := found.next
            readOffset := (stream.readOffset + (4088 - read % 4088)) % 2 ^ 32 }
          data := fillBytes data dataOffset (4088 - read % 4088)
            fun byte => found.data (read % 4088 + byte)
          dataOffset := (dataOffset + (4088 - read % 4088)) % 2 ^ 32
          size := total - (4088 - read % 4088)
          lastFreed := stream.readBuffer } := by
      unfold Stream.readTurn
      simp only [offsetEq, bufDataSize_eq, if_pos full, Stream.deref_eq present nonNull,
        Option.map_some, Option.bind_some, again]
    have moved : (read + (4088 - read % 4088)) / 4088 - base = read / 4088 - base + 1 := by omega
    refine ⟨4088 - read % 4088, _, by omega, full, runs, ?_, ?_, ?_, rfl, ?_, rfl, rfl⟩
    · apply recycles.read_to (by omega)
      have next := recycles.next_reader (by omega)
      rw [nextOf, present] at next
      rw [moved, next]
      rfl
    · exact Words.fillBytes_congr (byte (by omega))
    · exact Nat.mod_eq_of_lt (by omega)
    · rw [moved]
      exact (lastPassed_succ recycles.readBuffer).symm
  · have runs : Stream.readTurn ⟨stream, data, dataOffset, total, lastFreed⟩ = some
        { stream := { stream with readOffset := (stream.readOffset + total) % 2 ^ 32 }
          data := fillBytes data dataOffset total fun byte => found.data (read % 4088 + byte)
          dataOffset := (dataOffset + total) % 2 ^ 32
          size := total - total
          lastFreed := lastFreed } := by
      unfold Stream.readTurn
      simp only [offsetEq, bufDataSize_eq, if_neg full, Stream.deref_eq present nonNull,
        Option.map_some, Option.bind_some]
    have same : (read + total) / 4088 = read / 4088 := by omega
    refine ⟨total, _, more, Nat.le_refl _, runs, ?_, ?_, ?_, rfl, ?_, rfl, rfl⟩
    · apply recycles.read_to inside
      rw [same]
      exact recycles.readBuffer
    · exact Words.fillBytes_congr (byte (by omega))
    · exact Nat.mod_eq_of_lt offset
    · rw [same]
      exact passed

theorem same_buffer (fresh : Fresh malloc)
    (recycles : Recycles malloc stream history written read base chain free)
    (none : lastPassed chain (read / 4088 - base) = 0) : read / 4088 = base := by
  have behind := recycles.behind
  obtain ⟨inside, -⟩ := List.getElem?_eq_some_iff.mp recycles.readBuffer
  cases moved : read / 4088 - base with
  | zero => omega
  | succ count =>
      have here : chain[count]? = some chain[count] := List.getElem?_eq_getElem (by omega)
      rw [moved, lastPassed_succ here] at none
      exact absurd none (recycles.listed.ne_zero fresh
        (List.mem_append_left _ (List.mem_of_getElem? here)))

/-- The passed buffers go to the free list, and the reader is at the first buffer again. -/
theorem freeReadBuffers_spec (fresh : Fresh malloc)
    (recycles : Recycles malloc stream history written read base chain free)
    (freed : lastPassed chain (read / 4088 - base) ≠ 0) :
    ∃ after chain' free',
      stream.freeReadBuffers stream.buffers (lastPassed chain (read / 4088 - base)) = some after ∧
      Recycles malloc after history written read (read / 4088) chain' free' ∧
      after.availableCount = stream.availableCount := by
  obtain ⟨inside, -⟩ := List.getElem?_eq_some_iff.mp recycles.readBuffer
  have behind := recycles.behind
  have count := recycles.count
  have passed : (chain.take (read / 4088 - base)).getLast? =
      some (lastPassed chain (read / 4088 - base)) := by
    unfold lastPassed at freed ⊢
    cases isLast : (chain.take (read / 4088 - base)).getLast? with
    | none => exact absurd (by rw [isLast]; rfl) freed
    | some last => rfl
  have more : chain.drop (read / 4088 - base) ≠ [] := by
    rw [ne_eq, List.drop_eq_nil_iff]
    exact Nat.not_le_of_lt inside
  have listed := recycles.listed
  rw [← List.take_append_drop (read / 4088 - base) chain] at listed
  obtain ⟨bufs, buffers, went, kept, same⟩ := listed.freeReadBuffers_spec fresh passed more
  refine ⟨_, chain.drop (read / 4088 - base), chain.take (read / 4088 - base) ++ free, went, ?_, rfl⟩
  constructor
  case listed => exact kept
  case writeOffset => exact recycles.writeOffset
  case readOffset => exact recycles.readOffset
  case ordered => exact recycles.ordered
  case fits => exact recycles.fits
  case behind => exact Nat.le_refl _
  case count =>
    rw [List.length_drop]
    omega
  case writeBuffer => exact recycles.writeBuffer
  case readBuffer =>
    rw [Nat.sub_self, List.getElem?_drop, Nat.add_zero]
    exact recycles.readBuffer
  case holds =>
    intro i buffer here place small below
    rw [List.getElem?_drop] at here
    have held := recycles.holds _ buffer here place small
    rw [← Nat.add_assoc, Nat.add_sub_cancel' behind] at held
    change dataOf bufs buffer place = _
    rw [same]
    exact held below
  case notBlocked => exact recycles.notBlocked
  case clearing => exact recycles.clearing

theorem readStreamData_spec (fresh : Fresh malloc)
    (recycles : Recycles malloc stream history written read (read / 4088) chain free)
    (available : stream.availableCount = written - read) (positive : 0 < size)
    (some' : read < written) (data : Bytes) :
    ∃ after chain free, stream.readStreamData (some data) size =
        some (.ok, some (fillBytes data 0 (min size (written - read)) fun place =>
          history (read + place)), after) ∧
      Recycles malloc after history written (read + min size (written - read))
        ((read + min size (written - read)) / 4088) chain free ∧
      after.availableCount = written - (read + min size (written - read)) := by
  have total : (if size > stream.availableCount then stream.availableCount else size) =
      min size (written - read) := by
    rw [available]
    split <;> omega
  have bound : min size (written - read) ≤ written - read := Nat.min_le_right _ _
  have fits := recycles.fits
  generalize min size (written - read) = moved at *
  obtain ⟨last, ran, ⟨offset, _, _, available', _⟩, copiedData, passed, now⟩ := Carries.Copied.loop
    (fun done copying => copying.data = fillBytes data 0 done (fun place => history (read + place)) ∧
      copying.lastFreed = lastPassed chain ((read + done) / 4088 - read / 4088) ∧
      Recycles malloc copying.stream history written (read + done) (read / 4088) chain free)
    (fun done copying copied left invariant => by
      obtain ⟨sameData, passed, now⟩ := invariant
      obtain ⟨offset, rest, upTo, _, _⟩ := copied
      obtain ⟨turned, next, positive, inside, runs, carried, data', offset', size', passed', moves⟩ :=
        now.readTurn_spec fresh left (by omega) (by omega) passed
      refine ⟨turned, next, positive, inside, runs, ⟨?_, ?_, ?_⟩, offset', size', moves⟩
      · have filled := Words.fillBytes_append data 0 done turned fun place => history (read + place)
        rw [Nat.zero_add] at filled
        rw [data', sameData, offset, ← filled]
        simp only [Nat.add_assoc]
      · rw [← Nat.add_assoc]
        exact passed'
      · rw [← Nat.add_assoc]
        exact carried)
    ⟨stream, data, 0, moved, 0⟩ ⟨rfl, rfl, Nat.zero_le _, rfl, rfl⟩
    ⟨(Words.fillBytes_zero _ _ _).symm, by
      rw [Nat.add_zero, Nat.sub_self]
      rfl, recycles⟩
  have started : ¬ (stream.buffers = 0 ∨ stream.readOffset = stream.writeOffset) := by
    rw [recycles.readOffset, recycles.writeOffset]
    intro empty
    rcases empty with none | equal
    · exact recycles.listed.ne_zero fresh (List.mem_append_left _ recycles.listed.buffers_mem) none
    · omega
  have available'' : (last.stream.availableCount + 2 ^ 32 - last.dataOffset) % 2 ^ 32 =
      written - (read + moved) := by
    rw [available', available, offset]
    omega
  have counted : Recycles malloc { last.stream with availableCount := written - (read + moved) }
      history written (read + moved) (read / 4088) chain free :=
    { now with listed := { now.listed with } }
  have reader : stream.readBuffer = last.stream.buffers := by
    have first := recycles.readBuffer
    rw [Nat.sub_self] at first
    exact Option.some.inj (first.symm.trans now.listed.first)
  -- Without a passed buffer nothing is given back.
  by_cases freed : last.lastFreed = 0
  · refine ⟨{ last.stream with availableCount := written - (read + moved) }, chain, free, ?_, ?_, rfl⟩
    · unfold Stream.readStreamData
      simp only [recycles.notBlocked, ne_eq, not_true_eq_false, if_false,
        if_neg (Nat.ne_of_gt positive), if_neg started, total, ran, Option.bind_some, freed, and_false,
        available'', Option.map_some, copiedData]
    · rw [now.same_buffer fresh (passed.symm.trans freed)]
      exact counted
  · rw [passed] at freed
    obtain ⟨after, chain', free', went, kept, same⟩ := counted.freeReadBuffers_spec fresh freed
    refine ⟨after, chain', free', ?_, kept, same⟩
    unfold Stream.readStreamData
    simp only [recycles.notBlocked, ne_eq, not_true_eq_false, if_false,
      if_neg (Nat.ne_of_gt positive), if_neg started, total, ran, Option.bind_some, passed, freed,
      now.clearing, not_false_eq_true, and_self, if_true, available'', reader, went, Option.map_some,
      copiedData]

end Recycles

end DoggOS.Io

/-
First in, first out: runs of writes and reads on one stream.

The loops of both calls come down to the turns of the chain, so a write appends
all its bytes and a read passes on the oldest bytes, as many as were asked for
or all there are.  No call follows a pointer to nothing.
-/

import DoggOS.Io.StreamChain
import DoggOS.Library.Machine
import Mathlib.Data.List.Range

namespace DoggOS.Io

namespace Carries

variable {malloc : Nat → Nat} {stream : Stream} {history : Bytes} {written read size : Nat}

/-- The chain does not depend on the count and the condition. -/
theorem counted (carries : Carries malloc stream history written read) (count condition : Nat) :
    Carries malloc { stream with availableCount := count, condition := condition } history
      written read :=
  { carries with }

structure Copied (stream : Stream) (total done : Nat) (copying : Copying) : Prop where
  dataOffset : copying.dataOffset = done
  size : copying.size = total - done
  upTo : done ≤ total
  availableCount : copying.stream.availableCount = stream.availableCount
  condition : copying.stream.condition = stream.condition

theorem Copied.next {total done size : Nat} {copying after : Copying}
    (copied : Copied stream total done copying) (inside : size ≤ copying.size)
    (dataOffset : after.dataOffset = copying.dataOffset + size)
    (left : after.size = copying.size - size)
    (availableCount : after.stream.availableCount = copying.stream.availableCount)
    (condition : after.stream.condition = copying.stream.condition) :
    Copied stream total (done + size) after := by
  obtain ⟨offset, rest, upTo, available, signalled⟩ := copied
  constructor
  · omega
  · omega
  · omega
  · rw [availableCount, available]
  · rw [condition, signalled]

/-- A copy loop whose turns each move something moves all its bytes. -/
theorem Copied.loop {turn : Copying → Option Copying} {total : Nat}
    (kept : Nat → Copying → Prop)
    (step : ∀ done copying, Copied stream total done copying → 0 < copying.size → kept done copying →
      ∃ size after, 0 < size ∧ size ≤ copying.size ∧ turn copying = some after ∧
        kept (done + size) after ∧ after.dataOffset = copying.dataOffset + size ∧
        after.size = copying.size - size ∧
        after.stream.availableCount = copying.stream.availableCount ∧
        after.stream.condition = copying.stream.condition)
    (first : Copying) (start : Copied stream total 0 first) (holds : kept 0 first) :
    ∃ last, faultLoop (fun copying => copying.size ≠ 0) turn (total + 1) first = some last ∧
      Copied stream total total last ∧ kept total last := by
  have loop := WhileLoop.fault_rule
    (fun done copying => Copied stream total done copying ∧ kept done copying)
    (fun done => total - done)
    (fun done copying invariant more => by
      obtain ⟨copied, now⟩ := invariant
      have left : 0 < copying.size := Nat.pos_of_ne_zero (of_decide_eq_true more)
      obtain ⟨size, after, positive, inside, runs, further, offset, rest, available, condition⟩ :=
        step done copying copied left now
      have before := copied.size
      exact ⟨done + size, after, runs,
        ⟨copied.next inside offset rest available condition, further⟩, by omega⟩)
    0 first ⟨start, holds⟩ (Nat.lt_succ_self _)
  obtain ⟨done, last, ran, ⟨copied, now⟩, ended⟩ := loop
  have finished : last.size = 0 := of_not_not (of_decide_eq_false ended)
  have rest := copied.size
  have upTo := copied.upTo
  have all : done = total := by omega
  rw [all] at copied now
  exact ⟨last, ran, copied, now⟩

theorem writeStreamData_spec (fresh : Fresh malloc)
    (carries : Carries malloc stream history written read)
    (available : stream.availableCount = written - read) (positive : 0 < size)
    (fits : written + size < 2 ^ 32) (data : Bytes) :
    ∃ after, stream.writeStreamData malloc (some data) size = some (.ok, after) ∧
      Carries malloc after (fillBytes history written size data) (written + size) read ∧
      after.availableCount = written + size - read ∧ after.condition = stream.condition := by
  obtain ⟨last, ran, ⟨offset, _, _, available', condition'⟩, _, now⟩ := Copied.loop
    (fun done copying => copying.data = data ∧
      Carries malloc copying.stream (fillBytes history written done data) (written + done) read)
    (fun done copying copied left invariant => by
      obtain ⟨sameData, now⟩ := invariant
      obtain ⟨offset, rest, upTo, _, _⟩ := copied
      obtain ⟨moved, next, positive, inside, runs, carried, same, moves⟩ :=
        now.writeTurn_spec fresh left (by omega) (by omega)
      refine ⟨moved, next, positive, inside, runs, ⟨same.trans sameData, ?_⟩, moves⟩
      rw [sameData, offset, Words.fillBytes_append, Nat.add_assoc] at carried
      exact carried)
    ⟨stream, data, 0, size, 0⟩ ⟨rfl, rfl, Nat.zero_le _, rfl, rfl⟩
    ⟨rfl, by
      rw [Words.fillBytes_zero]
      exact carries⟩
  have reader : ¬ last.stream.readBuffer = 0 := by
    rw [now.readBuffer]
    exact fresh.nonzero _
  have available'' : (last.stream.availableCount + last.dataOffset) % 2 ^ 32 =
      written + size - read := by
    have ordered := carries.ordered
    rw [available', available, offset]
    omega
  refine ⟨{ last.stream with availableCount := written + size - read }, ?_,
    now.counted _ _, rfl, condition'⟩
  unfold Stream.writeStreamData
  simp only [if_neg (Nat.ne_of_gt positive), carries.notBlocked, ne_eq, not_true_eq_false,
    if_false, ran, Option.map_some, reader, available'']

theorem readStreamData_spec (fresh : Fresh malloc)
    (carries : Carries malloc stream history written read)
    (available : stream.availableCount = written - read) (positive : 0 < size)
    (some' : read < written) (data : Bytes) :
    ∃ after, stream.readStreamData (some data) size =
        some (.ok, some (fillBytes data 0 (min size (written - read)) fun place =>
          history (read + place)), after) ∧
      Carries malloc after history written (read + min size (written - read)) ∧
      after.availableCount = written - (read + min size (written - read)) ∧
      after.condition = stream.condition := by
  have total : (if size > stream.availableCount then stream.availableCount else size) =
      min size (written - read) := by
    rw [available]
    split <;> omega
  have bound : min size (written - read) ≤ written - read := Nat.min_le_right _ _
  have fits := carries.fits
  generalize min size (written - read) = moved at *
  obtain ⟨last, ran, ⟨offset, _, _, available', condition'⟩, copiedData, now⟩ := Copied.loop
    (fun done copying => copying.data = fillBytes data 0 done (fun place => history (read + place)) ∧
      Carries malloc copying.stream history written (read + done))
    (fun done copying copied left invariant => by
      obtain ⟨sameData, now⟩ := invariant
      obtain ⟨offset, rest, upTo, _, _⟩ := copied
      obtain ⟨turned, next, positive, inside, runs, carried, data', moves⟩ :=
        now.readTurn_spec fresh left (by omega) (by omega)
      refine ⟨turned, next, positive, inside, runs, ⟨?_, ?_⟩, moves⟩
      · have filled := Words.fillBytes_append data 0 done turned fun place => history (read + place)
        rw [Nat.zero_add] at filled
        rw [data', sameData, offset, ← filled]
        simp only [Nat.add_assoc]
      · rw [← Nat.add_assoc]
        exact carried)
    ⟨stream, data, 0, moved, 0⟩ ⟨rfl, rfl, Nat.zero_le _, rfl, rfl⟩
    ⟨(Words.fillBytes_zero _ _ _).symm, carries⟩
  have started : ¬ (stream.buffers = 0 ∨ stream.readOffset = stream.writeOffset) := by
    rw [carries.buffers, carries.readOffset, carries.writeOffset]
    intro empty
    rcases empty with none | equal
    · exact fresh.nonzero 0 none
    · omega
  have available'' : (last.stream.availableCount + 2 ^ 32 - last.dataOffset) % 2 ^ 32 =
      written - (read + moved) := by
    rw [available', available, offset]
    omega
  refine ⟨{ last.stream with availableCount := written - (read + moved) }, ?_,
    now.counted _ _, rfl, condition'⟩
  unfold Stream.readStreamData
  simp only [carries.notBlocked, ne_eq, not_true_eq_false, if_false, if_neg (Nat.ne_of_gt positive),
    if_neg started, total, ran, Option.bind_some, now.notClearing, false_and, available'',
    Option.map_some, copiedData]

theorem readStreamData_empty (carries : Carries malloc stream history written written)
    (positive : 0 < size) (data : Bytes) :
    stream.readStreamData (some data) size = some (.emptyStream, some data, stream) := by
  have empty : stream.buffers = 0 ∨ stream.readOffset = stream.writeOffset :=
    .inr (carries.readOffset.trans carries.writeOffset.symm)
  unfold Stream.readStreamData
  simp only [carries.notBlocked, ne_eq, not_true_eq_false, if_false, if_neg (Nat.ne_of_gt positive),
    if_pos empty]

theorem allocStream_spec (fresh : Fresh malloc) (flags : Nat) (history : Bytes) :
    ∃ stream, Stream.allocStream malloc flags = some stream ∧
      Carries malloc stream history 0 0 ∧ stream.availableCount = 0 ∧ stream.condition = 0 := by
  have masked : ∀ flag, (flagRead ||| flagWrite) &&& flag = 0 →
      (flags &&& (flagRead ||| flagWrite)) &&& flag = 0 := by
    intro flag apart
    rw [Nat.and_assoc, apart, Nat.and_zero]
  have made : Stream.allocStream malloc flags = some
      { readOffset := 0
        writeOffset := 0
        availableCount := 0
        flags := flags &&& (flagRead ||| flagWrite)
        condition := 0
        buffers := malloc 0
        lastBuffer := malloc 0
        readBuffer := malloc 0
        writeBuffer := malloc 0
        freeBuffers := 0
        bufs := Function.update (Function.update (fun _ => none) (malloc 0)
          (some { next := 0, prev := 0, data := fun _ => 0 })) (malloc 0)
          (some { next := 0, prev := 0, data := fun _ => 0 })
        allocated := 1 } := by
    simp [Stream.allocStream, Stream.allocStreamBuffer, Stream.takeBuffer, Stream.modify,
      Stream.deref, fresh.nonzero 0]
  refine ⟨_, made, ?_, rfl, rfl⟩
  constructor
  case writeOffset => rfl
  case readOffset => rfl
  case ordered => exact Nat.le_refl 0
  case fits => decide
  case allocated => rfl
  case unused =>
    intro i above
    have other : malloc i ≠ malloc 0 := by
      intro equal
      have same := fresh.distinct _ _ equal
      omega
    exact (Function.update_of_ne other _ _).trans (Function.update_of_ne other _ _)
  case linked =>
    intro i first
    have same : i = 0 := by omega
    rw [same]
    refine ⟨_, Function.update_self _ _ _, ?_, ?_⟩
    · rw [if_neg (by omega)]
    · intro place _ below
      omega
  case buffers => rfl
  case lastBuffer => rfl
  case readBuffer => rfl
  case writeBuffer => rfl
  case freeBuffers => rfl
  case notBlocked => exact masked flagBlocked rfl
  case notClearing => exact masked flagClearRead rfl

end Carries

structure Usage where
  stream : Stream
  written : List UInt8
  delivered : List UInt8

inductive StreamCall where
  | write (data : Bytes) (size : Nat)
  | read (data : Bytes) (size : Nat)

namespace Usage

def bytesOf (data : Bytes) (count : Nat) : List UInt8 := (List.range count).map data

/-- The result of a call; the bytes that a read delivers are those that it takes off the count. -/
def after (malloc : Nat → Nat) (usage : Usage) : StreamCall → Option Usage
  | .write data size => (usage.stream.writeStreamData malloc (some data) size).map
      fun (_, stream) => { usage with
        stream := stream
        written := usage.written ++ bytesOf data size }
  | .read data size => (usage.stream.readStreamData (some data) size).bind
      fun (_, data, stream) => data.map fun data => { usage with
        stream := stream
        delivered := usage.delivered ++
          bytesOf data (usage.stream.availableCount - stream.availableCount) }

/-- A call with data, and fewer than `2 ^ 32` bytes written in total. -/
def Allowed (usage : Usage) : StreamCall → Prop
  | .write _ size => 0 < size ∧ usage.written.length + size < 2 ^ 32
  | .read _ size => 0 < size ∧ size < 2 ^ 32

/-- Calls on a stream of `k_io_AllocStream`. -/
def machine (malloc : Nat → Nat) (flags : Nat) : Machine Usage StreamCall where
  start usage := Stream.allocStream malloc flags = some usage.stream ∧ usage.written = [] ∧
    usage.delivered = []
  step before call after := before.Allowed call ∧ before.after malloc call = some after

theorem bytesOf_length (data : Bytes) (count : Nat) : (bytesOf data count).length = count := by
  unfold bytesOf
  rw [List.length_map, List.length_range]

theorem bytesOf_append (data source : Bytes) (first second : Nat) :
    bytesOf data first ++ bytesOf source second =
      bytesOf (fillBytes data first second source) (first + second) := by
  unfold bytesOf
  rw [List.range_add, List.map_append, List.map_map]
  congr 1
  · apply List.map_congr_left
    intro place member
    have small := List.mem_range.mp member
    unfold fillBytes
    rw [if_neg (by omega)]
  · apply List.map_congr_left
    intro place member
    have small := List.mem_range.mp member
    have back : first + place - first = place := by omega
    unfold fillBytes
    rw [Function.comp_apply, if_pos (by omega), back]

theorem bytesOf_congr {data same : Bytes} {count : Nat}
    (equal : ∀ place < count, data place = same place) : bytesOf data count = bytesOf same count := by
  apply List.map_congr_left
  intro place member
  exact equal place (List.mem_range.mp member)

theorem bytesOf_split (data : Bytes) (first second : Nat) :
    bytesOf data first ++ bytesOf (fun place => data (first + place)) second =
      bytesOf data (first + second) := by
  unfold bytesOf
  rw [List.range_add, List.map_append, List.map_map]
  rfl

/-- The stream carries what was written and is not yet delivered. -/
def Consistent (malloc : Nat → Nat) (usage : Usage) : Prop :=
  ∃ history, Carries malloc usage.stream history usage.written.length usage.delivered.length ∧
    usage.written = bytesOf history usage.written.length ∧
    usage.delivered = bytesOf history usage.delivered.length ∧
    usage.stream.availableCount = usage.written.length - usage.delivered.length

variable {malloc : Nat → Nat} {usage before after : Usage} {data : Bytes} {size : Nat}

theorem write_consistent (fresh : Fresh malloc) (consistent : usage.Consistent malloc)
    (allowed : usage.Allowed (.write data size)) :
    ∃ stream, usage.stream.writeStreamData malloc (some data) size = some (.ok, stream) ∧
      Consistent malloc { usage with stream := stream, written := usage.written ++ bytesOf data size } ∧
      stream.condition = usage.stream.condition := by
  obtain ⟨history, carries, isWritten, isDelivered, available⟩ := consistent
  obtain ⟨stream, written, carried, available', condition⟩ :=
    carries.writeStreamData_spec fresh available allowed.1 allowed.2 data
  refine ⟨stream, written, ⟨fillBytes history usage.written.length size data, ?_⟩, condition⟩
  have ordered := carries.ordered
  simp only [List.length_append, bytesOf_length]
  refine ⟨carried, ?_, ?_, available'⟩
  · rw [isWritten, bytesOf_length]
    exact bytesOf_append _ _ _ _
  · refine isDelivered.trans (bytesOf_congr ?_)
    intro place small
    unfold fillBytes
    rw [if_neg (by omega)]

theorem read_consistent (fresh : Fresh malloc) (consistent : usage.Consistent malloc) (some' : usage.delivered.length < usage.written.length)
    (allowed : usage.Allowed (.read data size)) :
    ∃ filled stream, usage.stream.readStreamData (some data) size = some (.ok, some filled, stream) ∧
      Consistent malloc { usage with
        stream := stream
        delivered := usage.delivered ++
          bytesOf filled (usage.stream.availableCount - stream.availableCount) } ∧
      usage.stream.availableCount - stream.availableCount =
        min size (usage.written.length - usage.delivered.length) ∧
      (∀ place, min size (usage.written.length - usage.delivered.length) ≤ place →
        filled place = data place) ∧
      stream.condition = usage.stream.condition := by
  obtain ⟨history, carries, isWritten, isDelivered, available⟩ := consistent
  obtain ⟨stream, read, carried, available', condition⟩ :=
    carries.readStreamData_spec fresh available allowed.1 some' data
  have moved : usage.stream.availableCount - stream.availableCount =
      min size (usage.written.length - usage.delivered.length) := by
    rw [available, available']
    omega
  refine ⟨_, stream, read, ?_, moved, ?_, condition⟩
  · rw [moved]
    refine ⟨history, ?_⟩
    simp only [List.length_append, bytesOf_length]
    refine ⟨carried, isWritten, ?_, available'⟩
    have passedOn := @bytesOf_congr (fillBytes data 0
      (min size (usage.written.length - usage.delivered.length)) fun place =>
        history (usage.delivered.length + place)) (fun place => history (usage.delivered.length + place))
      (min size (usage.written.length - usage.delivered.length)) (by
        intro place small
        unfold fillBytes
        rw [if_pos (by omega), Nat.sub_zero])
    rw [passedOn, isDelivered, bytesOf_length]
    exact bytesOf_split _ _ _
  · intro place above
    unfold fillBytes
    rw [if_neg (by omega)]

theorem start_consistent (fresh : Fresh malloc) {flags : Nat}
    (start : (machine malloc flags).start usage) : usage.Consistent malloc := by
  obtain ⟨made, written, delivered⟩ := start
  obtain ⟨stream, made', carries, available, _⟩ :=
    Carries.allocStream_spec fresh flags fun _ => 0
  rw [made] at made'
  cases made'
  refine ⟨fun _ => 0, ?_⟩
  rw [written, delivered]
  exact ⟨carries, rfl, rfl, available⟩

theorem Consistent.step (fresh : Fresh malloc) {flags : Nat} {call : StreamCall}
    (consistent : before.Consistent malloc) (step : (machine malloc flags).step before call after) :
    after.Consistent malloc := by
  obtain ⟨allowed, result⟩ := step
  cases call with
  | write data size =>
      obtain ⟨stream, written, kept, _⟩ := write_consistent fresh consistent allowed
      simp only [Usage.after, written, Option.map_some] at result
      cases result
      exact kept
  | read data size =>
      unfold Usage.after at result
      by_cases left : before.delivered.length < before.written.length
      · obtain ⟨filled, stream, read, kept, _⟩ := read_consistent fresh consistent left allowed
        simp only [read, Option.bind_some, Option.map_some] at result
        cases result
        exact kept
      · obtain ⟨history, carries, isWritten, isDelivered, available⟩ := id consistent
        have ordered := carries.ordered
        have all : before.delivered.length = before.written.length := by omega
        rw [all] at carries
        simp only [carries.readStreamData_empty allowed.1, Option.bind_some, Option.map_some,
          Nat.sub_self, bytesOf, List.range_zero, List.map_nil, List.append_nil] at result
        cases result
        exact consistent

theorem reachable_consistent (fresh : Fresh malloc) {flags : Nat}
    (reachable : (machine malloc flags).Reachable usage) : usage.Consistent malloc := by
  apply (machine malloc flags).invariant _ _ reachable
  · intro first initial
    exact start_consistent fresh initial
  · intro before call after consistent step
    exact consistent.step fresh step

/-- The bytes come out in the order they went in, and every call returns. -/
theorem stream_fifo (fresh : Fresh malloc) {flags : Nat}
    (reachable : (machine malloc flags).Reachable usage) :
    usage.delivered <+: usage.written ∧
    usage.stream.availableCount = usage.written.length - usage.delivered.length ∧
    (∀ data size, usage.Allowed (.write data size) →
      ∃ stream, usage.stream.writeStreamData malloc (some data) size = some (.ok, stream)) ∧
    (∀ data size, usage.Allowed (.read data size) → ∃ status filled stream,
      usage.stream.readStreamData (some data) size = some (status, some filled, stream) ∧
      status = (if usage.written.length = usage.delivered.length then .emptyStream else .ok) ∧
      usage.stream.availableCount - stream.availableCount =
        min size (usage.written.length - usage.delivered.length) ∧
      ∀ place, min size (usage.written.length - usage.delivered.length) ≤ place →
        filled place = data place) := by
  have consistent := reachable_consistent fresh reachable
  obtain ⟨history, carries, isWritten, isDelivered, available⟩ := id consistent
  have ordered := carries.ordered
  refine ⟨?_, available, ?_, ?_⟩
  · have split := bytesOf_split history usage.delivered.length
      (usage.written.length - usage.delivered.length)
    rw [Nat.add_sub_cancel' ordered, ← isWritten, ← isDelivered] at split
    exact ⟨_, split⟩
  · intro data size allowed
    obtain ⟨stream, written, _⟩ := write_consistent fresh consistent allowed
    exact ⟨stream, written⟩
  · intro data size allowed
    by_cases left : usage.delivered.length < usage.written.length
    · obtain ⟨filled, stream, read, _, moved, outside, _⟩ :=
        read_consistent fresh consistent left allowed
      refine ⟨.ok, filled, stream, read, ?_, moved, outside⟩
      rw [if_neg (by omega)]
    · have all : usage.delivered.length = usage.written.length := by omega
      rw [all] at carries ⊢
      refine ⟨.emptyStream, data, usage.stream, carries.readStreamData_empty allowed.1 data, ?_, ?_, ?_⟩
      · rw [if_pos rfl]
      · omega
      · intro place _
        rfl

def pageOf (i : Nat) : Nat := 4096 * (i + 1)

theorem pageOf_fresh : Fresh pageOf := by
  constructor
  · intro i
    unfold pageOf
    omega
  · intro i j same
    unfold pageOf at same
    omega

theorem stream_fifo_write : ∃ usage, (machine pageOf 0).Reachable usage ∧
    usage.written = [7, 7, 7] ∧ usage.delivered <+: [7, 7, 7] ∧
    usage.stream.availableCount = 3 - usage.delivered.length := by
  obtain ⟨stream, made, _⟩ := Carries.allocStream_spec pageOf_fresh 0 fun _ => 0
  have first := (machine pageOf 0).reachable_start
    (show (machine pageOf 0).start ⟨stream, [], []⟩ from ⟨made, rfl, rfl⟩)
  have allowed : Allowed ⟨stream, [], []⟩ (.write (fun _ => 7) 3) :=
    ⟨Nat.zero_lt_succ 2, show 0 + 3 < 2 ^ 32 by decide⟩
  obtain ⟨after, written⟩ := (stream_fifo pageOf_fresh first).2.2.1 _ _ allowed
  have step : (machine pageOf 0).step ⟨stream, [], []⟩ (.write (fun _ => 7) 3)
      ⟨after, [7, 7, 7], []⟩ := by
    refine ⟨allowed, ?_⟩
    simp only [Usage.after, written, Option.map_some]
    rfl
  have second := Machine.reachable_step _ first step
  obtain ⟨delivered, available, _⟩ := stream_fifo pageOf_fresh second
  exact ⟨_, second, rfl, delivered, available⟩

end Usage

end DoggOS.Io

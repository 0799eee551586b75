/-
A keyboard that writes to a terminal stream and a reader that waits on it.

Every key writes one character and sets the condition of the stream.  The reader
waits for the condition, reads one character and clears it, also where more
characters are left, and then it sleeps on available input.  It does not where
every read empties the stream.
-/

import DoggOS.Io.StreamRuns

namespace DoggOS.Io

namespace Stream

/-- `k_io_SignalStream` -/
def signalStream (stream : Stream) : Stream := { stream with condition := 1 }

/-- `k_io_ReadStream` after the wait; a terminal stream has no `read` routine. -/
def readStream (stream : Stream) (data : Option Bytes) (size : Nat) :
    Option (Status × Option Bytes × Stream) :=
  (stream.readStreamData data size).map fun (result, data, stream) =>
    (result, data, { stream with condition := 0 })

/-- `k_dev_kb_KeyboardHandler` for a key that stands for `ch`. -/
def keyboardHandler (malloc : Nat → Nat) (stream : Stream) (ch : UInt8) : Option Stream :=
  (stream.writeStreamData malloc (some fun _ => ch) 1).map fun (_, stream) => stream.signalStream

inductive TerminalStep where
  | key (ch : UInt8)
  | read (ch : Bytes)

/-- A terminal stream with its keyboard and its reader; `k_io_UnblockStream` clears a flag that a new
stream does not have. -/
def terminal (malloc : Nat → Nat) (flags : Nat) : Machine Stream TerminalStep where
  start stream := allocStream malloc flags = some stream
  step before label after :=
    match label with
    | .key ch => before.keyboardHandler malloc ch = some after
    | .read ch => before.condition ≠ 0 ∧
        ∃ result filled, before.readStream (some ch) 1 = some (result, filled, after)

def ReadsLast (stream : Stream) : TerminalStep → Prop
  | .key _ => True
  | .read _ => stream.availableCount ≤ 1

structure SameCounts (before after : Stream) : Prop where
  readOffset : after.readOffset = before.readOffset
  writeOffset : after.writeOffset = before.writeOffset
  availableCount : after.availableCount = before.availableCount
  flags : after.flags = before.flags
  started : before.buffers ≠ 0 → after.buffers ≠ 0

namespace SameCounts

variable {first second third : Stream}

theorem refl (stream : Stream) : SameCounts stream stream := ⟨rfl, rfl, rfl, rfl, id⟩

theorem trans (one : SameCounts first second) (two : SameCounts second third) :
    SameCounts first third := by
  constructor
  · rw [two.readOffset, one.readOffset]
  · rw [two.writeOffset, one.writeOffset]
  · rw [two.availableCount, one.availableCount]
  · rw [two.flags, one.flags]
  · intro started
    exact two.started (one.started started)

end SameCounts

section Steps

variable {malloc : Nat → Nat} {stream after : Stream}

theorem modify_sameCounts {buffer : Nat} {change : StreamBuf → StreamBuf}
    (modified : stream.modify buffer change = some after) : SameCounts stream after := by
  obtain ⟨found, _, result⟩ := Option.map_eq_some_iff.mp modified
  rw [← result]
  exact ⟨rfl, rfl, rfl, rfl, id⟩

theorem takeBuffer_sameCounts {buffer : Nat} (taken : stream.takeBuffer malloc = some (buffer, after)) :
    SameCounts stream after := by
  unfold takeBuffer at taken
  split at taken
  · obtain ⟨found, _, result⟩ := Option.map_eq_some_iff.mp taken
    cases result
    exact ⟨rfl, rfl, rfl, rfl, id⟩
  · cases taken
    exact ⟨rfl, rfl, rfl, rfl, id⟩

theorem allocStreamBuffer_sameCounts (allocated : stream.allocStreamBuffer malloc = some after) :
    SameCounts stream after := by
  obtain ⟨⟨buffer, taken⟩, take, rest⟩ := Option.bind_eq_some_iff.mp allocated
  obtain ⟨linked, link, rest⟩ := Option.bind_eq_some_iff.mp rest
  obtain ⟨ended, modified, result⟩ := Option.map_eq_some_iff.mp rest
  have ofLink : SameCounts taken linked := by
    split at link
    case isTrue none =>
      cases link
      exact ⟨rfl, rfl, rfl, rfl, fun started => absurd none started⟩
    case isFalse =>
      exact modify_sameCounts link
  have same := ((takeBuffer_sameCounts take).trans ofLink).trans (modify_sameCounts modified)
  rw [← result]
  exact ⟨same.readOffset, same.writeOffset, same.availableCount, same.flags, same.started⟩

theorem writeTurn_one {data : Bytes} {after : Copying}
    (turned : writeTurn malloc ⟨stream, data, 0, 1, 0⟩ = some after) :
    after.size = 0 ∧ after.dataOffset = 1 ∧
      SameCounts { stream with writeOffset := (stream.writeOffset + 1) % 2 ^ 32 } after.stream := by
  have small : stream.writeOffset % bufDataSize < bufDataSize := Nat.mod_lt _ (by decide)
  obtain ⟨⟨passed, copySize⟩, pass, rest⟩ := Option.bind_eq_some_iff.mp turned
  obtain ⟨stored, modified, result⟩ := Option.map_eq_some_iff.mp rest
  have one : copySize = 1 ∧ SameCounts stream passed := by
    simp only at pass
    split at pass
    · obtain ⟨found, _, pass⟩ := Option.bind_eq_some_iff.mp pass
      obtain ⟨grown, grow, pass⟩ := Option.bind_eq_some_iff.mp pass
      obtain ⟨next, _, result⟩ := Option.map_eq_some_iff.mp pass
      have ofGrow : SameCounts stream grown := by
        split at grow
        · exact allocStreamBuffer_sameCounts grow
        · cases grow
          exact SameCounts.refl stream
      cases result
      exact ⟨by omega, ofGrow.readOffset, ofGrow.writeOffset, ofGrow.availableCount, ofGrow.flags,
        ofGrow.started⟩
    · cases pass
      exact ⟨rfl, SameCounts.refl stream⟩
  obtain ⟨isOne, ofPass⟩ := one
  have same := ofPass.trans (modify_sameCounts modified)
  rw [← result, isOne]
  refine ⟨rfl, rfl, same.readOffset, ?_, same.availableCount, same.flags, same.started⟩
  exact congrArg (fun offset => (offset + 1) % 2 ^ 32) same.writeOffset

theorem readTurn_one {data : Bytes} {after : Copying}
    (turned : readTurn ⟨stream, data, 0, 1, 0⟩ = some after) :
    after.size = 0 ∧ after.dataOffset = 1 ∧
      SameCounts { stream with readOffset := (stream.readOffset + 1) % 2 ^ 32 } after.stream := by
  have small : stream.readOffset % bufDataSize < bufDataSize := Nat.mod_lt _ (by decide)
  obtain ⟨⟨passed, copySize, lastFreed⟩, pass, rest⟩ := Option.bind_eq_some_iff.mp turned
  obtain ⟨found, _, result⟩ := Option.map_eq_some_iff.mp rest
  have one : copySize = 1 ∧ SameCounts stream passed := by
    simp only at pass
    split at pass
    · obtain ⟨found, _, result⟩ := Option.map_eq_some_iff.mp pass
      cases result
      exact ⟨by omega, rfl, rfl, rfl, rfl, id⟩
    · cases pass
      exact ⟨rfl, SameCounts.refl stream⟩
  obtain ⟨isOne, same⟩ := one
  rw [← result, isOne]
  refine ⟨rfl, rfl, ?_, same.writeOffset, same.availableCount, same.flags, same.started⟩
  exact congrArg (fun offset => (offset + 1) % 2 ^ 32) same.readOffset

theorem loop_one {turn : Copying → Option Copying} {copying after : Copying} (one : copying.size = 1)
    (stops : ∀ next, turn copying = some next → next.size = 0)
    (ran : faultLoop (fun copying => copying.size ≠ 0) turn 2 copying = some after) :
    turn copying = some after := by
  rw [faultLoop, one] at ran
  obtain ⟨next, turned, rest⟩ := Option.bind_eq_some_iff.mp ran
  have stopped := stops next turned
  rw [faultLoop, stopped] at rest
  cases rest
  exact turned

structure Balanced (stream : Stream) : Prop where
  offsets : (stream.readOffset + stream.availableCount) % 2 ^ 32 = stream.writeOffset
  small : stream.readOffset < 2 ^ 32
  few : stream.availableCount < 2 ^ 32
  started : stream.buffers ≠ 0
  notBlocked : stream.flags &&& flagBlocked = 0
  notClearing : stream.flags &&& flagClearRead = 0

theorem keyboardHandler_balanced {ch : UInt8} (balanced : Balanced stream)
    (handled : stream.keyboardHandler malloc ch = some after) :
    Balanced after ∧ after.condition = 1 := by
  obtain ⟨⟨status, written⟩, write, result⟩ := Option.map_eq_some_iff.mp handled
  unfold writeStreamData at write
  simp only [balanced.notBlocked, ne_eq, not_true_eq_false, if_false, Nat.one_ne_zero] at write
  obtain ⟨copied, ran, result'⟩ := Option.map_eq_some_iff.mp write
  have turned := loop_one rfl (fun next turned => (writeTurn_one turned).1) ran
  obtain ⟨_, offset, same⟩ := writeTurn_one turned
  have readOffset : copied.stream.readOffset = stream.readOffset := same.readOffset
  have writeOffset : copied.stream.writeOffset = (stream.writeOffset + 1) % 2 ^ 32 :=
    same.writeOffset
  have available : copied.stream.availableCount = stream.availableCount := same.availableCount
  have flags : copied.stream.flags = stream.flags := same.flags
  have offsets := balanced.offsets
  have ofWritten : written.readOffset = copied.stream.readOffset ∧
      written.writeOffset = copied.stream.writeOffset ∧
      written.availableCount = (copied.stream.availableCount + copied.dataOffset) % 2 ^ 32 ∧
      written.flags = copied.stream.flags ∧ written.buffers = copied.stream.buffers := by
    split at result'
    · cases result'
      exact ⟨rfl, rfl, rfl, rfl, rfl⟩
    · cases result'
      exact ⟨rfl, rfl, rfl, rfl, rfl⟩
  obtain ⟨readOffset', writeOffset', available', flags', buffers'⟩ := ofWritten
  rw [← result]
  refine ⟨⟨?_, ?_, ?_, ?_, ?_, ?_⟩, rfl⟩
  · change (written.readOffset + written.availableCount) % 2 ^ 32 = written.writeOffset
    rw [readOffset', available', writeOffset', readOffset, available, writeOffset, offset]
    omega
  · change written.readOffset < 2 ^ 32
    rw [readOffset', readOffset]
    exact balanced.small
  · change written.availableCount < 2 ^ 32
    rw [available']
    exact Nat.mod_lt _ (by decide)
  · change written.buffers ≠ 0
    rw [buffers']
    exact same.started balanced.started
  · change written.flags &&& flagBlocked = 0
    rw [flags', flags]
    exact balanced.notBlocked
  · change written.flags &&& flagClearRead = 0
    rw [flags', flags]
    exact balanced.notClearing

theorem readStream_balanced {ch : Bytes} {status : Status} {filled : Option Bytes}
    (balanced : Balanced stream)
    (result : stream.readStream (some ch) 1 = some (status, filled, after)) :
    Balanced after ∧ after.condition = 0 ∧ after.availableCount = stream.availableCount - 1 := by
  obtain ⟨⟨status', filled', rest⟩, read, result⟩ := Option.map_eq_some_iff.mp result
  unfold readStreamData at read
  simp only [balanced.notBlocked, ne_eq, not_true_eq_false, if_false, Nat.one_ne_zero,
    balanced.started, false_or] at read
  have offsets := balanced.offsets
  have few := balanced.few
  cases result
  by_cases empty : stream.readOffset = stream.writeOffset
  · rw [if_pos empty] at read
    cases read
    refine ⟨⟨offsets, balanced.small, few, balanced.started, balanced.notBlocked,
      balanced.notClearing⟩, rfl, ?_⟩
    change stream.availableCount = _
    have small := balanced.small
    omega
  · have one : (if 1 > stream.availableCount then stream.availableCount else 1) = 1 := by
      have small := balanced.small
      rw [if_neg]
      omega
    rw [if_neg empty, one] at read
    obtain ⟨copied, ran, freed⟩ := Option.bind_eq_some_iff.mp read
    have turned := loop_one rfl (fun next turned => (readTurn_one turned).1) ran
    obtain ⟨_, offset, same⟩ := readTurn_one turned
    have flags : copied.stream.flags = stream.flags := same.flags
    simp only [flags, balanced.notClearing, not_true_eq_false, false_and, if_false,
      Option.map_some] at freed
    have readOffset : copied.stream.readOffset = (stream.readOffset + 1) % 2 ^ 32 := same.readOffset
    have writeOffset : copied.stream.writeOffset = stream.writeOffset := same.writeOffset
    have available : copied.stream.availableCount = stream.availableCount := same.availableCount
    have small := balanced.small
    have taken : (copied.stream.availableCount + 2 ^ 32 - copied.dataOffset) % 2 ^ 32 =
        stream.availableCount - 1 := by
      rw [available, offset]
      omega
    cases freed
    refine ⟨⟨?_, ?_, ?_, ?_, ?_, ?_⟩, rfl, taken⟩
    · change (copied.stream.readOffset + (copied.stream.availableCount + 2 ^ 32 - copied.dataOffset) %
        2 ^ 32) % 2 ^ 32 = copied.stream.writeOffset
      rw [taken, readOffset, writeOffset]
      omega
    · change copied.stream.readOffset < 2 ^ 32
      rw [readOffset]
      exact Nat.mod_lt _ (by decide)
    · exact Nat.mod_lt _ (by decide)
    · exact same.started balanced.started
    · exact balanced.notBlocked
    · exact balanced.notClearing

theorem readStream_eq {data filled : Option Bytes} {size : Nat} {status : Status}
    (read : stream.readStreamData data size = some (status, filled, after)) :
    stream.readStream data size = some (status, filled, { after with condition := 0 }) := by
  unfold readStream
  rw [read, Option.map_some]

end Steps

section Runs

variable {malloc : Nat → Nat} {flags : Nat} {stream before after : Stream}

theorem allocStream_balanced (fresh : Fresh malloc) (made : allocStream malloc flags = some stream) :
    Balanced stream ∧ stream.availableCount = 0 := by
  obtain ⟨stream', made', carries, available, _⟩ := Carries.allocStream_spec fresh flags fun _ => 0
  rw [made] at made'
  cases made'
  refine ⟨⟨?_, ?_, ?_, ?_, carries.notBlocked, carries.notClearing⟩, available⟩
  · rw [carries.readOffset, carries.writeOffset, available]
    rfl
  · rw [carries.readOffset]
    decide
  · rw [available]
    decide
  · rw [carries.buffers]
    exact fresh.nonzero 0

/-- A reader that waits finds the condition set where there is something to read. -/
def Awake (stream : Stream) : Prop := stream.availableCount ≠ 0 → stream.condition ≠ 0

theorem key_awake {ch : UInt8} (balanced : Balanced before)
    (step : (terminal malloc flags).step before (.key ch) after) : Balanced after ∧ Awake after := by
  obtain ⟨kept, signalled⟩ := keyboardHandler_balanced balanced step
  refine ⟨kept, ?_⟩
  intro _
  rw [signalled]
  decide

/-- After a read the reader can wait safely exactly when it has read the last character. -/
theorem read_awake_iff {ch : Bytes} (balanced : Balanced before)
    (step : (terminal malloc flags).step before (.read ch) after) :
    Balanced after ∧ (Awake after ↔ before.availableCount ≤ 1) := by
  obtain ⟨_, result, filled, read⟩ := step
  obtain ⟨kept, cleared, available⟩ := readStream_balanced balanced read
  refine ⟨kept, ?_⟩
  unfold Awake
  rw [cleared, available]
  omega

/-- No reader sleeps on available input where every read finds one character at most. -/
theorem reader_awake (fresh : Fresh malloc)
    (reachable : ((terminal malloc flags).restrict ReadsLast).Reachable stream) : Awake stream := by
  have both : Balanced stream ∧ Awake stream := by
    apply ((terminal malloc flags).restrict ReadsLast).invariant _ _ reachable
    · intro first made
      obtain ⟨balanced, available⟩ := allocStream_balanced fresh made
      exact ⟨balanced, fun left => absurd available left⟩
    · intro before label after holds step
      obtain ⟨condition, step⟩ := step
      cases label with
      | key ch => exact key_awake holds.1 step
      | read ch =>
          obtain ⟨balanced, awake⟩ := read_awake_iff holds.1 step
          exact ⟨balanced, awake.mpr condition⟩
  exact both.2

structure Holding (malloc : Nat → Nat) (stream : Stream) (history : Bytes) (written read condition : Nat) :
    Prop where
  carries : Carries malloc stream history written read
  available : stream.availableCount = written - read
  condition : stream.condition = condition

theorem Holding.key {history : Bytes} {written read condition : Nat} (fresh : Fresh malloc)
    (holding : Holding malloc before history written read condition) (fits : written + 1 < 2 ^ 32)
    (ch : UInt8) : ∃ history' after, (terminal malloc flags).step before (.key ch) after ∧
      Holding malloc after history' (written + 1) read 1 := by
  obtain ⟨after, wrote, carried, available, _⟩ := holding.carries.writeStreamData_spec fresh
    holding.available Nat.one_pos fits fun _ => ch
  refine ⟨_, after.signalStream, ?_, carried.counted _ _, available, rfl⟩
  change before.keyboardHandler malloc ch = _
  unfold keyboardHandler
  rw [wrote, Option.map_some]

theorem reader_awake_key : ∃ stream,
    ((terminal Usage.pageOf 0).restrict ReadsLast).Reachable stream ∧ Awake stream := by
  obtain ⟨first, made, carries, available, condition⟩ :=
    Carries.allocStream_spec Usage.pageOf_fresh 0 fun _ => 0
  have start := ((terminal Usage.pageOf 0).restrict ReadsLast).reachable_start made
  obtain ⟨_, second, key, _⟩ := Holding.key Usage.pageOf_fresh
    ⟨carries, available, condition⟩ (by decide) 97
  have one := Machine.reachable_step _ start (show
    ((terminal Usage.pageOf 0).restrict ReadsLast).step first (.key 97) second from ⟨trivial, key⟩)
  exact ⟨second, one, reader_awake Usage.pageOf_fresh one⟩

/-- Two keys and one read. -/
theorem reader_asleep : ∃ stream, (terminal Usage.pageOf 0).Reachable stream ∧
    stream.availableCount = 1 ∧ stream.condition = 0 := by
  obtain ⟨first, made, carries, available, condition⟩ :=
    Carries.allocStream_spec Usage.pageOf_fresh 0 fun _ => 0
  have start := (terminal Usage.pageOf 0).reachable_start made
  obtain ⟨_, second, keyOne, holding⟩ := Holding.key Usage.pageOf_fresh
    ⟨carries, available, condition⟩ (by decide) 97
  have one := Machine.reachable_step _ start keyOne
  obtain ⟨_, third, keyTwo, holding⟩ := Holding.key Usage.pageOf_fresh holding (by decide) 98
  have two := Machine.reachable_step _ one keyTwo
  obtain ⟨last, read, _, available, _⟩ := holding.carries.readStreamData_spec Usage.pageOf_fresh
    holding.available Nat.one_pos (by decide) fun _ => 0
  have step : (terminal Usage.pageOf 0).step third (.read fun _ => 0) { last with condition := 0 } := by
    constructor
    · rw [holding.condition]
      decide
    · exact ⟨_, _, readStream_eq read⟩
  exact ⟨_, Machine.reachable_step _ two step, available, rfl⟩

end Runs

end Stream

end DoggOS.Io

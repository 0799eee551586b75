/-
Errors during a read from an IDE disk.

The disk thread waits after each command until the drive has answered for all
sectors.  The drive may answer with an error instead, and then it sends nothing
more for the command.  The handler tells the issuer of the request about the
error but not the disk thread, which waits for good.
-/

import DoggOS.Dev.IdeReads
import DoggOS.Library.Machine

namespace DoggOS.Dev

structure IdeState where
  cmd : IdeCmd
  firstBlock : Nat
  blockCount : Nat
  readBlockCount : Nat
  /-- The disk thread waits for `transferCondition`. -/
  waiting : Bool
  /-- The sectors that the drive has not answered for, and the next of them. -/
  pending : Nat
  sector : Nat
  /-- The buffer at the time of an error. -/
  errorBuffer : Option (Nat → Option UInt8)

/-- `answer` is an interrupt, with what the status register holds. -/
inductive IdeEvent where
  | issue
  | answer (status : Nat)
  | wake

/-- `K_IDE_STATUS_FLAG_ERROR` -/
def isError (status : Nat) : Bool := status &&& 1 ≠ 0

def IdeEvent.failed : IdeEvent → Bool
  | .answer status => isError status
  | _ => false

namespace IdeState

/-- `k_IDE_Read` up to its loop. -/
def request (address size : Nat) : IdeState :=
  let firstBlock := address / 512
  let lastBlock := (((address + size + 512 - 1) % 2 ^ 32) &&& 0xfffffe00) / 512
  let blockCount := (lastBlock + 2 ^ 32 - firstBlock) % 2 ^ 32
  let cmd : IdeCmd :=
    { type := .read, address := address, size := size, buffer := fun _ => none, condition := false,
      transferCondition := false, skipCount := 0, sectorCount := 0 }
  { cmd :=
      if blockCount ≠ 0 then { cmd with skipCount := address &&& 0x1ff, address := 0 }
      else { cmd with condition := true }
    firstBlock := firstBlock
    blockCount := blockCount
    readBlockCount := 0
    waiting := false
    pending := 0
    sector := 0
    errorBuffer := none }

def issue (state : IdeState) : IdeState :=
  let readBlockCount := if state.blockCount > 256 then 256 else state.blockCount
  let regs := IdeRegs.ofBlocks state.firstBlock readBlockCount
  { state with
    cmd := { state.cmd with transferCondition := false, sectorCount := readBlockCount }
    readBlockCount := readBlockCount
    waiting := true
    pending := regs.count
    sector := regs.sector }

def answer (content : Bytes) (state : IdeState) (status : Nat) : IdeState :=
  let transfer :=
    interruptHandler 512 status (fun place => content (512 * state.sector + place)) state.cmd
  if isError status then
    { state with
      cmd := transfer.cmd
      pending := 0
      errorBuffer := some (state.errorBuffer.getD state.cmd.buffer) }
  else
    { state with cmd := transfer.cmd, pending := state.pending - 1, sector := state.sector + 1 }

def wake (state : IdeState) : IdeState :=
  { state with
    waiting := false
    firstBlock := (state.firstBlock + state.readBlockCount) % 2 ^ 32
    blockCount := (state.blockCount + 2 ^ 32 - state.readBlockCount) % 2 ^ 32 }

def next (content : Bytes) (state : IdeState) : IdeEvent → Option IdeState
  | .issue => if state.waiting = false ∧ state.blockCount > 0 then some state.issue else none
  | .answer status => if state.pending > 0 then some (state.answer content status) else none
  | .wake =>
      if state.waiting = true ∧ state.cmd.transferCondition = true then some state.wake else none

/-- The issuer was told that the request is over, and the disk thread waits for a command that
the drive sends nothing for. -/
def Wedged (state : IdeState) : Prop :=
  state.cmd.condition = true ∧ state.waiting = true ∧ state.cmd.transferCondition = false ∧
    state.pending = 0

def StopsReading (state : IdeState) : Prop :=
  ∀ buffer, state.errorBuffer = some buffer → state.cmd.buffer = buffer

end IdeState

structure SameWait (before after : IdeCmd) : Prop where
  condition : after.condition = before.condition
  transferCondition : after.transferCondition = before.transferCondition
  sectorCount : after.sectorCount = before.sectorCount

namespace IdeTransfer

variable {sector : Bytes} {transfer : IdeTransfer}

theorem discard_cmd (count : Nat) : (discard sector count transfer).cmd = transfer.cmd := by
  rw [discard_eq]

theorem copyWords_sameWait (count : Nat) :
    SameWait transfer.cmd (copyWords sector count transfer).cmd := by
  induction count generalizing transfer with
  | zero => exact ⟨rfl, rfl, rfl⟩
  | succ count ih =>
      rw [copyWords]
      obtain ⟨condition, transferCondition, sectorCount⟩ := @ih
        (((transfer.readReg16 sector).2.storeByte
          (UInt8.ofNat (transfer.readReg16 sector).1)).storeByte
            (UInt8.ofNat ((transfer.readReg16 sector).1 >>> 8)))
      exact ⟨condition, transferCondition, sectorCount⟩

theorem skipHead_sameWait (availableBytes : Nat) :
    SameWait transfer.cmd (transfer.skipHead sector availableBytes).1.cmd := by
  unfold skipHead
  simp only [discard_eq]
  split
  · exact ⟨rfl, rfl, rfl⟩
  · exact ⟨rfl, rfl, rfl⟩

theorem copyBulk_sameWait (availableBytes : Nat) :
    SameWait transfer.cmd (transfer.copyBulk sector availableBytes).1.cmd := by
  unfold copyBulk
  split
  · dsimp only
    split
    · exact copyWords_sameWait _
    · exact ⟨rfl, rfl, rfl⟩
  · exact ⟨rfl, rfl, rfl⟩

theorem copyTail_sameWait (availableBytes : Nat) :
    SameWait transfer.cmd (transfer.copyTail sector availableBytes).cmd := by
  unfold copyTail
  split
  · exact ⟨rfl, rfl, rfl⟩
  · rw [discard_cmd]
    exact ⟨rfl, rfl, rfl⟩

theorem sameWait_trans {one two three : IdeCmd} (first : SameWait one two)
    (second : SameWait two three) : SameWait one three :=
  ⟨second.condition.trans first.condition,
    second.transferCondition.trans first.transferCondition,
    second.sectorCount.trans first.sectorCount⟩

theorem readSector_sameWait (blockSize : Nat) :
    SameWait transfer.cmd (transfer.readSector sector blockSize).cmd := by
  have copied (started : IdeTransfer × Nat) (kept : SameWait transfer.cmd started.1.cmd) :
      SameWait transfer.cmd
        ((started.1.copyBulk sector started.2).1.copyTail sector
          (started.1.copyBulk sector started.2).2).cmd :=
    sameWait_trans kept (sameWait_trans (copyBulk_sameWait _) (copyTail_sameWait _))
  have ended (started : IdeTransfer × Nat) (kept : SameWait transfer.cmd started.1.cmd) :
      SameWait transfer.cmd (if transfer.cmd.skipCount ≠ 0 ∧ started.2 = 0 then started.1
        else (started.1.copyBulk sector started.2).1.copyTail sector
          (started.1.copyBulk sector started.2).2).cmd := by
    split
    · exact kept
    · exact copied started kept
  unfold readSector
  apply ended
  split
  · exact skipHead_sameWait blockSize
  · exact ⟨rfl, rfl, rfl⟩

end IdeTransfer

/-- The end of the handler: the sector is counted and whoever waits for it is told. -/
def IdeTransfer.finish (transfer : IdeTransfer) : IdeTransfer :=
  let cmd := { transfer.cmd with sectorCount := (transfer.cmd.sectorCount + 2 ^ 16 - 1) % 2 ^ 16 }
  let cmd := if cmd.address = cmd.size then { cmd with condition := true } else cmd
  let cmd := if cmd.sectorCount = 0 then { cmd with transferCondition := true } else cmd
  { transfer with cmd := cmd }

theorem IdeTransfer.finish_counts {cmd : IdeCmd} {transfer : IdeTransfer}
    (kept : SameWait cmd transfer.cmd) (some : 0 < cmd.sectorCount)
    (small : cmd.sectorCount < 2 ^ 16) :
    transfer.finish.cmd.sectorCount = cmd.sectorCount - 1 ∧
      transfer.finish.cmd.transferCondition =
        (cmd.transferCondition || decide (cmd.sectorCount = 1)) := by
  obtain ⟨-, transferCondition, sectorCount⟩ := kept
  have counted : (transfer.cmd.sectorCount + 2 ^ 16 - 1) % 2 ^ 16 = cmd.sectorCount - 1 := by
    omega
  have told (cmd' : IdeCmd) (count : cmd'.sectorCount = cmd.sectorCount - 1)
      (before : cmd'.transferCondition = cmd.transferCondition) :
      (if cmd'.sectorCount = 0 then { cmd' with transferCondition := true } else cmd').sectorCount =
          cmd.sectorCount - 1 ∧
        (if cmd'.sectorCount = 0 then { cmd' with transferCondition := true }
          else cmd').transferCondition =
            (cmd.transferCondition || decide (cmd.sectorCount = 1)) := by
    by_cases last : cmd.sectorCount = 1
    · rw [if_pos (by omega)]
      exact ⟨count, by simp [last]⟩
    · rw [if_neg (by omega)]
      exact ⟨count, by simp [last, before]⟩
  unfold finish
  dsimp only
  by_cases done : transfer.cmd.address = transfer.cmd.size
  · simp only [if_pos done, counted]
    exact told { transfer.cmd with sectorCount := cmd.sectorCount - 1, condition := true } rfl
      transferCondition
  · simp only [if_neg done, counted]
    exact told { transfer.cmd with sectorCount := cmd.sectorCount - 1 } rfl transferCondition

/-- An error only signals the condition of the request. -/
theorem interruptHandler_error {status : Nat} (failed : isError status = true) (sector : Bytes)
    (cmd : IdeCmd) : (interruptHandler 512 status sector cmd).cmd =
      { cmd with condition := true } := by
  unfold interruptHandler
  rw [if_pos (of_decide_eq_true failed)]

theorem interruptHandler_counts {status : Nat} (fine : isError status = false) (sector : Bytes)
    {cmd : IdeCmd} (some : 0 < cmd.sectorCount) (small : cmd.sectorCount < 2 ^ 16) :
    (interruptHandler 512 status sector cmd).cmd.sectorCount = cmd.sectorCount - 1 ∧
      (interruptHandler 512 status sector cmd).cmd.transferCondition =
        (cmd.transferCondition || decide (cmd.sectorCount = 1)) := by
  have read := @IdeTransfer.readSector_sameWait sector ⟨cmd, 0⟩ 512
  have rest : SameWait cmd (IdeTransfer.mk cmd 0).cmd := ⟨rfl, rfl, rfl⟩
  have handled : ∃ transfer : IdeTransfer, SameWait cmd transfer.cmd ∧
      (interruptHandler 512 status sector cmd).cmd = transfer.finish.cmd := by
    unfold interruptHandler
    rw [if_neg (of_decide_eq_false fine)]
    cases cmd.type with
    | read => exact ⟨_, read, rfl⟩
    | identify => exact ⟨_, read, rfl⟩
    | write => exact ⟨_, rest, rfl⟩
    | clear => exact ⟨_, rest, rfl⟩
    | last => exact ⟨_, rest, rfl⟩
  obtain ⟨transfer, same, handled⟩ := handled
  rw [handled]
  exact IdeTransfer.finish_counts same some small

namespace IdeState

variable {content : Bytes} {state after last : IdeState} {event : IdeEvent}
  {events : List IdeEvent} {status : Nat}

structure Working (state : IdeState) : Prop where
  errorBuffer : state.errorBuffer = none
  idle : state.waiting = false → state.pending = 0
  counted : state.waiting = true → state.cmd.sectorCount = state.pending ∧ state.pending ≤ 256 ∧
    state.cmd.transferCondition = decide (state.pending = 0)

structure Failed (state : IdeState) : Prop where
  wedged : state.Wedged
  errorBuffer : state.errorBuffer = some state.cmd.buffer

theorem Working.not_wedged (working : state.Working) : ¬ state.Wedged := by
  rintro ⟨-, waits, notTold, silent⟩
  have told := (working.counted waits).2.2
  rw [notTold, silent] at told
  exact absurd told (by decide)

theorem request_working (address size : Nat) : (request address size).Working :=
  ⟨rfl, fun _ => rfl, fun waits => absurd waits Bool.false_ne_true⟩

theorem Working.issue (working : state.Working) (more : state.blockCount > 0) :
    state.issue.Working := by
  have bounds : 0 < (if state.blockCount > 256 then 256 else state.blockCount) ∧
      (if state.blockCount > 256 then 256 else state.blockCount) ≤ 256 := by
    split <;> omega
  have count := IdeRegs.count_ofBlocks state.firstBlock bounds.1 bounds.2
  refine ⟨working.errorBuffer, fun idle => absurd idle.symm Bool.false_ne_true, fun _ => ?_⟩
  unfold IdeState.issue
  simp only [count]
  exact ⟨trivial, bounds.2, (decide_eq_false bounds.1.ne').symm⟩

theorem Working.wake (working : state.Working) (waits : state.waiting = true)
    (told : state.cmd.transferCondition = true) : state.wake.Working := by
  have counted := (working.counted waits).2.2
  rw [told] at counted
  exact ⟨working.errorBuffer, fun _ => of_decide_eq_true counted.symm,
    fun waits => absurd waits Bool.false_ne_true⟩

theorem Working.waits (working : state.Working) (more : state.pending > 0) :
    state.waiting = true := by
  cases waits : state.waiting with
  | true => rfl
  | false =>
      have none := working.idle waits
      omega

theorem Working.answer (working : state.Working) (more : state.pending > 0)
    (fine : isError status = false) : (state.answer content status).Working := by
  have waits := working.waits more
  obtain ⟨count, bound, told⟩ := working.counted waits
  have handled := interruptHandler_counts fine
    (fun place => content (512 * state.sector + place))
    (show 0 < state.cmd.sectorCount by omega) (by omega)
  unfold IdeState.answer
  simp only [fine, Bool.false_eq_true, if_false]
  refine ⟨working.errorBuffer, fun idle => ?_, fun _ => ?_⟩
  · rw [waits] at idle
    exact absurd idle.symm Bool.false_ne_true
  · dsimp only
    refine ⟨handled.1.trans (by omega), by omega, handled.2.trans ?_⟩
    rw [told, decide_eq_false more.ne', Bool.false_or, count]
    exact decide_eq_decide.mpr (by omega)

theorem Working.fail (working : state.Working) (more : state.pending > 0)
    (failed : isError status = true) : (state.answer content status).Failed := by
  have waits := working.waits more
  obtain ⟨-, -, told⟩ := working.counted waits
  rw [decide_eq_false more.ne'] at told
  unfold IdeState.answer
  simp only [failed, if_true, interruptHandler_error failed, working.errorBuffer, Option.getD_none]
  exact ⟨⟨rfl, waits, told, rfl⟩, rfl⟩

theorem Working.next (working : state.Working) (step : state.next content event = some after) :
    if event.failed then after.Failed else after.Working := by
  cases event with
  | issue =>
      obtain ⟨⟨-, more⟩, same⟩ := Option.ite_none_right_eq_some.mp step
      cases same
      exact working.issue more
  | wake =>
      obtain ⟨⟨waits, told⟩, same⟩ := Option.ite_none_right_eq_some.mp step
      cases same
      exact working.wake waits told
  | answer status =>
      obtain ⟨more, same⟩ := Option.ite_none_right_eq_some.mp step
      cases same
      cases failed : isError status with
      | true =>
          rw [IdeEvent.failed, failed, if_pos rfl]
          exact working.fail more failed
      | false =>
          rw [IdeEvent.failed, failed, if_neg Bool.false_ne_true]
          exact working.answer more failed

/-- Nothing happens any more: no command is issued, no answer comes and no wait ends. -/
theorem Failed.next (failed : state.Failed) (event : IdeEvent) :
    state.next content event = none := by
  obtain ⟨-, waits, notTold, silent⟩ := failed.wedged
  cases event with
  | issue => exact if_neg fun both => by rw [waits] at both; exact Bool.noConfusion both.1
  | wake => exact if_neg fun both => by rw [notTold] at both; exact Bool.noConfusion both.2
  | answer status => exact if_neg (by omega)

theorem Working.follow (working : state.Working)
    (followed : Machine.follow (IdeState.next content) state events = some last) :
    (last.Working ∧ ∀ event ∈ events, event.failed = false) ∨
      (last.Failed ∧ ∃ event ∈ events, event.failed = true) := by
  induction events generalizing state with
  | nil =>
      cases followed
      exact .inl ⟨working, fun _ => nofun⟩
  | cons event events ih =>
      obtain ⟨middle, step, rest⟩ := Option.bind_eq_some_iff.mp followed
      have moved := working.next step
      cases failed : event.failed with
      | true =>
          rw [failed, if_pos rfl] at moved
          cases events with
          | nil =>
              cases rest
              exact .inr ⟨moved, event, List.mem_singleton_self event, failed⟩
          | cons second others =>
              rw [Machine.follow, moved.next second, Option.bind_none] at rest
              exact absurd rest.symm (Option.some_ne_none _)
      | false =>
          rw [failed, if_neg Bool.false_ne_true] at moved
          rcases ih moved rest with ⟨kept, fine⟩ | ⟨lost, one, member, isFailed⟩
          · exact .inl ⟨kept, List.forall_mem_cons.mpr ⟨failed, fine⟩⟩
          · exact .inr ⟨lost, one, List.mem_cons_of_mem _ member, isFailed⟩

end IdeState

/-- A read leaves the disk thread waiting for nothing exactly if the drive answered with an error,
and nothing is stored after an error. -/
theorem ideErrors_wedge_iff (content : Bytes) (address size : Nat) (events : List IdeEvent)
    (last : IdeState)
    (followed : Machine.follow (IdeState.next content) (IdeState.request address size) events =
      some last) :
    (¬ last.Wedged ↔ ∀ event ∈ events, event.failed = false) ∧ last.StopsReading := by
  rcases (IdeState.request_working address size).follow followed with
    ⟨working, fine⟩ | ⟨failed, event, member, isFailed⟩
  · refine ⟨⟨fun _ => fine, fun _ => working.not_wedged⟩, fun buffer same => ?_⟩
    rw [working.errorBuffer] at same
    exact absurd same.symm (Option.some_ne_none _)
  · refine ⟨⟨fun notWedged => absurd failed.wedged notWedged, fun fine => ?_⟩, fun buffer same => ?_⟩
    · rw [fine event member] at isFailed
      exact absurd isFailed Bool.false_ne_true
    · rw [failed.errorBuffer] at same
      exact Option.some.inj same

/-- The only sector of a read fails. -/
theorem ideErrors_wedge_iff_single : ∃ last,
    Machine.follow (IdeState.next fun _ => 0) (IdeState.request 0 512) [.issue, .answer 1] =
      some last ∧ ¬ (¬ last.Wedged ∧ last.StopsReading) := by
  refine ⟨((IdeState.request 0 512).issue).answer (fun _ => 0) 1, rfl, fun both => ?_⟩
  have all := ideErrors_wedge_iff (fun _ => 0) 0 512 [.issue, .answer 1] _ rfl
  exact absurd (all.1.mp both.1 (.answer 1) (by simp)) (by decide)

/-- The issuer goes on, the disk thread does not. -/
theorem failedRead_wedges : ∃ last,
    Machine.follow (IdeState.next fun _ => 0) (IdeState.request 0 512) [.issue, .answer 1] =
      some last ∧ last.Wedged :=
  ⟨((IdeState.request 0 512).issue).answer (fun _ => 0) 1, rfl, rfl, rfl, rfl, rfl⟩

end DoggOS.Dev

/-
Runs of threads and switches between them.

Between two switches the running thread does what it likes, but it does not
write the stack of a suspended thread, and a thread may be created with a
prepared stack or given up.  A switch records the context of the running thread
and hands over to the next one.  Every suspended thread keeps its frame until it
is resumed, so it finds the context that it had at its `int 38`.
-/

import DoggOS.Library.Machine
import DoggOS.Proc.ContextFrames

namespace DoggOS.Proc

open X86 SwitchLayout

structure Switching where
  cpu : Cpu
  saved : Word → Option Context
  resumed : Option Context

inductive SwitchTurn where
  | run
  | switch

structure SwitchLayout.Frame (layout : SwitchLayout) (stack : Word → Prop) (mem : Memory)
    (start kernelStackOffset : Word) (context : Context) : Prop where
  found : frameContext mem start context.esp = context
  bottom : context.esp + layout.offset context.cr3 kernelStackOffset = start + 56
  inside : ∀ byte : Word, (byte - (start - 4)).toNat < 60 → stack byte
  seen : layout.Seen context.cr3 (context.esp - 60) (layout.offset context.cr3 kernelStackOffset) 60

namespace Switching

variable (layout : SwitchLayout) (stack : Word → Word → Prop)

def suspended (state : Switching) : Word → Option Context :=
  Function.update state.saved state.cpu.currentThread (some state.cpu.toContext)

/-- The running thread has room on its own stack, and the next thread can be resumed. -/
structure Ready (state : Switching) : Prop where
  room : ∀ byte : Word, (byte - (layout.kernelEsp state.cpu - 60)).toNat < 60 →
    stack state.cpu.currentThread byte
  seen : layout.Seen state.cpu.cr3 (state.cpu.esp - 60)
    (layout.offset state.cpu.cr3 (state.cpu.kernelStackOffset state.cpu.currentThread)) 60
  next : state.suspended (layout.target state.cpu) ≠ none

def Untouched (thread : Word) (before after : Switching) : Prop :=
  after.saved thread = before.saved thread ∧
    (∀ byte, stack thread byte → after.cpu.mem byte = before.cpu.mem byte) ∧
    after.cpu.currentSp thread = before.cpu.currentSp thread ∧
    after.cpu.kernelStackOffset thread = before.cpu.kernelStackOffset thread

def HasFrame (state : Switching) (thread : Word) (context : Context) : Prop :=
  layout.Frame (stack thread) state.cpu.mem (state.cpu.currentSp thread)
    (state.cpu.kernelStackOffset thread) context

/-- A thread whose stack was prepared, as `k_proc_CreateThread` does it. -/
def Created (thread : Word) (before after : Switching) : Prop :=
  before.saved thread = none ∧
    ∃ context, after.saved thread = some context ∧ after.HasFrame layout stack thread context

def machine : Machine Switching SwitchTurn where
  start state := state.saved = (fun _ => none) ∧ state.resumed = none
  step before turn after :=
    match turn with
    | .run => after.resumed = none ∧ after.cpu.currentThread = before.cpu.currentThread ∧
        ∀ thread, after.saved thread = none ∨ Untouched stack thread before after ∨
          Created layout stack thread before after
    | .switch => before.Ready layout stack ∧ layout.switchThread before.cpu = some after.cpu ∧
        after.saved = Function.update before.suspended (layout.target before.cpu) none ∧
        after.resumed = before.suspended (layout.target before.cpu)

def Framed (state : Switching) : Prop :=
  ∀ thread context, state.saved thread = some context → state.HasFrame layout stack thread context

variable {layout stack} {before after : Switching}

theorem HasFrame.keep {thread : Word} {context : Context}
    (frame : before.HasFrame layout stack thread context)
    (untouched : Untouched stack thread before after) :
    after.HasFrame layout stack thread context := by
  obtain ⟨_, memory, pointer, distance⟩ := untouched
  unfold HasFrame
  rw [pointer, distance]
  refine ⟨?_, frame.bottom, frame.inside, frame.seen⟩
  rw [← frame.found]
  apply frameContext_congr
  intro byte near
  exact memory byte (frame.inside byte (by bv_omega))

theorem run_framed (framed : before.Framed layout stack)
    (run : ∀ thread, after.saved thread = none ∨ Untouched stack thread before after ∨
      Created layout stack thread before after) : after.Framed layout stack := by
  intro thread context suspended
  rcases run thread with gone | untouched | ⟨_, prepared, recorded, frame⟩
  · rw [gone] at suspended
    cases suspended
  · rw [untouched.1] at suspended
    exact (framed thread context suspended).keep untouched
  · rw [recorded] at suspended
    cases suspended
    exact frame

theorem suspended_frame (apart : ∀ t u byte, stack t byte → stack u byte → t = u)
    (framed : before.Framed layout stack) (ready : before.Ready layout stack)
    {thread : Word} {context : Context} (suspended : before.suspended thread = some context) :
    layout.Frame (stack thread) (layout.savedMem before.cpu) (layout.savedSp before.cpu thread)
      (before.cpu.kernelStackOffset thread) context := by
  unfold Switching.suspended at suspended
  unfold savedSp
  by_cases running : thread = before.cpu.currentThread
  · rw [running, Function.update_self] at suspended
    cases suspended
    rw [running, Function.update_self]
    refine ⟨frameContext_saved, ?_, ?_, ready.seen⟩
    · unfold kernelEsp
      bv_omega
    · intro byte near
      exact ready.room byte (by bv_omega)
  · rw [Function.update_of_ne running] at suspended
    rw [Function.update_of_ne running]
    have frame := framed thread context suspended
    refine ⟨?_, frame.bottom, frame.inside, frame.seen⟩
    rw [← frame.found]
    apply frameContext_congr
    intro byte near
    apply savedMem_outside
    apply Nat.le_of_not_lt
    intro inRoom
    exact running (apart _ _ byte (frame.inside byte (by bv_omega)) (ready.room byte inRoom))

/-- A switch to a suspended thread has a result, and its registers are those that were saved. -/
theorem switchThread_resumes (direct : layout.Direct)
    (apart : ∀ t u byte, stack t byte → stack u byte → t = u)
    (framed : before.Framed layout stack) (ready : before.Ready layout stack) {context : Context}
    (next : before.suspended (layout.target before.cpu) = some context) :
    layout.switchThread before.cpu = some { before.cpu with
      toContext := context
      mem := enteredFrame (layout.savedMem before.cpu)
        (layout.savedSp before.cpu (layout.target before.cpu)) layout.afterEnter
      currentThread := layout.target before.cpu
      nextThread := 0
      currentSp := layout.savedSp before.cpu
      tssEsp0 := before.cpu.startSp (layout.target before.cpu) } := by
  have frame := suspended_frame apart framed ready next
  have pmap : load (layout.savedMem before.cpu)
      (layout.savedSp before.cpu (layout.target before.cpu)) = context.cr3 :=
    congrArg Context.cr3 frame.found
  have bottom := frame.bottom
  have seen := frame.seen
  have base : context.esp - 60 = layout.savedSp before.cpu (layout.target before.cpu) - 4 -
      layout.offset context.cr3 (before.cpu.kernelStackOffset (layout.target before.cpu)) := by
    bv_omega
  have esp : layout.savedSp before.cpu (layout.target before.cpu) + 56 -
      layout.offset context.cr3 (before.cpu.kernelStackOffset (layout.target before.cpu)) =
        context.esp := by bv_omega
  rw [base] at seen
  have switched := switchThread_eq direct ready.seen rfl (congrArg
    (fun pmap => layout.offset pmap (before.cpu.kernelStackOffset (layout.target before.cpu)))
    pmap.symm) (by rw [pmap]; exact seen)
  rw [esp, frame.found] at switched
  exact switched

theorem switch_framed (direct : layout.Direct)
    (apart : ∀ t u byte, stack t byte → stack u byte → t = u)
    (framed : before.Framed layout stack) (ready : before.Ready layout stack)
    (switched : layout.switchThread before.cpu = some after.cpu)
    (recorded : after.saved = Function.update before.suspended (layout.target before.cpu) none) :
    after.Framed layout stack := by
  intro thread context suspended
  rw [recorded] at suspended
  by_cases resumed : thread = layout.target before.cpu
  · rw [resumed, Function.update_self] at suspended
    cases suspended
  · rw [Function.update_of_ne resumed] at suspended
    have frame := suspended_frame apart framed ready suspended
    cases next : before.suspended (layout.target before.cpu) with
    | none => exact absurd next ready.next
    | some target =>
        have entered := suspended_frame apart framed ready next
        rw [switchThread_resumes direct apart framed ready next] at switched
        unfold HasFrame
        rw [← Option.some.inj switched]
        refine ⟨?_, frame.bottom, frame.inside, frame.seen⟩
        refine Eq.trans ?_ frame.found
        apply frameContext_congr
        intro byte near
        apply enteredFrame_outside
        apply Nat.le_of_not_lt
        intro inFrame
        exact resumed (apart _ _ byte (frame.inside byte (by bv_omega)) (entered.inside byte inFrame))

structure Consistent (layout : SwitchLayout) (stack : Word → Word → Prop) (state : Switching) :
    Prop where
  framed : state.Framed layout stack
  resumed : ∀ context, state.resumed = some context → state.cpu.toContext = context

theorem Consistent.step (direct : layout.Direct)
    (apart : ∀ t u byte, stack t byte → stack u byte → t = u) {turn : SwitchTurn}
    (consistent : before.Consistent layout stack)
    (step : (machine layout stack).step before turn after) : after.Consistent layout stack := by
  cases turn with
  | run =>
      obtain ⟨none, _, kept⟩ := step
      constructor
      · exact run_framed consistent.framed kept
      · intro context resumed
        rw [none] at resumed
        cases resumed
  | switch =>
      obtain ⟨ready, switched, recorded, resumed⟩ := step
      constructor
      · exact switch_framed direct apart consistent.framed ready switched recorded
      · intro context found
        rw [resumed] at found
        rw [switchThread_resumes direct apart consistent.framed ready found] at switched
        rw [← Option.some.inj switched]

theorem reachable_consistent (direct : layout.Direct)
    (apart : ∀ t u byte, stack t byte → stack u byte → t = u) {state : Switching}
    (reachable : (machine layout stack).Reachable state) : state.Consistent layout stack := by
  apply (machine layout stack).invariant _ _ reachable
  · intro first initial
    obtain ⟨saved, resumed⟩ := initial
    constructor
    · intro thread context suspended
      rw [saved] at suspended
      cases suspended
    · intro context found
      rw [resumed] at found
      cases found
  · intro before turn after consistent step
    exact consistent.step direct apart step

/-- Every switch to a suspended thread comes back, and the thread finds what it had at its `int 38`. -/
theorem switchThread_roundTrip (direct : layout.Direct)
    (apart : ∀ t u byte, stack t byte → stack u byte → t = u) {state : Switching}
    (reachable : (machine layout stack).Reachable state) :
    (∀ context, state.resumed = some context → state.cpu.toContext = context) ∧
      (state.Ready layout stack → ∃ cpu, layout.switchThread state.cpu = some cpu) := by
  have consistent := reachable_consistent direct apart reachable
  refine ⟨consistent.resumed, ?_⟩
  intro ready
  cases next : state.suspended (layout.target state.cpu) with
  | none => exact absurd next ready.next
  | some context =>
      exact ⟨_, switchThread_resumes direct apart consistent.framed ready next⟩

def shiftedLayout : SwitchLayout where
  place pmap address := if pmap = 1 then address else address + 0x1000
  kernelPmap := 1
  coreState := 0x100
  tss := 0x200
  afterExit := 0x300
  afterEnter := 0x304

def shiftedStack (thread byte : Word) : Prop := byte.toNat / 65536 = thread.toNat

def twoThreads : Cpu where
  eax := 11
  ebx := 12
  ecx := 13
  edx := 14
  esi := 15
  edi := 16
  ebp := 17
  esp := 0x10800
  ds := 16
  es := 16
  fs := 16
  cs := 8
  eip := 0x400
  eflags := 0x202
  cr3 := 1
  mem := fun _ => 0
  currentThread := 1
  nextThread := 2
  currentSp := fun _ => 0x20800
  startSp := fun _ => 0x20ffc
  kernelStackOffset := fun _ => 0x1000
  tssEsp0 := 0

def emptyContext : Context := frameContext (fun _ => 0) 0x20800 0x1f838

theorem switchThread_roundTrip_two : ∃ after,
    (machine shiftedLayout shiftedStack).Reachable after ∧ after.resumed = some emptyContext ∧
      after.cpu.toContext = emptyContext := by
  have direct : shiftedLayout.Direct := fun _ => rfl
  have apart : ∀ t u byte, shiftedStack t byte → shiftedStack u byte → t = u := by
    intro t u byte first second
    exact BitVec.eq_of_toNat_eq (first.symm.trans second)
  have seen : ∀ base : Word, ∀ size : Nat, shiftedLayout.Seen 1 base 0 size := by
    intro base size address _
    exact (BitVec.add_zero address).symm
  have shifted : ∀ base : Word, ∀ size : Nat, shiftedLayout.Seen 0 base 0x1000 size := by
    intro base size address _
    rfl
  have first := (machine shiftedLayout shiftedStack).reachable_start
    (show (machine shiftedLayout shiftedStack).start ⟨twoThreads, fun _ => none, none⟩ from ⟨rfl, rfl⟩)
  have created : (machine shiftedLayout shiftedStack).step ⟨twoThreads, fun _ => none, none⟩ .run
      ⟨twoThreads, Function.update (fun _ => none) 2 (some emptyContext), none⟩ := by
    refine ⟨rfl, rfl, ?_⟩
    intro thread
    by_cases second : thread = 2
    · refine .inr (.inr ⟨rfl, emptyContext, ?_, rfl, rfl, ?_, ?_⟩)
      · rw [second]
        rfl
      · intro byte near
        rw [second]
        change (byte - (0x20800 - 4)).toNat < 60 at near
        change byte.toNat / 65536 = 2
        bv_omega
      · exact shifted _ _
    · exact .inl (Function.update_of_ne second (some emptyContext) fun _ => none)
  have prepared := Machine.reachable_step _ first created
  have ready : Ready shiftedLayout shiftedStack
      ⟨twoThreads, Function.update (fun _ => none) 2 (some emptyContext), none⟩ := by
    refine ⟨?_, seen _ _, ?_⟩
    · intro byte near
      change (byte - 0x107c4).toNat < 60 at near
      change byte.toNat / 65536 = 1
      bv_omega
    · exact Option.some_ne_none emptyContext
  obtain ⟨cpu, switched⟩ := (switchThread_roundTrip direct apart prepared).2 ready
  have resumed := Machine.reachable_step _ prepared
    (show (machine shiftedLayout shiftedStack).step _ .switch
      ⟨cpu, _, some emptyContext⟩ from ⟨ready, switched, rfl, rfl⟩)
  exact ⟨_, resumed, rfl, (switchThread_roundTrip direct apart resumed).1 _ rfl⟩

end Switching

end DoggOS.Proc

/-
An interrupted thread goes on as it was.

The stub of a vector saves the registers of the running thread, calls the handler
that was installed last in the address space of the kernel, and restores them.
Interrupts, switches between threads and calls that change the tables come in any
order; the interrupt of a thread never shows in its registers.
-/

import DoggOS.Irq.InterruptRoutes
import DoggOS.Proc.ContextRuns

namespace DoggOS.Irq

open X86 Proc SwitchLayout

/-- What `k_irq_DispatchIRQ` and the handler that it calls do to the core. -/
abbrev IrqBody := Nat → Option IrqHandler → Cpu → Cpu

section Stub

variable (layout : SwitchLayout)

/-- The stub of a vector and `k_irq_DispatchIRQ_a`. -/
def irqStub (tables : IrqTables) (body : IrqBody) (vector : Word) (cpu : Cpu) : Option Cpu :=
  (layout.call layout.exitThreadContext layout.afterExit cpu).bind fun cpu =>
    let cpu := { cpu with eax := vector }
    let cpu := layout.push cpu cpu.eax
    let number := (layout.top cpu).toNat
    let cpu := body number (tables.dispatchIRQ number) cpu
    let cpu := { cpu with eax := layout.top cpu, esp := cpu.esp + 4 }
    (layout.call layout.enterThreadContext layout.afterEnter cpu).map layout.iret

/-- An interrupt of the running thread in ring 0, where it goes to a stub. -/
def interruptThread (code : IrqCode) (tss : Word) (tables : IrqTables) (body : IrqBody)
    (vector : Nat) (cpu : Cpu) : Option Cpu :=
  match tables.raise code (procSegments tss) 0 false vector with
  | .shared number _ _ =>
      irqStub layout tables body (BitVec.ofNat 32 number) (layout.interrupt cpu)
  | _ => none

/-- The core at the call of `k_irq_DispatchIRQ`. -/
def dispatchCore (vector : Nat) (cpu : Cpu) : Cpu :=
  { cpu with
    eax := BitVec.ofNat 32 vector
    cr3 := layout.kernelPmap
    esp := layout.kernelEsp cpu - 60
    eip := layout.afterExit
    mem := store (layout.savedMem cpu) (layout.kernelEsp cpu - 60) (BitVec.ofNat 32 vector) }

/-- What compiled code gives back: the stack pointer, the page map and the running thread, the stacks
of the other threads, and the frame above its argument. -/
structure GivesBack (stack : Word → Word → Prop) (cpu after : Cpu) : Prop where
  esp : after.esp = cpu.esp
  cr3 : after.cr3 = cpu.cr3
  currentThread : after.currentThread = cpu.currentThread
  kernelStackOffset : ∀ thread, after.kernelStackOffset thread = cpu.kernelStackOffset thread
  currentSp : ∀ thread, thread ≠ cpu.currentThread → after.currentSp thread = cpu.currentSp thread
  frame : ∀ byte : Word, (byte - (cpu.esp + 4)).toNat < 56 → after.mem byte = cpu.mem byte
  others : ∀ thread byte, thread ≠ cpu.currentThread → stack thread byte →
    after.mem byte = cpu.mem byte

/-- The code does so in kernel space, with `depth` bytes of stack below its argument. -/
def IrqBody.Conforms (stack : Word → Word → Prop) (depth : Nat) (body : IrqBody) : Prop :=
  ∀ vector called cpu, cpu.cr3 = layout.kernelPmap →
    (∀ byte : Word, (byte - (cpu.esp - BitVec.ofNat 32 depth)).toNat < depth →
      stack cpu.currentThread byte) → GivesBack stack cpu (body vector called cpu)

/-- There is room for the frame of an interrupt and its handler on the stack of the running
thread. -/
structure Interruptible (stack : Word → Word → Prop) (depth : Nat) (cpu : Cpu) : Prop where
  fits : 60 + depth < 2 ^ 32
  room : ∀ byte : Word,
    (byte - (layout.kernelEsp cpu - BitVec.ofNat 32 (60 + depth))).toNat < 60 + depth →
      stack cpu.currentThread byte
  seen : layout.Seen cpu.cr3 (cpu.esp - 60)
    (layout.offset cpu.cr3 (cpu.kernelStackOffset cpu.currentThread)) 60

variable {layout} {stack : Word → Word → Prop} {depth : Nat} {tables : IrqTables} {body : IrqBody} {cpu : Cpu}
  {vector : Nat}

def returnedCore (layout : SwitchLayout) (cpu handled : Cpu) : Cpu :=
  { handled with
    toContext := cpu.toContext
    mem := enteredFrame handled.mem (layout.kernelEsp cpu - 56) layout.afterEnter }

theorem handler_givesBack (conforms : body.Conforms layout stack depth)
    (ready : Interruptible layout stack depth cpu) (vector : Nat) (called : Option IrqHandler) :
    GivesBack stack (dispatchCore layout vector cpu)
      (body vector called (dispatchCore layout vector cpu)) := by
  have fits := ready.fits
  apply conforms vector called _ rfl
  intro byte inside
  apply ready.room
  change (byte - (layout.kernelEsp cpu - 60 - BitVec.ofNat 32 depth)).toNat < depth at inside
  bv_omega

theorem irqStub_eq (direct : layout.Direct) (small : vector < 2 ^ 32)
    (conforms : body.Conforms layout stack depth) (ready : Interruptible layout stack depth cpu) :
    irqStub layout tables body (BitVec.ofNat 32 vector) (layout.interrupt cpu) =
      some (returnedCore layout cpu
        (body vector (tables.dispatchIRQ vector) (dispatchCore layout vector cpu))) := by
  have saved := exit_eq direct ready.seen
  -- The push of the vector takes the place of the stub's return address.
  have pushed : layout.push { cpu with
      eax := BitVec.ofNat 32 vector
      cr3 := layout.kernelPmap
      esp := layout.kernelEsp cpu - 56
      eip := layout.afterExit
      mem := layout.savedMem cpu } (BitVec.ofNat 32 vector) = dispatchCore layout vector cpu := by
    have wide : layout.Seen layout.kernelPmap (layout.kernelEsp cpu - 56 - 4) 0 4 := by
      intro address _
      rw [direct]
      exact (BitVec.add_zero address).symm
    have place : layout.kernelEsp cpu - 56 - 4 = layout.kernelEsp cpu - 60 := by bv_omega
    have unmoved : layout.kernelEsp cpu - 60 + 0 = layout.kernelEsp cpu - 60 := BitVec.add_zero _
    unfold push dispatchCore
    rw [@Seen.write_eq layout { cpu with
      eax := BitVec.ofNat 32 vector
      cr3 := layout.kernelPmap
      esp := layout.kernelEsp cpu - 56 - 4
      eip := layout.afterExit
      mem := layout.savedMem cpu } _ 0 _ _ 4 wide (by bv_omega)]
    simp only [place, unmoved]
  have number : (layout.top (dispatchCore layout vector cpu)).toNat = vector := by
    have loaded := read_direct direct (show (dispatchCore layout vector cpu).cr3 =
      layout.kernelPmap from rfl) (dispatchCore layout vector cpu).esp
    unfold top
    rw [loaded]
    unfold dispatchCore
    rw [load_store]
    exact Nat.mod_eq_of_lt small
  obtain ⟨handled, isHandled⟩ : ∃ handled,
      body vector (tables.dispatchIRQ vector) (dispatchCore layout vector cpu) = handled := ⟨_, rfl⟩
  have given := handler_givesBack conforms ready vector (tables.dispatchIRQ vector)
  have esp := given.esp
  have cr3 := given.cr3
  have thread := given.currentThread
  have distance := given.kernelStackOffset cpu.currentThread
  have frame := given.frame
  rw [isHandled] at esp cr3 thread distance frame ⊢
  have steps : irqStub layout tables body (BitVec.ofNat 32 vector) (layout.interrupt cpu) =
      (layout.call layout.enterThreadContext layout.afterEnter
        { handled with eax := layout.top handled, esp := handled.esp + 4 }).map layout.iret := by
    have unfolded : ∀ before, irqStub layout tables body (BitVec.ofNat 32 vector) before =
        (layout.call layout.exitThreadContext layout.afterExit before).bind fun cpu =>
          let cpu := layout.push { cpu with eax := BitVec.ofNat 32 vector } (BitVec.ofNat 32 vector)
          let number := (layout.top cpu).toNat
          let cpu := body number (tables.dispatchIRQ number) cpu
          let cpu := { cpu with eax := layout.top cpu, esp := cpu.esp + 4 }
          (layout.call layout.enterThreadContext layout.afterEnter cpu).map layout.iret :=
      fun _ => rfl
    rw [unfolded, saved, Option.bind_some]
    change (let cpu := layout.push { cpu with
      eax := BitVec.ofNat 32 vector
      cr3 := layout.kernelPmap
      esp := layout.kernelEsp cpu - 56
      eip := layout.afterExit
      mem := layout.savedMem cpu } (BitVec.ofNat 32 vector)
      let number := (layout.top cpu).toNat
      let cpu := body number (tables.dispatchIRQ number) cpu
      let cpu := { cpu with eax := layout.top cpu, esp := cpu.esp + 4 }
      (layout.call layout.enterThreadContext layout.afterEnter cpu).map layout.iret) = _
    rw [pushed]
    simp only [number, isHandled]
  have start : handled.esp + 4 = layout.kernelEsp cpu - 56 := by
    rw [esp]
    unfold dispatchCore
    bv_omega
  have context : frameContext handled.mem (layout.kernelEsp cpu - 56) cpu.esp = cpu.toContext := by
    have found := @frameContext_saved cpu.mem (layout.kernelEsp cpu) layout.afterExit cpu.toContext
    refine Eq.trans ?_ found
    apply frameContext_congr
    intro byte inside
    rw [frame byte (by unfold dispatchCore; bv_omega)]
    exact store_outside (by bv_omega)
  have pmap : load handled.mem (layout.kernelEsp cpu - 56) = cpu.cr3 :=
    congrArg Context.cr3 context
  have bottom : layout.kernelEsp cpu = cpu.esp +
      layout.offset cpu.cr3 (cpu.kernelStackOffset cpu.currentThread) := rfl
  have entered := @enter_eq layout
    { handled with eax := layout.top handled, esp := layout.kernelEsp cpu - 56 }
    (layout.offset cpu.cr3 (cpu.kernelStackOffset cpu.currentThread)) direct cr3
    (by
      rw [pmap]
      have base : layout.kernelEsp cpu - 56 - 4 -
          layout.offset cpu.cr3 (cpu.kernelStackOffset cpu.currentThread) = cpu.esp - 60 := by
        bv_omega
      rw [base]
      exact ready.seen)
    (by
      rw [pmap, thread]
      exact congrArg (layout.offset cpu.cr3) distance.symm)
  have stack : layout.kernelEsp cpu - 56 + 56 -
      layout.offset cpu.cr3 (cpu.kernelStackOffset cpu.currentThread) = cpu.esp := by bv_omega
  rw [steps, start, entered, stack, context]
  rfl

end Stub

structure IrqCore where
  switching : Switching
  calls : List IrqCall

inductive IrqTurn where
  | thread (turn : SwitchTurn)
  | install (call : IrqCall)
  | interrupt (vector : Nat)

namespace IrqCore

variable (layout : SwitchLayout) (stack : Word → Word → Prop) (depth : Nat) (code : IrqCode)
  (tss : Word) (body : IrqBody)

def machine : Machine IrqCore IrqTurn where
  start state := (Switching.machine layout stack).start state.switching ∧ state.calls = []
  step before turn after :=
    match turn with
    | .thread turn =>
        (Switching.machine layout stack).step before.switching turn after.switching ∧
          after.calls = before.calls
    | .install call => after.switching = { before.switching with resumed := none } ∧
        after.calls = before.calls ++ [call]
    | .interrupt vector => Interruptible layout stack depth before.switching.cpu ∧ ∃ cpu,
        interruptThread layout code tss (IrqTables.run code before.calls) body vector
          before.switching.cpu = some cpu ∧
        after.switching = ⟨cpu, Function.update before.switching.saved
          before.switching.cpu.currentThread none, none⟩ ∧
        after.calls = before.calls

variable {layout stack depth code tss body} {before after state : IrqCore} {vector : Nat} {cpu last : Cpu}

theorem stubAt_small {address : Word} (found : stubAt code address = some vector) :
    vector < 2 ^ 32 := by
  unfold stubAt at found
  split at found
  · rw [irqJumpTable_eq] at found
    have member := List.mem_range'_1.mp (List.mem_of_getElem? found)
    omega
  · cases found

/-- An interrupt that returns went through a stub. -/
theorem interruptThread_eq (direct : layout.Direct) (conforms : body.Conforms layout stack depth)
    (ready : Interruptible layout stack depth cpu) {tables : IrqTables}
    (ran : interruptThread layout code tss tables body vector cpu = some last) :
    ∃ number, last = returnedCore layout cpu
      (body number (tables.dispatchIRQ number) (dispatchCore layout number cpu)) := by
  unfold interruptThread at ran
  cases raised : tables.raise code (procSegments tss) 0 false vector with
  | fault =>
      rw [raised] at ran
      cases ran
  | direct address ring =>
      rw [raised] at ran
      cases ran
  | shared number called ring =>
      have small : number < 2 ^ 32 := by
        unfold IrqTables.raise IrqTables.target at raised
        split at raised
        · cases raised
        · split at raised
          · cases raised
          · rename_i found
            cases raised
            exact stubAt_small found
      rw [raised] at ran
      dsimp only at ran
      rw [irqStub_eq direct small conforms ready] at ran
      exact ⟨number, (Option.some.inj ran).symm⟩

theorem interrupt_isRun (direct : layout.Direct)
    (apart : ∀ t u byte, stack t byte → stack u byte → t = u) (conforms : body.Conforms layout stack depth)
    (step : (machine layout stack depth code tss body).step before (.interrupt vector) after) :
    (Switching.machine layout stack).step before.switching .run after.switching := by
  obtain ⟨ready, last, ran, isAfter, _⟩ := step
  obtain ⟨number, isLast⟩ := interruptThread_eq direct conforms ready ran
  rw [isAfter, isLast]
  have fits := ready.fits
  have given := handler_givesBack conforms ready number
    ((IrqTables.run code before.calls).dispatchIRQ number)
  refine ⟨rfl, given.currentThread, ?_⟩
  intro thread
  by_cases running : thread = before.switching.cpu.currentThread
  · left
    rw [running]
    exact Function.update_self _ _ _
  · right
    left
    refine ⟨Function.update_of_ne running _ _, ?_, given.currentSp thread running,
      given.kernelStackOffset thread⟩
    intro byte onStack
    have outside : 60 ≤ (byte - (layout.kernelEsp before.switching.cpu - 60)).toNat := by
      apply Nat.le_of_not_lt
      intro inRoom
      exact running (apart _ _ byte onStack (ready.room byte (by bv_omega)))
    change enteredFrame _ (layout.kernelEsp before.switching.cpu - 56) layout.afterEnter byte = _
    rw [enteredFrame_outside (by bv_omega), given.others thread byte running onStack]
    change store (layout.savedMem before.switching.cpu) _ _ byte = _
    rw [store_outside (by bv_omega), savedMem_outside outside]

theorem reachable_switching (direct : layout.Direct)
    (apart : ∀ t u byte, stack t byte → stack u byte → t = u) (conforms : body.Conforms layout stack depth)
    (reachable : (machine layout stack depth code tss body).Reachable state) :
    (Switching.machine layout stack).Reachable state.switching := by
  apply (machine layout stack depth code tss body).invariant _ _ reachable
  · intro first initial
    exact Machine.reachable_start _ initial.1
  · intro before turn after switching step
    rcases turn with turn | call | vector
    · exact Machine.reachable_step _ switching step.1
    · have quiet : (Switching.machine layout stack).step before.switching .run
          { before.switching with resumed := none } :=
        ⟨rfl, rfl, fun _ => .inr (.inl ⟨rfl, fun _ _ => rfl, rfl, rfl⟩)⟩
      rw [step.1]
      exact Machine.reachable_step _ switching quiet
    · exact Machine.reachable_step _ switching (interrupt_isRun direct apart conforms step)

/-- What an interrupt of the running thread does: the handler that was installed last is called,
and the thread has its registers back. -/
structure Unseen (layout : SwitchLayout) (stack : Word → Word → Prop) (depth : Nat)
    (code : IrqCode) (tss : Word) (body : IrqBody) (state : IrqCore) : Prop where
  resumed : ∀ context, state.switching.resumed = some context →
    state.switching.cpu.toContext = context
  returns : ∀ vector, 32 ≤ vector → vector < 256 → (∀ made ∈ state.calls, ¬ made.Puts vector) →
    Interruptible layout stack depth state.switching.cpu →
      ∃ last, interruptThread layout code tss (IrqTables.run code state.calls) body vector
        state.switching.cpu = some last ∧ last.toContext = state.switching.cpu.toContext ∧
        last = returnedCore layout state.switching.cpu
          (body vector
            ((IrqTables.installed vector state.calls).bind fun installed =>
              if installed.handler ≠ 0 then some installed else none)
            (dispatchCore layout vector state.switching.cpu))

theorem interrupts_unseen (direct : layout.Direct)
    (apart : ∀ t u byte, stack t byte → stack u byte → t = u) (conforms : body.Conforms layout stack depth)
    (reachable : (machine layout stack depth code tss body).Reachable state) :
    Unseen layout stack depth code tss body state := by
  have consistent := Switching.reachable_consistent direct apart
    (reachable_switching direct apart conforms reachable)
  refine ⟨consistent.resumed, ?_⟩
  intro vector from32 below quiet ready
  have called := @run_dispatches code state.calls vector from32 below quiet
  have ran := @irqStub_eq layout stack depth (IrqTables.run code state.calls) body
    state.switching.cpu vector direct (by omega) conforms ready
  rw [called] at ran
  have raised := @raise_shared code tss state.calls vector from32 below quiet 0 false
  refine ⟨_, Eq.trans ?_ ran, rfl, rfl⟩
  unfold interruptThread
  rw [raised]

def wordBody : IrqBody := fun _ called cpu =>
  { cpu with
    eax := (called.map IrqHandler.data).getD 0
    mem := store cpu.mem (cpu.esp - 4) cpu.ebp }

theorem wordBody_conforms : wordBody.Conforms Switching.shiftedLayout Switching.shiftedStack 4 := by
  intro vector called cpu _ room
  constructor
  · rfl
  · rfl
  · rfl
  · intro thread
    rfl
  · intro thread _
    rfl
  · intro byte inside
    exact store_outside (by bv_omega)
  · intro thread byte other onStack
    apply store_outside
    apply Nat.le_of_not_lt
    intro inWord
    apply other
    have here := room byte inWord
    exact BitVec.eq_of_toNat_eq (onStack.symm.trans here)

/-- Thread 1 is interrupted by the keyboard. -/
theorem interrupts_unseen_keyboard : ∃ last,
    interruptThread Switching.shiftedLayout ⟨fun _ => 0x1000, 0x2000⟩ 0x3000
        (IrqTables.run ⟨fun _ => 0x1000, 0x2000⟩ [.setInterruptHandler 33 0x4000 5]) wordBody 33
        Switching.twoThreads = some last ∧
      last.toContext = Switching.twoThreads.toContext := by
  have direct : Switching.shiftedLayout.Direct := fun _ => rfl
  have apart : ∀ t u byte, Switching.shiftedStack t byte → Switching.shiftedStack u byte →
      t = u := by
    intro t u byte first second
    exact BitVec.eq_of_toNat_eq (first.symm.trans second)
  have first := (machine Switching.shiftedLayout Switching.shiftedStack 4
    ⟨fun _ => 0x1000, 0x2000⟩ 0x3000 wordBody).reachable_start
      (show (machine Switching.shiftedLayout Switching.shiftedStack 4 ⟨fun _ => 0x1000, 0x2000⟩
        0x3000 wordBody).start ⟨⟨Switching.twoThreads, fun _ => none, none⟩, []⟩ from
          ⟨⟨rfl, rfl⟩, rfl⟩)
  have installed := Machine.reachable_step _ first
    (show (machine Switching.shiftedLayout Switching.shiftedStack 4 ⟨fun _ => 0x1000, 0x2000⟩
      0x3000 wordBody).step _ (.install (.setInterruptHandler 33 0x4000 5))
        ⟨⟨Switching.twoThreads, fun _ => none, none⟩, [.setInterruptHandler 33 0x4000 5]⟩ from
          ⟨rfl, rfl⟩)
  have ready : Interruptible Switching.shiftedLayout Switching.shiftedStack 4
      Switching.twoThreads := by
    refine ⟨by decide, ?_, ?_⟩
    · intro byte near
      change (byte - (0x10800 + 0 - 64)).toNat < 64 at near
      change byte.toNat / 65536 = 1
      bv_omega
    · intro address _
      exact (BitVec.add_zero address).symm
  obtain ⟨last, ran, context, _⟩ := (interrupts_unseen direct apart wordBody_conforms
    installed).returns 33 (by decide) (by decide) (by simp [IrqCall.Puts]) ready
  exact ⟨last, ran, context⟩

end IrqCore

end DoggOS.Irq

/-
The thread switch behind `int 38`, instruction by instruction.

Memory is the memory as the kernel page map shows it; `place` tells where an
address lies in it under a page map.  A thread record has the fields that the
switch uses.  The interrupt is taken in ring 0, so the processor pushes flags,
code segment and return address and no stack pointer.  The arithmetic flags are
left out between the interrupt and `iret`, which loads them.
-/

import DoggOS.Library.X86
import Mathlib.Logic.Function.Basic

namespace DoggOS.Proc

open X86

/-- What a thread must find again when it is resumed. -/
structure Context where
  eax : Word
  ebx : Word
  ecx : Word
  edx : Word
  esi : Word
  edi : Word
  ebp : Word
  esp : Word
  ds : BitVec 16
  es : BitVec 16
  fs : BitVec 16
  cs : BitVec 16
  eip : Word
  eflags : Word
  cr3 : Word
deriving DecidableEq

/-- The processor, memory, and the fields of `k_proc_core_state` and of the thread records. -/
structure Cpu extends Context where
  mem : Memory
  currentThread : Word
  nextThread : Word
  currentSp : Word → Word
  startSp : Word → Word
  kernelStackOffset : Word → Word
  tssEsp0 : Word

/-- Page maps and the addresses that the code names; the scheduler thread is inside the core state. -/
structure SwitchLayout where
  place : Word → Word → Word
  kernelPmap : Word
  coreState : Word
  tss : Word
  afterExit : Word
  afterEnter : Word

/-- The low half of a register, as `mov ax, ds` writes it. -/
def setLow (word : Word) (half : BitVec 16) : Word := word.extractLsb' 16 16 ++ half

def low (word : Word) : BitVec 16 := word.setWidth 16

namespace SwitchLayout

variable (layout : SwitchLayout)

def view (cpu : Cpu) : Memory := fun address => cpu.mem (layout.place cpu.cr3 address)

def read (cpu : Cpu) (address : Word) : Word := load (layout.view cpu) address

def write (cpu : Cpu) (address word : Word) : Cpu :=
  { cpu with
    mem := Function.update (Function.update (Function.update (Function.update cpu.mem
      (layout.place cpu.cr3 address) (byteOf word 0))
      (layout.place cpu.cr3 (address + 1)) (byteOf word 1))
      (layout.place cpu.cr3 (address + 2)) (byteOf word 2))
      (layout.place cpu.cr3 (address + 3)) (byteOf word 3) }

def push (cpu : Cpu) (word : Word) : Cpu :=
  layout.write { cpu with esp := cpu.esp - 4 } (cpu.esp - 4) word

def top (cpu : Cpu) : Word := layout.read cpu cpu.esp

def ret (cpu : Cpu) : Cpu := { cpu with eip := layout.top cpu, esp := cpu.esp + 4 }

/-- No result where the routine does not come back to the instruction after the call. -/
def call (routine : Cpu → Cpu) (back : Word) (cpu : Cpu) : Option Cpu :=
  let after := routine (layout.push cpu back)
  if after.eip = back then some after else none

/-- What the processor does for `int` in ring 0. -/
def interrupt (cpu : Cpu) : Cpu :=
  let cpu := layout.push cpu cpu.eflags
  let cpu := layout.push cpu (setLow 0 cpu.cs)
  layout.push cpu cpu.eip

def iret (cpu : Cpu) : Cpu :=
  { cpu with
    eip := layout.read cpu cpu.esp
    cs := low (layout.read cpu (cpu.esp + 4))
    eflags := layout.read cpu (cpu.esp + 8)
    esp := cpu.esp + 12 }

/-- The first part of `k_proc_ExitThreadContext`: everything is saved. -/
def saveContext (cpu : Cpu) : Cpu :=
  let cpu := layout.push cpu cpu.ebx
  let cpu := { cpu with ebx := layout.read cpu (cpu.esp + 4) }
  let cpu := layout.write cpu (cpu.esp + 4) cpu.eax
  let cpu := layout.push cpu cpu.ecx
  let cpu := layout.push cpu cpu.edx
  let cpu := layout.push cpu cpu.edi
  let cpu := layout.push cpu cpu.esi
  let cpu := layout.push cpu cpu.ebp
  let cpu := { cpu with eax := 0 }
  let cpu := { cpu with eax := setLow cpu.eax cpu.ds }
  let cpu := layout.push cpu cpu.eax
  let cpu := { cpu with eax := setLow cpu.eax cpu.es }
  let cpu := layout.push cpu cpu.eax
  let cpu := { cpu with eax := setLow cpu.eax cpu.fs }
  let cpu := layout.push cpu cpu.eax
  let cpu := { cpu with eax := cpu.cr3 }
  let cpu := layout.push cpu cpu.eax
  layout.push cpu cpu.ebx

/-- The branch of `k_proc_ExitThreadContext` that leaves the page map of the thread. -/
def enterKernelSpace (cpu : Cpu) : Cpu :=
  let cpu := { cpu with ebx := layout.kernelPmap }
  if cpu.ebx = cpu.eax then cpu
  else
    let cpu := { cpu with cr3 := cpu.ebx }
    let cpu := { cpu with ebx := cpu.currentThread }
    { cpu with esp := cpu.esp + cpu.kernelStackOffset cpu.ebx }

def exitThreadContext (cpu : Cpu) : Cpu :=
  let cpu := layout.saveContext cpu
  let cpu := layout.enterKernelSpace cpu
  let cpu := { cpu with eax := layout.read cpu (cpu.esp + 44) }
  let cpu := { cpu with ebx := layout.read cpu (cpu.esp + 40) }
  layout.ret cpu

/-- The branch of `k_proc_EnterThreadContext` that goes to the page map in `ecx`. -/
def exitKernelSpace (cpu : Cpu) : Cpu :=
  if cpu.ecx = layout.kernelPmap then cpu
  else
    let cpu := { cpu with ebx := cpu.currentThread }
    let cpu := { cpu with esp := cpu.esp - cpu.kernelStackOffset cpu.ebx }
    { cpu with cr3 := cpu.ecx }

/-- The last part of `k_proc_EnterThreadContext`: everything is restored. -/
def restoreContext (cpu : Cpu) : Cpu :=
  let cpu := { cpu with ebx := layout.top cpu, esp := cpu.esp + 4 }
  let cpu := { cpu with fs := low cpu.ebx }
  let cpu := { cpu with ebx := layout.top cpu, esp := cpu.esp + 4 }
  let cpu := { cpu with es := low cpu.ebx }
  let cpu := { cpu with ebx := layout.top cpu, esp := cpu.esp + 4 }
  let cpu := { cpu with ds := low cpu.ebx }
  let cpu := { cpu with ebp := layout.top cpu, esp := cpu.esp + 4 }
  let cpu := { cpu with esi := layout.top cpu, esp := cpu.esp + 4 }
  let cpu := { cpu with edi := layout.top cpu, esp := cpu.esp + 4 }
  let cpu := { cpu with edx := layout.top cpu, esp := cpu.esp + 4 }
  let cpu := { cpu with ecx := layout.top cpu, esp := cpu.esp + 4 }
  let cpu := { cpu with ebx := layout.top cpu, esp := cpu.esp + 4 }
  let cpu := layout.write cpu (cpu.esp - 4) cpu.eax
  let cpu := { cpu with eax := layout.top cpu, esp := cpu.esp + 4 }
  layout.push cpu (layout.read cpu (cpu.esp - 8))

def enterThreadContext (cpu : Cpu) : Cpu :=
  let cpu := { cpu with eax := layout.top cpu, esp := cpu.esp + 4 }
  let cpu := { cpu with ecx := layout.top cpu, esp := cpu.esp + 4 }
  let cpu := layout.exitKernelSpace cpu
  let cpu := layout.restoreContext cpu
  layout.ret cpu

/-- `k_proc_PreemptThread_a` between its two calls: the next thread becomes the current one. -/
def swapThreads (cpu : Cpu) : Cpu :=
  let cpu := { cpu with edx := layout.coreState }
  let cpu := { cpu with ecx := cpu.currentThread }
  let cpu := { cpu with currentSp := Function.update cpu.currentSp cpu.ecx cpu.esp }
  let cpu := { cpu with ebx := cpu.nextThread }
  let cpu := if cpu.ebx = 0 then { cpu with ebx := cpu.edx + 12 } else cpu
  let cpu := { cpu with currentThread := cpu.ebx }
  let cpu := { cpu with nextThread := 0 }
  let cpu := { cpu with ecx := cpu.startSp cpu.ebx }
  let cpu := { cpu with eax := layout.tss }
  let cpu := { cpu with tssEsp0 := cpu.ecx }
  { cpu with esp := cpu.currentSp cpu.ebx }

/-- `int 38`, up to the instruction after the `iret`. -/
def switchThread (cpu : Cpu) : Option Cpu :=
  let cpu := layout.interrupt cpu
  (layout.call layout.exitThreadContext layout.afterExit cpu).bind fun cpu =>
    (layout.call layout.enterThreadContext layout.afterEnter (layout.swapThreads cpu)).map
      layout.iret

end SwitchLayout

end DoggOS.Proc

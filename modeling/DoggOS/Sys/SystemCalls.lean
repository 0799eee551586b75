/-
The way of a system call.

`k_sys_SysCall` loads four registers from its arguments and raises the interrupt
69.  `k_sys_SysCall_a` puts them into a buffer on the stack of the interrupt, goes
over to the address space of the kernel, where that stack lies at a distance, and
calls the function of the number.  Interrupt flags are left out, and so are the
arithmetic flags.
-/

import DoggOS.Proc.ContextFrames

namespace DoggOS.Sys

open X86 Proc SwitchLayout

/-- The core with what a change of rings and a system call use besides. -/
structure SysCore extends Cpu where
  ss : BitVec 16
  currentPmap : Word → Word
  process : Word → Word
  pageMap : Word → Word

inductive SysCallFunction where
  | testSysCall
  | crashSysCall
  | yieldThread
  | terminateProcess
  | waitProcess
  | puts
  | readLine
  deriving DecidableEq

/-- `k_sys_syscall_table`; the other entries are null. -/
def sysCallTable : List (Option SysCallFunction) :=
  [some .testSysCall, some .crashSysCall, none, none, none, some .yieldThread, none, none, none,
    some .terminateProcess, some .waitProcess, some .puts, some .readLine]

/-- `K_SYS_SYSCALL_LAST` -/
def sysCallLast : Nat := 13

/-- What `k_sys_DispatchSysCall` does in C, with the function that it calls and the address of the
arguments; nothing where it does not come back. -/
abbrev SysBody := Option SysCallFunction → Word → SysCore → Option SysCore

def ringOf (selector : BitVec 16) : BitVec 2 := selector.setWidth 2

/-- The addresses of `k_sys_SysCall_a` and of the instruction after `int 69`. -/
structure SysCallCode where
  sysCall : Word
  afterInt : Word

namespace SysCore

variable (layout : SwitchLayout)

def push (core : SysCore) (word : Word) : SysCore :=
  { core with toCpu := layout.push core.toCpu word }

def read (core : SysCore) (address : Word) : Word := layout.read core.toCpu address

def write (core : SysCore) (address word : Word) : SysCore :=
  { core with toCpu := layout.write core.toCpu address word }

def top (core : SysCore) : Word := read layout core core.esp

/-- `int 69`, which leads into ring 0.  The programs of `k_proc_CreateProcess` are in ring 0 already
and stay on their stack; from another ring the processor goes over to the stack of the task state,
with the data segment of ring 0. -/
def interrupt69 (code : SysCallCode) (core : SysCore) : SysCore :=
  let caller := core
  let core :=
    if ringOf caller.cs = 0 then core
    else
      let core := { core with esp := core.tssEsp0, ss := 0x8 }
      let core := core.push layout (setLow 0 caller.ss)
      core.push layout caller.esp
  let core := core.push layout caller.eflags
  let core := core.push layout (setLow 0 caller.cs)
  let core := core.push layout code.afterInt
  { core with cs := 0x10, eip := code.sysCall }

/-- `iret`; the old stack is popped only on the way to an outer ring. -/
def iret (core : SysCore) : SysCore :=
  let back := { core with toCpu := layout.iret core.toCpu }
  if ringOf core.cs < ringOf back.cs then
    { back with
      esp := core.read layout (core.esp + 12)
      ss := low (core.read layout (core.esp + 16)) }
  else back

/-- `k_sys_DispatchSysCall`; a null entry of the table is called all the same. -/
def dispatchSysCall (body : SysBody) (core : SysCore) : Option SysCore :=
  let args := core.top layout
  let number := core.read layout args
  if number.toNat < sysCallLast then
    match sysCallTable[number.toNat]? with
    | some (some function) => body (some function) args core
    | _ => none
  else (body none args core).map fun core => { core with eax := 0 }

/-- `k_sys_SysCall_a` up to the call -/
def enterSysCall (core : SysCore) : SysCore :=
  let core := core.push layout core.ebp
  let core := { core with ebp := core.esp }
  let core := { core with esp := core.esp - 32 }
  let core := core.write layout core.esp core.eax
  let core := core.write layout (core.esp + 4) core.ebx
  let core := core.write layout (core.esp + 8) core.ecx
  let core := core.write layout (core.esp + 12) core.edx
  let core := { core with eax := layout.kernelPmap }
  let core := { core with cr3 := core.eax }
  let core := { core with eax := core.currentThread }
  let core := { core with eax := core.kernelStackOffset core.eax }
  let core := { core with esp := core.esp + core.eax }
  let core := { core with ecx := core.esp }
  core.push layout core.ecx

/-- `k_sys_SysCall_a` after the call -/
def leaveSysCall (core : SysCore) : SysCore :=
  let core := { core with ecx := core.top layout, esp := core.esp + 4 }
  let core := { core with ecx := core.currentThread }
  let core := { core with ebx := core.process core.ecx }
  let core := { core with ebx := core.pageMap core.ebx }
  let core := { core with currentPmap := Function.update core.currentPmap core.ecx core.ebx }
  let core := { core with ecx := core.kernelStackOffset core.ecx }
  let core := { core with esp := core.esp - core.ecx }
  let core := { core with cr3 := core.ebx }
  let core := { core with esp := core.esp + 32 }
  let core := { core with ebp := core.top layout, esp := core.esp + 4 }
  core.iret layout

/-- `k_sys_SysCall_a` -/
def sysCallA (body : SysBody) (core : SysCore) : Option SysCore :=
  (dispatchSysCall layout body (core.enterSysCall layout)).map (leaveSysCall layout)

/-- `k_sys_SysCall`; the last of its five arguments is not passed on. -/
def sysCall (code : SysCallCode) (body : SysBody) (core : SysCore) : Option SysCore :=
  let core := core.push layout core.ebp
  let core := { core with ebp := core.esp }
  let core := core.push layout core.ebx
  let core := core.push layout core.ecx
  let core := core.push layout core.edx
  let core := { core with eax := core.read layout (core.ebp + 8) }
  let core := { core with ebx := core.read layout (core.ebp + 12) }
  let core := { core with ecx := core.read layout (core.ebp + 16) }
  let core := { core with edx := core.read layout (core.ebp + 20) }
  (sysCallA layout body (core.interrupt69 layout code)).bind fun core =>
    if core.eip = code.afterInt then
      let core := { core with edx := core.top layout, esp := core.esp + 4 }
      let core := { core with ecx := core.top layout, esp := core.esp + 4 }
      let core := { core with ebx := core.top layout, esp := core.esp + 4 }
      let core := { core with ebp := core.top layout, esp := core.esp + 4 }
      some { core with eip := core.top layout, esp := core.esp + 4 }
    else none

end SysCore

end DoggOS.Sys

/-
A system call comes back.

What the processor pushes at the interrupt depends on the ring of the program,
and so does the stack it is on; the routine behind it works the same way below
that frame, on a stack that the kernel sees at a fixed distance.  In ring 0,
where the programs of the source run, this is the stack of the program itself;
from another ring the program's own stack is only known through its page map.
The function sees the four words that the program passed, and the program finds
all its registers as they were, with the status in the first.
-/

import DoggOS.Sys.SystemCalls

namespace DoggOS.Sys

open X86 Proc SwitchLayout

def OneToOne (layout : SwitchLayout) (pmap base : Word) (size : Nat) : Prop :=
  ∀ a b : Word, (a - base).toNat < size → (b - base).toNat < size →
    layout.place pmap a = layout.place pmap b → a = b

section Views

variable {layout : SwitchLayout} {cpu : Cpu} {base address word : Word} {size : Nat}

theorem OneToOne.view_write (one : OneToOne layout cpu.cr3 base size)
    (inside : (address - base).toNat + 4 ≤ size) (fits : size < 2 ^ 32) {byte : Word}
    (near : (byte - base).toNat < size) :
    layout.view (layout.write cpu address word) byte = store (layout.view cpu) address word byte := by
  have same : ∀ k : Word, k.toNat < 4 →
      (layout.place cpu.cr3 byte = layout.place cpu.cr3 (address + k) ↔
        (byte - address).toNat = k.toNat) := by
    intro k small
    constructor
    · intro equal
      have here := one byte (address + k) near (by bv_omega) equal
      bv_omega
    · intro place
      congr 1
      bv_omega
  have first := same 0#32 (by decide)
  rw [BitVec.add_zero] at first
  unfold SwitchLayout.view SwitchLayout.write store
  simp only [Function.update_apply, first, same 1 (by decide), same 2 (by decide),
    same 3 (by decide)]
  generalize (byte - address).toNat = place
  by_cases inWord : place < 4
  · have places : place = 0 ∨ place = 1 ∨ place = 2 ∨ place = 3 := by omega
    rcases places with rfl | rfl | rfl | rfl <;> rfl
  · have none : place ≠ 0 ∧ place ≠ 1 ∧ place ≠ 2 ∧ place ≠ 3 := by omega
    simp [inWord, none.1, none.2.1, none.2.2.1, none.2.2.2]

theorem write_outside {byte : Word}
    (outside : ∀ k : Word, k.toNat < 4 → byte ≠ layout.place cpu.cr3 (address + k)) :
    (layout.write cpu address word).mem byte = cpu.mem byte := by
  have first := outside 0#32 (by decide)
  rw [BitVec.add_zero] at first
  unfold SwitchLayout.write
  simp only [Function.update_apply, first, outside 1 (by decide), outside 2 (by decide),
    outside 3 (by decide), if_false]

theorem pushes_fields (words : List Word) : layout.pushes cpu words = { cpu with
    esp := cpu.esp - BitVec.ofNat 32 (4 * words.length)
    mem := (layout.pushes cpu words).mem } := by
  induction words generalizing cpu with
  | nil => simp [pushes]
  | cons word words ih =>
      have step : layout.pushes cpu (word :: words) = layout.pushes (layout.push cpu word) words :=
        rfl
      have place : cpu.esp - 4 - BitVec.ofNat 32 (4 * words.length) =
          cpu.esp - BitVec.ofNat 32 (4 * (words.length + 1)) := by bv_omega
      rw [step, ih, List.length_cons, ← place]
      rfl

theorem pushWords_congr {mem other : Memory} {byte : Word} (same : mem byte = other byte)
    (esp : Word) (words : List Word) : pushWords mem esp words byte = pushWords other esp words byte := by
  induction words generalizing mem other esp with
  | nil => exact same
  | cons word words ih =>
      apply ih
      unfold store
      rw [same]

theorem OneToOne.view_pushes (one : OneToOne layout cpu.cr3 base size) (fits : size < 2 ^ 32)
    (words : List Word)
    (inside : (cpu.esp - BitVec.ofNat 32 (4 * words.length) - base).toNat + 4 * words.length ≤ size)
    {byte : Word} (near : (byte - base).toNat < size) :
    layout.view (layout.pushes cpu words) byte =
      pushWords (layout.view cpu) cpu.esp words byte := by
  induction words generalizing cpu with
  | nil => rfl
  | cons word words ih =>
      rw [List.length_cons] at inside
      have place : cpu.esp - 4 - BitVec.ofNat 32 (4 * words.length) =
          cpu.esp - BitVec.ofNat 32 (4 * (words.length + 1)) := by bv_omega
      have lower : (cpu.esp - 4 - BitVec.ofNat 32 (4 * words.length) - base).toNat +
          4 * words.length ≤ size := by
        rw [place]
        omega
      have top : (cpu.esp - 4 - base).toNat + 4 ≤ size := by
        have above : cpu.esp - 4 = cpu.esp - BitVec.ofNat 32 (4 * (words.length + 1)) +
            BitVec.ofNat 32 (4 * words.length) := by bv_omega
        rw [above]
        generalize cpu.esp - BitVec.ofNat 32 (4 * (words.length + 1)) = low at inside
        bv_omega
      have written := @OneToOne.view_write layout { cpu with esp := cpu.esp - 4 } base (cpu.esp - 4)
        word size one top fits byte near
      have rest := @ih (layout.push cpu word) one lower
      change layout.view (layout.pushes (layout.push cpu word) words) byte = _
      rw [rest]
      exact pushWords_congr written (cpu.esp - 4) words

theorem pushes_outside (words : List Word) {byte : Word}
    (outside : ∀ address : Word,
      (address - (cpu.esp - BitVec.ofNat 32 (4 * words.length))).toNat < 4 * words.length →
        byte ≠ layout.place cpu.cr3 address) (fits : 4 * words.length < 2 ^ 32) :
    (layout.pushes cpu words).mem byte = cpu.mem byte := by
  induction words generalizing cpu with
  | nil => rfl
  | cons word words ih =>
      rw [List.length_cons] at outside fits
      have rest := @ih (layout.push cpu word) (by
        intro address near
        change (address - (cpu.esp - 4 - BitVec.ofNat 32 (4 * words.length))).toNat < _ at near
        exact outside address (by bv_omega)) (by omega)
      change (layout.pushes (layout.push cpu word) words).mem byte = _
      rw [rest]
      apply write_outside
      intro k small
      exact outside (cpu.esp - 4 + k) (by bv_omega)

end Views

namespace SysCore

variable {layout : SwitchLayout} {code : SysCallCode} {core handled : SysCore}

/-! ### The frame of the interrupt -/

def interruptWords (code : SysCallCode) (core : SysCore) : List Word :=
  (if ringOf core.cs = 0 then [] else [setLow 0 core.ss, core.esp]) ++
    [core.eflags, setLow 0 core.cs, code.afterInt]

def interruptStack (core : SysCore) : Word :=
  if ringOf core.cs = 0 then core.esp else core.tssEsp0

def interruptBytes (core : SysCore) : Nat := if ringOf core.cs = 0 then 12 else 20

def interruptBase (core : SysCore) : Word :=
  core.interruptStack - BitVec.ofNat 32 core.interruptBytes

def stackOffset (core : SysCore) : Word := core.kernelStackOffset core.currentThread

def interruptedMem (code : SysCallCode) (core : SysCore) : Memory :=
  pushWords core.mem (core.interruptStack + core.stackOffset) (core.interruptWords code)

/-- The core at `k_sys_SysCall_a`. -/
def interruptedCore (code : SysCallCode) (core : SysCore) : SysCore :=
  { core with
    esp := core.interruptBase
    cs := 0x10
    ss := if ringOf core.cs = 0 then core.ss else 0x8
    eip := code.sysCall
    mem := core.interruptedMem code }

theorem length_interruptWords : 4 * (core.interruptWords code).length = core.interruptBytes := by
  unfold interruptWords interruptBytes
  split <;> rfl

theorem interruptBytes_le : core.interruptBytes ≤ 20 := by
  unfold interruptBytes
  split <;> decide

theorem interrupt69_eq
    (seen : layout.Seen core.cr3 core.interruptBase core.stackOffset core.interruptBytes) :
    core.interrupt69 layout code = core.interruptedCore code := by
  have small := @interruptBytes_le core
  have pushed := @pushes_seen layout { core.toCpu with esp := core.interruptStack }
    core.stackOffset (core.interruptWords code) (by
      rw [length_interruptWords]
      exact seen) (by
      rw [length_interruptWords]
      omega)
  rw [length_interruptWords] at pushed
  have unfolded : core.interrupt69 layout code = { core with
      toCpu := { layout.pushes { core.toCpu with esp := core.interruptStack }
        (core.interruptWords code) with
          cs := 0x10, eip := code.sysCall }
      ss := if ringOf core.cs = 0 then core.ss else 0x8 } := by
    unfold interrupt69 interruptStack interruptWords pushes
    by_cases inner : ringOf core.cs = 0
    · simp only [inner, if_true, push, List.nil_append, List.foldl_cons, List.foldl_nil]
    · simp only [inner, if_false, push, List.cons_append, List.nil_append, List.foldl_cons,
        List.foldl_nil]
  rw [unfolded, pushed]
  rfl

theorem interruptedMem_outside {byte : Word}
    (outside : core.interruptBytes ≤ (byte - (core.interruptBase + core.stackOffset)).toNat) :
    core.interruptedMem code byte = core.mem byte := by
  have small := @interruptBytes_le core
  have sized := @length_interruptWords code core
  apply pushWords_outside (by omega)
  intro i inside
  rw [sized] at inside ⊢
  unfold interruptBase at outside
  bv_omega

theorem read_seen {address base offset : Word} {size : Nat}
    (seen : layout.Seen core.cr3 base offset size) (inside : (address - base).toNat + 4 ≤ size) :
    core.read layout address = load core.mem (address + offset) :=
  Seen.read_eq seen inside

theorem read_frame (seen : layout.Seen handled.cr3 core.interruptBase core.stackOffset
      core.interruptBytes)
    (kept : ∀ byte : Word,
      (byte - (core.interruptBase + core.stackOffset)).toNat < core.interruptBytes →
        handled.mem byte = core.interruptedMem code byte) {index : Nat}
    (inside : index < (core.interruptWords code).length) :
    handled.read layout (core.interruptBase +
        BitVec.ofNat 32 (core.interruptBytes - 4 * (index + 1))) =
      (core.interruptWords code)[index] := by
  have small := @interruptBytes_le core
  have sized := @length_interruptWords code core
  have place : core.interruptBase + BitVec.ofNat 32 (core.interruptBytes - 4 * (index + 1)) +
      core.stackOffset =
        core.interruptStack + core.stackOffset - BitVec.ofNat 32 (4 * (index + 1)) := by
    unfold interruptBase
    bv_omega
  rw [read_seen seen (by bv_omega), place]
  apply load_pushWords_of_kept inside (by omega)
  intro i below
  rw [sized] at below ⊢
  refine kept _ ?_
  unfold interruptBase
  bv_omega

/-- `iret` on the frame of an interrupt leads back to where it came from. -/
theorem iret_eq (seen : layout.Seen handled.cr3 core.interruptBase core.stackOffset
      core.interruptBytes)
    (kept : ∀ byte : Word,
      (byte - (core.interruptBase + core.stackOffset)).toNat < core.interruptBytes →
        handled.mem byte = core.interruptedMem code byte)
    (esp : handled.esp = core.interruptBase) (cs : handled.cs = 0x10)
    (ss : ringOf core.cs = 0 → handled.ss = core.ss) :
    handled.iret layout = { handled with
      eip := code.afterInt
      cs := core.cs
      eflags := core.eflags
      esp := core.esp
      ss := core.ss } := by
  have words := @read_frame layout code core handled seen kept
  have top : core.interruptBase + 0 = core.interruptBase := BitVec.add_zero _
  have inRing0 : ringOf handled.cs = 0 := by
    rw [cs]
    decide
  unfold interruptBytes interruptWords at words
  by_cases inner : ringOf core.cs = 0
  · simp only [inner, if_true, List.nil_append] at words
    have eip : handled.read layout core.interruptBase = code.afterInt :=
      top ▸ words (show 2 < 3 by decide)
    have oldCs : handled.read layout (core.interruptBase + 4) = setLow 0 core.cs :=
      words (show 1 < 3 by decide)
    have eflags : handled.read layout (core.interruptBase + 8) = core.eflags :=
      words (show 0 < 3 by decide)
    have oldEsp : core.interruptBase + 12 = core.esp := by
      unfold interruptBase interruptStack interruptBytes
      simp only [inner, if_true]
      bv_omega
    unfold read at eip oldCs eflags
    unfold iret SwitchLayout.iret
    dsimp only
    rw [esp, eip, oldCs, eflags, low_setLow, oldEsp, inRing0, inner, ← ss inner]
    rfl
  · simp only [inner, if_false, List.cons_append, List.nil_append] at words
    have eip : handled.read layout core.interruptBase = code.afterInt :=
      top ▸ words (show 4 < 5 by decide)
    have oldCs : handled.read layout (core.interruptBase + 4) = setLow 0 core.cs :=
      words (show 3 < 5 by decide)
    have eflags : handled.read layout (core.interruptBase + 8) = core.eflags :=
      words (show 2 < 5 by decide)
    have oldEsp : handled.read layout (core.interruptBase + 12) = core.esp :=
      words (show 1 < 5 by decide)
    have oldSs : handled.read layout (core.interruptBase + 16) = setLow 0 core.ss :=
      words (show 0 < 5 by decide)
    have outward : ringOf handled.cs < ringOf core.cs := by
      rw [inRing0]
      exact (show ∀ ring : BitVec 2, ring ≠ 0 → 0 < ring by decide) _ inner
    unfold iret SwitchLayout.iret
    dsimp only
    rw [esp, oldEsp, oldSs]
    unfold read at eip oldCs eflags
    rw [eip, oldCs, eflags, low_setLow, low_setLow, if_pos outward]

/-! ### Into the kernel and out of it -/

def bufferMem (core : SysCore) (mem : Memory) (buffer : Word) : Memory :=
  store (store (store (store mem buffer core.eax) (buffer + 4) core.ebx) (buffer + 8) core.ecx)
    (buffer + 12) core.edx

def kernelStack (core : SysCore) : Word := core.esp + core.stackOffset

def calledMem (core : SysCore) : Memory :=
  store (core.bufferMem (store core.mem (core.kernelStack - 4) core.ebp) (core.kernelStack - 36))
    (core.kernelStack - 40) (core.kernelStack - 36)

def calledCore (layout : SwitchLayout) (core : SysCore) : SysCore :=
  { core with
    eax := core.stackOffset
    ecx := core.kernelStack - 36
    ebp := core.esp - 4
    esp := core.kernelStack - 40
    cr3 := layout.kernelPmap
    mem := core.calledMem }

def setMem (core : SysCore) (mem : Memory) : SysCore := { core with mem := mem }

section Steps

variable {address word base offset : Word} {size : Nat}

theorem write_seen (seen : layout.Seen core.cr3 base offset size)
    (inside : (address - base).toNat + 4 ≤ size) :
    core.write layout address word = core.setMem (store core.mem (address + offset) word) :=
  congrArg (fun cpu => { core with toCpu := cpu }) (Seen.write_eq seen inside)

theorem push_seen (seen : layout.Seen core.cr3 base offset size)
    (inside : (core.esp - 4 - base).toNat + 4 ≤ size) :
    core.push layout word = { core with
      esp := core.esp - 4
      mem := store core.mem (core.esp - 4 + offset) word } :=
  congrArg (fun cpu => { core with toCpu := cpu })
    (@Seen.write_eq layout { core.toCpu with esp := core.esp - 4 } base offset (core.esp - 4) word
      size seen inside)

theorem push_direct (direct : layout.Direct) (pmap : core.cr3 = layout.kernelPmap) :
    core.push layout word = { core with
      esp := core.esp - 4
      mem := store core.mem (core.esp - 4) word } := by
  have wide : layout.Seen core.cr3 (core.esp - 4) 0 4 := by
    intro address _
    rw [pmap, direct]
    exact (BitVec.add_zero address).symm
  have unmoved : core.esp - 4 + 0 = core.esp - 4 := BitVec.add_zero _
  rw [push_seen wide (by bv_omega), unmoved]

end Steps

def fillBuffer (layout : SwitchLayout) (core : SysCore) : SysCore :=
  (((core.write layout core.esp core.eax).write layout (core.esp + 4) core.ebx).write layout
    (core.esp + 8) core.ecx).write layout (core.esp + 12) core.edx

theorem fillBuffer_eq {offset : Word} (seen : layout.Seen core.cr3 core.esp offset 16) :
    core.fillBuffer layout = core.setMem (core.bufferMem core.mem (core.esp + offset)) := by
  have written : ∀ k : Word, k.toNat ≤ 12 → ∀ (mem : Memory) (word : Word),
      (core.setMem mem).write layout (core.esp + k) word =
        core.setMem (store mem (core.esp + offset + k) word) := by
    intro k small mem word
    have place : core.esp + k + offset = core.esp + offset + k := by bv_omega
    rw [← place]
    exact @write_seen layout (core.setMem mem) (core.esp + k) word core.esp offset 16 seen
      (by bv_omega)
  have first : core.write layout core.esp core.eax =
      core.setMem (store core.mem (core.esp + offset) core.eax) :=
    write_seen seen (by bv_omega)
  unfold fillBuffer
  rw [first, written 4 (by decide), written 8 (by decide), written 12 (by decide)]
  rfl

def enterKernel (layout : SwitchLayout) (core : SysCore) : SysCore :=
  { core with
    eax := core.stackOffset
    ecx := core.esp + core.stackOffset
    esp := core.esp + core.stackOffset
    cr3 := layout.kernelPmap }

theorem enterSysCall_split : core.enterSysCall layout =
    (enterKernel layout (fillBuffer layout
      { core.push layout core.ebp with ebp := core.esp - 4, esp := core.esp - 4 - 32 })).push layout
        (core.esp - 4 - 32 + core.stackOffset) :=
  rfl

theorem kernel_place (k : Word) : core.esp - k + core.stackOffset = core.kernelStack - k := by
  unfold kernelStack
  bv_omega

/-- The core before the call, with all of it in kernel space. -/
theorem enterSysCall_eq (direct : layout.Direct)
    (seen : layout.Seen core.cr3 (core.esp - 36) core.stackOffset 36) :
    core.enterSysCall layout = core.calledCore layout := by
  have inside : (core.esp - 4 - (core.esp - 36)).toNat + 4 ≤ 36 := by bv_omega
  have bufferInside : (core.esp - 36 - (core.esp - 36)).toNat + 16 ≤ 36 := by bv_omega
  have low : core.esp - 4 - 32 = core.esp - 36 := BitVec.sub_sub _ _ _
  have last : core.kernelStack - 36 - 4 = core.kernelStack - 40 := BitVec.sub_sub _ _ _
  have pushed := @push_seen layout core core.ebp (core.esp - 36) core.stackOffset 36 seen inside
  rw [kernel_place] at pushed
  have filled := @fillBuffer_eq layout { core with
    esp := core.esp - 36
    ebp := core.esp - 4
    mem := store core.mem (core.kernelStack - 4) core.ebp } core.stackOffset (seen.part bufferInside)
  dsimp only at filled
  rw [kernel_place] at filled
  rw [enterSysCall_split, pushed]
  dsimp only
  rw [low, filled, kernel_place, push_direct direct rfl]
  unfold enterKernel setMem calledCore calledMem
  change ({ core with
    eax := core.stackOffset
    ecx := core.esp - 36 + core.stackOffset
    esp := core.esp - 36 + core.stackOffset - 4
    ebp := core.esp - 4
    cr3 := layout.kernelPmap
    mem := store (core.bufferMem (store core.mem (core.kernelStack - 4) core.ebp)
      (core.kernelStack - 36)) (core.esp - 36 + core.stackOffset - 4)
        (core.kernelStack - 36) } : SysCore) = _
  rw [kernel_place, last]

theorem calledMem_above {byte : Word} (above : 20 ≤ (byte - (core.kernelStack - 40)).toNat) :
    core.calledMem byte = store core.mem (core.kernelStack - 4) core.ebp byte := by
  unfold calledMem bufferMem
  generalize core.kernelStack = top at *
  rw [store_outside (by bv_omega), store_outside (by bv_omega), store_outside (by bv_omega),
    store_outside (by bv_omega), store_outside (by bv_omega)]

theorem calledMem_args :
    load core.calledMem (core.kernelStack - 40) = core.kernelStack - 36 ∧
      load core.calledMem (core.kernelStack - 36) = core.eax ∧
      load core.calledMem (core.kernelStack - 36 + 4) = core.ebx ∧
      load core.calledMem (core.kernelStack - 36 + 8) = core.ecx ∧
      load core.calledMem (core.kernelStack - 36 + 12) = core.edx := by
  unfold calledMem bufferMem
  generalize core.kernelStack = top
  refine ⟨load_store, ?_, ?_, ?_, ?_⟩
  · rw [load_store_of_apart (by bv_omega) (by bv_omega),
      load_store_of_apart (by bv_omega) (by bv_omega),
      load_store_of_apart (by bv_omega) (by bv_omega),
      load_store_of_apart (by bv_omega) (by bv_omega), load_store]
  · rw [load_store_of_apart (by bv_omega) (by bv_omega),
      load_store_of_apart (by bv_omega) (by bv_omega),
      load_store_of_apart (by bv_omega) (by bv_omega), load_store]
  · rw [load_store_of_apart (by bv_omega) (by bv_omega),
      load_store_of_apart (by bv_omega) (by bv_omega), load_store]
  · rw [load_store_of_apart (by bv_omega) (by bv_omega), load_store]

theorem calledMem_outside {byte : Word} (outside : 40 ≤ (byte - (core.kernelStack - 40)).toNat) :
    core.calledMem byte = core.mem byte := by
  rw [calledMem_above (by omega)]
  apply store_outside
  generalize core.kernelStack = top at *
  bv_omega

def leaveKernel (core : SysCore) : SysCore :=
  { core with
    ebx := core.pageMap (core.process core.currentThread)
    ecx := core.stackOffset
    currentPmap := Function.update core.currentPmap core.currentThread
      (core.pageMap (core.process core.currentThread))
    esp := core.esp + 4 - core.stackOffset + 32
    cr3 := core.pageMap (core.process core.currentThread) }

theorem leaveSysCall_split : core.leaveSysCall layout =
    iret layout { leaveKernel core with
      ebp := (leaveKernel core).top layout
      esp := core.esp + 4 - core.stackOffset + 32 + 4 } :=
  rfl

def returningCore (core : SysCore) (pmap : Word) (handled : SysCore) : SysCore :=
  { handled with
    ebx := pmap
    ecx := core.stackOffset
    ebp := core.ebp
    esp := core.esp
    cr3 := pmap
    currentPmap := Function.update handled.currentPmap handled.currentThread pmap }

theorem leaveSysCall_eq {pmap : Word} (seen : layout.Seen pmap (core.esp - 36) core.stackOffset 36)
    (esp : handled.esp = core.kernelStack - 40) (distance : handled.stackOffset = core.stackOffset)
    (map : handled.pageMap (handled.process handled.currentThread) = pmap)
    (kept : ∀ byte : Word, (byte - (core.kernelStack - 4)).toNat < 4 →
      handled.mem byte = core.calledMem byte) :
    handled.leaveSysCall layout = iret layout (core.returningCore pmap handled) := by
  have stack : handled.esp + 4 - core.stackOffset + 32 = core.esp - 4 := by
    rw [esp]
    unfold kernelStack
    generalize core.stackOffset = offset
    bv_omega
  have next : core.esp - 4 + 4 = core.esp := by bv_omega
  have saved : load handled.mem (core.kernelStack - 4) = core.ebp := by
    have same : load handled.mem (core.kernelStack - 4) =
        load (store core.mem (core.kernelStack - 4) core.ebp) (core.kernelStack - 4) := by
      apply load_congr
      intro k small
      have near : (core.kernelStack - 4 + k - (core.kernelStack - 4)).toNat < 4 := by bv_omega
      have above : 20 ≤ (core.kernelStack - 4 + k - (core.kernelStack - 40)).toNat := by bv_omega
      rw [kept _ near, calledMem_above above]
    rw [same, load_store]
  have popped : SysCore.read layout { core.returningCore pmap handled with
      esp := core.esp - 4
      ebp := handled.ebp } (core.esp - 4) = core.ebp := by
    refine (read_seen seen (by bv_omega)).trans ?_
    rw [kernel_place]
    exact saved
  rw [leaveSysCall_split]
  unfold returningCore at popped
  unfold leaveKernel top
  rw [distance, map, stack, next]
  dsimp only at popped ⊢
  rw [popped]
  rfl

/-- Back at the instruction after the interrupt, with the registers of the frame. -/
theorem leaveSysCall_back {pmap : Word}
    (seen : layout.Seen pmap (core.interruptBase - 36) core.stackOffset
      (36 + core.interruptBytes))
    (esp : handled.esp = core.interruptBase + core.stackOffset - 40)
    (distance : handled.stackOffset = core.stackOffset)
    (map : handled.pageMap (handled.process handled.currentThread) = pmap)
    (cs : handled.cs = 0x10) (ss : ringOf core.cs = 0 → handled.ss = core.ss)
    (kept : ∀ byte : Word, (byte - (core.interruptBase + core.stackOffset - 4)).toNat <
        4 + core.interruptBytes →
      handled.mem byte = (core.interruptedCore code).calledMem byte) :
    handled.leaveSysCall layout = { handled with
      ebx := pmap
      ecx := core.stackOffset
      ebp := core.ebp
      esp := core.esp
      cs := core.cs
      ss := core.ss
      eip := code.afterInt
      eflags := core.eflags
      cr3 := pmap
      currentPmap := Function.update handled.currentPmap handled.currentThread pmap } := by
  have small := @interruptBytes_le core
  have left := @leaveSysCall_eq layout (core.interruptedCore code) handled pmap
    (seen.part (by
      change (core.interruptBase - 36 - (core.interruptBase - 36)).toNat + 36 ≤ _
      bv_omega)) esp distance map (fun byte near => kept byte (by
      change (byte - (core.interruptBase + core.stackOffset - 4)).toNat < 4 at near
      omega))
  have frameSeen : layout.Seen pmap core.interruptBase core.stackOffset core.interruptBytes :=
    seen.part (by bv_omega)
  have frameKept : ∀ byte : Word,
      (byte - (core.interruptBase + core.stackOffset)).toNat < core.interruptBytes →
        handled.mem byte = core.interruptedMem code byte := by
    intro byte inside
    rw [kept byte (by bv_omega)]
    refine @calledMem_outside (core.interruptedCore code) byte ?_
    change 40 ≤ (byte - (core.interruptBase + core.stackOffset - 40)).toNat
    bv_omega
  rw [left]
  exact @iret_eq layout code core ((core.interruptedCore code).returningCore pmap handled)
    frameSeen frameKept rfl cs ss

/-- The registers that `k_sys_SysCall` saves. -/
def savedWords (core : SysCore) : List Word := [core.ebp, core.ebx, core.ecx, core.edx]

def argument (layout : SwitchLayout) (core : SysCore) (index : Nat) : Word :=
  core.read layout (core.esp + 4 + BitVec.ofNat 32 (4 * index))

def callingCore (layout : SwitchLayout) (core : SysCore) : SysCore :=
  { core with
    eax := core.argument layout 0
    ebx := core.argument layout 1
    ecx := core.argument layout 2
    edx := core.argument layout 3
    ebp := core.esp - 4
    esp := core.esp - 16
    mem := (layout.pushes core.toCpu core.savedWords).mem }

section Program

variable (one : OneToOne layout core.cr3 (core.esp - 16) 36)

include one

/-- The program sees the saved registers on its stack. -/
theorem callingCore_view {byte : Word} (near : (byte - (core.esp - 16)).toNat < 36) :
    (core.callingCore layout).mem (layout.place core.cr3 byte) =
      pushWords (layout.view core.toCpu) core.esp core.savedWords byte := by
  have inside : (core.esp - 16 - (core.esp - 16)).toNat + 16 ≤ 36 := by bv_omega
  have viewed := one.view_pushes (by decide) core.savedWords inside near
  rw [pushes_fields] at viewed
  exact viewed

theorem argument_kept {cpu : Cpu} {index : Nat} (pmap : cpu.cr3 = core.cr3)
    (memory : cpu.mem = (core.callingCore layout).mem) (small : index < 4) :
    layout.read cpu (core.esp + 4 + BitVec.ofNat 32 (4 * index)) = core.argument layout index := by
  have above : (core.esp + 4 + BitVec.ofNat 32 (4 * index) - core.esp).toNat + 16 + 4 ≤ 2 ^ 32 := by
    bv_omega
  have same : load (pushWords (layout.view core.toCpu) core.esp core.savedWords)
      (core.esp + 4 + BitVec.ofNat 32 (4 * index)) = core.argument layout index :=
    load_pushWords_above above
  rw [← same]
  unfold SwitchLayout.read
  apply load_congr
  intro k inWord
  have near : (core.esp + 4 + BitVec.ofNat 32 (4 * index) + k - (core.esp - 16)).toNat < 36 := by
    clear above
    bv_omega
  unfold SwitchLayout.view
  rw [pmap, memory]
  exact callingCore_view one near

omit one

def writeMem (layout : SwitchLayout) (pmap : Word) (mem : Memory) (address word : Word) : Memory :=
  Function.update (Function.update (Function.update (Function.update mem
    (layout.place pmap address) (byteOf word 0))
    (layout.place pmap (address + 1)) (byteOf word 1))
    (layout.place pmap (address + 2)) (byteOf word 2))
    (layout.place pmap (address + 3)) (byteOf word 3)

theorem push_eq (word : Word) : core.push layout word = { core with
    esp := core.esp - 4
    mem := writeMem layout core.cr3 core.mem (core.esp - 4) word } :=
  rfl

theorem savedMem_eq : (layout.pushes core.toCpu core.savedWords).mem =
    writeMem layout core.cr3 (writeMem layout core.cr3 (writeMem layout core.cr3
      (writeMem layout core.cr3 core.mem (core.esp - 4) core.ebp) (core.esp - 4 - 4) core.ebx)
      (core.esp - 4 - 4 - 4) core.ecx) (core.esp - 4 - 4 - 4 - 4) core.edx :=
  rfl

def savingCore (layout : SwitchLayout) (core : SysCore) : SysCore :=
  { core with
    ebp := core.esp - 4
    esp := core.esp - 16
    mem := (layout.pushes core.toCpu core.savedWords).mem }

def saveRegisters (layout : SwitchLayout) (core : SysCore) : SysCore :=
  let core := core.push layout core.ebp
  let core := { core with ebp := core.esp }
  let core := core.push layout core.ebx
  let core := core.push layout core.ecx
  core.push layout core.edx

def loadArguments (layout : SwitchLayout) (core : SysCore) : SysCore :=
  let core := { core with eax := core.read layout (core.ebp + 8) }
  let core := { core with ebx := core.read layout (core.ebp + 12) }
  let core := { core with ecx := core.read layout (core.ebp + 16) }
  { core with edx := core.read layout (core.ebp + 20) }

/-- The end of `k_sys_SysCall`. -/
def restoreRegisters (layout : SwitchLayout) (core : SysCore) : SysCore :=
  let core := { core with edx := core.top layout, esp := core.esp + 4 }
  let core := { core with ecx := core.top layout, esp := core.esp + 4 }
  let core := { core with ebx := core.top layout, esp := core.esp + 4 }
  let core := { core with ebp := core.top layout, esp := core.esp + 4 }
  { core with eip := core.top layout, esp := core.esp + 4 }

theorem sysCall_split (body : SysBody) : sysCall layout code body core =
    (sysCallA layout body
      ((loadArguments layout (saveRegisters layout core)).interrupt69 layout code)).bind fun core =>
        if core.eip = code.afterInt then some (restoreRegisters layout core) else none :=
  rfl

theorem saveRegisters_eq : saveRegisters layout core = savingCore layout core := by
  have last : core.esp - 4 - 4 - 4 - 4 = core.esp - 16 := by bv_omega
  unfold saveRegisters savingCore
  rw [savedMem_eq]
  simp only [push_eq, last]

include one

theorem loadArguments_eq :
    loadArguments layout (savingCore layout core) = core.callingCore layout := by
  have reads : ∀ (before : SysCore) (k : Word) (index : Nat), before.cr3 = core.cr3 →
      before.mem = (core.callingCore layout).mem → index < 4 →
      core.esp - 4 + k = core.esp + 4 + BitVec.ofNat 32 (4 * index) →
        before.read layout (core.esp - 4 + k) = core.argument layout index := by
    intro before k index pmap memory small place
    rw [place]
    exact argument_kept one pmap memory small
  have split : ∀ before : SysCore, loadArguments layout before = { before with
      eax := before.read layout (before.ebp + 8)
      ebx := before.read layout (before.ebp + 12)
      ecx := before.read layout (before.ebp + 16)
      edx := before.read layout (before.ebp + 20) } := fun _ => rfl
  rw [split]
  change ({ savingCore layout core with
      eax := (savingCore layout core).read layout (core.esp - 4 + 8)
      ebx := (savingCore layout core).read layout (core.esp - 4 + 12)
      ecx := (savingCore layout core).read layout (core.esp - 4 + 16)
      edx := (savingCore layout core).read layout (core.esp - 4 + 20) } : SysCore) = _
  rw [reads (savingCore layout core) 8 0 rfl rfl (by decide) (by bv_omega),
    reads (savingCore layout core) 12 1 rfl rfl (by decide) (by bv_omega),
    reads (savingCore layout core) 16 2 rfl rfl (by decide) (by bv_omega),
    reads (savingCore layout core) 20 3 rfl rfl (by decide) (by bv_omega)]
  rfl

theorem restoreRegisters_eq {after : SysCore} (pmap : after.cr3 = core.cr3)
    (esp : after.esp = core.esp - 16)
    (kept : ∀ byte : Word, (byte - (core.esp - 16)).toNat < 20 →
      after.mem (layout.place core.cr3 byte) =
        (core.callingCore layout).mem (layout.place core.cr3 byte)) :
    restoreRegisters layout after = { after with
      ebx := core.ebx
      ecx := core.ecx
      edx := core.edx
      ebp := core.ebp
      eip := core.read layout core.esp
      esp := core.esp + 4 } := by
  have words : ∀ (cpu : Cpu) (address : Word), cpu.cr3 = core.cr3 → cpu.mem = after.mem →
      (address - (core.esp - 16)).toNat + 4 ≤ 20 → layout.read cpu address =
        load (pushWords (layout.view core.toCpu) core.esp core.savedWords) address := by
    intro cpu address here memory inside
    unfold SwitchLayout.read
    apply load_congr
    intro k small
    have near : (address + k - (core.esp - 16)).toNat < 20 := by bv_omega
    have same := kept _ near
    rw [callingCore_view one (by omega)] at same
    unfold SwitchLayout.view
    rw [here, memory]
    exact same
  have saved : ∀ index (inside : index < 4), load (pushWords (layout.view core.toCpu) core.esp
      core.savedWords) (core.esp - BitVec.ofNat 32 (4 * (index + 1))) =
        core.savedWords.get ⟨index, inside⟩ :=
    fun index inside => load_pushWords inside (show 4 * 4 ≤ 2 ^ 31 by decide)
  have back : load (pushWords (layout.view core.toCpu) core.esp core.savedWords) core.esp =
      core.read layout core.esp :=
    load_pushWords_above (show (core.esp - core.esp).toNat + 4 * 4 + 4 ≤ 2 ^ 32 by bv_omega)
  have found : ∀ (m : Word) (index : Nat) (inside : index < 4), m = BitVec.ofNat 32 (4 * (index + 1)) →
      after.read layout (core.esp - m) = core.savedWords.get ⟨index, inside⟩ := by
    intro m index inside place
    rw [← saved index inside, ← place]
    apply words after.toCpu _ pmap rfl
    rw [place]
    bv_omega
  have split : ∀ before : SysCore, restoreRegisters layout before = { before with
      edx := before.read layout before.esp
      ecx := before.read layout (before.esp + 4)
      ebx := before.read layout (before.esp + 4 + 4)
      ebp := before.read layout (before.esp + 4 + 4 + 4)
      eip := before.read layout (before.esp + 4 + 4 + 4 + 4)
      esp := before.esp + 4 + 4 + 4 + 4 + 4 } := fun _ => rfl
  have second : core.esp - 16 + 4 = core.esp - 12 := by bv_omega
  have third : core.esp - 12 + 4 = core.esp - 8 := by bv_omega
  have fourth : core.esp - 8 + 4 = core.esp - 4 := by bv_omega
  have fifth : core.esp - 4 + 4 = core.esp := by bv_omega
  have returned : after.read layout core.esp = core.read layout core.esp := by
    rw [← back]
    exact words after.toCpu _ pmap rfl (by bv_omega)
  rw [split, esp, second, third, fourth, fifth, found 16 3 (by decide) rfl,
    found 12 2 (by decide) rfl, found 8 1 (by decide) rfl, found 4 0 (by decide) rfl, returned]
  rfl

end Program

end SysCore

/-! ### Places on a stack and in its other view -/

namespace Stack

variable {esp offset byte : Word}

theorem lift (esp offset k : Word) : esp - k + offset = esp + offset - k := by bv_omega

theorem frame_near : (esp - 28 - 36 - (esp - 64)).toNat + (36 + 12) ≤ 84 := by bv_omega

theorem own_near (near : (byte - (esp - 16)).toNat < 36) : (byte - (esp - 64)).toNat < 84 := by
  bv_omega

theorem own_apart (near : (byte - (esp - 16)).toNat < 36) :
    40 + 12 ≤ (byte + offset - (esp + offset - 28 - 40)).toNat := by bv_omega

theorem own_kept (near : (byte - (esp - 16)).toNat < 20) :
    (byte + offset - (esp + offset - 32)).toNat < 36 := by bv_omega

theorem frame_kept (near : (byte - (esp + offset - 28 - 4)).toNat < 4 + 12) :
    (byte - (esp + offset - 32)).toNat < 36 := by bv_omega

theorem room_start : esp + offset - 28 - 40 = esp + offset - 68 := by bv_omega

end Stack
/-! ### Calls -/

/-- What a system call leaves as it is when it comes back. -/
structure SysGivesBack (kept : Word → Prop) (core after : SysCore) : Prop where
  esp : after.esp = core.esp
  esi : after.esi = core.esi
  edi : after.edi = core.edi
  ds : after.ds = core.ds
  es : after.es = core.es
  fs : after.fs = core.fs
  cs : after.cs = core.cs
  ss : after.ss = core.ss
  cr3 : after.cr3 = core.cr3
  currentThread : after.currentThread = core.currentThread
  stackOffset : after.kernelStackOffset core.currentThread =
    core.kernelStackOffset core.currentThread
  pageMap : after.pageMap (after.process core.currentThread) =
    core.pageMap (core.process core.currentThread)
  mem : ∀ byte, kept byte → after.mem byte = core.mem byte

/-- Compiled code with `depth` bytes of stack in which nothing is kept. -/
def SysBody.Conforms (layout : SwitchLayout) (kept : Word → Prop) (depth : Nat) (body : SysBody) :
    Prop :=
  ∀ function args core after, core.cr3 = layout.kernelPmap →
    (∀ byte : Word, (byte - (core.esp - BitVec.ofNat 32 depth)).toNat < depth → ¬ kept byte) →
      body function args core = some after → SysGivesBack kept core after

namespace SysCore

/-- The lowest byte of the interrupt's frame, when `k_sys_SysCall` has saved four words. -/
def frameBase (core : SysCore) : Word := { core with esp := core.esp - 16 }.interruptBase

def kernelFrame (core : SysCore) : Word := core.frameBase + core.stackOffset

end SysCore

/-- A program is about to make a system call, from ring 0 on the stack it has or from another ring. -/
structure SysCallReady (layout : SwitchLayout) (kept : Word → Prop) (depth : Nat)
    (core : SysCore) : Prop where
  pmap : core.pageMap (core.process core.currentThread) = core.cr3
  seen : layout.Seen core.cr3 (core.frameBase - 36) core.stackOffset (36 + core.interruptBytes)
  one : OneToOne layout core.cr3 (core.esp - 16) 36
  apart : ∀ byte : Word, (byte - (core.esp - 16)).toNat < 36 →
    40 + core.interruptBytes ≤ (layout.place core.cr3 byte - (core.kernelFrame - 40)).toNat
  programKept : ∀ byte : Word, (byte - (core.esp - 16)).toNat < 20 →
    kept (layout.place core.cr3 byte)
  kernelKept : ∀ byte : Word, (byte - (core.kernelFrame - 4)).toNat < 4 + core.interruptBytes →
    kept byte
  room : ∀ byte : Word, (byte - (core.kernelFrame - 40 - BitVec.ofNat 32 depth)).toNat < depth →
    ¬ kept byte

/-- In ring 0 all of the call happens on one stack, and the kernel has to see that. -/
theorem SysCallReady.inRing0 {layout : SwitchLayout} {kept : Word → Prop} {depth : Nat}
    {core : SysCore} (inner : ringOf core.cs = 0)
    (pmap : core.pageMap (core.process core.currentThread) = core.cr3)
    (seen : layout.Seen core.cr3 (core.esp - 64) core.stackOffset 84)
    (stackKept : ∀ byte : Word, (byte - (core.esp + core.stackOffset - 32)).toNat < 36 → kept byte)
    (room : ∀ byte : Word,
      (byte - (core.esp + core.stackOffset - 68 - BitVec.ofNat 32 depth)).toNat < depth →
        ¬ kept byte) : SysCallReady layout kept depth core := by
  have bytes : core.interruptBytes = 12 := if_pos inner
  have base : core.frameBase = core.esp - 28 := by
    unfold SysCore.frameBase SysCore.interruptBase SysCore.interruptStack SysCore.interruptBytes
    simp only [inner, if_true]
    exact BitVec.sub_sub _ _ _
  have frame : core.kernelFrame = core.esp + core.stackOffset - 28 := by
    unfold SysCore.kernelFrame
    rw [base]
    exact Stack.lift _ _ _
  have own : ∀ byte : Word, (byte - (core.esp - 16)).toNat < 36 →
      layout.place core.cr3 byte = byte + core.stackOffset :=
    fun byte near => seen byte (Stack.own_near near)
  refine ⟨pmap, ?_, ?_, ?_, ?_, ?_, ?_⟩
  · rw [base, bytes]
    exact seen.part Stack.frame_near
  · intro first second firstIn secondIn same
    rw [own first firstIn, own second secondIn] at same
    exact (BitVec.add_left_inj _).mp same
  · intro byte near
    rw [own byte near, frame, bytes]
    exact Stack.own_apart near
  · intro byte near
    rw [own byte (by omega)]
    exact stackKept _ (Stack.own_kept near)
  · rw [frame, bytes]
    exact fun byte near => stackKept byte (Stack.frame_kept near)
  · rw [frame, Stack.room_start]
    exact room

/-- The function of a number: `none` for a null entry, `some none` for no entry. -/
def sysCallTarget (number : Word) : Option (Option SysCallFunction) :=
  if number.toNat < sysCallLast then
    match sysCallTable[number.toNat]? with
    | some (some function) => some (some function)
    | _ => none
  else some none

def sysCallStatus : Option SysCallFunction → SysCore → Word
  | none, _ => 0
  | some _, handled => handled.eax

namespace SysCore

variable {layout : SwitchLayout} {code : SysCallCode} {core : SysCore} {kept : Word → Prop}
  {depth : Nat} {body : SysBody}

def passedCore (layout : SwitchLayout) (code : SysCallCode) (core : SysCore) : SysCore :=
  calledCore layout ((core.callingCore layout).interruptedCore code)

/-- The program after the call: the status is in `eax`, and all else as it was. -/
def backCore (layout : SwitchLayout) (core : SysCore) (function : Option SysCallFunction)
    (handled : SysCore) : SysCore :=
  { handled with
    toContext := { core.toContext with
      eax := sysCallStatus function handled
      eip := core.read layout core.esp
      esp := core.esp + 4 }
    ss := core.ss
    currentPmap := Function.update handled.currentPmap core.currentThread core.cr3 }

theorem dispatchSysCall_eq (direct : layout.Direct) :
    dispatchSysCall layout body (core.passedCore layout code) =
      (sysCallTarget (core.argument layout 0)).bind fun function =>
        (body function (core.kernelFrame - 36) (core.passedCore layout code)).map fun handled =>
          { handled with eax := sysCallStatus function handled } := by
  obtain ⟨pointer, number, _⟩ := @calledMem_args ((core.callingCore layout).interruptedCore code)
  have args : (core.passedCore layout code).top layout = core.kernelFrame - 36 :=
    (read_direct direct rfl _).trans pointer
  have first : (core.passedCore layout code).read layout (core.kernelFrame - 36) =
      core.argument layout 0 := (read_direct direct rfl _).trans number
  unfold dispatchSysCall
  simp only [args, first]
  unfold sysCallTarget
  split
  · cases sysCallTable[(core.argument layout 0).toNat]? with
    | none => rfl
    | some entry =>
        cases entry with
        | none => rfl
        | some function =>
            simp only [Option.bind_some, sysCallStatus]
            exact Option.map_id'.symm
  · rfl

/-- What the function finds: the four words, and memory of the program and of the kernel outside
of the two stack frames. -/
structure Passes (layout : SwitchLayout) (core called : SysCore) : Prop where
  pmap : called.cr3 = layout.kernelPmap
  arguments : ∀ index < 4, load called.mem (core.kernelFrame - 36 + BitVec.ofNat 32 (4 * index)) =
    core.argument layout index
  memory : ∀ byte : Word, 40 + core.interruptBytes ≤ (byte - (core.kernelFrame - 40)).toNat →
    (∀ own : Word, (own - (core.esp - 16)).toNat < 16 → byte ≠ layout.place core.cr3 own) →
      called.mem byte = core.mem byte

theorem passedMem_outside {byte : Word}
    (outside : 40 + core.interruptBytes ≤ (byte - (core.kernelFrame - 40)).toNat) :
    (core.passedCore layout code).mem byte = (core.callingCore layout).mem byte := by
  have small := @interruptBytes_le core
  have apart : 40 ≤ (byte - (core.kernelFrame - 40)).toNat := by omega
  have frame : core.interruptBytes ≤ (byte - core.kernelFrame).toNat := by bv_omega
  have called : (core.passedCore layout code).mem byte =
      (core.callingCore layout).interruptedMem code byte :=
    @calledMem_outside ((core.callingCore layout).interruptedCore code) byte apart
  rw [called]
  exact @interruptedMem_outside code (core.callingCore layout) byte frame

theorem passedCore_passes : Passes layout core (core.passedCore layout code) := by
  obtain ⟨_, first, second, third, fourth⟩ :=
    @calledMem_args ((core.callingCore layout).interruptedCore code)
  refine ⟨rfl, ?_, ?_⟩
  · intro index small
    have cases : index = 0 ∨ index = 1 ∨ index = 2 ∨ index = 3 := by omega
    rcases cases with rfl | rfl | rfl | rfl
    · exact (congrArg (load _) (BitVec.add_zero _)).trans first
    · exact second
    · exact third
    · exact fourth
  · intro byte outside notOwn
    have sized : core.savedWords.length = 4 := rfl
    rw [passedMem_outside outside]
    apply @pushes_outside layout core.toCpu core.savedWords byte
    · rw [sized]
      exact notOwn
    · rw [sized]
      decide

theorem handled_back (ready : SysCallReady layout kept depth core)
    {function : Option SysCallFunction} {handled : SysCore}
    (given : SysGivesBack kept (core.passedCore layout code) handled) :
    (let after := leaveSysCall layout { handled with eax := sysCallStatus function handled }
      if after.eip = code.afterInt then some (restoreRegisters layout after) else none) =
        some (backCore layout core function handled) := by
  have ss : ringOf core.cs = 0 → handled.ss = core.ss := by
    intro inner
    rw [given.ss]
    exact if_pos inner
  have left := @leaveSysCall_back layout code (core.callingCore layout)
    { handled with eax := sysCallStatus function handled } core.cr3 ready.seen given.esp
    (by
      change handled.kernelStackOffset handled.currentThread = _
      rw [given.currentThread]
      exact given.stackOffset)
    (by
      change handled.pageMap (handled.process handled.currentThread) = _
      rw [given.currentThread]
      exact given.pageMap.trans ready.pmap)
    given.cs ss (fun byte inside => given.mem byte (ready.kernelKept byte inside))
  have restored := @restoreRegisters_eq layout core ready.one
    (leaveSysCall layout { handled with eax := sysCallStatus function handled })
    (by rw [left]) (by rw [left]; rfl)
    (by
      intro byte near
      rw [left]
      refine (given.mem _ (ready.programKept byte near)).trans ?_
      exact passedMem_outside (ready.apart byte (by omega)))
  have back : (leaveSysCall layout { handled with eax := sysCallStatus function handled }).eip =
      code.afterInt := by rw [left]
  dsimp only
  rw [if_pos back, restored, left]
  have esi : handled.esi = core.esi := given.esi
  have edi : handled.edi = core.edi := given.edi
  have ds : handled.ds = core.ds := given.ds
  have es : handled.es = core.es := given.es
  have fs : handled.fs = core.fs := given.fs
  have thread : handled.currentThread = core.currentThread := given.currentThread
  unfold backCore callingCore
  dsimp only
  rw [esi, edi, ds, es, fs, thread]

/-- A system call comes back from every function that does, and only a null entry of the table
does not get to one. -/
theorem sysCall_returns (layout : SwitchLayout) (code : SysCallCode) (kept : Word → Prop)
    (depth : Nat) (body : SysBody) (core : SysCore) (direct : layout.Direct)
    (conforms : body.Conforms layout kept depth) (ready : SysCallReady layout kept depth core) :
    ∃ called, Passes layout core called ∧ sysCall layout code body core =
      (sysCallTarget (core.argument layout 0)).bind fun function =>
        (body function (core.kernelFrame - 36) called).map (backCore layout core function) := by
  refine ⟨core.passedCore layout code, passedCore_passes, ?_⟩
  have small := @interruptBytes_le core
  have frameSeen : layout.Seen core.cr3 core.frameBase core.stackOffset core.interruptBytes :=
    ready.seen.part (by bv_omega)
  have bufferSeen : layout.Seen core.cr3 (core.frameBase - 36) core.stackOffset 36 :=
    ready.seen.part (by bv_omega)
  have interrupted := @interrupt69_eq layout code (core.callingCore layout) frameSeen
  have entered := @enterSysCall_eq layout ((core.callingCore layout).interruptedCore code) direct
    bufferSeen
  rw [sysCall_split, saveRegisters_eq, loadArguments_eq ready.one, sysCallA, interrupted, entered]
  change ((dispatchSysCall layout body (core.passedCore layout code)).map _).bind _ = _
  rw [dispatchSysCall_eq direct]
  cases sysCallTarget (core.argument layout 0) with
  | none => rfl
  | some function =>
      rw [Option.bind_some, Option.bind_some]
      cases ran : body function (core.kernelFrame - 36) (core.passedCore layout code) with
      | none => rfl
      | some handled =>
          exact handled_back ready (conforms function _ _ handled rfl ready.room ran)

def lowerLayout : SwitchLayout where
  place pmap address := if pmap = 1 then address else address + 0x1000
  kernelPmap := 1
  coreState := 0x100
  tss := 0x200
  afterExit := 0x300
  afterEnter := 0x304

/-- A program in ring 0 that calls `k_sys_Puts`. -/
def putsCore : SysCore where
  eax := 11
  ebx := 12
  ecx := 13
  edx := 14
  esi := 15
  edi := 16
  ebp := 17
  esp := 0x50800
  ds := 0x8
  es := 0x8
  fs := 0x8
  cs := 0x10
  eip := 0x400
  eflags := 0x202
  cr3 := 0
  mem := store (fun _ => 0) 0x51804 11
  currentThread := 1
  nextThread := 0
  currentSp := fun _ => 0
  startSp := fun _ => 0x51000
  kernelStackOffset := fun _ => 0x1000
  tssEsp0 := 0x51000
  ss := 0x8
  currentPmap := fun _ => 0
  process := fun _ => 0
  pageMap := fun _ => 0

def sevenBody : SysBody := fun _ _ core =>
  some { core with eax := 7, mem := store core.mem (core.esp - 4) core.ebp }

def putsKept (byte : Word) : Prop := (byte - 0x517e0).toNat < 36

theorem sevenBody_conforms : sevenBody.Conforms lowerLayout putsKept 4 := by
  intro function args core after _ room ran
  cases ran
  refine ⟨rfl, rfl, rfl, rfl, rfl, rfl, rfl, rfl, rfl, rfl, rfl, rfl, ?_⟩
  intro byte kept
  apply store_outside
  apply Nat.le_of_not_lt
  intro inWord
  exact room byte inWord kept

theorem putsCore_ready : SysCallReady lowerLayout putsKept 4 putsCore := by
  apply SysCallReady.inRing0 (by decide) rfl
  · intro address _
    rfl
  · intro byte near
    have place : putsCore.esp + putsCore.stackOffset - 32 = 0x517e0 := by decide
    rw [place] at near
    exact near
  · intro byte near kept
    have place : putsCore.esp + putsCore.stackOffset - 68 - BitVec.ofNat 32 4 = 0x517b8 := by
      decide
    rw [place] at near
    unfold putsKept at kept
    bv_omega

/-- The call comes back with its status and the old registers. -/
theorem sysCall_returns_puts : ∃ after,
    sysCall lowerLayout ⟨0x6000, 0x7000⟩ sevenBody putsCore = some after ∧ after.eax = 7 ∧
      after.ebx = 12 ∧ after.esp = 0x50804 := by
  obtain ⟨called, _, ran⟩ := sysCall_returns lowerLayout ⟨0x6000, 0x7000⟩ putsKept 4 sevenBody putsCore
    (fun _ => rfl) sevenBody_conforms putsCore_ready
  have target : sysCallTarget (putsCore.argument lowerLayout 0) = some (some .puts) := by decide
  rw [target] at ran
  exact ⟨_, ran, rfl, rfl, rfl⟩

end SysCore

end DoggOS.Sys

/-
The interrupt table and the table of installed handlers.

`k_int_Init` points the vectors from 32 on into a jump table.  The stub of a
vector loads its number and goes on in `k_irq_DispatchIRQ`, which calls the
handler that was installed last, if there is one.  An entry that is put into the
interrupt table itself is entered directly, and from then on no handler is
installed for its vector.
-/

import DoggOS.Library.X86Descriptors
import Mathlib.Logic.Function.Basic
import Mathlib.Tactic.IntervalCases

namespace DoggOS.Irq

open X86

/-- `struct k_irq_desc_t` -/
structure IrqDesc where
  dw0 : Word
  dw1 : Word
  deriving DecidableEq

def descTypeIntGate : Word := 6 <<< 8

def descTypeTrapGate : Word := 7 <<< 8

def descFlagPresent : Word := 1 <<< 15

def descFlag32Bit : Word := 1 <<< 11

/-- `K_CPU_SEG_DESC_DPL` -/
def segDescDpl (level : Word) : Word := level <<< 13

/-- `K_CPU_SEG_SEL` -/
def segSel (index rpl ti : Word) : Word := index <<< 3 ||| ti ||| rpl &&& 0x3

/-- `K_IRQ_DESCRIPTOR` -/
def irqDescriptor (offset segment dpl type flags : Word) : IrqDesc where
  dw0 := offset &&& 0x0000ffff#32 ||| segment <<< 16
  dw1 := offset &&& 0xffff0000#32 ||| type ||| descFlagPresent ||| flags ||| segDescDpl dpl

/-- `struct k_cpu_seg_desc_t` -/
structure SegDesc where
  w0 : BitVec 16
  w1 : BitVec 16
  w2 : BitVec 16
  w3 : BitVec 16

/-- `K_CPU_SEG_DESC` -/
def segDesc (base limit : Word) (segType : BitVec 16) (dpl : Word) (gran opSize : BitVec 16)
    (present : Word) : SegDesc where
  w0 := limit.setWidth 16
  w1 := base.setWidth 16
  w2 := ((base >>> 16) &&& 0xff#32).setWidth 16 ||| segType ||| (segDescDpl dpl).setWidth 16 |||
    (present <<< 15).setWidth 16
  w3 := ((limit >>> 16) &&& 0xf#32).setWidth 16 ||| opSize ||| gran |||
    ((base >>> 16) &&& 0xff00#32).setWidth 16

def segDescTypeCodeData : BitVec 16 := 1 <<< 12

/-- `K_CPU_DSEG_TYPE_RW` -/
def dsegTypeRW : BitVec 16 := 1 <<< 9 ||| segDescTypeCodeData

/-- `K_CPU_CSEG_TYPE_EO` -/
def csegTypeEO : BitVec 16 := 1 <<< 11 ||| segDescTypeCodeData

/-- `K_CPU_CSEG_TYPE_ER` -/
def csegTypeER : BitVec 16 := 1 <<< 11 ||| 1 <<< 9 ||| segDescTypeCodeData

/-- `K_CPU_CSEG_TYPE_EOC` -/
def csegTypeEOC : BitVec 16 := csegTypeEO ||| 1 <<< 10

/-- `K_CPU_SSEG_TYPE_TSS32_AVAL` -/
def ssegTypeTss32Aval : BitVec 16 := 9 <<< 8

def segGran4KB : BitVec 16 := 1 <<< 7

def segOpSize32 : BitVec 16 := 1 <<< 6

/-- The segments that `k_proc_Init` loads. -/
def procGdt (tss : Word) : List SegDesc :=
  [segDesc 0 0 0 0 0 0 0,
    segDesc 0 0xffffff dsegTypeRW 0 segGran4KB segOpSize32 1,
    segDesc 0 0xffffff csegTypeEO 0 segGran4KB segOpSize32 1,
    segDesc 0 0xffffff dsegTypeRW 3 segGran4KB segOpSize32 1,
    segDesc 0 0xffffff csegTypeEO 3 segGran4KB segOpSize32 1,
    segDesc 0 0xffff csegTypeER 0 0 0 1,
    segDesc tss 0x67 ssegTypeTss32Aval 0 0 0 1,
    segDesc 0 0xffffff csegTypeEOC 0 segGran4KB segOpSize32 1]

def procSegments (tss : Word) : List SegmentDesc :=
  (procGdt tss).map fun desc => segmentOf desc.w0 desc.w1 desc.w2 desc.w3

/-- `struct k_irq_handler_t` -/
structure IrqHandler where
  handler : Word
  data : Word

/-- `k_irq_idt` and `k_irq_handler_table` -/
structure IrqTables where
  idt : Nat → IrqDesc
  handlerTable : Nat → IrqHandler

/-- The addresses of `k_int0_a` and the other exception stubs, and of `k_irq_IrqJumpTable_a`. -/
structure IrqCode where
  int : Nat → Word
  irqJumpTable : Word

/-- `K_PROC_R0_C_CODE_SEG` -/
def r0CCodeSeg : Word := 7

namespace IrqTables

def zero : IrqTables where
  idt _ := ⟨0, 0⟩
  handlerTable _ := ⟨0, 0⟩

def exceptionGates : List (Nat × Word × Word) :=
  [(0, segSel 6 3 0, descTypeIntGate), (2, segSel 6 3 0, descTypeIntGate),
    (3, segSel 6 3 0, descTypeTrapGate), (4, segSel 6 3 0, descTypeTrapGate),
    (5, segSel 6 3 0, descTypeIntGate), (6, segSel 6 3 0, descTypeIntGate),
    (7, segSel 6 3 0, descTypeIntGate), (8, segSel 6 3 0, descTypeIntGate),
    (10, segSel 6 3 0, descTypeIntGate), (13, segSel 6 3 0, descTypeIntGate),
    (14, segSel 2 3 0, descTypeIntGate)]

def jumpDescriptor (code : IrqCode) (vector : Nat) : IrqDesc :=
  irqDescriptor (code.irqJumpTable + (BitVec.ofNat 32 vector - 32) * 16) (segSel r0CCodeSeg 3 0) 3
    descTypeIntGate descFlag32Bit

def initException (code : IrqCode) (tables : IrqTables) (entry : Nat × Word × Word) : IrqTables :=
  { tables with
    idt := Function.update tables.idt entry.1
      (irqDescriptor (code.int entry.1) entry.2.1 3 entry.2.2 descFlag32Bit) }

def initVector (code : IrqCode) (tables : IrqTables) (index : Nat) : IrqTables where
  idt := Function.update tables.idt index (jumpDescriptor code index)
  handlerTable := Function.update tables.handlerTable index ⟨0, 0⟩

/-- `k_int_Init` -/
def intInit (code : IrqCode) (tables : IrqTables) : IrqTables :=
  (List.range' 32 224).foldl (initVector code) (exceptionGates.foldl (initException code) tables)

/-- `k_irq_SetIDTEntry` -/
def setIDTEntry (tables : IrqTables) (vector : Nat) (handler segSel gatePl : Word) : IrqTables :=
  { tables with
    idt := Function.update tables.idt vector
      (irqDescriptor handler segSel gatePl descTypeIntGate descFlag32Bit) }

/-- `k_irq_SetInterruptHandler`; the message on the terminal is left out. -/
def setInterruptHandler (code : IrqCode) (tables : IrqTables) (vector : Nat)
    (handler data : Word) : IrqTables :=
  if 32 ≤ vector ∧ vector < 256 then
    if tables.idt vector = jumpDescriptor code vector then
      { tables with handlerTable := Function.update tables.handlerTable vector ⟨handler, data⟩ }
    else tables
  else tables

/-- `k_irq_DispatchIRQ`: the handler that it calls. -/
def dispatchIRQ (tables : IrqTables) (vector : Nat) : Option IrqHandler :=
  if (tables.handlerTable vector).handler ≠ 0 then some (tables.handlerTable vector) else none

end IrqTables

/-- The macro `k_irq_jmp_table_entry`: the numbers loaded by `more + 1` stubs. -/
def jmpTableEntries (first : Nat) : Nat → List Nat
  | 0 => [first]
  | more + 1 => first :: jmpTableEntries (first + 1) more

/-- `k_irq_IrqJumpTable_a`: the number that each of its stubs loads. -/
def irqJumpTable : List Nat :=
  jmpTableEntries 32 (64 - 32) ++ jmpTableEntries 65 (96 - 65) ++ jmpTableEntries 97 (128 - 97) ++
    jmpTableEntries 129 (160 - 129) ++ jmpTableEntries 161 (192 - 161) ++
    jmpTableEntries 193 (224 - 193) ++ jmpTableEntries 225 (256 - 225)

/-- The number that the code at an address loads, where a stub starts there.  A stub is a call, a
move and a jump, at most fifteen bytes, and stubs are aligned to sixteen. -/
def stubAt (code : IrqCode) (address : Word) : Option Nat :=
  if (address - code.irqJumpTable).toNat % 16 = 0 then
    irqJumpTable[(address - code.irqJumpTable).toNat / 16]?
  else none

inductive IrqTarget where
  | fault
  | direct (address : Word) (ring : BitVec 2)
  | shared (vector : Nat) (called : Option IrqHandler) (ring : BitVec 2)

def IrqTables.target (code : IrqCode) (tables : IrqTables) : Option (Word × BitVec 2) → IrqTarget
  | none => .fault
  | some (address, ring) =>
      match stubAt code address with
      | none => .direct address ring
      | some vector => .shared vector (tables.dispatchIRQ vector) ring

/-- An interrupt of code in a ring; `software` where it is the `int` instruction. -/
def IrqTables.raise (code : IrqCode) (segments : List SegmentDesc) (tables : IrqTables)
    (ring : BitVec 2) (software : Bool) (vector : Nat) : IrqTarget :=
  tables.target code
    ((gateOf (tables.idt vector).dw0 (tables.idt vector).dw1).bind (enter segments ring software))

end DoggOS.Irq

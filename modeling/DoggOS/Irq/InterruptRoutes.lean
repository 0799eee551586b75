/-
Where interrupts go, over whole runs.

The two tables are changed by entries that are put into the interrupt table and
by handlers that are installed.  As long as no entry is put in for a vector, its
interrupts reach the handler that was installed last; the last entry that is put
in takes over.
-/

import DoggOS.Irq.InterruptTables
import Mathlib.Data.List.Induction

namespace DoggOS.Irq

open X86

section Descriptors

variable {offset : Word} {segment : BitVec 16} {ring : BitVec 2} {type : Word}

theorem irqDescriptor_dw0 (dpl type flags : Word) :
    (irqDescriptor offset (segment.setWidth 32) dpl type flags).dw0.extractLsb' 0 16 =
        offset.extractLsb' 0 16 ∧
      (irqDescriptor offset (segment.setWidth 32) dpl type flags).dw0.extractLsb' 16 16 =
        segment := by
  unfold irqDescriptor
  constructor
  · ext i inside
    interval_cases i <;> simp
  · ext i inside
    interval_cases i <;> simp

theorem irqDescriptor_dw1 (isGate : type = descTypeIntGate ∨ type = descTypeTrapGate)
    (segment : Word) :
    let dw1 := (irqDescriptor offset segment (ring.setWidth 32) type descFlag32Bit).dw1
    dw1.extractLsb' 16 16 = offset.extractLsb' 16 16 ∧ dw1.getLsbD 15 = true ∧
      dw1.extractLsb' 13 2 = ring ∧ dw1.extractLsb' 9 4 = 7#4 ∧
      dw1.getLsbD 8 = type.getLsbD 8 := by
  unfold irqDescriptor segDescDpl descFlagPresent descFlag32Bit
  rcases isGate with rfl | rfl
  · unfold descTypeIntGate
    refine ⟨?_, by simp, ?_, ?_, by simp⟩
    · ext i inside
      interval_cases i <;> simp
    · ext i inside
      interval_cases i <;> simp
    · ext i inside
      interval_cases i <;> simp
  · unfold descTypeTrapGate
    refine ⟨?_, by simp, ?_, ?_, by simp⟩
    · ext i inside
      interval_cases i <;> simp
    · ext i inside
      interval_cases i <;> simp
    · ext i inside
      interval_cases i <;> simp

theorem gateOf_irqDescriptor (isGate : type = descTypeIntGate ∨ type = descTypeTrapGate) :
    gateOf (irqDescriptor offset (segment.setWidth 32) (ring.setWidth 32) type descFlag32Bit).dw0
      (irqDescriptor offset (segment.setWidth 32) (ring.setWidth 32) type descFlag32Bit).dw1 =
        some ⟨offset, segment, ring, type.getLsbD 8⟩ := by
  obtain ⟨low, selector⟩ := @irqDescriptor_dw0 offset segment (ring.setWidth 32) type descFlag32Bit
  obtain ⟨high, present, level, wide, trap⟩ :=
    @irqDescriptor_dw1 offset ring type isGate (segment.setWidth 32)
  have whole : offset.extractLsb' 16 16 ++ offset.extractLsb' 0 16 = offset := by
    rw [BitVec.extractLsb'_append_extractLsb'_eq_extractLsb' (by decide)]
    exact BitVec.extractLsb'_eq_self
  unfold gateOf
  rw [if_pos ⟨present, wide⟩, level, trap, high, low, selector, whole]

theorem segmentOf_segDesc {base limit : Word} {kind : BitVec 5} {gran opSize : BitVec 16}
    (isGran : gran = 0 ∨ gran = segGran4KB) (isSize : opSize = 0 ∨ opSize = segOpSize32) :
    let desc := segDesc base limit (kind.setWidth 16 <<< 8) (ring.setWidth 32) gran opSize 1
    segmentOf desc.w0 desc.w1 desc.w2 desc.w3 =
      ⟨base, limit.setWidth 20, true, ring, kind.getLsbD 4 && kind.getLsbD 3, kind.getLsbD 2⟩ := by
  intro desc
  have whole {width : Nat} (word : Word) : word.extractLsb' 0 width = word.setWidth width := by
    ext i
    simp
  have middle : desc.w2.extractLsb' 0 8 = base.extractLsb' 16 8 := by
    ext i inside
    unfold desc segDesc segDescDpl
    interval_cases i <;> simp
  obtain ⟨top, limitTop⟩ : desc.w3.extractLsb' 8 8 = base.extractLsb' 24 8 ∧
      desc.w3.extractLsb' 0 4 = limit.extractLsb' 16 4 := by
    unfold desc segDesc segGran4KB segOpSize32 at *
    constructor
    · ext i inside
      rcases isGran with rfl | rfl <;> rcases isSize with rfl | rfl <;> interval_cases i <;> simp
    · ext i inside
      rcases isGran with rfl | rfl <;> rcases isSize with rfl | rfl <;> interval_cases i <;> simp
  unfold segmentOf
  change SegmentDesc.mk (_ ++ base.setWidth 16) (_ ++ limit.setWidth 16) _ _ _ _ = _
  rw [top, limitTop, middle, ← whole, ← whole,
    BitVec.extractLsb'_append_extractLsb'_eq_extractLsb' (by decide),
    BitVec.extractLsb'_append_extractLsb'_eq_extractLsb' (by decide),
    BitVec.extractLsb'_append_extractLsb'_eq_extractLsb' (by decide)]
  simp only [SegmentDesc.mk.injEq]
  unfold desc segDesc segDescDpl
  refine ⟨BitVec.extractLsb'_eq_self, whole limit, ?_, ?_, ?_, ?_⟩
  · simp
  · ext i inside
    interval_cases i <;> simp
  · simp
  · simp

/-- The conforming code segment is the last one, and the one that the exceptions name is no code
segment. -/
theorem procSegments_eq (tss : Word) : procSegments tss =
    [⟨0, 0, false, 0, false, false⟩, ⟨0, 0xfffff, true, 0, false, false⟩,
      ⟨0, 0xfffff, true, 0, true, false⟩, ⟨0, 0xfffff, true, 3, false, false⟩,
      ⟨0, 0xfffff, true, 3, true, false⟩, ⟨0, 0xffff, true, 0, true, false⟩,
      ⟨tss, 0x67, true, 0, false, false⟩, ⟨0, 0xfffff, true, 0, true, true⟩] := by
  have taskState := @segmentOf_segDesc 0#2 tss 0x67 0x09#5 0 0 (Or.inl rfl) (Or.inl rfl)
  unfold procSegments procGdt
  simp only [List.map_cons, List.map_nil, List.cons.injEq, and_true]
  exact ⟨rfl, rfl, rfl, rfl, rfl, rfl, taskState, rfl⟩

end Descriptors

section JumpTable

theorem jmpTableEntries_eq (first more : Nat) :
    jmpTableEntries first more = List.range' first (more + 1) := by
  induction more generalizing first with
  | zero => rfl
  | succ more ih =>
      rw [jmpTableEntries, ih]
      rfl

theorem irqJumpTable_eq : irqJumpTable = List.range' 32 225 := by
  unfold irqJumpTable
  simp only [jmpTableEntries_eq]
  decide +kernel

variable (code : IrqCode) {vector : Nat}

def IrqCode.stub (vector : Nat) : Word :=
  code.irqJumpTable + (BitVec.ofNat 32 vector - 32) * 16

theorem stubAt_stub (from32 : 32 ≤ vector) (below : vector < 256) :
    stubAt code (code.stub vector) = some vector := by
  have place : (code.stub vector - code.irqJumpTable).toNat = (vector - 32) * 16 := by
    unfold IrqCode.stub
    bv_omega
  unfold stubAt
  rw [place, if_pos (Nat.mul_mod_left _ 16), Nat.mul_div_cancel _ (by decide), irqJumpTable_eq,
    List.getElem?_range' (by omega)]
  congr 1
  omega

def IrqCode.jumpGate (vector : Nat) : Gate := ⟨code.stub vector, 0x3b, 3, false⟩

theorem gateOf_jumpDescriptor (vector : Nat) :
    gateOf (IrqTables.jumpDescriptor code vector).dw0 (IrqTables.jumpDescriptor code vector).dw1 =
      some (code.jumpGate vector) :=
  @gateOf_irqDescriptor (code.stub vector) 0x3b 3 descTypeIntGate (Or.inl rfl)

/-- A gate for ring 3 may be called from every ring. -/
theorem callable (ring : BitVec 2) (software : Bool) :
    ¬ (software = true ∧ (3 : BitVec 2) < ring) := by
  revert ring software
  decide

theorem enter_jumpGate (tss : Word) (ring : BitVec 2) (software : Bool) :
    enter (procSegments tss) ring software (code.jumpGate vector) =
      some (code.stub vector, ring) := by
  have selected : (procSegments tss)[((0x3b : BitVec 16) >>> 3).toNat]? =
      some ⟨0, 0xfffff, true, 0, true, true⟩ := by
    rw [procSegments_eq]
    rfl
  have above : (0 : BitVec 2) ≤ ring := Nat.zero_le _
  unfold enter IrqCode.jumpGate
  dsimp only
  rw [if_neg (callable ring software), if_neg (by decide), selected]
  dsimp only
  rw [if_pos ⟨rfl, rfl, above⟩, if_pos rfl]

end JumpTable

/-- The calls that change the tables.  An entry is put in at a vector of the table. -/
inductive IrqCall where
  | setIDTEntry (vector : Fin 256) (handler : Word) (segSel : BitVec 16) (gatePl : BitVec 2)
  | setInterruptHandler (vector : Nat) (handler data : Word)
  deriving DecidableEq

def IrqCall.Puts (vector : Nat) : IrqCall → Prop
  | .setIDTEntry entry _ _ _ => entry.val = vector
  | .setInterruptHandler _ _ _ => False

namespace IrqTables

variable (code : IrqCode)

def call (tables : IrqTables) : IrqCall → IrqTables
  | .setIDTEntry vector handler segSel gatePl =>
      tables.setIDTEntry vector handler (segSel.setWidth 32) (gatePl.setWidth 32)
  | .setInterruptHandler vector handler data => tables.setInterruptHandler code vector handler data

/-- The tables after `k_int_Init` and the calls. -/
def run (calls : List IrqCall) : IrqTables := calls.foldl (call code) (intInit code zero)

def installed (vector : Nat) (calls : List IrqCall) : Option IrqHandler :=
  (calls.filterMap fun call =>
    match call with
    | .setInterruptHandler at_ handler data =>
        if at_ = vector then some ⟨handler, data⟩ else none
    | .setIDTEntry _ _ _ _ => none).getLast?

variable {code} {vector : Nat} {calls : List IrqCall} {tables : IrqTables}

theorem run_append (earlier later : List IrqCall) :
    run code (earlier ++ later) = later.foldl (call code) (run code earlier) :=
  List.foldl_append

theorem initVector_foldl (first count : Nat) (tables : IrqTables) :
    ((List.range' first count).foldl (initVector code) tables).idt vector =
        (if first ≤ vector ∧ vector < first + count then jumpDescriptor code vector
          else tables.idt vector) ∧
      ((List.range' first count).foldl (initVector code) tables).handlerTable vector =
        if first ≤ vector ∧ vector < first + count then ⟨0, 0⟩
          else tables.handlerTable vector := by
  induction count generalizing first tables with
  | zero => simp
  | succ count ih =>
      rw [List.range'_succ, List.foldl_cons]
      obtain ⟨idt, handlers⟩ := ih (first + 1) (initVector code tables first)
      rw [idt, handlers]
      unfold initVector
      simp only [Function.update_apply]
      by_cases here : vector = first
      · rw [here]
        simp
      · rw [if_neg here, if_neg here]
        have same : (first + 1 ≤ vector ∧ vector < first + 1 + count) ↔
            first ≤ vector ∧ vector < first + (count + 1) := by omega
        simp only [same, and_self]

/-- The entries of the vectors from 32 on after `k_int_Init`. -/
theorem intInit_vector (from32 : 32 ≤ vector) (below : vector < 256) (tables : IrqTables) :
    (intInit code tables).idt vector = jumpDescriptor code vector ∧
      (intInit code tables).handlerTable vector = ⟨0, 0⟩ := by
  obtain ⟨idt, handlers⟩ := @initVector_foldl code vector 32 224
    (exceptionGates.foldl (initException code) tables)
  unfold intInit
  rw [idt, handlers, if_pos ⟨from32, by omega⟩, if_pos ⟨from32, by omega⟩]
  exact ⟨rfl, rfl⟩

theorem setInterruptHandler_idt (entry : Nat) (handler data : Word) :
    (tables.setInterruptHandler code entry handler data).idt = tables.idt := by
  unfold setInterruptHandler
  split
  · split <;> rfl
  · rfl

theorem setInterruptHandler_other {entry : Nat} (handler data : Word)
    (other : entry = vector → tables.idt vector ≠ jumpDescriptor code vector) :
    (tables.setInterruptHandler code entry handler data).handlerTable vector =
      tables.handlerTable vector := by
  unfold setInterruptHandler
  split
  · split
    · rename_i free
      apply Function.update_of_ne
      intro same
      rw [← same] at free
      exact other same.symm free
    · rfl
  · rfl

theorem setInterruptHandler_free (from32 : 32 ≤ vector) (below : vector < 256)
    (free : tables.idt vector = jumpDescriptor code vector) (handler data : Word) :
    (tables.setInterruptHandler code vector handler data).handlerTable vector =
      ⟨handler, data⟩ := by
  unfold setInterruptHandler
  rw [if_pos ⟨from32, below⟩, if_pos free]
  exact Function.update_self _ _ _

theorem call_idt {made : IrqCall} (other : ¬ made.Puts vector) :
    (tables.call code made).idt vector = tables.idt vector := by
  cases made with
  | setIDTEntry entry handler segSel gatePl =>
      exact Function.update_of_ne (Ne.symm other) _ _
  | setInterruptHandler entry handler data =>
      exact congrFun (setInterruptHandler_idt entry handler data) vector

theorem foldl_idt (quiet : ∀ made ∈ calls, ¬ made.Puts vector) (tables : IrqTables) :
    (calls.foldl (call code) tables).idt vector = tables.idt vector := by
  induction calls generalizing tables with
  | nil => rfl
  | cons made rest ih =>
      rw [List.foldl_cons, ih fun later member => quiet later (List.mem_cons_of_mem made member),
        call_idt (quiet made List.mem_cons_self)]

/-- No handler is installed once the entry is another one. -/
theorem foldl_handlers (quiet : ∀ made ∈ calls, ¬ made.Puts vector)
    (taken : tables.idt vector ≠ jumpDescriptor code vector) :
    (calls.foldl (call code) tables).handlerTable vector = tables.handlerTable vector := by
  induction calls generalizing tables with
  | nil => rfl
  | cons made rest ih =>
      have other := quiet made List.mem_cons_self
      have taken' : (tables.call code made).idt vector ≠ jumpDescriptor code vector := by
        rw [call_idt other]
        exact taken
      rw [List.foldl_cons, ih (fun later member => quiet later (List.mem_cons_of_mem made member))
        taken']
      cases made with
      | setIDTEntry entry handler segSel gatePl => rfl
      | setInterruptHandler entry handler data =>
          exact setInterruptHandler_other handler data fun _ => taken

/-- As long as nothing is put in, the last handler is in its table. -/
theorem run_installed (from32 : 32 ≤ vector) (below : vector < 256)
    (quiet : ∀ made ∈ calls, ¬ made.Puts vector) :
    (run code calls).handlerTable vector = (installed vector calls).getD ⟨0, 0⟩ := by
  induction calls using List.reverseRecOn with
  | nil =>
      rw [run, List.foldl_nil, (intInit_vector from32 below zero).2]
      rfl
  | append_singleton earlier made ih =>
      have before : ∀ made ∈ earlier, ¬ made.Puts vector := fun made member =>
        quiet made (List.mem_append_left _ member)
      have entry : (run code earlier).idt vector = jumpDescriptor code vector := by
        unfold run
        rw [foldl_idt before]
        exact (intInit_vector from32 below zero).1
      have here := ih before
      rw [run_append, List.foldl_cons, List.foldl_nil]
      unfold installed
      rw [List.filterMap_append, List.getLast?_append]
      cases made with
      | setIDTEntry other handler segSel gatePl => exact here
      | setInterruptHandler other handler data =>
          by_cases same : other = vector
          · have new := setInterruptHandler_free from32 below entry handler data
            rw [same]
            simp [call, new]
          · have kept := @setInterruptHandler_other code vector (run code earlier) other handler data
              (absurd · same)
            change ((run code earlier).setInterruptHandler code other handler data).handlerTable
              vector = _
            rw [kept, here]
            simp [same, installed]

end IrqTables

section Routes

variable {code : IrqCode} {tss : Word} {calls : List IrqCall} {vector : Nat}

theorem enter_offset {segments : List SegmentDesc} {ring : BitVec 2} {software : Bool} {gate : Gate}
    {address : Word} {entered : BitVec 2}
    (enters : enter segments ring software gate = some (address, entered)) :
    address = gate.offset := by
  unfold enter at enters
  split at enters
  · cases enters
  · split at enters
    · cases enters
    · split at enters
      · cases enters
      · split at enters
        · injection enters with pair
          exact (congrArg Prod.fst pair).symm
        · cases enters

theorem run_entry {earlier later : List IrqCall} {entry : Fin 256} {handler : Word}
    {segSel : BitVec 16} {gatePl : BitVec 2} (here : entry.val = vector)
    (quiet : ∀ made ∈ later, ¬ made.Puts vector) :
    (IrqTables.run code (earlier ++ .setIDTEntry entry handler segSel gatePl :: later)).idt vector =
      irqDescriptor handler (segSel.setWidth 32) (gatePl.setWidth 32) descTypeIntGate
        descFlag32Bit := by
  rw [IrqTables.run_append, List.foldl_cons, IrqTables.foldl_idt quiet, ← here]
  exact Function.update_self _ _ _

theorem raise_entry {tables : IrqTables} {handler type : Word} {segSel : BitVec 16}
    {gatePl : BitVec 2} (isGate : type = descTypeIntGate ∨ type = descTypeTrapGate)
    (entry : tables.idt vector = irqDescriptor handler (segSel.setWidth 32)
      (gatePl.setWidth 32) type descFlag32Bit) (segments : List SegmentDesc)
    (ring : BitVec 2) (software : Bool) :
    tables.raise code segments ring software vector =
      tables.target code
        (enter segments ring software ⟨handler, segSel, gatePl, type.getLsbD 8⟩) := by
  unfold IrqTables.raise
  rw [entry, gateOf_irqDescriptor isGate]
  rfl

/-- Where the interrupts of a vector go after the calls: to the handler that was installed last,
or where the entry that was put in last says. -/
structure Routed (code : IrqCode) (tss : Word) (calls : List IrqCall) (vector : Nat) : Prop where
  shared : (∀ made ∈ calls, ¬ made.Puts vector) → ∀ ring software,
    (IrqTables.run code calls).raise code (procSegments tss) ring software vector =
      .shared vector
        ((IrqTables.installed vector calls).bind fun installed =>
          if installed.handler ≠ 0 then some installed else none) ring
  direct : ∀ earlier entry handler segSel gatePl later,
    calls = earlier ++ .setIDTEntry entry handler segSel gatePl :: later → entry.val = vector →
      (∀ made ∈ later, ¬ made.Puts vector) → stubAt code handler = none →
        (∀ ring software,
          (IrqTables.run code calls).raise code (procSegments tss) ring software vector =
            match enter (procSegments tss) ring software ⟨handler, segSel, gatePl, false⟩ with
            | none => .fault
            | some (address, ring) => .direct address ring) ∧
        (IrqTables.run code calls).handlerTable vector =
          (IrqTables.run code earlier).handlerTable vector

/-- The handler that was installed last is the one that is called. -/
theorem run_dispatches (from32 : 32 ≤ vector) (below : vector < 256)
    (quiet : ∀ made ∈ calls, ¬ made.Puts vector) :
    (IrqTables.run code calls).dispatchIRQ vector =
      (IrqTables.installed vector calls).bind fun installed =>
        if installed.handler ≠ 0 then some installed else none := by
  unfold IrqTables.dispatchIRQ
  rw [IrqTables.run_installed from32 below quiet]
  cases IrqTables.installed vector calls with
  | none => rfl
  | some installed => rfl

theorem raise_shared (from32 : 32 ≤ vector) (below : vector < 256)
    (quiet : ∀ made ∈ calls, ¬ made.Puts vector) (ring : BitVec 2) (software : Bool) :
    (IrqTables.run code calls).raise code (procSegments tss) ring software vector =
      .shared vector
        ((IrqTables.installed vector calls).bind fun installed =>
          if installed.handler ≠ 0 then some installed else none) ring := by
  have entry : (IrqTables.run code calls).idt vector = IrqTables.jumpDescriptor code vector := by
    unfold IrqTables.run
    rw [IrqTables.foldl_idt quiet]
    exact (IrqTables.intInit_vector from32 below IrqTables.zero).1
  unfold IrqTables.raise
  rw [entry, gateOf_jumpDescriptor, Option.bind_some, enter_jumpGate]
  unfold IrqTables.target
  dsimp only
  rw [stubAt_stub code from32 below]
  dsimp only
  rw [run_dispatches from32 below quiet]

/-- Every run routes the interrupts from 32 on. -/
theorem interrupts_routed (code : IrqCode) (tss : Word) (calls : List IrqCall) (vector : Nat)
    (from32 : 32 ≤ vector) (below : vector < 256) : Routed code tss calls vector := by
  refine ⟨fun quiet => raise_shared from32 below quiet, ?_⟩
  intro earlier entry handler segSel gatePl later isCalls here quiet notStub
  have entered := @run_entry code vector earlier later entry handler segSel gatePl here quiet
  rw [isCalls]
  constructor
  · intro ring software
    rw [raise_entry (Or.inl rfl) entered, show descTypeIntGate.getLsbD 8 = false from rfl]
    cases enters : enter (procSegments tss) ring software ⟨handler, segSel, gatePl, false⟩ with
    | none => rfl
    | some pair =>
        have offset := enter_offset enters
        unfold IrqTables.target
        dsimp only
        rw [offset, notStub]
  · have taken : ((IrqTables.run code earlier).call code
        (.setIDTEntry entry handler segSel gatePl)).idt vector ≠
          IrqTables.jumpDescriptor code vector := by
      intro same
      have put : ((IrqTables.run code earlier).call code
          (.setIDTEntry entry handler segSel gatePl)).idt vector = irqDescriptor handler
            (segSel.setWidth 32) (gatePl.setWidth 32) descTypeIntGate descFlag32Bit := by
        rw [← here]
        exact Function.update_self _ _ _
      have gate := @gateOf_irqDescriptor handler segSel gatePl descTypeIntGate (Or.inl rfl)
      rw [← put, same, gateOf_jumpDescriptor, Option.some_inj] at gate
      have isStub : code.stub vector = handler := congrArg Gate.offset gate
      rw [← isStub, stubAt_stub code from32 below] at notStub
      cases notStub
    rw [IrqTables.run_append, List.foldl_cons, IrqTables.foldl_handlers quiet taken]
    rfl

/-- A handler is installed twice for one vector, and an entry put in for another one. -/
theorem interrupts_routed_keyboard :
    Routed ⟨fun _ => 0x1000, 0x2000⟩ 0x3000
      [.setInterruptHandler 33 0x4000 1, .setIDTEntry 38 0x5000 0x10 3,
        .setInterruptHandler 33 0x4000 2] 33 :=
  interrupts_routed _ _ _ 33 (by decide) (by decide)

end Routes

end DoggOS.Irq

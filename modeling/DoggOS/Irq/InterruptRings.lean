/-
The ring in which each interrupt is handled.

After the kernel has started, only handlers are installed.  The two entries for
system calls and preemption lead into ring 0 from any ring, and the one that
starts a user thread only from ring 0.  Every other vector from 32 on is open to
the `int` instruction of any ring and is handled in the ring it came from.  Of the
exceptions only the page fault has a gate whose segment holds code.
-/

import DoggOS.Irq.InterruptRoutes

namespace DoggOS.Irq

open X86

/-- The entries that `k_sys_Init` and `k_proc_Init` put in. -/
def bootCalls (sysCall preemptThread startUserThread : Word) : List IrqCall :=
  [.setIDTEntry 69 sysCall 0x10 3, .setIDTEntry 38 preemptThread 0x10 3,
    .setIDTEntry 39 startUserThread 0x10 0]

def IrqTarget.ring : IrqTarget → Option (BitVec 2)
  | .fault => none
  | .direct _ ring => some ring
  | .shared _ _ ring => some ring

def handledIn (vector : Nat) (ring : BitVec 2) (software : Bool) : Option (BitVec 2) :=
  if vector = 39 then
    if software ∧ 0 < ring then none else some 0
  else if vector = 14 ∨ vector = 38 ∨ vector = 69 then some 0
  else if 32 ≤ vector then some ring
  else none

section Exceptions

variable {code : IrqCode} {tss : Word} {calls : List IrqCall} {vector : Nat} {tables : IrqTables}

theorem target_ring (entered : Option (Word × BitVec 2)) :
    (tables.target code entered).ring = entered.map Prod.snd := by
  cases entered with
  | none => rfl
  | some pair =>
      unfold IrqTables.target
      dsimp only
      cases stubAt code pair.1 with
      | none => rfl
      | some stub => rfl

theorem initException_self (tables : IrqTables) (entry : Nat × Word × Word) :
    (tables.initException code entry).idt entry.1 =
      irqDescriptor (code.int entry.1) entry.2.1 3 entry.2.2 descFlag32Bit :=
  Function.update_self _ _ _

/-- The entries of a list, of which the last for a vector counts. -/
theorem initException_foldl (entries : List (Nat × Word × Word)) (tables : IrqTables) :
    (entries.foldl (IrqTables.initException code) tables).idt vector = tables.idt vector ∨
      ∃ entry ∈ entries, entry.1 = vector ∧
        (entries.foldl (IrqTables.initException code) tables).idt vector =
          irqDescriptor (code.int vector) entry.2.1 3 entry.2.2 descFlag32Bit := by
  induction entries using List.reverseRecOn with
  | nil => exact Or.inl rfl
  | append_singleton earlier entry ih =>
      rw [List.foldl_append, List.foldl_cons, List.foldl_nil]
      by_cases here : entry.1 = vector
      · refine Or.inr ⟨entry, List.mem_append_right _ List.mem_cons_self, here, ?_⟩
        rw [← here]
        exact initException_self _ entry
      · have kept : ((earlier.foldl (IrqTables.initException code) tables).initException code
            entry).idt vector = (earlier.foldl (IrqTables.initException code) tables).idt vector :=
          Function.update_of_ne (Ne.symm here) _ _
        rw [kept]
        refine ih.imp_right ?_
        rintro ⟨found, member, named, isEntry⟩
        exact ⟨found, List.mem_append_left _ member, named, isEntry⟩

/-- The entry of an exception in every run that puts nothing in for it. -/
theorem run_exception (below : vector < 32) (quiet : ∀ made ∈ calls, ¬ made.Puts vector) :
    (IrqTables.run code calls).idt vector =
      (IrqTables.exceptionGates.foldl (IrqTables.initException code) IrqTables.zero).idt
        vector := by
  unfold IrqTables.run IrqTables.intInit
  rw [IrqTables.foldl_idt quiet, (IrqTables.initVector_foldl 32 224 _).1, if_neg (by omega)]

/-- A gate with the segment of the task state faults. -/
theorem enter_taskState (ring : BitVec 2) (software trap : Bool) (offset : Word) :
    enter (procSegments tss) ring software ⟨offset, 0x33, 3, trap⟩ = none := by
  have selected : (procSegments tss)[((0x33 : BitVec 16) >>> 3).toNat]? =
      some ⟨tss, 0x67, true, 0, false, false⟩ := by
    rw [procSegments_eq]
    rfl
  unfold enter
  dsimp only
  rw [selected]
  simp

theorem enter_kernelCode {selector : BitVec 16} (index : selector >>> 3 = 2)
    (global : selector.getLsbD 2 = false) (gateRing ring : BitVec 2) (software trap : Bool)
    (offset : Word) :
    enter (procSegments tss) ring software ⟨offset, selector, gateRing, trap⟩ =
      if software ∧ gateRing < ring then none else some (offset, 0) := by
  have selected : (procSegments tss)[(selector >>> 3).toNat]? =
      some ⟨0, 0xfffff, true, 0, true, false⟩ := by
    rw [index, procSegments_eq]
    rfl
  have above : (0 : BitVec 2) ≤ ring := Nat.zero_le _
  unfold enter
  dsimp only
  by_cases barred : software = true ∧ gateRing < ring
  · rw [if_pos barred, if_pos barred]
  · rw [if_neg barred, if_neg barred, selected, global, if_neg Bool.false_ne_true]
    dsimp only
    rw [if_pos ⟨rfl, rfl, above⟩, if_neg Bool.false_ne_true]

/-- The segment of every exception but the page fault. -/
theorem exceptionGates_segment : ∀ entry ∈ IrqTables.exceptionGates, entry.1 ≠ 14 →
    entry.2.1 = (0x33 : BitVec 16).setWidth 32 ∧
      (entry.2.2 = descTypeIntGate ∨ entry.2.2 = descTypeTrapGate) := by
  decide

theorem raise_exception (below : vector < 32) (quiet : ∀ made ∈ calls, ¬ made.Puts vector)
    (ring : BitVec 2) (software : Bool) :
    ((IrqTables.run code calls).raise code (procSegments tss) ring software vector).ring =
      if vector = 14 then some 0 else none := by
  have entry := @run_exception code calls vector below quiet
  by_cases pageFault : vector = 14
  · have found : (IrqTables.run code calls).idt vector = irqDescriptor (code.int 14)
        ((0x13 : BitVec 16).setWidth 32) ((3 : BitVec 2).setWidth 32) descTypeIntGate
          descFlag32Bit := by
      rw [entry, pageFault]
      have last : IrqTables.exceptionGates =
          IrqTables.exceptionGates.dropLast ++ [(14, segSel 2 3 0, descTypeIntGate)] := by decide
      rw [last, List.foldl_append, List.foldl_cons, List.foldl_nil]
      exact initException_self _ (14, segSel 2 3 0, descTypeIntGate)
    rw [raise_entry (Or.inl rfl) found, target_ring, enter_kernelCode (by decide) (by decide),
      if_neg (callable ring software), if_pos pageFault]
    rfl
  · rw [if_neg pageFault]
    rcases @initException_foldl code vector IrqTables.exceptionGates IrqTables.zero with
      empty | ⟨exception, member, here, found⟩
    · have absent : gateOf (IrqTables.zero.idt vector).dw0 (IrqTables.zero.idt vector).dw1 =
          none := (by decide : gateOf 0 0 = none)
      unfold IrqTables.raise
      rw [entry, empty, absent]
      rfl
    · obtain ⟨segment, isGate⟩ := exceptionGates_segment exception member (here ▸ pageFault)
      have found' : (IrqTables.run code calls).idt vector = irqDescriptor (code.int vector)
          ((0x33 : BitVec 16).setWidth 32) ((3 : BitVec 2).setWidth 32) exception.2.2
            descFlag32Bit := by
        rw [entry, found, segment]
        rfl
      rw [raise_entry isGate found', target_ring, enter_taskState]
      rfl

end Exceptions

/-- Every interrupt of the running kernel is handled in the ring it is meant to be. -/
theorem interrupts_enterRings (code : IrqCode)
    (tss sysCall preemptThread startUserThread : Word) (later : List IrqCall)
    (onlyHandlers : ∀ vector, ∀ made ∈ later, ¬ made.Puts vector) (vector : Nat)
    (below : vector < 256) (ring : BitVec 2) (software : Bool) :
    ((IrqTables.run code (bootCalls sysCall preemptThread startUserThread ++ later)).raise code
        (procSegments tss) ring software vector).ring = handledIn vector ring software := by
  have quiet : vector ≠ 38 → vector ≠ 39 → vector ≠ 69 →
      ∀ made ∈ bootCalls sysCall preemptThread startUserThread ++ later, ¬ made.Puts vector := by
    intro not38 not39 not69 made member
    rcases List.mem_append.mp member with boot | rest
    · unfold bootCalls at boot
      simp only [List.mem_cons, List.not_mem_nil, or_false] at boot
      rcases boot with rfl | rfl | rfl
      · exact not69.symm
      · exact not38.symm
      · exact not39.symm
    · exact onlyHandlers vector made rest
  -- The entry of `entry` was put in by the boot call between `before` and `after`.
  have put : ∀ before after entry handler gatePl, entry.val = vector →
      bootCalls sysCall preemptThread startUserThread =
        before ++ .setIDTEntry entry handler 0x10 gatePl :: after →
      (∀ made ∈ after, ¬ made.Puts vector) →
      ((IrqTables.run code (bootCalls sysCall preemptThread startUserThread ++ later)).raise code
        (procSegments tss) ring software vector).ring =
          if software ∧ gatePl < ring then none else some 0 := by
    intro before after entry handler gatePl here isBoot otherwise
    have entered := @run_entry code vector before (after ++ later) entry handler 0x10 gatePl here
      fun made member => (List.mem_append.mp member).elim (otherwise made)
        (onlyHandlers vector made)
    rw [isBoot, List.append_assoc, List.cons_append, raise_entry (Or.inl rfl) entered, target_ring,
      enter_kernelCode (by decide) (by decide)]
    split <;> rfl
  unfold handledIn
  by_cases start : vector = 39
  · rw [if_pos start]
    exact put [_, _] [] 39 startUserThread 0 start.symm rfl nofun
  rw [if_neg start]
  by_cases call : vector = 69
  · rw [if_pos (Or.inr (Or.inr call)), put [] [_, _] 69 sysCall 3 call.symm rfl,
      if_neg (callable ring software)]
    rw [call]
    simp only [List.forall_mem_cons]
    exact ⟨(by decide : ¬ (38 : Fin 256).val = 69), (by decide : ¬ (39 : Fin 256).val = 69), nofun⟩
  by_cases preempt : vector = 38
  · rw [if_pos (Or.inr (Or.inl preempt)), put [_] [_] 38 preemptThread 3 preempt.symm rfl,
      if_neg (callable ring software)]
    rw [preempt]
    simp only [List.forall_mem_cons]
    exact ⟨(by decide : ¬ (39 : Fin 256).val = 38), nofun⟩
  have quiet := quiet preempt start call
  by_cases from32 : 32 ≤ vector
  · rw [if_neg (by omega), if_pos from32, raise_shared from32 below quiet]
    rfl
  · rw [raise_exception (by omega) quiet, if_neg from32]
    by_cases pageFault : vector = 14
    · rw [if_pos pageFault, if_pos (Or.inl pageFault)]
    · rw [if_neg pageFault, if_neg (by omega)]

/-- A program in ring 3 reaches the vector of the keyboard. -/
theorem interrupts_enterRings_keyboard :
    ((IrqTables.run ⟨fun _ => 0x1000, 0x2000⟩
      (bootCalls 0x5000 0x6000 0x7000 ++ [.setInterruptHandler 33 0x4000 1])).raise
        ⟨fun _ => 0x1000, 0x2000⟩ (procSegments 0x3000) 3 true 33).ring = some 3 :=
  interrupts_enterRings _ 0x3000 0x5000 0x6000 0x7000 [.setInterruptHandler 33 0x4000 1]
    (by simp [IrqCall.Puts]) 33 (by decide) 3 true

end DoggOS.Irq

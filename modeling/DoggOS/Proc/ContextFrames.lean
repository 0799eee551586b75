/-
The stack frame that a switch leaves behind and the one that it takes up.

All stack accesses of a switch are in sixty bytes under the stack pointer.
Where the page map of the thread shows these bytes at a fixed distance from
where the kernel shows them, a push stores a word in kernel memory and the
fourteen saved words are found again there.
-/

import DoggOS.Proc.ContextSwitch

namespace DoggOS.Proc

open X86

/-- Under `pmap` the block lies `offset` above its addresses. -/
def SwitchLayout.Seen (layout : SwitchLayout) (pmap base offset : Word) (size : Nat) : Prop :=
  ∀ address : Word, (address - base).toNat < size → layout.place pmap address = address + offset

def SwitchLayout.Direct (layout : SwitchLayout) : Prop :=
  ∀ address, layout.place layout.kernelPmap address = address

def SwitchLayout.offset (layout : SwitchLayout) (pmap kernelStackOffset : Word) : Word :=
  if pmap = layout.kernelPmap then 0 else kernelStackOffset

namespace SwitchLayout.Seen

variable {layout : SwitchLayout} {cpu : Cpu} {base offset address word : Word} {size : Nat}

theorem read_eq (seen : layout.Seen cpu.cr3 base offset size)
    (inside : (address - base).toNat + 4 ≤ size) :
    layout.read cpu address = load cpu.mem (address + offset) := by
  have byte : ∀ k : Word, k.toNat < 4 →
      layout.view cpu (address + k) = cpu.mem (address + offset + k) := by
    intro k small
    unfold SwitchLayout.view
    rw [seen (address + k) (by bv_omega)]
    congr 1
    bv_omega
  have first := byte 0#32 (by decide)
  rw [BitVec.add_zero, BitVec.add_zero] at first
  unfold SwitchLayout.read load
  rw [byte 3 (by decide), byte 2 (by decide), byte 1 (by decide), first]

private theorem update_bytes (mem : Memory) (start word : Word) :
    Function.update (Function.update (Function.update (Function.update mem start (byteOf word 0))
      (start + 1) (byteOf word 1)) (start + 2) (byteOf word 2)) (start + 3) (byteOf word 3) =
        store mem start word := by
  funext byte
  have zero : byte = start ↔ (byte - start).toNat = 0 := by bv_omega
  have one : byte = start + 1 ↔ (byte - start).toNat = 1 := by bv_omega
  have two : byte = start + 2 ↔ (byte - start).toNat = 2 := by bv_omega
  have three : byte = start + 3 ↔ (byte - start).toNat = 3 := by bv_omega
  simp only [store, Function.update_apply, zero, one, two, three]
  generalize (byte - start).toNat = place
  by_cases inside : place < 4
  · have places : place = 0 ∨ place = 1 ∨ place = 2 ∨ place = 3 := by omega
    rcases places with rfl | rfl | rfl | rfl <;> rfl
  · rw [if_neg (by omega), if_neg (by omega), if_neg (by omega), if_neg (by omega), if_neg inside]

theorem write_eq (seen : layout.Seen cpu.cr3 base offset size)
    (inside : (address - base).toNat + 4 ≤ size) :
    layout.write cpu address word = { cpu with mem := store cpu.mem (address + offset) word } := by
  have places : ∀ k : Word, k.toNat < 4 →
      layout.place cpu.cr3 (address + k) = address + offset + k := by
    intro k small
    rw [seen (address + k) (by bv_omega)]
    bv_omega
  have first := places 0#32 (by decide)
  rw [BitVec.add_zero, BitVec.add_zero] at first
  unfold SwitchLayout.write
  rw [first, places 1 (by decide), places 2 (by decide), places 3 (by decide), update_bytes]

theorem part {pmap inner : Word} {innerSize : Nat} (seen : layout.Seen pmap base offset size)
    (inside : (inner - base).toNat + innerSize ≤ size) :
    layout.Seen pmap inner offset innerSize := by
  intro address near
  exact seen address (by bv_omega)

end SwitchLayout.Seen

namespace SwitchLayout

variable {layout : SwitchLayout} {cpu : Cpu} {offset : Word}

def pushes (layout : SwitchLayout) (cpu : Cpu) (words : List Word) : Cpu :=
  words.foldl layout.push cpu

theorem pushes_seen {words : List Word}
    (seen : layout.Seen cpu.cr3 (cpu.esp - BitVec.ofNat 32 (4 * words.length)) offset (4 * words.length))
    (fits : 4 * words.length ≤ 2 ^ 31) :
    layout.pushes cpu words = { cpu with
      esp := cpu.esp - BitVec.ofNat 32 (4 * words.length)
      mem := pushWords cpu.mem (cpu.esp + offset) words } := by
  induction words generalizing cpu with
  | nil => simp [pushes, pushWords]
  | cons word words ih =>
      rw [List.length_cons] at seen fits
      have first : layout.push cpu word = { cpu with
          esp := cpu.esp - 4, mem := store cpu.mem (cpu.esp + offset - 4) word } := by
        unfold push
        rw [@Seen.write_eq layout { cpu with esp := cpu.esp - 4 } _ offset _ word _ seen (by bv_omega)]
        have place : cpu.esp - 4 + offset = cpu.esp + offset - 4 := by bv_omega
        rw [place]
      have rest : layout.Seen cpu.cr3 (cpu.esp - 4 - BitVec.ofNat 32 (4 * words.length)) offset
          (4 * words.length) := by
        intro address inside
        exact seen address (by bv_omega)
      have top : cpu.esp - 4 - BitVec.ofNat 32 (4 * words.length) =
          cpu.esp - BitVec.ofNat 32 (4 * (words.length + 1)) := by bv_omega
      have base : cpu.esp - 4 + offset = cpu.esp + offset - 4 := by bv_omega
      have others := @ih { cpu with
        esp := cpu.esp - 4, mem := store cpu.mem (cpu.esp + offset - 4) word } rest (by omega)
      change layout.pushes (layout.push cpu word) words = _
      rw [first, others]
      simp only [List.length_cons, pushWords, top, base]

theorem setLow_setLow (word : Word) (first second : BitVec 16) :
    setLow (setLow word first) second = setLow word second := by
  unfold setLow
  rw [BitVec.extractLsb'_append_eq_left]

theorem low_setLow (word : Word) (half : BitVec 16) : low (setLow word half) = half := by
  unfold low setLow
  exact BitVec.setWidth_append_eq_right

/-- The words of a saved context in the order of the pushes, and the return address of the save. -/
def frameWords (context : Context) (back : Word) : List Word :=
  [context.eflags, setLow 0 context.cs, context.eip, context.eax, context.ebx, context.ecx,
    context.edx, context.edi, context.esi, context.ebp, setLow 0 context.ds, setLow 0 context.es,
    setLow 0 context.fs, context.cr3, back]

def swapReturn (layout : SwitchLayout) (cpu : Cpu) : Cpu :=
  let cpu := layout.push cpu cpu.ebx
  let cpu := { cpu with ebx := layout.read cpu (cpu.esp + 4) }
  layout.write cpu (cpu.esp + 4) cpu.eax

def savedTail (cpu : Cpu) : List Word :=
  [cpu.ecx, cpu.edx, cpu.edi, cpu.esi, cpu.ebp, setLow 0 cpu.ds, setLow (setLow 0 cpu.ds) cpu.es,
    setLow (setLow (setLow 0 cpu.ds) cpu.es) cpu.fs, cpu.cr3, cpu.ebx]

section Push

variable (word : Word)

theorem push_ebx : (layout.push cpu word).ebx = cpu.ebx := rfl

theorem push_ecx : (layout.push cpu word).ecx = cpu.ecx := rfl

theorem push_edx : (layout.push cpu word).edx = cpu.edx := rfl

theorem push_edi : (layout.push cpu word).edi = cpu.edi := rfl

theorem push_esi : (layout.push cpu word).esi = cpu.esi := rfl

theorem push_ebp : (layout.push cpu word).ebp = cpu.ebp := rfl

theorem push_ds : (layout.push cpu word).ds = cpu.ds := rfl

theorem push_es : (layout.push cpu word).es = cpu.es := rfl

theorem push_fs : (layout.push cpu word).fs = cpu.fs := rfl

theorem push_cr3 : (layout.push cpu word).cr3 = cpu.cr3 := rfl

end Push

theorem saveContext_eq : layout.saveContext cpu =
    { layout.pushes (layout.swapReturn cpu) (savedTail (layout.swapReturn cpu)) with
      eax := (layout.swapReturn cpu).cr3 } := by
  unfold saveContext swapReturn pushes savedTail
  simp only [List.foldl_cons, List.foldl_nil, push_ebx, push_ecx, push_edx, push_edi, push_esi,
    push_ebp, push_ds, push_es, push_fs, push_cr3]
  rfl

section Save

variable {back : Word}

theorem store_under (mem : Memory) (esp first second third : Word) :
    store (pushWords mem esp [first, second]) (esp - 4) third =
      pushWords mem esp [third, second] := by
  simp only [pushWords]
  rw [store_comm (by bv_omega) (by bv_omega), store_store]

theorem swapReturn_eq (seen : layout.Seen cpu.cr3 (cpu.esp - 8) offset 8) :
    layout.swapReturn (layout.push cpu back) = { cpu with
      ebx := back
      esp := cpu.esp - 8
      mem := pushWords cpu.mem (cpu.esp + offset) [cpu.eax, cpu.ebx] } := by
  have pushed : layout.pushes cpu [back, cpu.ebx] = { cpu with
      esp := cpu.esp - 8
      mem := pushWords cpu.mem (cpu.esp + offset) [back, cpu.ebx] } :=
    pushes_seen seen (show 4 * 2 ≤ 2 ^ 31 by decide)
  have turns : layout.swapReturn (layout.push cpu back) =
      let cpu := layout.pushes cpu [back, cpu.ebx]
      let cpu := { cpu with ebx := layout.read cpu (cpu.esp + 4) }
      layout.write cpu (cpu.esp + 4) cpu.eax := rfl
  rw [turns, pushed]
  have found : layout.read { cpu with
      esp := cpu.esp - 8
      mem := pushWords cpu.mem (cpu.esp + offset) [back, cpu.ebx] } (cpu.esp - 8 + 4) = back := by
    rw [@Seen.read_eq layout { cpu with
      esp := cpu.esp - 8
      mem := pushWords cpu.mem (cpu.esp + offset) [back, cpu.ebx] } _ offset _ 8 seen (by bv_omega)]
    have place : cpu.esp - 8 + 4 + offset = cpu.esp + offset - 4 := by bv_omega
    rw [place]
    exact @load_pushWords cpu.mem (cpu.esp + offset) [back, cpu.ebx] 0
      (show 0 < 2 by decide) (show 4 * 2 ≤ 2 ^ 31 by decide)
  simp only [found]
  rw [@Seen.write_eq layout { cpu with
    ebx := back
    esp := cpu.esp - 8
    mem := pushWords cpu.mem (cpu.esp + offset) [back, cpu.ebx] } _ offset _ _ 8 seen (by bv_omega)]
  have place : cpu.esp - 8 + 4 + offset = cpu.esp + offset - 4 := by bv_omega
  rw [place, store_under]

theorem frame_pushes (mem : Memory) (esp : Word) (cpu : Cpu) :
    pushWords mem esp (frameWords cpu.toContext back) =
      pushWords (pushWords (pushWords mem esp [cpu.eflags, setLow 0 cpu.cs, cpu.eip])
        (esp - 12) [cpu.eax, cpu.ebx]) (esp - 20) (savedTail { cpu with ebx := back }) := by
  have words : frameWords cpu.toContext back =
      [cpu.eflags, setLow 0 cpu.cs, cpu.eip] ++
        ([cpu.eax, cpu.ebx] ++ savedTail { cpu with ebx := back }) := by
    simp only [frameWords, savedTail, setLow_setLow, List.cons_append, List.nil_append]
  have place : esp - 12 - 8 = esp - 20 := by bv_omega
  rw [words, pushWords_append, pushWords_append]
  change pushWords (pushWords (pushWords mem esp [cpu.eflags, setLow 0 cpu.cs, cpu.eip])
    (esp - 12) [cpu.eax, cpu.ebx]) (esp - 12 - 8) (savedTail { cpu with ebx := back }) = _
  rw [place]

theorem saved_eq (seen : layout.Seen cpu.cr3 (cpu.esp - 60) offset 60) :
    layout.saveContext (layout.push (layout.interrupt cpu) back) = { cpu with
      eax := cpu.cr3
      ebx := back
      esp := cpu.esp - 60
      mem := pushWords cpu.mem (cpu.esp + offset) (frameWords cpu.toContext back) } := by
  have entered : layout.interrupt cpu = { cpu with
      esp := cpu.esp - 12
      mem := pushWords cpu.mem (cpu.esp + offset) [cpu.eflags, setLow 0 cpu.cs, cpu.eip] } :=
    @pushes_seen layout cpu offset [cpu.eflags, setLow 0 cpu.cs, cpu.eip]
      (seen.part (show (cpu.esp - 12 - (cpu.esp - 60)).toNat + 12 ≤ 60 by bv_omega))
      (show 4 * 3 ≤ 2 ^ 31 by decide)
  have second : cpu.esp - 12 - 8 = cpu.esp - 20 := by bv_omega
  have secondPlace : cpu.esp - 12 + offset = cpu.esp + offset - 12 := by bv_omega
  have swapped := @swapReturn_eq layout (layout.interrupt cpu) offset back (by
    rw [entered]
    exact seen.part (show (cpu.esp - 12 - 8 - (cpu.esp - 60)).toNat + 8 ≤ 60 by bv_omega))
  rw [entered] at swapped ⊢
  simp only [second, secondPlace] at swapped
  rw [saveContext_eq, swapped]
  have third : cpu.esp - 20 - 40 = cpu.esp - 60 := by bv_omega
  have thirdPlace : cpu.esp - 20 + offset = cpu.esp + offset - 20 := by bv_omega
  have rest := @pushes_seen layout { cpu with
      ebx := back
      esp := cpu.esp - 20
      mem := pushWords (pushWords cpu.mem (cpu.esp + offset) [cpu.eflags, setLow 0 cpu.cs, cpu.eip])
        (cpu.esp + offset - 12) [cpu.eax, cpu.ebx] } offset (savedTail { cpu with ebx := back })
    (seen.part (show (cpu.esp - 20 - 40 - (cpu.esp - 60)).toNat + 40 ≤ 60 by bv_omega))
    (show 4 * 10 ≤ 2 ^ 31 by decide)
  have size : BitVec.ofNat 32 (4 * (savedTail { cpu with ebx := back }).length) = 40 := rfl
  rw [size] at rest
  simp only [third, thirdPlace, ← frame_pushes] at rest
  exact congrArg (fun cpu : Cpu => { cpu with eax := cpu.cr3 }) rest

theorem read_direct (direct : layout.Direct) (pmap : cpu.cr3 = layout.kernelPmap)
    (address : Word) : layout.read cpu address = load cpu.mem address := by
  have same : layout.view cpu = cpu.mem := by
    funext byte
    unfold view
    rw [pmap, direct]
  unfold read
  rw [same]

theorem enterKernelSpace_eq (loaded : cpu.eax = cpu.cr3) :
    ∃ ebx, layout.enterKernelSpace cpu = { cpu with
      ebx := ebx
      cr3 := layout.kernelPmap
      esp := cpu.esp + layout.offset cpu.cr3 (cpu.kernelStackOffset cpu.currentThread) } := by
  unfold enterKernelSpace offset
  by_cases inKernel : cpu.cr3 = layout.kernelPmap
  · refine ⟨layout.kernelPmap, ?_⟩
    have unmoved : cpu.esp + 0 = cpu.esp := BitVec.add_zero cpu.esp
    simp only [loaded, inKernel, if_true, unmoved]
  · refine ⟨cpu.currentThread, ?_⟩
    have other : ¬ layout.kernelPmap = cpu.cr3 := fun equal => inKernel equal.symm
    simp only [loaded, other, inKernel, if_false]

theorem load_frame {context : Context} {mem : Memory} {esp address : Word} {index : Nat}
    (inside : index < (frameWords context back).length)
    (place : address = esp - BitVec.ofNat 32 (4 * (index + 1))) :
    load (pushWords mem esp (frameWords context back)) address = (frameWords context back)[index] := by
  rw [place]
  exact load_pushWords inside (show 4 * 15 ≤ 2 ^ 31 by decide)

/-- The last three steps of `k_proc_ExitThreadContext`. -/
def leaveFrame (layout : SwitchLayout) (cpu : Cpu) : Cpu :=
  let cpu := { cpu with eax := layout.read cpu (cpu.esp + 44) }
  let cpu := { cpu with ebx := layout.read cpu (cpu.esp + 40) }
  layout.ret cpu

theorem leaveFrame_eq {context : Context} {mem : Memory} {esp : Word} (direct : layout.Direct)
    (pmap : cpu.cr3 = layout.kernelPmap) (stack : cpu.esp = esp - 60)
    (memory : cpu.mem = pushWords mem esp (frameWords context back)) :
    layout.leaveFrame cpu = { cpu with
      eax := context.eax
      ebx := context.ebx
      eip := back
      esp := esp - 56 } := by
  have eax : load cpu.mem (esp - 60 + 44) = context.eax := by
    rw [memory]
    exact @load_frame _ _ _ _ _ 3 (show 3 < 15 by decide) (by bv_omega)
  have ebx : load cpu.mem (esp - 60 + 40) = context.ebx := by
    rw [memory]
    exact @load_frame _ _ _ _ _ 4 (show 4 < 15 by decide) (by bv_omega)
  have eip : load cpu.mem (esp - 60) = back := by
    rw [memory]
    exact @load_frame _ _ _ _ _ 14 (show 14 < 15 by decide) (by bv_omega)
  have dropped : esp - 60 + 4 = esp - 56 := by bv_omega
  have reads : ∀ (eax ebx esp address : Word),
      layout.read { cpu with eax := eax, ebx := ebx, esp := esp } address =
        load cpu.mem address := by
    intro eax ebx esp address
    exact read_direct direct pmap address
  simp only [leaveFrame, ret, top, reads, stack, eax, ebx, eip, dropped]

theorem exit_eq (direct : layout.Direct)
    (seen : layout.Seen cpu.cr3 (cpu.esp - 60)
      (layout.offset cpu.cr3 (cpu.kernelStackOffset cpu.currentThread)) 60) :
    layout.call layout.exitThreadContext layout.afterExit (layout.interrupt cpu) = some { cpu with
      cr3 := layout.kernelPmap
      esp := cpu.esp + layout.offset cpu.cr3 (cpu.kernelStackOffset cpu.currentThread) - 56
      eip := layout.afterExit
      mem := pushWords cpu.mem
        (cpu.esp + layout.offset cpu.cr3 (cpu.kernelStackOffset cpu.currentThread))
        (frameWords cpu.toContext layout.afterExit) } := by
  have saved := @saved_eq layout cpu _ layout.afterExit seen
  obtain ⟨ebx, entered⟩ := @enterKernelSpace_eq layout
    (layout.saveContext (layout.push (layout.interrupt cpu) layout.afterExit)) (by rw [saved])
  rw [saved] at entered
  have routine : layout.exitThreadContext (layout.push (layout.interrupt cpu) layout.afterExit) =
      layout.leaveFrame (layout.enterKernelSpace
        (layout.saveContext (layout.push (layout.interrupt cpu) layout.afterExit))) := rfl
  rw [saved, entered] at routine
  rw [@leaveFrame_eq _ _ _ cpu.toContext cpu.mem
    (cpu.esp + layout.offset cpu.cr3 (cpu.kernelStackOffset cpu.currentThread))
    direct rfl (by bv_omega) rfl] at routine
  simp only [call, routine, if_true]

end Save

def frameContext (mem : Memory) (start esp : Word) : Context where
  cr3 := load mem start
  fs := low (load mem (start + 4))
  es := low (load mem (start + 8))
  ds := low (load mem (start + 12))
  ebp := load mem (start + 16)
  esi := load mem (start + 20)
  edi := load mem (start + 24)
  edx := load mem (start + 28)
  ecx := load mem (start + 32)
  ebx := load mem (start + 36)
  eax := load mem (start + 40)
  eip := load mem (start + 44)
  cs := low (load mem (start + 48))
  eflags := load mem (start + 52)
  esp := esp

theorem frameContext_congr {mem kept : Memory} {start esp : Word}
    (same : ∀ byte : Word, (byte - start).toNat < 56 → kept byte = mem byte) :
    frameContext kept start esp = frameContext mem start esp := by
  have word : ∀ distance : Word, distance.toNat ≤ 52 →
      load kept (start + distance) = load mem (start + distance) := by
    intro distance near
    apply load_congr
    intro k small
    exact same _ (by bv_omega)
  have first := word 0#32 (by decide)
  rw [BitVec.add_zero] at first
  unfold frameContext
  rw [first, word 4 (by decide), word 8 (by decide), word 12 (by decide), word 16 (by decide),
    word 20 (by decide), word 24 (by decide), word 28 (by decide), word 32 (by decide),
    word 36 (by decide), word 40 (by decide), word 44 (by decide), word 48 (by decide),
    word 52 (by decide)]

theorem frameContext_saved {mem : Memory} {esp back : Word} {context : Context} :
    frameContext (pushWords mem esp (frameWords context back)) (esp - 56) context.esp = context := by
  unfold frameContext
  rw [@load_frame back context mem esp (esp - 56) 13 (show 13 < 15 by decide) (by bv_omega),
    @load_frame back context mem esp (esp - 56 + 4) 12 (show 12 < 15 by decide) (by bv_omega),
    @load_frame back context mem esp (esp - 56 + 8) 11 (show 11 < 15 by decide) (by bv_omega),
    @load_frame back context mem esp (esp - 56 + 12) 10 (show 10 < 15 by decide) (by bv_omega),
    @load_frame back context mem esp (esp - 56 + 16) 9 (show 9 < 15 by decide) (by bv_omega),
    @load_frame back context mem esp (esp - 56 + 20) 8 (show 8 < 15 by decide) (by bv_omega),
    @load_frame back context mem esp (esp - 56 + 24) 7 (show 7 < 15 by decide) (by bv_omega),
    @load_frame back context mem esp (esp - 56 + 28) 6 (show 6 < 15 by decide) (by bv_omega),
    @load_frame back context mem esp (esp - 56 + 32) 5 (show 5 < 15 by decide) (by bv_omega),
    @load_frame back context mem esp (esp - 56 + 36) 4 (show 4 < 15 by decide) (by bv_omega),
    @load_frame back context mem esp (esp - 56 + 40) 3 (show 3 < 15 by decide) (by bv_omega),
    @load_frame back context mem esp (esp - 56 + 44) 2 (show 2 < 15 by decide) (by bv_omega),
    @load_frame back context mem esp (esp - 56 + 48) 1 (show 1 < 15 by decide) (by bv_omega),
    @load_frame back context mem esp (esp - 56 + 52) 0 (show 0 < 15 by decide) (by bv_omega)]
  simp only [frameWords, List.getElem_cons_zero, List.getElem_cons_succ, low_setLow]

section Restore

def popFrame (layout : SwitchLayout) (cpu : Cpu) : Cpu :=
  { cpu with
    fs := low (layout.read cpu cpu.esp)
    es := low (layout.read cpu (cpu.esp + 4))
    ds := low (layout.read cpu (cpu.esp + 8))
    ebp := layout.read cpu (cpu.esp + 12)
    esi := layout.read cpu (cpu.esp + 16)
    edi := layout.read cpu (cpu.esp + 20)
    edx := layout.read cpu (cpu.esp + 24)
    ecx := layout.read cpu (cpu.esp + 28)
    ebx := layout.read cpu (cpu.esp + 32)
    esp := cpu.esp + 36 }

def pushReturn (layout : SwitchLayout) (cpu : Cpu) : Cpu :=
  let cpu := layout.write cpu (cpu.esp - 4) cpu.eax
  let cpu := { cpu with eax := layout.top cpu, esp := cpu.esp + 4 }
  layout.push cpu (layout.read cpu (cpu.esp - 8))

theorem restoreContext_split : layout.restoreContext cpu = layout.pushReturn (layout.popFrame cpu) := by
  have place : ∀ first second : Word, cpu.esp + first + second = cpu.esp + (first + second) := by
    intro first second
    exact BitVec.add_assoc cpu.esp first second
  have sums : (4 + 4 : Word) = 8 ∧ (8 + 4 : Word) = 12 ∧ (12 + 4 : Word) = 16 ∧ (16 + 4 : Word) = 20 ∧
      (20 + 4 : Word) = 24 ∧ (24 + 4 : Word) = 28 ∧ (28 + 4 : Word) = 32 ∧ (32 + 4 : Word) = 36 := by
    decide
  obtain ⟨two, three, four, five, six, seven, eight, nine⟩ := sums
  have popped : layout.restoreContext cpu = layout.pushReturn { cpu with
      fs := low (layout.read cpu cpu.esp)
      es := low (layout.read cpu (cpu.esp + 4))
      ds := low (layout.read cpu (cpu.esp + 4 + 4))
      ebp := layout.read cpu (cpu.esp + 4 + 4 + 4)
      esi := layout.read cpu (cpu.esp + 4 + 4 + 4 + 4)
      edi := layout.read cpu (cpu.esp + 4 + 4 + 4 + 4 + 4)
      edx := layout.read cpu (cpu.esp + 4 + 4 + 4 + 4 + 4 + 4)
      ecx := layout.read cpu (cpu.esp + 4 + 4 + 4 + 4 + 4 + 4 + 4)
      ebx := layout.read cpu (cpu.esp + 4 + 4 + 4 + 4 + 4 + 4 + 4 + 4)
      esp := cpu.esp + 4 + 4 + 4 + 4 + 4 + 4 + 4 + 4 + 4 } := rfl
  rw [popped]
  simp only [place, two, three, four, five, six, seven, eight, nine, popFrame]

variable {start back : Word}

theorem popFrame_eq (seen : layout.Seen cpu.cr3 cpu.esp offset 36)
    (base : cpu.esp + offset = start + 4) :
    layout.popFrame cpu = { cpu with
      fs := low (load cpu.mem (start + 4))
      es := low (load cpu.mem (start + 8))
      ds := low (load cpu.mem (start + 12))
      ebp := load cpu.mem (start + 16)
      esi := load cpu.mem (start + 20)
      edi := load cpu.mem (start + 24)
      edx := load cpu.mem (start + 28)
      ecx := load cpu.mem (start + 32)
      ebx := load cpu.mem (start + 36)
      esp := cpu.esp + 36 } := by
  have word : ∀ distance : Word, distance.toNat ≤ 32 →
      layout.read cpu (cpu.esp + distance) = load cpu.mem (start + (distance + 4)) := by
    intro distance near
    rw [seen.read_eq (by bv_omega)]
    congr 1
    bv_omega
  have first := word 0#32 (by decide)
  rw [BitVec.add_zero] at first
  have sums : (4 + 4 : Word) = 8 ∧ (8 + 4 : Word) = 12 ∧ (12 + 4 : Word) = 16 ∧ (16 + 4 : Word) = 20 ∧
      (20 + 4 : Word) = 24 ∧ (24 + 4 : Word) = 28 ∧ (28 + 4 : Word) = 32 ∧ (32 + 4 : Word) = 36 := by
    decide
  obtain ⟨two, three, four, five, six, seven, eight, nine⟩ := sums
  unfold popFrame
  rw [first, word 4 (by decide), word 8 (by decide), word 12 (by decide), word 16 (by decide),
    word 20 (by decide), word 24 (by decide), word 28 (by decide), word 32 (by decide), two, three,
    four, five, six, seven, eight, nine]
  rfl

def usedFrame (mem : Memory) (start back : Word) : Memory :=
  store (store mem (start + 36) back) (start + 40) back

theorem pushReturn_eq (seen : layout.Seen cpu.cr3 (cpu.esp - 4) offset 8)
    (base : cpu.esp + offset = start + 40) :
    layout.pushReturn cpu = { cpu with
      eax := load cpu.mem (start + 40)
      mem := usedFrame cpu.mem start cpu.eax } := by
  have below : cpu.esp - 4 + offset = start + 36 := by bv_omega
  have back : cpu.esp + 4 - 8 = cpu.esp - 4 := by bv_omega
  have unmoved : cpu.esp + 4 - 4 = cpu.esp := by bv_omega
  have stored : layout.write cpu (cpu.esp - 4) cpu.eax =
      { cpu with mem := store cpu.mem (start + 36) cpu.eax } := by
    rw [seen.write_eq (by bv_omega), below]
  have found : layout.top { cpu with mem := store cpu.mem (start + 36) cpu.eax } =
      load cpu.mem (start + 40) := by
    unfold top
    rw [@Seen.read_eq layout { cpu with mem := store cpu.mem (start + 36) cpu.eax }
      _ offset _ 8 seen (by bv_omega), base]
    exact load_store_of_apart (by bv_omega) (by bv_omega)
  have again : ∀ eax esp : Word, layout.read { cpu with
      eax := eax, esp := esp, mem := store cpu.mem (start + 36) cpu.eax }
      (cpu.esp - 4) = cpu.eax := by
    intro eax esp
    rw [@Seen.read_eq layout { cpu with
      eax := eax, esp := esp, mem := store cpu.mem (start + 36) cpu.eax }
      _ offset _ 8 seen (by bv_omega), below]
    exact load_store
  unfold pushReturn push
  simp only [stored, found, back, again, unmoved]
  rw [@Seen.write_eq layout { cpu with
    eax := load cpu.mem (start + 40)
    mem := store cpu.mem (start + 36) cpu.eax } _ offset _ _ 8 seen (by bv_omega), base]
  rfl

theorem exitKernelSpace_eq (pmap : cpu.cr3 = layout.kernelPmap) :
    ∃ ebx, layout.exitKernelSpace cpu = { cpu with
      ebx := ebx
      cr3 := cpu.ecx
      esp := cpu.esp - layout.offset cpu.ecx (cpu.kernelStackOffset cpu.currentThread) } := by
  unfold exitKernelSpace offset
  by_cases kernel : cpu.ecx = layout.kernelPmap
  · refine ⟨cpu.ebx, ?_⟩
    have unmoved : cpu.esp - 0 = cpu.esp := BitVec.sub_zero cpu.esp
    rw [if_pos kernel, if_pos kernel, unmoved]
    exact congrArg (fun loaded => { cpu with cr3 := loaded }) (pmap.trans kernel.symm)
  · refine ⟨cpu.currentThread, ?_⟩
    simp only [kernel, if_false]

theorem load_usedFrame {mem : Memory} {address : Word}
    (above : 44 ≤ (address - start).toNat) (below : (address - start).toNat ≤ 2 ^ 31) :
    load (usedFrame mem start back) address = load mem address := by
  unfold usedFrame
  rw [load_store_of_apart (by bv_omega) (by bv_omega), load_store_of_apart (by bv_omega) (by bv_omega)]

/-- The return out of `k_proc_EnterThreadContext` and the `iret` after it. -/
theorem return_eq {mem : Memory} (seen : layout.Seen cpu.cr3 cpu.esp offset 16)
    (base : cpu.esp + offset = start + 40) (memory : cpu.mem = usedFrame mem start back) :
    (layout.ret cpu).eip = back ∧ layout.iret (layout.ret cpu) = { cpu with
      eip := load mem (start + 44)
      cs := low (load mem (start + 48))
      eflags := load mem (start + 52)
      esp := cpu.esp + 16 } := by
  have word : ∀ distance : Word, distance.toNat ≤ 12 →
      layout.read cpu (cpu.esp + distance) = load cpu.mem (start + (40 + distance)) := by
    intro distance near
    rw [seen.read_eq (by bv_omega)]
    congr 1
    bv_omega
  have first := word 0#32 (by decide)
  rw [BitVec.add_zero] at first
  have found : load cpu.mem (start + 40) = back := by
    rw [memory]
    exact load_store
  have back' : layout.read cpu cpu.esp = back := first.trans found
  refine ⟨back', ?_⟩
  have eip : load cpu.mem (start + 44) = load mem (start + 44) := by
    rw [memory, load_usedFrame (by bv_omega) (by bv_omega)]
  have cs : load cpu.mem (start + 48) = load mem (start + 48) := by
    rw [memory, load_usedFrame (by bv_omega) (by bv_omega)]
  have eflags : load cpu.mem (start + 52) = load mem (start + 52) := by
    rw [memory, load_usedFrame (by bv_omega) (by bv_omega)]
  have second : cpu.esp + 4 + 4 = cpu.esp + 8 := by bv_omega
  have third : cpu.esp + 4 + 8 = cpu.esp + 12 := by bv_omega
  have fourth : cpu.esp + 4 + 12 = cpu.esp + 16 := by bv_omega
  have returned : layout.iret (layout.ret cpu) = { cpu with
      eip := layout.read cpu (cpu.esp + 4)
      cs := low (layout.read cpu (cpu.esp + 4 + 4))
      eflags := layout.read cpu (cpu.esp + 4 + 8)
      esp := cpu.esp + 4 + 12 } := rfl
  rw [returned, second, third, fourth, word 4 (by decide), word 8 (by decide), word 12 (by decide),
    ← eip, ← cs, ← eflags]
  rfl

theorem restore_eq (seen : layout.Seen cpu.cr3 (start - 4 - offset) offset 60)
    (stack : cpu.esp = start + 4 - offset) (pmap : cpu.cr3 = load cpu.mem start) :
    (layout.ret (layout.restoreContext cpu)).eip = cpu.eax ∧
      layout.iret (layout.ret (layout.restoreContext cpu)) = { cpu with
        toContext := frameContext cpu.mem start (start + 56 - offset)
        mem := usedFrame cpu.mem start cpu.eax } := by
  have popSeen : layout.Seen cpu.cr3 cpu.esp offset 36 := seen.part (by bv_omega)
  have popped := @popFrame_eq layout cpu offset start popSeen (by bv_omega)
  have esp : (layout.popFrame cpu).esp = start + 40 - offset := by
    rw [popped]
    change cpu.esp + 36 = _
    bv_omega
  have pushSeen : layout.Seen (layout.popFrame cpu).cr3 ((layout.popFrame cpu).esp - 4) offset 8 :=
    seen.part (by bv_omega)
  have pushed := @pushReturn_eq layout (layout.popFrame cpu) offset start pushSeen (by bv_omega)
  have returnSeen : layout.Seen (layout.pushReturn (layout.popFrame cpu)).cr3
      (layout.pushReturn (layout.popFrame cpu)).esp offset 16 := by
    rw [pushed]
    exact seen.part (by bv_omega)
  have returned := @return_eq layout (layout.pushReturn (layout.popFrame cpu)) offset start cpu.eax
    cpu.mem returnSeen (by rw [pushed]; bv_omega) (by rw [pushed]; rfl)
  rw [restoreContext_split]
  refine ⟨returned.1, ?_⟩
  have stop : start + 40 - offset + 16 = start + 56 - offset := by bv_omega
  rw [returned.2, pushed, esp, stop, popped]
  simp only [frameContext, pmap]

def enteredFrame (mem : Memory) (start back : Word) : Memory :=
  usedFrame (store mem (start - 4) back) start back

theorem enter_eq (direct : layout.Direct) (inKernel : cpu.cr3 = layout.kernelPmap)
    (seen : layout.Seen (load cpu.mem cpu.esp) (cpu.esp - 4 - offset) offset 60)
    (distance : offset = layout.offset (load cpu.mem cpu.esp)
      (cpu.kernelStackOffset cpu.currentThread)) :
    (layout.call layout.enterThreadContext layout.afterEnter cpu).map layout.iret = some { cpu with
      toContext := frameContext cpu.mem cpu.esp (cpu.esp + 56 - offset)
      mem := enteredFrame cpu.mem cpu.esp layout.afterEnter } := by
  have word : ∀ address : Word, layout.read { cpu with
      esp := cpu.esp - 4, mem := store cpu.mem (cpu.esp - 4) layout.afterEnter } address =
        load (store cpu.mem (cpu.esp - 4) layout.afterEnter) address := by
    intro address
    exact @read_direct layout { cpu with
      esp := cpu.esp - 4, mem := store cpu.mem (cpu.esp - 4) layout.afterEnter } direct inKernel address
  have pushed : layout.push cpu layout.afterEnter = { cpu with
      esp := cpu.esp - 4
      mem := store cpu.mem (cpu.esp - 4) layout.afterEnter } := by
    have wide : layout.Seen cpu.cr3 (cpu.esp - 4) 0 4 := by
      intro address _
      rw [inKernel, direct]
      exact (BitVec.add_zero address).symm
    unfold push
    rw [@Seen.write_eq layout { cpu with esp := cpu.esp - 4 } _ 0 _ _ 4 wide (by bv_omega)]
    have unmoved : cpu.esp - 4 + 0 = cpu.esp - 4 := BitVec.add_zero _
    rw [unmoved]
  have next : cpu.esp - 4 + 4 = cpu.esp := by bv_omega
  have found : load (store cpu.mem (cpu.esp - 4) layout.afterEnter) cpu.esp = load cpu.mem cpu.esp :=
    load_store_of_apart (by bv_omega) (by bv_omega)
  have loaded : layout.enterThreadContext (layout.push cpu layout.afterEnter) =
      layout.ret (layout.restoreContext (layout.exitKernelSpace { cpu with
        eax := layout.afterEnter
        ecx := load cpu.mem cpu.esp
        esp := cpu.esp + 4
        mem := store cpu.mem (cpu.esp - 4) layout.afterEnter })) := by
    have steps : ∀ called : Cpu, layout.enterThreadContext called =
        layout.ret (layout.restoreContext (layout.exitKernelSpace { called with
          eax := layout.read called called.esp
          ecx := layout.read called (called.esp + 4)
          esp := called.esp + 4 + 4 })) := fun _ => rfl
    rw [steps, pushed]
    simp only [word, next, found, load_store]
  obtain ⟨ebx, entered⟩ := @exitKernelSpace_eq layout { cpu with
    eax := layout.afterEnter
    ecx := load cpu.mem cpu.esp
    esp := cpu.esp + 4
    mem := store cpu.mem (cpu.esp - 4) layout.afterEnter } inKernel
  rw [entered] at loaded
  simp only [← distance] at loaded
  have sameFrame : frameContext (store cpu.mem (cpu.esp - 4) layout.afterEnter) cpu.esp
      (cpu.esp + 56 - offset) = frameContext cpu.mem cpu.esp (cpu.esp + 56 - offset) := by
    apply frameContext_congr
    intro byte inside
    exact store_outside (by bv_omega)
  obtain ⟨back, restored⟩ := @restore_eq layout { cpu with
    eax := layout.afterEnter
    ecx := load cpu.mem cpu.esp
    ebx := ebx
    cr3 := load cpu.mem cpu.esp
    esp := cpu.esp + 4 - offset
    mem := store cpu.mem (cpu.esp - 4) layout.afterEnter } offset cpu.esp seen rfl found.symm
  unfold call
  simp only [loaded, back, if_true, Option.map_some, restored, sameFrame]
  rfl

theorem enteredFrame_outside {mem : Memory} {byte : Word}
    (outside : 60 ≤ (byte - (start - 4)).toNat) : enteredFrame mem start back byte = mem byte := by
  unfold enteredFrame usedFrame
  rw [store_outside (by bv_omega), store_outside (by bv_omega), store_outside (by bv_omega)]

end Restore

section Switch

/-- The scheduler thread stands for a null `next_thread`. -/
def target (layout : SwitchLayout) (cpu : Cpu) : Word :=
  if cpu.nextThread = 0 then layout.coreState + 12 else cpu.nextThread

def kernelEsp (layout : SwitchLayout) (cpu : Cpu) : Word :=
  cpu.esp + layout.offset cpu.cr3 (cpu.kernelStackOffset cpu.currentThread)

def savedMem (layout : SwitchLayout) (cpu : Cpu) : Memory :=
  pushWords cpu.mem (layout.kernelEsp cpu) (frameWords cpu.toContext layout.afterExit)

def savedSp (layout : SwitchLayout) (cpu : Cpu) : Word → Word :=
  Function.update cpu.currentSp cpu.currentThread (layout.kernelEsp cpu - 56)

theorem savedMem_outside {byte : Word}
    (outside : 60 ≤ (byte - (layout.kernelEsp cpu - 60)).toNat) :
    layout.savedMem cpu byte = cpu.mem byte := by
  have apart : ∀ i < 60, byte ≠ layout.kernelEsp cpu - 60 + BitVec.ofNat 32 i := by
    intro i small
    bv_omega
  exact @pushWords_outside cpu.mem (layout.kernelEsp cpu) (frameWords cpu.toContext layout.afterExit)
    byte (show 4 * 15 ≤ 2 ^ 31 by decide) apart

theorem switchThread_eq (direct : layout.Direct)
    (seen : layout.Seen cpu.cr3 (cpu.esp - 60)
      (layout.offset cpu.cr3 (cpu.kernelStackOffset cpu.currentThread)) 60)
    {start : Word} (frame : layout.savedSp cpu (layout.target cpu) = start)
    (distance : offset = layout.offset (load (layout.savedMem cpu) start)
      (cpu.kernelStackOffset (layout.target cpu)))
    (targetSeen : layout.Seen (load (layout.savedMem cpu) start) (start - 4 - offset) offset 60) :
    layout.switchThread cpu = some { cpu with
      toContext := frameContext (layout.savedMem cpu) start (start + 56 - offset)
      mem := enteredFrame (layout.savedMem cpu) start layout.afterEnter
      currentThread := layout.target cpu
      nextThread := 0
      currentSp := layout.savedSp cpu
      tssEsp0 := cpu.startSp (layout.target cpu) } := by
  have left := exit_eq direct seen
  have swapped : ∀ saved : Cpu, layout.swapThreads saved = { saved with
      edx := layout.coreState
      ecx := saved.startSp (layout.target saved)
      eax := layout.tss
      ebx := layout.target saved
      currentSp := Function.update saved.currentSp saved.currentThread saved.esp
      currentThread := layout.target saved
      nextThread := 0
      tssEsp0 := saved.startSp (layout.target saved)
      esp := Function.update saved.currentSp saved.currentThread saved.esp (layout.target saved) } := by
    intro saved
    unfold swapThreads target
    by_cases none : saved.nextThread = 0
    · simp only [none, if_true]
    · simp only [none, if_false]
  have entered := @enter_eq layout { cpu with
    cr3 := layout.kernelPmap
    eip := layout.afterExit
    mem := layout.savedMem cpu
    edx := layout.coreState
    ecx := cpu.startSp (layout.target cpu)
    eax := layout.tss
    ebx := layout.target cpu
    currentSp := layout.savedSp cpu
    currentThread := layout.target cpu
    nextThread := 0
    tssEsp0 := cpu.startSp (layout.target cpu)
    esp := start } offset direct rfl targetSeen distance
  have steps : layout.switchThread cpu =
      (layout.call layout.exitThreadContext layout.afterExit (layout.interrupt cpu)).bind fun cpu =>
        (layout.call layout.enterThreadContext layout.afterEnter (layout.swapThreads cpu)).map
          layout.iret := rfl
  rw [steps, left, Option.bind_some, swapped]
  have running : Function.update cpu.currentSp cpu.currentThread (cpu.esp +
      layout.offset cpu.cr3 (cpu.kernelStackOffset cpu.currentThread) - 56) (layout.target cpu) =
        start := frame
  refine Eq.trans ?_ entered
  have sameTarget : ∀ saved : Cpu, saved.nextThread = cpu.nextThread →
      layout.target saved = layout.target cpu := by
    intro saved same
    unfold target
    rw [same]
  simp only [sameTarget, running]
  rfl

end Switch

end SwitchLayout

end DoggOS.Proc

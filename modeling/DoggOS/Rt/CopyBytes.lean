/-
The byte copy of the run-time library, instruction by instruction.

One definition for each label of the routine; a label that the code falls into
is called at the end of the one before it.  Every path moves the block in one to
five parts, from the low addresses to the high ones, and the parts make up the
whole block for every alignment and every size.
-/

import DoggOS.Library.X86

namespace DoggOS.Rt

open X86

namespace CopyBytes

def byteCopy (core : Core) : Core := { core with ecx := core.eax }.rep (Core.movs 1)

def wordCopy (core : Core) : Core :=
  let core := Core.rep (Core.movs 2) { core with ecx := core.eax >>> 1 }
  let core := { core with eax := core.eax &&& 1 }
  if core.eax = 0 then core else byteCopy core

def dwordCopy (core : Core) : Core :=
  let core := Core.rep (Core.movs 4) { core with ecx := core.eax >>> 2 }
  let core := { core with eax := core.eax &&& 3 }
  if core.eax = 0 then core else wordCopy core

def noByte (core : Core) : Core :=
  if core.esi &&& 2 = 0 then dwordCopy core
  else if core.eax &&& 0xfffffffe = 0 then byteCopy core
  else
    let core := core.movs 2
    let core := { core with eax := core.eax - 2 }
    if core.eax = 0 then core else dwordCopy core

def sameAlign (core : Core) : Core :=
  if core.esi &&& 1 = 0 then noByte core
  else
    let core := core.movs 1
    let core := { core with eax := core.eax - 1 }
    if core.eax = 0 then core else noByte core

def body (core : Core) : Core :=
  if core.edi = 0 ∨ core.esi = 0 ∨ core.eax = 0 then core
  else
    let core := { core with ecx := core.edi ^^^ core.esi }
    if core.ecx &&& 3 = 0 then sameAlign core
    else if core.ecx &&& 1 = 0 then wordCopy core
    else byteCopy core

def entry (core : Core) : Core :=
  let core := core.push core.ebp
  let core := { core with ebp := core.esp }
  let core := core.push core.eax
  let core := core.push core.ecx
  let core := core.push core.edi
  let core := core.push core.esi
  let core := { core with edi := load core.mem (core.ebp + 8) }
  let core := { core with esi := load core.mem (core.ebp + 12) }
  { core with eax := load core.mem (core.ebp + 16) }

def leave (core : Core) : Core :=
  let core := { core.drop with esi := core.top }
  let core := { core.drop with edi := core.top }
  let core := { core.drop with ecx := core.top }
  let core := { core.drop with eax := core.top }
  let core := { core.drop with ebp := core.top }
  core.ret

end CopyBytes

def copyBytes (core : Core) : Core := CopyBytes.leave (CopyBytes.body (CopyBytes.entry core))

namespace CopyBytes

variable {core : Core}

/-- The block of the size in the accumulator, from the source index to the destination index. -/
structure Separate (core : Core) : Prop where
  dstFits : core.edi.toNat + core.eax.toNat ≤ 2 ^ 32
  srcFits : core.esi.toNat + core.eax.toNat ≤ 2 ^ 32
  apart : core.edi.toNat + core.eax.toNat ≤ core.esi.toNat ∨
    core.esi.toNat + core.eax.toNat ≤ core.edi.toNat

/-- The whole block is copied; the four registers that the routine uses may hold anything. -/
def Copied (core after : Core) : Prop :=
  ∃ eax ecx esi edi, after = { core with
    mem := copyBlock core.mem core.edi core.esi core.eax.toNat
    eax := eax
    ecx := ecx
    esi := esi
    edi := edi }

def Advanced (part : Nat) (core after : Core) : Prop :=
  ∃ ecx, after = { core with
    mem := copyBlock core.mem core.edi core.esi part
    ecx := ecx
    eax := core.eax - BitVec.ofNat 32 part
    esi := core.esi + BitVec.ofNat 32 part
    edi := core.edi + BitVec.ofNat 32 part }

variable {after last : Core} {part : Nat}

theorem Advanced.separate (advanced : Advanced part core after) (small : part ≤ core.eax.toNat)
    (separate : Separate core) : Separate after := by
  obtain ⟨dstFits, srcFits, apart⟩ := separate
  obtain ⟨ecx, rfl⟩ := advanced
  constructor <;> simp only <;> bv_omega

theorem Advanced.copied (advanced : Advanced part core after) (small : part ≤ core.eax.toNat)
    (separate : Separate core) (rest : Copied after last) : Copied core last := by
  obtain ⟨dstFits, srcFits, apart⟩ := separate
  obtain ⟨ecx, rfl⟩ := advanced
  obtain ⟨eax, ecx, esi, edi, rfl⟩ := rest
  have size : part + (core.eax - BitVec.ofNat 32 part).toNat = core.eax.toNat := by bv_omega
  have whole := @copyBlock_append core.mem core.edi core.esi part
    (core.eax - BitVec.ofNat 32 part).toNat (by omega) (by omega) (by omega)
  rw [size] at whole
  exact ⟨eax, ecx, esi, edi, by simp only [whole]⟩

theorem Advanced.finish (advanced : Advanced part core after) (done : after.eax = 0)
    (small : part ≤ core.eax.toNat) : Copied core after := by
  obtain ⟨ecx, rfl⟩ := advanced
  have size : part = core.eax.toNat := by
    simp only at done
    bv_omega
  subst size
  exact ⟨_, _, _, _, rfl⟩

theorem byteCopy_copied (separate : Separate core) : Copied core (byteCopy core) := by
  obtain ⟨dstFits, srcFits, apart⟩ := separate
  have moved := @Core.rep_movs { core with ecx := core.eax } 1
    (by simp only; omega) (by simp only; omega) (by simp only; omega)
  simp only [Nat.one_mul] at moved
  exact ⟨core.eax, 0, _, _, moved⟩

/-- A bulk part of `turns` units of `2 ^ shift` bytes, with the rest of the size left over. -/
private theorem bulk_advanced {shift : Nat} {mask : Word} (maskIs : mask.toNat = 2 ^ shift - 1)
    (separate : Separate core) :
    let moved := Core.rep (Core.movs (2 ^ shift)) { core with ecx := core.eax >>> shift }
    Advanced (2 ^ shift * (core.eax.toNat / 2 ^ shift)) core
      { moved with eax := moved.eax &&& mask } := by
  obtain ⟨dstFits, srcFits, apart⟩ := separate
  have count : (core.eax >>> shift).toNat = core.eax.toNat / 2 ^ shift := by
    rw [BitVec.toNat_ushiftRight, Nat.shiftRight_eq_div_pow]
  have within := Nat.mul_div_le core.eax.toNat (2 ^ shift)
  have moved := @Core.rep_movs { core with ecx := core.eax >>> shift } (2 ^ shift)
    (by simp only [count]; omega) (by simp only [count]; omega) (by simp only [count]; omega)
  simp only [count] at moved
  have left : core.eax &&& mask =
      core.eax - BitVec.ofNat 32 (2 ^ shift * (core.eax.toNat / 2 ^ shift)) := by
    apply BitVec.eq_of_toNat_eq
    have split := Nat.div_add_mod core.eax.toNat (2 ^ shift)
    have masked : (core.eax &&& mask).toNat = core.eax.toNat % 2 ^ shift := by
      rw [BitVec.toNat_and, maskIs, Nat.and_two_pow_sub_one_eq_mod]
    rw [masked]
    bv_omega
  refine ⟨0, ?_⟩
  simp only [moved, left]

theorem wordCopy_copied (separate : Separate core) : Copied core (wordCopy core) := by
  have advanced := @bulk_advanced core 1 1 rfl separate
  have small := Nat.mul_div_le core.eax.toNat (2 ^ 1)
  simp only [wordCopy]
  split
  · exact advanced.finish (by assumption) small
  · exact advanced.copied small separate (byteCopy_copied (advanced.separate small separate))

theorem dwordCopy_copied (separate : Separate core) : Copied core (dwordCopy core) := by
  have advanced := @bulk_advanced core 2 3 rfl separate
  have small := Nat.mul_div_le core.eax.toNat (2 ^ 2)
  simp only [dwordCopy]
  split
  · exact advanced.finish (by assumption) small
  · exact advanced.copied small separate (wordCopy_copied (advanced.separate small separate))

private theorem movs_advanced (core : Core) (width : Nat) :
    Advanced width core { core.movs width with eax := core.eax - BitVec.ofNat 32 width } :=
  ⟨core.ecx, rfl⟩

private theorem two_le_of_and {word : Word} (high : ¬ word &&& 0xfffffffe = 0) :
    2 ≤ word.toNat := by
  apply Nat.le_of_not_lt
  intro small
  have cases : word = 0 ∨ word = 1 := by bv_omega
  rcases cases with zero | one
  · exact high (by rw [zero]; rfl)
  · exact high (by rw [one]; rfl)

theorem noByte_copied (separate : Separate core) : Copied core (noByte core) := by
  have advanced := movs_advanced core 2
  unfold noByte
  split
  · exact dwordCopy_copied separate
  · split
    · exact byteCopy_copied separate
    · have two := two_le_of_and (by assumption)
      simp only
      split
      · exact advanced.finish (by assumption) two
      · exact advanced.copied two separate (dwordCopy_copied (advanced.separate two separate))

theorem sameAlign_copied (separate : Separate core) (some : core.eax ≠ 0) :
    Copied core (sameAlign core) := by
  have advanced := movs_advanced core 1
  have one : 1 ≤ core.eax.toNat := by bv_omega
  unfold sameAlign
  split
  · exact noByte_copied separate
  · simp only
    split
    · exact advanced.finish (by assumption) one
    · exact advanced.copied one separate (noByte_copied (advanced.separate one separate))

theorem body_copied (separate : Separate core) (dst : core.edi ≠ 0) (src : core.esi ≠ 0) :
    Copied core (body core) := by
  unfold body
  split
  · rename_i null
    have size : core.eax = 0 := by
      rcases null with dstNull | srcNull | empty
      · exact absurd dstNull dst
      · exact absurd srcNull src
      · exact empty
    refine ⟨core.eax, core.ecx, core.esi, core.edi, ?_⟩
    have nothing : copyBlock core.mem core.edi core.esi core.eax.toNat = core.mem := by
      rw [size]
      exact copyBlock_zero
    rw [nothing]
  · rename_i valid
    have some : core.eax ≠ 0 := by
      intro empty
      exact valid (Or.inr (Or.inr empty))
    have same : Separate { core with ecx := core.edi ^^^ core.esi } :=
      ⟨separate.dstFits, separate.srcFits, separate.apart⟩
    simp only
    split
    · exact sameAlign_copied same some
    · split
      · have copied := wordCopy_copied same
        exact copied
      · have copied := byteCopy_copied same
        exact copied

def saved (core : Core) : List Word := [core.ebp, core.eax, core.ecx, core.edi, core.esi]

private theorem entry_mem : (entry core).mem = pushWords core.mem core.esp (saved core) := rfl

theorem entry_esp : (entry core).esp = core.esp - 20 := by
  change core.esp - 4 - 4 - 4 - 4 - 4 = core.esp - 20
  bv_omega

theorem entry_above {address : Word} (above : (address - core.esp).toNat < 2 ^ 32 - 23) :
    load (entry core).mem address = load core.mem address := by
  have length : (saved core).length = 5 := rfl
  rw [entry_mem]
  exact load_pushWords_above (by omega)

theorem entry_arguments : (entry core).edi = core.argument 0 ∧
    (entry core).esi = core.argument 1 ∧ (entry core).eax = core.argument 2 := by
  have base : (entry core).ebp = core.esp - 4 := rfl
  have read : ∀ index < 3, ∀ offset, offset = BitVec.ofNat 32 (8 + 4 * index) →
      load (entry core).mem ((entry core).ebp + offset) = core.argument index := by
    intro index small offset offsetIs
    have place : (entry core).ebp + offset = core.esp + 4 + BitVec.ofNat 32 (4 * index) := by
      rw [base, offsetIs]
      bv_omega
    rw [place, entry_above (by bv_omega)]
    rfl
  have dst : (entry core).edi = load (entry core).mem ((entry core).ebp + 8) := by
    simp only [entry]
  have src : (entry core).esi = load (entry core).mem ((entry core).ebp + 12) := by
    simp only [entry]
  have size : (entry core).eax = load (entry core).mem ((entry core).ebp + 16) := by
    simp only [entry]
  rw [dst, src, size]
  have first := read 0 (by decide) 8 (by decide)
  have second := read 1 (by decide) 12 (by decide)
  have third := read 2 (by decide) 16 (by decide)
  constructor
  · exact first
  constructor
  · exact second
  · exact third

theorem leave_restores {entered : Core} (stack : entered.esp = core.esp - 20)
    (slots : ∀ index, (small : index < 5) →
      load entered.mem (core.esp - BitVec.ofNat 32 (4 * (index + 1))) = (saved core)[index])
    (ebx : entered.ebx = core.ebx) (edx : entered.edx = core.edx) :
    leave entered = { core with
      mem := entered.mem
      esp := core.esp + 4
      eip := load entered.mem core.esp } := by
  have esi : load entered.mem (core.esp - 20) = core.esi := slots 4 (by decide)
  have edi : load entered.mem (core.esp - 16) = core.edi := slots 3 (by decide)
  have ecx : load entered.mem (core.esp - 12) = core.ecx := slots 2 (by decide)
  have eax : load entered.mem (core.esp - 8) = core.eax := slots 1 (by decide)
  have ebp : load entered.mem (core.esp - 4) = core.ebp := slots 0 (by decide)
  have second : core.esp - 20 + 4 = core.esp - 16 := by bv_omega
  have third : core.esp - 16 + 4 = core.esp - 12 := by bv_omega
  have fourth : core.esp - 12 + 4 = core.esp - 8 := by bv_omega
  have fifth : core.esp - 8 + 4 = core.esp - 4 := by bv_omega
  have last : core.esp - 4 + 4 = core.esp := by bv_omega
  simp only [leave, Core.ret, Core.top, Core.drop, stack, second, third, fourth, fifth, last,
    esi, edi, ecx, eax, ebp, ebx, edx]

end CopyBytes

/-- The stack words that the routine uses are the five under the return address. -/
theorem copyBytes_copies {core : Core} {dst src size : Word}
    (dstIs : core.argument 0 = dst) (srcIs : core.argument 1 = src)
    (sizeIs : core.argument 2 = size) (dstValid : dst ≠ 0) (srcValid : src ≠ 0)
    (dstFits : dst.toNat + size.toNat ≤ 2 ^ 32) (srcFits : src.toNat + size.toNat ≤ 2 ^ 32)
    (apart : dst.toNat + size.toNat ≤ src.toNat ∨ src.toNat + size.toNat ≤ dst.toNat)
    (dstStack : Apart dst size.toNat (core.esp - 20) 20)
    (srcStack : Apart src size.toNat (core.esp - 20) 20) :
    (∀ i < size.toNat,
      (copyBytes core).mem (dst + BitVec.ofNat 32 i) = core.mem (src + BitVec.ofNat 32 i)) ∧
    (∀ byte, (∀ i < size.toNat, byte ≠ dst + BitVec.ofNat 32 i) →
      (∀ j < 20, byte ≠ core.esp - 20 + BitVec.ofNat 32 j) →
      (copyBytes core).mem byte = core.mem byte) ∧
    copyBytes core = { core with
      mem := (copyBytes core).mem
      esp := core.esp + 4
      eip := load (copyBytes core).mem core.esp } := by
  obtain ⟨edi, esi, eax⟩ := @CopyBytes.entry_arguments core
  rw [dstIs] at edi
  rw [srcIs] at esi
  rw [sizeIs] at eax
  have separate : CopyBytes.Separate (CopyBytes.entry core) := by
    constructor
    · rw [edi, eax]
      exact dstFits
    · rw [esi, eax]
      exact srcFits
    · rw [edi, esi, eax]
      exact apart
  have copied := CopyBytes.body_copied separate (by rw [edi]; exact dstValid)
    (by rw [esi]; exact srcValid)
  obtain ⟨_, _, _, _, bodyIs⟩ := copied
  have memIs : (CopyBytes.body (CopyBytes.entry core)).mem =
      copyBlock (CopyBytes.entry core).mem dst src size.toNat := by
    rw [bodyIs, edi, esi, eax]
  have enteredMem : ∀ byte, (∀ j < 20, byte ≠ core.esp - 20 + BitVec.ofNat 32 j) →
      (CopyBytes.entry core).mem byte = core.mem byte := by
    intro byte outside
    exact @pushWords_outside core.mem core.esp (CopyBytes.saved core) byte
      (show 4 * 5 ≤ 2 ^ 31 by decide) outside
  have stack : (CopyBytes.body (CopyBytes.entry core)).esp = core.esp - 20 := by
    rw [bodyIs]
    exact CopyBytes.entry_esp
  have slots : ∀ index, (small : index < 5) →
      load (CopyBytes.body (CopyBytes.entry core)).mem
        (core.esp - BitVec.ofNat 32 (4 * (index + 1))) = (CopyBytes.saved core)[index] := by
    intro index small
    apply @load_pushWords_of_kept core.mem core.esp (CopyBytes.saved core) _ index small
      (show 4 * 5 ≤ 2 ^ 31 by decide)
    intro j inStack
    rw [memIs]
    apply copyBlock_outside
    intro i inBlock same
    exact dstStack i inBlock j inStack same.symm
  have left := CopyBytes.leave_restores stack slots (by rw [bodyIs]; rfl) (by rw [bodyIs]; rfl)
  have result : copyBytes core = { core with
      mem := (CopyBytes.body (CopyBytes.entry core)).mem
      esp := core.esp + 4
      eip := load (CopyBytes.body (CopyBytes.entry core)).mem core.esp } := by
    exact left
  have finalMem : (copyBytes core).mem =
      copyBlock (CopyBytes.entry core).mem dst src size.toNat := by
    rw [result, ← memIs]
  constructor
  · intro i inside
    rw [finalMem, copyBlock_inside inside (by omega)]
    apply enteredMem
    intro j inStack
    exact srcStack i inside j inStack
  constructor
  · intro byte notCopied notStack
    rw [finalMem, copyBlock_outside notCopied]
    exact enteredMem byte notStack
  · rw [result]

def CopyBytes.calledAt (dst src size : Word) : Core :=
  { eax := 1, ebx := 2, ecx := 3, edx := 4, esi := 5, edi := 6, ebp := 7, esp := 0x9000, eip := 0
    mem := fun byte => byte.setWidth 8 : Core }.pushAll [size, src, dst, 0x100]

theorem copyBytes_copies_unaligned :
    (CopyBytes.calledAt 0x1001 0x2003 5).argument 2 = 5 ∧
    ∀ i < 5, (copyBytes (CopyBytes.calledAt 0x1001 0x2003 5)).mem (0x1001 + BitVec.ofNat 32 i) =
      (CopyBytes.calledAt 0x1001 0x2003 5).mem (0x2003 + BitVec.ofNat 32 i) :=
  ⟨by decide, (@copyBytes_copies (CopyBytes.calledAt 0x1001 0x2003 5) 0x1001 0x2003 5 (by decide)
    (by decide) (by decide) (by decide) (by decide) (by decide) (by decide) (by decide)
    (by unfold Apart; decide) (by unfold Apart; decide)).1⟩

end DoggOS.Rt

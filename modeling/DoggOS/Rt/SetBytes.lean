/-
The byte fill of the run-time library, instruction by instruction.

The inner routine stores one byte and one word to reach an aligned address
before it looks at what is left of the size.  From an unaligned address, a size
too small for that makes it store past the block and wraps the size below zero;
for all other addresses and sizes it fills exactly the block.
-/

import DoggOS.Library.X86

namespace DoggOS.Rt

open X86

namespace SetBytes

def noWord (core : Core) : Core := if core.ebx &&& 1 = 0 then core else core.stos 1

def dwordMove (core : Core) : Core :=
  let core := Core.rep (Core.stos 4) { core with ecx := core.ebx >>> 2 }
  let core := { core with ebx := core.ebx &&& 3 }
  if core.ebx = 0 then core
  else if core.ebx &&& 2 = 0 then noWord core
  else noWord (core.stos 2)

def wordMove (core : Core) : Core :=
  let core := core.stos 2
  let core := { core with ebx := core.ebx - 2 }
  if core.ebx = 0 then core else dwordMove core

def byteMove (core : Core) : Core :=
  let core := core.stos 1
  let core := { core with ebx := core.ebx - 1 }
  if core.ebx = 0 then core else wordMove core

def copyBody (core : Core) : Core :=
  if core.edi &&& 3 = 0 then dwordMove core
  else if core.edi &&& 1 = 0 then wordMove core
  else byteMove core

def setBytesCopy (core : Core) : Core := (copyBody core).ret

def entry (core : Core) : Core :=
  let core := core.push core.ebp
  let core := { core with ebp := core.esp }
  let core := core.push core.eax
  let core := core.push core.ebx
  let core := core.push core.ecx
  let core := core.push core.edi
  let core := { core with edi := load core.mem (core.ebp + 8) }
  let core := { core with ebx := load core.mem (core.ebp + 12) }
  let core := { core with eax := load core.mem (core.ebp + 16) }
  let core := { core with ecx := core.eax }
  let core := { core with ecx := core.ecx <<< 8 }
  let core := { core with eax := core.eax ||| core.ecx }
  let core := { core with ecx := core.eax }
  let core := { core with ecx := core.ecx <<< 16 }
  { core with eax := core.eax ||| core.ecx }

def leave (core : Core) : Core :=
  let core := { core.drop with edi := core.top }
  let core := { core.drop with ecx := core.top }
  let core := { core.drop with ebx := core.top }
  let core := { core.drop with eax := core.top }
  let core := { core.drop with ebp := core.top }
  core.ret

end SetBytes

/-- `back` is the address of the instruction after the call of the inner routine. -/
def setBytes (back : Word) (core : Core) : Option Core :=
  ((SetBytes.entry core).call SetBytes.setBytesCopy back).map SetBytes.leave

namespace SetBytes

variable {core : Core} {value : BitVec 8}

private theorem repeats_spread : ∀ value : BitVec 8, ∀ place < 4,
    let eax := value.setWidth 32 ||| (value.setWidth 32 <<< 8)
    byteOf (eax ||| (eax <<< 16)) place = value := by
  decide +kernel

/-- `count` bytes from the destination index on hold the value, and the index is past them. -/
def Filled (count : Nat) (value : BitVec 8) (core after : Core) : Prop :=
  ∃ ebx ecx, after = { core with
    mem := fillBlock core.mem core.edi count value
    edi := core.edi + BitVec.ofNat 32 count
    ebx := ebx
    ecx := ecx }

variable {middle after : Core} {first second : Nat}

theorem Filled.nothing (core : Core) : Filled 0 value core core := by
  refine ⟨core.ebx, core.ecx, ?_⟩
  rw [fillBlock_zero, BitVec.add_zero]

theorem Filled.append (begun : Filled first value core middle)
    (ended : Filled second value middle after) (fits : first + second ≤ 2 ^ 32) :
    Filled (first + second) value core after := by
  obtain ⟨_, _, rfl⟩ := begun
  obtain ⟨ebx, ecx, rfl⟩ := ended
  have advance : core.edi + BitVec.ofNat 32 first + BitVec.ofNat 32 second =
      core.edi + BitVec.ofNat 32 (first + second) := by bv_omega
  refine ⟨ebx, ecx, ?_⟩
  simp only [fillBlock_append fits, advance]

theorem Filled.repeats (filled : Filled first value core after) (repeats : core.Repeats value) :
    after.Repeats value := by
  obtain ⟨_, _, rfl⟩ := filled
  exact repeats

theorem stos_filled (repeats : core.Repeats value) {width : Nat} (narrow : width ≤ 4) (ebx : Word) :
    Filled width value core { core.stos width with ebx := ebx } := by
  rw [Core.stos_eq repeats narrow]
  exact ⟨ebx, core.ecx, rfl⟩

private theorem and_one_eq_zero {word : Word} : word &&& 1 = 0 ↔ word.toNat % 2 = 0 := by
  have masked : (word &&& 1).toNat = word.toNat % 2 := by
    rw [BitVec.toNat_and]
    exact Nat.and_two_pow_sub_one_eq_mod word.toNat 1
  bv_omega

private theorem and_two_eq_zero : ∀ word : Word, word.toNat < 4 →
    (word &&& 2 = 0 ↔ word.toNat < 2) := by
  intro word small
  have cases : word = 0 ∨ word = 1 ∨ word = 2 ∨ word = 3 := by bv_omega
  rcases cases with rfl | rfl | rfl | rfl <;> decide

private theorem and_three {word : Word} : (word &&& 3).toNat = word.toNat % 4 := by
  rw [BitVec.toNat_and]
  exact Nat.and_two_pow_sub_one_eq_mod word.toNat 2

theorem noWord_filled (repeats : core.Repeats value) :
    Filled (core.ebx.toNat % 2) value core (noWord core) := by
  unfold noWord
  split
  · rename_i even
    rw [and_one_eq_zero.mp even]
    exact Filled.nothing core
  · rename_i odd
    have one : core.ebx.toNat % 2 = 1 := by
      rw [and_one_eq_zero] at odd
      omega
    rw [one]
    exact stos_filled repeats (by decide) core.ebx

private theorem tail_filled (repeats : core.Repeats value) (small : core.ebx.toNat < 4) :
    Filled core.ebx.toNat value core
      (if core.ebx = 0 then core
       else if core.ebx &&& 2 = 0 then noWord core
       else noWord (core.stos 2)) := by
  split
  · rename_i none
    rw [none]
    exact Filled.nothing core
  · split
    · rename_i noTwo
      have low := (and_two_eq_zero core.ebx small).mp noTwo
      have byte := noWord_filled repeats
      rw [Nat.mod_eq_of_lt low] at byte
      exact byte
    · rename_i two
      have high : 2 ≤ core.ebx.toNat := by
        rw [and_two_eq_zero core.ebx small] at two
        omega
      have word := stos_filled repeats (show 2 ≤ 4 by decide) core.ebx
      have byte := noWord_filled (word.repeats repeats)
      have whole : 2 + core.ebx.toNat % 2 = core.ebx.toNat := by omega
      rw [← whole]
      exact word.append byte (by omega)

/-- In every case exactly as many bytes as the count says, also after it has wrapped. -/
theorem dwordMove_filled (repeats : core.Repeats value) :
    Filled core.ebx.toNat value core (dwordMove core) := by
  have count : (core.ebx >>> 2).toNat = core.ebx.toNat / 4 := by
    rw [BitVec.toNat_ushiftRight, Nat.shiftRight_eq_div_pow]
  have bulk := @Core.rep_stos { core with ecx := core.ebx >>> 2 } 4 value repeats (by decide)
    (by simp only [count]; omega)
  simp only [count] at bulk
  have begun : Filled (4 * (core.ebx.toNat / 4)) value core
      { Core.rep (Core.stos 4) { core with ecx := core.ebx >>> 2 } with
        ebx := core.ebx &&& 3 } := by
    rw [bulk]
    exact ⟨_, _, rfl⟩
  have rest : (core.ebx &&& 3).toNat = core.ebx.toNat % 4 := and_three
  have ended := tail_filled (begun.repeats repeats) (show (core.ebx &&& 3).toNat < 4 by omega)
  have whole := Nat.div_add_mod core.ebx.toNat 4
  have filled := begun.append ended (show _ + (core.ebx &&& 3).toNat ≤ 2 ^ 32 by omega)
  simp only [rest, whole] at filled
  have same : (Core.rep (Core.stos 4) { core with ecx := core.ebx >>> 2 }).ebx = core.ebx := by
    rw [bulk]
  unfold dwordMove
  simp only [same]
  exact filled

theorem wordMove_filled (repeats : core.Repeats value) (two : 2 ≤ core.ebx.toNat) :
    Filled core.ebx.toNat value core (wordMove core) := by
  have word := stos_filled repeats (show 2 ≤ 4 by decide) (core.ebx - 2)
  simp only [wordMove]
  split
  · rename_i none
    have whole : core.ebx.toNat = 2 := by
      change core.ebx - 2 = 0 at none
      bv_omega
    rw [whole]
    exact word
  · have rest := dwordMove_filled (word.repeats repeats)
    have filled := word.append rest (show 2 + (core.ebx - 2).toNat ≤ 2 ^ 32 by bv_omega)
    have whole : 2 + (core.ebx - 2).toNat = core.ebx.toNat := by bv_omega
    rw [← whole]
    exact filled

theorem byteMove_filled (repeats : core.Repeats value)
    (enough : core.ebx.toNat = 1 ∨ 3 ≤ core.ebx.toNat) :
    Filled core.ebx.toNat value core (byteMove core) := by
  have byte := stos_filled repeats (show 1 ≤ 4 by decide) (core.ebx - 1)
  simp only [byteMove]
  split
  · rename_i none
    have whole : core.ebx.toNat = 1 := by
      change core.ebx - 1 = 0 at none
      bv_omega
    rw [whole]
    exact byte
  · rename_i some
    have two : 2 ≤ (core.ebx - 1).toNat := by
      change core.ebx - 1 ≠ 0 at some
      bv_omega
    have rest := wordMove_filled (byte.repeats repeats) two
    have filled := byte.append rest (show 1 + (core.ebx - 1).toNat ≤ 2 ^ 32 by bv_omega)
    have whole : 1 + (core.ebx - 1).toNat = core.ebx.toNat := by bv_omega
    rw [← whole]
    exact filled

/-- The size covers what the stores before the first double word write. -/
def CoversHead (dst size : Word) : Prop :=
  dst.toNat % 4 = 0 ∨ (dst.toNat % 4 = 2 ∧ 2 ≤ size.toNat) ∨
    (dst.toNat % 2 = 1 ∧ (size.toNat = 1 ∨ 3 ≤ size.toNat))

instance (dst size : Word) : Decidable (CoversHead dst size) :=
  inferInstanceAs (Decidable (_ ∨ _ ∨ _))

private theorem and_three_eq_zero {word : Word} : word &&& 3 = 0 ↔ word.toNat % 4 = 0 := by
  have masked := @and_three word
  bv_omega

theorem copyBody_filled (repeats : core.Repeats value) (covers : CoversHead core.edi core.ebx) :
    Filled core.ebx.toNat value core (copyBody core) := by
  unfold CoversHead at covers
  unfold copyBody
  split
  · exact dwordMove_filled repeats
  · rename_i notDword
    rw [and_three_eq_zero] at notDword
    split
    · rename_i even
      rw [and_one_eq_zero] at even
      exact wordMove_filled repeats (by omega)
    · rename_i odd
      rw [and_one_eq_zero] at odd
      exact byteMove_filled repeats (by omega)

theorem Filled.at_inside (filled : Filled first value core after) {i : Nat} (inside : i < first)
    (fits : first ≤ 2 ^ 32) : after.mem (core.edi + BitVec.ofNat 32 i) = value := by
  obtain ⟨_, _, rfl⟩ := filled
  simp only [fillBlock]
  rw [if_pos (by bv_omega)]

theorem Filled.keeps_value (filled : Filled first value core after) {byte : Word}
    (already : core.mem byte = value) : after.mem byte = value := by
  obtain ⟨_, _, rfl⟩ := filled
  simp only [fillBlock, already]
  exact ite_self value

/-- After the first word the rest stores nothing but the value. -/
private theorem wordMove_keeps (repeats : core.Repeats value) {byte : Word}
    (already : (core.stos 2).mem byte = value) : (wordMove core).mem byte = value := by
  have word := stos_filled repeats (show 2 ≤ 4 by decide) (core.ebx - 2)
  simp only [wordMove]
  split
  · exact already
  · exact (dwordMove_filled (word.repeats repeats)).keeps_value already

theorem copyBody_overruns (repeats : core.Repeats value) (short : ¬ CoversHead core.edi core.ebx) :
    (copyBody core).mem (core.edi + core.ebx) = value := by
  unfold CoversHead at short
  have notDword : ¬ core.edi &&& 3 = 0 := by
    rw [and_three_eq_zero]
    omega
  have place : core.edi + core.ebx = core.edi + BitVec.ofNat 32 core.ebx.toNat := by bv_omega
  unfold copyBody
  rw [if_neg notDword, place]
  split
  · rename_i even
    rw [and_one_eq_zero] at even
    have word := stos_filled repeats (show 2 ≤ 4 by decide) core.ebx
    exact wordMove_keeps repeats (word.at_inside (by omega) (by decide))
  · rename_i odd
    rw [and_one_eq_zero] at odd
    have byte := stos_filled repeats (show 1 ≤ 4 by decide) (core.ebx - 1)
    have some : ¬ core.ebx - 1 = 0 := by bv_omega
    have next := stos_filled (byte.repeats repeats) (show 2 ≤ 4 by decide) (core.ebx - 1)
    have three := byte.append next (by decide)
    have head := three.at_inside (show core.ebx.toNat < 3 by omega) (by decide)
    simp only [byteMove]
    split
    · exact absurd (by assumption) some
    · exact wordMove_keeps (byte.repeats repeats) head

def saved (core : Core) : List Word := [core.ebp, core.eax, core.ebx, core.ecx, core.edi]

private theorem entry_mem : (entry core).mem = pushWords core.mem core.esp (saved core) := rfl

theorem entry_arguments (valueIs : core.argument 2 = value.setWidth 32) :
    (entry core).edi = core.argument 0 ∧ (entry core).ebx = core.argument 1 ∧
      (entry core).Repeats value := by
  have base : (entry core).ebp = core.esp - 4 := rfl
  have read : ∀ index < 3, ∀ offset, offset = BitVec.ofNat 32 (8 + 4 * index) →
      load (entry core).mem ((entry core).ebp + offset) = core.argument index := by
    intro index small offset offsetIs
    have place : (entry core).ebp + offset = core.esp + 4 + BitVec.ofNat 32 (4 * index) := by
      rw [base, offsetIs]
      bv_omega
    rw [place, entry_mem, load_pushWords_above (show _ + 4 * 5 + 4 ≤ 2 ^ 32 by bv_omega)]
    rfl
  have dst : (entry core).edi = load (entry core).mem ((entry core).ebp + 8) := by
    simp only [entry]
  have size : (entry core).ebx = load (entry core).mem ((entry core).ebp + 12) := by
    simp only [entry]
  have eax : ∀ word, load (entry core).mem ((entry core).ebp + 16) = word →
      (entry core).eax = word ||| word <<< 8 ||| (word ||| word <<< 8) <<< 16 := by
    intro word wordIs
    rw [← wordIs]
    simp only [entry]
  have third := read 2 (by decide) 16 (by decide)
  have spread := eax _ (third.trans valueIs)
  constructor
  · rw [dst]
    exact read 0 (by decide) 8 (by decide)
  constructor
  · rw [size]
    exact read 1 (by decide) 12 (by decide)
  · intro place small
    rw [spread]
    exact repeats_spread value place small

theorem leave_restores {entered : Core} (stack : entered.esp = core.esp - 20)
    (slots : ∀ index, (small : index < 5) →
      load entered.mem (core.esp - BitVec.ofNat 32 (4 * (index + 1))) = (saved core)[index])
    (edx : entered.edx = core.edx) (esi : entered.esi = core.esi) :
    leave entered = { core with
      mem := entered.mem
      esp := core.esp + 4
      eip := load entered.mem core.esp } := by
  have edi : load entered.mem (core.esp - 20) = core.edi := slots 4 (by decide)
  have ecx : load entered.mem (core.esp - 16) = core.ecx := slots 3 (by decide)
  have ebx : load entered.mem (core.esp - 12) = core.ebx := slots 2 (by decide)
  have eax : load entered.mem (core.esp - 8) = core.eax := slots 1 (by decide)
  have ebp : load entered.mem (core.esp - 4) = core.ebp := slots 0 (by decide)
  have second : core.esp - 20 + 4 = core.esp - 16 := by bv_omega
  have third : core.esp - 16 + 4 = core.esp - 12 := by bv_omega
  have fourth : core.esp - 12 + 4 = core.esp - 8 := by bv_omega
  have fifth : core.esp - 8 + 4 = core.esp - 4 := by bv_omega
  have last : core.esp - 4 + 4 = core.esp := by bv_omega
  simp only [leave, Core.ret, Core.top, Core.drop, stack, second, third, fourth, fifth, last,
    edi, ecx, ebx, eax, ebp, edx, esi]

private theorem leave_mem : (leave core).mem = core.mem := rfl

private theorem setBytesCopy_mem : (setBytesCopy core).mem = (copyBody core).mem := rfl

def inner (back : Word) (core : Core) : Core := (entry core).push back

variable {back : Word}

theorem inner_outside {byte : Word}
    (outside : ∀ j < 24, byte ≠ core.esp - 24 + BitVec.ofNat 32 j) :
    (inner back core).mem byte = core.mem byte :=
  @pushWords_outside core.mem core.esp (saved core ++ [back]) byte (show 4 * 6 ≤ 2 ^ 31 by decide) outside

/-- The routine comes back with its registers when the six stack words are kept. -/
theorem setBytes_eq {filled : Core} (filledIs : copyBody (inner back core) = filled)
    (esp : filled.esp = core.esp - 24) (edx : filled.edx = core.edx) (esi : filled.esi = core.esi)
    (kept : ∀ j < 24, filled.mem (core.esp - 24 + BitVec.ofNat 32 j) =
      (inner back core).mem (core.esp - 24 + BitVec.ofNat 32 j)) :
    setBytes back core = some { core with
      mem := filled.mem
      esp := core.esp + 4
      eip := load filled.mem core.esp } := by
  have slots : ∀ index, (small : index < 6) →
      load filled.mem (core.esp - BitVec.ofNat 32 (4 * (index + 1))) =
        (saved core ++ [back])[index] := by
    intro index small
    exact @load_pushWords_of_kept core.mem core.esp (saved core ++ [back]) _ index small
      (show 4 * 6 ≤ 2 ^ 31 by decide) kept
  have returns : (setBytesCopy (inner back core)).eip = back := by
    have top : load filled.mem (core.esp - 24) = back := slots 5 (by decide)
    unfold setBytesCopy
    rw [filledIs]
    simp only [Core.ret, Core.top, esp, top]
  have called : (entry core).call setBytesCopy back = some (setBytesCopy (inner back core)) := by
    have condition : (setBytesCopy ((entry core).push back)).eip = back := returns
    unfold Core.call
    rw [if_pos condition]
    rfl
  have same : setBytesCopy (inner back core) = filled.ret := by
    unfold setBytesCopy
    rw [filledIs]
  have firstFive : ∀ index, (small : index < 5) →
      load filled.mem (core.esp - BitVec.ofNat 32 (4 * (index + 1))) = (saved core)[index] := by
    intro index small
    rw [slots index (by omega)]
    exact List.getElem_append_left small
  have top : filled.esp + 4 = core.esp - 20 := by
    rw [esp]
    bv_omega
  have left := @leave_restores core filled.ret top firstFive edx esi
  unfold setBytes
  rw [called, same, Option.map_some, left]
  rfl

/-- What a call should do: come back, with exactly the bytes of the block set. The six words under
the return address are the stack words that the two routines use. -/
def SetsExactly (back : Word) (core : Core) (dst size : Word) (value : BitVec 8) : Prop :=
  ∃ after, setBytes back core = some after ∧
    (∀ i < size.toNat, after.mem (dst + BitVec.ofNat 32 i) = value) ∧
    (∀ byte, (∀ i < size.toNat, byte ≠ dst + BitVec.ofNat 32 i) →
      (∀ j < 24, byte ≠ core.esp - 24 + BitVec.ofNat 32 j) → after.mem byte = core.mem byte) ∧
    after = { core with
      mem := after.mem
      esp := core.esp + 4
      eip := load after.mem core.esp }

variable {dst size : Word}

theorem setsExactly_of_covers (dstIs : core.argument 0 = dst) (sizeIs : core.argument 1 = size)
    (valueIs : core.argument 2 = value.setWidth 32)
    (apart : Apart dst size.toNat (core.esp - 24) 24) (covers : CoversHead dst size) :
    SetsExactly back core dst size value := by
  obtain ⟨edi, ebx, repeats⟩ := entry_arguments valueIs
  rw [dstIs] at edi
  rw [sizeIs] at ebx
  have innerEdi : (inner back core).edi = dst := edi
  have innerEbx : (inner back core).ebx = size := ebx
  have filled := @copyBody_filled (inner back core) value repeats (by
    rw [innerEdi, innerEbx]
    exact covers)
  obtain ⟨_, _, filledIs⟩ := filled
  have memIs : (copyBody (inner back core)).mem =
      fillBlock (inner back core).mem dst size.toNat value := by
    rw [filledIs, innerEdi, innerEbx]
  have esp : (copyBody (inner back core)).esp = core.esp - 24 := by
    rw [filledIs]
    change core.esp - 4 - 4 - 4 - 4 - 4 - 4 = core.esp - 24
    bv_omega
  have outside : ∀ byte, (∀ i < size.toNat, byte ≠ dst + BitVec.ofNat 32 i) →
      (copyBody (inner back core)).mem byte = (inner back core).mem byte := by
    intro byte notFilled
    rw [memIs]
    unfold fillBlock
    rw [if_neg]
    intro inBlock
    apply notFilled _ inBlock
    bv_omega
  have result := setBytes_eq rfl esp (by rw [filledIs]; rfl) (by rw [filledIs]; rfl) (by
    intro j inStack
    apply outside
    intro i inBlock same
    exact apart i inBlock j inStack same.symm)
  refine ⟨_, result, ?_, ?_, rfl⟩
  · intro i inside
    simp only [memIs, fillBlock]
    rw [if_pos (by bv_omega)]
  · intro byte notFilled notStack
    simp only
    rw [outside byte notFilled, inner_outside notStack]

/-- A short block, where the byte after it is neither a stack byte nor holds the value yet. -/
theorem not_setsExactly (dstIs : core.argument 0 = dst) (sizeIs : core.argument 1 = size)
    (valueIs : core.argument 2 = value.setWidth 32) (short : ¬ CoversHead dst size)
    (notStack : ∀ j < 24, dst + size ≠ core.esp - 24 + BitVec.ofNat 32 j)
    (different : core.mem (dst + size) ≠ value) : ¬ SetsExactly back core dst size value := by
  intro sets
  obtain ⟨after, ran, _, outside, _⟩ := sets
  obtain ⟨edi, ebx, repeats⟩ := entry_arguments valueIs
  rw [dstIs] at edi
  rw [sizeIs] at ebx
  have innerEdi : (inner back core).edi = dst := edi
  have innerEbx : (inner back core).ebx = size := ebx
  have overrun := @copyBody_overruns (inner back core) value repeats (by
    rw [innerEdi, innerEbx]
    exact short)
  rw [innerEdi, innerEbx] at overrun
  have memIs : after.mem = (copyBody (inner back core)).mem := by
    obtain ⟨middle, called, rfl⟩ := Option.map_eq_some_iff.mp ran
    rw [leave_mem, ← Core.call_eq called, setBytesCopy_mem]
    rfl
  apply different
  rw [← outside (dst + size) ?_ notStack, memIs, overrun]
  intro i inside
  bv_omega

def calledWith (dst size : Word) (value : BitVec 8) : Core :=
  { eax := 0, ebx := 0, ecx := 0, edx := 0, esi := 0, edi := 0, ebp := 0
    esp := dst + size + 0x40000000
    eip := 0
    mem := fun _ => value + 1 : Core }.pushAll [value.setWidth 32, size, dst, 0]

theorem calledWith_esp : (calledWith dst size value).esp = dst + size + 0x3ffffff0 := by
  change dst + size + 0x40000000 - 16 = _
  bv_omega

theorem calledWith_argument {index : Nat} (small : index < 3) :
    (calledWith dst size value).argument index =
      [value.setWidth 32, size, dst, 0].get ⟨2 - index, show _ < 4 by omega⟩ := by
  have place : (calledWith dst size value).esp + 4 + BitVec.ofNat 32 (4 * index) =
      dst + size + 0x40000000 - BitVec.ofNat 32 (4 * (2 - index + 1)) := by
    rw [calledWith_esp]
    bv_omega
  unfold Core.argument
  rw [place]
  apply load_pushWords
  exact show 4 * 4 ≤ 2 ^ 31 by decide

theorem calledWith_mem : (calledWith dst size value).mem (dst + size) = value + 1 := by
  apply pushWords_outside
  · exact show 4 * 4 ≤ 2 ^ 31 by decide
  · intro i small
    change i < 16 at small
    change dst + size ≠ dst + size + 0x40000000 - 16 + BitVec.ofNat 32 i
    bv_omega

end SetBytes

open SetBytes

theorem setBytes_exact_iff (dst size : Word) (value : BitVec 8) (back : Word)
    (fits : dst.toNat + size.toNat ≤ 2 ^ 32) :
    (∀ core : Core, core.argument 0 = dst → core.argument 1 = size →
      core.argument 2 = value.setWidth 32 → Apart dst size.toNat (core.esp - 24) 24 →
        SetsExactly back core dst size value) ↔ CoversHead dst size := by
  constructor
  · intro always
    apply Decidable.byContradiction
    intro short
    have few : size.toNat ≤ 2 := by
      unfold CoversHead at short
      omega
    have first : (calledWith dst size value).argument 0 = dst := calledWith_argument (by decide)
    have second : (calledWith dst size value).argument 1 = size := calledWith_argument (by decide)
    have third : (calledWith dst size value).argument 2 = value.setWidth 32 :=
      calledWith_argument (by decide)
    apply @not_setsExactly (calledWith dst size value) value back dst size first second third short
    · intro j inStack
      rw [calledWith_esp]
      bv_omega
    · rw [calledWith_mem]
      bv_omega
    · apply always _ first second third
      intro i inside j inStack
      rw [calledWith_esp]
      bv_omega
  · intro covers core dstIs sizeIs valueIs apart
    exact setsExactly_of_covers dstIs sizeIs valueIs apart covers

theorem setBytes_exact_iff_one :
    (∀ core : Core, core.argument 0 = 0x1003 → core.argument 1 = 1 →
      core.argument 2 = (0x2a#8).setWidth 32 → Apart 0x1003 1 (core.esp - 24) 24 →
        SetsExactly 0x100 core 0x1003 1 0x2a) ↔ CoversHead 0x1003 1 :=
  setBytes_exact_iff 0x1003 1 0x2a 0x100 (by decide)

/-- One byte at an address that is two above a multiple of four: the byte after it is set too. -/
theorem setBytes_stores_past_block :
    (calledWith 0x1002 1 0x2a).argument 0 = 0x1002 ∧ (calledWith 0x1002 1 0x2a).argument 1 = 1 ∧
      (calledWith 0x1002 1 0x2a).argument 2 = (0x2a#8).setWidth 32 ∧
      Apart 0x1002 1 ((calledWith 0x1002 1 0x2a).esp - 24) 24 ∧
      ¬ SetsExactly 0x100 (calledWith 0x1002 1 0x2a) 0x1002 1 0x2a := by
  have first : (calledWith 0x1002 1 0x2a).argument 0 = 0x1002 := calledWith_argument (by decide)
  have second : (calledWith 0x1002 1 0x2a).argument 1 = 1 := calledWith_argument (by decide)
  have third : (calledWith 0x1002 1 0x2a).argument 2 = (0x2a#8).setWidth 32 :=
    calledWith_argument (by decide)
  refine ⟨first, second, third, ?_, ?_⟩
  · unfold Apart
    rw [calledWith_esp]
    decide
  · apply not_setsExactly first second third (by decide)
    · rw [calledWith_esp]
      decide
    · rw [calledWith_mem]
      decide

end DoggOS.Rt

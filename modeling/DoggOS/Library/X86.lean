/-
A part of the 32-bit x86 machine.

Memory is flat and little-endian; addresses are words, so they wrap.  The core
has the general registers, the instruction pointer and memory.  The stack
instructions and the string instructions, also repeated, are functions on it
with the direction flag clear.  A run of string moves has a closed form, the
copy of one block, when its two blocks do not meet.
-/

import Mathlib.Algebra.Group.Nat.Defs
import Mathlib.Tactic.TypeStar
import Mathlib.Logic.Basic

namespace DoggOS.X86

abbrev Word := BitVec 32

abbrev Memory := Word → BitVec 8

def byteOf (word : Word) (place : Nat) : BitVec 8 := word.extractLsb' (8 * place) 8

def load (mem : Memory) (address : Word) : Word :=
  mem (address + 3) ++ mem (address + 2) ++ mem (address + 1) ++ mem address

def store (mem : Memory) (address word : Word) : Memory := fun byte =>
  if (byte - address).toNat < 4 then byteOf word (byte - address).toNat else mem byte

/-- All bytes are read before the first is written. -/
def copyBlock (mem : Memory) (dst src : Word) (size : Nat) : Memory := fun byte =>
  if (byte - dst).toNat < size then mem (src + (byte - dst)) else mem byte

def fillBlock (mem : Memory) (dst : Word) (size : Nat) (value : BitVec 8) : Memory := fun byte =>
  if (byte - dst).toNat < size then value else mem byte

def pushWords (mem : Memory) (esp : Word) : List Word → Memory
  | [] => mem
  | word :: words => pushWords (store mem (esp - 4) word) (esp - 4) words

def Apart (first : Word) (firstSize : Nat) (second : Word) (secondSize : Nat) : Prop :=
  ∀ i < firstSize, ∀ j < secondSize, first + BitVec.ofNat 32 i ≠ second + BitVec.ofNat 32 j

structure Core where
  eax : Word
  ebx : Word
  ecx : Word
  edx : Word
  esi : Word
  edi : Word
  ebp : Word
  esp : Word
  eip : Word
  mem : Memory

namespace Core

def push (core : Core) (word : Word) : Core :=
  { core with esp := core.esp - 4, mem := store core.mem (core.esp - 4) word }

def pushAll (core : Core) (words : List Word) : Core :=
  { core with
    esp := core.esp - BitVec.ofNat 32 (4 * words.length)
    mem := pushWords core.mem core.esp words }

def top (core : Core) : Word := load core.mem core.esp

def drop (core : Core) : Core := { core with esp := core.esp + 4 }

def ret (core : Core) : Core := { core.drop with eip := core.top }

/-- No result where the routine does not come back to the instruction after the call. -/
def call (routine : Core → Core) (back : Word) (core : Core) : Option Core :=
  let after := routine (core.push back)
  if after.eip = back then some after else none

def argument (core : Core) (index : Nat) : Word :=
  load core.mem (core.esp + 4 + BitVec.ofNat 32 (4 * index))

def movs (width : Nat) (core : Core) : Core :=
  { core with
    mem := copyBlock core.mem core.edi core.esi width
    esi := core.esi + BitVec.ofNat 32 width
    edi := core.edi + BitVec.ofNat 32 width }

def stos (width : Nat) (core : Core) : Core :=
  { core with
    mem := fun byte => if (byte - core.edi).toNat < width
      then byteOf core.eax (byte - core.edi).toNat else core.mem byte
    edi := core.edi + BitVec.ofNat 32 width }

def repeatString (string : Core → Core) : Nat → Core → Core
  | 0, core => core
  | turns + 1, core => repeatString string turns (string { core with ecx := core.ecx - 1 })

def rep (string : Core → Core) (core : Core) : Core := repeatString string core.ecx.toNat core

end Core

section Memory

variable {mem : Memory} {address other word dst src : Word}

theorem store_outside {byte : Word} (outside : 4 ≤ (byte - address).toNat) :
    store mem address word byte = mem byte := by
  unfold store
  rw [if_neg (by omega)]

theorem load_congr {changed : Memory}
    (same : ∀ k : Word, k.toNat < 4 → changed (address + k) = mem (address + k)) :
    load changed address = load mem address := by
  have first := same 0#32 (by decide)
  rw [BitVec.add_zero] at first
  unfold load
  rw [same 3 (by decide), same 2 (by decide), same 1 (by decide), first]

/-- Two words that do not meet, in arithmetic that wraps. -/
theorem load_store_of_apart (below : 4 ≤ (other - address).toNat)
    (above : 4 ≤ (address - other).toNat) : load (store mem address word) other = load mem other := by
  apply load_congr
  intro k small
  exact store_outside (by bv_omega)

private theorem bytes_append : byteOf word 3 ++ byteOf word 2 ++ byteOf word 1 ++ byteOf word 0 = word := by
  unfold byteOf
  rw [BitVec.extractLsb'_append_extractLsb'_eq_extractLsb' (by decide),
    BitVec.extractLsb'_append_extractLsb'_eq_extractLsb' (by decide),
    BitVec.extractLsb'_append_extractLsb'_eq_extractLsb' (by decide)]
  exact BitVec.extractLsb'_eq_self

theorem load_store : load (store mem address word) address = word := by
  have inside : ∀ k : Word, k.toNat < 4 →
      store mem address word (address + k) = byteOf word k.toNat := by
    intro k small
    have place : address + k - address = k := by bv_omega
    unfold store
    rw [place, if_pos small]
  have first := inside 0#32 (by decide)
  rw [BitVec.add_zero] at first
  unfold load
  rw [inside 3 (by decide), inside 2 (by decide), inside 1 (by decide), first]
  exact bytes_append

theorem store_store (mem : Memory) (address first second : Word) :
    store (store mem address first) address second = store mem address second := by
  funext byte
  unfold store
  split <;> rfl

theorem store_comm (below : 4 ≤ (other - address).toNat) (above : 4 ≤ (address - other).toNat)
    (first second : Word) : store (store mem address first) other second =
      store (store mem other second) address first := by
  funext byte
  unfold store
  by_cases inFirst : (byte - address).toNat < 4
  · rw [if_pos inFirst, if_pos inFirst, if_neg (by bv_omega)]
  · rw [if_neg inFirst, if_neg inFirst]

section Pushes

variable {esp : Word} {words : List Word}

theorem load_pushWords_above
    (above : (address - esp).toNat + 4 * words.length + 4 ≤ 2 ^ 32) :
    load (pushWords mem esp words) address = load mem address := by
  induction words generalizing mem esp with
  | nil => rfl
  | cons word words ih =>
      rw [List.length_cons] at above
      rw [pushWords, ih (by bv_omega)]
      apply load_store_of_apart <;> bv_omega

/-- The word pushed at `index` is found again under the stack pointer of the start. -/
theorem load_pushWords {index : Nat} (inside : index < words.length)
    (fits : 4 * words.length ≤ 2 ^ 31) :
    load (pushWords mem esp words) (esp - BitVec.ofNat 32 (4 * (index + 1))) = words[index] := by
  induction words generalizing mem esp index with
  | nil => cases inside
  | cons word words ih =>
      rw [List.length_cons] at inside fits
      rw [pushWords]
      cases index with
      | zero =>
          have top : esp - BitVec.ofNat 32 (4 * (0 + 1)) = esp - 4 := by bv_omega
          rw [top, load_pushWords_above (by bv_omega)]
          exact load_store
      | succ index =>
          have place : esp - BitVec.ofNat 32 (4 * (index + 1 + 1)) =
              esp - 4 - BitVec.ofNat 32 (4 * (index + 1)) := by bv_omega
          rw [place, ih (by omega) (by omega)]
          rfl

theorem pushWords_append (mem : Memory) (esp : Word) (first second : List Word) :
    pushWords mem esp (first ++ second) =
      pushWords (pushWords mem esp first) (esp - BitVec.ofNat 32 (4 * first.length)) second := by
  induction first generalizing mem esp with
  | nil => simp [pushWords]
  | cons word words ih =>
      have place : esp - 4 - BitVec.ofNat 32 (4 * words.length) =
          esp - BitVec.ofNat 32 (4 * (words.length + 1)) := by bv_omega
      rw [List.cons_append, pushWords, ih, pushWords, List.length_cons, place]

theorem load_pushWords_of_kept {kept : Memory} {index : Nat} (inside : index < words.length)
    (fits : 4 * words.length ≤ 2 ^ 31)
    (same : ∀ i < 4 * words.length,
      let byte := esp - BitVec.ofNat 32 (4 * words.length) + BitVec.ofNat 32 i
      kept byte = pushWords mem esp words byte) :
    load kept (esp - BitVec.ofNat 32 (4 * (index + 1))) = words[index] := by
  rw [← @load_pushWords mem esp words index inside fits]
  apply load_congr
  intro k inWord
  have place : esp - BitVec.ofNat 32 (4 * (index + 1)) + k =
      esp - BitVec.ofNat 32 (4 * words.length) +
        BitVec.ofNat 32 (4 * (words.length - (index + 1)) + k.toNat) := by bv_omega
  rw [place]
  exact same _ (by omega)

theorem pushWords_outside {byte : Word} (fits : 4 * words.length ≤ 2 ^ 31)
    (outside : ∀ i < 4 * words.length,
      byte ≠ esp - BitVec.ofNat 32 (4 * words.length) + BitVec.ofNat 32 i) :
    pushWords mem esp words byte = mem byte := by
  induction words generalizing mem esp with
  | nil => rfl
  | cons word words ih =>
      rw [List.length_cons] at fits outside
      rw [pushWords, ih (by omega)]
      · apply store_outside
        apply Nat.le_of_not_lt
        intro inWord
        apply outside (4 * words.length + (byte - (esp - 4)).toNat) (by omega)
        bv_omega
      · intro i small
        have different := outside i (by omega)
        bv_omega

end Pushes

theorem copyBlock_inside {size i : Nat} (inside : i < size) (fits : size ≤ 2 ^ 32) :
    copyBlock mem dst src size (dst + BitVec.ofNat 32 i) = mem (src + BitVec.ofNat 32 i) := by
  have place : dst + BitVec.ofNat 32 i - dst = BitVec.ofNat 32 i := by bv_omega
  unfold copyBlock
  rw [place, if_pos (by bv_omega)]

theorem copyBlock_outside {size : Nat} {byte : Word}
    (outside : ∀ i < size, byte ≠ dst + BitVec.ofNat 32 i) :
    copyBlock mem dst src size byte = mem byte := by
  unfold copyBlock
  rw [if_neg]
  intro inside
  apply outside _ inside
  bv_omega

theorem copyBlock_zero : copyBlock mem dst src 0 = mem := by
  funext byte
  unfold copyBlock
  rw [if_neg (by omega)]

theorem copyBlock_append {first second : Nat}
    (dstFits : dst.toNat + (first + second) ≤ 2 ^ 32)
    (srcFits : src.toNat + (first + second) ≤ 2 ^ 32)
    (apart : dst.toNat + (first + second) ≤ src.toNat ∨
      src.toNat + (first + second) ≤ dst.toNat) :
    copyBlock (copyBlock mem dst src first) (dst + BitVec.ofNat 32 first)
      (src + BitVec.ofNat 32 first) second = copyBlock mem dst src (first + second) := by
  funext byte
  by_cases early : (byte - dst).toNat < first
  · have notLate : ¬ (byte - (dst + BitVec.ofNat 32 first)).toNat < second := by bv_omega
    unfold copyBlock
    rw [if_neg notLate, if_pos early, if_pos (by omega)]
  · by_cases late : (byte - dst).toNat < first + second
    · have inSecond : (byte - (dst + BitVec.ofNat 32 first)).toNat < second := by bv_omega
      have fromSource :
          src + BitVec.ofNat 32 first + (byte - (dst + BitVec.ofNat 32 first)) =
            src + (byte - dst) := by bv_omega
      have notCopied : ¬ (src + (byte - dst) - dst).toNat < first := by bv_omega
      unfold copyBlock
      rw [if_pos inSecond, fromSource, if_neg notCopied, if_pos late]
    · have outside : ¬ (byte - (dst + BitVec.ofNat 32 first)).toNat < second := by bv_omega
      unfold copyBlock
      rw [if_neg outside, if_neg early, if_neg late]

variable {value : BitVec 8}

theorem fillBlock_zero : fillBlock mem dst 0 value = mem := by
  funext byte
  unfold fillBlock
  rw [if_neg (by omega)]

theorem fillBlock_append {first second : Nat} (fits : first + second ≤ 2 ^ 32) :
    fillBlock (fillBlock mem dst first value) (dst + BitVec.ofNat 32 first) second value =
      fillBlock mem dst (first + second) value := by
  funext byte
  by_cases early : (byte - dst).toNat < first
  · have inBoth : (byte - dst).toNat < first + second := by omega
    unfold fillBlock
    rw [if_pos early, if_pos inBoth]
    exact ite_self value
  · by_cases late : (byte - dst).toNat < first + second
    · have inSecond : (byte - (dst + BitVec.ofNat 32 first)).toNat < second := by bv_omega
      unfold fillBlock
      rw [if_pos inSecond, if_pos late]
    · have outside : ¬ (byte - (dst + BitVec.ofNat 32 first)).toNat < second := by bv_omega
      unfold fillBlock
      rw [if_neg outside, if_neg early, if_neg late]

end Memory

namespace Core

variable {core : Core} {width : Nat} {word address : Word}

theorem call_eq {routine : Core → Core} {back : Word} {after : Core}
    (called : core.call routine back = some after) : routine (core.push back) = after := by
  unfold call at called
  simp only at called
  split at called
  · exact Option.some.inj called
  · cases called

theorem repeat_movs (turns : Nat) (dstFits : core.edi.toNat + width * turns ≤ 2 ^ 32)
    (srcFits : core.esi.toNat + width * turns ≤ 2 ^ 32)
    (apart : core.edi.toNat + width * turns ≤ core.esi.toNat ∨
      core.esi.toNat + width * turns ≤ core.edi.toNat) :
    repeatString (movs width) turns core = { core with
      mem := copyBlock core.mem core.edi core.esi (width * turns)
      esi := core.esi + BitVec.ofNat 32 (width * turns)
      edi := core.edi + BitVec.ofNat 32 (width * turns)
      ecx := core.ecx - BitVec.ofNat 32 turns } := by
  induction turns generalizing core with
  | zero => simp [repeatString, copyBlock_zero]
  | succ turns ih =>
      have size : width * (turns + 1) = width + width * turns := by
        rw [Nat.mul_succ, Nat.add_comm]
      rw [size] at dstFits srcFits apart
      have advance : ∀ start : Word, start + BitVec.ofNat 32 width +
          BitVec.ofNat 32 (width * turns) = start + BitVec.ofNat 32 (width + width * turns) := by
        intro start
        bv_omega
      have count : core.ecx - 1 - BitVec.ofNat 32 turns =
          core.ecx - BitVec.ofNat 32 (turns + 1) := by bv_omega
      have copied := @copyBlock_append core.mem core.edi core.esi width (width * turns)
        dstFits srcFits apart
      rw [repeatString, ih]
      · simp only [movs, advance, count, copied, size]
      · simp only [movs]
        bv_omega
      · simp only [movs]
        bv_omega
      · simp only [movs]
        bv_omega

theorem rep_movs (dstFits : core.edi.toNat + width * core.ecx.toNat ≤ 2 ^ 32)
    (srcFits : core.esi.toNat + width * core.ecx.toNat ≤ 2 ^ 32)
    (apart : core.edi.toNat + width * core.ecx.toNat ≤ core.esi.toNat ∨
      core.esi.toNat + width * core.ecx.toNat ≤ core.edi.toNat) :
    rep (movs width) core = { core with
      mem := copyBlock core.mem core.edi core.esi (width * core.ecx.toNat)
      esi := core.esi + BitVec.ofNat 32 (width * core.ecx.toNat)
      edi := core.edi + BitVec.ofNat 32 (width * core.ecx.toNat)
      ecx := 0 } := by
  have counted : core.ecx - BitVec.ofNat 32 core.ecx.toNat = 0 := by bv_omega
  rw [rep, repeat_movs core.ecx.toNat dstFits srcFits apart, counted]

def Repeats (core : Core) (value : BitVec 8) : Prop :=
  ∀ place < 4, byteOf core.eax place = value

variable {value : BitVec 8}

theorem stos_eq (repeats : core.Repeats value) (narrow : width ≤ 4) :
    stos width core = { core with
      mem := fillBlock core.mem core.edi width value
      edi := core.edi + BitVec.ofNat 32 width } := by
  have bytes : (stos width core).mem = fillBlock core.mem core.edi width value := by
    funext byte
    simp only [stos, fillBlock]
    split
    · exact repeats _ (by omega)
    · rfl
  rw [← bytes]
  rfl

theorem repeat_stos (repeats : core.Repeats value) (narrow : width ≤ 4) (turns : Nat)
    (fits : width * turns ≤ 2 ^ 32) :
    repeatString (stos width) turns core = { core with
      mem := fillBlock core.mem core.edi (width * turns) value
      edi := core.edi + BitVec.ofNat 32 (width * turns)
      ecx := core.ecx - BitVec.ofNat 32 turns } := by
  induction turns generalizing core with
  | zero => simp [repeatString, fillBlock_zero]
  | succ turns ih =>
      have size : width * (turns + 1) = width + width * turns := by
        rw [Nat.mul_succ, Nat.add_comm]
      rw [size] at fits
      have advance : core.edi + BitVec.ofNat 32 width + BitVec.ofNat 32 (width * turns) =
          core.edi + BitVec.ofNat 32 (width + width * turns) := by bv_omega
      have count : core.ecx - 1 - BitVec.ofNat 32 turns =
          core.ecx - BitVec.ofNat 32 (turns + 1) := by bv_omega
      have filled := @fillBlock_append core.mem core.edi value width (width * turns) fits
      have one := @stos_eq { core with ecx := core.ecx - 1 } width value repeats narrow
      rw [repeatString, one, ih]
      · simp only [advance, count, filled, size]
      · exact repeats
      · omega

theorem rep_stos (repeats : core.Repeats value) (narrow : width ≤ 4)
    (fits : width * core.ecx.toNat ≤ 2 ^ 32) :
    rep (stos width) core = { core with
      mem := fillBlock core.mem core.edi (width * core.ecx.toNat) value
      edi := core.edi + BitVec.ofNat 32 (width * core.ecx.toNat)
      ecx := 0 } := by
  have counted : core.ecx - BitVec.ofNat 32 core.ecx.toNat = 0 := by bv_omega
  rw [rep, repeat_stos repeats narrow core.ecx.toNat fits, counted]

end Core

end DoggOS.X86

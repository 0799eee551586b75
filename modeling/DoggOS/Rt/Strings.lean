/-
The string functions of the run time.

A buffer and a string are byte memories from their first byte on, and no two of
them overlap; the pointers are not NULL.  Lengths and cursors are 32-bit
numbers.  `k_rt_StrCat` measures the string that is in the buffer itself, so its
size is that of the whole buffer.
-/

import DoggOS.Library.WhileLoop
import DoggOS.Library.Words
import Mathlib.Data.List.GetD

namespace DoggOS.Rt

/-- One turn of the loop of `k_rt_StrLen`. -/
def lenTurn (str : Bytes) (cursor : Nat) : Option Nat :=
  if str cursor ≠ 0 then some ((cursor + 1) % 2 ^ 32) else none

/-- `k_rt_StrLen`; without a NUL the cursor runs in a circle. -/
def strLen (str : Bytes) : Option Nat := whileLoop (lenTurn str) (2 ^ 32) 0

/-- `k_rt_StrCpy` -/
def strCpy (buffer : Bytes) (bufferSize : Nat) (str : Bytes) : Option (Nat × Bytes) :=
  if bufferSize ≠ 0 then
    (strLen str).map fun strLength =>
      let length := (strLength + 1) % 2 ^ 32
      let length := if length > bufferSize then bufferSize else length
      let last := (length + (2 ^ 32 - 1)) % 2 ^ 32
      (length, Function.update (fillBytes buffer 0 last str) last 0)
  else some (0, buffer)

/-- One turn of the loop of `k_rt_StrCat`; the buffer is indexed from its start. -/
def catTurn (str : Bytes) (index length : Nat) : Nat × Bytes → Option (Nat × Bytes)
  | (strIndex, buffer) =>
      if strIndex < length then
        some ((strIndex + 1) % 2 ^ 32, Function.update buffer (index + strIndex) (str strIndex))
      else none

/-- `k_rt_StrCat` -/
def strCat (buffer : Bytes) (bufferSize : Nat) (str : Bytes) : Option (Nat × Bytes) :=
  if bufferSize > 0 then
    (strLen str).bind fun strLength =>
      let length := (strLength + 1) % 2 ^ 32
      (strLen buffer).bind fun index =>
        if (index + length) % 2 ^ 32 < bufferSize then
          (whileLoop (catTurn str index length) (length + 1) (0, buffer)).map fun copied =>
            ((index + length) % 2 ^ 32, copied.2)
        else some (index, buffer)
  else some (0, buffer)

structure HoldsString (bytes : Bytes) (text : List UInt8) : Prop where
  chars : ∀ index ≤ text.length, bytes index = text.getD index 0
  nonzero : 0 ∉ text

/-- What `k_rt_StrCat` makes of two texts. -/
def catText (text : List UInt8) (bufferSize : Nat) (str : List UInt8) : List UInt8 :=
  if text.length + str.length + 1 < bufferSize then text ++ str else text

variable {bytes buffer str : Bytes} {text word : List UInt8} {bufferSize : Nat}

theorem HoldsString.nul (holds : HoldsString bytes text) : bytes text.length = 0 := by
  rw [holds.chars _ (Nat.le_refl _)]
  exact List.getD_eq_default _ _ (Nat.le_refl _)

theorem HoldsString.char_ne (holds : HoldsString bytes text) {index : Nat}
    (inside : index < text.length) : bytes index ≠ 0 := by
  rw [holds.chars _ (Nat.le_of_lt inside), List.getD_eq_getElem _ _ inside]
  intro zero
  exact holds.nonzero (zero ▸ List.getElem_mem inside)

theorem HoldsString.congr (holds : HoldsString bytes text)
    (same : ∀ index ≤ text.length, buffer index = bytes index) : HoldsString buffer text where
  chars index inside := (same index inside).trans (holds.chars index inside)
  nonzero := holds.nonzero

theorem strLen_eq (holds : HoldsString bytes text) (small : text.length < 2 ^ 32) :
    strLen bytes = some text.length := by
  have turns : ∀ cursor state next, state = cursor ∧ cursor ≤ text.length →
      lenTurn bytes state = some next →
      ∃ cursor', (next = cursor' ∧ cursor' ≤ text.length) ∧
        text.length - cursor' < text.length - cursor := by
    intro cursor state next held turned
    obtain ⟨rfl, inside⟩ := held
    unfold lenTurn at turned
    by_cases zero : bytes state = 0
    · rw [if_neg (not_not_intro zero)] at turned
      cases turned
    · have before : state ≠ text.length := fun same => zero (same ▸ holds.nul)
      rw [if_pos zero, Nat.mod_eq_of_lt (by omega)] at turned
      cases turned
      exact ⟨state + 1, ⟨rfl, by omega⟩, by omega⟩
  obtain ⟨cursor, after, ran, held, stopped⟩ :=
    WhileLoop.rule (fun cursor state => state = cursor ∧ cursor ≤ text.length)
      (fun cursor => text.length - cursor) turns 0 0 ⟨rfl, Nat.zero_le _⟩ small
  obtain ⟨rfl, inside⟩ := held
  have atEnd : after = text.length := by
    by_contra before
    unfold lenTurn at stopped
    rw [if_pos (holds.char_ne (by omega))] at stopped
    cases stopped
  rw [strLen, ran, atEnd]

theorem HoldsString.length_unique (first : HoldsString bytes text) (second : HoldsString bytes word)
    (small : text.length < 2 ^ 32) (smaller : word.length < 2 ^ 32) :
    text.length = word.length := by
  have measured := strLen_eq first small
  rw [strLen_eq second smaller] at measured
  exact (Option.some.inj measured).symm

theorem catLoop_eq (str : Bytes) (index : Nat) {length : Nat} (small : length < 2 ^ 32)
    (buffer : Bytes) :
    whileLoop (catTurn str index length) (length + 1) (0, buffer) =
      some (length, fillBytes buffer index length str) := by
  have turns : ∀ count (state next : Nat × Bytes),
      state = (count, fillBytes buffer index count str) ∧ count ≤ length →
      catTurn str index length state = some next →
      ∃ count', (next = (count', fillBytes buffer index count' str) ∧ count' ≤ length) ∧
        length - count' < length - count := by
    intro count state next held turned
    obtain ⟨rfl, inside⟩ := held
    unfold catTurn at turned
    dsimp only at turned
    by_cases more : count < length
    · rw [if_pos more, Nat.mod_eq_of_lt (by omega), Words.update_fillBytes] at turned
      cases turned
      exact ⟨count + 1, ⟨rfl, more⟩, by omega⟩
    · rw [if_neg more] at turned
      cases turned
  have start : (0, buffer) = (0, fillBytes buffer index 0 str) := by
    rw [Words.fillBytes_zero]
  obtain ⟨count, after, ran, held, stopped⟩ :=
    WhileLoop.rule (fun count (state : Nat × Bytes) =>
        state = (count, fillBytes buffer index count str) ∧ count ≤ length)
      (fun count => length - count) turns 0 (0, buffer) ⟨start, Nat.zero_le _⟩
      (Nat.lt_succ_of_le (Nat.sub_le length 0))
  obtain ⟨rfl, inside⟩ := held
  have atEnd : count = length := by
    by_contra before
    unfold catTurn at stopped
    dsimp only at stopped
    rw [if_pos (by omega)] at stopped
    cases stopped
  rw [ran, atEnd]

theorem HoldsString.append (holds : HoldsString buffer text) (string : HoldsString str word) :
    HoldsString (fillBytes buffer text.length (word.length + 1) str) (text ++ word) := by
  constructor
  · intro index inside
    rw [List.length_append] at inside
    unfold fillBytes
    by_cases early : index < text.length
    · rw [if_neg (by omega), List.getD_append _ _ _ _ early]
      exact holds.chars index (Nat.le_of_lt early)
    · rw [if_pos (by omega), List.getD_append_right _ _ _ _ (by omega)]
      exact string.chars _ (by omega)
  · rw [List.mem_append]
    exact fun member => member.elim holds.nonzero string.nonzero

/-- A catenation stays inside its size and makes `catText`. -/
theorem strCat_spec (bufferSize : Nat) (holds : HoldsString buffer text)
    (string : HoldsString str word) (positive : 0 < bufferSize)
    (small : text.length + word.length + 1 < 2 ^ 32) :
    ∃ length after, strCat buffer bufferSize str = some (length, after) ∧
      HoldsString after (catText text bufferSize word) ∧
      ∀ place, bufferSize ≤ place → after place = buffer place := by
  have length : (word.length + 1) % 2 ^ 32 = word.length + 1 := Nat.mod_eq_of_lt (by omega)
  have last : (text.length + (word.length + 1)) % 2 ^ 32 = text.length + word.length + 1 :=
    Nat.mod_eq_of_lt (by omega)
  unfold strCat
  rw [if_pos positive, strLen_eq string (by omega), Option.bind_some, strLen_eq holds (by omega),
    Option.bind_some, length, last]
  unfold catText
  by_cases fits : text.length + word.length + 1 < bufferSize
  · rw [if_pos fits, if_pos fits, catLoop_eq str text.length (by omega)]
    refine ⟨_, _, rfl, holds.append string, ?_⟩
    intro place outside
    dsimp only
    unfold fillBytes
    rw [if_neg (by omega)]
  · rw [if_neg fits, if_neg fits]
    exact ⟨_, _, rfl, holds, fun place _ => rfl⟩

/-- A copy that has room leaves the string and nothing behind its NUL. -/
theorem strCpy_spec (buffer : Bytes) (string : HoldsString str word)
    (fits : word.length + 1 ≤ bufferSize) (small : bufferSize < 2 ^ 32) :
    ∃ after, strCpy buffer bufferSize str = some (word.length + 1, after) ∧
      HoldsString after word ∧ ∀ place, bufferSize ≤ place → after place = buffer place := by
  have length : (word.length + 1) % 2 ^ 32 = word.length + 1 := Nat.mod_eq_of_lt (by omega)
  have last : (word.length + 1 + (2 ^ 32 - 1)) % 2 ^ 32 = word.length := by omega
  have copied : Function.update (fillBytes buffer 0 word.length str) word.length 0 =
      fillBytes buffer 0 (word.length + 1) str := by
    have nul := Words.update_fillBytes buffer 0 word.length str
    rw [string.nul, Nat.zero_add] at nul
    exact nul
  refine ⟨fillBytes buffer 0 (word.length + 1) str, ?_, ?_, ?_⟩
  · unfold strCpy
    rw [if_pos (by omega), strLen_eq string (by omega), Option.map_some]
    dsimp only
    rw [length, if_neg (by omega), last, copied]
  · apply string.congr
    intro index inside
    unfold fillBytes
    rw [if_pos (by omega), Nat.sub_zero]
  · intro place outside
    unfold fillBytes
    rw [if_neg (by omega)]

end DoggOS.Rt

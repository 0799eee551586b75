/-
The conversions of the kernel's formatter.

A buffer is the whole object and `start` the place of the pointer in it.  Sizes
are `int32_t`.  Each conversion answers with a length of its own kind: `k_itoa`
with what it wrote, `k_xtoa` with what it needs, and `k_strcat` with what it
wrote and the NUL.
-/

import DoggOS.Rt.NumberText

namespace DoggOS.KString

/-- `k_nibble_lut` -/
def nibbleLut : List UInt8 :=
  ['0', '1', '2', '3', '4', '5', '6', '7', '8', '9', 'a', 'b', 'c', 'd', 'e', 'f'].map Char.toUInt8

def strlenFrom (buf : Nat → Option UInt8) : Nat → Nat → Option Nat
  | 0, _ => none
  | turns + 1, index =>
      (buf index).bind fun char =>
        if char ≠ 0 then strlenFrom buf turns ((index + 1) % 2 ^ 32) else some index

/-- `k_strlen` -/
def strlen (buf : Nat → Option UInt8) : Option Nat := strlenFrom buf (2 ^ 32) 0

/-- `k_itoa` -/
def itoa (buffer : List UInt8) (start : Nat) (bufferSize : Int) (value : Int32) :
    Option (Nat × List UInt8) :=
  if bufferSize > 0 then
    (Rt.convert buffer start bufferSize.toNat value).map fun outcome =>
      (outcome.1.getD 0, outcome.2)
  else some (0, buffer)

def nibbleTurn (value : UInt64) : UInt64 × Nat → Option (UInt64 × Nat)
  | (mask, index) =>
      if value &&& mask = 0 ∧ mask ≠ 0 then some (mask >>> 4, index + 1) else none

/-- The loop that stores the nibbles, the least significant one first; the place is the one behind
the next character. -/
def writeNibbles : Nat → Nat → UInt64 → List UInt8 → Option (List UInt8)
  | turns + 1, place + 1, value, buffer =>
      (nibbleLut[(value &&& 0xf).toNat]?).bind fun char =>
        (storeChar buffer place char).bind fun buffer =>
          if value >>> 4 ≠ 0 then writeNibbles turns place (value >>> 4) buffer else some buffer
  | _, _, _, _ => none

/-- `k_xtoa` -/
def xtoa (buffer : List UInt8) (start : Nat) (bufferSize : Int) (value : UInt64) :
    Option (Nat × List UInt8) :=
  if bufferSize > 0 then
    (whileLoop (nibbleTurn value) 17 (0xf000000000000000, 0)).bind fun skipped =>
      let index := 16 - skipped.2
      let index := if index = 0 then index + 1 else index
      if index < bufferSize then
        (storeChar buffer (start + index) 0).bind fun buffer =>
          (writeNibbles 16 (start + index) value buffer).map fun buffer => (index, buffer)
      else some (index, buffer)
  else some (0, buffer)

/-- One turn of the loop of `k_strcat`; the pointer has been moved to `place`. -/
def catTurn (str : CString) (place : Nat) : Nat × List UInt8 → Option (Nat × List UInt8)
  | (strIndex, buffer) =>
      (str.char strIndex).bind fun char =>
        (storeChar buffer (place + strIndex) char).map fun buffer =>
          ((strIndex + 1) % 2 ^ 32, buffer)

/-- `k_strcat` -/
def strcat (buffer : List UInt8) (start : Nat) (bufferSize : Int) (str : CString) :
    Option (Nat × List UInt8) :=
  if bufferSize > 0 then
    (strlen str.char).bind fun strLength =>
      let length := (strLength + 1) % 2 ^ 32
      (strlen fun place => buffer[start + place]?).bind fun index =>
        if ((index + length) % 2 ^ 32 : Nat) < bufferSize then
          (faultLoop (fun state => decide (state.1 < length)) (catTurn str (start + index))
            (length + 1) (0, buffer)).map fun copied => ((index + length) % 2 ^ 32, copied.2)
        else some (index, buffer)
  else some (0, buffer)

variable {buffer : List UInt8} {start size : Nat}

theorem itoa_eq (value : Int32) (positive : 1 ≤ size) (inside : start + size ≤ buffer.length) :
    itoa buffer start size value =
      some (if (decimalText value.toInt).length + 1 ≤ size then
          ((decimalText value.toInt).length,
            overwrite buffer start (decimalText value.toInt ++ [0]))
        else (0, buffer)) := by
  unfold itoa
  rw [if_pos (by omega), Int.toNat_natCast, Rt.convert_eq value positive inside, Option.map_some]
  by_cases fits : (decimalText value.toInt).length + 1 ≤ size
  · rw [if_pos fits, if_pos fits]
    rfl
  · rw [if_neg fits, if_neg fits]
    rfl

theorem nibbleLut_eq : ∀ nibble < 16, nibbleLut[nibble]? = some (digitByte nibble) := by
  decide

theorem low_nibble (value : UInt64) : (value &&& 0xf).toNat = value.toNat % 16 := by
  rw [UInt64.toNat_and]
  exact Nat.and_two_pow_sub_one_eq_mod value.toNat 4

theorem shift_nibble (value : UInt64) : (value >>> 4).toNat = value.toNat / 16 := by
  rw [UInt64.toNat_shiftRight]
  exact Nat.shiftRight_eq_div_pow value.toNat 4

def nibbleMask (width : Nat) : UInt64 := UInt64.ofNat (15 * 16 ^ width / 16)

theorem nibbleMask_shift : ∀ width < 16,
    nibbleMask (width + 1) ≠ 0 ∧ nibbleMask (width + 1) >>> 4 = nibbleMask width := by
  decide +kernel

theorem and_nibble (number shift : Nat) :
    number &&& 15 <<< shift = (number >>> shift &&& 15) <<< shift := by
  apply Nat.eq_of_testBit_eq
  intro place
  rw [Nat.testBit_and, Nat.testBit_shiftLeft, Nat.testBit_shiftLeft, Nat.testBit_and,
    Nat.testBit_shiftRight]
  by_cases behind : place ≥ shift
  · rw [decide_eq_true behind, Nat.add_sub_cancel' behind, Bool.true_and, Bool.true_and]
  · rw [decide_eq_false behind, Bool.false_and, Bool.false_and, Bool.and_false]

theorem masked_nibble (value : UInt64) {width : Nat} (inWord : width < 16)
    (fits : value.toNat < 16 ^ (width + 1)) :
    value &&& nibbleMask (width + 1) = 0 ↔ value.toNat < 16 ^ width := by
  have positive : 0 < 16 ^ width := Nat.pow_pos (by omega)
  have small : 15 * 16 ^ width < 2 ^ 64 := by
    have bound : 16 ^ width ≤ 16 ^ 15 := Nat.pow_le_pow_right (by omega) (by omega)
    omega
  have mask : (nibbleMask (width + 1)).toNat = 15 <<< (4 * width) := by
    have whole : 15 * 16 ^ (width + 1) / 16 = 15 * 16 ^ width := by
      rw [pow_succ, ← Nat.mul_assoc, Nat.mul_div_cancel _ (by omega)]
    unfold nibbleMask
    rw [whole, UInt64.toNat_ofNat_of_lt' small, Nat.shiftLeft_eq, pow_mul]
    rfl
  have nibble : value.toNat / 16 ^ width < 16 := by
    rw [Nat.div_lt_iff_lt_mul positive, Nat.mul_comm, ← pow_succ]
    exact fits
  rw [← UInt64.toNat_inj, UInt64.toNat_and, mask, and_nibble, Nat.shiftLeft_eq,
    Nat.shiftRight_eq_div_pow, pow_mul]
  change (value.toNat / 16 ^ width &&& 2 ^ 4 - 1) * 16 ^ width = 0 ↔ _
  rw [Nat.and_two_pow_sub_one_eq_mod, Nat.mod_eq_of_lt nibble, Nat.mul_eq_zero,
    Nat.div_eq_zero_iff]
  omega

theorem findNibble_eq (value : UInt64) {width turns : Nat} (enough : width < turns)
    (inWord : width ≤ 16) (fits : value.toNat < 16 ^ width) :
    ∃ first ≤ width,
      whileLoop (nibbleTurn value) turns (nibbleMask width, 16 - width) =
        some (nibbleMask first, 16 - first) ∧
      value.toNat < 16 ^ first ∧ (0 < first → 16 ^ (first - 1) ≤ value.toNat) := by
  induction width generalizing turns with
  | zero =>
      obtain ⟨turns, rfl⟩ := Nat.exists_eq_add_of_lt enough
      refine ⟨0, Nat.le_refl 0, ?_, fits, fun more => absurd more (Nat.lt_irrefl 0)⟩
      rw [Nat.zero_add]
      apply WhileLoop.stop
      exact if_neg (fun both => both.2 rfl)
  | succ width ih =>
      cases turns with
      | zero => omega
      | succ turns =>
          obtain ⟨nonzero, shifted⟩ := nibbleMask_shift width inWord
          by_cases below : value.toNat < 16 ^ width
          · obtain ⟨first, within, found, bounds⟩ :=
              ih (Nat.lt_of_succ_lt_succ enough) (by omega) below
            refine ⟨first, by omega, ?_, bounds⟩
            rw [← found]
            apply WhileLoop.turn
            unfold nibbleTurn
            dsimp only
            rw [if_pos ⟨(masked_nibble value inWord fits).mpr below, nonzero⟩, shifted,
              show 16 - (width + 1) + 1 = 16 - width by omega]
          · refine ⟨width + 1, Nat.le_refl _, ?_, fits, fun _ => Nat.le_of_not_lt below⟩
            apply WhileLoop.stop
            exact if_neg (fun both => below ((masked_nibble value inWord fits).mp both.1))

/-- The nibbles of a number with so many of them, the last one first. -/
theorem writeNibbles_eq (start width : Nat) (value : UInt64) {turns : Nat} (text : List UInt8)
    (enough : width < turns) (fits : value.toNat < 16 ^ (width + 1))
    (least : width = 0 ∨ 16 ^ width ≤ value.toNat)
    (inside : start + (width + 1) + text.length ≤ buffer.length) :
    writeNibbles turns (start + (width + 1)) value (overwrite buffer (start + (width + 1)) text) =
      some (overwrite buffer start (wideNumeral 16 (width + 1) value.toNat ++ text)) := by
  have last : (value &&& 0xf).toNat < 16 := by
    rw [low_nibble]
    exact Nat.mod_lt _ (by omega)
  induction width generalizing turns value text with
  | zero =>
      obtain ⟨turns, rfl⟩ := Nat.exists_eq_add_of_lt enough
      rw [Nat.zero_add, pow_one] at fits
      have ended : value >>> 4 = 0 := by
        rw [← UInt64.toNat_inj, shift_nibble]
        exact Nat.div_eq_of_lt fits
      rw [Nat.zero_add, Nat.zero_add, writeNibbles, nibbleLut_eq _ last, Option.bind_some,
        CharBuffers.storeChar_before (by omega), Option.bind_some, ended, if_neg (by simp),
        low_nibble, Nat.mod_eq_of_lt fits, wideNumeral, wideNumeral, pow_zero, Nat.div_one]
      rfl
  | succ width ih =>
      cases turns with
      | zero => omega
      | succ turns =>
          have reaches : 16 ^ (width + 1) ≤ value.toNat := least.resolve_left (Nat.succ_ne_zero _)
          have power : 16 ^ (width + 1) = 16 ^ width * 16 := pow_succ 16 width
          have positive : 0 < 16 ^ width := Nat.pow_pos (by omega)
          have more : value >>> 4 ≠ 0 := by
            rw [ne_eq, ← UInt64.toNat_inj, shift_nibble]
            change ¬ value.toNat / 16 = 0
            omega
          have shorter : (value >>> 4).toNat < 16 ^ (width + 1) := by
            rw [shift_nibble, Nat.div_lt_iff_lt_mul (by omega), ← pow_succ]
            exact fits
          have longer : 16 ^ width ≤ (value >>> 4).toNat := by
            rw [shift_nibble, Nat.le_div_iff_mul_le (by omega), ← power]
            exact reaches
          have nextLast : (value >>> 4 &&& 0xf).toNat < 16 := by
            rw [low_nibble]
            exact Nat.mod_lt _ (by omega)
          have rest := ih (value >>> 4) (digitByte (value.toNat % 16) :: text)
            (Nat.lt_of_succ_lt_succ enough) shorter (Or.inr longer)
            (by rw [List.length_cons]; omega) nextLast
          rw [← Nat.add_assoc start (width + 1) 1, writeNibbles, nibbleLut_eq _ last,
            Option.bind_some, CharBuffers.storeChar_before (by omega), Option.bind_some, if_pos more,
            low_nibble, rest, shift_nibble,
            Numerals.wideNumeral_snoc (by omega) (width + 1) value.toNat fits, List.append_assoc]
          rfl

theorem xtoa_eq (value : UInt64) (positive : 1 ≤ size) (inside : start + size ≤ buffer.length) :
    xtoa buffer start size value =
      some ((numeral 16 value.toNat).length,
        if (numeral 16 value.toNat).length < size then
          overwrite buffer start (numeral 16 value.toNat ++ [0])
        else buffer) := by
  obtain ⟨first, within, found, below, least⟩ :=
    findNibble_eq value (show 16 < 17 by omega) (Nat.le_refl 16) value.toNat_lt
  -- a zero has one digit all the same
  obtain ⟨width, inWord, index, wide, short⟩ : ∃ width < 16,
      (if 16 - (16 - first) = 0 then 16 - (16 - first) + 1 else 16 - (16 - first)) = width + 1 ∧
      value.toNat < 16 ^ (width + 1) ∧ (width = 0 ∨ 16 ^ width ≤ value.toNat) := by
    cases first with
    | zero => exact ⟨0, by omega, rfl, lt_trans below (by decide), Or.inl rfl⟩
    | succ first =>
        refine ⟨first, by omega, ?_, below, Or.inr (least (Nat.succ_pos first))⟩
        rw [if_neg (by omega)]
        omega
  have digits : numeral 16 value.toNat = wideNumeral 16 (width + 1) value.toNat :=
    Numerals.numeral_eq_wide (by omega) wide short
  have count : (numeral 16 value.toNat).length = width + 1 := by
    rw [digits, Numerals.wideNumeral_length]
  change whileLoop (nibbleTurn value) 17 (0xf000000000000000, 0) = _ at found
  unfold xtoa
  rw [if_pos (by omega), found, Option.bind_some]
  dsimp only
  rw [index, count]
  by_cases fits : width + 1 < size
  · have room : start + (width + 1) + [(0 : UInt8)].length ≤ buffer.length := by
      rw [List.length_singleton]
      omega
    have written := writeNibbles_eq start width value [0] inWord wide short room
    rw [if_pos (by omega), if_pos fits, CharBuffers.storeChar_eq (by omega), Option.bind_some,
      written, digits]
    rfl
  · rw [if_neg (by omega), if_neg fits]

/-- The three conversions write the canonical texts, or nothing when there is no room. -/
theorem conversions_spec :
    (∀ (value : Int32) (buffer : List UInt8) (start size : Nat), 1 ≤ size →
      start + size ≤ buffer.length →
      itoa buffer start size value =
        some (if (decimalText value.toInt).length + 1 ≤ size then
            ((decimalText value.toInt).length,
              overwrite buffer start (decimalText value.toInt ++ [0]))
          else (0, buffer))) ∧
    (∀ (value : Int32) (buffer : List UInt8) (size resultSize : Nat), 1 ≤ size →
      size ≤ buffer.length →
      Rt.itoA value (some buffer) size resultSize =
        some (if (decimalText value.toInt).length + 1 ≤ size then
            ⟨.ok, some (overwrite buffer 0 (decimalText value.toInt ++ [0])),
              (decimalText value.toInt).length⟩
          else ⟨.outOfSpace, some buffer, resultSize⟩)) ∧
    ∀ (value : UInt64) (buffer : List UInt8) (start size : Nat), start + size ≤ buffer.length →
      (numeral 16 value.toNat).length < size →
      xtoa buffer start size value =
        some ((numeral 16 value.toNat).length,
          overwrite buffer start (numeral 16 value.toNat ++ [0])) := by
  refine ⟨?_, ?_, ?_⟩
  · intro value buffer start size positive inside
    exact itoa_eq value positive inside
  · intro value buffer size resultSize positive inside
    exact Rt.itoA_eq value resultSize positive inside
  · intro value buffer start size inside fits
    rw [xtoa_eq value (by omega) inside, if_pos fits]

/-- The least `int32_t` in twelve bytes, and in eleven. -/
theorem conversions_spec_least :
    (itoa (List.replicate 12 7) 0 12 (-2147483648)).map Prod.fst = some 11 ∧
      (Rt.itoA (-2147483648) (some (List.replicate 11 7)) 11 3).map Rt.ItoaOutcome.status =
        some .outOfSpace ∧
      xtoa (List.replicate 4 7) 1 3 0xbe = some (2, [7, 98, 101, 0]) := by
  obtain ⟨written, answered, hexadecimal⟩ := conversions_spec
  refine ⟨?_, ?_, ?_⟩
  · have least := written (-2147483648) (List.replicate 12 7) 0 12 (by decide) (by decide)
    rw [Nat.cast_ofNat] at least
    rw [least]
    decide +kernel
  · rw [answered (-2147483648) (List.replicate 11 7) 11 3 (by decide) (by decide)]
    decide +kernel
  · have two := hexadecimal 0xbe (List.replicate 4 7) 1 3 (by decide) (by decide +kernel)
    rw [Nat.cast_ofNat] at two
    rw [two]
    decide +kernel

theorem strlenFrom_eq {buf : Nat → Option UInt8} {text : List UInt8} (reads : ReadsText buf text)
    {index turns : Nat} (small : text.length < 2 ^ 32) (within : index ≤ text.length)
    (enough : text.length - index < turns) : strlenFrom buf turns index = some text.length := by
  induction turns generalizing index with
  | zero => omega
  | succ turns ih =>
      by_cases atEnd : index = text.length
      · rw [strlenFrom, atEnd, reads.nul, Option.bind_some]
        exact if_neg (not_not_intro rfl)
      · have inside : index < text.length := by omega
        rw [strlenFrom, reads.char inside, Option.bind_some, if_pos (reads.char_ne_zero inside),
          Nat.mod_eq_of_lt (by omega)]
        exact ih (by omega) (by omega)

theorem strlen_eq {buf : Nat → Option UInt8} {text : List UInt8} (reads : ReadsText buf text)
    (small : text.length < 2 ^ 32) : strlen buf = some text.length :=
  strlenFrom_eq reads small (Nat.zero_le _) (by omega)

theorem catLoop_eq (str : CString) {place count : Nat} (within : count ≤ str.text.length + 1)
    (inside : place + (str.text.length + 1) ≤ buffer.length) {turns : Nat}
    (enough : str.text.length + 1 - count < turns) :
    faultLoop (fun state => decide (state.1 < str.text.length + 1)) (catTurn str place) turns
        (count, overwrite buffer place ((str.text ++ [0]).take count)) =
      some (str.text.length + 1, overwrite buffer place (str.text ++ [0])) := by
  have whole : (str.text ++ [0]).length = str.text.length + 1 := List.length_append
  have bounded := str.bounded
  induction turns generalizing count with
  | zero => omega
  | succ turns ih =>
      by_cases more : count < str.text.length + 1
      · have bound : count < (str.text ++ [0]).length := by omega
        have char : str.char count = some (str.text ++ [0])[count] := List.getElem?_eq_getElem bound
        have taken : ((str.text ++ [0]).take count).length = count := by
          rw [List.length_take, Nat.min_eq_left (Nat.le_of_lt bound)]
        have room : place + ((str.text ++ [0]).take count).length < buffer.length := by omega
        have stored : storeChar (overwrite buffer place ((str.text ++ [0]).take count))
            (place + count) (str.text ++ [0])[count] =
            some (overwrite buffer place ((str.text ++ [0]).take (count + 1))) := by
          have behind := CharBuffers.storeChar_behind (str.text ++ [0])[count] room
          rw [taken, List.take_append_getElem] at behind
          exact behind
        rw [faultLoop, decide_eq_true more, if_pos rfl, catTurn, char, Option.bind_some, stored,
          Option.map_some, Option.bind_some, Nat.mod_eq_of_lt (by omega)]
        exact ih (by omega) (by omega)
      · have all : count = str.text.length + 1 := by omega
        rw [faultLoop, all, ← whole, List.take_length, decide_eq_false (Nat.lt_irrefl _)]
        rfl

theorem strcat_eq (str : CString) (empty : buffer[start]? = some 0) (positive : 1 ≤ size)
    (inside : start + size ≤ buffer.length) :
    strcat buffer start size str =
      some (if str.text.length + 1 < size then
          (str.text.length + 1, overwrite buffer start (str.text ++ [0]))
        else (0, buffer)) := by
  have bounded := str.bounded
  have length : (str.text.length + 1) % 2 ^ 32 = str.text.length + 1 := Nat.mod_eq_of_lt bounded
  have reads : ReadsText (fun place => buffer[start + place]?) [] := by
    refine ⟨fun index before => ?_, List.not_mem_nil⟩
    have first : index = 0 := Nat.lt_one_iff.mp before
    rw [first]
    exact empty
  have measured : strlen (fun place => buffer[start + place]?) = some 0 :=
    strlen_eq reads (by decide)
  unfold strcat
  rw [if_pos (by omega), strlen_eq str.readsText (Nat.lt_of_succ_lt bounded),
    Option.bind_some, measured, Option.bind_some]
  rw [length, Nat.zero_add, length]
  by_cases fits : str.text.length + 1 < size
  · have room : start + (str.text.length + 1) ≤ buffer.length := by omega
    have copied := catLoop_eq str (Nat.zero_le _) room
      (show str.text.length + 1 - 0 < str.text.length + 1 + 1 by omega)
    rw [List.take_zero, CharBuffers.overwrite_nil] at copied
    rw [if_pos (by omega), if_pos fits, Nat.add_zero start, copied]
    rfl
  · rw [if_neg (by omega), if_neg fits]

end DoggOS.KString

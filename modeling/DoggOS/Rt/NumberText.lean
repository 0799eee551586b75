/-
Decimal texts of the run time.

`k_itoa` and `k_rt_ItoA` have one table and one body; they differ in how they
answer.  The body takes the first digit from the row of the table with the
largest power of ten in the number and goes down from there.  Its last row has
no multiples of one, but nothing is read from it after the last digit.
-/

import DoggOS.Library.CharBuffers
import DoggOS.Library.Numerals
import DoggOS.Library.WhileLoop
import Mathlib.Tactic.IntervalCases

namespace DoggOS.Rt

/-- `k_itoa_masks`, and the same numbers in `k_rt_itoa_masks` -/
def itoaMasks : List (List UInt32) :=
  [[0, 1000000000, 2000000000, 3000000000, 4000000000, 0, 0, 0, 0, 0],
   [0, 100000000, 200000000, 300000000, 400000000, 500000000, 600000000, 700000000, 800000000,
    900000000],
   [0, 10000000, 20000000, 30000000, 40000000, 50000000, 60000000, 70000000, 80000000, 90000000],
   [0, 1000000, 2000000, 3000000, 4000000, 5000000, 6000000, 7000000, 8000000, 9000000],
   [0, 100000, 200000, 300000, 400000, 500000, 600000, 700000, 800000, 900000],
   [0, 10000, 20000, 30000, 40000, 50000, 60000, 70000, 80000, 90000],
   [0, 1000, 2000, 3000, 4000, 5000, 6000, 7000, 8000, 9000],
   [0, 100, 200, 300, 400, 500, 600, 700, 800, 900],
   [0, 10, 20, 30, 40, 50, 60, 70, 80, 90],
   [0, 1, 1, 1, 1, 1, 1, 1, 1, 1]]

def maskAt (maskIndex digit : Nat) : Option UInt32 :=
  itoaMasks[maskIndex]?.bind fun row => row[digit]?

/-- The statuses of `enum result_t` that the string functions answer with. -/
inductive StringResult where
  | ok
  | badParam
  | outOfSpace
  deriving DecidableEq, Repr

/-- The number without its sign; the least `int32_t` is its own negation and is left alone. -/
def unsignedValue (value : Int32) : UInt32 :=
  if value.toUInt32 > 0x80000000 then (-value).toUInt32 else value.toUInt32

def findMask (uvalue : UInt32) : Nat → Nat → Option Nat
  | 0, _ => none
  | turns + 1, maskIndex =>
      (maskAt maskIndex 1).bind fun power =>
        if uvalue < power ∧ maskIndex < 9 then findMask uvalue turns (maskIndex + 1)
        else some maskIndex

structure ItoaState where
  maskIndex : Nat
  index : Nat
  uvalue : UInt32
  buffer : List UInt8
  deriving DecidableEq

def digitTurn (start : Nat) (state : ItoaState) : Option ItoaState :=
  (maskAt state.maskIndex 1).bind fun power =>
    let digit := state.uvalue / power
    (storeChar state.buffer (start + state.index) (48 + digit).toUInt8).bind fun buffer =>
      (maskAt state.maskIndex digit.toNat).map fun multiple =>
        { maskIndex := state.maskIndex + 1, index := state.index + 1,
          uvalue := state.uvalue - multiple, buffer := buffer }

def writeDigits (start bufferLength : Nat) : ItoaState → Option ItoaState :=
  faultLoop (fun state => decide (state.maskIndex < 10 ∧ state.index < bufferLength))
    (digitTurn start) 11

/-- What `k_itoa` and `k_rt_ItoA` do with a buffer that is not empty: the number of characters,
when they had room. -/
def convert (buffer : List UInt8) (start bufferSize : Nat) (value : Int32) :
    Option (Option Nat × List UInt8) :=
  let sign := if value < 0 then 1 else 0
  let uvalue := unsignedValue value
  (findMask uvalue 10 0).bind fun maskIndex =>
    let bufferLength := bufferSize - 1
    if sign + 10 - maskIndex ≤ bufferLength then
      (if sign = 1 then storeChar buffer start '-'.toUInt8 else some buffer).bind fun buffer =>
        (writeDigits start bufferLength ⟨maskIndex, sign, uvalue, buffer⟩).bind fun written =>
          (storeChar written.buffer (start + written.index) 0).map fun buffer =>
            (some written.index, buffer)
    else some (none, buffer)

structure ItoaOutcome where
  status : StringResult
  buffer : Option (List UInt8)
  resultSize : Nat
  deriving DecidableEq

/-- `k_rt_ItoA`; the buffer is `none` for NULL, and `resultSize` is what the caller's variable
holds. -/
def itoA (value : Int32) (buffer : Option (List UInt8)) (bufferSize resultSize : Nat) :
    Option ItoaOutcome :=
  match buffer with
  | none => some ⟨.badParam, none, resultSize⟩
  | some bytes =>
      if bufferSize > 0 then
        (convert bytes 0 bufferSize value).map fun outcome =>
          match outcome.1 with
          | some index => ⟨.ok, some outcome.2, index⟩
          | none => ⟨.outOfSpace, some outcome.2, resultSize⟩
      else some ⟨.badParam, some bytes, resultSize⟩

variable {value : Int32} {buffer : List UInt8} {start size : Nat}

theorem unsignedValue_toNat (value : Int32) :
    (unsignedValue value).toNat = value.toInt.natAbs := by
  have signed : value.toInt = (value.toUInt32.toNat : Int).bmod (2 ^ 32) :=
    BitVec.toInt_eq_toNat_bmod value.toBitVec
  have below := value.toUInt32.toNat_lt
  rw [Int.bmod_def] at signed
  unfold unsignedValue
  by_cases negative : value.toUInt32 > 0x80000000
  · have large : 0x80000000 < value.toUInt32.toNat := UInt32.lt_iff_toNat_lt.mp negative
    rw [if_neg (by omega)] at signed
    rw [if_pos negative, Int32.toUInt32_neg, UInt32.toNat_neg, UInt32.size]
    omega
  · have small : value.toUInt32.toNat ≤ 0x80000000 :=
      Nat.le_of_not_lt fun large => negative (UInt32.lt_iff_toNat_lt.mpr large)
    rw [if_neg negative]
    split at signed <;> omega

theorem maskAt_power : ∀ width < 10, maskAt (9 - width) 1 = some (UInt32.ofNat (10 ^ width)) := by
  decide

theorem maskAt_multiple : ∀ width < 10, 0 < width → ∀ digit < 10, digit * 10 ^ width < 2 ^ 32 →
    maskAt (9 - width) digit = some (UInt32.ofNat (digit * 10 ^ width)) := by
  decide +kernel

theorem maskAt_last : ∀ digit < 10, (maskAt 9 digit).isSome := by
  decide

/-- The row of a number is the one of its first digit. -/
theorem findMask_eq (uvalue : UInt32) (turns width : Nat) (enough : width < turns)
    (inTable : width < 10) (fits : uvalue.toNat < 10 ^ (width + 1)) :
    ∃ first ≤ width, findMask uvalue turns (9 - width) = some (9 - first) ∧
      uvalue.toNat < 10 ^ (first + 1) ∧ (first = 0 ∨ 10 ^ first ≤ uvalue.toNat) := by
  induction width generalizing turns with
  | zero =>
      obtain ⟨turns, rfl⟩ := Nat.exists_eq_add_of_lt enough
      refine ⟨0, Nat.le_refl 0, ?_, fits, Or.inl rfl⟩
      rw [Nat.zero_add, findMask, maskAt_power 0 (by omega), Option.bind_some]
      exact if_neg (by omega)
  | succ width ih =>
      cases turns with
      | zero => omega
      | succ turns =>
          have small : 10 ^ (width + 1) < 2 ^ 32 :=
            lt_of_le_of_lt (Nat.pow_le_pow_right (by omega) (by omega : width + 1 ≤ 9)) (by decide)
          have power : (UInt32.ofNat (10 ^ (width + 1))).toNat = 10 ^ (width + 1) :=
            UInt32.toNat_ofNat_of_lt' small
          rw [findMask, maskAt_power (width + 1) inTable, Option.bind_some]
          by_cases below : uvalue.toNat < 10 ^ (width + 1)
          · have less : uvalue < UInt32.ofNat (10 ^ (width + 1)) := by
              rw [UInt32.lt_iff_toNat_lt, power]
              exact below
            obtain ⟨first, within, found, bounds⟩ := ih turns (by omega) (by omega) below
            refine ⟨first, by omega, ?_, bounds⟩
            rw [if_pos ⟨less, by omega⟩, show 9 - (width + 1) + 1 = 9 - width by omega]
            exact found
          · have notLess : ¬ uvalue < UInt32.ofNat (10 ^ (width + 1)) := by
              rw [UInt32.lt_iff_toNat_lt, power]
              exact below
            refine ⟨width + 1, Nat.le_refl _, ?_, fits, Or.inr (Nat.le_of_not_lt below)⟩
            rw [if_neg (fun both => notLess both.1)]

theorem digitTurn_eq (start : Nat) (text : List UInt8) {width : Nat} (uvalue : UInt32)
    (inTable : width < 10) (fits : uvalue.toNat < 10 ^ (width + 1))
    (room : start + text.length < buffer.length) :
    ∃ rest : UInt32, (0 < width → rest.toNat = uvalue.toNat % 10 ^ width) ∧
      digitTurn start ⟨9 - width, text.length, uvalue, overwrite buffer start text⟩ =
        some ⟨9 - width + 1, text.length + 1, rest,
          overwrite buffer start (text ++ [digitByte (uvalue.toNat / 10 ^ width)])⟩ := by
  have positive : 0 < 10 ^ width := Nat.pow_pos (by omega)
  have small : 10 ^ width < 2 ^ 32 :=
    lt_of_le_of_lt (Nat.pow_le_pow_right (by omega) (by omega : width ≤ 9)) (by decide)
  have power : (UInt32.ofNat (10 ^ width)).toNat = 10 ^ width := UInt32.toNat_ofNat_of_lt' small
  have quotient : (uvalue / UInt32.ofNat (10 ^ width)).toNat = uvalue.toNat / 10 ^ width := by
    rw [UInt32.toNat_div, power]
  have digit : uvalue.toNat / 10 ^ width < 10 := by
    rw [Nat.div_lt_iff_lt_mul positive, Nat.mul_comm, ← pow_succ]
    exact fits
  have char : (48 + uvalue / UInt32.ofNat (10 ^ width)).toUInt8 =
      digitByte (uvalue.toNat / 10 ^ width) := by
    rw [Numerals.digitByte_eq digit, ← UInt8.toNat_inj, UInt32.toNat_toUInt8, UInt32.toNat_add,
      quotient, UInt8.toNat_ofNat']
    change (48 + _) % 2 ^ 32 % 2 ^ 8 = _
    omega
  have inWord := uvalue.toNat_lt
  unfold digitTurn
  dsimp only
  rw [maskAt_power width inTable, Option.bind_some, CharBuffers.storeChar_behind _ room,
    Option.bind_some, quotient, char]
  by_cases last : width = 0
  · subst last
    obtain ⟨multiple, found⟩ := Option.isSome_iff_exists.mp (maskAt_last _ digit)
    refine ⟨uvalue - multiple, fun more => absurd more (Nat.lt_irrefl 0), ?_⟩
    rw [Nat.sub_zero, found]
    rfl
  · have multiple : uvalue.toNat / 10 ^ width * 10 ^ width ≤ uvalue.toNat :=
      Nat.div_mul_le_self _ _
    refine ⟨uvalue - UInt32.ofNat (uvalue.toNat / 10 ^ width * 10 ^ width), fun _ => ?_, ?_⟩
    · have word : (UInt32.ofNat (uvalue.toNat / 10 ^ width * 10 ^ width)).toNat =
          uvalue.toNat / 10 ^ width * 10 ^ width :=
        UInt32.toNat_ofNat_of_lt' (lt_of_le_of_lt multiple inWord)
      rw [UInt32.toNat_sub_of_le, word]
      · have whole := Nat.div_add_mod' uvalue.toNat (10 ^ width)
        omega
      · rw [UInt32.le_iff_toNat_le, word]
        exact multiple
    · rw [maskAt_multiple width inTable (by omega) _ digit (by omega)]
      rfl

/-- The digits from a power of ten on, when the text and its NUL have room. -/
theorem writeDigits_eq (start bufferLength : Nat) (text : List UInt8) (width : Nat)
    (uvalue : UInt32) {turns : Nat} (enough : width < turns) (inTable : width ≤ 10)
    (fits : 0 < width → uvalue.toNat < 10 ^ width) (room : text.length + width ≤ bufferLength)
    (inside : start + bufferLength < buffer.length) :
    ∃ last, faultLoop
        (fun state : ItoaState => decide (state.maskIndex < 10 ∧ state.index < bufferLength))
        (digitTurn start) turns ⟨10 - width, text.length, uvalue, overwrite buffer start text⟩ =
      some ⟨10, text.length + width, last,
        overwrite buffer start (text ++ wideNumeral 10 width uvalue.toNat)⟩ := by
  induction width generalizing text uvalue turns with
  | zero =>
      obtain ⟨turns, rfl⟩ := Nat.exists_eq_add_of_lt enough
      refine ⟨uvalue, ?_⟩
      rw [Nat.zero_add, faultLoop, wideNumeral, List.append_nil]
      rfl
  | succ width ih =>
      cases turns with
      | zero => omega
      | succ turns =>
          have running : decide (10 - (width + 1) < 10 ∧ text.length < bufferLength) = true :=
            decide_eq_true (by omega)
          obtain ⟨rest, taken, turned⟩ :=
            digitTurn_eq start text uvalue (by omega) (fits (Nat.succ_pos width))
              (show start + text.length < buffer.length by omega)
          have longer : (text ++ [digitByte (uvalue.toNat / 10 ^ width)]).length =
              text.length + 1 := by
            rw [List.length_append, List.length_singleton]
          have extended : (text ++ [digitByte (uvalue.toNat / 10 ^ width)]).length + width ≤
              bufferLength := by
            rw [longer]
            omega
          have smaller : 0 < width → rest.toNat < 10 ^ width := by
            intro more
            rw [taken more]
            exact Nat.mod_lt _ (Nat.pow_pos (by omega))
          obtain ⟨last, ran⟩ := ih (text ++ [digitByte (uvalue.toNat / 10 ^ width)]) rest
            (Nat.lt_of_succ_lt_succ enough) (by omega) smaller extended
          have digits : wideNumeral 10 width rest.toNat =
              wideNumeral 10 width (uvalue.toNat % 10 ^ width) := by
            cases width with
            | zero => rfl
            | succ width => rw [taken (Nat.succ_pos width)]
          rw [longer, digits, List.append_assoc] at ran
          refine ⟨last, ?_⟩
          rw [show 10 - (width + 1) = 9 - width by omega] at running ⊢
          rw [faultLoop, running, if_pos rfl, turned, Option.bind_some,
            show 9 - width + 1 = 10 - width by omega, ran, Nat.add_right_comm, Nat.add_assoc]
          rfl

def signText (value : Int32) : List UInt8 := if value < 0 then ['-'.toUInt8] else []

theorem decimalText_sign (value : Int32) :
    decimalText value.toInt = signText value ++ numeral 10 (unsignedValue value).toNat := by
  have sign : value < 0 ↔ value.toInt < 0 := Int32.lt_iff_toInt_lt
  rw [unsignedValue_toNat]
  unfold decimalText signText
  by_cases negative : value < 0
  · rw [if_pos (sign.mp negative), if_pos negative]
    rfl
  · rw [if_neg (fun less => negative (sign.mpr less)), if_neg negative]
    rfl

theorem signText_length (value : Int32) :
    (signText value).length = if value < 0 then 1 else 0 := by
  unfold signText
  by_cases negative : value < 0
  · rw [if_pos negative, if_pos negative]
    rfl
  · rw [if_neg negative, if_neg negative]
    rfl

theorem storeSign_eq (value : Int32) (inside : start < buffer.length) :
    (if (if value < 0 then 1 else 0) = 1 then storeChar buffer start '-'.toUInt8
      else some buffer) = some (overwrite buffer start (signText value)) := by
  unfold signText
  by_cases negative : value < 0
  · rw [if_pos negative, if_pos rfl, if_pos negative, CharBuffers.storeChar_eq inside]
  · rw [if_neg negative, if_neg (by omega), if_neg negative, CharBuffers.overwrite_nil]

/-- The common body writes the whole text and its NUL or nothing. -/
theorem convert_eq (value : Int32) (positive : 1 ≤ size) (inside : start + size ≤ buffer.length) :
    convert buffer start size value =
      some (if (decimalText value.toInt).length + 1 ≤ size then
          (some (decimalText value.toInt).length,
            overwrite buffer start (decimalText value.toInt ++ [0]))
        else (none, buffer)) := by
  have word : (unsignedValue value).toNat < 10 ^ (9 + 1) :=
    lt_trans (unsignedValue value).toNat_lt (by decide)
  obtain ⟨first, within, found, below, least⟩ :=
    findMask_eq (unsignedValue value) 10 9 (by omega) (by omega) word
  have digits : numeral 10 (unsignedValue value).toNat =
      wideNumeral 10 (first + 1) (unsignedValue value).toNat :=
    Numerals.numeral_eq_wide (by omega) below least
  have count : (numeral 10 (unsignedValue value).toNat).length = first + 1 := by
    rw [digits, Numerals.wideNumeral_length]
  have length := congrArg List.length (decimalText_sign value)
  have signLength := signText_length value
  rw [List.length_append, count] at length
  unfold convert
  dsimp only
  rw [show 9 - 9 = 0 from rfl] at found
  rw [found, Option.bind_some]
  by_cases fits : (decimalText value.toInt).length + 1 ≤ size
  · rw [if_pos (by omega), if_pos fits]
    obtain ⟨last, written⟩ := writeDigits_eq start (size - 1) (signText value) (first + 1)
      (unsignedValue value) (show first + 1 < 11 by omega) (by omega) (fun _ => below) (by omega)
      (show start + (size - 1) < buffer.length by omega)
    rw [← digits, ← decimalText_sign, ← count, ← List.length_append, ← decimalText_sign, count,
      signText_length, show 10 - (first + 1) = 9 - first by omega] at written
    rw [storeSign_eq value (by omega), Option.bind_some, writeDigits, written, Option.bind_some]
    dsimp only
    rw [CharBuffers.storeChar_behind _ (by omega)]
    rfl
  · rw [if_neg (by omega), if_neg fits]

theorem itoA_eq (value : Int32) (resultSize : Nat) (positive : 1 ≤ size)
    (inside : size ≤ buffer.length) :
    itoA value (some buffer) size resultSize =
      some (if (decimalText value.toInt).length + 1 ≤ size then
          ⟨.ok, some (overwrite buffer 0 (decimalText value.toInt ++ [0])),
            (decimalText value.toInt).length⟩
        else ⟨.outOfSpace, some buffer, resultSize⟩) := by
  unfold itoA
  dsimp only
  rw [if_pos (by omega), convert_eq value positive (by omega), Option.map_some]
  by_cases fits : (decimalText value.toInt).length + 1 ≤ size
  · rw [if_pos fits, if_pos fits]
  · rw [if_neg fits, if_neg fits]

end DoggOS.Rt

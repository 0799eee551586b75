/-
Texts of numbers.

`numeral` is the canonical text of a natural number and `decimalText` that of an
integer, as bytes.  `wideNumeral` has a given number of digits, the most
significant one first; it is the canonical text when its first digit is not
zero.  `numeralValue` reads a decimal text back.
-/

import Mathlib.Tactic.Ring
import Mathlib.Data.Nat.Log

namespace DoggOS

def digitByte (digit : Nat) : UInt8 := digit.digitChar.toUInt8

def numeral (base number : Nat) : List UInt8 :=
  (Nat.toDigits base number).map Char.toUInt8

def decimalText (number : Int) : List UInt8 :=
  if number < 0 then '-'.toUInt8 :: numeral 10 number.natAbs else numeral 10 number.natAbs

def wideNumeral (base : Nat) : Nat → Nat → List UInt8
  | 0, _ => []
  | width + 1, number =>
      digitByte (number / base ^ width) :: wideNumeral base width (number % base ^ width)

def numeralValue (text : List UInt8) : Nat :=
  text.foldl (fun value char => 10 * value + (char.toNat - 48)) 0

def isDecimal (char : UInt8) : Bool := 48 ≤ char.toNat && char.toNat ≤ 57

namespace Numerals

variable {base number width : Nat}

theorem digitByte_toNat {digit : Nat} (small : digit < 10) :
    (digitByte digit).toNat = 48 + digit := by
  have char : digit.digitChar.toNat = 48 + digit := Nat.toNat_digitChar_of_lt_ten small
  change digit.digitChar.toNat % 256 = 48 + digit
  omega

theorem digitByte_eq {digit : Nat} (small : digit < 10) :
    digitByte digit = UInt8.ofNat (48 + digit) := by
  rw [← digitByte_toNat small, UInt8.ofNat_toNat]

theorem isDecimal_digitByte {digit : Nat} (small : digit < 10) :
    isDecimal (digitByte digit) = true := by
  unfold isDecimal
  rw [digitByte_toNat small, Bool.and_eq_true, decide_eq_true_iff, decide_eq_true_iff]
  omega

theorem numeral_of_lt (small : number < base) : numeral base number = [digitByte number] := by
  unfold numeral
  rw [Nat.toDigits_of_lt_base small]
  rfl

theorem numeral_snoc (large : 1 < base) (more : base ≤ number) :
    numeral base number = numeral base (number / base) ++ [digitByte (number % base)] := by
  unfold numeral
  rw [Nat.toDigits_of_base_le large more, List.map_append]
  rfl

theorem numeral_length_le (large : 1 < base) (positive : 0 < width) :
    (numeral base number).length ≤ width ↔ number < base ^ width := by
  unfold numeral
  rw [List.length_map]
  exact Nat.length_toDigits_le_iff large positive

theorem wideNumeral_length (base width number : Nat) :
    (wideNumeral base width number).length = width := by
  induction width generalizing number with
  | zero => rfl
  | succ width ih => rw [wideNumeral, List.length_cons, ih]

theorem wideNumeral_snoc (large : 1 < base) (width number : Nat)
    (fits : number < base ^ (width + 1)) :
    wideNumeral base (width + 1) number =
      wideNumeral base width (number / base) ++ [digitByte (number % base)] := by
  induction width generalizing number with
  | zero =>
      rw [Nat.zero_add, pow_one] at fits
      rw [wideNumeral, wideNumeral, wideNumeral, pow_zero, Nat.div_one, Nat.mod_eq_of_lt fits]
      rfl
  | succ width ih =>
      have power : base ^ (width + 1) = base * base ^ width := by ring
      have positive : 0 < base ^ (width + 1) := Nat.pow_pos (by omega)
      have front : number / base ^ (width + 1) = number / base / base ^ width := by
        rw [power, Nat.div_div_eq_div_mul]
      have rest : number % base ^ (width + 1) / base = number / base % base ^ width := by
        rw [power, Nat.mod_mul_right_div_self]
      have last : number % base ^ (width + 1) % base = number % base := by
        rw [power, Nat.mod_mul_right_mod]
      rw [wideNumeral, ih (number % base ^ (width + 1)) (Nat.mod_lt _ positive), wideNumeral, front,
        rest, last, List.cons_append]

theorem numeral_eq_wide (large : 1 < base) (fits : number < base ^ (width + 1))
    (least : width = 0 ∨ base ^ width ≤ number) :
    numeral base number = wideNumeral base (width + 1) number := by
  induction width generalizing number with
  | zero =>
      rw [Nat.zero_add, pow_one] at fits
      rw [numeral_of_lt fits, wideNumeral, wideNumeral, pow_zero, Nat.div_one]
  | succ width ih =>
      have power : base ^ (width + 1) = base ^ width * base := pow_succ base width
      have reaches : base ^ (width + 1) ≤ number := least.resolve_left (Nat.succ_ne_zero width)
      have more : base ≤ number :=
        le_trans (by rw [power]; exact Nat.le_mul_of_pos_left _ (Nat.pow_pos (by omega))) reaches
      have shorter : number / base < base ^ (width + 1) := by
        rw [Nat.div_lt_iff_lt_mul (by omega), ← pow_succ]
        exact fits
      have longer : base ^ width ≤ number / base := by
        rw [Nat.le_div_iff_mul_le (by omega), ← power]
        exact reaches
      rw [numeral_snoc large more, wideNumeral_snoc large (width + 1) number fits,
        ih shorter (Or.inr longer)]

theorem numeralValue_snoc (text : List UInt8) (char : UInt8) :
    numeralValue (text ++ [char]) = 10 * numeralValue text + (char.toNat - 48) := by
  unfold numeralValue
  rw [List.foldl_append]
  rfl

theorem numeralValue_numeral (number : Nat) : numeralValue (numeral 10 number) = number := by
  induction number using Nat.strong_induction_on with
  | _ number ih =>
      by_cases small : number < 10
      · rw [numeral_of_lt small]
        change 10 * 0 + ((digitByte number).toNat - 48) = number
        rw [digitByte_toNat small]
        omega
      · rw [numeral_snoc (by omega) (by omega), numeralValue_snoc, ih (number / 10) (by omega),
          digitByte_toNat (Nat.mod_lt _ (by omega))]
        omega

theorem numeral_isDecimal (number : Nat) : ∀ char ∈ numeral 10 number, isDecimal char = true := by
  induction number using Nat.strong_induction_on with
  | _ number ih =>
      intro char member
      by_cases small : number < 10
      · rw [numeral_of_lt small, List.mem_singleton] at member
        rw [member]
        exact isDecimal_digitByte small
      · rw [numeral_snoc (by omega) (by omega), List.mem_append, List.mem_singleton] at member
        cases member with
        | inl front => exact ih (number / 10) (by omega) char front
        | inr last =>
            rw [last]
            exact isDecimal_digitByte (Nat.mod_lt _ (by omega))

theorem numeral_pos (large : 1 < base) (number : Nat) : 0 < (numeral base number).length := by
  by_cases small : number < base
  · rw [numeral_of_lt small]
    exact Nat.one_pos
  · rw [numeral_snoc large (Nat.le_of_not_lt small), List.length_append]
    exact Nat.succ_pos _

theorem decimalText_pos (number : Int) : 0 < (decimalText number).length := by
  unfold decimalText
  split_ifs
  · exact Nat.succ_pos _
  · exact numeral_pos (by omega) _

theorem hexadecimal_noNul (number : Nat) : 0 ∉ numeral 16 number := by
  have digits : ∀ digit < 16, 0 ≠ digitByte digit := by decide
  induction number using Nat.strong_induction_on with
  | _ number ih =>
      intro member
      by_cases small : number < 16
      · rw [numeral_of_lt small, List.mem_singleton] at member
        exact digits number small member
      · rw [numeral_snoc (by omega) (by omega), List.mem_append, List.mem_singleton] at member
        cases member with
        | inl front => exact ih (number / 16) (by omega) front
        | inr last => exact digits _ (Nat.mod_lt _ (by omega)) last

end Numerals

end DoggOS

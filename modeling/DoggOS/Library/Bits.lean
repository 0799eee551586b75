/-
Masks and shifts of machine words as arithmetic.

Words are natural numbers.  The C operators stay in the model's definitions;
these lemmas turn them into divisions and remainders by powers of two, which
linear arithmetic decides.
-/

import Mathlib.Data.Nat.Bitwise
import Mathlib.Tactic.Ring

namespace DoggOS.Bits

theorem shiftRight_eq (a k : Nat) : a >>> k = a / 2 ^ k := Nat.shiftRight_eq_div_pow a k

theorem shiftLeft_eq (a k : Nat) : a <<< k = a * 2 ^ k := Nat.shiftLeft_eq a k

theorem and_low (a k : Nat) : a &&& (2 ^ k - 1) = a % 2 ^ k := Nat.and_two_pow_sub_one_eq_mod a k

/-- Masking off the low `k` bits of a `width`-bit word rounds it down. -/
theorem and_high (a k width : Nat) (fits : a < 2 ^ width) (order : k ≤ width) :
    a &&& (2 ^ width - 2 ^ k) = a - a % 2 ^ k := by
  have rounded : a - a % 2 ^ k = 2 ^ k * (a / 2 ^ k) := by
    have split := Nat.div_add_mod a (2 ^ k)
    omega
  have mask : 2 ^ width - 2 ^ k = 2 ^ k * (2 ^ (width - k) - 1) := by
    rw [Nat.mul_sub, ← pow_add, Nat.add_sub_cancel' order, Nat.mul_one]
  rw [rounded, mask]
  apply Nat.eq_of_testBit_eq
  intro i
  rw [Nat.testBit_and, Nat.testBit_two_pow_mul, Nat.testBit_two_pow_mul,
    Nat.testBit_two_pow_sub_one, Nat.testBit_div_two_pow]
  by_cases low : k ≤ i
  · rw [Nat.sub_add_cancel low]
    by_cases inside : i < width
    · simp [low, show i - k < width - k by omega]
    · have high : a.testBit i = false :=
        Nat.testBit_lt_two_pow (lt_of_lt_of_le fits (Nat.pow_le_pow_right (by omega) (by omega)))
      simp [high]
  · simp [low]

theorem or_mod (a b k : Nat) : (a ||| b) % 2 ^ k = a % 2 ^ k ||| b % 2 ^ k := Nat.or_mod_two_pow

end DoggOS.Bits

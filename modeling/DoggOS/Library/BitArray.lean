/-
Bit arrays in byte memory, the low bit of each byte first.

Setting or clearing one bit of one byte changes that bit of the array and no
other.
-/

import DoggOS.Library.Words
import Mathlib.Logic.Function.Basic

namespace DoggOS

/-- `1 << place` in one byte. -/
def byteBit (place : Nat) : UInt8 := 1 <<< UInt8.ofNat place

def bitAt (bytes : Bytes) (index : Nat) : Bool := (bytes (index / 8)).toBitVec.getLsbD (index % 8)

namespace BitArray

variable {bytes : Bytes} {byte : UInt8} {place index : Nat}

private theorem byteBit_toBitVec : ∀ place < 8, (byteBit place).toBitVec = BitVec.twoPow 8 place := by
  decide

private theorem getLsbD_byteBit (small : place < 8) (other : Nat) :
    (byteBit place).toBitVec.getLsbD other = decide (place = other) := by
  rw [byteBit_toBitVec place small, BitVec.getLsbD_twoPow, decide_eq_true small, Bool.true_and]

theorem and_byteBit (small : place < 8) :
    byte &&& byteBit place = 0 ↔ byte.toBitVec.getLsbD place = false := by
  rw [← UInt8.toBitVec_inj, UInt8.toBitVec_and]
  constructor
  · intro clear
    have bit := congrArg (fun word => BitVec.getLsbD word place) clear
    simp only [BitVec.getLsbD_and, getLsbD_byteBit small, decide_true, Bool.and_true] at bit
    rw [bit]
    exact BitVec.getLsbD_zero
  · intro clear
    apply BitVec.eq_of_getLsbD_eq
    intro other inside
    rw [BitVec.getLsbD_and, getLsbD_byteBit small]
    by_cases same : place = other
    · rw [← same, clear]
      simp
    · simp [same]

theorem or_byteBit (small : place < 8) (other : Nat) :
    (byte ||| byteBit place).toBitVec.getLsbD other =
      (byte.toBitVec.getLsbD other || decide (place = other)) := by
  rw [UInt8.toBitVec_or, BitVec.getLsbD_or, getLsbD_byteBit small]

theorem andNot_byteBit (small : place < 8) {other : Nat} (inside : other < 8) :
    (byte &&& ~~~ byteBit place).toBitVec.getLsbD other =
      (byte.toBitVec.getLsbD other && !decide (place = other)) := by
  rw [UInt8.toBitVec_and, UInt8.toBitVec_not, BitVec.getLsbD_and, BitVec.getLsbD_not,
    getLsbD_byteBit small, decide_eq_true inside, Bool.true_and]

theorem bitAt_update {value : UInt8} (other : Nat) :
    bitAt (Function.update bytes (index / 8) value) other =
      if other / 8 = index / 8 then value.toBitVec.getLsbD (other % 8) else bitAt bytes other := by
  unfold bitAt
  by_cases here : other / 8 = index / 8
  · rw [here, Function.update_self, if_pos rfl]
  · rw [Function.update_of_ne here, if_neg here]

theorem bitAt_set (other : Nat) :
    bitAt (Function.update bytes (index / 8) (bytes (index / 8) ||| byteBit (index % 8))) other =
      (bitAt bytes other || decide (index = other)) := by
  rw [bitAt_update]
  split
  · rename_i here
    rw [or_byteBit (Nat.mod_lt _ (by decide))]
    unfold bitAt
    rw [here]
    congr 1
    have same : index % 8 = other % 8 ↔ index = other := by omega
    simp only [same]
  · rename_i elsewhere
    have different : index ≠ other := fun same => elsewhere (by rw [same])
    rw [decide_eq_false different, Bool.or_false]

theorem bitAt_clear (small : place < 8) (other : Nat) :
    bitAt (Function.update bytes (index / 8) (bytes (index / 8) &&& ~~~ byteBit place)) other =
      (bitAt bytes other && !decide (index / 8 * 8 + place = other)) := by
  rw [bitAt_update]
  split
  · rename_i here
    rw [andNot_byteBit small (Nat.mod_lt _ (by decide))]
    unfold bitAt
    rw [here]
    congr 2
    have same : place = other % 8 ↔ index / 8 * 8 + place = other := by omega
    simp only [same]
  · rename_i elsewhere
    have different : index / 8 * 8 + place ≠ other := fun same => elsewhere (by omega)
    rw [decide_eq_false different, Bool.not_false, Bool.and_true]

end BitArray

end DoggOS

/-
How many threads are at places of one kind.

A counter that each thread raises when it enters a stretch of code and lowers
when it leaves it is this number.
-/

import Mathlib.Algebra.Order.BigOperators.Group.Finset

namespace DoggOS

variable {Thread Place : Type*} [Fintype Thread]

def placeCount (inside : Place → Bool) (place : Thread → Place) : Nat :=
  ∑ thread, (inside (place thread)).toNat

theorem placeCount_eq_zero {inside : Place → Bool} {place : Thread → Place} :
    placeCount inside place = 0 ↔ ∀ thread, inside (place thread) = false := by
  unfold placeCount
  rw [Finset.sum_eq_zero_iff]
  constructor
  · intro none thread
    exact Bool.toNat_eq_zero.mp (none thread (Finset.mem_univ thread))
  · intro none thread _
    exact Bool.toNat_eq_zero.mpr (none thread)

theorem placeCount_le_card (inside : Place → Bool) (place : Thread → Place) :
    placeCount inside place ≤ Fintype.card Thread := by
  unfold placeCount
  calc
    ∑ thread, (inside (place thread)).toNat ≤ ∑ _thread : Thread, 1 :=
      Finset.sum_le_sum fun thread _ => Bool.toNat_le _
    _ = Fintype.card Thread := by rw [Finset.card_univ.symm, Finset.card_eq_sum_ones]

theorem placeCount_update [DecidableEq Thread] (inside : Place → Bool) (place : Thread → Place)
    (thread : Thread) (new : Place) :
    placeCount inside (Function.update place thread new) + (inside (place thread)).toNat =
      placeCount inside place + (inside new).toNat := by
  unfold placeCount
  have others : ∑ other ∈ Finset.univ.erase thread,
      (inside (Function.update place thread new other)).toNat =
      ∑ other ∈ Finset.univ.erase thread, (inside (place other)).toNat := by
    apply Finset.sum_congr rfl
    intro other member
    rw [Function.update_of_ne (Finset.ne_of_mem_erase member)]
  rw [← Finset.add_sum_erase _ _ (Finset.mem_univ thread), others, Function.update_self,
    ← Finset.add_sum_erase Finset.univ (fun other => (inside (place other)).toNat)
      (Finset.mem_univ thread)]
  omega

end DoggOS

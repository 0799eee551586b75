/-
Sizes of extents added up.

The sizes of a list of extents sum to the number of points they cover, counted
with multiplicity.  Extents below a bound that cover no point twice are
therefore not larger together than the bound.
-/

import DoggOS.Library.Extent
import Mathlib.Algebra.BigOperators.Group.Finset.Piecewise
import Mathlib.Algebra.GroupWithZero.Nat
import Mathlib.Algebra.Order.BigOperators.Group.Finset
import Mathlib.Order.Interval.Finset.Nat

namespace DoggOS

namespace Extent

/-- The sizes add up to the number of covered points, with their multiplicity. -/
theorem sum_size_eq {extents : List Extent} {bound : Nat}
    (inside : ∀ extent ∈ extents, extent.stop ≤ bound) :
    (extents.map Extent.size).sum = ∑ point ∈ Finset.range bound, cover extents point := by
  induction extents with
  | nil => simp
  | cons extent extents ih =>
      have first := inside extent List.mem_cons_self
      have points : (Finset.range bound).filter (fun point => extent.Contains point) =
          Finset.Ico extent.start extent.stop := by
        ext point
        rw [Finset.mem_filter, Finset.mem_range, Finset.mem_Ico]
        exact and_iff_right_of_imp fun inExtent => Nat.lt_of_lt_of_le inExtent.2 first
      rw [List.map_cons, List.sum_cons, ih fun other member =>
        inside other (List.mem_cons_of_mem _ member)]
      simp only [cover_cons, Finset.sum_add_distrib]
      rw [← Finset.card_filter, points, Nat.card_Ico]
      unfold stop
      omega

theorem sum_size_le {extents : List Extent} {bound : Nat}
    (inside : ∀ extent ∈ extents, extent.stop ≤ bound)
    (atMostOne : ∀ point, cover extents point ≤ 1) : (extents.map Extent.size).sum ≤ bound := by
  rw [sum_size_eq inside]
  calc ∑ point ∈ Finset.range bound, cover extents point
      ≤ ∑ _point ∈ Finset.range bound, 1 := Finset.sum_le_sum fun point _ => atMostOne point
    _ = bound := by simp

end Extent

end DoggOS

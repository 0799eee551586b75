/-
The size that a format gives to the bitmap.

The number of blocks is multiplied by the size of a block and divided by the
number of bits in a block and one, in 32 bits.  Without the multiplication this
would be the size that is needed.  With it the bitmap has a block for eight
blocks of the volume, as far as the product has no more than 32 bits, and from
there on the size says little about the volume.
-/

import DoggOS.Fs.PupFormat
import Mathlib.Order.Nat

namespace DoggOS.Fs

def allocStartFor (count : Nat) : Nat := (2 + count + 3) / 4 * 4

/-- Behind a bitmap of `count` blocks every block has a bit. -/
def BitmapCovers (blockCount count : Nat) : Prop :=
  blockCount ≤ allocStartFor count + count * 32768

instance (blockCount count : Nat) : Decidable (BitmapCovers blockCount count) :=
  inferInstanceAs (Decidable (_ ≤ _))

structure PupRoot.SizedFor (root : PupRoot) (blockCount : Nat) : Prop where
  blocks : root.blockCount = blockCount
  inside : root.allocStart ≤ blockCount
  aligned : root.allocStart % 4 = 0
  behindBitmap : root.bitmaskStart + root.bitmaskBlockCount ≤ root.allocStart
  everyBlock : blockCount - root.allocStart ≤ root.bitmaskBlockCount * 32768
  tight : ∀ count, BitmapCovers blockCount count → root.bitmaskBlockCount ≤ count + 1

theorem exists_bitmapCovers (blockCount : Nat) : ∃ count, BitmapCovers blockCount count :=
  ⟨blockCount, by unfold BitmapCovers; omega⟩

def leastBitmap (blockCount : Nat) : Nat := Nat.find (exists_bitmapCovers blockCount)

theorem bitmapCovers_iff (blockCount count : Nat) :
    BitmapCovers blockCount count ↔ leastBitmap blockCount ≤ count := by
  constructor
  · intro covers
    exact Nat.find_min' _ covers
  · intro enough
    have least : BitmapCovers blockCount (leastBitmap blockCount) :=
      Nat.find_spec (exists_bitmapCovers blockCount)
    unfold BitmapCovers allocStartFor at least ⊢
    omega

/-- At most 24 blocks; or so many that the product wraps, and its low 32 bits are by chance within
two quotients of what the volume needs. -/
def FormatFits (blockCount : Nat) : Prop :=
  blockCount ≤ 24 ∨
    2 ^ 20 ≤ blockCount ∧ 32769 * leastBitmap blockCount ≤ 4096 * (blockCount % 2 ^ 20) ∧
      4096 * (blockCount % 2 ^ 20) < 32769 * (leastBitmap blockCount + 2)

theorem formatBitmaskBlocks_eq (blockCount : Nat) :
    formatBitmaskBlocks blockCount = max 1 (4096 * (blockCount % 2 ^ 20) / 32769) := by
  have wraps : blockCount * 0x1000 % 2 ^ 32 = 4096 * (blockCount % 2 ^ 20) := by omega
  unfold formatBitmaskBlocks
  dsimp only
  rw [wraps]
  split
  · omega
  · omega

theorem formatRoot_allocStart {blockCount : Nat} (some : 4 ≤ blockCount) :
    (formatRoot blockCount).allocStart ≤ blockCount ∧ (formatRoot blockCount).allocStart % 4 = 0 ∧
      (formatRoot blockCount).bitmaskStart + (formatRoot blockCount).bitmaskBlockCount ≤
        (formatRoot blockCount).allocStart := by
  have size := formatBitmaskBlocks_eq blockCount
  unfold formatRoot
  dsimp only
  omega

/-- The size of the bitmap alone decides. -/
theorem formatRoot_sizedFor_iff_least {blockCount : Nat} (some : 4 ≤ blockCount) :
    (formatRoot blockCount).SizedFor blockCount ↔
      leastBitmap blockCount ≤ formatBitmaskBlocks blockCount ∧
        formatBitmaskBlocks blockCount ≤ leastBitmap blockCount + 1 := by
  obtain ⟨inside, aligned, behind⟩ := formatRoot_allocStart some
  have start : (formatRoot blockCount).allocStart =
      allocStartFor (formatBitmaskBlocks blockCount) := rfl
  have size : (formatRoot blockCount).bitmaskBlockCount = formatBitmaskBlocks blockCount := rfl
  constructor
  · intro sized
    constructor
    · rw [← bitmapCovers_iff]
      have covered := sized.everyBlock
      unfold BitmapCovers
      omega
    · exact sized.tight _ ((bitmapCovers_iff _ _).mpr (Nat.le_refl _))
  · intro near
    have covers := (bitmapCovers_iff _ _).mpr near.1
    unfold BitmapCovers at covers
    refine ⟨rfl, inside, aligned, behind, by omega, ?_⟩
    intro count covers
    have least := (bitmapCovers_iff _ _).mp covers
    omega

/-- Without a wrap the bitmap is far larger than needed. -/
theorem leastBitmap_below {blockCount : Nat} (some : 24 < blockCount)
    (few : blockCount < 2 ^ 20) :
    leastBitmap blockCount + 1 < 4096 * blockCount / 32769 := by
  have enough : BitmapCovers blockCount (4096 * blockCount / 32769 - 2) := by
    unfold BitmapCovers allocStartFor
    omega
  rw [bitmapCovers_iff] at enough
  omega

theorem leastBitmap_above {blockCount : Nat} (many : 2 ^ 20 ≤ blockCount) :
    2 ≤ leastBitmap blockCount := by
  have needed : ¬ BitmapCovers blockCount 1 := by
    unfold BitmapCovers allocStartFor
    omega
  rw [bitmapCovers_iff] at needed
  omega

/-- The root record that a format writes fits the volume just for these sizes. -/
theorem formatRoot_sizedFor_iff (blockCount : Nat) (some : 4 ≤ blockCount) :
    (formatRoot blockCount).SizedFor blockCount ↔ FormatFits blockCount := by
  rw [formatRoot_sizedFor_iff_least some, formatBitmaskBlocks_eq]
  unfold FormatFits
  by_cases many : 2 ^ 20 ≤ blockCount
  · have several := leastBitmap_above many
    generalize leastBitmap blockCount = least at *
    omega
  · have same : blockCount % 2 ^ 20 = blockCount := Nat.mod_eq_of_lt (Nat.lt_of_not_le many)
    rw [same]
    by_cases few : blockCount ≤ 24
    · have none : BitmapCovers blockCount 0 ↔ blockCount ≤ 4 := by
        unfold BitmapCovers allocStartFor
        omega
      rw [bitmapCovers_iff] at none
      have one : BitmapCovers blockCount 1 := by
        unfold BitmapCovers allocStartFor
        omega
      rw [bitmapCovers_iff] at one
      omega
    · have below := leastBitmap_below (Nat.lt_of_not_le few) (Nat.lt_of_not_le many)
      omega

/-- Twenty blocks. -/
theorem formatRoot_sizedFor_twenty : (formatRoot 20).SizedFor 20 :=
  (formatRoot_sizedFor_iff 20 (by decide)).mpr (Or.inl (by decide))

/-- A volume of a thousand blocks gets 124 blocks for its bitmap, and one of 2^20 blocks gets one,
which has bits for 32768 of them. -/
theorem formatRoot_not_sizedFor :
    ¬ (formatRoot 1000).SizedFor 1000 ∧ ¬ (formatRoot (2 ^ 20)).SizedFor (2 ^ 20) := by
  constructor
  · intro sized
    exact absurd (sized.tight 1 (by decide)) (by decide)
  · intro sized
    exact absurd sized.everyBlock (by decide)

end DoggOS.Fs

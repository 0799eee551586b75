/-
The tables that `k_mem_Init` carves out of the available memory.

Three calls of `k_mem_BestFitRange` reserve the virtual range table, the
physical range table and the block of the page headers; the page headers then
describe what the third call leaves.  A cut moves bytes from one range to a
block and nowhere else, so blocks and ranges stay apart and their sizes add up
to the size of the memory that was there before.
-/

import DoggOS.Library.ExtentSums
import DoggOS.Mem.BestFit
import DoggOS.Mem.PhysicalPages

namespace DoggOS.Mem

/-- `sizeof(struct k_mem_vrange_t)` -/
def sizeofVRange : Nat := 8

/-- `sizeof(struct k_mem_prange_t)` -/
def sizeofPRange : Nat := 20

/-- `sizeof(struct k_mem_range_t)` -/
def sizeofMemRange : Nat := 24

/-- `sizeof(uint32_t) + sizeof(struct k_mem_upage_t)` -/
def headerPairSize : Nat := 8

/-- One turn of the loop that aligns the ranges to page boundaries. -/
def MemRange.alignToPage (range : MemRange) : MemRange :=
  let align := range.base % wordLimit % 4096
  let align := if align ≠ 0 then 4096 - align else 0
  { range with
    base := (range.base + align) % 2 ^ 64
    size := (range.size + 2 ^ 64 - align) % 2 ^ 64 }

/-- `k_mem_total`, the low words of the sizes added up in 32 bits. -/
def memTotal (ranges : List MemRange) : Nat :=
  ranges.foldl (fun total range => (total + range.size % wordLimit) % wordLimit) 0

/-- `vrange_bytes` -/
def vrangeBytes : Nat :=
  let virtualRangesPerPage := 4096 / sizeofVRange
  let coveredVirtualBytesBlockSize := 4096 * virtualRangesPerPage + 4096
  let vrangeBlockCount := 0xffffffff / coveredVirtualBytesBlockSize
  let vrangeBlockCount :=
    if 0xffffffff % coveredVirtualBytesBlockSize ≠ 0 then vrangeBlockCount + 1 else vrangeBlockCount
  vrangeBlockCount * 4096

/-- The three tables, with `range_count` as the size of the second one uses it and as
`k_mem_physical_ranges` keeps it, `k_mem_available` as the size of the third one uses it, and the
ranges that are left. -/
structure MemoryTables where
  virtualRanges : Nat
  physicalRanges : Nat
  rangeCount : Nat
  storedCount : Nat
  available : Nat
  headerPairCount : Nat
  pageHeaders : Nat
  ranges : List MemRange
deriving DecidableEq, Repr

/-- `k_mem_Init` up to the page headers. -/
def memoryTables (ranges : List MemRange) : MemoryTables :=
  let ranges := ranges.map MemRange.alignToPage
  let forVirtual := bestFitRange ranges (memTotal ranges) vrangeBytes
  let rangeCount := forVirtual.2.1.length
  let forPhysical :=
    bestFitRange forVirtual.2.1 forVirtual.2.2 (sizeofPRange * rangeCount % wordLimit)
  let available := forPhysical.2.2
  let headerPairCount := available / (headerPairSize + 4096)
  let forHeaders := bestFitRange forPhysical.2.1 available (headerPairCount * headerPairSize)
  { virtualRanges := forVirtual.1
    physicalRanges := forPhysical.1
    rangeCount
    storedCount := forPhysical.2.1.length
    available
    headerPairCount
    pageHeaders := forHeaders.1
    ranges := forHeaders.2.1 }

namespace MemoryTables

/-- `k_mem_physical_ranges`.  The range loop runs only when the third call found a block, over the
ranges that this call leaves; the count was stored before it.  `slots` is what the table holds where
the loop does not fill it. -/
def physicalRangeList (tables : MemoryTables) (mem : Nat → Nat) (slots : Nat → PRange) : PRList :=
  let filled : PRList :=
    if tables.pageHeaders ≠ 0 then
      PRList.init (tables.ranges.map fun range => (range.base % wordLimit, range.size % wordLimit))
        (tables.pageHeaders / 4) mem
    else { mem, ranges := [] }
  let unfilled := List.range' filled.ranges.length (tables.storedCount - filled.ranges.length)
  { filled with ranges := filled.ranges ++ unfilled.map slots }

/-- None of the three calls returned null. -/
def Reserved (tables : MemoryTables) : Prop :=
  tables.virtualRanges ≠ 0 ∧ tables.physicalRanges ≠ 0 ∧ tables.pageHeaders ≠ 0

instance (tables : MemoryTables) : Decidable tables.Reserved :=
  inferInstanceAs (Decidable (_ ∧ _))

def virtualTable (tables : MemoryTables) : Extent := ⟨tables.virtualRanges, vrangeBytes⟩

def physicalTable (tables : MemoryTables) : Extent :=
  ⟨tables.physicalRanges, sizeofPRange * tables.rangeCount⟩

def headerBlock (tables : MemoryTables) : Extent :=
  ⟨tables.pageHeaders, roundedSize (tables.headerPairCount * headerPairSize)⟩

end MemoryTables

/-! ### Cuts -/

/-- The bytes of `block` left the ranges, from the front of one of them. -/
structure Carved (ranges left : List MemRange) (block : Extent) : Prop where
  front : ∃ whole ∈ ranges, block.start = whole.base
  cover : ∀ point, Extent.cover (ranges.map MemRange.extent) point =
    Extent.cover (left.map MemRange.extent) point + if block.Contains point then 1 else 0
  sizes : (ranges.map MemRange.size).sum = (left.map MemRange.size).sum + block.size
  within : ∀ range ∈ left, range ∈ ranges ∨ ∃ whole ∈ ranges, 0 < range.size ∧
    range.base = whole.base + block.size ∧ range.base + range.size = whole.base + whole.size
  length : left.length ≤ ranges.length

structure Carvable (ranges : List MemRange) : Prop where
  word : ∀ range ∈ ranges, range.base < wordLimit ∧ range.base + range.size ≤ wordLimit
  aligned : ∀ range ∈ ranges, range.base % 16 = 0
  apart : ∀ point, Extent.cover (ranges.map MemRange.extent) point ≤ 1

theorem roundedSize_aligned (size : Nat) : roundedSize size % 16 = 0 := by
  unfold roundedSize
  omega

theorem le_roundedSize (size : Nat) : size ≤ roundedSize size := by
  unfold roundedSize
  omega

theorem MemRange.cover_cut (range : MemRange) {size : Nat} (fits : size ≤ range.size)
    (point : Nat) : (if range.extent.Contains point then 1 else 0) =
      Extent.cover ((range.cut size).map MemRange.extent) point +
        if Extent.Contains ⟨range.base, size⟩ point then 1 else 0 := by
  unfold MemRange.cut
  by_cases whole : range.size = size
  · rw [if_pos whole, ← whole]
    exact (Nat.zero_add _).symm
  · have rest : (⟨range.base + size, range.size - size⟩ : Extent).stop = range.extent.stop := by
      unfold Extent.stop MemRange.extent
      simp only
      omega
    rw [if_neg whole, List.map_cons, List.map_nil, Extent.cover_cons, Extent.cover_nil,
      Nat.zero_add, Nat.add_comm]
    exact Extent.cover_merge ⟨range.base, size⟩ ⟨range.base + size, range.size - size⟩
      range.extent rfl rfl rest.symm point

theorem MemRange.sum_cut (range : MemRange) {size : Nat} (fits : size ≤ range.size) :
    range.size = ((range.cut size).map MemRange.size).sum + size := by
  unfold MemRange.cut
  split_ifs with whole
  · rw [List.map_nil, List.sum_nil, Nat.zero_add]
    exact whole
  · rw [List.map_cons, List.map_nil, List.sum_singleton]
    exact (Nat.sub_add_cancel fits).symm

namespace Carvable

variable {ranges left : List MemRange} {block : Extent} {size total : Nat}

theorem sum_le (carvable : Carvable ranges) : (ranges.map MemRange.size).sum ≤ wordLimit := by
  have inside : ∀ extent ∈ ranges.map MemRange.extent, extent.stop ≤ wordLimit := by
    intro extent member
    obtain ⟨range, inRanges, rfl⟩ := List.mem_map.mp member
    exact (carvable.word range inRanges).2
  have bounded := Extent.sum_size_le inside carvable.apart
  rw [List.map_map] at bounded
  exact bounded

theorem front_aligned (carvable : Carvable ranges) (cut : Carved ranges left block) :
    block.start % 16 = 0 := by
  obtain ⟨whole, inRanges, start⟩ := cut.front
  rw [start]
  exact carvable.aligned whole inRanges

theorem carved (carvable : Carvable ranges) (cut : Carved ranges left block)
    (aligned : block.size % 16 = 0) : Carvable left := by
  constructor
  · intro range member
    rcases cut.within range member with kept | ⟨whole, inRanges, positive, -, stop⟩
    · exact carvable.word range kept
    · have word := (carvable.word whole inRanges).2
      omega
  · intro range member
    rcases cut.within range member with kept | ⟨whole, inRanges, -, base, -⟩
    · exact carvable.aligned range kept
    · have wholeAligned := carvable.aligned whole inRanges
      omega
  · intro point
    have once := carvable.apart point
    rw [cut.cover point] at once
    exact Nat.le_trans (Nat.le_add_right _ _) once

/-- A call that returns a block has carved it; the sizes and `k_mem_available` stay in step. -/
theorem bestFitRange (carvable : Carvable ranges) (word : roundedSize size < wordLimit)
    (nonNull : (bestFitRange ranges total size).1 ≠ 0)
    (counted : total = (ranges.map MemRange.size).sum % wordLimit) :
    Carved ranges (bestFitRange ranges total size).2.1
        ⟨(bestFitRange ranges total size).1, roundedSize size⟩ ∧
      (bestFitRange ranges total size).2.2 =
        ((bestFitRange ranges total size).2.1.map MemRange.size).sum % wordLimit := by
  rcases bestFitRange_cases ranges total size with
    ⟨null, -⟩ | ⟨before, range, after, split, fits, -, -, result⟩
  · rw [null] at nonNull
    exact absurd rfl nonNull
  have inRanges : range ∈ ranges := by simp [split]
  rw [alignSize_eq word] at fits result
  rw [Nat.mod_eq_of_lt (carvable.word range inRanges).1] at result
  rw [result]
  have sizes : (ranges.map MemRange.size).sum =
      ((before ++ range.cut (roundedSize size) ++ after).map MemRange.size).sum +
        roundedSize size := by
    have parts := range.sum_cut fits
    rw [split]
    simp only [List.map_append, List.map_cons, List.sum_append, List.sum_cons]
    omega
  refine ⟨⟨⟨range, inRanges, rfl⟩, fun point => ?_, sizes, fun other member => ?_, ?_⟩, ?_⟩
  · rw [split]
    simp only [List.map_append, List.map_cons, Extent.cover_append, Extent.cover_cons,
      range.cover_cut fits point]
    omega
  · simp only [List.append_assoc, List.mem_append] at member
    rcases member with front | cut | back
    · exact .inl (by simp [split, front])
    · unfold MemRange.cut at cut
      split_ifs at cut with whole
      · cases cut
      · rw [List.mem_singleton] at cut
        subst cut
        refine .inr ⟨range, inRanges, ?_, rfl, ?_⟩
        · simp only
          omega
        · simp only
          omega
    · exact .inl (by simp [split, back])
  · unfold MemRange.cut
    rw [split]
    split_ifs <;> simp
  · simp only
    rw [counted, sizes]
    unfold wordLimit at *
    omega

end Carvable

theorem memTotal_eq (ranges : List MemRange) :
    memTotal ranges = (ranges.map MemRange.size).sum % wordLimit := by
  have added : ∀ total, ranges.foldl
      (fun total range => (total + range.size % wordLimit) % wordLimit) (total % wordLimit) =
        (total + (ranges.map MemRange.size).sum) % wordLimit := by
    induction ranges with
    | nil =>
        intro total
        rfl
    | cons range rest ih =>
        intro total
        have step : (total % wordLimit + range.size % wordLimit) % wordLimit =
            (total + range.size) % wordLimit := (Nat.add_mod total range.size wordLimit).symm
        rw [List.foldl_cons, step, ih, List.map_cons, List.sum_cons, Nat.add_assoc]
  have fromZero := added 0
  rw [Nat.zero_add] at fromZero
  exact fromZero

/-- The loop leaves aligned ranges as they are. -/
theorem MemRange.alignToPage_eq {range : MemRange} (aligned : range.base % 4096 = 0)
    (word : range.base < wordLimit ∧ range.base + range.size ≤ wordLimit) :
    range.alignToPage = range := by
  obtain ⟨base, size, type⟩ := range
  simp only [wordLimit] at aligned word
  unfold MemRange.alignToPage wordLimit
  simp only [Nat.mod_eq_of_lt word.1, aligned, ne_eq, not_true_eq_false, if_false]
  rw [Nat.add_zero, Nat.sub_zero, Nat.add_mod_right, Nat.mod_eq_of_lt (by omega),
    Nat.mod_eq_of_lt (by omega)]

/-! ### The three calls -/

/-- Disjoint page-aligned ranges below 4 GiB, in an array that fits the address space. -/
structure PageRanges (ranges : List MemRange) : Prop where
  aligned : ∀ range ∈ ranges, range.base % 4096 = 0
  word : ∀ range ∈ ranges, range.base < wordLimit ∧ range.base + range.size ≤ wordLimit
  disjoint : ranges.Pairwise (fun one two => one.extent.Disjoint two.extent)
  array : sizeofMemRange * ranges.length ≤ wordLimit

structure MemoryTables.Layout (tables : MemoryTables) (ranges : List MemRange) : Prop where
  left : Carvable tables.ranges
  within : ∀ range ∈ tables.ranges, ∃ whole ∈ ranges,
    whole.base ≤ range.base ∧ range.base + range.size ≤ whole.base + whole.size
  apart : ∀ point, Extent.cover (tables.ranges.map MemRange.extent) point +
    Extent.cover [tables.headerBlock, tables.physicalTable, tables.virtualTable] point ≤ 1
  headersAligned : tables.pageHeaders % 16 = 0
  counted : tables.headerPairCount = tables.available / (headerPairSize + 4096)
  total : tables.available =
    (tables.ranges.map MemRange.size).sum + tables.headerBlock.size
  availableWord : tables.available < wordLimit

namespace PageRanges

variable {ranges : List MemRange}

theorem carvable (pages : PageRanges ranges) : Carvable ranges := by
  constructor
  · exact pages.word
  · intro range member
    have aligned := pages.aligned range member
    omega
  · exact Extent.cover_le_one (List.pairwise_map.mpr pages.disjoint)

theorem map_alignToPage (pages : PageRanges ranges) :
    ranges.map MemRange.alignToPage = ranges := by
  have unchanged : ∀ range ∈ ranges, range.alignToPage = id range := fun range member =>
    MemRange.alignToPage_eq (pages.aligned range member) (pages.word range member)
  rw [List.map_congr_left unchanged, List.map_id]

end PageRanges

theorem Carved.whole {ranges left : List MemRange} {block : Extent}
    (cut : Carved ranges left block) : ∀ range ∈ left, ∃ whole ∈ ranges,
      whole.base ≤ range.base ∧ range.base + range.size ≤ whole.base + whole.size := by
  intro range member
  rcases cut.within range member with kept | ⟨whole, inRanges, -, base, stop⟩
  · exact ⟨range, kept, Nat.le_refl _, Nat.le_refl _⟩
  · exact ⟨whole, inRanges, by omega, by omega⟩

theorem Carvable.apart_three {ranges first second third : List MemRange} {one two three : Extent}
    {used : Nat} (carvable : Carvable ranges) (firstCut : Carved ranges first one)
    (secondCut : Carved first second two) (thirdCut : Carved second third three)
    (inside : used ≤ two.size) (point : Nat) :
    Extent.cover (third.map MemRange.extent) point +
      Extent.cover [three, ⟨two.start, used⟩, one] point ≤ 1 := by
  have once := carvable.apart point
  have inTwo : Extent.Contains ⟨two.start, used⟩ point → two.Contains point := by
    unfold Extent.Contains Extent.stop
    simp only
    omega
  rw [firstCut.cover point, secondCut.cover point, thirdCut.cover point] at once
  simp only [Extent.cover_cons, Extent.cover_nil]
  by_cases contained : Extent.Contains ⟨two.start, used⟩ point
  · rw [if_pos (inTwo contained)] at once
    rw [if_pos contained]
    omega
  · rw [if_neg contained]
    omega

structure Cuts (ranges : List MemRange) (first second third : Nat × List MemRange × Nat) :
    Prop where
  tables : memoryTables ranges =
    { virtualRanges := first.1, physicalRanges := second.1, rangeCount := first.2.1.length
      storedCount := second.2.1.length, available := second.2.2
      headerPairCount := second.2.2 / (headerPairSize + 4096)
      pageHeaders := third.1, ranges := third.2.1 }
  firstEq : first = bestFitRange ranges (memTotal ranges) vrangeBytes
  secondEq : second = bestFitRange first.2.1 first.2.2 (sizeofPRange * first.2.1.length)
  thirdEq : third = bestFitRange second.2.1 second.2.2
    (second.2.2 / (headerPairSize + 4096) * headerPairSize)
  virtual : Carved ranges first.2.1 ⟨first.1, vrangeBytes⟩
  physical : Carved first.2.1 second.2.1
    ⟨second.1, roundedSize (sizeofPRange * first.2.1.length)⟩
  headers : Carved second.2.1 third.2.1
    ⟨third.1, roundedSize (second.2.2 / (headerPairSize + 4096) * headerPairSize)⟩
  physicalWord : roundedSize (sizeofPRange * first.2.1.length) < wordLimit
  headersWord : roundedSize (second.2.2 / (headerPairSize + 4096) * headerPairSize) < wordLimit
  available : second.2.2 = (second.2.1.map MemRange.size).sum
  availableWord : second.2.2 < wordLimit

theorem memoryTables_cuts {ranges : List MemRange} (pages : PageRanges ranges)
    (reserved : (memoryTables ranges).Reserved) :
    ∃ first second third, Cuts ranges first second third := by
  obtain ⟨first, firstEq⟩ : ∃ first, first = bestFitRange ranges (memTotal ranges) vrangeBytes :=
    ⟨_, rfl⟩
  obtain ⟨second, secondEq⟩ : ∃ second, second =
      bestFitRange first.2.1 first.2.2 (sizeofPRange * first.2.1.length % wordLimit) := ⟨_, rfl⟩
  obtain ⟨third, thirdEq⟩ : ∃ third, third = bestFitRange second.2.1 second.2.2
      (second.2.2 / (headerPairSize + 4096) * headerPairSize) := ⟨_, rfl⟩
  have unfolded : memoryTables ranges =
      { virtualRanges := first.1, physicalRanges := second.1, rangeCount := first.2.1.length
        storedCount := second.2.1.length, available := second.2.2
        headerPairCount := second.2.2 / (headerPairSize + 4096)
        pageHeaders := third.1, ranges := third.2.1 } := by
    rw [thirdEq, secondEq, firstEq]
    unfold memoryTables
    rw [pages.map_alignToPage]
  rw [unfolded] at reserved
  obtain ⟨virtualNonNull, physicalNonNull, headersNonNull⟩ := reserved
  have array := pages.array
  have virtualSize : roundedSize vrangeBytes = vrangeBytes := by decide
  have carvable := pages.carvable
  obtain ⟨firstCut, firstCount⟩ := carvable.bestFitRange (by rw [virtualSize]; decide)
    (firstEq ▸ virtualNonNull) (memTotal_eq ranges)
  rw [← firstEq, virtualSize] at firstCut
  rw [← firstEq] at firstCount
  have firstLeft := carvable.carved firstCut (show vrangeBytes % 16 = 0 by decide)
  have firstLength := firstCut.length
  have physicalSize : sizeofPRange * first.2.1.length % wordLimit =
      sizeofPRange * first.2.1.length := by
    unfold sizeofMemRange sizeofPRange wordLimit at *
    omega
  rw [physicalSize] at secondEq
  have physicalWord : roundedSize (sizeofPRange * first.2.1.length) < wordLimit := by
    unfold roundedSize sizeofMemRange sizeofPRange wordLimit at *
    omega
  obtain ⟨secondCut, secondCount⟩ :=
    firstLeft.bestFitRange physicalWord (secondEq ▸ physicalNonNull) firstCount
  rw [← secondEq] at secondCut secondCount
  have secondLeft := firstLeft.carved secondCut (roundedSize_aligned _)
  have availableWord : second.2.2 < wordLimit := by
    rw [secondCount]
    exact Nat.mod_lt _ (by decide)
  have headersWord : roundedSize (second.2.2 / (headerPairSize + 4096) * headerPairSize) <
      wordLimit := by
    unfold roundedSize headerPairSize wordLimit at *
    omega
  obtain ⟨thirdCut, -⟩ :=
    secondLeft.bestFitRange headersWord (thirdEq ▸ headersNonNull) secondCount
  rw [← thirdEq] at thirdCut
  have available : second.2.2 = (second.2.1.map MemRange.size).sum := by
    have virtualValue : vrangeBytes = 8376320 := by decide
    have sizes := carvable.sum_le
    have firstSizes := firstCut.sizes
    have secondSizes := secondCut.sizes
    rw [secondCount]
    apply Nat.mod_eq_of_lt
    simp only at firstSizes
    omega
  exact ⟨first, second, third, unfolded, firstEq, secondEq, thirdEq, firstCut, secondCut, thirdCut,
    physicalWord, headersWord, available, availableWord⟩

theorem Cuts.layout {ranges : List MemRange} {first second third : Nat × List MemRange × Nat}
    (cuts : Cuts ranges first second third) (pages : PageRanges ranges) :
    (memoryTables ranges).Layout ranges := by
  have firstLeft := pages.carvable.carved cuts.virtual (show vrangeBytes % 16 = 0 by decide)
  have secondLeft := firstLeft.carved cuts.physical (roundedSize_aligned _)
  rw [cuts.tables]
  constructor
  · exact secondLeft.carved cuts.headers (roundedSize_aligned _)
  · intro range member
    obtain ⟨two, inSecond, twoBase, twoStop⟩ := cuts.headers.whole range member
    obtain ⟨one, inFirst, oneBase, oneStop⟩ := cuts.physical.whole two inSecond
    obtain ⟨whole, inRanges, base, stop⟩ := cuts.virtual.whole one inFirst
    exact ⟨whole, inRanges, by omega, by omega⟩
  · exact pages.carvable.apart_three cuts.virtual cuts.physical cuts.headers (le_roundedSize _)
  · exact secondLeft.front_aligned cuts.headers
  · rfl
  · exact cuts.available.trans cuts.headers.sizes
  · exact cuts.availableWord

end DoggOS.Mem

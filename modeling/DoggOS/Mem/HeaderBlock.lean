/-
Whether the page headers fit the block that `k_mem_Init` reserves for them.

The block is sized as if every 4104 available bytes were one page and its two
headers; the pages are counted afterwards, in what the three tables have left
of each range.  The headers go past the block exactly when the division leaves
a whole page over that no partial page of a range makes up for, or when a range
is too short to reach the next page boundary and its page count wraps.  The
list may count one more range, the last one before the third table used a range
up; the loop does not come to it.
-/

import DoggOS.Mem.MemoryTables
import DoggOS.Mem.PhysicalPageSets

namespace DoggOS.Mem

namespace MemRange

/-- Bytes of the range below its first page boundary, when it reaches that far. -/
def padding (range : MemRange) : Nat := (4096 - range.base % 4096) % 4096

def waste (range : MemRange) : Nat := range.padding + (range.size - range.padding) % 4096

/-- `page_count` of the range. -/
def pageCount (range : MemRange) : Nat := (alignRange range.base range.size).2

/-- `range_start` and `range_size` before the alignment. -/
def bounds (range : MemRange) : Nat × Nat := (range.base, range.size)

def wholePages (range : MemRange) : Extent :=
  ⟨(alignRange range.base range.size).1, range.pageCount * 4096⟩

variable {range : MemRange}

theorem alignRange_eq (word : range.base < wordLimit) (sizeWord : range.size < wordLimit)
    (room : range.padding ≤ range.size) :
    alignRange range.base range.size =
      ((range.base + range.padding) % wordLimit, (range.size - range.padding) / 4096) := by
  unfold alignRange
  unfold padding at *
  unfold wordLimit at *
  by_cases aligned : range.base % 4096 = 0
  · simp only [aligned, ne_eq, not_true_eq_false, if_false, Nat.sub_zero, Nat.mod_self,
      Nat.add_zero, Nat.mod_eq_of_lt word]
  · have short : (4096 - range.base % 4096) % 4096 = 4096 - range.base % 4096 := by omega
    rw [short] at room ⊢
    simp only [aligned, ne_eq, not_false_eq_true, if_true, Prod.mk.injEq, true_and]
    omega

/-- The size minus the padding wraps around. -/
theorem pageCount_short (short : range.size < range.padding) : range.pageCount = 2 ^ 20 - 1 := by
  unfold pageCount alignRange
  unfold padding at short
  have unaligned : range.base % 4096 ≠ 0 := by omega
  simp only [unaligned, ne_eq, not_false_eq_true, if_true, wordLimit]
  omega

theorem size_eq (word : range.base < wordLimit) (sizeWord : range.size < wordLimit)
    (room : range.padding ≤ range.size) : range.size = range.waste + range.pageCount * 4096 := by
  unfold waste pageCount
  rw [alignRange_eq word sizeWord room]
  simp only
  omega

theorem wholePages_within (word : range.base < wordLimit ∧ range.base + range.size ≤ wordLimit)
    (sizeWord : range.size < wordLimit) (room : range.padding ≤ range.size) {point : Nat}
    (inside : range.wholePages.Contains point) : range.extent.Contains point := by
  unfold wholePages pageCount at inside
  rw [alignRange_eq word.1 sizeWord room] at inside
  unfold Extent.Contains at *
  simp only [Extent.stop_mk, extent, wordLimit] at *
  omega

theorem wholePages_stop (word : range.base < wordLimit ∧ range.base + range.size ≤ wordLimit)
    (sizeWord : range.size < wordLimit) (room : range.padding ≤ range.size) :
    range.wholePages.stop ≤ 2 ^ 32 := by
  unfold wholePages pageCount
  rw [alignRange_eq word.1 sizeWord room]
  simp only [Extent.stop_mk, wordLimit] at *
  omega

theorem sum_size_eq {ranges : List MemRange}
    (words : ∀ range ∈ ranges, range.base < wordLimit ∧ range.size < wordLimit)
    (padded : ∀ range ∈ ranges, range.padding ≤ range.size) :
    (ranges.map size).sum = (ranges.map waste).sum + (ranges.map pageCount).sum * 4096 := by
  induction ranges with
  | nil => rfl
  | cons range rest ih =>
      have here := words range List.mem_cons_self
      have first := size_eq here.1 here.2 (padded range List.mem_cons_self)
      have others := ih (fun other member => words other (List.mem_cons_of_mem _ member))
        (fun other member => padded other (List.mem_cons_of_mem _ member))
      simp only [List.map_cons, List.sum_cons]
      omega

end MemRange

/-! ### The words of the headers -/

/-- A word that the page loop of `k_mem_Init` writes through `free_pages` or `used_pages`. -/
def PRList.WritesHeader (list : PRList) (word : Nat) : Prop :=
  ∃ range ∈ list.ranges, ∃ index, index < range.pageCount ∧
    (word = range.freePages + index ∨ word = range.usedPages + index)

section Headers

variable (ranges : List (Nat × Nat)) (pageHeaders : Nat) (mem : Nat → Nat)

theorem initRanges_pages : (initRanges ranges pageHeaders mem).2.map PRange.pages =
    ranges.map fun range => ⟨(alignRange range.1 range.2).1, (alignRange range.1 range.2).2 * 4096⟩ := by
  induction ranges generalizing pageHeaders mem with
  | nil => rfl
  | cons range rest ih =>
      rw [initRanges, List.map_cons, List.map_cons, ih]
      rfl

/-- The arrays lie one behind another from the start of the block. -/
theorem initRanges_writes (word : Nat) :
    (∃ range ∈ (initRanges ranges pageHeaders mem).2, ∃ index, index < range.pageCount ∧
      (word = range.freePages + index ∨ word = range.usedPages + index)) ↔
      pageHeaders ≤ word ∧
        word < pageHeaders + 2 * (ranges.map fun range => (alignRange range.1 range.2).2).sum := by
  induction ranges generalizing pageHeaders mem with
  | nil =>
      simp only [initRanges, List.not_mem_nil, false_and, exists_false, List.map_nil,
        List.sum_nil, false_iff]
      omega
  | cons range rest ih =>
      obtain ⟨start, size⟩ := range
      rw [initRanges, List.map_cons, List.sum_cons]
      simp only [List.exists_mem_cons_iff]
      rw [ih]
      generalize (alignRange start size).2 = count
      generalize (rest.map fun range => (alignRange range.1 range.2).2).sum = others
      constructor
      · rintro (⟨index, inRange, free | used⟩ | later) <;> omega
      · intro inside
        by_cases free : word < pageHeaders + count
        · exact .inl ⟨word - pageHeaders, by omega, .inl (by omega)⟩
        · by_cases used : word < pageHeaders + count + count
          · exact .inl ⟨word - pageHeaders - count, by omega, .inr (by omega)⟩
          · exact .inr (by omega)

theorem initPages_frame {freePages usedPages address : Nat} (count pageIndex baseAddress : Nat)
    (mem : Nat → Nat) (away : ∀ index, index < count →
      address ≠ freePages + (pageIndex + index) ∧ address ≠ usedPages + (pageIndex + index)) :
    initPages freePages usedPages count pageIndex baseAddress mem address = mem address := by
  induction count generalizing pageIndex baseAddress mem with
  | zero => rfl
  | succ count ih =>
      have here : address ≠ freePages + pageIndex ∧ address ≠ usedPages + pageIndex :=
        away 0 (Nat.succ_pos count)
      have later : ∀ index, index < count → address ≠ freePages + (pageIndex + 1 + index) ∧
          address ≠ usedPages + (pageIndex + 1 + index) := by
        intro index below
        have next := away (index + 1) (Nat.succ_lt_succ below)
        omega
      rw [initPages, ih _ _ _ later, Function.update_of_ne here.2, Function.update_of_ne here.1]

/-- The range loop of `k_mem_Init` writes header words only. -/
theorem PRList.init_frame {word : Nat} (unwritten : ¬ (init ranges pageHeaders mem).WritesHeader word) :
    (init ranges pageHeaders mem).mem word = mem word := by
  unfold init WritesHeader at *
  simp only at *
  induction ranges generalizing pageHeaders mem with
  | nil => rfl
  | cons range rest ih =>
      rw [initRanges] at unwritten ⊢
      simp only [List.exists_mem_cons_iff, not_or] at unwritten
      rw [ih _ _ unwritten.2]
      refine initPages_frame _ _ _ _ fun index inRange => ?_
      rw [Nat.zero_add]
      exact ⟨fun same => unwritten.1 ⟨index, inRange, .inl same⟩,
        fun same => unwritten.1 ⟨index, inRange, .inr same⟩⟩

end Headers

/-! ### Tables, headers and pages together -/

/-- What the page tables are for: headers in their block, and free pages that are whole, distinct
and available pages outside every table. -/
structure MemoryTables.HoldPages (tables : MemoryTables) (ranges : List MemRange)
    (list : PRList) : Prop where
  headers : ∀ byte, list.WritesHeader (byte / 4) → tables.headerBlock.Contains byte
  aligned : ∀ page, list.Free page → page % 4096 = 0
  available : ∀ page, list.Free page → ∃ range ∈ ranges,
    range.base ≤ page ∧ page + 4096 ≤ range.base + range.size
  distinct : (list.ranges.flatMap fun range => range.freeList list.mem).Nodup
  apart : ∀ page, list.Free page → ∀ byte, Extent.Contains ⟨page, 4096⟩ byte →
    ¬ tables.virtualTable.Contains byte ∧ ¬ tables.physicalTable.Contains byte ∧
      ¬ list.WritesHeader (byte / 4)

def MemoryTables.filled (tables : MemoryTables) (list : PRList) : PRList :=
  { list with ranges := list.ranges.take tables.ranges.length }

def MemoryTables.HasSlack (tables : MemoryTables) : Prop :=
  (∀ range ∈ tables.ranges, range.padding ≤ range.size) ∧
    (tables.available / (headerPairSize + 4096) % 2 = 1 ∨
      tables.available % (headerPairSize + 4096) <
        4096 + (tables.ranges.map MemRange.waste).sum)

/-- The block has 16 bytes for every two pairs; an odd pair has a pair to spare. -/
theorem headers_le_iff {available wasted pages : Nat}
    (total : available = wasted + pages * 4096 + roundedSize (available / 4104 * 8)) :
    8 * pages ≤ roundedSize (available / 4104 * 8) ↔
      available / 4104 % 2 = 1 ∨ available % 4104 < 4096 + wasted := by
  have split := Nat.div_add_mod available 4104
  have below := Nat.mod_lt available (show 4104 > 0 by decide)
  generalize available / 4104 = pairs at *
  generalize available % 4104 = rest at *
  rcases Nat.mod_two_eq_zero_or_one pairs with even | odd
  · have exact : roundedSize (pairs * 8) = pairs * 8 := by
      unfold roundedSize
      omega
    rw [exact] at total ⊢
    omega
  · have spare : roundedSize (pairs * 8) = pairs * 8 + 8 := by
      unfold roundedSize
      omega
    rw [spare] at total ⊢
    omega

namespace MemoryTables.Layout

variable {tables : MemoryTables} {ranges : List MemRange}

theorem words (layout : tables.Layout ranges) : ∀ range ∈ tables.ranges,
    range.base < wordLimit ∧ range.size < wordLimit := by
  intro range member
  refine ⟨(layout.left.word range member).1, ?_⟩
  have single := List.le_sum_of_mem (List.mem_map_of_mem (f := MemRange.size) member)
  have total := layout.total
  have word := layout.availableWord
  omega

/-- The headers of all the pages fit the block exactly when there is room. -/
theorem headers_fit_iff (layout : tables.Layout ranges) :
    8 * (tables.ranges.map MemRange.pageCount).sum ≤ tables.headerBlock.size ↔
      tables.HasSlack := by
  have total := layout.total
  have word := layout.availableWord
  have block : tables.headerBlock.size = roundedSize (tables.available / 4104 * 8) := by
    unfold headerBlock
    rw [layout.counted]
    rfl
  rw [block] at total ⊢
  by_cases padded : ∀ range ∈ tables.ranges, range.padding ≤ range.size
  · rw [MemRange.sum_size_eq layout.words padded] at total
    rw [headers_le_iff total]
    exact (and_iff_right padded).symm
  · refine iff_of_false ?_ fun room => padded room.1
    push Not at padded
    obtain ⟨range, member, short⟩ := padded
    have single := List.le_sum_of_mem (List.mem_map_of_mem (f := MemRange.pageCount) member)
    rw [MemRange.pageCount_short short] at single
    unfold roundedSize wordLimit at *
    omega

variable {pageHeaders : Nat} {mem : Nat → Nat}

theorem map_pages (tables : MemoryTables) (pageHeaders : Nat) (mem : Nat → Nat) :
    (PRList.init (tables.ranges.map MemRange.bounds) pageHeaders mem).ranges.map PRange.pages =
      tables.ranges.map MemRange.wholePages := by
  unfold PRList.init
  rw [initRanges_pages, List.map_map]
  rfl

theorem filled_eq (layout : tables.Layout ranges) (nonNull : tables.pageHeaders ≠ 0)
    (mem : Nat → Nat) (slots : Nat → PRange) :
    tables.filled (tables.physicalRangeList mem slots) =
      PRList.init (tables.ranges.map MemRange.bounds) (tables.pageHeaders / 4) mem := by
  have narrow : ∀ range ∈ tables.ranges,
      (range.base % wordLimit, range.size % wordLimit) = range.bounds := by
    intro range member
    have word := layout.words range member
    rw [Nat.mod_eq_of_lt word.1, Nat.mod_eq_of_lt word.2]
    rfl
  have length := congrArg List.length (map_pages tables (tables.pageHeaders / 4) mem)
  rw [List.length_map, List.length_map] at length
  unfold filled physicalRangeList
  rw [if_pos nonNull, List.map_congr_left narrow]
  simp only [List.take_left' length]

theorem writesHeader_iff (tables : MemoryTables) (pageHeaders : Nat) (mem : Nat → Nat) (word : Nat) :
    (PRList.init (tables.ranges.map MemRange.bounds) pageHeaders mem).WritesHeader word ↔
      pageHeaders ≤ word ∧ word < pageHeaders + 2 * (tables.ranges.map MemRange.pageCount).sum := by
  have written := initRanges_writes (tables.ranges.map MemRange.bounds) pageHeaders mem word
  rw [List.map_map] at written
  exact written

/-- The bytes of the headers are the first of the block, eight for a page. -/
theorem headers_inside_iff (layout : tables.Layout ranges) (mem : Nat → Nat) :
    (∀ byte, (PRList.init (tables.ranges.map MemRange.bounds) (tables.pageHeaders / 4)
        mem).WritesHeader (byte / 4) → tables.headerBlock.Contains byte) ↔
      8 * (tables.ranges.map MemRange.pageCount).sum ≤ tables.headerBlock.size := by
  have aligned := layout.headersAligned
  have start : tables.headerBlock.start = tables.pageHeaders := rfl
  unfold Extent.Contains Extent.stop
  rw [start]
  generalize tables.headerBlock.size = size
  constructor
  · intro inside
    by_cases none : (tables.ranges.map MemRange.pageCount).sum = 0
    · omega
    · have last := inside
        (tables.pageHeaders + 8 * (tables.ranges.map MemRange.pageCount).sum - 1)
        ((writesHeader_iff tables _ mem _).mpr (by omega))
      omega
  · intro fits byte written
    have bounds := (writesHeader_iff tables _ mem _).mp written
    omega

theorem stacked (layout : tables.Layout ranges) (room : tables.HasSlack) :
    (PRList.init (tables.ranges.map MemRange.bounds) pageHeaders mem).Stacked := by
  have member_pages : ∀ range ∈ (PRList.init (tables.ranges.map MemRange.bounds) pageHeaders
      mem).ranges, ∃ left ∈ tables.ranges, left.wholePages = range.pages := by
    intro range member
    have inPages := List.mem_map_of_mem (f := PRange.pages) member
    rw [map_pages] at inPages
    exact List.mem_map.mp inPages
  have wholeApart : tables.ranges.Pairwise
      (fun one two => one.wholePages.Disjoint two.wholePages) := by
    have apart : (tables.ranges.map MemRange.extent).Pairwise Extent.Disjoint :=
      Extent.pairwise_of_cover layout.left.apart
    refine (List.pairwise_map.mp apart).imp_of_mem fun {one two} oneIn twoIn disjoint => ?_
    rintro point ⟨inOne, inTwo⟩
    exact disjoint point
      ⟨MemRange.wholePages_within (layout.left.word one oneIn) (layout.words one oneIn).2
          (room.1 one oneIn) inOne,
        MemRange.wholePages_within (layout.left.word two twoIn) (layout.words two twoIn).2
          (room.1 two twoIn) inTwo⟩
  apply PRList.init_stacked
  · intro range member
    obtain ⟨left, inLeft, same⟩ := member_pages range member
    rw [← same]
    exact MemRange.wholePages_stop (layout.left.word left inLeft) (layout.words left inLeft).2
      (room.1 left inLeft)
  · have mapped := List.pairwise_map.mpr wholeApart
    rw [← map_pages] at mapped
    exact List.pairwise_map.mp mapped

theorem free_within (layout : tables.Layout ranges) (room : tables.HasSlack) {page : Nat}
    (free : (PRList.init (tables.ranges.map MemRange.bounds) pageHeaders mem).Free page) :
    ∃ left ∈ tables.ranges, ∀ byte, Extent.Contains ⟨page, 4096⟩ byte →
      left.extent.Contains byte := by
  obtain ⟨range, member, index, inRange, rfl⟩ := (layout.stacked room).free_managed free
  have inPages := List.mem_map_of_mem (f := PRange.pages) member
  rw [map_pages] at inPages
  obtain ⟨left, inLeft, same⟩ := List.mem_map.mp inPages
  refine ⟨left, inLeft, fun byte inPage => ?_⟩
  apply MemRange.wholePages_within (layout.left.word left inLeft) (layout.words left inLeft).2
    (room.1 left inLeft)
  rw [same]
  unfold Extent.Contains PRange.pages PRange.pageAt at *
  simp only [Extent.stop_mk] at *
  omega

/-- With room for the headers, headers, tables and pages are all where they should be. -/
theorem holdPages (layout : tables.Layout ranges) (room : tables.HasSlack) (mem : Nat → Nat) :
    tables.HoldPages ranges
      (PRList.init (tables.ranges.map MemRange.bounds) (tables.pageHeaders / 4) mem) := by
  have stacked : (PRList.init (tables.ranges.map MemRange.bounds) (tables.pageHeaders / 4)
      mem).Stacked := layout.stacked room
  have headers := (layout.headers_inside_iff mem).mpr (layout.headers_fit_iff.mpr room)
  refine ⟨headers, ?_, ?_, stacked.freeLists_nodup, ?_⟩
  · intro page free
    exact (stacked.managed_page (stacked.free_managed free)).1
  · intro page free
    obtain ⟨left, inLeft, within⟩ := layout.free_within room free
    obtain ⟨whole, inRanges, base, stop⟩ := layout.within left inLeft
    have first := within page (by unfold Extent.Contains; simp)
    have last := within (page + 4095) (by unfold Extent.Contains; simp)
    refine ⟨whole, inRanges, ?_⟩
    unfold Extent.Contains MemRange.extent at first last
    simp only [Extent.stop_mk] at first last
    omega
  · intro page free byte inPage
    obtain ⟨left, inLeft, within⟩ := layout.free_within room free
    have covered : 0 < Extent.cover (tables.ranges.map MemRange.extent) byte :=
      Extent.cover_pos.mpr ⟨left.extent, List.mem_map_of_mem inLeft, within byte inPage⟩
    have once := layout.apart byte
    have outside : ∀ table ∈ [tables.headerBlock, tables.physicalTable, tables.virtualTable],
        ¬ table.Contains byte := by
      intro table member inTable
      have counted := Extent.cover_pos.mpr ⟨table, member, inTable⟩
      omega
    exact ⟨outside _ (by simp), outside _ (by simp),
      fun written => outside _ (by simp) (headers byte written)⟩

end MemoryTables.Layout

/-- The loop fills a list that holds its pages exactly when there is room for their headers. -/
theorem memoryTables_holdPages (ranges : List MemRange) (pages : PageRanges ranges)
    (reserved : (memoryTables ranges).Reserved) (mem : Nat → Nat) (slots : Nat → PRange) :
    (memoryTables ranges).HoldPages ranges
        ((memoryTables ranges).filled ((memoryTables ranges).physicalRangeList mem slots)) ↔
      (memoryTables ranges).HasSlack := by
  obtain ⟨first, second, third, cuts⟩ := memoryTables_cuts pages reserved
  have layout := cuts.layout pages
  rw [layout.filled_eq reserved.2.2]
  exact ⟨fun holds => layout.headers_fit_iff.mp ((layout.headers_inside_iff mem).mp holds.headers),
    fun room => layout.holdPages room mem⟩

end DoggOS.Mem

/-
When the memory that `k_mem_Init` is given leaves room for the page headers.

Each of the three blocks is taken from the front of a range.  How much that is
for each range follows from the sizes of the ranges and from the scan of
`k_mem_BestFitRange`, and the ends of these fronts decide how many bytes no
whole page holds.
-/

import DoggOS.Mem.HeaderBlock

namespace DoggOS.Mem

def shorten (ranges : List MemRange) (front : Nat → Nat) : List MemRange :=
  ranges.zipIdx.map fun entry =>
    { entry.1 with
      base := entry.1.base + front entry.2
      size := entry.1.size - front entry.2 }

/-- One more block, at the front of the range that the scan of `k_mem_BestFitRange` ends at. -/
def withBlock (ranges : List MemRange) (front : Nat → Nat) (size : Nat) : Nat → Nat := fun place =>
  front place +
    if (bestRange size (shorten ranges front) 0 none).map Prod.fst = some place then size else 0

/-- `range_count` after the first call, which drops a range that it uses up. -/
def countBehindVirtual (ranges : List MemRange) : Nat :=
  if ((bestRange vrangeBytes ranges 0 none).map fun best => best.2.size) = some vrangeBytes then
    ranges.length - 1
  else ranges.length

def physicalBytes (ranges : List MemRange) : Nat :=
  roundedSize (sizeofPRange * countBehindVirtual ranges)

/-- The bytes that the first two blocks leave. -/
def pageBytes (ranges : List MemRange) : Nat :=
  (ranges.map MemRange.size).sum - vrangeBytes - physicalBytes ranges

def headerBytes (ranges : List MemRange) : Nat :=
  roundedSize (pageBytes ranges / (headerPairSize + 4096) * headerPairSize)

/-- The bytes of the three blocks at the front of the range at a place. -/
def blockFront (ranges : List MemRange) : Nat → Nat :=
  withBlock ranges
    (withBlock ranges (withBlock ranges (fun _ => 0) vrangeBytes) (physicalBytes ranges))
    (headerBytes ranges)

def pageUp (size : Nat) : Nat := (size + 4095) / 4096 * 4096

/-- The bytes behind the blocks that belong to no whole page. -/
def wastedBytes (ranges : List MemRange) : Nat :=
  (ranges.zipIdx.map fun entry =>
    if entry.1.size ≤ blockFront ranges entry.2 then 0
    else pageUp (blockFront ranges entry.2) - blockFront ranges entry.2 + entry.1.size % 4096).sum

/-- Every range is used up by the blocks at its front or reaches the next page boundary, and the
4104-byte division rounds the block of the headers up to 16 bytes or leaves less than a page over
besides the bytes in no whole page. -/
def LeavesRoom (ranges : List MemRange) : Prop :=
  (∀ entry ∈ ranges.zipIdx, entry.1.size ≤ blockFront ranges entry.2 ∨
      pageUp (blockFront ranges entry.2) ≤ entry.1.size) ∧
    (pageBytes ranges / (headerPairSize + 4096) % 2 = 1 ∨
      pageBytes ranges % (headerPairSize + 4096) < 4096 + wastedBytes ranges)

instance (ranges : List MemRange) : Decidable (LeavesRoom ranges) :=
  inferInstanceAs (Decidable (_ ∧ _))

/-! ### Fronts and cuts -/

def occupied (ranges : List MemRange) : List MemRange :=
  ranges.filter fun range => decide (0 < range.size)

section Fronts

variable {ranges left : List MemRange} {front : Nat → Nat} {size : Nat}

theorem getElem?_shorten (ranges : List MemRange) (front : Nat → Nat) (place : Nat) :
    (shorten ranges front)[place]? = ranges[place]?.map fun range =>
      { range with base := range.base + front place, size := range.size - front place } := by
  unfold shorten
  rw [List.getElem?_map, List.getElem?_zipIdx, Option.map_map, Nat.zero_add]
  rfl

theorem shorten_zero (ranges : List MemRange) : shorten ranges (fun _ => 0) = ranges := by
  apply List.ext_getElem?
  intro place
  rw [getElem?_shorten]
  exact Option.map_id_fun' ▸ rfl

theorem shorten_withBlock {before after : List MemRange} {best : MemRange}
    (split : shorten ranges front = before ++ best :: after)
    (found : bestRange size (shorten ranges front) 0 none = some (before.length, best)) :
    shorten ranges (withBlock ranges front size) =
      before ++ { best with base := best.base + size, size := best.size - size } :: after := by
  have replaced : before ++ { best with base := best.base + size, size := best.size - size } :: after =
      (shorten ranges front).set before.length
        { best with base := best.base + size, size := best.size - size } := by
    rw [split, List.set_append_right _ _ (Nat.le_refl _), Nat.sub_self]
    rfl
  have here : (shorten ranges front)[before.length]? = some best := by
    rw [split, List.getElem?_append_right (Nat.le_refl _), Nat.sub_self]
    rfl
  rw [replaced]
  apply List.ext_getElem?
  intro place
  rw [getElem?_shorten, List.getElem?_set]
  unfold withBlock
  rw [found, Option.map_some]
  by_cases chosen : before.length = place
  · subst chosen
    have inside : before.length < (shorten ranges front).length := by
      rw [split, List.length_append, List.length_cons]
      omega
    rw [getElem?_shorten] at here
    obtain ⟨range, isRange, isBest⟩ := Option.map_eq_some_iff.mp here
    rw [if_pos rfl, if_pos inside, isRange, if_pos rfl, Option.map_some, ← isBest]
    simp only [Nat.add_assoc, Nat.sub_sub]
  · have other : ¬some before.length = some place := fun same => chosen (Option.some.inj same)
    rw [if_neg chosen, if_neg other, Nat.add_zero, getElem?_shorten]

theorem occupied_cons_pos {range : MemRange} (used : 0 < range.size) (rest : List MemRange) :
    occupied (range :: rest) = range :: occupied rest :=
  List.filter_cons_of_pos (decide_eq_true used)

theorem occupied_cons_zero {range : MemRange} (empty : range.size = 0) (rest : List MemRange) :
    occupied (range :: rest) = occupied rest := by
  apply List.filter_cons_of_neg
  rw [decide_eq_true_eq]
  omega

theorem occupied_append (front back : List MemRange) :
    occupied (front ++ back) = occupied front ++ occupied back :=
  List.filter_append front back

/-- A used-up range stays in its place here and is dropped by the call. -/
theorem occupied_cut (range : MemRange) (size : Nat) (rest : List MemRange) :
    occupied ({ range with base := range.base + size, size := range.size - size } :: rest) =
      occupied (range.cut size ++ rest) := by
  unfold MemRange.cut
  by_cases whole : range.size = size
  · rw [if_pos whole, occupied_cons_zero (by simp only; omega)]
    rfl
  · rw [if_neg whole]
    rfl

theorem takesPlace_congr {best best' : Option (Nat × MemRange)}
    (same : best.map Prod.snd = best'.map Prod.snd) (range : MemRange) :
    takesPlace size best range = takesPlace size best' range := by
  match best, best' with
  | none, none => rfl
  | some (_, chosen), some (_, chosen') =>
      have value : chosen = chosen' := Option.some.inj same
      subst value
      rfl

theorem bestRange_occupied (positive : 0 < size) (ranges : List MemRange) (index other : Nat)
    {best best' : Option (Nat × MemRange)} (same : best.map Prod.snd = best'.map Prod.snd) :
    (bestRange size ranges index best).map Prod.snd =
      (bestRange size (occupied ranges) other best').map Prod.snd := by
  induction ranges generalizing index other best best' with
  | nil => exact same
  | cons range rest ih =>
      rw [bestRange]
      by_cases used : 0 < range.size
      · rw [occupied_cons_pos used, bestRange, takesPlace_congr same range]
        refine ih _ _ ?_
        split_ifs
        · rfl
        · exact same
      · have loses : ¬takesPlace size best range = true := by
          unfold takesPlace
          rw [Bool.and_eq_true, decide_eq_true_eq]
          omega
        rw [if_neg loses, occupied_cons_zero (by omega)]
        exact ih _ _ same

theorem occupied_nodup (apart : ∀ point, Extent.cover (left.map MemRange.extent) point ≤ 1) :
    (occupied left).Nodup := by
  have disjoint := List.pairwise_map.mp (Extent.pairwise_of_cover apart)
  refine (disjoint.filter _).imp_of_mem fun {one two} member _ separate same => ?_
  subst same
  have used : 0 < one.size := of_decide_eq_true (List.mem_filter.mp member).2
  have inside : one.extent.Contains one.base := by
    unfold Extent.Contains Extent.stop MemRange.extent
    simp only
    omega
  exact separate one.base ⟨inside, inside⟩

/-- A call that cuts a block from what is left takes it from the same range as `withBlock`. -/
theorem occupied_bestFitRange (same : occupied (shorten ranges front) = occupied left)
    (apart : ∀ point, Extent.cover (left.map MemRange.extent) point ≤ 1) (total size : Nat) :
    occupied (shorten ranges (withBlock ranges front (alignSize size))) =
      occupied (bestFitRange left total size).2.1 := by
  rcases Nat.eq_zero_or_pos (alignSize size) with none | positive
  · have unmoved : withBlock ranges front 0 = front := by
      funext place
      unfold withBlock
      rw [ite_self, Nat.add_zero]
    rw [none, unmoved, same]
    rcases bestFitRange_cases left total size with
      ⟨null, -⟩ | ⟨before, range, after, split, -, -, -, cut⟩
    · rw [null]
    · have kept := occupied_cut range 0 after
      rw [cut, none, split, List.append_assoc, occupied_append, occupied_append, ← kept]
      rfl
  · have chosen := (bestRange_occupied positive (shorten ranges front) 0 0 rfl).trans
      ((congrArg _ (congrArg (bestRange (alignSize size) · 0 none) same)).trans
        (bestRange_occupied positive left 0 0 rfl).symm)
    rcases bestFitRange_cases left total size with
      ⟨null, small⟩ | ⟨before, range, after, split, fits, -, found, cut⟩
    · have nothing : bestRange (alignSize size) left 0 none = none :=
        bestRange_stays left 0 fun x member takes => small x member ((takesPlace_none x).mp takes)
      rw [nothing] at chosen
      have unmoved : withBlock ranges front (alignSize size) = front := by
        funext place
        unfold withBlock
        rw [Option.map_eq_none_iff.mp chosen]
        rfl
      rw [null, unmoved, same]
    · rw [found] at chosen
      rcases @bestRange_cases (alignSize size) (shorten ranges front) 0 none with
        ⟨nothing, -⟩ | ⟨before', range', after', split', -, -, found'⟩
      · rw [nothing] at chosen
        cases chosen
      rw [found'] at chosen
      have value : range' = range := Option.some.inj chosen
      subst value
      rw [Nat.zero_add] at found'
      have used : 0 < range'.size := Nat.lt_of_lt_of_le positive fits
      have nodup := occupied_nodup apart
      rw [split, occupied_append, occupied_cons_pos used] at nodup
      have notBefore : range' ∉ occupied before := fun member =>
        (List.nodup_append.mp nodup).2.2 _ member _ List.mem_cons_self rfl
      have notAfter : range' ∉ occupied after :=
        (List.nodup_cons.mp (List.nodup_append.mp nodup).2.1).1
      rw [split', split, occupied_append, occupied_append, occupied_cons_pos used,
        occupied_cons_pos used] at same
      obtain ⟨sameBefore, -, sameAfter⟩ :=
        (List.append_cons_inj_of_notMem notBefore notAfter).mp same.symm
      rw [shorten_withBlock split' found', cut, occupied_append, occupied_cut, List.append_assoc,
        occupied_append, occupied_append, occupied_append, sameBefore, sameAfter]

end Fronts

/-! ### The bytes that the blocks leave -/

section Sums

variable {ranges left : List MemRange} {front : Nat → Nat}

theorem sum_occupied (value : MemRange → Nat) {ranges : List MemRange}
    (nothing : ∀ range ∈ ranges, range.size = 0 → value range = 0) :
    ((occupied ranges).map value).sum = (ranges.map value).sum := by
  induction ranges with
  | nil => rfl
  | cons range rest ih =>
      have others := ih fun other member => nothing other (List.mem_cons_of_mem _ member)
      rw [List.map_cons, List.sum_cons]
      rcases Nat.eq_zero_or_pos range.size with empty | used
      · rw [occupied_cons_zero empty, nothing range List.mem_cons_self empty, others, Nat.zero_add]
      · rw [occupied_cons_pos used, List.map_cons, List.sum_cons, others]

theorem waste_zero {range : MemRange} (aligned : range.base % 4096 = 0) (empty : range.size = 0) :
    range.waste = 0 := by
  unfold MemRange.waste MemRange.padding
  rw [aligned, empty]

theorem padding_zero {range : MemRange} (aligned : range.base % 4096 = 0) : range.padding = 0 := by
  unfold MemRange.padding
  rw [aligned]

theorem padding_shift {range : MemRange} (aligned : range.base % 4096 = 0) (front : Nat) (size : Nat) :
    ({ range with base := range.base + front, size := size } : MemRange).padding =
      pageUp front - front := by
  unfold MemRange.padding pageUp
  simp only
  omega

theorem mem_occupied {range : MemRange} : range ∈ occupied ranges ↔ range ∈ ranges ∧ 0 < range.size := by
  unfold occupied
  rw [List.mem_filter, decide_eq_true_eq]

theorem padded_iff (aligned : ∀ range ∈ ranges, range.base % 4096 = 0)
    (emptyAligned : ∀ range ∈ left, range.size = 0 → range.base % 4096 = 0)
    (same : occupied (shorten ranges front) = occupied left) :
    (∀ range ∈ left, range.padding ≤ range.size) ↔
      ∀ entry ∈ ranges.zipIdx, entry.1.size ≤ front entry.2 ∨
        pageUp (front entry.2) ≤ entry.1.size := by
  have onlyOccupied : (∀ range ∈ left, range.padding ≤ range.size) ↔
      ∀ range ∈ occupied (shorten ranges front), range.padding ≤ range.size := by
    rw [same]
    constructor
    · intro padded range member
      exact padded range (mem_occupied.mp member).1
    · intro padded range member
      rcases Nat.eq_zero_or_pos range.size with empty | used
      · rw [padding_zero (emptyAligned range member empty)]
        exact Nat.zero_le _
      · exact padded range (mem_occupied.mpr ⟨member, used⟩)
  rw [onlyOccupied]
  unfold shorten
  simp only [mem_occupied, List.mem_map]
  constructor
  · intro padded entry member
    rcases Nat.lt_or_ge (front entry.2) entry.1.size with used | covered
    · have here := padded _ ⟨⟨entry, member, rfl⟩, by simp only; omega⟩
      rw [padding_shift (aligned _ (List.fst_mem_of_mem_zipIdx member))] at here
      simp only at here
      exact .inr (by omega)
    · exact .inl covered
  · rintro padded _ ⟨⟨entry, member, rfl⟩, used⟩
    rw [padding_shift (aligned _ (List.fst_mem_of_mem_zipIdx member))]
    rcases padded entry member with covered | reaches
    · simp only at used
      omega
    · simp only
      omega

theorem sum_waste_eq (aligned : ∀ range ∈ ranges, range.base % 4096 = 0)
    (emptyAligned : ∀ range ∈ left, range.size = 0 → range.base % 4096 = 0)
    (same : occupied (shorten ranges front) = occupied left)
    (padded : ∀ entry ∈ ranges.zipIdx, entry.1.size ≤ front entry.2 ∨
      pageUp (front entry.2) ≤ entry.1.size) :
    (left.map MemRange.waste).sum = (ranges.zipIdx.map fun entry =>
      if entry.1.size ≤ front entry.2 then 0
      else pageUp (front entry.2) - front entry.2 + entry.1.size % 4096).sum := by
  let behind (range : MemRange) : Nat := if range.size = 0 then 0 else range.waste
  have leftBehind : ∀ range ∈ left, range.waste = behind range := by
    intro range member
    by_cases empty : range.size = 0
    · rw [waste_zero (emptyAligned range member empty) empty]
      exact (if_pos empty).symm
    · exact (if_neg empty).symm
  have none : ∀ list : List MemRange, ∀ range ∈ list, range.size = 0 → behind range = 0 :=
    fun _ _ _ empty => if_pos empty
  rw [List.map_congr_left leftBehind, ← sum_occupied behind (none left), ← same,
    sum_occupied behind (none _)]
  unfold shorten
  rw [List.map_map]
  congr 1
  apply List.map_congr_left
  intro entry member
  have here := aligned _ (List.fst_mem_of_mem_zipIdx member)
  have reaches := padded entry member
  by_cases covered : entry.1.size ≤ front entry.2
  · rw [if_pos covered]
    exact if_pos (Nat.sub_eq_zero_of_le covered)
  · rw [if_neg covered]
    refine (if_neg (by simp only; omega)).trans ?_
    unfold MemRange.waste
    rw [padding_shift here]
    unfold pageUp at *
    simp only
    omega

end Sums

/-! ### The three blocks -/

theorem Carved.emptyAligned {ranges left : List MemRange} {block : Extent}
    (cut : Carved ranges left block)
    (aligned : ∀ range ∈ ranges, range.size = 0 → range.base % 4096 = 0) :
    ∀ range ∈ left, range.size = 0 → range.base % 4096 = 0 := by
  intro range member empty
  rcases cut.within range member with kept | ⟨-, -, positive, -⟩
  · exact aligned range kept empty
  · omega

namespace Cuts

variable {ranges : List MemRange} {first second third : Nat × List MemRange × Nat}

theorem length_first (cuts : Cuts ranges first second third) :
    first.2.1.length = countBehindVirtual ranges := by
  have virtualSize : alignSize vrangeBytes = vrangeBytes := by decide
  unfold countBehindVirtual
  rw [cuts.firstEq]
  rcases bestFitRange_cases ranges (memTotal ranges) vrangeBytes with
    ⟨null, small⟩ | ⟨before, range, after, split, -, -, found, cut⟩
  · have nothing : bestRange vrangeBytes ranges 0 none = none :=
      bestRange_stays ranges 0 fun x member takes =>
        small x member (virtualSize ▸ (takesPlace_none x).mp takes)
    rw [null, nothing]
    rfl
  · rw [virtualSize] at found cut
    rw [cut, found, Option.map_some, split]
    unfold MemRange.cut
    by_cases whole : range.size = vrangeBytes
    · rw [if_pos whole, if_pos (congrArg some whole), List.append_nil, List.length_append,
        List.length_append, List.length_cons]
      rfl
    · rw [if_neg whole, if_neg fun same => whole (Option.some.inj same)]
      simp only [List.length_append, List.length_cons, List.length_nil]
      omega

theorem available_eq (cuts : Cuts ranges first second third) : second.2.2 = pageBytes ranges := by
  have virtual := cuts.virtual.sizes
  have physical := cuts.physical.sizes
  simp only [cuts.length_first] at virtual physical
  rw [cuts.available]
  unfold pageBytes physicalBytes
  omega

/-- The three calls take their blocks from the ranges that the scan names. -/
theorem occupied_blockFront (cuts : Cuts ranges first second third) (pages : PageRanges ranges) :
    occupied (shorten ranges (blockFront ranges)) = occupied third.2.1 := by
  have virtualSize : alignSize vrangeBytes = vrangeBytes := by decide
  have physicalSize := alignSize_eq cuts.physicalWord
  have headersSize := alignSize_eq cuts.headersWord
  have firstLeft := pages.carvable.carved cuts.virtual (show vrangeBytes % 16 = 0 by decide)
  have secondLeft := firstLeft.carved cuts.physical (roundedSize_aligned _)
  have one := occupied_bestFitRange (congrArg occupied (shorten_zero ranges)) pages.carvable.apart
    (memTotal ranges) vrangeBytes
  rw [← cuts.firstEq, virtualSize] at one
  have two := occupied_bestFitRange one firstLeft.apart first.2.2
    (sizeofPRange * first.2.1.length)
  rw [← cuts.secondEq, physicalSize, cuts.length_first] at two
  have three := occupied_bestFitRange two secondLeft.apart second.2.2
    (second.2.2 / (headerPairSize + 4096) * headerPairSize)
  rw [← cuts.thirdEq, headersSize, cuts.available_eq] at three
  exact three

/-- `range_count` of the list is the count from before the third call. -/
theorem length_physicalRangeList (cuts : Cuts ranges first second third)
    (reserved : (memoryTables ranges).Reserved) (mem : Nat → Nat) (slots : Nat → PRange) :
    ((memoryTables ranges).physicalRangeList mem slots).ranges.length =
      (memoryTables ranges).storedCount := by
  have shorter : third.2.1.length ≤ second.2.1.length := cuts.headers.length
  have filled := congrArg List.length (initRanges_pages
    ((memoryTables ranges).ranges.map fun range => (range.base % wordLimit, range.size % wordLimit))
    ((memoryTables ranges).pageHeaders / 4) mem)
  rw [List.length_map, List.length_map, List.length_map, cuts.tables] at filled
  unfold MemoryTables.physicalRangeList PRList.init
  rw [if_pos reserved.2.2, cuts.tables]
  simp only [List.length_append, List.length_map, List.length_range'] at filled ⊢
  omega

theorem hasSlack_iff (cuts : Cuts ranges first second third) (pages : PageRanges ranges) :
    (memoryTables ranges).HasSlack ↔ LeavesRoom ranges := by
  have emptyAligned := cuts.headers.emptyAligned (cuts.physical.emptyAligned
    (cuts.virtual.emptyAligned fun range member _ => pages.aligned range member))
  have same := cuts.occupied_blockFront pages
  rw [cuts.tables]
  unfold MemoryTables.HasSlack LeavesRoom
  simp only
  rw [padded_iff pages.aligned emptyAligned same, cuts.available_eq]
  refine and_congr_right fun padded => ?_
  rw [sum_waste_eq pages.aligned emptyAligned same padded]
  rfl

end Cuts

/-- The page tables of `k_mem_Init` hold the pages of all the memory left exactly when the block of
the headers has room for them. -/
theorem memoryTables_holdPages_iff (ranges : List MemRange) (pages : PageRanges ranges)
    (reserved : (memoryTables ranges).Reserved) (mem : Nat → Nat) (slots : Nat → PRange) :
    (memoryTables ranges).HoldPages ranges
        ((memoryTables ranges).filled ((memoryTables ranges).physicalRangeList mem slots)) ↔
      LeavesRoom ranges := by
  obtain ⟨first, second, third, cuts⟩ := memoryTables_cuts pages reserved
  exact (memoryTables_holdPages ranges pages reserved mem slots).trans (cuts.hasSlack_iff pages)

def pagesAbove1M (count : Nat) : List MemRange := [⟨0x100000, count * 4096, 1⟩]

theorem pagesAbove1M_pageRanges {count : Nat} (below : count ≤ 0xfff00) :
    PageRanges (pagesAbove1M count) := by
  constructor
  · intro range member
    rw [List.mem_singleton.mp member]
    exact show 0x100000 % 4096 = 0 by decide
  · intro range member
    rw [List.mem_singleton.mp member]
    unfold wordLimit
    simp only
    omega
  · exact List.pairwise_singleton _ _
  · exact show sizeofMemRange * 1 ≤ wordLimit by decide

/-- A page below 1 MiB, which the two last blocks use up, and 2551 pages above it. -/
def usedUpBelow1M : List MemRange := [⟨0x1000, 4096, 1⟩, ⟨0x100000, 2551 * 4096, 1⟩]

theorem usedUpBelow1M_pageRanges : PageRanges usedUpBelow1M := by
  constructor
  · exact show ∀ range ∈ usedUpBelow1M, range.base % 4096 = 0 by decide
  · exact show ∀ range ∈ usedUpBelow1M,
      range.base < wordLimit ∧ range.base + range.size ≤ wordLimit by decide
  · refine List.pairwise_pair.mpr ?_
    rintro point ⟨below, above⟩
    unfold Extent.Contains MemRange.extent at below above
    simp only [Extent.stop_mk] at below above
    omega
  · exact show sizeofMemRange * 2 ≤ wordLimit by decide

/-- The list still counts the range that is used up. -/
theorem memoryTables_holdPages_usedUp :
    (memoryTables usedUpBelow1M).HoldPages usedUpBelow1M
        ((memoryTables usedUpBelow1M).filled
          ((memoryTables usedUpBelow1M).physicalRangeList (fun _ => 0) fun _ => ⟨0, 0, 0, 0, 0⟩)) ∧
      (memoryTables usedUpBelow1M).storedCount = 2 ∧
      (memoryTables usedUpBelow1M).ranges = [⟨0x8fd000, 506 * 4096, 1⟩] :=
  ⟨(memoryTables_holdPages_iff usedUpBelow1M usedUpBelow1M_pageRanges (by decide) (fun _ => 0)
      fun _ => ⟨0, 0, 0, 0, 0⟩).mpr (by decide), by decide, by decide⟩

/-- 2555 pages leave 509 pages to a block for 508. -/
theorem memoryTables_headers_past_block :
    ¬ ∀ (ranges : List MemRange) (mem : Nat → Nat) (slots : Nat → PRange), PageRanges ranges →
      (memoryTables ranges).Reserved →
        (memoryTables ranges).HoldPages ranges
          ((memoryTables ranges).filled ((memoryTables ranges).physicalRangeList mem slots)) := by
  intro always
  have pages := pagesAbove1M_pageRanges (show 2555 ≤ 0xfff00 by decide)
  have reserved : (memoryTables (pagesAbove1M 2555)).Reserved := by decide
  obtain ⟨first, second, third, cuts⟩ := memoryTables_cuts pages reserved
  have layout := cuts.layout pages
  have holds := always (pagesAbove1M 2555) (fun _ => 0) (fun _ => ⟨0, 0, 0, 0, 0⟩) pages reserved
  rw [layout.filled_eq reserved.2.2] at holds
  have fits := (layout.headers_inside_iff _).mp holds.headers
  exact absurd fits (by decide)

end DoggOS.Mem

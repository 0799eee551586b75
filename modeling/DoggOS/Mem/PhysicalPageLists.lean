/-
The physical allocator over all its ranges.

An allocation pops every range that has a page and returns the page popped
last; a free pushes its page on the one range that manages it, or does nothing.
Both are stated for a list of stacked ranges with separate words, and the
header block that `k_mem_Init` writes starts such a list.
-/

import DoggOS.Mem.PhysicalPageStacks

namespace DoggOS.Mem

namespace PRange

def headers (range : PRange) : Extent := ⟨range.usedPages, range.pageCount⟩

theorem Stacked.headers_region {range : PRange} {mem : Nat → Nat} (stacked : range.Stacked mem)
    {address : Nat} (inside : range.headers.Contains address) : range.region.Contains address := by
  have adjacent := stacked.adjacent
  simp only [headers, region, Extent.Contains, Extent.stop_mk] at inside ⊢
  omega

def Separate (one two : PRange) : Prop :=
  one.region.Disjoint two.region ∧ one.pages.Disjoint two.pages

instance : Std.Symm Separate :=
  ⟨fun _ _ separate => ⟨separate.1.symm, separate.2.symm⟩⟩

end PRange

structure StackedRanges (ranges : List PRange) (mem : Nat → Nat) : Prop where
  stacked : ∀ range ∈ ranges, range.Stacked mem
  separate : ranges.Pairwise PRange.Separate

def PastOk (ranges : List PRange) (mem : Nat → Nat) : Prop :=
  ∀ range ∈ ranges, 0 < range.pageCount → range.flags mem range.pageCount % 4 ≠ 1

namespace StackedRanges

variable {ranges : List PRange} {mem : Nat → Nat}

theorem tail {range : PRange} (stacked : StackedRanges (range :: ranges) mem) :
    StackedRanges ranges mem :=
  ⟨fun other member => stacked.stacked other (List.mem_cons_of_mem _ member),
    (List.pairwise_cons.mp stacked.separate).2⟩

theorem frame (stacked : StackedRanges ranges mem) {mem' : Nat → Nat}
    (agree : ∀ address, (∃ range ∈ ranges, range.region.Contains address) →
      mem' address = mem address) : StackedRanges ranges mem' :=
  ⟨fun range member => ((stacked.stacked range member).frame fun address inside =>
    agree address ⟨range, member, inside⟩).1, stacked.separate⟩

theorem frame_tail {range : PRange} (stacked : StackedRanges (range :: ranges) mem)
    {mem' : Nat → Nat} (agree : ∀ address, ¬ range.region.Contains address →
      mem' address = mem address) :
    StackedRanges ranges mem' ∧ ∀ other ∈ ranges, other.freeList mem' = other.freeList mem := by
  have apart := (List.pairwise_cons.mp stacked.separate).1
  have outside : ∀ other ∈ ranges, ∀ address, other.region.Contains address →
      mem' address = mem address := fun other member address inside =>
    agree address fun inFirst => (apart other member).1 address ⟨inFirst, inside⟩
  refine ⟨⟨fun other member => ?_, stacked.tail.separate⟩, fun other member => ?_⟩
  · exact ((stacked.tail.stacked other member).frame (outside other member)).1
  · exact ((stacked.tail.stacked other member).frame (outside other member)).2

theorem replace {before after : List PRange} {range changed : PRange}
    (stacked : StackedRanges (before ++ range :: after) mem) {mem' : Nat → Nat}
    (sameRegion : changed.region = range.region) (samePages : changed.pages = range.pages)
    (inStep : changed.Stacked mem')
    (agree : ∀ address, ¬ range.region.Contains address → mem' address = mem address) :
    StackedRanges (before ++ changed :: after) mem' ∧
      ∀ other, other ∈ before ∨ other ∈ after → other.freeList mem' = other.freeList mem := by
  obtain ⟨separateBefore, separateAfter, apart⟩ := List.pairwise_append.mp stacked.separate
  obtain ⟨rangeApart, afterApart⟩ := List.pairwise_cons.mp separateAfter
  have outside : ∀ other, other ∈ before ∨ other ∈ after → ∀ address,
      other.region.Contains address → mem' address = mem address := by
    rintro other (inBefore | inAfter) address inside
    · exact agree address fun inRange =>
        (apart other inBefore range List.mem_cons_self).1 address ⟨inside, inRange⟩
    · exact agree address fun inRange => (rangeApart other inAfter).1 address ⟨inRange, inside⟩
  have kept : ∀ other, other ∈ before ∨ other ∈ after →
      other.Stacked mem' ∧ other.freeList mem' = other.freeList mem := by
    intro other member
    refine (stacked.stacked other ?_).frame (outside other member)
    rcases member with inBefore | inAfter
    · exact List.mem_append_left _ inBefore
    · exact List.mem_append_right _ (List.mem_cons_of_mem _ inAfter)
  refine ⟨⟨fun other member => ?_, ?_⟩, fun other member => (kept other member).2⟩
  · rcases List.mem_append.mp member with inBefore | later
    · exact (kept other (Or.inl inBefore)).1
    · rcases List.mem_cons.mp later with here | inAfter
      · exact here ▸ inStep
      · exact (kept other (Or.inr inAfter)).1
  · unfold PRange.Separate at *
    refine List.pairwise_append.mpr ⟨separateBefore, List.pairwise_cons.mpr ⟨?_, afterApart⟩, ?_⟩
    · rw [sameRegion, samePages]
      exact rangeApart
    · intro one oneIn two twoIn
      rcases List.mem_cons.mp twoIn with here | inAfter
      · subst here
        rw [sameRegion, samePages]
        exact apart one oneIn range List.mem_cons_self
      · exact apart one oneIn two (List.mem_cons_of_mem _ inAfter)

theorem range_unique (stacked : StackedRanges ranges mem) {one two : PRange} {index place : Nat}
    (oneIn : one ∈ ranges) (twoIn : two ∈ ranges) (inOne : index < one.pageCount)
    (inTwo : place < two.pageCount) (same : one.pageAt index = two.pageAt place) : one = two := by
  by_contra different
  have apart := (stacked.separate.forall oneIn twoIn different).2
  refine apart (one.pageAt index) ⟨?_, ?_⟩
  · simp only [PRange.pages, Extent.Contains, Extent.stop_mk, PRange.pageAt]
    omega
  · rw [same]
    simp only [PRange.pages, Extent.Contains, Extent.stop_mk, PRange.pageAt]
    omega

/-- The range loop does not take another range for the one of a page. -/
theorem not_in_other (stacked : StackedRanges ranges mem) {other range : PRange}
    (otherIn : other ∈ ranges) (member : range ∈ ranges) {index : Nat}
    (inRange : index < range.pageCount) (different : other ≠ range) :
    ¬ (other.baseAddress ≤ range.pageAt index ∧
      other.pageIndex (range.pageAt index) < other.pageCount) := by
  intro found
  have rangeStacked := stacked.stacked range member
  have aligned := rangeStacked.aligned
  have pageAligned : range.pageAt index % 4096 = 0 := by
    unfold PRange.pageAt
    omega
  have atPlace := (stacked.stacked other otherIn).pageAt_pageIndex pageAligned
    (rangeStacked.pageAt_lt inRange) found.1
  exact different (stacked.range_unique otherIn member found.2 inRange atPlace)

/-- What `k_mem_AllocPhysicalPage` does: every stack is popped once. -/
theorem allocPages (stacked : StackedRanges ranges mem) (flags start : Nat) :
    (Mem.allocPages flags ranges start mem).1 =
        (ranges.filterMap (fun range => (range.freeList mem).getLast?)).getLastD start ∧
      (Mem.allocPages flags ranges start mem).2.2 = ranges.map PRange.pop ∧
      StackedRanges (ranges.map PRange.pop) (Mem.allocPages flags ranges start mem).2.1 ∧
      (∀ range ∈ ranges, range.pop.freeList (Mem.allocPages flags ranges start mem).2.1 =
        (range.freeList mem).dropLast) ∧
      ∀ address, (∀ range ∈ ranges, ¬ range.headers.Contains address) →
        (Mem.allocPages flags ranges start mem).2.1 address = mem address := by
  induction ranges generalizing start mem with
  | nil =>
      refine ⟨rfl, rfl, ⟨by simp, by simp⟩, by simp, fun _ _ => rfl⟩
  | cons range rest ih =>
      have first := stacked.stacked range List.mem_cons_self
      obtain ⟨apart, restApart⟩ := List.pairwise_cons.mp stacked.separate
      have separate : ((range :: rest).map PRange.pop).Pairwise PRange.Separate :=
        List.pairwise_map.mpr stacked.separate
      -- the words of the first range stay as they are while the others are popped
      have assemble : ∀ mem' page, StackedRanges rest mem' →
          (∀ address, ¬ range.headers.Contains address → mem' address = mem address) →
          range.pop.Stacked mem' → range.pop.freeList mem' = (range.freeList mem).dropLast →
          (∀ other ∈ rest, other.freeList mem' = other.freeList mem) →
          (Mem.allocPages flags rest page mem').1 =
              (rest.filterMap (fun range => (range.freeList mem).getLast?)).getLastD page ∧
            (Mem.allocPages flags rest page mem').2.2 = rest.map PRange.pop ∧
            StackedRanges ((range :: rest).map PRange.pop)
              (Mem.allocPages flags rest page mem').2.1 ∧
            (∀ other ∈ range :: rest,
              other.pop.freeList (Mem.allocPages flags rest page mem').2.1 =
                (other.freeList mem).dropLast) ∧
            ∀ address, (∀ other ∈ range :: rest, ¬ other.headers.Contains address) →
              (Mem.allocPages flags rest page mem').2.1 address = mem address := by
        intro mem' page restStacked agree popped poppedList lists
        obtain ⟨returned, popAll, after, afterLists, outside⟩ := ih restStacked page
        have kept := popped.frame fun address inside => outside address fun other member inOther =>
          (apart other member).1 address
            ⟨inside, (restStacked.stacked other member).headers_region inOther⟩
        have sameTops : rest.filterMap (fun range => (range.freeList mem').getLast?) =
            rest.filterMap (fun range => (range.freeList mem).getLast?) :=
          List.filterMap_congr fun other member => by rw [lists other member]
        refine ⟨by rw [returned, sameTops], popAll, ⟨?_, separate⟩, ?_, ?_⟩
        · intro other member
          rw [List.map_cons] at member
          rcases List.mem_cons.mp member with here | later
          · exact here ▸ kept.1
          · exact after.stacked other later
        · intro other member
          rcases List.mem_cons.mp member with here | later
          · rw [here, kept.2, poppedList]
          · rw [afterLists other later, lists other later]
        · intro address away
          rw [outside address fun other member => away other (List.mem_cons_of_mem _ member)]
          exact agree address (away range List.mem_cons_self)
      by_cases nonempty : range.freeCount ≠ 0
      · obtain ⟨page, top⟩ : ∃ page, mem (range.freePages + (range.freeCount - 1)) = page :=
          ⟨_, rfl⟩
        obtain ⟨inRange, last, popped, poppedList⟩ := first.take nonempty flags top
        have adjacent := first.adjacent
        have agree : ∀ address, ¬ range.headers.Contains address →
            Function.update mem (range.usedPages + range.pageIndex page)
              (upage 0 (flags ||| pageFlagUsed ||| pageFlagHead)) address = mem address := by
          intro address outside
          refine Function.update_of_ne (fun same => outside ?_) _ _
          simp only [PRange.headers, Extent.Contains, Extent.stop_mk]
          omega
        obtain ⟨restStacked, lists⟩ := stacked.frame_tail fun address outside =>
          agree address fun inside => outside (first.headers_region inside)
        have done := assemble _ page restStacked agree popped poppedList lists
        rw [Mem.allocPages]
        simp only [nonempty, ne_eq, not_false_eq_true, if_true, top, List.filterMap_cons, last,
          List.getLastD_cons]
        refine ⟨done.1, ?_, done.2.2⟩
        rw [done.2.1]
        rfl
      · have zero : range.freeCount = 0 := not_not.mp nonempty
        have unpopped : range.pop = range := by
          unfold PRange.pop
          rw [zero, Nat.zero_sub, ← zero]
        have noPages : range.freeList mem = [] := by
          unfold PRange.freeList
          rw [zero]
          rfl
        have done := assemble mem start stacked.tail (fun _ _ => rfl) (by rwa [unpopped])
          (by rw [unpopped, noPages]; rfl) (fun _ _ => rfl)
        rw [Mem.allocPages]
        simp only [zero, ne_eq, not_true_eq_false, if_false, List.filterMap_cons, noPages,
          List.getLast?_nil]
        refine ⟨done.1, ?_, done.2.2⟩
        rw [done.2.1, List.map_cons, unpopped]

/-- Nothing happens when no range has the page in use, whatever follows the tables. -/
theorem freePages_unchanged (stacked : StackedRanges ranges mem) {page : Nat}
    (pageAligned : page % 4096 = 0) (word : page < 2 ^ 32)
    (unused : ∀ range ∈ ranges, ∀ index, index < range.pageCount → page = range.pageAt index →
      range.flags mem index % 4 ≠ 3) (fuel : Nat) :
    freePages fuel page mem ranges = some (mem, ranges) := by
  induction ranges with
  | nil => rfl
  | cons range rest ih =>
      have first := stacked.stacked range List.mem_cons_self
      have notHere : ¬ (range.baseAddress ≤ page ∧ range.pageIndex page < range.pageCount ∧
          range.flags mem (range.pageIndex page) &&& (pageFlagUsed ||| pageFlagHead) =
            pageFlagUsed ||| pageFlagHead) := by
        rintro ⟨above, inRange, used⟩
        rw [and_usedHead] at used
        exact unused range List.mem_cons_self _ inRange
          (first.pageAt_pageIndex pageAligned word above).symm used
      rw [freePages, if_neg notHere,
        ih stacked.tail fun other member => unused other (List.mem_cons_of_mem _ member)]
      rfl

/-- The header after a used page stops the release loop, also the word after the table. -/
theorem next_stops {range : PRange} (stacked : range.Stacked mem) {index : Nat}
    (inRange : index < range.pageCount)
    (past : index + 1 = range.pageCount → range.flags mem range.pageCount % 4 ≠ 1) :
    range.flags mem (index + 1) % 4 ≠ 1 := by
  rcases Nat.lt_or_eq_of_le (Nat.succ_le_of_lt inRange) with inside | last
  · have headed := stacked.headed (index + 1) inside
    omega
  · have atEnd := past last
    rwa [← last] at atEnd

/-- The headers after the page that a turn of the release loop frees are still there. -/
theorem released_flags {range : PRange} (stacked : range.Stacked mem) {index : Nat}
    (inRange : index < range.pageCount) (used : range.flags mem index % 4 = 3) :
    range.flags (Function.update
      (Function.update mem (range.freePages + range.freeCount) (range.pageAt index))
      (range.usedPages + index) (upage range.freeCount 0)) (index + 1) =
        range.flags mem (index + 1) := by
  have adjacent := stacked.adjacent
  have room := stacked.freeCount_lt inRange used
  unfold PRange.flags
  rw [Function.update_of_ne (by omega), Function.update_of_ne (by omega)]

theorem releasePages_turn {range : PRange} (stacked : range.Stacked mem) {index : Nat}
    (inRange : index < range.pageCount) (used : range.flags mem index % 4 = 3) (fuel : Nat) :
    Mem.releasePages (fuel + 1) mem range index (range.pageAt index) =
      if range.flags mem (index + 1) % 4 = 1 then
        Mem.releasePages fuel (Function.update
          (Function.update mem (range.freePages + range.freeCount) (range.pageAt index))
          (range.usedPages + index) (upage range.freeCount 0)) range.push (index + 1)
          ((range.pageAt index + addressOffset4KB) % wordLimit)
      else some (Function.update
        (Function.update mem (range.freePages + range.freeCount) (range.pageAt index))
        (range.usedPages + index) (upage range.freeCount 0), range.push) := by
  have below := stacked.pageAt_lt inRange
  unfold PRange.pageAt at below
  have nextIndex : (index + 1) % wordLimit = index + 1 := by
    unfold wordLimit
    omega
  rw [Mem.releasePages, nextIndex]
  simp only [and_usedHead]
  have same := released_flags stacked inRange used
  have pushed : ({ range with freeCount := range.freeCount + 1 } : PRange).flags = range.flags := rfl
  rw [pushed, same]
  rfl

theorem releasePages {range : PRange} (stacked : range.Stacked mem) {index : Nat}
    (inRange : index < range.pageCount) (used : range.flags mem index % 4 = 3)
    (stops : range.flags mem (index + 1) % 4 ≠ 1) (fuel : Nat) :
    Mem.releasePages (fuel + 1) mem range index (range.pageAt index) =
      some (Function.update
        (Function.update mem (range.freePages + range.freeCount) (range.pageAt index))
        (range.usedPages + index) (upage range.freeCount 0), range.push) := by
  rw [releasePages_turn stacked inRange used, if_neg stops]

theorem freePages_found (stacked : StackedRanges ranges mem) {range : PRange}
    (member : range ∈ ranges) {index : Nat} (inRange : index < range.pageCount)
    (used : range.flags mem index % 4 = 3) :
    ∃ before after, ranges = before ++ range :: after ∧
      ∀ fuel, freePages fuel (range.pageAt index) mem ranges =
        (Mem.releasePages fuel mem range index (range.pageAt index)).map
          (fun released => (released.1, before ++ released.2 :: after)) := by
  induction ranges with
  | nil => cases member
  | cons first rest ih =>
      have firstStacked := stacked.stacked first List.mem_cons_self
      by_cases same : first = range
      · subst same
        have above : first.baseAddress ≤ first.pageAt index := Nat.le_add_right _ _
        have found := firstStacked.pageIndex_pageAt inRange
        refine ⟨[], rest, rfl, fun fuel => ?_⟩
        rw [freePages, found, and_usedHead, if_pos ⟨above, inRange, used⟩]
        rfl
      · have later : range ∈ rest := (List.mem_cons.mp member).resolve_left (Ne.symm same)
        obtain ⟨before, after, split, freed⟩ := ih stacked.tail later
        have elsewhere := stacked.not_in_other List.mem_cons_self member inRange same
        refine ⟨first :: before, after, by rw [split]; rfl, fun fuel => ?_⟩
        rw [freePages, if_neg (fun here => elsewhere ⟨here.1, here.2.1⟩), freed, Option.map_map]
        rfl

theorem freePages_used (stacked : StackedRanges ranges mem) {range : PRange}
    (member : range ∈ ranges) {index : Nat} (inRange : index < range.pageCount)
    (used : range.flags mem index % 4 = 3) (stops : range.flags mem (index + 1) % 4 ≠ 1) :
    ∃ before after mem', ranges = before ++ range :: after ∧
      (∀ fuel, freePages (fuel + 1) (range.pageAt index) mem ranges =
        some (mem', before ++ range.push :: after)) ∧
      range.push.Stacked mem' ∧
      range.push.freeList mem' = range.freeList mem ++ [range.pageAt index] ∧
      ∀ address, ¬ range.region.Contains address → mem' address = mem address := by
  have here := stacked.stacked range member
  have adjacent := here.adjacent
  have room := here.freeCount_lt inRange used
  obtain ⟨pushed, pushedList⟩ := here.release inRange used
  obtain ⟨before, after, split, freed⟩ := stacked.freePages_found member inRange used
  refine ⟨before, after, _, split, fun fuel => ?_, pushed, pushedList, fun address outside => ?_⟩
  · rw [freed, releasePages here inRange used stops]
    rfl
  · simp only [PRange.region, Extent.Contains, Extent.stop_mk] at outside
    rw [Function.update_of_ne (by omega), Function.update_of_ne (by omega)]

end StackedRanges

/-! ### The header block of `k_mem_Init` -/

theorem initPages_spec (freePages usedPages count : Nat) (pageIndex baseAddress : Nat)
    (mem : Nat → Nat) (apart : freePages + pageIndex + count ≤ usedPages + pageIndex)
    (fits : baseAddress + count * 4096 ≤ 2 ^ 32) :
    (∀ step, step < count →
      initPages freePages usedPages count pageIndex baseAddress mem
          (freePages + pageIndex + step) = baseAddress + step * 4096 ∧
        upageFlags (initPages freePages usedPages count pageIndex baseAddress mem
          (usedPages + pageIndex + step)) = 0) ∧
      ∀ address, (∀ step, step < count → address ≠ freePages + pageIndex + step ∧
          address ≠ usedPages + pageIndex + step) →
        initPages freePages usedPages count pageIndex baseAddress mem address = mem address := by
  induction count generalizing pageIndex baseAddress mem with
  | zero => exact ⟨fun step impossible => absurd impossible (by omega), fun _ _ => rfl⟩
  | succ count ih =>
      have rest : ∀ step, step < count + 1 → step ≠ 0 → ∃ less, step = less + 1 ∧ less < count :=
        fun step below positive => ⟨step - 1, by omega, by omega⟩
      rw [initPages]
      by_cases only : count = 0
      · subst only
        refine ⟨fun step below => ?_, fun address away => ?_⟩
        · have first : step = 0 := by omega
          subst first
          rw [initPages, Function.update_of_ne (by omega)]
          simp [upageFlags_upage]
        · have elsewhere : address ≠ freePages + pageIndex ∧ address ≠ usedPages + pageIndex :=
            away 0 (by omega)
          rw [initPages, Function.update_of_ne elsewhere.2, Function.update_of_ne elsewhere.1]
      · have wrapped : (baseAddress + addressOffset4KB) % wordLimit = baseAddress + 4096 := by
          unfold addressOffset4KB wordLimit
          omega
        obtain ⟨written, unwritten⟩ := ih (pageIndex + 1)
          ((baseAddress + addressOffset4KB) % wordLimit)
          (Function.update (Function.update mem (freePages + pageIndex) baseAddress)
            (usedPages + pageIndex) (upage pageIndex 0)) (by omega) (by rw [wrapped]; omega)
        rw [wrapped] at written unwritten ⊢
        refine ⟨fun step below => ?_, fun address away => ?_⟩
        · by_cases first : step = 0
          · subst first
            rw [unwritten _ (fun other otherBelow => by omega),
              unwritten _ (fun other otherBelow => by omega), Nat.zero_mul]
            simp only [Nat.add_zero]
            rw [Function.update_of_ne (by omega), Function.update_self, Function.update_self,
              upageFlags_upage]
            exact ⟨rfl, rfl⟩
          · obtain ⟨less, rfl, lessBelow⟩ := rest step below first
            obtain ⟨address, clear⟩ := written less lessBelow
            rw [show freePages + pageIndex + (less + 1) = freePages + (pageIndex + 1) + less by omega,
              show usedPages + pageIndex + (less + 1) = usedPages + (pageIndex + 1) + less by omega]
            exact ⟨by rw [address]; omega, clear⟩
        · have elsewhere : address ≠ freePages + pageIndex ∧ address ≠ usedPages + pageIndex :=
            away 0 (by omega)
          rw [unwritten address fun step below => by
              have beyond := away (step + 1) (by omega)
              omega, Function.update_of_ne elsewhere.2, Function.update_of_ne elsewhere.1]

theorem alignRange_aligned (start size : Nat) : (alignRange start size).1 % 4096 = 0 := by
  unfold alignRange wordLimit
  by_cases unaligned : start % 4096 ≠ 0
  · simp only [unaligned, ne_eq, not_false_eq_true, if_true]
    omega
  · simp only [not_not.mp unaligned, ne_eq, not_true_eq_false, if_false]

/-- A range is initialised with every page free, in address order. -/
theorem initPages_stacked {range : PRange} (aligned : range.baseAddress % 4096 = 0)
    (fits : range.pages.stop ≤ 2 ^ 32) (adjacent : range.usedPages = range.freePages + range.pageCount)
    (full : range.freeCount = range.pageCount) (mem : Nat → Nat) :
    range.Stacked (initPages range.freePages range.usedPages range.pageCount 0
      range.baseAddress mem) := by
  obtain ⟨written, -⟩ := initPages_spec range.freePages range.usedPages range.pageCount 0
    range.baseAddress mem (by omega) fits
  have listed : range.freeList (initPages range.freePages range.usedPages range.pageCount 0
      range.baseAddress mem) = (List.range range.pageCount).map range.pageAt := by
    unfold PRange.freeList
    rw [full]
    exact List.map_congr_left fun slot member => (written slot (List.mem_range.mp member)).1
  have clear : ∀ index, index < range.pageCount → range.flags (initPages range.freePages
      range.usedPages range.pageCount 0 range.baseAddress mem) index = 0 :=
    fun index inRange => (written index inRange).2
  refine ⟨aligned, fits, adjacent, fun index inRange => ?_, ?_, fun page => ?_⟩
  · rw [clear index inRange]
    exact Or.inl rfl
  · rw [listed]
    exact List.Nodup.map (fun _ _ same => PRange.Stacked.pageAt_inj range same) List.nodup_range
  · rw [listed, List.mem_map]
    constructor
    · rintro ⟨index, inRange, rfl⟩
      have below := List.mem_range.mp inRange
      exact ⟨index, below, rfl, by rw [clear index below]⟩
    · rintro ⟨index, inRange, same, -⟩
      exact ⟨index, List.mem_range.mpr inRange, same.symm⟩

theorem initRanges_spec (ranges : List (Nat × Nat)) (pageHeaders : Nat) (mem : Nat → Nat)
    (fits : ∀ range ∈ (initRanges ranges pageHeaders mem).2, range.pages.stop ≤ 2 ^ 32) :
    (∀ range ∈ (initRanges ranges pageHeaders mem).2,
      range.Stacked (initRanges ranges pageHeaders mem).1 ∧
        pageHeaders ≤ range.region.start) ∧
      (initRanges ranges pageHeaders mem).2.Pairwise
        (fun one two => one.region.Disjoint two.region) ∧
      ∀ address, address < pageHeaders → (initRanges ranges pageHeaders mem).1 address =
        mem address := by
  induction ranges generalizing pageHeaders mem with
  | nil => exact ⟨by simp [initRanges], List.Pairwise.nil, fun _ _ => rfl⟩
  | cons available rest ih =>
      obtain ⟨start, size⟩ := available
      obtain ⟨range, rangeEq⟩ : ∃ range : PRange, range =
          { baseAddress := (alignRange start size).1, freePages := pageHeaders
            usedPages := pageHeaders + (alignRange start size).2
            freeCount := (alignRange start size).2, pageCount := (alignRange start size).2 } :=
        ⟨_, rfl⟩
      obtain ⟨written, writtenEq⟩ : ∃ written, written = initPages range.freePages range.usedPages
          range.pageCount 0 range.baseAddress mem := ⟨_, rfl⟩
      have headers : range.freePages = pageHeaders ∧
          range.usedPages = pageHeaders + range.pageCount := by
        rw [rangeEq]
        exact ⟨rfl, rfl⟩
      obtain ⟨next, nextEq⟩ : ∃ next, next = pageHeaders + range.pageCount + range.pageCount :=
        ⟨_, rfl⟩
      have unfolded : initRanges ((start, size) :: rest) pageHeaders mem =
          ((initRanges rest next written).1, range :: (initRanges rest next written).2) := by
        rw [nextEq, writtenEq, rangeEq]
        rfl
      rw [unfolded] at fits ⊢
      obtain ⟨others, apart, outside⟩ := ih next written
        fun other member => fits other (List.mem_cons_of_mem _ member)
      have rangeFits := fits range List.mem_cons_self
      have firstStacked : range.Stacked written := by
        rw [writtenEq]
        refine initPages_stacked ?_ rangeFits (by omega) (by rw [rangeEq]) mem
        rw [rangeEq]
        exact alignRange_aligned start size
      have kept := firstStacked.frame fun address inside => outside address (by
        simp only [PRange.region, Extent.Contains, Extent.stop_mk] at inside
        omega)
      refine ⟨fun other member => ?_, List.pairwise_cons.mpr ⟨fun other member => ?_, apart⟩, ?_⟩
      · rcases List.mem_cons.mp member with here | later
        · subst here
          exact ⟨kept.1, headers.1.symm.le⟩
        · exact ⟨(others other later).1, by have beyond := (others other later).2; omega⟩
      · refine Extent.disjoint_of_stop_le ?_
        have beyond := (others other member).2
        simp only [PRange.region, Extent.stop_mk] at beyond ⊢
        omega
      · intro address below
        simp only
        obtain ⟨-, unwritten⟩ := initPages_spec range.freePages range.usedPages range.pageCount 0
          range.baseAddress mem (by omega) rangeFits
        rw [outside address (by omega), writtenEq]
        exact unwritten address fun step stepBelow => by omega

theorem PRList.init_stacked {ranges : List (Nat × Nat)} {pageHeaders : Nat} {mem : Nat → Nat}
    (fits : ∀ range ∈ (PRList.init ranges pageHeaders mem).ranges, range.pages.stop ≤ 2 ^ 32)
    (disjoint : (PRList.init ranges pageHeaders mem).ranges.Pairwise
      (fun one two => one.pages.Disjoint two.pages)) :
    StackedRanges (PRList.init ranges pageHeaders mem).ranges
      (PRList.init ranges pageHeaders mem).mem := by
  obtain ⟨stacked, apart, -⟩ := initRanges_spec ranges pageHeaders mem fits
  exact ⟨fun range member => (stacked range member).1, apart.and disjoint⟩

end DoggOS.Mem

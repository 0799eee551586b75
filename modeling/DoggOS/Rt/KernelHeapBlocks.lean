/-
What `k_rt_Malloc` and `k_rt_Free` guarantee to their callers.

A layout names the chunk pages, the chunks and the large blocks behind the
allocations.  Each allocation lies in one page block, those of two large
allocations or of a large one and a chunk page are different, and chunks of one
page do not overlap.  The allocator writes in its chunk pages only, and there
only to link words of free chunks and to the chunk that is freed.
-/

import DoggOS.Rt.BigHeapBlocks
import DoggOS.Rt.KernelHeap
import DoggOS.Rt.SmallHeapFrames

namespace DoggOS.Rt

open Mem

/-- `k_rt_BigAlloc`, `k_rt_BigFree` and the page map serve as page blocks. -/
theorem HeapRun.refines_pages {start size : Nat} (positive : 0 < start) (starts : HeapRun → Prop)
    (sound : ∀ run, starts run → run.Sound start size) :
    (HeapRun.machine starts).Refines pageMachine (Shows start size) := by
  have refines := refines_blocks positive starts sound
  constructor
  · intro run initial
    obtain ⟨blocks, -, shows⟩ := refines.start run initial
    exact ⟨blocks, trivial, shows⟩
  · intro before blocks call after shows step
    obtain ⟨blocks', step', shows'⟩ := refines.step before blocks call after shows step
    refine ⟨blocks', ⟨step', fun block isAlloc => ?_⟩, shows'⟩
    subst isAlloc
    have member : block ∈ after.live := by
      rw [step.1]
      exact List.mem_cons_self
    obtain ⟨firstPage, lastPage⟩ := shows'.sound.nonempty member
    have last : block.Contains (block.stop - 1) := ⟨by omega, by omega⟩
    exact ⟨(shows'.sound.mapped block member _ ⟨firstPage, lastPage⟩).1, by
      have below := (shows'.sound.mapped block member _ last).2.1
      omega⟩

/-! ### Words -/

section Words

variable {pages after : CellHeap Nat Nat} {mem : Nat → Nat}

theorem HoldsWords.linear_eq (holds : HoldsWords pages mem) {address : Nat}
    (aligned : address % 4 = 0) : linear pages address = mem address := by
  unfold linear
  rw [holds _ _ (by omega)]
  congr 1
  omega

theorem contents_eq_linear {page index : Nat} (below : index < 1024) :
    pages.contents page index = linear pages (page * 4096 + 4 * index) := by
  unfold linear
  congr 1 <;> omega

theorem contains_page {start size address : Nat} (aligned : start % 4096 = 0)
    (inside : Extent.Contains ⟨start, size⟩ address) :
    Extent.Contains ⟨start / 4096, pageCount size⟩ (address / 4096) := by
  obtain ⟨after, before⟩ := inside
  simp only [Extent.stop] at after before
  have count := pageCount_eq size
  constructor
  · exact Nat.div_le_div_right after
  · simp only [Extent.stop, count]
    omega

end Words

/-! ### Layouts -/

structure Layout where
  carved : List (Nat × Nat)
  chunks : List LiveChunk
  large : List Extent
  lists : BucketKey → List Nat

def LiveChunk.request (chunk : LiveChunk) : Extent := ⟨chunk.address, chunk.size⟩

def chunkPageBlock (page : Nat × Nat) : Extent := ⟨page.1 / 4096, 1⟩

def largeBlock (block : Extent) : Extent := ⟨block.start / 4096, pageCount block.size⟩

namespace KernelHeap

def smallRun (heap : KernelHeap) (layout : Layout) : SmallRun :=
  ⟨heap.heaps, layout.carved, layout.chunks⟩

structure Laid (heap : KernelHeap) (layout : Layout) : Prop where
  small : (heap.smallRun layout).Carved layout.lists
  apart : heap.pages.blocks.Pairwise Extent.Disjoint
  bounds : ∀ block ∈ heap.pages.blocks, 0 < block.start ∧ block.stop ≤ 2 ^ 20
  chunkPages : ∀ page ∈ layout.carved, chunkPageBlock page ∈ heap.pages.blocks
  largePages : ∀ block ∈ layout.large, block.start % 4096 = 0 ∧ 2048 < block.size ∧
    largeBlock block ∈ heap.pages.blocks
  separate : ∀ page ∈ layout.carved, ∀ block ∈ layout.large, page.1 ≠ block.start
  given : ∀ block ∈ heap.live, (∃ chunk ∈ layout.chunks, block = chunk.request) ∨
    block ∈ layout.large
  distinct : heap.live.Pairwise fun one two => one.start ≠ two.start

namespace Laid

variable {heap : KernelHeap} {layout : Layout}

theorem disjoint_blocks (laid : heap.Laid layout) {one two : Extent}
    (oneIn : one ∈ heap.pages.blocks) (twoIn : two ∈ heap.pages.blocks)
    (different : one.start ≠ two.start) : one.Disjoint two := by
  have symmetric : Std.Symm Extent.Disjoint := ⟨fun _ _ disjoint => disjoint.symm⟩
  exact laid.apart.forall oneIn twoIn fun same => different (same ▸ rfl)

theorem off_chunkPage (laid : heap.Laid layout) {page : Nat × Nat} (inPages : page ∈ layout.carved)
    {address : Nat} (outside : ¬ (chunkPageBlock page).Contains (address / 4096)) :
    address < page.1 ∨ page.1 + 4096 ≤ address := by
  obtain ⟨aligned, -, -, -⟩ := laid.small.pageFits page inPages
  simp only [chunkPageBlock, Extent.Contains, Extent.stop] at outside
  omega

theorem carvedPages (laid : heap.Laid layout) (page : Nat × Nat) (inPages : page ∈ layout.carved) :
    chunkPageBlock page ∈ heap.pages.blocks ∧ ∀ large ∈ layout.large, page.1 ≠ large.start :=
  ⟨laid.chunkPages page inPages, laid.separate page inPages⟩

theorem chunk_inside (laid : heap.Laid layout) {chunk : LiveChunk}
    (member : chunk ∈ layout.chunks) :
    ∃ page ∈ layout.carved, CarvedAt page.1 page.2 chunk.address chunk.bucket ∧
      page.1 % 4096 = 0 ∧ page.1 < chunk.address ∧
      chunk.address + smallBucketSize chunk.bucket ≤ page.1 + 4096 ∧
      chunk.size ≤ smallBucketSize chunk.bucket := by
  obtain ⟨small, page, inPages, place⟩ := laid.small.owned chunk member
  obtain ⟨aligned, -, mainSmall, -⟩ := laid.small.pageFits page inPages
  obtain ⟨after, inside, -⟩ := place.inside mainSmall
  have sized := smallBucketSize_eq (place.bucket_le.trans_lt mainSmall)
  have positive : 0 < chunkSize chunk.bucket := Nat.two_pow_pos _
  have enough := (smallBucketIndexFromSize_spec small).2.1
  refine ⟨page, inPages, place, aligned, by omega, by omega, ?_⟩
  rw [sized]
  exact enough

theorem owner (laid : heap.Laid layout) {block : Extent} (member : block ∈ heap.live) :
    ∃ owner ∈ heap.pages.blocks,
      ∀ address, block.Contains address → owner.Contains (address / 4096) := by
  rcases laid.given block member with ⟨chunk, isChunk, rfl⟩ | large
  · obtain ⟨page, inPages, -, aligned, after, inside, fits⟩ := laid.chunk_inside isChunk
    refine ⟨_, laid.chunkPages page inPages, ?_⟩
    rintro address ⟨above, below⟩
    simp only [LiveChunk.request, Extent.stop] at above below
    simp only [chunkPageBlock, Extent.Contains, Extent.stop]
    omega
  · obtain ⟨aligned, -, owned⟩ := laid.largePages block large
    exact ⟨_, owned, fun address inside => contains_page aligned inside⟩

theorem large_outside (laid : heap.Laid layout) {block : Extent} (member : block ∈ layout.large)
    {address : Nat} (inside : block.Contains address) {page : Nat × Nat}
    (inPages : page ∈ layout.carved) : address < page.1 ∨ page.1 + 4096 ≤ address := by
  obtain ⟨aligned, -, owned⟩ := laid.largePages block member
  obtain ⟨pageAligned, -, -, -⟩ := laid.small.pageFits page inPages
  have different := laid.separate page inPages block member
  have apart := laid.disjoint_blocks (laid.chunkPages page inPages) owned
    (show page.1 / 4096 ≠ block.start / 4096 by omega)
  exact laid.off_chunkPage inPages fun within => apart _ ⟨within, contains_page aligned inside⟩

/-- The whole of a chunk is apart from the other allocations. -/
theorem chunk_apart (laid : heap.Laid layout) {chunk : LiveChunk} (isChunk : chunk ∈ layout.chunks)
    {other : Extent} (member : other ∈ heap.live) (different : chunk.address ≠ other.start) :
    chunk.extent.Disjoint other := by
  obtain ⟨page, inPages, place, -, after, inside, -⟩ := laid.chunk_inside isChunk
  rintro address ⟨inChunk, inOther⟩
  rcases laid.given other member with ⟨otherChunk, isOther, rfl⟩ | large
  · obtain ⟨otherPage, otherIn, otherPlace, -, -, -, fits⟩ := laid.chunk_inside isOther
    refine laid.small.disjoint inPages otherIn place otherPlace different address ⟨inChunk, ?_⟩
    exact ⟨inOther.1, lt_of_lt_of_le inOther.2 (Nat.add_le_add_left fits _)⟩
  · have outside := laid.large_outside large inOther inPages
    obtain ⟨above, below⟩ := inChunk
    simp only [LiveChunk.extent, Extent.stop] at above below
    omega

theorem request_contains (laid : heap.Laid layout) {chunk : LiveChunk}
    (isChunk : chunk ∈ layout.chunks) {address : Nat} (inside : chunk.request.Contains address) :
    chunk.extent.Contains address := by
  obtain ⟨-, -, -, -, -, -, fits⟩ := laid.chunk_inside isChunk
  exact ⟨inside.1, lt_of_lt_of_le inside.2 (Nat.add_le_add_left fits _)⟩

theorem disjoint (laid : heap.Laid layout) {one two : Extent} (oneIn : one ∈ heap.live)
    (twoIn : two ∈ heap.live) (different : one.start ≠ two.start) : one.Disjoint two := by
  rintro address ⟨inOne, inTwo⟩
  rcases laid.given one oneIn with ⟨chunk, isChunk, rfl⟩ | large
  · exact laid.chunk_apart isChunk twoIn different address
      ⟨laid.request_contains isChunk inOne, inTwo⟩
  · rcases laid.given two twoIn with ⟨other, isOther, rfl⟩ | otherLarge
    · exact laid.chunk_apart isOther oneIn different.symm address
        ⟨laid.request_contains isOther inTwo, inOne⟩
    · obtain ⟨aligned, -, owned⟩ := laid.largePages one large
      obtain ⟨otherAligned, -, otherOwned⟩ := laid.largePages two otherLarge
      have apart := laid.disjoint_blocks owned otherOwned
        (show one.start / 4096 ≠ two.start / 4096 by omega)
      exact apart (address / 4096)
        ⟨contains_page aligned inOne, contains_page otherAligned inTwo⟩

theorem writable (laid : heap.Laid layout) {block : Extent} (member : block ∈ heap.live)
    {address : Nat} (inside : block.Contains address) :
    (heap.smallRun layout).Writable address := by
  rcases laid.given block member with ⟨chunk, isChunk, rfl⟩ | large
  · exact Or.inl ⟨chunk, isChunk, laid.request_contains isChunk inside⟩
  · exact Or.inr fun page inPages => laid.large_outside large inside inPages

/-! ### Allocations -/

/-- A block from `k_rt_BigAlloc` leaves the words of the others. -/
theorem obtain (laid : heap.Laid layout) {block : Extent} {pages : CellHeap Nat Nat}
    (step : pageMachine.step heap.pages (.alloc block) pages) :
    Laid { heap with pages } layout ∧ pages.blocks = block :: heap.pages.blocks ∧
      (∀ other ∈ heap.pages.blocks, block.Disjoint other) ∧
      ∀ address, ¬ block.Contains (address / 4096) →
        linear pages address = linear heap.pages address := by
  obtain ⟨⟨blocks, apart, others⟩, inRange⟩ := step
  have words : ∀ address, ¬ block.Contains (address / 4096) →
      linear pages address = linear heap.pages address :=
    fun address outside => congrFun (others _ outside) _
  have grown : ∀ other ∈ heap.pages.blocks, other ∈ pages.blocks := by
    intro other member
    rw [blocks]
    exact List.mem_cons_of_mem _ member
  refine ⟨⟨?_, ?_, ?_, ?_, ?_, laid.separate, laid.given, laid.distinct⟩, blocks, apart, words⟩
  · refine laid.small.frame fun page inPages address above below _ => words address fun inside => ?_
    have disjoint := apart _ (laid.chunkPages page inPages) (address / 4096)
    have off := laid.off_chunkPage inPages fun within => disjoint ⟨inside, within⟩
    omega
  · rw [show ({ heap with pages } : KernelHeap).pages.blocks = _ from blocks]
    exact List.pairwise_cons.mpr ⟨apart, laid.apart⟩
  · intro other member
    rw [show ({ heap with pages } : KernelHeap).pages.blocks = _ from blocks] at member
    rcases List.mem_cons.mp member with here | old
    · exact here ▸ inRange block rfl
    · exact laid.bounds other old
  · exact fun page inPages => grown _ (laid.chunkPages page inPages)
  · intro other member
    obtain ⟨aligned, large, owned⟩ := laid.largePages other member
    exact ⟨aligned, large, grown _ owned⟩

theorem fresh_start (laid : heap.Laid layout) {block : Extent} (some : 0 < block.size)
    (apart : ∀ other ∈ heap.pages.blocks, block.Disjoint other) :
    (∀ page ∈ layout.carved, page.1 ≠ block.start * 4096) ∧
      ∀ large ∈ layout.large, large.start ≠ block.start * 4096 := by
  have here : block.Contains block.start := ⟨le_rfl, Nat.lt_add_of_pos_right some⟩
  constructor
  · intro page inPages same
    refine apart _ (laid.chunkPages page inPages) block.start ⟨here, ?_⟩
    simp only [chunkPageBlock, Extent.Contains, Extent.stop]
    omega
  · intro large inLarge same
    obtain ⟨-, sized, owned⟩ := laid.largePages large inLarge
    have pages := pageCount_pos (show 0 < large.size by omega)
    refine apart _ owned block.start ⟨here, ?_⟩
    simp only [largeBlock, Extent.Contains, Extent.stop]
    omega

end Laid

theorem dispatchesSmallFree_iff (memory : Nat) :
    dispatchesSmallFree memory ↔ memory % 4096 ≠ 0 := by
  unfold dispatchesSmallFree
  rw [show (0xfff : Nat) = 2 ^ 12 - 1 from rfl, Bits.and_low]
  exact Iff.rfl

section Lefts

variable {heap after : KernelHeap} {layout : Layout} {pages : CellHeap Nat Nat}
  {heaps : SmallHeaps}

theorem Left.mem (left : after.Left pages heaps) {address : Nat} (aligned : address % 4 = 0) :
    after.heaps.mem address = heaps.mem address :=
  left.words.linear_eq aligned

theorem Left.carved (left : after.Left pages heaps) {carved : List (Nat × Nat)}
    {chunks : List LiveChunk} {lists : BucketKey → List Nat}
    (holds : SmallRun.Carved ⟨heaps, carved, chunks⟩ lists) :
    SmallRun.Carved ⟨after.heaps, carved, chunks⟩ lists := by
  have framed : SmallRun.Carved ⟨{ heaps with mem := after.heaps.mem }, carved, chunks⟩ lists :=
    holds.frame fun _ _ _ _ _ aligned => left.mem aligned
  unfold KernelHeap.heaps heapsOver at framed ⊢
  rw [left.firstChunk, left.lastChunk]
  exact framed

namespace Laid

/-- Every address of a chunk is off the page boundaries. -/
theorem chunk_offset (laid : heap.Laid layout) {chunk : LiveChunk}
    (member : chunk ∈ layout.chunks) : chunk.address % 4096 ≠ 0 :=
  (laid.small.isChunkAddress member).2

/-- The page blocks are as they were; what is left concerns the chunks and the allocations. -/
theorem sameBlocks (laid : heap.Laid layout) (blocks : after.pages.blocks = heap.pages.blocks)
    {carved : List (Nat × Nat)} {chunks : List LiveChunk} {lists : BucketKey → List Nat}
    (small : SmallRun.Carved ⟨after.heaps, carved, chunks⟩ lists)
    (pages : ∀ page ∈ carved, chunkPageBlock page ∈ heap.pages.blocks ∧
      ∀ large ∈ layout.large, page.1 ≠ large.start)
    (given : ∀ block ∈ after.live, (∃ chunk ∈ chunks, block = chunk.request) ∨
      block ∈ layout.large)
    (distinct : after.live.Pairwise fun one two => one.start ≠ two.start) :
    after.Laid ⟨carved, chunks, layout.large, lists⟩ := by
  refine ⟨small, ?_, ?_, ?_, ?_, fun page inPages => (pages page inPages).2, given, distinct⟩
  · rw [blocks]
    exact laid.apart
  · rw [blocks]
    exact laid.bounds
  · intro page inPages
    rw [blocks]
    exact (pages page inPages).1
  · rw [blocks]
    exact laid.largePages

theorem give (laid : heap.Laid layout) (left : after.Left heap.pages heaps)
    {carved : List (Nat × Nat)} {lists : BucketKey → List Nat} {address size : Nat}
    (small : SmallRun.Carved ⟨heaps, carved, ⟨address, size⟩ :: layout.chunks⟩ lists)
    (pages : ∀ page ∈ carved, chunkPageBlock page ∈ heap.pages.blocks ∧
      ∀ large ∈ layout.large, page.1 ≠ large.start)
    (live : after.live = ⟨address, size⟩ :: heap.live) :
    after.Laid ⟨carved, ⟨address, size⟩ :: layout.chunks, layout.large, lists⟩ := by
  have offset : address % 4096 ≠ 0 := (small.isChunkAddress List.mem_cons_self).2
  refine laid.sameBlocks left.blocks (left.carved small) pages ?_ ?_
  · intro block member
    rw [live] at member
    rcases List.mem_cons.mp member with here | old
    · exact Or.inl ⟨_, List.mem_cons_self, here⟩
    · rcases laid.given block old with ⟨chunk, isChunk, same⟩ | large
      · exact Or.inl ⟨chunk, List.mem_cons_of_mem _ isChunk, same⟩
      · exact Or.inr large
  · rw [live]
    refine List.pairwise_cons.mpr ⟨fun block member same => ?_, laid.distinct⟩
    rcases laid.given block member with ⟨chunk, isChunk, isBlock⟩ | large
    · rw [isBlock] at same
      exact (List.pairwise_cons.mp small.distinct).1 chunk isChunk same
    · have aligned := (laid.largePages block large).1
      have isStart : address = block.start := same
      exact offset (isStart ▸ aligned)

theorem giveLarge (laid : heap.Laid layout) {start size : Nat}
    (step : pageMachine.step heap.pages (.alloc ⟨start, pageCount size⟩) pages)
    (large : 2048 < size) (left : after.Left pages (heap.heapsOver pages))
    (live : after.live = ⟨start * 4096, size⟩ :: heap.live) :
    after.Laid { layout with large := ⟨start * 4096, size⟩ :: layout.large } := by
  obtain ⟨middle, blocks, apart, -⟩ := laid.obtain step
  have sized := pageCount_pos (show 0 < size by omega)
  obtain ⟨offPages, offLarge⟩ := laid.fresh_start sized apart
  refine ⟨left.carved middle.small, ?_, ?_, ?_, ?_, ?_, ?_, ?_⟩
  · rw [left.blocks]
    exact middle.apart
  · rw [left.blocks]
    exact middle.bounds
  · rw [left.blocks]
    exact middle.chunkPages
  · intro block member
    rw [left.blocks]
    rcases List.mem_cons.mp member with here | old
    · subst here
      refine ⟨Nat.mul_mod_left _ _, large, ?_⟩
      rw [blocks]
      unfold largeBlock
      rw [Nat.mul_div_cancel _ (by omega)]
      exact List.mem_cons_self
    · exact middle.largePages block old
  · intro page inPages block member
    rcases List.mem_cons.mp member with here | old
    · exact here ▸ offPages page inPages
    · exact laid.separate page inPages block old
  · intro block member
    rw [live] at member
    rcases List.mem_cons.mp member with here | old
    · exact Or.inr (here ▸ List.mem_cons_self)
    · exact (laid.given block old).imp_right (List.mem_cons_of_mem _)
  · rw [live]
    refine List.pairwise_cons.mpr ⟨fun block member same => ?_, laid.distinct⟩
    rcases laid.given block member with ⟨chunk, isChunk, isBlock⟩ | isLarge
    · have isStart : start * 4096 = chunk.address := by rw [isBlock] at same; exact same
      exact laid.chunk_offset isChunk (isStart ▸ Nat.mul_mod_left _ _)
    · exact offLarge block isLarge same.symm

/-- The address is in no block that `k_rt_BigAlloc` just handed out. -/
def NotFresh (before after : CellHeap Nat Nat) (address : Nat) : Prop :=
  ∀ block ∈ after.blocks, block.Contains (address / 4096) → block ∈ before.blocks

theorem obtained (laid : heap.Laid layout) {memory : Nat} {request : Option Nat}
    (asks : request ≠ some 0) (obtains : Obtains heap.pages memory pages request) :
    Laid { heap with pages } layout ∧ (∀ block ∈ heap.pages.blocks, block ∈ pages.blocks) ∧
      ∀ address, NotFresh heap.pages pages address →
        linear pages address = linear heap.pages address := by
  cases request with
  | none =>
      cases obtains
      exact ⟨laid, fun _ member => member, fun _ _ => rfl⟩
  | some bytes =>
      obtain ⟨page, -, step⟩ := obtains
      obtain ⟨middle, blocks, apart, words⟩ := laid.obtain step
      refine ⟨middle, fun block member => ?_, fun address old => words address fun inside => ?_⟩
      · rw [blocks]
        exact List.mem_cons_of_mem _ member
      · have listed : (⟨page, pageCount bytes⟩ : Extent) ∈ pages.blocks := by
          rw [blocks]
          exact List.mem_cons_self
        exact apart _ (old _ listed inside) _ ⟨inside, inside⟩

/-- A request of at most 2048 bytes gets a chunk, from a list or from a page carved for it. -/
theorem serveSmall (laid : heap.Laid layout) {thread size memory : Nat} (positive : 0 < size)
    (small : size ≤ 2048)
    (obtains : Obtains heap.pages memory pages (bigRequest heap.heaps thread size)) :
    Laid { heap with pages } layout ∧
      ∃ address heaps carved lists,
        malloc (heap.heapsOver pages) thread size memory = some (address, heaps) ∧
        SmallRun.Carved ⟨heaps, carved, ⟨address, size⟩ :: layout.chunks⟩ lists ∧
        (∀ page ∈ carved, chunkPageBlock page ∈ pages.blocks ∧
          ∀ large ∈ layout.large, page.1 ≠ large.start) ∧
        ∀ other, (heap.smallRun layout).Writable other → NotFresh heap.pages pages other →
          heaps.mem other = heap.heaps.mem other := by
  have asked : malloc (heap.heapsOver pages) thread size memory =
      smallAlloc (heap.heapsOver pages) thread size memory := by
    unfold malloc
    rw [if_neg (by omega), if_neg (by omega)]
  rw [asked]
  unfold bigRequest at obtains
  rw [if_neg (by omega), if_neg (by omega)] at obtains
  by_cases empty : heap.firstChunk (thread, smallBucketIndexFromSize size) = 0
  · rw [if_pos (show heap.heaps.firstChunk _ = 0 from empty)] at obtains
    obtain ⟨page, rfl, step⟩ := obtains
    obtain ⟨middle, blocks, apart, words⟩ := laid.obtain step
    obtain ⟨offPages, offLarge⟩ := laid.fresh_start (pageCount_pos (by omega)) apart
    have inRange := step.2 _ rfl
    have onePage : pageCount 4096 = 1 := by decide
    rw [onePage, Extent.stop_mk] at inRange
    rw [onePage] at blocks apart words
    have fresh : (KernelHeap.smallRun { heap with pages } layout).FreshPage (page * 4096) :=
      ⟨by simp only at inRange; omega, Nat.mul_mod_left _ _, by omega, offPages⟩
    obtain ⟨address, heaps, lists, ran, carved, keeps⟩ :=
      middle.small.allocCarved thread small fresh empty
    have grown : ∀ other ∈ heap.pages.blocks, other ∈ pages.blocks := by
      intro other member
      rw [blocks]
      exact List.mem_cons_of_mem _ member
    refine ⟨middle, address, heaps, _, lists, ran, carved, ?_, fun other writable old => ?_⟩
    · intro carvedPage member
      rcases List.mem_cons.mp member with here | before
      · subst here
        refine ⟨?_, fun large isLarge same => offLarge large isLarge same.symm⟩
        unfold chunkPageBlock
        rw [Nat.mul_div_cancel _ (by omega), blocks]
        exact List.mem_cons_self
      · exact ⟨grown _ (laid.chunkPages carvedPage before), laid.separate carvedPage before⟩
    · have outside : ¬ Extent.Contains ⟨page, 1⟩ (other / 4096) := by
        intro inside
        have listed : (⟨page, 1⟩ : Extent) ∈ pages.blocks := by
          rw [blocks]
          exact List.mem_cons_self
        exact apart _ (old _ listed inside) _ ⟨inside, inside⟩
      rw [keeps other writable ?_]
      · exact words other outside
      · simp only [Extent.Contains, Extent.stop] at outside
        omega
  · rw [if_neg (show ¬ heap.heaps.firstChunk _ = 0 from empty)] at obtains
    cases obtains
    obtain ⟨address, heaps, lists, ran, carved, keeps⟩ :=
      laid.small.allocListed thread memory small empty
    exact ⟨laid, address, heaps, _, lists, ran, carved, laid.carvedPages,
      fun other writable _ => keeps other writable⟩

end Laid

end Lefts

/-! ### The big heap behind the calls -/

section BigHeap

variable {start size : Nat} {before after : HeapRun} {heap : KernelHeap}

/-- A block of `k_rt_BigAlloc` serves a request for as many pages. -/
theorem obtains_bigAlloc (shows : HeapRun.Shows start size before heap.pages) (positive : 0 < start)
    {starts : HeapRun → Prop} {page bytes : Nat}
    (step : (HeapRun.machine starts).step before (.alloc ⟨page, pageCount bytes⟩) after) :
    ∃ pages, Obtains heap.pages (page * 4096) pages (some bytes) ∧
      HeapRun.Shows start size after pages := by
  have refines := HeapRun.refines_pages positive (fun run => run = before)
    fun _ same => same.symm ▸ shows.sound
  obtain ⟨pages, obtained, shows'⟩ := refines.step _ _ _ _ shows step
  exact ⟨pages, ⟨page, rfl, obtained⟩, shows'⟩

/-- So `k_rt_Malloc` on it hands out a large block. -/
theorem mallocs_bigAlloc (shows : HeapRun.Shows start size before heap.pages) (positive : 0 < start)
    {starts : HeapRun → Prop} {page bytes : Nat} (large : 2048 < bytes) (thread : Nat)
    (step : (HeapRun.machine starts).step before (.alloc ⟨page, pageCount bytes⟩) after) :
    ∃ heap', heap.Mallocs thread bytes (page * 4096) heap' ∧
      HeapRun.Shows start size after heap'.pages := by
  obtain ⟨pages, obtains, shows'⟩ := obtains_bigAlloc shows positive step
  have some : bytes ≠ 0 := by omega
  refine ⟨{ heap with pages }, ⟨page * 4096, pages, heap.heapsOver pages, ?_, ?_, ?_⟩, shows'⟩
  · unfold bigRequest
    rw [if_neg some, if_pos large]
    exact obtains
  · unfold Rt.malloc
    rw [if_neg some, if_pos large]
  · exact ⟨rfl, fun _ _ below => contents_eq_linear below, rfl, rfl⟩

/-- And `k_rt_Free` gives it back to `k_rt_BigFree`. -/
theorem frees_bigFree (shows : HeapRun.Shows start size before heap.pages) (positive : 0 < start)
    {starts : HeapRun → Prop} {page : Nat} (thread : Nat)
    (step : (HeapRun.machine starts).step before (.free page) after) :
    ∃ heap', heap.Frees thread (page * 4096) heap' ∧
      HeapRun.Shows start size after heap'.pages := by
  have refines := HeapRun.refines_pages positive (fun run => run = before)
    fun _ same => same.symm ▸ shows.sound
  obtain ⟨pages, freed, shows'⟩ := refines.step _ _ _ _ shows step
  have boundary : ¬ dispatchesSmallFree (page * 4096) := by
    rw [dispatchesSmallFree_iff]
    omega
  refine ⟨{ heap with pages }, ⟨fun small => absurd small boundary, fun _ => ⟨?_, rfl, rfl⟩⟩, shows'⟩
  rw [Nat.mul_div_cancel _ (by decide)]
  exact freed

/-- The kernel heap may start on what any run of the big heap left. -/
theorem empty_over (shows : HeapRun.Shows start size before heap.pages)
    (buckets : ∀ bucket, heap.firstChunk bucket = 0 ∧ heap.lastChunk bucket = 0)
    (live : heap.live = []) : heap.Empty := by
  refine ⟨?_, fun block member => ?_, buckets, live⟩
  · rw [shows.same]
    exact shows.sound.disjoint
  · rw [shows.same] at member
    obtain ⟨firstPage, lastPage⟩ := shows.sound.nonempty member
    have first := shows.sound.mapped block member _ ⟨firstPage, lastPage⟩
    have last := shows.sound.mapped block member (block.stop - 1) ⟨by omega, by omega⟩
    exact ⟨first.1, by omega⟩

end BigHeap

/-! ### Calls -/

def KeepsLive (before after : KernelHeap) (kept : Extent → Prop) : Prop :=
  ∀ block ∈ before.live, kept block → ∀ address, block.Contains address → address % 4 = 0 →
    after.heaps.mem address = before.heaps.mem address

/-- Words outside of the page blocks are not the allocator's. -/
def Confined (before after : KernelHeap) : Prop :=
  ∀ page index, index < 1024 → (∀ block ∈ after.pages.blocks, ¬ block.Contains page) →
    after.pages.contents page index = before.pages.contents page index

namespace Laid

variable {before after : KernelHeap} {layout : Layout} {thread size address memory : Nat}

theorem frames (laid : before.Laid layout) {pages : CellHeap Nat Nat}
    (middle : Laid { before with pages } layout)
    (grown : ∀ block ∈ before.pages.blocks, block ∈ pages.blocks)
    (blocks : after.pages.blocks = pages.blocks)
    (keeps : ∀ other, (before.smallRun layout).Writable other → NotFresh before.pages pages other →
      other % 4 = 0 → after.heaps.mem other = before.heaps.mem other) :
    KeepsLive before after (fun _ => True) ∧ Confined before after := by
  constructor
  · intro block member _ other inside aligned
    obtain ⟨owner, owned, covers⟩ := laid.owner member
    refine keeps other (laid.writable member inside) (fun fresh isBlock contains => ?_) aligned
    by_cases same : fresh = owner
    · exact same ▸ owned
    · have symmetric : Std.Symm Extent.Disjoint := ⟨fun _ _ disjoint => disjoint.symm⟩
      have apart := middle.apart.forall isBlock (grown owner owned) same
      exact absurd ⟨contains, covers other inside⟩ (apart _)
  · intro place index below outside
    have here : (place * 4096 + 4 * index) / 4096 = place := by omega
    rw [contents_eq_linear below, contents_eq_linear below]
    refine keeps _ (Or.inr fun page inPages => ?_) (fun fresh isBlock contains => ?_) (by omega)
    · refine laid.off_chunkPage inPages ?_
      rw [here]
      exact outside _ (blocks ▸ grown _ (laid.chunkPages page inPages))
    · rw [here] at contains
      exact absurd contains (outside fresh (blocks ▸ isBlock))

theorem malloc (laid : before.Laid layout) (positive : 0 < size)
    (mallocs : before.Mallocs thread size address after)
    (live : after.live = ⟨address, size⟩ :: before.live) :
    (∃ layout', after.Laid layout') ∧ KeepsLive before after (fun _ => True) ∧
      Confined before after := by
  obtain ⟨memory, pages, heaps, obtains, ran, left⟩ := mallocs
  have asks : bigRequest before.heaps thread size ≠ some 0 := by
    unfold bigRequest
    split_ifs <;> simp
    omega
  obtain ⟨middle, grown, words⟩ := laid.obtained asks obtains
  by_cases large : 2048 < size
  · unfold Rt.malloc at ran
    rw [if_neg (by omega), if_pos large] at ran
    cases ran
    unfold bigRequest at obtains
    rw [if_neg (by omega), if_pos large] at obtains
    obtain ⟨page, rfl, step⟩ := obtains
    refine ⟨⟨_, laid.giveLarge step large left live⟩, laid.frames middle grown left.blocks ?_⟩
    intro other _ old aligned
    rw [left.mem aligned]
    exact words other old
  · obtain ⟨-, address', heaps', carved, lists, ran', small, inBlocks, keeps⟩ :=
      laid.serveSmall positive (Nat.le_of_not_lt large) obtains
    rw [ran, Option.some_inj, Prod.mk.injEq] at ran'
    obtain ⟨rfl, rfl⟩ := ran'
    refine ⟨⟨_, middle.give left small inBlocks live⟩, laid.frames middle grown left.blocks ?_⟩
    intro other writable old aligned
    rw [left.mem aligned]
    exact keeps other writable old

theorem remains (laid : before.Laid layout) {start : Nat}
    (live : after.live = before.live.filter fun other => decide (other.start ≠ start)) :
    (∀ other ∈ after.live, other ∈ before.live ∧ other.start ≠ start) ∧
      after.live.Pairwise fun one two => one.start ≠ two.start := by
  rw [live]
  refine ⟨fun other isLive => ?_, laid.distinct.filter _⟩
  obtain ⟨old, different⟩ := List.mem_filter.mp isLive
  exact ⟨old, of_decide_eq_true different⟩

theorem freeChunk (laid : before.Laid layout) {chunk : LiveChunk} (isChunk : chunk ∈ layout.chunks)
    (left : after.Left before.pages (smallFree before.heaps thread chunk.address))
    (live : after.live = before.live.filter fun other => decide (other.start ≠ chunk.address)) :
    (∃ layout', after.Laid layout') ∧
      KeepsLive before after (fun other => other.start ≠ chunk.address) ∧
      Confined before after := by
  obtain ⟨stays, distinct⟩ := laid.remains live
  have keeps : ∀ other, (before.smallRun layout).Writable other →
      ¬ chunk.extent.Contains other → other % 4 = 0 →
        after.heaps.mem other = before.heaps.mem other := by
    intro other writable away aligned
    rw [left.mem aligned]
    exact laid.small.free_keeps thread isChunk writable away
  refine ⟨⟨_, laid.sameBlocks left.blocks (left.carved (laid.small.free thread isChunk))
    laid.carvedPages ?_ distinct⟩, ?_, ?_⟩
  · intro other isLive
    obtain ⟨old, different⟩ := stays other isLive
    rcases laid.given other old with ⟨otherChunk, isOther, same⟩ | isLarge
    · refine Or.inl ⟨otherChunk, List.mem_filter.mpr ⟨isOther, decide_eq_true ?_⟩, same⟩
      rw [same] at different
      exact different
    · exact Or.inr isLarge
  · intro other isLive different address inside aligned
    refine keeps address (laid.writable isLive inside) (fun inChunk => ?_) aligned
    exact laid.chunk_apart isChunk isLive (Ne.symm different) address ⟨inChunk, inside⟩
  · intro place index below outside
    rw [contents_eq_linear below, contents_eq_linear below]
    have offPages : ∀ page ∈ layout.carved, place * 4096 + 4 * index < page.1 ∨
        page.1 + 4096 ≤ place * 4096 + 4 * index := by
      intro page inPages
      refine laid.off_chunkPage inPages ?_
      rw [show (place * 4096 + 4 * index) / 4096 = place by omega]
      exact outside _ (left.blocks ▸ laid.chunkPages page inPages)
    refine keeps _ (Or.inr offPages) (fun inChunk => ?_) (by omega)
    obtain ⟨page, inPages, -, -, above, inside, -⟩ := laid.chunk_inside isChunk
    have away := offPages page inPages
    obtain ⟨first, last⟩ := inChunk
    simp only [LiveChunk.extent, Extent.stop] at first last
    omega

/-- A large block goes back to `k_rt_BigFree`, which changes no word. -/
theorem freeLarge (laid : before.Laid layout) {block : Extent} (large : block ∈ layout.large)
    (step : pageMachine.step before.pages (.free (block.start / 4096)) after.pages)
    (isFirst : after.firstChunk = before.firstChunk) (isLast : after.lastChunk = before.lastChunk)
    (live : after.live = before.live.filter fun other => decide (other.start ≠ block.start)) :
    (∃ layout', after.Laid layout') ∧
      KeepsLive before after (fun other => other.start ≠ block.start) ∧
      Confined before after := by
  obtain ⟨stays, distinct⟩ := laid.remains live
  obtain ⟨aligned, -, -⟩ := laid.largePages block large
  obtain ⟨⟨blocks, -, contents⟩, -⟩ := step
  have heaps : after.heaps = before.heaps := by
    unfold KernelHeap.heaps heapsOver linear
    rw [contents, isFirst, isLast]
  have kept : ∀ other ∈ before.pages.blocks, other.start ≠ block.start / 4096 →
      other ∈ after.pages.blocks := by
    intro other owned different
    rw [blocks]
    exact List.mem_filter.mpr ⟨owned, decide_eq_true different⟩
  have old : ∀ other ∈ after.pages.blocks, other ∈ before.pages.blocks := by
    intro other owned
    rw [blocks] at owned
    exact List.mem_of_mem_filter owned
  refine ⟨⟨{ layout with
    large := layout.large.filter fun other => decide (other.start ≠ block.start) },
    ?_, ?_, fun other owned => laid.bounds other (old other owned), ?_, ?_, ?_, ?_, distinct⟩,
    ?_, ?_⟩
  · unfold smallRun
    rw [heaps]
    exact laid.small
  · rw [blocks]
    exact laid.apart.filter _
  · intro page inPages
    refine kept _ (laid.chunkPages page inPages) ?_
    obtain ⟨pageAligned, -, -, -⟩ := laid.small.pageFits page inPages
    have different := laid.separate page inPages block large
    simp only [chunkPageBlock]
    omega
  · intro other isLarge
    obtain ⟨wasLarge, different⟩ := List.mem_filter.mp isLarge
    have apart := of_decide_eq_true different
    obtain ⟨otherAligned, sized, owned⟩ := laid.largePages other wasLarge
    refine ⟨otherAligned, sized, kept _ owned ?_⟩
    simp only [largeBlock]
    omega
  · exact fun page inPages other isLarge =>
      laid.separate page inPages other (List.mem_of_mem_filter isLarge)
  · intro other isLive
    obtain ⟨was, different⟩ := stays other isLive
    refine (laid.given other was).imp id fun isLarge => ?_
    exact List.mem_filter.mpr ⟨isLarge, decide_eq_true different⟩
  · intro other _ _ address _ _
    rw [heaps]
  · intro place index _ _
    rw [contents]

theorem free (laid : before.Laid layout) {block : Extent} (member : block ∈ before.live)
    (frees : before.Frees thread block.start after)
    (live : after.live = before.live.filter fun other => decide (other.start ≠ block.start)) :
    (∃ layout', after.Laid layout') ∧
      KeepsLive before after (fun other => other.start ≠ block.start) ∧
      Confined before after := by
  rcases laid.given block member with ⟨chunk, isChunk, rfl⟩ | large
  · have offset := laid.chunk_offset isChunk
    exact laid.freeChunk isChunk (frees.1 ((dispatchesSmallFree_iff _).mpr offset)) live
  · obtain ⟨aligned, -, -⟩ := laid.largePages block large
    obtain ⟨step, isFirst, isLast⟩ :=
      frees.2 fun small => (dispatchesSmallFree_iff _).mp small aligned
    exact laid.freeLarge large step isFirst isLast live

theorem write (laid : before.Laid layout) {value : Nat} (word : before.HasWord address)
    (step : pageMachine.step before.pages (.write (address / 4096) (address % 4096 / 4) value)
      after.pages)
    (isFirst : after.firstChunk = before.firstChunk) (isLast : after.lastChunk = before.lastChunk)
    (live : after.live = before.live) :
    after.Laid layout ∧ Confined before after ∧ ∀ other, other % 4 = 0 →
      after.heaps.mem other = if other = address then value else before.heaps.mem other := by
  obtain ⟨aligned, block, member, inside, -⟩ := word
  obtain ⟨⟨blocks, ⟨owner, owned, covers⟩, contents⟩, -⟩ := step
  have isBlocks : after.pages.blocks = before.pages.blocks := blocks
  have mem : ∀ other, other % 4 = 0 →
      after.heaps.mem other = if other = address then value else before.heaps.mem other := by
    intro other otherAligned
    have stored : after.heaps.mem other = CellHeap.store before.pages.contents (address / 4096)
        (address % 4096 / 4) value (other / 4096) (other % 4096 / 4) := by
      unfold KernelHeap.heaps heapsOver linear
      rw [contents]
    rw [stored]
    unfold CellHeap.store
    by_cases here : other = address
    · rw [if_pos here, if_pos (by rw [here]; exact ⟨rfl, rfl⟩)]
    · rw [if_neg here, if_neg (by omega)]
      rfl
  have carved := (laid.small.write value (laid.writable member inside)).frame
    (fun _ _ other _ _ otherAligned => show after.heaps.mem other = _ by
      rw [mem other otherAligned]
      unfold SmallRun.write
      simp only [Function.update_apply]
      rfl)
  refine ⟨laid.sameBlocks isBlocks ?_ laid.carvedPages ?_ ?_, fun page index _ outside => ?_, mem⟩
  · unfold KernelHeap.heaps heapsOver
    rw [isFirst, isLast]
    exact carved
  · rw [live]
    exact laid.given
  · rw [live]
    exact laid.distinct
  · rw [contents]
    unfold CellHeap.store
    rw [if_neg]
    rintro ⟨here, -⟩
    exact outside owner (isBlocks ▸ owned) (here ▸ covers)

end Laid

/-! ### Runs -/

structure Shows (heap : KernelHeap) (bytes : CellHeap Unit Nat) : Prop where
  laid : ∃ layout, heap.Laid layout
  same : bytes.blocks = heap.live
  words : ∀ address, address % 4 = 0 → (∃ block ∈ heap.live, block.Contains address) →
    heap.heaps.mem address = bytes.contents address ()

/-- Every call works, and the allocator touches nothing but its page blocks. -/
structure Serves (heap : KernelHeap) : Prop where
  allocates : ∀ thread size memory pages, 0 < size →
    Obtains heap.pages memory pages (bigRequest heap.heaps thread size) →
      ∃ address heaps, Rt.malloc (heap.heapsOver pages) thread size memory = some (address, heaps) ∧
        address ≠ 0 ∧ address % 8 = 0
  frees : ∀ block ∈ heap.live, (dispatchesSmallFree block.start ↔ block.size ≤ 2048) ∧
    (2048 < block.size →
      ∃ pages, pageMachine.step heap.pages (.free (block.start / 4096)) pages)
  accesses : ∀ address, heap.HasWord address →
    ∃ block ∈ heap.pages.blocks, block.Contains (address / 4096)
  confined : ∀ starts call after, (machine starts).step heap call after → heap.Confined after

theorem Laid.serves {heap : KernelHeap} {layout : Layout} (laid : heap.Laid layout) :
    heap.Serves := by
  constructor
  · intro thread size memory pages positive obtains
    by_cases large : 2048 < size
    · refine ⟨memory, heap.heapsOver pages, ?_, ?_⟩
      · unfold Rt.malloc
        rw [if_neg (by omega), if_pos large]
      · unfold bigRequest at obtains
        rw [if_neg (by omega), if_pos large] at obtains
        obtain ⟨page, rfl, step⟩ := obtains
        have nonNull := (step.2 _ rfl).1
        simp only at nonNull
        omega
    · obtain ⟨-, address, heaps, carved, lists, ran, small, -, -⟩ :=
        laid.serveSmall positive (Nat.le_of_not_lt large) obtains
      have place : IsChunkAddress address := small.isChunkAddress List.mem_cons_self
      unfold IsChunkAddress at place
      exact ⟨address, heaps, ran, by omega, place.1⟩
  · intro block member
    rw [dispatchesSmallFree_iff]
    rcases laid.given block member with ⟨chunk, isChunk, rfl⟩ | large
    · have offset := laid.chunk_offset isChunk
      have sized := (laid.small.owned chunk isChunk).1
      exact ⟨iff_of_true offset sized, fun larger => absurd sized (Nat.not_le_of_lt larger)⟩
    · obtain ⟨aligned, sized, owned⟩ := laid.largePages block large
      refine ⟨iff_of_false (fun offset => offset aligned) (Nat.not_le_of_lt sized), fun _ => ?_⟩
      exact ⟨⟨CellHeap.owned heap.pages.blocks (.free (block.start / 4096) : CellCall Nat Nat),
        heap.pages.contents⟩, ⟨rfl, ⟨_, owned, rfl⟩, rfl⟩, nofun⟩
  · rintro address ⟨-, block, member, inside, -⟩
    obtain ⟨owner, owned, covers⟩ := laid.owner member
    exact ⟨owner, owned, covers address inside⟩
  · intro starts call after step
    obtain ⟨live, made⟩ := step
    cases call with
    | alloc block =>
        obtain ⟨positive, thread, mallocs⟩ := made
        exact (laid.malloc positive mallocs live).2.2
    | free memory =>
        obtain ⟨⟨block, member, rfl⟩, thread, frees⟩ := made
        exact (laid.free member frees live).2.2
    | read address index value =>
        obtain ⟨-, ⟨⟨-, -, -, contents⟩, -⟩, -, -⟩ := made
        intro page index _ _
        rw [contents]
    | write address index value =>
        obtain ⟨word, step, isFirst, isLast⟩ := made
        exact (laid.write word step isFirst isLast live).2.1

section Steps

variable {before after : KernelHeap} {bytes : CellHeap Unit Nat}

theorem Shows.alloc (shows : Shows before bytes) {block : Extent} {thread : Nat}
    (positive : 0 < block.size) (mallocs : before.Mallocs thread block.size block.start after)
    (live : after.live = block :: before.live) :
    ∃ bytes', (CellHeap.machine fun _ => True).step bytes (.alloc block) bytes' ∧
      Shows after bytes' := by
  obtain ⟨layout, laid⟩ := shows.laid
  obtain ⟨⟨layout', laid'⟩, keeps, -⟩ := laid.malloc positive mallocs live
  have apart : ∀ other ∈ before.live, block.Disjoint other := by
    intro other member
    have distinct := laid'.distinct
    rw [live] at distinct
    refine laid'.disjoint (live ▸ List.mem_cons_self) (live ▸ List.mem_cons_of_mem _ member) ?_
    exact (List.pairwise_cons.mp distinct).1 other member
  refine ⟨⟨block :: bytes.blocks, fun place index =>
    if block.Contains place then after.heaps.mem place else bytes.contents place index⟩,
    ⟨rfl, ?_, fun place outside => ?_⟩, ⟨layout', laid'⟩, ?_, ?_⟩
  · rw [shows.same]
    exact apart
  · funext index
    exact if_neg outside
  · rw [live, ← shows.same]
  · rintro address aligned ⟨other, member, inside⟩
    by_cases here : block.Contains address
    · exact (if_pos here).symm
    · rw [live] at member
      rcases List.mem_cons.mp member with same | old
      · exact absurd (same ▸ inside) here
      · refine Eq.trans ?_ (if_neg here).symm
        rw [← shows.words address aligned ⟨other, old, inside⟩]
        exact keeps other old trivial address inside aligned

theorem Shows.free (shows : Shows before bytes) {block : Extent} {thread : Nat}
    (member : block ∈ before.live) (frees : before.Frees thread block.start after)
    (live : after.live = before.live.filter fun other => decide (other.start ≠ block.start)) :
    ∃ bytes', (CellHeap.machine fun _ => True).step bytes (.free block.start) bytes' ∧
      Shows after bytes' := by
  obtain ⟨layout, laid⟩ := shows.laid
  obtain ⟨laid', keeps, -⟩ := laid.free member frees live
  refine ⟨⟨CellHeap.owned bytes.blocks (.free block.start : CellCall Unit Nat), bytes.contents⟩,
    ⟨rfl, ?_, rfl⟩, laid', ?_, ?_⟩
  · rw [shows.same]
    exact ⟨block, member, rfl⟩
  · rw [live, ← shows.same]
    rfl
  · rintro address aligned ⟨other, isLive, inside⟩
    obtain ⟨old, different⟩ := (laid.remains live).1 other isLive
    rw [keeps other old different address inside aligned]
    exact shows.words address aligned ⟨other, old, inside⟩

theorem Shows.write (shows : Shows before bytes) {address value : Nat}
    (word : before.HasWord address)
    (step : pageMachine.step before.pages (.write (address / 4096) (address % 4096 / 4) value)
      after.pages)
    (isFirst : after.firstChunk = before.firstChunk) (isLast : after.lastChunk = before.lastChunk)
    (live : after.live = before.live) :
    ∃ bytes', (CellHeap.machine fun _ => True).step bytes (.write address () value) bytes' ∧
      Shows after bytes' := by
  obtain ⟨layout, laid⟩ := shows.laid
  obtain ⟨laid', -, mem⟩ := laid.write word step isFirst isLast live
  obtain ⟨aligned, block, member, inside, -⟩ := word
  refine ⟨⟨bytes.blocks, CellHeap.store bytes.contents address () value⟩,
    ⟨rfl, ?_, rfl⟩, ⟨layout, laid'⟩, shows.same.trans live.symm, ?_⟩
  · rw [shows.same]
    exact ⟨block, member, inside⟩
  · rintro other otherAligned ⟨owner, isLive, covers⟩
    rw [live] at isLive
    rw [mem other otherAligned, shows.words other otherAligned ⟨owner, isLive, covers⟩]
    unfold CellHeap.store
    by_cases here : other = address
    · rw [if_pos here]
      exact (if_pos ⟨here, rfl⟩).symm
    · rw [if_neg here]
      exact (if_neg fun both => here both.1).symm

theorem Shows.read (shows : Shows before bytes) {address value : Nat}
    (word : before.HasWord address)
    (step : pageMachine.step before.pages (.read (address / 4096) (address % 4096 / 4) value)
      after.pages)
    (isFirst : after.firstChunk = before.firstChunk) (isLast : after.lastChunk = before.lastChunk)
    (live : after.live = before.live) :
    (CellHeap.machine fun _ => True).step bytes (.read address () value) bytes ∧
      Shows after bytes := by
  obtain ⟨⟨blocks, -, seen, contents⟩, -⟩ := step
  obtain ⟨aligned, block, member, inside, -⟩ := word
  have same : after = before := by
    obtain ⟨⟨afterBlocks, afterContents⟩, afterFirst, afterLast, afterLive⟩ := after
    obtain ⟨⟨beforeBlocks, beforeContents⟩, beforeFirst, beforeLast, beforeLive⟩ := before
    cases blocks
    cases contents
    cases isFirst
    cases isLast
    cases live
    rfl
  refine ⟨⟨rfl, ?_, ?_, rfl⟩, same ▸ shows⟩
  · rw [shows.same]
    exact ⟨block, member, inside⟩
  · rw [← shows.words address aligned ⟨block, member, inside⟩]
    exact seen

end Steps

theorem refines_bytes (starts : KernelHeap → Prop)
    (laid : ∀ heap, starts heap → ∃ layout, heap.Laid layout) :
    (machine starts).Refines (CellHeap.machine fun _ => True) Shows := by
  constructor
  · intro heap initial
    exact ⟨⟨heap.live, fun address _ => heap.heaps.mem address⟩, trivial, laid heap initial, rfl,
      fun _ _ _ => rfl⟩
  · intro before bytes call after shows step
    obtain ⟨live, made⟩ := step
    cases call with
    | alloc block =>
        obtain ⟨positive, thread, mallocs⟩ := made
        exact shows.alloc positive mallocs live
    | free memory =>
        obtain ⟨⟨block, member, rfl⟩, thread, frees⟩ := made
        exact shows.free member frees live
    | read address index value =>
        obtain ⟨word, step, isFirst, isLast⟩ := made
        exact ⟨bytes, shows.read word step isFirst isLast live⟩
    | write address index value =>
        obtain ⟨word, step, isFirst, isLast⟩ := made
        exact shows.write word step isFirst isLast live

theorem Empty.laid {heap : KernelHeap} (empty : heap.Empty) :
    heap.Laid ⟨[], [], [], fun _ => []⟩ := by
  refine ⟨SmallRun.carved_start ⟨empty.buckets, rfl, rfl⟩, empty.apart, empty.bounds, nofun, nofun,
    nofun, ?_, ?_⟩
  · rw [empty.live]
    exact nofun
  · rw [empty.live]
    exact List.Pairwise.nil

/-- In every run allocations overlap nothing, keep what is written to them, and work. -/
theorem kernelHeap_isolates (first last : KernelHeap) (empty : first.Empty)
    (calls : List (CellCall Unit Nat)) (run : (machine fun heap => heap = first).Run first calls last) :
    CellHeap.Kept [] calls ∧ last.Serves := by
  have refines := refines_bytes (fun heap => heap = first) fun heap same =>
    ⟨_, same.symm ▸ empty.laid⟩
  obtain ⟨bytes, -, shows⟩ := refines.start first rfl
  obtain ⟨last', run', shows'⟩ := refines.run shows run
  have kept := CellHeap.run_kept run'
  rw [shows.same, empty.live] at kept
  obtain ⟨layout, laid⟩ := shows'.laid
  exact ⟨kept, laid.serves⟩

def emptyHeap : KernelHeap := ⟨⟨[], fun _ _ => 0⟩, fun _ => 0, fun _ => 0, []⟩

theorem emptyHeap_empty : emptyHeap.Empty :=
  ⟨List.Pairwise.nil, nofun, fun _ => ⟨rfl, rfl⟩, rfl⟩

/-- A thread's first 24 bytes are read as they were written. -/
theorem kernelHeap_isolates_first : ∃ address last value, value = 7 ∧ CellHeap.Kept []
    [.alloc ⟨address, 24⟩, .write address () 7, .read address () value] ∧
      KernelHeap.Serves last := by
  obtain ⟨obtained, isObtained⟩ : ∃ obtained : CellHeap Nat Nat,
      obtained = ⟨[⟨1, 1⟩], fun _ _ => 0⟩ := ⟨_, rfl⟩
  have obtains : Obtains emptyHeap.pages 4096 obtained (bigRequest emptyHeap.heaps 3 24) := by
    rw [isObtained, show bigRequest emptyHeap.heaps 3 24 = some 4096 by decide]
    refine ⟨1, rfl, ⟨rfl, fun _ member => absurd member List.not_mem_nil, fun _ _ => rfl⟩, ?_⟩
    rintro block ⟨⟩
    decide
  have serves := (kernelHeap_isolates emptyHeap emptyHeap emptyHeap_empty [] .nil).2
  obtain ⟨address, heaps, ran, -, aligned⟩ := serves.allocates 3 24 4096 obtained (by decide) obtains
  obtain ⟨one, isOne⟩ : ∃ one : KernelHeap, one = ⟨⟨obtained.blocks,
      fun page index => heaps.mem (page * 4096 + 4 * index)⟩, heaps.firstChunk, heaps.lastChunk,
      [⟨address, 24⟩]⟩ := ⟨_, rfl⟩
  have run1 : (machine fun heap => heap = emptyHeap).Run emptyHeap [.alloc ⟨address, 24⟩] one := by
    rw [isOne]
    exact .snoc .nil ⟨rfl, Nat.succ_pos 23, 3, 4096, obtained, heaps, obtains, ran,
      ⟨rfl, fun _ _ _ => rfl, rfl, rfl⟩⟩
  have word : one.HasWord address := by
    rw [isOne]
    refine ⟨by omega, ⟨address, 24⟩, List.mem_singleton_self _, ?_⟩
    simp only [Extent.Contains, Extent.stop]
    omega
  have serves1 := (kernelHeap_isolates emptyHeap one emptyHeap_empty _ run1).2
  obtain ⟨two, isTwo⟩ : ∃ two : KernelHeap, two = { one with
      pages := ⟨one.pages.blocks, CellHeap.store one.pages.contents (address / 4096)
        (address % 4096 / 4) 7⟩ } := ⟨_, rfl⟩
  have run2 : (machine fun heap => heap = emptyHeap).Run emptyHeap
      [.alloc ⟨address, 24⟩, .write address () 7] two := by
    rw [isTwo]
    exact run1.snoc ⟨rfl, word, ⟨⟨rfl, serves1.accesses address word, rfl⟩,
      by rintro _ ⟨⟩⟩, rfl, rfl⟩
  have word2 : two.HasWord address := by
    rw [isTwo]
    exact word
  have serves2 := (kernelHeap_isolates emptyHeap two emptyHeap_empty _ run2).2
  have run3 : (machine fun heap => heap = emptyHeap).Run emptyHeap
      [.alloc ⟨address, 24⟩, .write address () 7, .read address () (two.heaps.mem address)] two :=
    run2.snoc ⟨rfl, word2, ⟨⟨rfl, serves2.accesses address word2, rfl, rfl⟩,
      by rintro _ ⟨⟩⟩, rfl, rfl⟩
  obtain ⟨kept, served⟩ := kernelHeap_isolates emptyHeap two emptyHeap_empty _ run3
  exact ⟨address, two, _, kept.reads [.alloc ⟨address, 24⟩, .write address () 7] address () _ []
    rfl 7 (by simp [CellHeap.written, CellHeap.store]), kept, served⟩

end KernelHeap

end DoggOS.Rt

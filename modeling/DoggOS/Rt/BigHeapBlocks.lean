/-
Runs of the big heap under the programs that use its blocks.

A block is a run of linear pages that `k_rt_BigAlloc` returned and that was not
given back, and its words are read and written through the page map.  As long
as every allocation finds its range, without using it up, and the physical
pages for it, the heap is a heap of blocks that share nothing: the page map is
never changed below a block, and no two blocks reach the same physical page.
-/

import DoggOS.Library.CellHeaps
import DoggOS.Mem.VirtualRangeRuns
import DoggOS.Rt.BigHeapIsolation

namespace DoggOS.Rt

open Mem

structure HeapRun where
  heap : BigHeap
  live : List VRange

abbrev HeapCall := CellCall Nat Nat

namespace HeapRun

def HasWord (run : HeapRun) (page index : Nat) : Prop :=
  (∃ block ∈ run.live, block.Contains page) ∧ index < 1024

/-- The calls of the heap and the accesses of its users.  An allocation finds a range and pages;
freeing looks at the word behind the page headers of a range. -/
def machine (start : HeapRun → Prop) : Machine HeapRun HeapCall where
  start := start
  step before call after :=
    after.live = CellHeap.owned before.live call ∧
      match call with
      | .alloc block => ∃ bytes, 0 < bytes ∧ block.size = pageCount bytes ∧
          before.heap.CanObtain bytes ∧ ¬ before.heap.virtual.ExactFit (pageCount bytes) ∧
          before.heap.bigAlloc bytes = some (block.start * 4096, after.heap)
      | .free start => (∃ block ∈ before.live, block.start = start) ∧
          before.heap.physical.PastWordsOk ∧
          ∃ fuel, 0 < fuel ∧ before.heap.bigFree fuel (start * 4096) = some after.heap
      | .read page index value => before.HasWord page index ∧
          before.heap.map.readEntry (page * 4096 + 4 * index) = some value ∧
          after.heap = before.heap
      | .write page index value => before.HasWord page index ∧
          ∃ map, before.heap.map.writeEntry (page * 4096 + 4 * index) value = some map ∧
            after.heap = { before.heap with map }

structure Sound (start size : Nat) (run : HeapRun) : Prop where
  tiled : VirtualRun.Tiled start size ⟨run.heap.virtual, run.live⟩
  isolated : Isolated run.heap.physical run.heap.map
  mapped : ∀ block ∈ run.live, ∀ page, block.Contains page →
    0 < page ∧ page < 1022 * 1024 ∧ run.heap.map.binding page ≠ none

structure Shows (start size : Nat) (run : HeapRun) (blocks : CellHeap Nat Nat) : Prop where
  sound : run.Sound start size
  same : blocks.blocks = run.live
  words : ∀ page frame index, run.HasWord page index → run.heap.map.binding page = some frame →
    run.heap.map.mem frame index = blocks.contents page index

/-- No call of a user faults, and no block shares a physical page. -/
structure Serves (run : HeapRun) : Prop where
  allocates : ∀ bytes, 0 < bytes → run.heap.CanObtain bytes →
    ∃ page after, run.heap.bigAlloc bytes = some (page * 4096, after)
  frees : ∀ block ∈ run.live, run.heap.physical.PastWordsOk →
    ∃ after, ∀ fuel, 0 < fuel → run.heap.bigFree fuel (block.start * 4096) = some after
  reads : ∀ page index, run.HasWord page index →
    ∃ value, run.heap.map.readEntry (page * 4096 + 4 * index) = some value
  writes : ∀ page index value, run.HasWord page index →
    ∃ map, run.heap.map.writeEntry (page * 4096 + 4 * index) value = some map
  alone : ∀ page other index place frame, run.HasWord page index → run.HasWord other place →
    run.heap.map.binding page = some frame → run.heap.map.binding other = some frame →
      page = other

section Words

variable {map : PageMap} {page index frame : Nat}

theorem readEntry_word (inPage : index < 1024) (bound : map.binding page = some frame) :
    map.readEntry (page * 4096 + 4 * index) = some (map.mem frame index) := by
  unfold PageMap.readEntry
  rw [PageMap.walk_eq_binding, show (page * 4096 + 4 * index) / 4096 = page by omega, bound,
    Option.map_some, show (page * 4096 + 4 * index) % 4096 / 4 = index by omega]

theorem writeEntry_word (inPage : index < 1024) (bound : map.binding page = some frame)
    (value : Nat) :
    map.writeEntry (page * 4096 + 4 * index) value = some (map.store frame index value) := by
  unfold PageMap.writeEntry
  rw [PageMap.walk_eq_binding, show (page * 4096 + 4 * index) / 4096 = page by omega, bound,
    Option.map_some, show (page * 4096 + 4 * index) % 4096 / 4 = index by omega]

end Words

variable {start size : Nat} {before after : HeapRun} {blocks : CellHeap Nat Nat}

namespace Sound

theorem disjoint (sound : before.Sound start size) : before.live.Pairwise Extent.Disjoint := by
  obtain ⟨free, used, -, tiling, perm⟩ := sound.tiled
  have used := (List.pairwise_append.mp tiling.partition.pairwise).2.1
  exact perm.pairwise used fun apart => apart.symm

theorem nonempty (sound : before.Sound start size) {block : VRange} (member : block ∈ before.live) :
    block.Contains block.start := by
  obtain ⟨free, used, -, tiling, perm⟩ := sound.tiled
  have positive := tiling.usedNonempty block (perm.mem_iff.mpr member)
  exact ⟨Nat.le_refl _, Nat.lt_add_of_pos_right positive⟩

theorem word (sound : before.Sound start size) {page index : Nat}
    (word : before.HasWord page index) :
    page < 1022 * 1024 ∧ ∃ frame, before.heap.map.binding page = some frame := by
  obtain ⟨⟨block, member, inside⟩, -⟩ := word
  obtain ⟨-, below, mapped⟩ := sound.mapped block member page inside
  exact ⟨below, Option.ne_none_iff_exists'.mp mapped⟩

theorem serves (sound : before.Sound start size) : before.Serves := by
  constructor
  · intro bytes request obtains
    obtain ⟨index, fit, supplied⟩ := obtains
    obtain ⟨heap, ran, -⟩ := BigHeap.bigAlloc_isolated sound.isolated request fit supplied
    exact ⟨_, heap, ran⟩
  · intro block member past
    obtain ⟨positive, below, mapped⟩ := sound.mapped block member _ (sound.nonempty member)
    obtain ⟨heap, ran, -⟩ :=
      BigHeap.bigFree_isolated sound.isolated past positive below mapped
    exact ⟨heap, ran⟩
  · intro page index word
    obtain ⟨-, frame, bound⟩ := sound.word word
    exact ⟨_, readEntry_word word.2 bound⟩
  · intro page index value word
    obtain ⟨-, frame, bound⟩ := sound.word word
    exact ⟨_, writeEntry_word word.2 bound value⟩
  · intro page other index place frame word otherWord bound otherBound
    exact sound.isolated.distinct page other frame (sound.word word).1 (sound.word otherWord).1
      bound otherBound

end Sound

section Steps

variable {block : VRange} {page index value bytes : Nat}

theorem Shows.keep (shows : before.Shows start size blocks) {kept : Nat → Prop}
    (keeps : KeepsPages before.heap.map after.heap.map kept) {page frame index : Nat}
    (word : before.HasWord page index) (stays : kept page)
    (bound : after.heap.map.binding page = some frame) :
    after.heap.map.mem frame index = blocks.contents page index := by
  obtain ⟨below, was, wasBound⟩ := shows.sound.word word
  obtain ⟨still, sameWords⟩ := keeps page was below stays wasBound
  have same : was = frame := Option.some.inj (still.symm.trans bound)
  rw [← same, sameWords]
  exact shows.words page was index word wasBound

theorem Shows.alloc (shows : before.Shows start size blocks) (positive : 0 < start)
    (request : 0 < bytes) (sized : block.size = pageCount bytes)
    (obtains : before.heap.CanObtain bytes)
    (spare : ¬ before.heap.virtual.ExactFit (pageCount bytes))
    (ran : before.heap.bigAlloc bytes = some (block.start * 4096, after.heap))
    (live : after.live = block :: before.live) :
    ∃ blocks', (CellHeap.machine fun _ => True).step blocks (.alloc block) blocks' ∧
      after.Shows start size blocks' := by
  obtain ⟨index, fit, supplied⟩ := obtains
  obtain ⟨heap, ran', virtual, isolated, bound, keeps⟩ :=
    BigHeap.bigAlloc_isolated shows.sound.isolated request fit supplied
  obtain ⟨atStart, isHeap⟩ := Prod.mk.inj (Option.some.inj (ran'.symm.trans ran))
  have first : block.start = (before.heap.virtual.ranges index).start := by omega
  have address := supplied.start fit request
  have below := supplied.below
  have firstPositive := supplied.positive
  rw [← first] at address bound below firstPositive
  rw [isHeap] at virtual isolated bound keeps
  have tiled : VirtualRun.Tiled start size ⟨after.heap.virtual, after.live⟩ := by
    have inSpace : before.heap.virtual.StartsInSpace (pageCount bytes) := by
      intro other isFit
      obtain rfl : index = other := Option.some_inj.mp (fit.symm.trans isFit)
      omega
    have call := shows.sound.tiled.alloc positive request ⟨spare, inSpace⟩
    unfold VirtualRun.call at call
    dsimp only at call
    have isBlock : (⟨block.start, pageCount bytes⟩ : VRange) = block := by rw [← sized]
    rw [address, if_neg (by omega), Nat.mul_div_cancel _ (by omega), isBlock] at call
    rw [virtual, live]
    exact call
  have sound : after.Sound start size := by
    refine ⟨tiled, isolated, ?_⟩
    intro other member page inside
    rw [live] at member
    rcases List.mem_cons.mp member with isNew | wasLive
    · rw [isNew] at inside
      obtain ⟨low, high⟩ := inside
      unfold Extent.stop at high
      have mapped := bound (page - block.start) (by omega)
      rw [show block.start + (page - block.start) = page by omega] at mapped
      exact ⟨by omega, by omega, mapped⟩
    · obtain ⟨pagePositive, pageBelow, mapped⟩ := shows.sound.mapped other wasLive page inside
      obtain ⟨frame, isFrame⟩ := Option.ne_none_iff_exists'.mp mapped
      refine ⟨pagePositive, pageBelow, ?_⟩
      rw [(keeps page frame pageBelow trivial isFrame).1]
      exact Option.some_ne_none _
  have apart : ∀ other ∈ before.live, block.Disjoint other := by
    have disjoint := sound.disjoint
    rw [live] at disjoint
    exact (List.pairwise_cons.mp disjoint).1
  -- The words of the new block are whatever its pages hold.
  refine ⟨⟨block :: blocks.blocks, fun page index =>
    if block.Contains page then
      ((after.heap.map.binding page).map fun frame => after.heap.map.mem frame index).getD 0
    else blocks.contents page index⟩, ⟨rfl, ?_, ?_⟩, sound, ?_, ?_⟩
  · rw [shows.same]
    exact apart
  · intro page outside
    funext index
    exact if_neg outside
  · rw [shows.same, live]
  · intro page frame index word isBound
    dsimp only
    by_cases inside : block.Contains page
    · rw [if_pos inside, isBound]
      rfl
    · rw [if_neg inside]
      obtain ⟨⟨other, member, inOther⟩, inPage⟩ := word
      rw [live] at member
      have wasLive := (List.mem_cons.mp member).resolve_left fun isNew =>
        inside (isNew ▸ inOther)
      exact shows.keep keeps ⟨⟨other, wasLive, inOther⟩, inPage⟩ trivial isBound

theorem Shows.free (shows : before.Shows start size blocks) {first fuel : Nat}
    (starts : ∃ block ∈ before.live, block.start = first) (past : before.heap.physical.PastWordsOk)
    (fuelled : 0 < fuel) (ran : before.heap.bigFree fuel (first * 4096) = some after.heap)
    (live : after.live = before.live.filter fun block => decide (block.start ≠ first)) :
    ∃ blocks', (CellHeap.machine fun _ => True).step blocks (.free first) blocks' ∧
      after.Shows start size blocks' := by
  obtain ⟨freed, freedLive, atFirst⟩ := starts
  obtain ⟨positive, below, mapped⟩ :=
    shows.sound.mapped freed freedLive _ (shows.sound.nonempty freedLive)
  rw [atFirst] at positive below mapped
  obtain ⟨heap, frees, virtual, isolated, keeps⟩ :=
    BigHeap.bigFree_isolated shows.sound.isolated past positive below mapped
  rw [Option.some.inj ((frees fuel fuelled).symm.trans ran)] at virtual isolated keeps
  have remains : ∀ block ∈ after.live, block ∈ before.live ∧ ¬ block.Contains first := by
    intro block member
    rw [live, List.mem_filter] at member
    refine ⟨member.1, fun inside => ?_⟩
    have different : block ≠ freed := fun same => of_decide_eq_true member.2 (same ▸ atFirst)
    have symmetric : Std.Symm Extent.Disjoint := ⟨fun _ _ => Extent.Disjoint.symm⟩
    have apart := shows.sound.disjoint.forall member.1 freedLive different
    exact apart first ⟨inside, atFirst ▸ shows.sound.nonempty freedLive⟩
  have stays : ∀ page, (∃ block ∈ after.live, block.Contains page) → page ≠ first := by
    intro page inBlock isFirst
    obtain ⟨block, member, inside⟩ := inBlock
    exact (remains block member).2 (isFirst ▸ inside)
  refine ⟨⟨CellHeap.owned blocks.blocks (.free first : CellCall Nat Nat),
    blocks.contents⟩, ⟨rfl, ?_, rfl⟩, ⟨?_, isolated, ?_⟩, ?_, ?_⟩
  · rw [shows.same]
    exact ⟨freed, freedLive, atFirst⟩
  · have call := shows.sound.tiled.free (first * 4096)
    unfold VirtualRun.call at call
    dsimp only at call
    rw [if_neg (by omega), Nat.mul_div_cancel _ (by omega)] at call
    rw [virtual, live]
    exact call
  · intro block member page inside
    obtain ⟨pagePositive, pageBelow, wasMapped⟩ :=
      shows.sound.mapped block (remains block member).1 page inside
    obtain ⟨frame, isFrame⟩ := Option.ne_none_iff_exists'.mp wasMapped
    refine ⟨pagePositive, pageBelow, ?_⟩
    rw [(keeps page frame pageBelow (stays page ⟨block, member, inside⟩) isFrame).1]
    exact Option.some_ne_none _
  · rw [shows.same, live]
    rfl
  · intro page frame index word isBound
    obtain ⟨⟨block, member, inside⟩, inPage⟩ := word
    exact shows.keep keeps ⟨⟨block, (remains block member).1, inside⟩, inPage⟩
      (stays page ⟨block, member, inside⟩) isBound

theorem Shows.write (shows : before.Shows start size blocks) (word : before.HasWord page index)
    {map : PageMap}
    (wrote : before.heap.map.writeEntry (page * 4096 + 4 * index) value = some map)
    (heap : after.heap = { before.heap with map }) (live : after.live = before.live) :
    ∃ blocks', (CellHeap.machine fun _ => True).step blocks (.write page index value) blocks' ∧
      after.Shows start size blocks' := by
  obtain ⟨below, frame, bound⟩ := shows.sound.word word
  rw [writeEntry_word word.2 bound] at wrote
  cases wrote
  have isolated := shows.sound.isolated
  obtain ⟨notFree, notOwn⟩ := isolated.held page frame below bound
  obtain ⟨wellFormed, bindings⟩ :=
    isolated.owned.wellFormed.store_foreign (foreign_of_not_own notOwn) index value
  have ownBefore : ∀ own, OwnPage (before.heap.map.store frame index value) own →
      OwnPage before.heap.map own := by
    intro own isOwn
    have grows := before.heap.map.grows_store (foreign_of_not_own notOwn).notDirectory index value
      0 before.heap.map.cr3
    exact (own_of_grows grows isOwn).elim id fun new => .inl new.2
  have isolated' : Isolated before.heap.physical (before.heap.map.store frame index value) := by
    refine ⟨⟨isolated.owned.stacked, isolated.owned.nullUnmanaged, wellFormed, ?_⟩, ?_, ?_⟩
    · exact fun own isOwn => isolated.owned.ownPages own (ownBefore own isOwn)
    · intro other held inRange isBound
      rw [bindings other inRange] at isBound
      obtain ⟨otherNotFree, otherNotOwn⟩ := isolated.held other held inRange isBound
      exact ⟨otherNotFree, fun isOwn => otherNotOwn (ownBefore held isOwn)⟩
    · intro one two held oneIn twoIn oneBound twoBound
      rw [bindings one oneIn] at oneBound
      rw [bindings two twoIn] at twoBound
      exact isolated.distinct one two held oneIn twoIn oneBound twoBound
  have sameWords : ∀ other place, after.HasWord other place ↔ before.HasWord other place := by
    intro other place
    unfold HasWord
    rw [live]
  refine ⟨⟨blocks.blocks, CellHeap.store blocks.contents page index value⟩, ⟨rfl, ?_, rfl⟩,
    ⟨?_, ?_, ?_⟩, shows.same.trans live.symm, ?_⟩
  · rw [shows.same]
    exact word.1
  · rw [heap, live]
    exact shows.sound.tiled
  · rw [heap]
    exact isolated'
  · intro block member other inside
    rw [live] at member
    obtain ⟨positive, inRange, mapped⟩ := shows.sound.mapped block member other inside
    rw [heap, bindings other inRange]
    exact ⟨positive, inRange, mapped⟩
  · intro other held place otherWord isBound
    have wasWord := (sameWords other place).mp otherWord
    obtain ⟨inRange, -⟩ := shows.sound.word wasWord
    rw [heap, bindings other inRange] at isBound
    rw [heap, PageMap.store_mem]
    unfold CellHeap.store
    dsimp only
    have sameFrame : held = frame ↔ other = page := by
      constructor
      · intro same
        exact isolated.distinct other page frame inRange below (same ▸ isBound) bound
      · intro same
        exact Option.some.inj (isBound.symm.trans (same ▸ bound))
    by_cases here : other = page ∧ place = index
    · rw [if_pos here, if_pos ⟨sameFrame.mpr here.1, here.2⟩]
    · rw [if_neg here, if_neg fun both => here ⟨sameFrame.mp both.1, both.2⟩]
      exact shows.words other held place wasWord isBound

end Steps

/-- The heap is a heap of blocks. -/
theorem refines_blocks (positive : 0 < start) (starts : HeapRun → Prop)
    (sound : ∀ run, starts run → run.Sound start size) :
    (machine starts).Refines (CellHeap.machine fun _ => True) (Shows start size) := by
  constructor
  · intro run initial
    refine ⟨⟨run.live, fun page index =>
      ((run.heap.map.binding page).map fun frame => run.heap.map.mem frame index).getD 0⟩,
      trivial, sound run initial, rfl, ?_⟩
    intro page frame index _ bound
    dsimp only
    rw [bound]
    rfl
  · intro before blocks call after shows step
    obtain ⟨live, made⟩ := step
    cases call with
    | alloc block =>
        obtain ⟨bytes, request, sized, obtains, spare, ran⟩ := made
        exact shows.alloc positive request sized obtains spare ran live
    | free first =>
        obtain ⟨starts, past, fuel, fuelled, ran⟩ := made
        exact shows.free starts past fuelled ran live
    | read page index value =>
        obtain ⟨word, read, same⟩ := made
        obtain ⟨-, frame, bound⟩ := shows.sound.word word
        rw [readEntry_word word.2 bound] at read
        have isAfter : after = before := by
          cases before
          cases after
          cases same
          cases live
          rfl
        refine ⟨blocks, ⟨rfl, ?_, ?_, rfl⟩, isAfter ▸ shows⟩
        · rw [shows.same]
          exact word.1
        · rw [← shows.words page frame index word bound]
          exact Option.some.inj read
    | write page index value =>
        obtain ⟨word, map, wrote, heap⟩ := made
        exact shows.write word wrote heap live

/-- In every run the blocks overlap nothing, keep what is written to them, and work. -/
theorem bigHeap_isolates (start size : Nat) (positive : 0 < start) (first last : HeapRun) (sound : first.Sound start size) (calls : List HeapCall)
    (run : (machine fun run => run = first).Run first calls last) :
    CellHeap.Kept first.live calls ∧ last.Serves := by
  have refines := refines_blocks positive (fun run => run = first) fun run same =>
    same.symm ▸ sound
  obtain ⟨blocks, -, shows⟩ := refines.start first rfl
  obtain ⟨last', run', shows'⟩ := refines.run shows run
  have kept := CellHeap.run_kept run'
  rw [shows.same] at kept
  exact ⟨kept, shows'.sound.serves⟩

/-- The sample heap over the free range that `k_mem_Init` stores. -/
def sampleRun : HeapRun := ⟨{ sampleHeap with virtual := (oneFreeRange 0x1000 0xffffe).list }, []⟩

theorem sampleRun_sound : sampleRun.Sound 0x1000 0xffffe where
  tiled := VirtualRun.tiled_start (by decide) ⟨rfl, rfl, rfl, rfl⟩
  isolated := by
    refine ⟨sampleHeap_wellFormed.backed.owned, ?_, ?_⟩
    · intro page frame below bound
      rw [show sampleRun.heap.map.binding page = none from sampleHeap_unmapped below] at bound
      cases bound
    · intro page other frame below _ bound
      rw [show sampleRun.heap.map.binding page = none from sampleHeap_unmapped below] at bound
      cases bound
  mapped := nofun

theorem sampleRun_obtains : sampleRun.heap.CanObtain 8192 := by
  have pages : pageCount 8192 = 2 := by decide
  have oneTable : newTables sampleRun.heap.map 0x1000 2 ⊆ {4} := by
    intro index member
    unfold newTables at member
    rw [Finset.mem_filter] at member
    rw [Finset.mem_singleton]
    omega
  have few : (newTables sampleRun.heap.map 0x1000 2).card ≤ 1 := Finset.card_le_card oneTable
  have room : sampleRun.heap.physical.room = 8 := by decide
  have start : (sampleRun.heap.virtual.ranges 0).start = 0x1000 := rfl
  refine ⟨0, by decide, by decide, by decide, ?_⟩
  rw [room, pages, start]
  omega

/-- A word of a block of two pages is read as it was written. -/
theorem bigHeap_isolates_two : ∃ last value, value = 7 ∧
    CellHeap.Kept [] [.alloc ⟨0x1000, 2⟩, .write 0x1001 5 7, .read 0x1001 5 value] ∧
      HeapRun.Serves last := by
  obtain ⟨heap, ran, -⟩ := BigHeap.bigAlloc_isolated sampleRun_sound.isolated (by decide)
    (show 0 ∈ sampleRun.heap.virtual.firstFit (pageCount 8192) by decide)
    (by
      obtain ⟨index, fit, supplied⟩ := sampleRun_obtains
      have first : index = 0 := Option.some_inj.mp (Eq.symm fit)
      exact first ▸ supplied)
  have exact : ¬ sampleRun.heap.virtual.ExactFit (pageCount 8192) := by
    rintro ⟨index, fit, same⟩
    have first : index = 0 := Option.some_inj.mp (Eq.symm fit)
    rw [first] at same
    exact absurd same (by decide)
  have run1 : (machine fun run => run = sampleRun).Run sampleRun [.alloc ⟨0x1000, 2⟩]
      ⟨heap, [⟨0x1000, 2⟩]⟩ :=
    .snoc .nil ⟨rfl, 8192, by decide, by decide, sampleRun_obtains, exact, ran⟩
  have serves := (bigHeap_isolates 0x1000 0xffffe (by decide) sampleRun _ sampleRun_sound _ run1).2
  have word : HasWord ⟨heap, [⟨0x1000, 2⟩]⟩ 0x1001 5 :=
    ⟨⟨⟨0x1000, 2⟩, List.mem_singleton_self _, by decide⟩, by decide⟩
  obtain ⟨map, wrote⟩ := serves.writes 0x1001 5 7 word
  have run2 : (machine fun run => run = sampleRun).Run sampleRun
      [.alloc ⟨0x1000, 2⟩, .write 0x1001 5 7] ⟨{ heap with map }, [⟨0x1000, 2⟩]⟩ :=
    run1.snoc ⟨rfl, word, map, wrote, rfl⟩
  have serves2 :=
    (bigHeap_isolates 0x1000 0xffffe (by decide) sampleRun _ sampleRun_sound _ run2).2
  obtain ⟨value, read⟩ := serves2.reads 0x1001 5 word
  have run3 : (machine fun run => run = sampleRun).Run sampleRun
      [.alloc ⟨0x1000, 2⟩, .write 0x1001 5 7, .read 0x1001 5 value]
      ⟨{ heap with map }, [⟨0x1000, 2⟩]⟩ := run2.snoc ⟨rfl, word, read, rfl⟩
  obtain ⟨kept, served⟩ :=
    bigHeap_isolates 0x1000 0xffffe (by decide) sampleRun _ sampleRun_sound _ run3
  exact ⟨_, value, kept.reads [.alloc ⟨0x1000, 2⟩, .write 0x1001 5 7] 0x1001 5 value [] rfl 7 rfl,
    kept, served⟩

end HeapRun

end DoggOS.Rt

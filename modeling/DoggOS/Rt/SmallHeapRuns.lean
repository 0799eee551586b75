/-
Whole runs of the small heap.

`pages` records each page that was carved, with the bucket it was carved for,
and `live` each chunk that a caller owns, with the size it asked for.  Callers
may write anywhere inside their chunks, and the rest of the system anywhere
outside the carved pages.  Every step keeps `Carved`: chunks are either listed
or live, never both, and lie where the record of the pages says.
-/

import DoggOS.Library.Extent
import DoggOS.Library.Machine
import DoggOS.Rt.SmallHeapCalls

namespace DoggOS.Rt

structure LiveChunk where
  address : Nat
  size : Nat
deriving DecidableEq, Repr

def LiveChunk.bucket (chunk : LiveChunk) : Nat := smallBucketIndexFromSize chunk.size

/-- The bytes of the chunk, which may be more than were asked for. -/
def LiveChunk.extent (chunk : LiveChunk) : Extent :=
  ⟨chunk.address, smallBucketSize chunk.bucket⟩

structure SmallRun where
  heaps : SmallHeaps
  pages : List (Nat × Nat)
  live : List LiveChunk

inductive SmallCall where
  | alloc (thread size page : Nat)
  | free (thread memory : Nat)
  | write (address value : Nat)
deriving DecidableEq, Repr

/-- What `k_rt_BigAlloc(4096)` is assumed to return. -/
structure SmallRun.FreshPage (run : SmallRun) (page : Nat) : Prop where
  nonNull : page ≠ 0
  aligned : page % 4096 = 0
  fits : page + 4096 ≤ 2 ^ 32
  fresh : ∀ carved ∈ run.pages, carved.1 ≠ page

def SmallRun.Writable (run : SmallRun) (address : Nat) : Prop :=
  (∃ chunk ∈ run.live, chunk.extent.Contains address) ∨
    ∀ carved ∈ run.pages, address < carved.1 ∨ carved.1 + 4096 ≤ address

def SmallRun.alloc (run : SmallRun) (thread size page : Nat) : Option SmallRun :=
  (smallAlloc run.heaps thread size page).map fun returned =>
    { heaps := returned.2
      pages :=
        if run.heaps.firstChunk (thread, smallBucketIndexFromSize size) = 0 then
          (page, smallBucketIndexFromSize size) :: run.pages
        else run.pages
      live := ⟨returned.1, size⟩ :: run.live }

def SmallRun.free (run : SmallRun) (thread memory : Nat) : SmallRun :=
  { heaps := smallFree run.heaps thread memory
    pages := run.pages
    live := run.live.filter (fun chunk => decide (chunk.address ≠ memory)) }

def SmallRun.write (run : SmallRun) (address value : Nat) : SmallRun :=
  { run with heaps := { run.heaps with mem := Function.update run.heaps.mem address value } }

/-- Any number of threads, each with empty buckets; memory holds anything. -/
def smallMachine : Machine SmallRun SmallCall where
  start run :=
    (∀ bucket, run.heaps.firstChunk bucket = 0 ∧ run.heaps.lastChunk bucket = 0) ∧
      run.pages = [] ∧ run.live = []
  step before label after :=
    match label with
    | .alloc thread size page =>
        size ≤ 2048 ∧ before.FreshPage page ∧ before.alloc thread size page = some after
    | .free thread memory =>
        (∃ chunk ∈ before.live, chunk.address = memory) ∧ after = before.free thread memory
    | .write address value => before.Writable address ∧ after = before.write address value

structure SmallRun.Listed (run : SmallRun) (lists : BucketKey → List Nat) : Prop where
  queues : Queues run.heaps.mem run.heaps.firstChunk lists
  tails : ∀ bucket, run.heaps.lastChunk bucket = (lists bucket).getLastD 0
  carved : ∀ bucket, ∀ chunk ∈ lists bucket,
    ∃ page ∈ run.pages, CarvedAt page.1 page.2 chunk bucket.2
  apart : ∀ bucket, ∀ chunk ∈ lists bucket, ∀ owned ∈ run.live,
    owned.extent.Disjoint ⟨chunk, smallBucketSize bucket.2⟩

structure SmallRun.Consistent (run : SmallRun) : Prop where
  disjoint : run.live.Pairwise (fun one two => one.extent.Disjoint two.extent)
  inPage : ∀ chunk ∈ run.live, ∃ page ∈ run.pages, page.1 % 4096 = 0 ∧
    page.1 ≤ chunk.extent.start ∧ chunk.extent.stop ≤ page.1 + 4096
  largeEnough : ∀ chunk ∈ run.live, chunk.size ≤ smallBucketSize chunk.bucket
  aligned : ∀ chunk ∈ run.live, chunk.address % smallBucketSize chunk.bucket = 0
  dispatched : ∀ chunk ∈ run.live, dispatchesSmallFree chunk.address
  lists : ∃ lists, run.Listed lists ∧ ∀ chunk ∈ run.live, ∀ thread,
    (∃ page ∈ run.pages, CarvedAt page.1 page.2 chunk.address chunk.bucket) ∧
      (run.free thread chunk.address).Listed (Function.update lists (thread, chunk.bucket)
        (chunk.address :: lists (thread, chunk.bucket)))
  allocates : ∀ thread size page, size ≤ 2048 → run.FreshPage page →
    ∃ after, run.alloc thread size page = some after

structure SmallRun.Carved (run : SmallRun) (lists : BucketKey → List Nat) : Prop where
  linked : run.heaps.Linked lists
  pageFits : ∀ page ∈ run.pages, page.1 % 4096 = 0 ∧ page.1 + 4096 ≤ 2 ^ 32 ∧
    page.2 < smallBucketCount ∧ mainBucket run.heaps.mem page.1 = page.2
  pageUnique : ∀ page ∈ run.pages, ∀ other ∈ run.pages, page.1 = other.1 → page = other
  listed : ∀ key, ∀ chunk ∈ lists key, ∃ page ∈ run.pages, CarvedAt page.1 page.2 chunk key.2
  owned : ∀ chunk ∈ run.live, chunk.size ≤ 2048 ∧
    ∃ page ∈ run.pages, CarvedAt page.1 page.2 chunk.address chunk.bucket
  distinct : run.live.Pairwise (fun one two => one.address ≠ two.address)
  unlisted : ∀ chunk ∈ run.live, ∀ key, chunk.address ∉ lists key

theorem CarvedAt.isChunkAddress {page main chunk bucket : Nat}
    (carved : CarvedAt page main chunk bucket) (small : main < smallBucketCount)
    (aligned : page % 4096 = 0) : IsChunkAddress chunk := by
  obtain ⟨after, inside, slot, place⟩ := carved.inside small
  have multiple := Nat.dvd_mul_left_of_dvd (eight_dvd_chunkSize bucket) slot
  have positive : 0 < chunkSize bucket := Nat.two_pow_pos _
  unfold IsChunkAddress
  omega

namespace SmallRun.Carved

variable {run : SmallRun} {lists : BucketKey → List Nat}

theorem disjoint (carved : run.Carved lists) {page other : Nat × Nat}
    {chunk bucket otherChunk otherBucket : Nat} (inPages : page ∈ run.pages)
    (otherIn : other ∈ run.pages) (place : CarvedAt page.1 page.2 chunk bucket)
    (otherPlace : CarvedAt other.1 other.2 otherChunk otherBucket) (different : chunk ≠ otherChunk) :
    (Extent.mk chunk (smallBucketSize bucket)).Disjoint
      ⟨otherChunk, smallBucketSize otherBucket⟩ := by
  obtain ⟨aligned, -, small, -⟩ := carved.pageFits page inPages
  obtain ⟨otherAligned, -, otherSmall, -⟩ := carved.pageFits other otherIn
  obtain ⟨after, inside, -⟩ := place.inside small
  obtain ⟨otherAfter, otherInside, -⟩ := otherPlace.inside otherSmall
  have positive : 0 < chunkSize bucket := Nat.two_pow_pos _
  have otherPositive : 0 < chunkSize otherBucket := Nat.two_pow_pos _
  rw [smallBucketSize_eq (place.bucket_le.trans_lt small),
    smallBucketSize_eq (otherPlace.bucket_le.trans_lt otherSmall)]
  have apart : chunk + chunkSize bucket ≤ otherChunk ∨
      otherChunk + chunkSize otherBucket ≤ chunk := by
    by_cases samePage : page.1 = other.1
    · have same := carved.pageUnique page inPages other otherIn samePage
      subst same
      rcases Nat.lt_or_gt_of_ne different with below | above
      · exact Or.inl (place.disjoint otherPlace below)
      · exact Or.inr (otherPlace.disjoint place above)
    · omega
  rcases apart with below | above
  · exact Extent.disjoint_of_stop_le below
  · rintro point ⟨inOne, inTwo⟩
    have apart := @Extent.disjoint_of_stop_le ⟨otherChunk, chunkSize otherBucket⟩
      ⟨chunk, chunkSize bucket⟩ above
    exact apart point ⟨inTwo, inOne⟩

theorem freeBucketIndex_eq (carved : run.Carved lists) {chunk : LiveChunk}
    (member : chunk ∈ run.live) : freeBucketIndex run.heaps.mem chunk.address = chunk.bucket := by
  obtain ⟨-, page, inPages, place⟩ := carved.owned chunk member
  obtain ⟨aligned, fits, small, header⟩ := carved.pageFits page inPages
  exact Rt.freeBucketIndex_eq place small aligned fits header

theorem isChunkAddress (carved : run.Carved lists) {chunk : LiveChunk}
    (member : chunk ∈ run.live) : IsChunkAddress chunk.address := by
  obtain ⟨-, page, inPages, place⟩ := carved.owned chunk member
  obtain ⟨aligned, -, small, -⟩ := carved.pageFits page inPages
  exact place.isChunkAddress small aligned

theorem pageFits_of_keeps (carved : run.Carved lists) {mem : Nat → Nat}
    (keeps : KeepsHeaders run.heaps.mem mem) : ∀ page ∈ run.pages, page.1 % 4096 = 0 ∧
      page.1 + 4096 ≤ 2 ^ 32 ∧ page.2 < smallBucketCount ∧ mainBucket mem page.1 = page.2 := by
  intro page member
  obtain ⟨aligned, fits, small, header⟩ := carved.pageFits page member
  exact ⟨aligned, fits, small, (keeps.mainBucket aligned).trans header⟩

theorem free (carved : run.Carved lists) (thread : Nat) {chunk : LiveChunk}
    (member : chunk ∈ run.live) :
    (run.free thread chunk.address).Carved (Function.update lists (thread, chunk.bucket)
      (chunk.address :: lists (thread, chunk.bucket))) := by
  obtain ⟨linked, keeps⟩ := carved.linked.smallFree thread (carved.isChunkAddress member)
    (carved.unlisted chunk member)
  rw [carved.freeBucketIndex_eq member] at linked
  refine ⟨linked, carved.pageFits_of_keeps keeps, carved.pageUnique, ?_, ?_, ?_, ?_⟩
  · intro key freed inList
    by_cases same : key = (thread, chunk.bucket)
    · subst same
      rw [Function.update_self] at inList
      rcases List.mem_cons.mp inList with here | old
      · rw [here]
        exact (carved.owned chunk member).2
      · exact carved.listed _ freed old
    · rw [Function.update_of_ne same] at inList
      exact carved.listed key freed inList
  · intro other stillLive
    exact carved.owned other (List.mem_of_mem_filter stillLive)
  · exact carved.distinct.filter _
  · intro other stillLive key inList
    obtain ⟨wasLive, kept⟩ := List.mem_filter.mp stillLive
    have different : other.address ≠ chunk.address := of_decide_eq_true kept
    by_cases same : key = (thread, chunk.bucket)
    · subst same
      rw [Function.update_self] at inList
      rcases List.mem_cons.mp inList with here | old
      · exact different here
      · exact carved.unlisted other wasLive _ old
    · rw [Function.update_of_ne same] at inList
      exact carved.unlisted other wasLive key inList

theorem write (carved : run.Carved lists) {address : Nat} (value : Nat)
    (writable : run.Writable address) : (run.write address value).Carved lists := by
  have notListed : ∀ key, ∀ chunk ∈ lists key, chunk ≠ address := by
    intro key chunk member same
    subst same
    obtain ⟨page, inPages, place⟩ := carved.listed key chunk member
    obtain ⟨aligned, -, small, -⟩ := carved.pageFits page inPages
    obtain ⟨after, inside, -⟩ := place.inside small
    have positive : 0 < chunkSize key.2 := Nat.two_pow_pos _
    rcases writable with ⟨owned, live, contains⟩ | outside
    · obtain ⟨-, ownedPage, ownedIn, ownedPlace⟩ := carved.owned owned live
      have different : owned.address ≠ chunk := fun same =>
        carved.unlisted owned live key (same ▸ member)
      have apart := carved.disjoint ownedIn inPages ownedPlace place different
      refine apart chunk ⟨contains, le_rfl, ?_⟩
      rw [smallBucketSize_eq (place.bucket_le.trans_lt small), Extent.stop_mk]
      omega
    · have away := outside page inPages
      omega
  have notHeader : ∀ page ∈ run.pages, mainBucketAddress page.1 ≠ address := by
    intro page inPages same
    subst same
    have header : mainBucketAddress page.1 = page.1 + 4 := rfl
    obtain ⟨aligned, -, small, -⟩ := carved.pageFits page inPages
    rcases writable with ⟨owned, live, contains⟩ | outside
    · obtain ⟨-, ownedPage, ownedIn, ownedPlace⟩ := carved.owned owned live
      obtain ⟨ownedAligned, -, ownedSmall, -⟩ := carved.pageFits ownedPage ownedIn
      obtain ⟨after, inside, -⟩ := ownedPlace.inside ownedSmall
      have eight : 8 ≤ chunkSize owned.bucket :=
        Nat.le_of_dvd (Nat.two_pow_pos _) (eight_dvd_chunkSize _)
      simp only [Extent.Contains, Extent.stop, LiveChunk.extent,
        smallBucketSize_eq (ownedPlace.bucket_le.trans_lt ownedSmall)] at contains
      omega
    · have away := outside page inPages
      omega
  refine ⟨carved.linked.frame fun key chunk member =>
    Function.update_of_ne (notListed key chunk member) _ _, ?_, carved.pageUnique, carved.listed,
    carved.owned, carved.distinct, carved.unlisted⟩
  intro page inPages
  obtain ⟨aligned, fits, small, header⟩ := carved.pageFits page inPages
  refine ⟨aligned, fits, small, ?_⟩
  rw [← header]
  have same : (run.write address value).heaps.mem (mainBucketAddress page.1) =
      run.heaps.mem (mainBucketAddress page.1) :=
    Function.update_of_ne (notHeader page inPages) _ _
  unfold mainBucket
  rw [same]

theorem refill (carved : run.Carved lists) (thread : Nat) {bucket page : Nat}
    (small : bucket < smallBucketCount) (fresh : run.FreshPage page) :
    ∃ heaps, initChunkPage run.heaps thread bucket page = some heaps ∧
      SmallRun.Carved { heaps, pages := (page, bucket) :: run.pages, live := run.live }
        (carvedLists lists thread bucket page) := by
  have offPage : ∀ carvedPage ∈ run.pages, ∀ chunk index,
      CarvedAt carvedPage.1 carvedPage.2 chunk index → chunk < page ∨ page + 4096 ≤ chunk := by
    intro carvedPage inPages chunk index place
    obtain ⟨aligned, -, pageSmall, -⟩ := carved.pageFits carvedPage inPages
    obtain ⟨after, inside, -⟩ := place.inside pageSmall
    have positive : 0 < chunkSize index := Nat.two_pow_pos _
    have different := fresh.fresh carvedPage inPages
    have pageAligned := fresh.aligned
    omega
  obtain ⟨heaps, ran, linked, header, others⟩ := carved.linked.initChunkPage thread small
    fresh.aligned fun key chunk member => by
      obtain ⟨carvedPage, inPages, place⟩ := carved.listed key chunk member
      exact offPage carvedPage inPages chunk _ place
  refine ⟨heaps, ran, linked, ?_, ?_, ?_, ?_, carved.distinct, ?_⟩
  · intro other member
    rcases List.mem_cons.mp member with here | old
    · subst here
      exact ⟨fresh.aligned, fresh.fits, small, header⟩
    · obtain ⟨aligned, fits, otherSmall, otherHeader⟩ := carved.pageFits other old
      have different := fresh.fresh other old
      refine ⟨aligned, fits, otherSmall, ?_⟩
      rw [← otherHeader]
      unfold mainBucket
      rw [others _ (by unfold mainBucketAddress; omega) (by unfold mainBucketAddress; omega)]
  · intro one oneIn two twoIn same
    rcases List.mem_cons.mp oneIn with oneHere | oneOld
    · rcases List.mem_cons.mp twoIn with twoHere | twoOld
      · exact oneHere.trans twoHere.symm
      · subst oneHere
        exact absurd same.symm (fresh.fresh two twoOld)
    · rcases List.mem_cons.mp twoIn with twoHere | twoOld
      · subst twoHere
        exact absurd same (fresh.fresh one oneOld)
      · exact carved.pageUnique one oneOld two twoOld same
  · intro key chunk member
    rcases (mem_carvedLists small).mp member with old | ⟨-, place⟩
    · obtain ⟨carvedPage, inPages, place⟩ := carved.listed key chunk old
      exact ⟨carvedPage, List.mem_cons_of_mem _ inPages, place⟩
    · exact ⟨(page, bucket), List.mem_cons_self, place⟩
  · intro chunk member
    obtain ⟨bounded, carvedPage, inPages, place⟩ := carved.owned chunk member
    exact ⟨bounded, carvedPage, List.mem_cons_of_mem _ inPages, place⟩
  · intro chunk member key inList
    rcases (mem_carvedLists small).mp inList with old | ⟨-, place⟩
    · exact carved.unlisted chunk member key old
    · obtain ⟨-, carvedPage, inPages, livePlace⟩ := carved.owned chunk member
      have away := offPage carvedPage inPages chunk.address _ livePlace
      obtain ⟨after, inside, -⟩ := place.inside small
      have positive : 0 < chunkSize key.2 := Nat.two_pow_pos _
      omega

theorem take (carved : run.Carved lists) (thread : Nat) {size chunk : Nat} {rest : List Nat}
    (small : size ≤ 2048) (listed : lists (thread, smallBucketIndexFromSize size) = chunk :: rest) :
    (takeChunk run.heaps (thread, smallBucketIndexFromSize size)).1 = chunk ∧
      SmallRun.Carved
        { heaps := (takeChunk run.heaps (thread, smallBucketIndexFromSize size)).2
          pages := run.pages, live := ⟨chunk, size⟩ :: run.live }
        (Function.update lists (thread, smallBucketIndexFromSize size) rest) := by
  obtain ⟨returned, linked, keeps⟩ := carved.linked.takeChunk listed
  obtain ⟨key, keyEq⟩ : ∃ key, key = (thread, smallBucketIndexFromSize size) := ⟨_, rfl⟩
  rw [← keyEq] at listed linked keeps returned ⊢
  have member : chunk ∈ lists key := by simp [listed]
  have kept : ∀ other cell, cell ∈ Function.update lists key rest other → cell ∈ lists other := by
    intro other cell inList
    by_cases same : other = key
    · subst same
      rw [Function.update_self] at inList
      rw [listed]
      exact List.mem_cons_of_mem _ inList
    · rwa [Function.update_of_ne same] at inList
  refine ⟨returned, linked, carved.pageFits_of_keeps keeps, carved.pageUnique,
    fun other cell inList => carved.listed other cell (kept other cell inList), ?_, ?_, ?_⟩
  · intro owned live
    rcases List.mem_cons.mp live with here | old
    · subst here
      have place := carved.listed key chunk member
      rw [keyEq] at place
      exact ⟨small, place⟩
    · exact carved.owned owned old
  · refine List.pairwise_cons.mpr ⟨fun owned live same => ?_, carved.distinct⟩
    have here : chunk = owned.address := same
    exact carved.unlisted owned live key (here ▸ member)
  · intro owned live other inList
    rcases List.mem_cons.mp live with here | old
    · subst here
      by_cases same : other = key
      · subst same
        have nodup := carved.linked.queues.nodup other
        rw [listed] at nodup
        rw [Function.update_self] at inList
        exact (List.nodup_cons.mp nodup).1 inList
      · rw [Function.update_of_ne same] at inList
        exact carved.linked.queues.apart key other (Ne.symm same) chunk member inList
    · exact carved.unlisted owned old other (kept other owned.address inList)

/-- An allocation always returns, from the list or from a page it has carved. -/
theorem alloc (carved : run.Carved lists) (thread : Nat) {size page : Nat} (small : size ≤ 2048)
    (fresh : run.FreshPage page) :
    ∃ after newLists, run.alloc thread size page = some after ∧ after.Carved newLists := by
  obtain ⟨bucketSmall, -, -⟩ := smallBucketIndexFromSize_spec small
  have found : smallBucketIndexFromSize size ≠ noBucket :=
    (bucketSmall.trans (by decide)).ne
  unfold SmallRun.alloc smallAlloc
  simp only [if_neg found]
  by_cases empty : run.heaps.firstChunk (thread, smallBucketIndexFromSize size) = 0
  · obtain ⟨heaps, ran, refilled⟩ := carved.refill thread bucketSmall fresh
    have noChunks : lists (thread, smallBucketIndexFromSize size) = [] :=
      (carved.linked.queues.chain _).eq_nil_iff.mpr empty
    have nonempty : carvedLists lists thread (smallBucketIndexFromSize size) page
        (thread, smallBucketIndexFromSize size) ≠ [] := by
      obtain ⟨-, -, positive, -, -⟩ := carving_counts bucketSmall
      unfold carvedLists mainChunks
      rw [if_pos ⟨rfl, rfl⟩, noChunks, List.nil_append, Ne, List.map_eq_nil_iff,
        List.range'_eq_nil_iff]
      omega
    obtain ⟨chunk, rest, listed⟩ := List.exists_cons_of_ne_nil nonempty
    obtain ⟨returned, taken⟩ := refilled.take thread small listed
    refine ⟨_, _, ?_, taken⟩
    simp only [empty, if_true, ran, Option.map_some]
    rw [returned]
  · obtain ⟨rest, listed⟩ := carved.linked.queues.exists_cons empty
    obtain ⟨returned, taken⟩ := carved.take thread small listed
    refine ⟨_, _, ?_, taken⟩
    simp only [empty, if_false, Option.map_some]
    rw [returned]

theorem listedLists (carved : run.Carved lists) : run.Listed lists := by
  refine ⟨carved.linked.queues, carved.linked.tails, carved.listed, ?_⟩
  intro key chunk member owned live
  obtain ⟨page, inPages, place⟩ := carved.listed key chunk member
  obtain ⟨-, ownedPage, ownedIn, ownedPlace⟩ := carved.owned owned live
  exact carved.disjoint ownedIn inPages ownedPlace place
    fun same => carved.unlisted owned live key (same ▸ member)

theorem consistent (carved : run.Carved lists) : run.Consistent := by
  have geometry : ∀ chunk ∈ run.live, ∃ page ∈ run.pages, page.1 % 4096 = 0 ∧
      page.1 + chunkSize chunk.bucket ≤ chunk.address ∧
      chunk.address + chunkSize chunk.bucket ≤ page.1 + 4096 ∧
      chunk.address % chunkSize chunk.bucket = 0 ∧
      smallBucketSize chunk.bucket = chunkSize chunk.bucket := by
    intro chunk member
    obtain ⟨-, page, inPages, place⟩ := carved.owned chunk member
    obtain ⟨aligned, -, small, -⟩ := carved.pageFits page inPages
    obtain ⟨after, inside, slot, offset⟩ := place.inside small
    refine ⟨page, inPages, aligned, after, inside, ?_,
      smallBucketSize_eq (place.bucket_le.trans_lt small)⟩
    have dividesPage : chunkSize chunk.bucket ∣ 4096 := by
      have bounded : chunk.bucket + 3 ≤ 12 := by
        have order := place.bucket_le
        unfold smallBucketCount at small
        omega
      exact pow_dvd_pow 2 bounded
    rw [offset]
    exact Nat.mod_eq_zero_of_dvd (Nat.dvd_add
      (dividesPage.trans (Nat.dvd_of_mod_eq_zero aligned)) (Nat.dvd_mul_left _ _))
  refine ⟨?_, ?_, ?_, ?_, ?_, ?_, ?_⟩
  · refine List.Pairwise.imp_of_mem ?_ carved.distinct
    intro one two oneIn twoIn different
    obtain ⟨-, page, inPages, place⟩ := carved.owned one oneIn
    obtain ⟨-, otherPage, otherIn, otherPlace⟩ := carved.owned two twoIn
    exact carved.disjoint inPages otherIn place otherPlace different
  · intro chunk member
    obtain ⟨page, inPages, aligned, after, inside, -, sized⟩ := geometry chunk member
    refine ⟨page, inPages, aligned, ?_, ?_⟩
    · simp only [LiveChunk.extent]
      omega
    · simp only [LiveChunk.extent, Extent.stop, sized]
      exact inside
  · intro chunk member
    obtain ⟨-, -, -, -, -, -, sized⟩ := geometry chunk member
    rw [sized]
    exact (smallBucketIndexFromSize_spec (carved.owned chunk member).1).2.1
  · intro chunk member
    obtain ⟨-, -, -, -, -, multiple, sized⟩ := geometry chunk member
    rw [sized]
    exact multiple
  · intro chunk member offset
    rw [show (0xfff : Nat) = 2 ^ 12 - 1 from rfl, Bits.and_low] at offset
    exact (carved.isChunkAddress member).2 offset
  · refine ⟨lists, carved.listedLists, fun chunk member thread => ⟨?_, ?_⟩⟩
    · exact (carved.owned chunk member).2
    · exact (carved.free thread member).listedLists
  · intro thread size page small fresh
    obtain ⟨after, -, ran, -⟩ := carved.alloc thread small fresh
    exact ⟨after, ran⟩

end SmallRun.Carved

theorem SmallRun.carved_start {run : SmallRun} (initial : smallMachine.start run) :
    run.Carved (fun _ => []) := by
  obtain ⟨buckets, noPages, noLive⟩ := initial
  refine ⟨⟨⟨fun key => (buckets key).1, by simp, by simp⟩, fun key => ?_, by simp⟩,
    by simp [noPages], by simp [noPages], by simp, by simp [noLive], by simp [noLive], by simp⟩
  simpa using (buckets key).2

/-- Every state that small allocations, frees and writes of the owners can reach. -/
theorem smallHeaps_consistent (run : SmallRun) (reachable : smallMachine.Reachable run) :
    run.Consistent := by
  have invariant : ∃ lists, run.Carved lists := by
    refine @Machine.invariant _ _ smallMachine (fun run => ∃ lists, run.Carved lists)
      ?_ ?_ _ reachable
    · intro first initial
      exact ⟨_, SmallRun.carved_start initial⟩
    · rintro before label after ⟨lists, carved⟩ step
      cases label with
      | alloc thread size page =>
          obtain ⟨small, fresh, ran⟩ := step
          obtain ⟨result, newLists, same, newCarved⟩ := carved.alloc thread small fresh
          rw [ran, Option.some_inj] at same
          exact ⟨newLists, same ▸ newCarved⟩
      | free thread memory =>
          obtain ⟨⟨chunk, member, rfl⟩, rfl⟩ := step
          exact ⟨_, carved.free thread member⟩
      | write address value =>
          obtain ⟨writable, rfl⟩ := step
          exact ⟨lists, carved.write value writable⟩
  obtain ⟨lists, carved⟩ := invariant
  exact carved.consistent

def emptyRun : SmallRun :=
  { heaps := { mem := fun _ => 0, firstChunk := fun _ => 0, lastChunk := fun _ => 0 }
    pages := [], live := [] }

example : (emptyRun.alloc 0 2000 4096).map SmallRun.live = some [⟨6144, 2000⟩] := by decide

theorem smallHeaps_consistent_alloc :
    ∃ after, emptyRun.alloc 0 2000 4096 = some after ∧ after.Consistent := by
  have initial : smallMachine.Reachable emptyRun :=
    Machine.reachable_start _ ⟨fun _ => ⟨rfl, rfl⟩, rfl, rfl⟩
  have fresh : emptyRun.FreshPage 4096 :=
    ⟨by decide, by decide, by decide, fun _ member => by cases member⟩
  obtain ⟨after, ran⟩ := (smallHeaps_consistent _ initial).allocates 0 2000 4096 (by omega) fresh
  have step : smallMachine.step emptyRun (.alloc 0 2000 4096) after := ⟨by omega, fresh, ran⟩
  exact ⟨after, ran, smallHeaps_consistent _ (Machine.reachable_step _ initial step)⟩

end DoggOS.Rt

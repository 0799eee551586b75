/-
What the calls of the small heap leave alone.

A call writes the two link words of free chunks, those of the chunk it frees,
and the page it carves.  Whatever an owner wrote to its own chunk, and
everything outside the chunk pages, stays as it was.
-/

import DoggOS.Rt.SmallHeapRuns

namespace DoggOS.Rt

def KeepsOutside (touched : Nat → Prop) (before after : Nat → Nat) : Prop :=
  ∀ address, ¬ touched address → after address = before address

def Links (touched : Nat → Prop) (chunk : Nat) : Prop :=
  touched chunk ∧ touched (prevAddress chunk)

section Words

variable {touched : Nat → Prop}

theorem KeepsOutside.trans {first second third : Nat → Nat}
    (one : KeepsOutside touched first second) (two : KeepsOutside touched second third) :
    KeepsOutside touched first third :=
  fun address outside => (two address outside).trans (one address outside)

theorem keepsOutside_update {address : Nat} (inside : touched address) (mem : Nat → Nat)
    (value : Nat) : KeepsOutside touched mem (Function.update mem address value) := by
  intro other outside
  refine Function.update_of_ne (fun same => ?_) _ _
  exact outside (same ▸ inside)

def Tails (touched : Nat → Prop) (heaps : SmallHeaps) : Prop :=
  ∀ key, heaps.lastChunk key ≠ 0 → Links touched (heaps.lastChunk key)

theorem linkChunks_keeps {heaps : SmallHeaps} (tails : Tails touched heaps) (bucket : BucketKey)
    {first last : Nat} (firstLinks : Links touched first)
    (lastLinks : last ≠ 0 → Links touched last) :
    KeepsOutside touched heaps.mem (linkChunks heaps bucket first last).mem ∧
      Tails touched (linkChunks heaps bucket first last) := by
  have newTails : ∀ key, Function.update heaps.lastChunk bucket last key ≠ 0 →
      Links touched (Function.update heaps.lastChunk bucket last key) := by
    intro key
    by_cases same : key = bucket
    · subst same
      rw [Function.update_self]
      exact lastLinks
    · rw [Function.update_of_ne same]
      exact tails key
  unfold linkChunks
  by_cases empty : heaps.lastChunk bucket = 0
  · simp only [empty, ne_eq, not_true_eq_false, if_false]
    exact ⟨fun _ _ => rfl, newTails⟩
  · simp only [empty, ne_eq, not_false_eq_true, if_true]
    refine ⟨?_, newTails⟩
    exact (keepsOutside_update (tails bucket empty).1 _ _).trans
      (keepsOutside_update firstLinks.2 _ _)

theorem carveChunks_keeps {page slots : Nat} (positive : 0 < slots)
    (inPage : ∀ offset, offset < pageChunkCount → Links touched (chunkAddress page offset))
    (count : Nat) (carve : Carve) (bounded : carve.curOffset ≤ pageChunkCount)
    (next : carve.nextChunk ≠ 0 → Links touched carve.nextChunk)
    (last : carve.lastChunk ≠ 0 → Links touched carve.lastChunk) :
    KeepsOutside touched carve.mem (carveChunks page slots count carve).mem ∧
      ((carveChunks page slots count carve).lastChunk ≠ 0 →
        Links touched (carveChunks page slots count carve).lastChunk) ∧
      (0 < count → Links touched (carveChunks page slots count carve).nextChunk ∧
        (carveChunks page slots count carve).curOffset < pageChunkCount) := by
  induction count generalizing carve with
  | zero => exact ⟨fun _ _ => rfl, last, fun absurd => by omega⟩
  | succ count ih =>
      have lower : carve.curOffset - slots < pageChunkCount := by
        have some : 0 < pageChunkCount := by decide
        omega
      have links := inPage _ lower
      obtain ⟨after, isAfter⟩ : ∃ after, after = carveChunk page slots carve := ⟨_, rfl⟩
      have step : KeepsOutside touched carve.mem after.mem ∧
          after.nextChunk = chunkAddress page (carve.curOffset - slots) ∧
          after.curOffset = carve.curOffset - slots ∧
          (after.lastChunk ≠ 0 → Links touched after.lastChunk) := by
        rw [isAfter]
        unfold carveChunk
        by_cases first : carve.nextChunk = 0
        · simp only [first, ne_eq, not_true_eq_false, if_false]
          exact ⟨keepsOutside_update links.1 _ _, trivial, trivial, fun _ => links⟩
        · simp only [first, ne_eq, not_false_eq_true, if_true]
          refine ⟨?_, trivial, trivial, last⟩
          exact (keepsOutside_update links.1 _ _).trans (keepsOutside_update (next first).2 _ _)
      obtain ⟨kept, isNext, isOffset, lasts⟩ := step
      have done := ih after (by omega) (fun _ => isNext ▸ links) lasts
      rw [carveChunks, ← isAfter]
      refine ⟨kept.trans done.1, done.2.1, fun _ => ?_⟩
      cases count with
      | zero => exact ⟨show Links touched after.nextChunk from isNext ▸ links,
          show after.curOffset < pageChunkCount by omega⟩
      | succ count => exact done.2.2 (by omega)

theorem carveLadder_keeps {page thread : Nat}
    (inPage : ∀ offset, offset < pageChunkCount → Links touched (chunkAddress page offset))
    (fuel slots curOffset bucketIndex : Nat) {heaps after : SmallHeaps}
    (bounded : curOffset < pageChunkCount) (tails : Tails touched heaps)
    (ran : carveLadder page thread fuel slots curOffset bucketIndex heaps = some after) :
    KeepsOutside touched heaps.mem after.mem := by
  induction fuel generalizing slots curOffset bucketIndex heaps with
  | zero =>
      cases curOffset with
      | zero =>
          rw [carveLadder, Option.some_inj] at ran
          exact ran ▸ fun _ _ => rfl
      | succ curOffset => cases ran
  | succ fuel ih =>
      cases curOffset with
      | zero =>
          rw [carveLadder, Option.some_inj] at ran
          exact ran ▸ fun _ _ => rfl
      | succ curOffset =>
          rw [carveLadder] at ran
          have lower : curOffset + 1 - slots >>> 1 < pageChunkCount := by omega
          have links := inPage _ lower
          obtain ⟨linked, newTails⟩ := @linkChunks_keeps touched
            { heaps with
              mem := Function.update heaps.mem (chunkAddress page (curOffset + 1 - slots >>> 1)) 0 }
            tails (thread, bucketIndex - 1) _ _ links fun _ => links
          have rest := ih _ _ _ lower newTails ran
          exact ((keepsOutside_update links.1 _ _).trans linked).trans rest

end Words

def LinkWord (lists : BucketKey → List Nat) (address : Nat) : Prop :=
  ∃ key, ∃ chunk ∈ lists key, address = chunk ∨ address = prevAddress chunk

namespace SmallHeaps.Linked

variable {heaps : SmallHeaps} {lists : BucketKey → List Nat} {bucket : BucketKey}

theorem links {touched : Nat → Prop} (covers : ∀ address, LinkWord lists address → touched address)
    {key : BucketKey} {chunk : Nat} (member : chunk ∈ lists key) : Links touched chunk :=
  ⟨covers _ ⟨key, chunk, member, Or.inl rfl⟩, covers _ ⟨key, chunk, member, Or.inr rfl⟩⟩

theorem lasts (linked : heaps.Linked lists) {touched : Nat → Prop}
    (covers : ∀ address, LinkWord lists address → touched address) : Tails touched heaps := by
  intro key nonNull
  rw [linked.tails] at nonNull ⊢
  rcases List.eq_nil_or_concat (lists key) with empty | ⟨front, last, listed⟩
  · rw [empty] at nonNull
    exact absurd rfl nonNull
  · rw [List.concat_eq_append] at listed
    refine links covers (show _ ∈ lists key from ?_)
    rw [listed]
    simp

theorem initChunkPage_keeps (linked : heaps.Linked lists) (thread : Nat) {bucketIndex page : Nat}
    (small : bucketIndex < smallBucketCount) {after : SmallHeaps}
    (ran : Rt.initChunkPage heaps thread bucketIndex page = some after) :
    KeepsOutside (fun address => (page ≤ address ∧ address < page + 4096) ∨ LinkWord lists address)
      heaps.mem after.mem := by
  obtain ⟨sized, slotsEq, positive, -, -⟩ := carving_counts small
  obtain ⟨touched, isTouched⟩ : ∃ touched : Nat → Prop, touched = fun address =>
      (page ≤ address ∧ address < page + 4096) ∨ LinkWord lists address := ⟨_, rfl⟩
  have covers : ∀ address, LinkWord lists address → touched address := by
    intro address word
    rw [isTouched]
    exact Or.inr word
  have inPage : ∀ offset, offset < pageChunkCount → Links touched (chunkAddress page offset) := by
    intro offset below
    have bound : offset < 511 := below
    rw [isTouched]
    unfold Links chunkAddress prevAddress headerBytes chunkBytes
    exact ⟨Or.inl (by omega), Or.inl (by omega)⟩
  have header : touched (mainBucketAddress page) := by
    rw [isTouched]
    exact Or.inl (by unfold mainBucketAddress; omega)
  rw [← isTouched]
  unfold Rt.initChunkPage at ran
  simp only [smallBucketSize_eq small, slotsEq] at ran
  obtain ⟨carve, isCarve⟩ : ∃ carve, carve = carveChunks page (2 ^ bucketIndex)
      (pageChunkBytes / chunkSize bucketIndex)
      { mem := setMainBucket heaps.mem page bucketIndex
        curOffset := pageChunkCount, nextChunk := 0, lastChunk := 0 } := ⟨_, rfl⟩
  obtain ⟨carved, last, next⟩ := carveChunks_keeps (Nat.two_pow_pos bucketIndex) inPage
    (pageChunkBytes / chunkSize bucketIndex)
    { mem := setMainBucket heaps.mem page bucketIndex
      curOffset := pageChunkCount, nextChunk := 0, lastChunk := 0 } le_rfl
    (fun null => absurd rfl null) (fun null => absurd rfl null)
  rw [← isCarve] at ran carved last next
  have tails : Tails touched { heaps with mem := carve.mem } := linked.lasts covers
  obtain ⟨joined, newTails⟩ := linkChunks_keeps tails (thread, bucketIndex) (next positive).1 last
  have ladder := carveLadder_keeps inPage _ _ _ _ (next positive).2 newTails ran
  exact (((keepsOutside_update header _ _).trans carved).trans joined).trans ladder

theorem takeChunk_keeps (linked : heaps.Linked lists) {chunk : Nat} {rest : List Nat}
    (listed : lists bucket = chunk :: rest) :
    KeepsOutside (LinkWord lists) heaps.mem (Rt.takeChunk heaps bucket).2.mem := by
  have chain := linked.queues.chain bucket
  rw [listed] at chain
  unfold Rt.takeChunk chunkNext
  rw [chain.1]
  by_cases null : heaps.mem chunk = 0
  · simp only [null, ne_eq, not_true_eq_false, if_false]
    exact fun _ _ => rfl
  · simp only [null, ne_eq, not_false_eq_true, if_true]
    obtain ⟨others, restEq⟩ : ∃ others, rest = heaps.mem chunk :: others := by
      cases rest with
      | nil => exact absurd chain.2.2 null
      | cons second others => exact ⟨others, by rw [chain.2.2.1]⟩
    have member : heaps.mem chunk ∈ lists bucket := by
      rw [listed, restEq]
      simp
    exact keepsOutside_update (links (fun _ word => word) member).2 _ _

theorem smallFree_keeps (linked : heaps.Linked lists) (thread memory : Nat) :
    KeepsOutside
      (fun address => (address = memory ∨ address = prevAddress memory) ∨ LinkWord lists address)
      heaps.mem (Rt.smallFree heaps thread memory).mem := by
  obtain ⟨bucket, isBucket⟩ : ∃ bucket, bucket = (thread, freeBucketIndex heaps.mem memory) :=
    ⟨_, rfl⟩
  have freed : ∀ mem value, KeepsOutside (fun address =>
      (address = memory ∨ address = prevAddress memory) ∨ LinkWord lists address) mem
      (Function.update mem memory value) :=
    keepsOutside_update (Or.inl (Or.inl rfl))
  have linkedBack : ∀ mem value, KeepsOutside (fun address =>
      (address = memory ∨ address = prevAddress memory) ∨ LinkWord lists address) mem
      (Function.update mem (prevAddress memory) value) :=
    keepsOutside_update (Or.inl (Or.inr rfl))
  have linkedIn := ((freed heaps.mem 0).trans (linkedBack _ 0)).trans
    (freed _ (heaps.firstChunk bucket))
  unfold Rt.smallFree
  rw [← isBucket]
  by_cases null : heaps.firstChunk bucket = 0
  · simp only [null, ne_eq, not_true_eq_false, if_false]
    rw [null] at linkedIn
    exact linkedIn
  · simp only [null, ne_eq, not_false_eq_true, if_true]
    obtain ⟨rest, listed⟩ := linked.queues.exists_cons null
    have member : heaps.firstChunk bucket ∈ lists bucket := by
      rw [listed]
      simp
    exact linkedIn.trans (keepsOutside_update (links (fun _ word => Or.inr word) member).2 _ _)

end SmallHeaps.Linked

namespace SmallRun.Carved

variable {run : SmallRun} {lists : BucketKey → List Nat}

/-- What the owners of chunks and of other memory may write is no link word. -/
theorem not_linkWord (carved : run.Carved lists) {address : Nat} (writable : run.Writable address) :
    ¬ LinkWord lists address := by
  rintro ⟨key, chunk, member, isWord⟩
  obtain ⟨page, inPages, place⟩ := carved.listed key chunk member
  obtain ⟨aligned, -, small, -⟩ := carved.pageFits page inPages
  obtain ⟨after, inside, -⟩ := place.inside small
  have eight : 8 ≤ chunkSize key.2 := Nat.le_of_dvd (Nat.two_pow_pos _) (eight_dvd_chunkSize _)
  have inChunk : chunk ≤ address ∧ address < chunk + chunkSize key.2 := by
    unfold prevAddress at isWord
    omega
  rcases writable with ⟨owned, live, contains⟩ | outside
  · refine carved.listedLists.apart key chunk member owned live address ⟨contains, inChunk.1, ?_⟩
    rw [smallBucketSize_eq (place.bucket_le.trans_lt small), Extent.stop_mk]
    exact inChunk.2
  · have away := outside page inPages
    omega

theorem frame (carved : run.Carved lists) {mem : Nat → Nat}
    (agree : ∀ page ∈ run.pages, ∀ address, page.1 ≤ address → address < page.1 + 4096 →
      address % 4 = 0 → mem address = run.heaps.mem address) :
    SmallRun.Carved { run with heaps := { run.heaps with mem } } lists := by
  refine ⟨carved.linked.frame fun key chunk member => ?_, ?_, carved.pageUnique, carved.listed,
    carved.owned, carved.distinct, carved.unlisted⟩
  · obtain ⟨page, inPages, place⟩ := carved.listed key chunk member
    obtain ⟨aligned, -, small, -⟩ := carved.pageFits page inPages
    obtain ⟨after, inside, -⟩ := place.inside small
    have multiple := (place.isChunkAddress small aligned).1
    have positive : 0 < chunkSize key.2 := Nat.two_pow_pos _
    exact agree page inPages chunk (by omega) (by omega) (by omega)
  · intro page inPages
    obtain ⟨aligned, fits, small, header⟩ := carved.pageFits page inPages
    refine ⟨aligned, fits, small, ?_⟩
    rw [← header]
    have header : mainBucketAddress page.1 = page.1 + 4 := rfl
    unfold mainBucket
    simp only
    rw [agree page inPages _ (by omega) (by omega) (by omega)]

/-- An allocation from a bucket that has chunks; it does not use the page. -/
theorem allocListed (carved : run.Carved lists) (thread page : Nat) {size : Nat}
    (small : size ≤ 2048)
    (full : run.heaps.firstChunk (thread, smallBucketIndexFromSize size) ≠ 0) :
    ∃ address heaps newLists, smallAlloc run.heaps thread size page = some (address, heaps) ∧
      SmallRun.Carved ⟨heaps, run.pages, ⟨address, size⟩ :: run.live⟩ newLists ∧
      ∀ other, run.Writable other → heaps.mem other = run.heaps.mem other := by
  obtain ⟨bucketSmall, -, -⟩ := smallBucketIndexFromSize_spec small
  have found : smallBucketIndexFromSize size ≠ noBucket := (bucketSmall.trans (by decide)).ne
  obtain ⟨rest, listed⟩ := carved.linked.queues.exists_cons full
  obtain ⟨returned, taken⟩ := carved.take thread small listed
  refine ⟨_, _, _, ?_, taken, fun other writable => ?_⟩
  · unfold smallAlloc
    simp only [if_neg found, if_neg full]
    rw [← returned]
  · exact carved.linked.takeChunk_keeps listed other (carved.not_linkWord writable)

/-- An allocation that carves a page for its empty bucket. -/
theorem allocCarved (carved : run.Carved lists) (thread : Nat) {size page : Nat}
    (small : size ≤ 2048) (fresh : run.FreshPage page)
    (empty : run.heaps.firstChunk (thread, smallBucketIndexFromSize size) = 0) :
    ∃ address heaps newLists, smallAlloc run.heaps thread size page = some (address, heaps) ∧
      SmallRun.Carved ⟨heaps, (page, smallBucketIndexFromSize size) :: run.pages,
        ⟨address, size⟩ :: run.live⟩ newLists ∧
      ∀ other, run.Writable other → (other < page ∨ page + 4096 ≤ other) →
        heaps.mem other = run.heaps.mem other := by
  obtain ⟨bucketSmall, -, -⟩ := smallBucketIndexFromSize_spec small
  have found : smallBucketIndexFromSize size ≠ noBucket := (bucketSmall.trans (by decide)).ne
  obtain ⟨heaps, ran, refilled⟩ := carved.refill thread bucketSmall fresh
  have nonempty : carvedLists lists thread (smallBucketIndexFromSize size) page
      (thread, smallBucketIndexFromSize size) ≠ [] := by
    obtain ⟨-, -, positive, -, -⟩ := carving_counts bucketSmall
    unfold carvedLists mainChunks
    rw [if_pos ⟨rfl, rfl⟩]
    intro none
    have noChunks := (List.append_eq_nil_iff.mp none).2
    rw [List.map_eq_nil_iff, List.range'_eq_nil_iff] at noChunks
    omega
  obtain ⟨chunk, rest, listed⟩ := List.exists_cons_of_ne_nil nonempty
  obtain ⟨returned, taken⟩ := refilled.take thread small listed
  refine ⟨_, _, _, ?_, taken, fun other writable away => ?_⟩
  · unfold smallAlloc
    simp only [if_neg found, if_pos empty, ran, Option.map_some]
    rw [← returned]
  · have notLink := carved.not_linkWord writable
    have carving := carved.linked.initChunkPage_keeps thread bucketSmall ran
    rw [refilled.linked.takeChunk_keeps listed other ?_]
    · refine carving other ?_
      rintro (inPage | isWord)
      · omega
      · exact notLink isWord
    · rintro ⟨key, cell, member, isWord⟩
      rcases (mem_carvedLists bucketSmall).mp member with old | ⟨-, place⟩
      · exact notLink ⟨key, cell, old, isWord⟩
      · obtain ⟨after, inside, -⟩ := place.inside bucketSmall
        have eight : 8 ≤ chunkSize key.2 :=
          Nat.le_of_dvd (Nat.two_pow_pos _) (eight_dvd_chunkSize _)
        unfold prevAddress at isWord
        omega

theorem free_keeps (carved : run.Carved lists) (thread : Nat) {chunk : LiveChunk}
    (member : chunk ∈ run.live) {address : Nat} (writable : run.Writable address)
    (away : ¬ chunk.extent.Contains address) :
    (smallFree run.heaps thread chunk.address).mem address = run.heaps.mem address := by
  refine carved.linked.smallFree_keeps thread chunk.address address ?_
  rintro (isWord | isWord)
  · obtain ⟨-, page, inPages, place⟩ := carved.owned chunk member
    obtain ⟨-, -, small, -⟩ := carved.pageFits page inPages
    have eight : 8 ≤ chunkSize chunk.bucket :=
      Nat.le_of_dvd (Nat.two_pow_pos _) (eight_dvd_chunkSize _)
    apply away
    simp only [Extent.Contains, Extent.stop, LiveChunk.extent,
      smallBucketSize_eq (place.bucket_le.trans_lt small)]
    unfold prevAddress at isWord
    omega
  · exact carved.not_linkWord writable isWord

end SmallRun.Carved

end DoggOS.Rt

/-
The small heap calls as list edits.

A refill puts every chunk of a fresh page on the list of the size it was carved
with; an allocation removes the first chunk of one list; a free puts the chunk
in front of the list that its page offset and the page header select.  No call
but the refill writes a page header, and the refill writes only its own.
-/

import DoggOS.Library.Bits
import DoggOS.Rt.SmallHeapLists

namespace DoggOS.Rt

theorem KeepsHeaders.mainBucket {before after : Nat → Nat} (keeps : KeepsHeaders before after)
    {page : Nat} (pageAligned : page % 4096 = 0) :
    Rt.mainBucket after page = Rt.mainBucket before page := by
  have header : mainBucketAddress page % 4096 = 4 := by
    unfold mainBucketAddress
    omega
  unfold Rt.mainBucket
  rw [keeps _ header]

theorem mainBucket_setMainBucket (mem : Nat → Nat) (page : Nat) {bucket : Nat}
    (small : bucket < smallBucketCount) :
    mainBucket (setMainBucket mem page bucket) page = bucket := by
  unfold smallBucketCount at small
  unfold mainBucket setMainBucket
  rw [Function.update_self]
  omega

def carvedLists (lists : BucketKey → List Nat) (thread bucket page : Nat) (key : BucketKey) :
    List Nat :=
  if key.1 = thread ∧ key.2 = bucket then
    lists key ++ mainChunks page (chunkSize bucket) (pageChunkBytes / chunkSize bucket)
  else if key.1 = thread ∧ key.2 < bucket then lists key ++ [page + chunkSize key.2]
  else lists key

theorem carving_counts {bucket : Nat} (small : bucket < smallBucketCount) :
    chunkSize bucket = 8 * 2 ^ bucket ∧ chunkSize bucket / smallBucketSize 0 = 2 ^ bucket ∧
      0 < pageChunkBytes / chunkSize bucket ∧
      pageChunkBytes / chunkSize bucket * (8 * 2 ^ bucket) < 4096 ∧
      pageChunkCount = pageChunkBytes / chunkSize bucket * 2 ^ bucket + (2 ^ bucket - 1) := by
  unfold smallBucketCount at small
  interval_cases bucket <;> decide

theorem mem_carvedLists {lists : BucketKey → List Nat} {thread bucket page : Nat}
    (small : bucket < smallBucketCount) {key : BucketKey} {chunk : Nat} :
    chunk ∈ carvedLists lists thread bucket page key ↔
      chunk ∈ lists key ∨ (key.1 = thread ∧ CarvedAt page bucket chunk key.2) := by
  obtain ⟨sized, -, -, below, counted⟩ := carving_counts small
  have slotBound : ∀ slot, slot ≤ pageChunkBytes / chunkSize bucket ↔
      slot * chunkSize bucket < 4096 := by
    intro slot
    have dividesPage : chunkSize bucket ∣ 4096 := by
      unfold smallBucketCount at small
      unfold chunkSize
      interval_cases bucket <;> decide
    obtain ⟨total, whole⟩ := dividesPage
    have positive : 0 < chunkSize bucket := Nat.two_pow_pos _
    have eight : 8 ≤ chunkSize bucket := Nat.le_of_dvd positive (eight_dvd_chunkSize bucket)
    rw [Nat.le_div_iff_mul_le positive]
    unfold pageChunkBytes headerBytes
    constructor
    · intro fits
      omega
    · intro inside
      rw [whole, Nat.mul_comm] at inside
      have earlier : slot + 1 ≤ total := Nat.lt_of_mul_lt_mul_left inside
      have room := Nat.mul_le_mul_right (chunkSize bucket) earlier
      rw [Nat.mul_comm total, ← whole, Nat.succ_mul] at room
      omega
  unfold carvedLists
  split_ifs with main ladder
  · rw [List.mem_append, mem_mainChunks]
    refine or_congr Iff.rfl ⟨?_, ?_⟩
    · rintro ⟨slot, ⟨positive, bound⟩, rfl⟩
      exact ⟨main.1, Or.inl ⟨main.2, slot, positive, (slotBound slot).mp bound, rfl⟩⟩
    · rintro ⟨-, ⟨-, slot, positive, bound, rfl⟩ | ⟨lower, -⟩⟩
      · exact ⟨slot, ⟨positive, (slotBound slot).mpr bound⟩, rfl⟩
      · omega
  · rw [List.mem_append, List.mem_singleton]
    refine or_congr Iff.rfl ⟨fun same => ⟨ladder.1, Or.inr ⟨ladder.2, same⟩⟩, ?_⟩
    rintro ⟨-, ⟨same, -⟩ | ⟨-, place⟩⟩
    · omega
    · exact place
  · refine ⟨Or.inl, ?_⟩
    rintro (old | ⟨sameThread, carved⟩)
    · exact old
    · have bounded := carved.bucket_le
      rcases Nat.lt_or_eq_of_le bounded with lower | same
      · exact absurd ⟨sameThread, lower⟩ ladder
      · exact absurd ⟨sameThread, same⟩ main

namespace SmallHeaps.Linked

variable {heaps : SmallHeaps} {lists : BucketKey → List Nat} {bucket : BucketKey}

theorem initChunkPage (linked : heaps.Linked lists) (thread : Nat) {bucketIndex page : Nat}
    (small : bucketIndex < smallBucketCount) (pageAligned : page % 4096 = 0)
    (fresh : ∀ key, ∀ chunk ∈ lists key, chunk < page ∨ page + 4096 ≤ chunk) :
    ∃ after, Rt.initChunkPage heaps thread bucketIndex page = some after ∧
      after.Linked (carvedLists lists thread bucketIndex page) ∧
      mainBucket after.mem page = bucketIndex ∧
      ∀ address, address % 4096 = 4 → address ≠ mainBucketAddress page →
        after.mem address = heaps.mem address := by
  obtain ⟨sized, slotsEq, positive, below, counted⟩ := carving_counts small
  obtain ⟨count, counting⟩ : ∃ count, pageChunkBytes / chunkSize bucketIndex = count + 1 :=
    ⟨_, (Nat.succ_pred_eq_of_pos positive).symm⟩
  have header : mainBucketAddress page = page + 4 := rfl
  have slotsPositive : 0 < 2 ^ bucketIndex := Nat.two_pow_pos bucketIndex
  obtain ⟨carve, carveEq⟩ : ∃ carve, carve = carveChunks page (2 ^ bucketIndex)
      (pageChunkBytes / chunkSize bucketIndex)
      { mem := setMainBucket heaps.mem page bucketIndex
        curOffset := pageChunkCount, nextChunk := 0, lastChunk := 0 } := ⟨_, rfl⟩
  obtain ⟨offset, chain, last, outside⟩ := carveChunks_spec pageAligned slotsPositive
    (pageChunkBytes / chunkSize bucketIndex)
    { mem := setMainBucket heaps.mem page bucketIndex
      curOffset := pageChunkCount, nextChunk := 0, lastChunk := 0 }
    [] below counted rfl rfl (by simp)
  rw [← carveEq, List.append_nil] at chain last
  rw [← carveEq] at offset outside
  have headers : ∀ address, address % 4096 = 4 → address ≠ mainBucketAddress page →
      carve.mem address = heaps.mem address := by
    intro address atHeader notHere
    rw [outside address (by omega)]
    exact Function.update_of_ne notHere _ _
  have carvedLinked : SmallHeaps.Linked { heaps with mem := carve.mem } lists := by
    refine linked.frame fun key chunk member => ?_
    have away := fresh key chunk member
    rw [outside chunk (by omega)]
    exact Function.update_of_ne (by omega) _ _
  rw [← sized, counting, mainChunks_succ] at chain last
  have lastEq : carve.lastChunk = page + (count + 1) * chunkSize bucketIndex := by
    rw [last]
    simp
  have inPage : ∀ chunk ∈ mainChunks page (chunkSize bucketIndex) count ++
      [page + (count + 1) * chunkSize bucketIndex],
      page + chunkSize bucketIndex ≤ chunk ∧ chunk < page + 4096 ∧ chunk % 8 = 0 := by
    intro chunk member
    rw [← mainChunks_succ, mem_mainChunks] at member
    obtain ⟨slot, ⟨atLeast, atMost⟩, rfl⟩ := member
    have first := Nat.le_mul_of_pos_left (chunkSize bucketIndex) atLeast
    have bounded := Nat.mul_le_mul_right (chunkSize bucketIndex) atMost
    rw [counting, ← sized] at below
    have multiple := Nat.dvd_mul_left_of_dvd (eight_dvd_chunkSize bucketIndex) slot
    omega
  have room : chunkSize bucketIndex ≤ 4096 := by
    have first := Nat.le_mul_of_pos_left (8 * 2 ^ bucketIndex) positive
    omega
  obtain ⟨nextLinked, nextHeaders⟩ := @SmallHeaps.Linked.linkChunks _ _ (thread, bucketIndex)
    carvedLinked carve.nextChunk _ _ chain
    (by
      rw [← mainChunks_succ]
      exact mainChunks_nodup page _ (by omega))
    (fun key chunk member listed => by
      have inside := inPage chunk member
      have away := fresh key chunk listed
      omega)
    (fun chunk member => by
      have inside := inPage chunk member
      unfold IsChunkAddress
      omega)
  obtain ⟨after, ran, afterLinked, afterHeaders⟩ := @carveLadder_spec page thread
    pageAligned bucketIndex small smallBucketCount small.le _ _ nextLinked
    (by
      intro key chunk member
      by_cases same : key = (thread, bucketIndex)
      · subst same
        rw [Function.update_self] at member
        rcases List.mem_append.mp member with old | new
        · have away := fresh _ chunk old
          omega
        · exact Or.inr (inPage chunk new).1
      · rw [Function.update_of_ne same] at member
        have away := fresh key chunk member
        omega)
  have keeps := nextHeaders.trans afterHeaders
  refine ⟨after, ?_, ?_, ?_, ?_⟩
  · unfold Rt.initChunkPage
    simp only [slotsEq, smallBucketSize_eq small, ← carveEq, offset, lastEq]
    exact ran
  · convert afterLinked using 2 with key
    unfold carvedLists
    by_cases main : key = (thread, bucketIndex)
    · subst main
      simp [counting, mainChunks_succ]
    · rw [Function.update_of_ne main, if_neg fun both => main (Prod.ext both.1 both.2)]
  · rw [keeps.mainBucket pageAligned]
    unfold mainBucket
    simp only
    rw [outside _ (by omega)]
    exact mainBucket_setMainBucket heaps.mem page small
  · intro address atHeader notHere
    rw [keeps address atHeader]
    exact headers address atHeader notHere

theorem takeChunk (linked : heaps.Linked lists) {chunk : Nat} {rest : List Nat}
    (listed : lists bucket = chunk :: rest) :
    (Rt.takeChunk heaps bucket).1 = chunk ∧
      (Rt.takeChunk heaps bucket).2.Linked (Function.update lists bucket rest) ∧
      KeepsHeaders heaps.mem (Rt.takeChunk heaps bucket).2.mem := by
  have chain := linked.queues.chain bucket
  have tail := linked.tails bucket
  rw [listed] at chain tail
  have popped := linked.queues.popFront listed
  have restAligned : ∀ key, ∀ cell ∈ Function.update lists bucket rest key,
      IsChunkAddress cell := by
    intro key cell member
    by_cases same : key = bucket
    · subst same
      rw [Function.update_self] at member
      exact linked.aligned key cell (listed ▸ List.mem_cons_of_mem _ member)
    · rw [Function.update_of_ne same] at member
      exact linked.aligned key cell member
  unfold Rt.takeChunk chunkNext
  rw [chain.1]
  by_cases null : heaps.mem chunk = 0
  · have empty : rest = [] := chain.2.2.eq_nil_iff.mpr null
    have newTails : ∀ key, Function.update heaps.lastChunk bucket 0 key =
        (Function.update lists bucket rest key).getLastD 0 := by
      intro key
      by_cases same : key = bucket
      · subst same
        simp [empty]
      · rw [Function.update_of_ne same, Function.update_of_ne same]
        exact linked.tails key
    rw [null] at popped
    simp only [null, ne_eq, not_true_eq_false, if_false]
    exact ⟨trivial, ⟨popped, newTails, restAligned⟩, fun _ _ => rfl⟩
  · simp only [ne_eq, null, not_false_eq_true, if_true]
    obtain ⟨second, others, restEq⟩ : ∃ second others, rest = second :: others := by
      cases rest with
      | nil => exact absurd chain.2.2 null
      | cons second others => exact ⟨second, others, rfl⟩
    have nextEq : heaps.mem chunk = second := by
      have next := chain.2.2
      rw [restEq] at next
      exact next.1
    have secondAligned : IsChunkAddress (heaps.mem chunk) := by
      rw [nextEq]
      exact linked.aligned bucket second (by simp [listed, restEq])
    have whole : SmallHeaps.Linked
        { mem := heaps.mem, firstChunk := Function.update heaps.firstChunk bucket (heaps.mem chunk)
          lastChunk := heaps.lastChunk } (Function.update lists bucket rest) := by
      refine ⟨popped, fun key => ?_, restAligned⟩
      by_cases same : key = bucket
      · subst same
        rw [Function.update_self, restEq]
        simpa [restEq] using tail
      · rw [Function.update_of_ne same]
        exact linked.tails key
    refine ⟨trivial, whole.frame fun key cell member => ?_, keepsHeaders_prev secondAligned _ _⟩
    refine Function.update_of_ne (fun same => ?_) _ _
    exact whole.prev_not_mem secondAligned key (same ▸ member)

/-- The chunk goes to the front of the list that its page selects. -/
theorem smallFree (linked : heaps.Linked lists) (thread : Nat) {memory : Nat}
    (aligned : IsChunkAddress memory) (absent : ∀ key, memory ∉ lists key) :
    (Rt.smallFree heaps thread memory).Linked
        (Function.update lists (thread, freeBucketIndex heaps.mem memory)
          (memory :: lists (thread, freeBucketIndex heaps.mem memory))) ∧
      KeepsHeaders heaps.mem (Rt.smallFree heaps thread memory).mem := by
  obtain ⟨bucket, bucketEq⟩ : ∃ bucket, bucket = (thread, freeBucketIndex heaps.mem memory) :=
    ⟨_, rfl⟩
  have nonNull : memory ≠ 0 := fun null => aligned.2 (by rw [null])
  obtain ⟨cleared, clearedEq⟩ : ∃ cleared, cleared =
      Function.update (Function.update heaps.mem memory 0) (prevAddress memory) 0 := ⟨_, rfl⟩
  have clearedHeaders : KeepsHeaders heaps.mem cleared := by
    rw [clearedEq]
    exact (keepsHeaders_link aligned _ _).trans (keepsHeaders_prev aligned _ _)
  have clearedLinked : SmallHeaps.Linked { heaps with mem := cleared } lists := by
    refine linked.frame fun key chunk member => ?_
    have notPrev : chunk ≠ prevAddress memory := fun same =>
      linked.prev_not_mem aligned key (same ▸ member)
    rw [clearedEq, Function.update_of_ne notPrev]
    exact Function.update_of_ne (fun same : chunk = memory => absent key (same ▸ member)) _ _
  have pushed := @Queues.pushFront _ _ _ _ bucket _ _ clearedLinked.queues nonNull absent
  have allAligned : ∀ key, ∀ cell ∈ Function.update lists bucket (memory :: lists bucket) key,
      IsChunkAddress cell := by
    intro key cell member
    by_cases same : key = bucket
    · subst same
      rw [Function.update_self] at member
      rcases List.mem_cons.mp member with here | old
      · exact here ▸ aligned
      · exact linked.aligned key cell old
    · rw [Function.update_of_ne same] at member
      exact linked.aligned key cell member
  have headers := clearedHeaders.trans
    (keepsHeaders_link aligned cleared (heaps.firstChunk bucket))
  unfold Rt.smallFree
  rw [← bucketEq, ← clearedEq]
  by_cases null : heaps.firstChunk bucket = 0
  · have empty : lists bucket = [] := (linked.queues.chain bucket).eq_nil_iff.mpr null
    have newTails : ∀ key, Function.update heaps.lastChunk bucket memory key =
        (Function.update lists bucket (memory :: lists bucket) key).getLastD 0 := by
      intro key
      by_cases same : key = bucket
      · subst same
        simp [empty]
      · rw [Function.update_of_ne same, Function.update_of_ne same]
        exact linked.tails key
    simp only [null] at pushed headers
    simp only [null, ne_eq, not_true_eq_false, if_false]
    exact ⟨⟨pushed, newTails, allAligned⟩, headers⟩
  · simp only [ne_eq, null, not_false_eq_true, if_true]
    obtain ⟨rest, listed⟩ := linked.queues.exists_cons null
    have firstAligned : IsChunkAddress (heaps.firstChunk bucket) :=
      linked.aligned bucket _ (by simp [listed])
    have whole : SmallHeaps.Linked
        { mem := Function.update cleared memory (heaps.firstChunk bucket)
          firstChunk := Function.update heaps.firstChunk bucket memory
          lastChunk := heaps.lastChunk }
        (Function.update lists bucket (memory :: lists bucket)) := by
      refine ⟨pushed, fun key => ?_, allAligned⟩
      by_cases same : key = bucket
      · subst same
        rw [Function.update_self, linked.tails, listed]
        simp
      · rw [Function.update_of_ne same]
        exact linked.tails key
    refine ⟨whole.frame fun key cell member => ?_,
      headers.trans (keepsHeaders_prev firstAligned _ _)⟩
    refine Function.update_of_ne (fun same => ?_) _ _
    exact whole.prev_not_mem firstAligned key (same ▸ member)

end SmallHeaps.Linked

/-- The bucket a chunk is freed to is the one it was carved with. -/
theorem freeBucketIndex_eq {mem : Nat → Nat} {page main chunk bucket : Nat}
    (carved : CarvedAt page main chunk bucket) (small : main < smallBucketCount)
    (pageAligned : page % 4096 = 0) (fits : page + 4096 ≤ 2 ^ 32)
    (header : mainBucket mem page = main) : freeBucketIndex mem chunk = bucket := by
  obtain ⟨after, inside, -⟩ := carved.inside small
  have positive : 0 < chunkSize bucket := Nat.two_pow_pos _
  have mask : (0xfffff000 : Nat) = 2 ^ 32 - 2 ^ 12 := rfl
  have pageEq : chunk &&& 0xfffff000 = page := by
    rw [mask, Bits.and_high chunk 12 32 (by omega) (by omega)]
    omega
  unfold freeBucketIndex
  simp only [pageEq, header]
  exact carved.bucket_of_offset small

end DoggOS.Rt

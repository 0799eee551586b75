/-
The bucket lists of the small heap as a family of disjoint queues.

`Linked heaps lists` says that the links stored in memory spell the lists, that
`last_chunk` is the last chunk of each list or null, and that every listed chunk
lies at a chunk address.  Each statement group of the allocator is then one
edit: linking a run of chunks behind a list, carving a page, taking the first
chunk and putting a chunk back in front.
-/

import DoggOS.Library.LinkedQueues
import DoggOS.Rt.ChunkGeometry

namespace DoggOS.Rt

/-- Chunks are aligned to eight bytes and never start a page. -/
def IsChunkAddress (chunk : Nat) : Prop := chunk % 8 = 0 ∧ chunk % 4096 ≠ 0

def KeepsHeaders (before after : Nat → Nat) : Prop :=
  ∀ address, address % 4096 = 4 → after address = before address

theorem KeepsHeaders.trans {first second third : Nat → Nat} (one : KeepsHeaders first second)
    (two : KeepsHeaders second third) : KeepsHeaders first third :=
  fun address header => (two address header).trans (one address header)

theorem keepsHeaders_link {chunk : Nat} (aligned : IsChunkAddress chunk) (mem : Nat → Nat)
    (link : Nat) : KeepsHeaders mem (Function.update mem chunk link) :=
  fun address header => Function.update_of_ne (by have := aligned.1; omega) _ _

theorem keepsHeaders_prev {chunk : Nat} (aligned : IsChunkAddress chunk) (mem : Nat → Nat)
    (link : Nat) : KeepsHeaders mem (Function.update mem (prevAddress chunk) link) := by
  obtain ⟨_, notPage⟩ := aligned
  intro address header
  refine Function.update_of_ne ?_ _ _
  unfold prevAddress
  omega

structure SmallHeaps.Linked (heaps : SmallHeaps) (lists : BucketKey → List Nat) : Prop where
  queues : Queues heaps.mem heaps.firstChunk lists
  tails : ∀ bucket, heaps.lastChunk bucket = (lists bucket).getLastD 0
  aligned : ∀ bucket, ∀ chunk ∈ lists bucket, IsChunkAddress chunk

namespace SmallHeaps.Linked

variable {heaps : SmallHeaps} {lists : BucketKey → List Nat} {bucket : BucketKey}

theorem prev_not_mem (linked : heaps.Linked lists) {chunk : Nat} (aligned : IsChunkAddress chunk)
    (key : BucketKey) : prevAddress chunk ∉ lists key := by
  intro member
  have listed := (linked.aligned key _ member).1
  have self := aligned.1
  unfold prevAddress at listed
  omega

theorem frame (linked : heaps.Linked lists) {mem : Nat → Nat}
    (agree : ∀ key, ∀ chunk ∈ lists key, mem chunk = heaps.mem chunk) :
    SmallHeaps.Linked { heaps with mem := mem } lists :=
  ⟨linked.queues.frame agree, linked.tails, linked.aligned⟩

theorem getLastD_eq_zero_iff (linked : heaps.Linked lists) :
    (lists bucket).getLastD 0 = 0 ↔ lists bucket = [] := by
  rcases List.eq_nil_or_concat (lists bucket) with empty | ⟨front, last, listed⟩
  · simp [empty]
  · rw [List.concat_eq_append] at listed
    have nonNull : last ≠ 0 :=
      (linked.queues.chain bucket).ne_zero_of_mem (by simp [listed])
    rw [listed]
    simp [nonNull]

theorem linkChunks (linked : heaps.Linked lists) {first last : Nat} {front : List Nat}
    (chain : Chain heaps.mem first (front ++ [last])) (nodup : (front ++ [last]).Nodup)
    (fresh : ∀ key, ∀ chunk ∈ front ++ [last], chunk ∉ lists key)
    (aligned : ∀ chunk ∈ front ++ [last], IsChunkAddress chunk) :
    (Rt.linkChunks heaps bucket first last).Linked
        (Function.update lists bucket (lists bucket ++ (front ++ [last]))) ∧
      KeepsHeaders heaps.mem (Rt.linkChunks heaps bucket first last).mem := by
  have firstAligned : IsChunkAddress first := by
    cases front with
    | nil => exact chain.1 ▸ aligned last (by simp)
    | cons head rest => exact chain.1 ▸ aligned head (by simp)
  have newAligned : ∀ key, ∀ chunk ∈ Function.update lists bucket
      (lists bucket ++ (front ++ [last])) key, IsChunkAddress chunk := by
    intro key chunk member
    by_cases same : key = bucket
    · subst same
      rw [Function.update_self] at member
      rcases List.mem_append.mp member with old | new
      · exact linked.aligned key chunk old
      · exact aligned chunk new
    · rw [Function.update_of_ne same] at member
      exact linked.aligned key chunk member
  have newTails : ∀ key, Function.update heaps.lastChunk bucket last key =
      (Function.update lists bucket (lists bucket ++ (front ++ [last])) key).getLastD 0 := by
    intro key
    by_cases same : key = bucket
    · subst same
      simp [← List.append_assoc]
    · rw [Function.update_of_ne same, Function.update_of_ne same]
      exact linked.tails key
  unfold Rt.linkChunks
  by_cases empty : heaps.lastChunk bucket = 0
  · have none : lists bucket = [] := by
      rw [← linked.getLastD_eq_zero_iff, ← linked.tails]
      exact empty
    simp only [empty, ne_eq, not_true_eq_false, if_false]
    refine ⟨⟨?_, newTails, newAligned⟩, fun _ _ => rfl⟩
    rw [none, List.nil_append]
    exact linked.queues.replace chain nodup (fun key _ => fresh key) fun _ _ _ _ => rfl
  · have inList : lists bucket ≠ [] := by
      rw [Ne, ← linked.getLastD_eq_zero_iff, ← linked.tails]
      exact empty
    obtain ⟨old, oldLast, listed⟩ : ∃ old oldLast, lists bucket = old ++ [oldLast] :=
      ⟨_, _, (List.dropLast_append_getLast inList).symm⟩
    have isLast : heaps.lastChunk bucket = oldLast := by
      rw [linked.tails, listed]
      simp
    have oldMember : oldLast ∈ lists bucket := by simp [listed]
    have oldAligned : IsChunkAddress oldLast := linked.aligned bucket oldLast oldMember
    rw [isLast] at empty
    simp only [isLast, ne_eq, empty, not_false_eq_true, if_true]
    have appended : Queues (Function.update heaps.mem oldLast first) heaps.firstChunk
        (Function.update lists bucket (lists bucket ++ (front ++ [last]))) := by
      refine linked.queues.append listed ?_ nodup fresh fun key chunk _ different => ?_
      · rw [Function.update_self]
        exact chain.update (fun member => fresh bucket oldLast member oldMember) first
      · exact Function.update_of_ne different _ _
    have whole : SmallHeaps.Linked
        { mem := Function.update heaps.mem oldLast first
          firstChunk := heaps.firstChunk
          lastChunk := Function.update heaps.lastChunk bucket last }
        (Function.update lists bucket (lists bucket ++ (front ++ [last]))) :=
      ⟨appended, newTails, newAligned⟩
    refine ⟨whole.frame fun key chunk member => Function.update_of_ne (fun same => ?_) _ _,
      (keepsHeaders_link oldAligned _ _).trans (keepsHeaders_prev firstAligned _ _)⟩
    exact whole.prev_not_mem firstAligned key (same ▸ member)

end SmallHeaps.Linked

/-! ### Carving a page -/

def mainChunks (page size count : Nat) : List Nat :=
  (List.range' 1 count).map (fun slot => page + slot * size)

theorem mem_mainChunks {page size count chunk : Nat} :
    chunk ∈ mainChunks page size count ↔
      ∃ slot, (0 < slot ∧ slot ≤ count) ∧ chunk = page + slot * size := by
  unfold mainChunks
  rw [List.mem_map]
  constructor
  · rintro ⟨slot, inRange, rfl⟩
    exact ⟨slot, by rw [List.mem_range'_1] at inRange; omega, rfl⟩
  · rintro ⟨slot, inRange, rfl⟩
    exact ⟨slot, by rw [List.mem_range'_1]; omega, rfl⟩

theorem mainChunks_succ (page size count : Nat) :
    mainChunks page size (count + 1) =
      mainChunks page size count ++ [page + (count + 1) * size] := by
  unfold mainChunks
  rw [List.range'_1_concat, List.map_append, List.map_singleton, Nat.add_comm 1 count]

theorem mainChunks_nodup (page count : Nat) {size : Nat} (positive : 0 < size) :
    (mainChunks page size count).Nodup := by
  refine List.Nodup.map (fun one two same => ?_) List.nodup_range'
  have products : one * size = two * size := by
    have sums : page + one * size = page + two * size := same
    omega
  exact Nat.eq_of_mul_eq_mul_right positive products

/-- The first loop of `k_rt_InitChunkPage` builds the chain of main chunks, from
the last one down, inside the page and behind its header. -/
theorem carveChunks_spec {page slots : Nat} (pageAligned : page % 4096 = 0) (positive : 0 < slots)
    (count : Nat) (carve : Carve) (listed : List Nat)
    (fits : count * (8 * slots) < 4096)
    (offset : carve.curOffset = count * slots + (slots - 1))
    (chain : Chain carve.mem carve.nextChunk listed)
    (tail : carve.lastChunk = listed.getLastD 0)
    (above : ∀ chunk ∈ listed, page + count * (8 * slots) < chunk ∧ chunk + 8 ≤ page + 4096 ∧
      chunk % 8 = 0) :
    (carveChunks page slots count carve).curOffset = slots - 1 ∧
      Chain (carveChunks page slots count carve).mem (carveChunks page slots count carve).nextChunk
        (mainChunks page (8 * slots) count ++ listed) ∧
      (carveChunks page slots count carve).lastChunk =
        (mainChunks page (8 * slots) count ++ listed).getLastD 0 ∧
      ∀ address, address < page + 8 ∨ page + 4096 ≤ address →
        (carveChunks page slots count carve).mem address = carve.mem address := by
  induction count generalizing carve listed with
  | zero =>
      refine ⟨?_, chain, tail, fun _ _ => rfl⟩
      rw [Nat.zero_mul, Nat.zero_add] at offset
      exact offset
  | succ count ih =>
      have product : (count + 1) * (8 * slots) = count * (8 * slots) + 8 * slots := by ring
      have offsets : (count + 1) * slots = count * slots + slots := by ring
      have scaled : count * (8 * slots) = 8 * (count * slots) := by ring
      obtain ⟨top, topEq⟩ : ∃ top, top = page + (count + 1) * (8 * slots) := ⟨_, rfl⟩
      have chunkEq : chunkAddress page (carve.curOffset - slots) = top := by
        unfold chunkAddress headerBytes chunkBytes
        omega
      have absent : top ∉ listed := fun member => by
        have beyond := (above top member).1
        omega
      have linked : Chain (Function.update carve.mem top carve.nextChunk) top (top :: listed) := by
        refine ⟨rfl, by omega, ?_⟩
        rw [Function.update_self]
        exact chain.update absent _
      have newAbove : ∀ chunk ∈ top :: listed,
          page + count * (8 * slots) < chunk ∧ chunk + 8 ≤ page + 4096 ∧ chunk % 8 = 0 := by
        intro chunk member
        rcases List.mem_cons.mp member with same | later
        · subst same
          omega
        · have old := above chunk later
          omega
      have listing : mainChunks page (8 * slots) (count + 1) ++ listed =
          mainChunks page (8 * slots) count ++ (top :: listed) := by
        rw [mainChunks_succ, List.append_assoc, List.singleton_append, topEq]
      rw [carveChunks, listing]
      by_cases first : carve.nextChunk = 0
      · have empty : listed = [] := chain.eq_nil_iff.mpr first
        have step : carveChunk page slots carve =
            { mem := Function.update carve.mem top carve.nextChunk
              curOffset := carve.curOffset - slots, nextChunk := top, lastChunk := top } := by
          unfold carveChunk
          simp only [first, chunkEq, ne_eq, not_true_eq_false, if_false]
        have done := ih (carveChunk page slots carve) (top :: listed)
          (by omega) (by rw [step]; simp only; omega) (by rw [step]; exact linked)
          (by rw [step, empty]; rfl) newAbove
        refine ⟨done.1, done.2.1, done.2.2.1, fun address outside => ?_⟩
        rw [done.2.2.2 address outside, step]
        exact Function.update_of_ne (by omega) _ _
      · obtain ⟨rest, headed⟩ : ∃ rest, listed = carve.nextChunk :: rest := by
          cases listed with
          | nil => exact absurd chain first
          | cons head rest => exact ⟨rest, by rw [chain.1]⟩
        have nextAbove := above carve.nextChunk (by simp [headed])
        have step : carveChunk page slots carve =
            { mem := Function.update (Function.update carve.mem top carve.nextChunk)
                (carve.nextChunk + 4) top
              curOffset := carve.curOffset - slots, nextChunk := top
              lastChunk := carve.lastChunk } := by
          unfold carveChunk prevAddress
          simp only [first, chunkEq, ne_eq, not_false_eq_true, if_true]
        have stillLinked : Chain (Function.update (Function.update carve.mem top carve.nextChunk)
            (carve.nextChunk + 4) top) top (top :: listed) := by
          refine linked.update (fun member => ?_) _
          have aligned := (newAbove _ member).2.2
          omega
        have done := ih (carveChunk page slots carve) (top :: listed)
          (by omega) (by rw [step]; simp only; omega) (by rw [step]; exact stillLinked)
          (by rw [step, tail, headed]; rfl) newAbove
        refine ⟨done.1, done.2.1, done.2.2.1, fun address outside => ?_⟩
        rw [done.2.2.2 address outside, step]
        simp only
        rw [Function.update_of_ne (by omega), Function.update_of_ne (by omega)]

/-- The ladder puts one chunk of each smaller bucket at the end of its list. -/
theorem carveLadder_spec {page thread : Nat} (pageAligned : page % 4096 = 0) (bucket : Nat)
    (small : bucket < smallBucketCount) (fuel : Nat) (enough : bucket ≤ fuel) (heaps : SmallHeaps)
    (lists : BucketKey → List Nat) (linked : heaps.Linked lists)
    (fresh : ∀ key, ∀ chunk ∈ lists key, chunk < page + 8 ∨ page + chunkSize bucket ≤ chunk) :
    ∃ after, carveLadder page thread fuel (2 ^ bucket) (2 ^ bucket - 1) bucket heaps = some after ∧
      after.Linked (fun key => if key.1 = thread ∧ key.2 < bucket then
        lists key ++ [page + chunkSize key.2] else lists key) ∧
      KeepsHeaders heaps.mem after.mem := by
  induction bucket generalizing fuel heaps lists with
  | zero =>
      refine ⟨heaps, ?_, ?_, fun _ _ => rfl⟩
      · cases fuel <;> rfl
      · simpa using linked
  | succ bucket ih =>
      obtain ⟨fuel, rfl⟩ : ∃ less, fuel = less + 1 := ⟨fuel - 1, by omega⟩
      have double : 2 ^ (bucket + 1) = 2 * 2 ^ bucket := by ring
      have positive : 0 < 2 ^ bucket := Nat.two_pow_pos bucket
      have sized : chunkSize bucket = 8 * 2 ^ bucket := by
        unfold chunkSize
        ring
      have sizedNext : chunkSize (bucket + 1) = 16 * 2 ^ bucket := by
        unfold chunkSize
        ring
      have bounded : 2 ^ bucket ≤ 128 :=
        (Nat.pow_le_pow_right (by omega)
          (show bucket ≤ 7 by unfold smallBucketCount at small; omega)).trans (by decide)
      obtain ⟨offset, offsetEq⟩ : ∃ offset, 2 ^ (bucket + 1) - 1 = offset + 1 :=
        ⟨2 ^ (bucket + 1) - 2, by omega⟩
      have slotsEq : 2 ^ (bucket + 1) >>> 1 = 2 ^ bucket := by
        rw [Nat.shiftRight_eq_div_pow]
        omega
      have offsetNext : offset + 1 - 2 ^ bucket = 2 ^ bucket - 1 := by omega
      have chunkEq : chunkAddress page (2 ^ bucket - 1) = page + chunkSize bucket := by
        unfold chunkAddress headerBytes chunkBytes
        omega
      have chunkAligned : IsChunkAddress (page + chunkSize bucket) := by
        unfold IsChunkAddress
        omega
      have absent : ∀ key, page + chunkSize bucket ∉ lists key := by
        intro key member
        have outside := fresh key _ member
        omega
      have clearedLinked : SmallHeaps.Linked
          { heaps with mem := Function.update heaps.mem (page + chunkSize bucket) 0 } lists :=
        linked.frame fun key chunk member => Function.update_of_ne
          (fun same : chunk = page + chunkSize bucket => absent key (same ▸ member)) _ _
      have single : Chain (Function.update heaps.mem (page + chunkSize bucket) 0)
          (page + chunkSize bucket) ([] ++ [page + chunkSize bucket]) :=
        ⟨rfl, by omega, Function.update_self _ _ _⟩
      obtain ⟨nextLinked, nextHeaders⟩ := @SmallHeaps.Linked.linkChunks _ _ (thread, bucket)
        clearedLinked _ _ _ single (by simp) (by simpa using absent) (by simpa using chunkAligned)
      obtain ⟨after, ran, afterLinked, afterHeaders⟩ := ih (by omega) fuel (by omega) _ _ nextLinked
        (by
          intro key chunk member
          by_cases same : key = (thread, bucket)
          · subst same
            rw [Function.update_self] at member
            rcases List.mem_append.mp member with old | new
            · have outside := fresh _ chunk old
              omega
            · rw [List.nil_append, List.mem_singleton] at new
              omega
          · rw [Function.update_of_ne same] at member
            have outside := fresh key chunk member
            omega)
      refine ⟨after, ?_, ?_, ?_⟩
      · rw [offsetEq, carveLadder]
        simp only [slotsEq, offsetNext, chunkEq, Nat.add_sub_cancel]
        exact ran
      · convert afterLinked using 2 with key
        by_cases same : key = (thread, bucket)
        · subst same
          simp
        · rw [Function.update_of_ne same]
          have notHere : ¬ (key.1 = thread ∧ key.2 = bucket) := fun both =>
            same (Prod.ext both.1 both.2)
          by_cases below : key.1 = thread ∧ key.2 < bucket
          · rw [if_pos below, if_pos ⟨below.1, by omega⟩]
          · rw [if_neg below, if_neg (by omega)]
      · exact ((keepsHeaders_link chunkAligned heaps.mem 0).trans nextHeaders).trans afterHeaders

end DoggOS.Rt

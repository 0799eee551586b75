/-
The buffer list and the free list of a stream.

A buffer that is taken from the free list keeps its link, so it ends the buffer
list only when the free list had no other.  Buffers that were read go to the
free list in one piece.
-/

import DoggOS.Io.StreamChain
import DoggOS.Library.LinkedQueues

namespace DoggOS.Io

def nextOf (bufs : Bufs) (buffer : Nat) : Nat := (bufs buffer).elim 0 StreamBuf.next

def dataOf (bufs : Bufs) (buffer : Nat) : Bytes := (bufs buffer).elim (fun _ => 0) StreamBuf.data

theorem nextOf_update (bufs : Bufs) (buffer : Nat) (found : StreamBuf) :
    nextOf (Function.update bufs buffer (some found)) =
      Function.update (nextOf bufs) buffer found.next := by
  funext other
  by_cases same : other = buffer
  · rw [nextOf, same, Function.update_self, Function.update_self]
    rfl
  · rw [nextOf, Function.update_of_ne same, Function.update_of_ne same]
    rfl

theorem dataOf_update (bufs : Bufs) (buffer : Nat) (found : StreamBuf) :
    dataOf (Function.update bufs buffer (some found)) =
      Function.update (dataOf bufs) buffer found.data := by
  funext other
  by_cases same : other = buffer
  · rw [dataOf, same, Function.update_self, Function.update_self]
    rfl
  · rw [dataOf, Function.update_of_ne same, Function.update_of_ne same]
    rfl

section Links

variable {bufs : Bufs} {buffer : Nat} {found : StreamBuf} (here : bufs buffer = some found)
include here

theorem nextOf_prev {prev : Nat} :
    nextOf (Function.update bufs buffer (some { found with prev := prev })) = nextOf bufs := by
  rw [nextOf_update, Function.update_eq_self_iff, nextOf, here]
  rfl

theorem dataOf_prev {prev : Nat} :
    dataOf (Function.update bufs buffer (some { found with prev := prev })) = dataOf bufs := by
  rw [dataOf_update, Function.update_eq_self_iff, dataOf, here]
  rfl

theorem dataOf_next {next : Nat} :
    dataOf (Function.update bufs buffer (some { found with next := next })) = dataOf bufs := by
  rw [dataOf_update, Function.update_eq_self_iff, dataOf, here]
  rfl

end Links

theorem isSome_update {bufs : Bufs} {buffer other : Nat} {found : StreamBuf}
    (present : (bufs other).isSome) :
    (Function.update bufs buffer (some found) other).isSome := by
  by_cases same : other = buffer
  · rw [same, Function.update_self]
    rfl
  · rw [Function.update_of_ne same]
    exact present

def linkBehind (bufs : Bufs) (lastBuffer : Nat) (last : StreamBuf) (buffer : Nat)
    (found : StreamBuf) : Bufs :=
  Function.update (Function.update bufs lastBuffer (some { last with next := buffer })) buffer
    (some { found with prev := lastBuffer })

theorem nextOf_linkBehind {bufs : Bufs} {lastBuffer buffer : Nat} {found : StreamBuf}
    (last : StreamBuf) (here : bufs buffer = some found) (apart : buffer ≠ lastBuffer) :
    nextOf (linkBehind bufs lastBuffer last buffer found) =
      Function.update (nextOf bufs) lastBuffer buffer := by
  rw [linkBehind, nextOf_prev ((Function.update_of_ne apart _ _).trans here), nextOf_update]

theorem dataOf_linkBehind {bufs : Bufs} {lastBuffer buffer : Nat} {last found : StreamBuf}
    (isLast : bufs lastBuffer = some last) (here : bufs buffer = some found)
    (apart : buffer ≠ lastBuffer) :
    dataOf (linkBehind bufs lastBuffer last buffer found) = dataOf bufs := by
  rw [linkBehind, dataOf_prev ((Function.update_of_ne apart _ _).trans here), dataOf_next isLast]

structure Listed (malloc : Nat → Nat) (stream : Stream) (chain free : List Nat) : Prop where
  chained : Chain (nextOf stream.bufs) stream.buffers chain
  freed : Chain (nextOf stream.bufs) stream.freeBuffers free
  distinct : (chain ++ free).Nodup
  present : ∀ buffer ∈ chain ++ free, (stream.bufs buffer).isSome
  made : ∀ buffer ∈ chain ++ free, ∃ i < stream.allocated, malloc i = buffer
  last : chain.getLast? = some stream.lastBuffer

namespace Listed

variable {malloc : Nat → Nat} {stream : Stream} {chain free front rest : List Nat} {buffer : Nat}

theorem found (listed : Listed malloc stream chain free) (member : buffer ∈ chain ++ free) :
    ∃ found, stream.bufs buffer = some found :=
  Option.isSome_iff_exists.mp (listed.present buffer member)

theorem ne_zero (fresh : Fresh malloc) (listed : Listed malloc stream chain free)
    (member : buffer ∈ chain ++ free) : buffer ≠ 0 := by
  obtain ⟨i, -, rfl⟩ := listed.made buffer member
  exact fresh.nonzero i

theorem last_mem (listed : Listed malloc stream chain free) : stream.lastBuffer ∈ chain :=
  List.mem_of_getLast? listed.last

theorem first (listed : Listed malloc stream chain free) : chain[0]? = some stream.buffers := by
  have chained := listed.chained
  cases chain with
  | nil => cases listed.last
  | cons first others => exact congrArg some chained.1.symm

theorem buffers_mem (listed : Listed malloc stream chain free) : stream.buffers ∈ chain :=
  List.mem_of_getElem? listed.first

theorem malloc_notMem (fresh : Fresh malloc) (listed : Listed malloc stream chain free) :
    malloc stream.allocated ∉ chain ++ free := by
  intro member
  obtain ⟨i, before, same⟩ := listed.made _ member
  exact absurd (fresh.distinct _ _ same) (Nat.ne_of_lt before)

theorem modify_data (fresh : Fresh malloc) (listed : Listed malloc stream chain free)
    (member : buffer ∈ chain ++ free) (fill : Bytes → Bytes) :
    ∃ bufs, stream.modify buffer (fun found => { found with data := fill found.data }) =
        some { stream with bufs := bufs } ∧
      Listed malloc { stream with bufs := bufs } chain free ∧ nextOf bufs = nextOf stream.bufs ∧
      dataOf bufs = Function.update (dataOf stream.bufs) buffer (fill (dataOf stream.bufs buffer)) := by
  obtain ⟨found, here⟩ := listed.found member
  have next : nextOf (Function.update stream.bufs buffer
      (some { found with data := fill found.data })) = nextOf stream.bufs := by
    rw [nextOf_update, Function.update_eq_self_iff, nextOf, here]
    rfl
  refine ⟨_, Stream.modify_eq here (listed.ne_zero fresh member) _, ?_, next, ?_⟩
  · constructor
    case chained => exact next ▸ listed.chained
    case freed => exact next ▸ listed.freed
    case distinct => exact listed.distinct
    case present => exact fun other inside => isSome_update (listed.present other inside)
    case made => exact listed.made
    case last => exact listed.last
  · rw [dataOf_update, dataOf, here]
    rfl

theorem takeBuffer_spec (fresh : Fresh malloc) (listed : Listed malloc stream chain free)
    (few : free.length ≤ 1) :
    ∃ buffer found bufs allocated, stream.takeBuffer malloc =
        some (buffer, { stream with bufs := bufs, allocated := allocated, freeBuffers := 0 }) ∧
      bufs buffer = some found ∧ found.next = 0 ∧ buffer ∉ chain ∧
      (∀ other ∈ chain, bufs other = stream.bufs other) ∧ stream.allocated ≤ allocated ∧
      ∃ i < allocated, malloc i = buffer := by
  have freed := listed.freed
  unfold Stream.takeBuffer
  cases free with
  | nil =>
      have absent := listed.malloc_notMem fresh
      have none : stream.freeBuffers = 0 := freed
      rw [List.append_nil] at absent
      rw [none, if_neg (not_not_intro rfl)]
      refine ⟨_, _, _, _, rfl, Function.update_self _ _ _, rfl, absent, ?_, Nat.le_succ _,
        stream.allocated, Nat.lt_succ_self _, rfl⟩
      intro other member
      apply Function.update_of_ne
      intro same
      exact absent (same ▸ member)
  | cons buffer others =>
      -- The only free buffer ends the free list, so its old link is NULL.
      have single : others = [] :=
        List.eq_nil_of_length_eq_zero (Nat.le_zero.mp (Nat.le_of_succ_le_succ few))
      obtain ⟨first, nonNull, ended⟩ := freed
      rw [single] at ended
      have member : buffer ∈ chain ++ buffer :: others :=
        List.mem_append_right _ List.mem_cons_self
      obtain ⟨found, here⟩ := listed.found member
      have next : found.next = 0 := by
        change nextOf stream.bufs buffer = 0 at ended
        rw [nextOf, here] at ended
        exact ended
      rw [first, if_pos nonNull, Stream.deref_eq here nonNull, Option.map_some, next]
      refine ⟨buffer, found, stream.bufs, stream.allocated, rfl, here, next, ?_, fun _ _ => rfl,
        Nat.le_refl _, listed.made buffer member⟩
      exact fun inChain => (List.nodup_append.mp listed.distinct).2.2 buffer inChain buffer
        List.mem_cons_self rfl

theorem append (listed : Listed malloc stream chain free) {bufs : Bufs} {last found : StreamBuf}
    {allocated : Nat} (here : bufs buffer = some found) (nonNull : buffer ≠ 0)
    (ended : found.next = 0) (absent : buffer ∉ chain)
    (others : ∀ other ∈ chain, bufs other = stream.bufs other)
    (larger : stream.allocated ≤ allocated) (made : ∃ i < allocated, malloc i = buffer) :
    Listed malloc { stream with
      bufs := linkBehind bufs stream.lastBuffer last buffer found
      allocated := allocated
      freeBuffers := 0
      lastBuffer := buffer } (chain ++ [buffer]) [] := by
  have apart : buffer ≠ stream.lastBuffer := fun same => absent (same ▸ listed.last_mem)
  have next := nextOf_linkBehind last here apart
  obtain ⟨front, split⟩ := List.getLast?_eq_some_iff.mp listed.last
  have distinct := (List.nodup_append.mp listed.distinct).1
  have apartFront : stream.lastBuffer ∉ front := by
    rw [split] at distinct
    intro member
    exact (List.nodup_append.mp distinct).2.2 _ member _ List.mem_cons_self rfl
  constructor
  case chained =>
    have chained := listed.chained
    rw [split] at chained ⊢
    rw [List.append_assoc]
    apply chained.link apartFront
    · intro other member
      have inChain : other ∈ chain := by
        rw [split]
        exact List.mem_append_left _ member
      have notLast : other ≠ stream.lastBuffer := fun same => apartFront (same ▸ member)
      rw [next, Function.update_of_ne notLast, nextOf, others other inChain]
      rfl
    · rw [next, Function.update_self]
      refine ⟨rfl, nonNull, ?_⟩
      rw [Function.update_of_ne apart, nextOf, here]
      exact ended
  case freed => exact rfl
  case distinct =>
    rw [List.append_nil]
    refine List.nodup_append.mpr ⟨distinct, List.nodup_singleton buffer, ?_⟩
    intro other member one isBuffer equal
    rw [List.mem_singleton.mp isBuffer] at equal
    exact absent (equal ▸ member)
  case present =>
    intro other member
    rw [List.append_nil] at member
    rcases List.mem_append.mp member with inChain | isBuffer
    · refine isSome_update (isSome_update ?_)
      rw [others other inChain]
      exact listed.present other (List.mem_append_left _ inChain)
    · rw [List.mem_singleton.mp isBuffer]
      exact Option.isSome_iff_exists.mpr ⟨_, Function.update_self _ _ _⟩
  case made =>
    intro other member
    rw [List.append_nil] at member
    rcases List.mem_append.mp member with inChain | isBuffer
    · obtain ⟨i, before, isMade⟩ := listed.made other (List.mem_append_left _ inChain)
      exact ⟨i, Nat.lt_of_lt_of_le before larger, isMade⟩
    · rw [List.mem_singleton.mp isBuffer]
      exact made
  case last => exact List.getLast?_concat

theorem next_last (listed : Listed malloc stream chain free) :
    nextOf stream.bufs stream.lastBuffer = 0 := by
  obtain ⟨front, split⟩ := List.getLast?_eq_some_iff.mp listed.last
  have chained := listed.chained
  rw [split] at chained
  exact chained.behind

theorem allocStreamBuffer_spec (fresh : Fresh malloc) (listed : Listed malloc stream chain free)
    (few : free.length ≤ 1) :
    ∃ buffer bufs allocated, stream.allocStreamBuffer malloc =
        some { stream with
          bufs := bufs, allocated := allocated, freeBuffers := 0, lastBuffer := buffer } ∧
      Listed malloc { stream with
        bufs := bufs, allocated := allocated, freeBuffers := 0, lastBuffer := buffer }
        (chain ++ [buffer]) [] ∧
      nextOf bufs stream.lastBuffer = buffer ∧
      ∀ other ∈ chain, dataOf bufs other = dataOf stream.bufs other := by
  obtain ⟨buffer, found, bufs, allocated, took, here, ended, absent, others, larger, made⟩ :=
    listed.takeBuffer_spec fresh few
  have lastMember := List.mem_append_left free listed.last_mem
  have apart : buffer ≠ stream.lastBuffer := fun same => absent (same ▸ listed.last_mem)
  have nonNull : buffer ≠ 0 := by
    obtain ⟨i, -, rfl⟩ := made
    exact fresh.nonzero i
  have started := listed.ne_zero fresh (List.mem_append_left free listed.buffers_mem)
  obtain ⟨last, isLast⟩ := listed.found lastMember
  rw [← others _ listed.last_mem] at isLast
  have link := @Stream.modify_eq
    { stream with bufs := bufs, allocated := allocated, freeBuffers := 0 } stream.lastBuffer last
    isLast (listed.ne_zero fresh lastMember) (fun found => { found with next := buffer })
  have back := @Stream.modify_eq
    { stream with
      bufs := Function.update bufs stream.lastBuffer (some { last with next := buffer })
      allocated := allocated
      freeBuffers := 0 } buffer found
    ((Function.update_of_ne apart _ _).trans here) nonNull
    (fun found => { found with prev := stream.lastBuffer })
  refine ⟨buffer, linkBehind bufs stream.lastBuffer last buffer found, allocated, ?_,
    listed.append here nonNull ended absent others larger made, ?_, ?_⟩
  · unfold Stream.allocStreamBuffer
    rw [took, Option.bind_some]
    simp only [if_neg started, link, Option.bind_some, back, Option.map_some]
    rfl
  · rw [nextOf_linkBehind last here apart, Function.update_self]
  · intro other member
    rw [dataOf_linkBehind isLast here apart, dataOf, others other member]
    rfl

theorem release (listed : Listed malloc stream (front ++ rest) free) {last buffers : Nat} {bufs : Bufs}
    (passed : front.getLast? = some last) (first : rest.head? = some buffers)
    (next : nextOf bufs = Function.update (nextOf stream.bufs) last stream.freeBuffers)
    (present : ∀ buffer, (stream.bufs buffer).isSome → (bufs buffer).isSome) :
    Listed malloc { stream with
      bufs := bufs, buffers := buffers, freeBuffers := stream.buffers } rest (front ++ free) := by
  obtain ⟨before, split⟩ := List.getLast?_eq_some_iff.mp passed
  have chained := listed.chained
  have distinct := listed.distinct
  rw [split, List.append_assoc, List.singleton_append] at chained
  rw [split] at distinct
  have members : ∀ buffer, buffer ∈ rest ++ (front ++ free) → buffer ∈ front ++ rest ++ free := by
    intro buffer member
    simp only [List.mem_append] at member ⊢
    tauto
  have lastApart : last ∉ before ∧ last ∉ rest ∧ last ∉ free := by
    simp only [List.nodup_append, List.mem_append, List.mem_singleton] at distinct
    grind
  constructor
  case chained =>
    rw [next]
    apply Chain.update _ lastApart.2.1
    have behind := chained.behind
    cases rest with
    | nil => cases first
    | cons head others =>
        cases first
        exact ⟨rfl, behind.2⟩
  case freed =>
    rw [split, List.append_assoc, List.singleton_append, next]
    apply chained.link lastApart.1
    · intro other member
      have notLast : other ≠ last := fun same => lastApart.1 (same ▸ member)
      exact Function.update_of_ne notLast _ _
    · rw [Function.update_self]
      exact listed.freed.update lastApart.2.2 _
  case distinct =>
    have same : (rest ++ (front ++ free)).Perm (front ++ rest ++ free) := by
      rw [← List.append_assoc]
      exact List.perm_append_comm.append_right free
    exact same.nodup_iff.mpr listed.distinct
  case present => exact fun buffer member => present buffer (listed.present buffer (members buffer member))
  case made => exact fun buffer member => listed.made buffer (members buffer member)
  case last =>
    have last := listed.last
    cases rest with
    | nil => cases first
    | cons head others =>
        rw [List.getLast?_append_of_ne_nil _ (List.cons_ne_nil _ _)] at last
        exact last

/-- The buffers in front of `rest` go to the free list. -/
theorem freeReadBuffers_spec (fresh : Fresh malloc) {last : Nat}
    (listed : Listed malloc stream (front ++ rest) free) (passed : front.getLast? = some last)
    (more : rest ≠ []) :
    ∃ bufs buffers, stream.freeReadBuffers stream.buffers last =
        some { stream with bufs := bufs, buffers := buffers, freeBuffers := stream.buffers } ∧
      Listed malloc { stream with
        bufs := bufs, buffers := buffers, freeBuffers := stream.buffers } rest (front ++ free) ∧
      dataOf bufs = dataOf stream.bufs := by
  obtain ⟨head, others, restEq⟩ := List.exists_cons_of_ne_nil more
  have lastIn : last ∈ front ++ rest := List.mem_append_left _ (List.mem_of_getLast? passed)
  have headIn : head ∈ front ++ rest := by
    rw [restEq]
    exact List.mem_append_right _ List.mem_cons_self
  have first : rest.head? = some head := by
    rw [restEq]
    rfl
  have nonNull : ∀ buffer, buffer ∈ front ++ rest → buffer ≠ 0 :=
    fun buffer member => listed.ne_zero fresh (List.mem_append_left free member)
  obtain ⟨firstBuf, isFirst⟩ := listed.found (List.mem_append_left free listed.buffers_mem)
  obtain ⟨lastBuf, isLast⟩ := listed.found (List.mem_append_left free lastIn)
  obtain ⟨headBuf, isHead⟩ := listed.found (List.mem_append_left free headIn)
  have next : lastBuf.next = head := by
    obtain ⟨before, split⟩ := List.getLast?_eq_some_iff.mp passed
    have chained := listed.chained
    rw [split, restEq, List.append_assoc, List.singleton_append] at chained
    have behind := chained.behind.1
    rw [nextOf, isLast] at behind
    exact behind
  have apart : ∀ buffer ∈ rest, last ≠ buffer := by
    have distinct := (List.nodup_append.mp listed.distinct).1
    intro buffer member
    exact (List.nodup_append.mp distinct).2.2 last (List.mem_of_getLast? passed) buffer member
  -- A buffer stands behind the passed ones, so the branch for the end of the list is not taken.
  have lastApart : last ≠ stream.lastBuffer := by
    have ended := listed.last
    rw [List.getLast?_append_of_ne_nil _ more] at ended
    exact apart _ (List.mem_of_getLast? ended)
  have headApart : last ≠ head := apart head (List.mem_of_head? first)
  have back := @Stream.modify_eq { stream with buffers := head } head headBuf isHead
    (nonNull head headIn) (fun found => { found with prev := firstBuf.prev })
  have link := @Stream.modify_eq
    { stream with
      buffers := head
      bufs := Function.update stream.bufs head (some { headBuf with prev := firstBuf.prev }) }
    last lastBuf ((Function.update_of_ne headApart _ _).trans isLast) (nonNull last lastIn)
    (fun found => { found with next := stream.freeBuffers })
  refine ⟨Function.update
      (Function.update stream.bufs head (some { headBuf with prev := firstBuf.prev })) last
      (some { lastBuf with next := stream.freeBuffers }),
    head, ?_, listed.release passed first ?_ ?_, ?_⟩
  · unfold Stream.freeReadBuffers
    rw [Stream.deref_eq isFirst (nonNull _ listed.buffers_mem), Option.bind_some,
      Stream.deref_eq isLast (nonNull last lastIn), Option.bind_some]
    simp only [if_true, next, Option.bind_some, if_neg lastApart, back, link, Option.map_some]
  · rw [nextOf_update, nextOf_prev isHead]
  · exact fun buffer here => isSome_update (isSome_update here)
  · rw [dataOf_next ((Function.update_of_ne headApart _ _).trans isLast), dataOf_prev isHead]

end Listed

end DoggOS.Io

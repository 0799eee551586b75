/-
What the lists of the entry pages spell.

`Tracked` ties the links in memory to three ghosts: the pages of the list, the
pages kept for later, and the free entries of each listed page.  An entry is
taken from the front of a free list and given back there; a page goes behind the
others with all its entries free, and leaves when they are all free again.
-/

import DoggOS.Fs.PupEntryPages
import Mathlib.Data.List.Perm.Subperm

namespace DoggOS.Fs

namespace EntryLayout

variable {layout : EntryLayout} {page other entry : Nat}

theorem mem_entries : entry ∈ layout.entries page ↔
    ∃ index, index < layout.entryCount ∧ layout.entry page index = entry := by
  unfold entries
  rw [List.mem_map]
  exact exists_congr fun index => and_congr_left fun _ => List.mem_range

theorem entry_inj {one two : Nat} (same : layout.entry page one = layout.entry page two) :
    one = two := by
  unfold entry at same
  exact Nat.eq_of_mul_eq_mul_left layout.sized (Nat.add_left_cancel same)

theorem entries_nodup (layout : EntryLayout) (page : Nat) : (layout.entries page).Nodup :=
  List.nodup_range.map fun _ _ same => entry_inj same

theorem length_entries (layout : EntryLayout) (page : Nat) :
    (layout.entries page).length = layout.entryCount := by
  unfold entries
  rw [List.length_map, List.length_range]

theorem entry_ne_zero (nonNull : page ≠ 0) (member : entry ∈ layout.entries page) : entry ≠ 0 := by
  obtain ⟨index, -, same⟩ := mem_entries.mp member
  unfold EntryLayout.entry at same
  omega

theorem entry_inside (member : entry ∈ layout.entries page) :
    page ≤ entry ∧ entry < page + layout.pageBytes := by
  obtain ⟨index, small, same⟩ := mem_entries.mp member
  have next : layout.entryBytes * (index + 1) ≤ layout.entryBytes * layout.entryCount :=
    Nat.mul_le_mul_left _ small
  have sized := layout.sized
  rw [Nat.mul_add, Nat.mul_one] at next
  unfold EntryLayout.entry at same
  unfold pageBytes
  omega

theorem Apart.notMem (apart : layout.Apart page other) (member : entry ∈ layout.entries page) :
    entry ∉ layout.entries other := by
  intro inOther
  have here := entry_inside member
  have there := entry_inside inOther
  rcases apart with before | behind
  · omega
  · omega

theorem not_apart_self (layout : EntryLayout) (page : Nat) : ¬ layout.Apart page page := by
  have several := layout.several
  have sized := layout.sized
  have some : 0 < layout.entryBytes * layout.entryCount := Nat.mul_pos sized (by omega)
  rintro (before | behind)
  · unfold pageBytes at before
    omega
  · unfold pageBytes at behind
    omega

end EntryLayout

namespace EntryPages

structure Tracked (layout : EntryLayout) (volume : EntryPages) (listed emptied : List Nat)
    (free : Nat → List Nat) : Prop where
  linked : DoublyLinked volume.next volume.prev volume.entryPages volume.lastEntryPage listed
  count : volume.entryPageCount = listed.length
  indices : ∀ place page, listed[place]? = some page → volume.index page = place
  chain : Chain volume.next volume.freeableEntryPages emptied
  distinct : (listed ++ emptied).Nodup
  known : ∀ page ∈ listed ++ emptied, page ∈ volume.pages
  apart : ∀ page ∈ volume.pages, ∀ other ∈ volume.pages, page ≠ other → layout.Apart page other
  freeChain : ∀ page ∈ listed, Chain volume.entryNext (volume.freeEntries page) (free page)
  freeNodup : ∀ page ∈ listed, (free page).Nodup
  free_iff : ∀ page ∈ listed, ∀ entry, entry ∈ free page ↔
    entry ∈ layout.entries page ∧ entry ∉ volume.live
  used : ∀ page ∈ listed, volume.usedEntries page + (free page).length = layout.entryCount
  owner : ∀ page ∈ listed, ∀ entry ∈ layout.entries page, volume.entryPage entry = page
  live : ∀ entry ∈ volume.live, ∃ page ∈ listed, entry ∈ layout.entries page
  liveNodup : volume.live.Nodup

def Current (volume : EntryPages) (listed : List Nat) (free : Nat → List Nat) : Prop :=
  ∃ front back, listed = front ++ volume.curEntryPage :: back ∧ ∀ page ∈ front, free page = []

namespace Tracked

variable {layout : EntryLayout} {volume : EntryPages} {listed emptied rest : List Nat}
  {free : Nat → List Nat} {page other entry : Nat}

theorem pages_apart (tracked : Tracked layout volume listed emptied free)
    (inList : page ∈ listed ++ emptied) (otherIn : other ∈ listed ++ emptied)
    (different : page ≠ other) : layout.Apart page other :=
  tracked.apart page (tracked.known page inList) other (tracked.known other otherIn) different

theorem entry_apart (tracked : Tracked layout volume listed emptied free) (inList : page ∈ listed)
    (otherIn : other ∈ listed) (different : page ≠ other) (member : entry ∈ layout.entries page) :
    entry ∉ layout.entries other :=
  (tracked.pages_apart (List.mem_append_left _ inList) (List.mem_append_left _ otherIn)
    different).notMem member

theorem freeEntries_eq_zero_iff (tracked : Tracked layout volume listed emptied free)
    (inList : page ∈ listed) : volume.freeEntries page = 0 ↔ free page = [] :=
  ((tracked.freeChain page inList).eq_nil_iff).symm

theorem setCurrent (tracked : Tracked layout volume listed emptied free) (current : Nat) :
    Tracked layout { volume with curEntryPage := current } listed emptied free :=
  ⟨tracked.linked, tracked.count, tracked.indices, tracked.chain, tracked.distinct, tracked.known,
    tracked.apart, tracked.freeChain, tracked.freeNodup, tracked.free_iff, tracked.used,
    tracked.owner, tracked.live, tracked.liveNodup⟩

theorem takeEntry (tracked : Tracked layout volume listed emptied free) (inList : page ∈ listed)
    (first : free page = entry :: rest) :
    (volume.takeEntry page).1 = entry ∧ entry ≠ 0 ∧ entry ∉ volume.live ∧
      Tracked layout (volume.takeEntry page).2 listed emptied (Function.update free page rest) := by
  have chain := tracked.freeChain page inList
  have nodup := tracked.freeNodup page inList
  have members := tracked.free_iff page inList
  have used := tracked.used page inList
  rw [first] at chain nodup members used
  obtain ⟨isFirst, nonNull, more⟩ := chain
  obtain ⟨absent, nodup⟩ := List.nodup_cons.mp nodup
  obtain ⟨inPage, notLive⟩ := (members entry).mp List.mem_cons_self
  have elsewhere : ∀ other ∈ listed, other ≠ page → entry ∉ free other := by
    intro other otherIn different member
    exact tracked.entry_apart inList otherIn different.symm inPage
      ((tracked.free_iff other otherIn entry).mp member).1
  refine ⟨isFirst, nonNull, notLive, ?_⟩
  constructor
  · exact tracked.linked
  · exact tracked.count
  · exact tracked.indices
  · exact tracked.chain
  · exact tracked.distinct
  · exact tracked.known
  · exact tracked.apart
  · intro other otherIn
    simp only [EntryPages.takeEntry, isFirst]
    by_cases same : other = page
    · rw [same, Function.update_self, Function.update_self]
      exact more.update absent 0
    · rw [Function.update_of_ne same, Function.update_of_ne same]
      exact (tracked.freeChain other otherIn).update (elsewhere other otherIn same) 0
  · intro other otherIn
    by_cases same : other = page
    · rw [same, Function.update_self]
      exact nodup
    · rw [Function.update_of_ne same]
      exact tracked.freeNodup other otherIn
  · intro other otherIn one
    simp only [EntryPages.takeEntry, isFirst, List.mem_cons, not_or]
    by_cases same : other = page
    · rw [same, Function.update_self]
      have before := members one
      rw [List.mem_cons] at before
      constructor
      · intro member
        obtain ⟨inEntries, free⟩ := before.mp (Or.inr member)
        exact ⟨inEntries, fun equal => absent (equal ▸ member), free⟩
      · rintro ⟨inEntries, different, free⟩
        exact (before.mpr ⟨inEntries, free⟩).resolve_left different
    · rw [Function.update_of_ne same, tracked.free_iff other otherIn one]
      constructor
      · rintro ⟨inEntries, free⟩
        refine ⟨inEntries, fun equal => ?_, free⟩
        exact tracked.entry_apart inList otherIn (Ne.symm same) inPage (equal ▸ inEntries)
      · rintro ⟨inEntries, -, free⟩
        exact ⟨inEntries, free⟩
  · intro other otherIn
    simp only [EntryPages.takeEntry]
    by_cases same : other = page
    · rw [same, Function.update_self, Function.update_self]
      rw [List.length_cons] at used
      omega
    · rw [Function.update_of_ne same, Function.update_of_ne same]
      exact tracked.used other otherIn
  · exact tracked.owner
  · intro one member
    simp only [EntryPages.takeEntry, isFirst] at member
    rcases List.mem_cons.mp member with same | old
    · exact ⟨page, inList, same ▸ inPage⟩
    · exact tracked.live one old
  · simp only [EntryPages.takeEntry, isFirst]
    exact List.nodup_cons.mpr ⟨notLive, tracked.liveNodup⟩

/-- A live entry goes back to the front of the free list of its page. -/
theorem giveEntry (tracked : Tracked layout volume listed emptied free)
    (isLive : entry ∈ volume.live) :
    ∃ page ∈ listed, volume.entryPage entry = page ∧
      Tracked layout (volume.giveEntry entry) listed emptied
        (Function.update free page (entry :: free page)) := by
  obtain ⟨page, inList, inPage⟩ := tracked.live entry isLive
  have owner := tracked.owner page inList entry inPage
  have used := tracked.used page inList
  have notFree : ∀ other ∈ listed, entry ∉ free other := by
    intro other otherIn member
    exact ((tracked.free_iff other otherIn entry).mp member).2 isLive
  have nonNull : entry ≠ 0 :=
    EntryLayout.entry_ne_zero (tracked.linked.nonNull page inList) inPage
  have liveMem : ∀ one, one ∈ volume.live.erase entry ↔ one ≠ entry ∧ one ∈ volume.live :=
    fun one => tracked.liveNodup.mem_erase_iff
  refine ⟨page, inList, owner, ?_⟩
  have shorter : (free page).length < layout.entryCount := by
    have inEntries : entry :: free page ⊆ layout.entries page := by
      intro one member
      rcases List.mem_cons.mp member with same | old
      · exact same ▸ inPage
      · exact ((tracked.free_iff page inList one).mp old).1
    have nodup := List.nodup_cons.mpr ⟨notFree page inList, tracked.freeNodup page inList⟩
    have bound := (List.subperm_of_subset nodup inEntries).length_le
    rw [EntryLayout.length_entries, List.length_cons] at bound
    exact bound
  constructor
  · exact tracked.linked
  · exact tracked.count
  · exact tracked.indices
  · exact tracked.chain
  · exact tracked.distinct
  · exact tracked.known
  · exact tracked.apart
  · intro other otherIn
    simp only [EntryPages.giveEntry, owner]
    by_cases same : other = page
    · rw [same, Function.update_self, Function.update_self]
      refine ⟨rfl, nonNull, ?_⟩
      rw [Function.update_self]
      exact (tracked.freeChain page inList).update (notFree page inList) _
    · rw [Function.update_of_ne same, Function.update_of_ne same]
      exact (tracked.freeChain other otherIn).update (notFree other otherIn) _
  · intro other otherIn
    by_cases same : other = page
    · rw [same, Function.update_self]
      exact List.nodup_cons.mpr ⟨notFree page inList, tracked.freeNodup page inList⟩
    · rw [Function.update_of_ne same]
      exact tracked.freeNodup other otherIn
  · intro other otherIn one
    simp only [EntryPages.giveEntry, liveMem, not_and]
    by_cases same : other = page
    · rw [same, Function.update_self, List.mem_cons, tracked.free_iff page inList one]
      constructor
      · rintro (isEntry | ⟨inEntries, free⟩)
        · exact ⟨isEntry ▸ inPage, fun different => absurd isEntry different⟩
        · exact ⟨inEntries, fun _ => free⟩
      · rintro ⟨inEntries, free⟩
        by_cases isEntry : one = entry
        · exact Or.inl isEntry
        · exact Or.inr ⟨inEntries, free isEntry⟩
    · rw [Function.update_of_ne same, tracked.free_iff other otherIn one]
      constructor
      · rintro ⟨inEntries, free⟩
        exact ⟨inEntries, fun _ => free⟩
      · rintro ⟨inEntries, free⟩
        refine ⟨inEntries, free fun equal => ?_⟩
        exact tracked.entry_apart inList otherIn (Ne.symm same) inPage (equal ▸ inEntries)
  · intro other otherIn
    simp only [EntryPages.giveEntry, owner]
    by_cases same : other = page
    · rw [same, Function.update_self, Function.update_self, List.length_cons]
      omega
    · rw [Function.update_of_ne same, Function.update_of_ne same]
      exact tracked.used other otherIn
  · exact tracked.owner
  · intro one member
    exact tracked.live one ((liveMem one).mp member).2
  · exact tracked.liveNodup.erase entry

end Tracked

end EntryPages

end DoggOS.Fs

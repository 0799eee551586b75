/-
The calls of the entry allocator.

A new page comes behind the others with its entries linked in order.  The search
for a free entry walks over full pages only.  A page that has become empty is
taken out of the list after the pages behind it are renumbered.
-/

import DoggOS.Fs.PupEntryPageLists

namespace DoggOS.Fs.EntryPages

variable {layout : EntryLayout} {volume : EntryPages} {listed emptied front back : List Nat}
  {free : Nat → List Nat} {page other entry : Nat}

theorem linkEntries_fields (layout : EntryLayout) (page count nextEntry : Nat)
    (volume : EntryPages) :
    linkEntries layout page count nextEntry volume = { volume with
      entryNext := (linkEntries layout page count nextEntry volume).entryNext
      entryPage := (linkEntries layout page count nextEntry volume).entryPage } := by
  induction count generalizing nextEntry volume with
  | zero => rfl
  | succ count ih =>
      rw [linkEntries]
      exact ih _ _

theorem linkEntries_frame (count nextEntry : Nat) (volume : EntryPages)
    (outside : ∀ index, index < count → other ≠ layout.entry page index) :
    (linkEntries layout page count nextEntry volume).entryNext other = volume.entryNext other ∧
      (linkEntries layout page count nextEntry volume).entryPage other = volume.entryPage other := by
  induction count generalizing nextEntry volume with
  | zero => exact ⟨rfl, rfl⟩
  | succ count ih =>
      have notHere := outside count (Nat.lt_succ_self count)
      obtain ⟨next, owner⟩ := ih (layout.entry page count) { volume with
          entryPage := Function.update volume.entryPage (layout.entry page count) page
          entryNext := Function.update volume.entryNext (layout.entry page count) nextEntry }
        fun index small => outside index (Nat.lt_succ_of_lt small)
      rw [linkEntries]
      exact ⟨next.trans (Function.update_of_ne notHere _ _),
        owner.trans (Function.update_of_ne notHere _ _)⟩

theorem linkEntries_owner (count nextEntry : Nat) (volume : EntryPages) {index : Nat}
    (small : index < count) :
    (linkEntries layout page count nextEntry volume).entryPage (layout.entry page index) = page := by
  induction count generalizing nextEntry volume with
  | zero => omega
  | succ count ih =>
      rw [linkEntries]
      by_cases last : index = count
      · have later := (@linkEntries_frame layout page (layout.entry page index) count
          (layout.entry page count) { volume with
            entryPage := Function.update volume.entryPage (layout.entry page count) page
            entryNext := Function.update volume.entryNext (layout.entry page count) nextEntry }
          fun other smaller same => by
            have := EntryLayout.entry_inj same
            omega).2
        rw [last] at later ⊢
        exact later.trans (Function.update_self _ _ _)
      · exact ih _ _ (by omega)

theorem linkEntries_chain (nonNull : page ≠ 0) (count nextEntry : Nat) (volume : EntryPages)
    {tail : List Nat} (chain : Chain volume.entryNext nextEntry tail)
    (apart : ∀ index, index < count → layout.entry page index ∉ tail) :
    ∃ head, Chain (linkEntries layout page count nextEntry volume).entryNext head
      ((List.range count).map (layout.entry page) ++ tail) := by
  induction count generalizing nextEntry volume tail with
  | zero => exact ⟨nextEntry, chain⟩
  | succ count ih =>
      have notTail := apart count (Nat.lt_succ_self count)
      have entryNonNull : layout.entry page count ≠ 0 := by
        unfold EntryLayout.entry
        omega
      have linked : Chain (Function.update volume.entryNext (layout.entry page count) nextEntry)
          (layout.entry page count) (layout.entry page count :: tail) := by
        refine ⟨rfl, entryNonNull, ?_⟩
        rw [Function.update_self]
        exact chain.update notTail nextEntry
      rw [linkEntries, List.range_succ, List.map_append, List.map_singleton, List.append_assoc]
      apply ih _ _ linked
      intro index small member
      rcases List.mem_cons.mp member with same | inTail
      · have := EntryLayout.entry_inj same
        omega
      · exact apart index (Nat.lt_succ_of_lt small) inTail

theorem linkEntries_entries (nonNull : page ≠ 0) (volume : EntryPages) :
    Chain (linkEntries layout page layout.entryCount 0 volume).entryNext (layout.entry page 0)
      (layout.entries page) := by
  obtain ⟨head, chain⟩ := @linkEntries_chain layout page nonNull layout.entryCount 0 volume [] rfl
    fun _ _ => List.not_mem_nil
  rw [List.append_nil] at chain
  obtain ⟨count, isCount⟩ : ∃ count, layout.entryCount = count + 1 :=
    Nat.exists_eq_succ_of_ne_zero (Nat.ne_of_gt (Nat.lt_trans Nat.zero_lt_one layout.several))
  have notNil : layout.entries page = layout.entry page 0 :: (layout.entries page).tail := by
    unfold EntryLayout.entries
    rw [isCount, List.range_succ_eq_map]
    rfl
  have isHead : head = layout.entry page 0 := by
    have first : Chain _ head (layout.entries page) := chain
    rw [notNil] at first
    exact first.1
  rw [← isHead]
  exact chain

def clearLinks (volume : EntryPages) (page : Nat) : EntryPages :=
  { volume with
    next := Function.update volume.next page 0
    prev := Function.update volume.prev page 0 }

theorem initCacheEntryPage_eq (layout : EntryLayout) (volume : EntryPages) (page : Nat) :
    volume.initCacheEntryPage layout page = { volume with
      next := if volume.entryPages = 0 then Function.update volume.next page 0
        else Function.update (Function.update volume.next page 0) volume.lastEntryPage page
      prev := if volume.entryPages = 0 then Function.update volume.prev page 0
        else Function.update (Function.update volume.prev page 0) page volume.lastEntryPage
      freeEntries := Function.update volume.freeEntries page (layout.entry page 0)
      usedEntries := Function.update volume.usedEntries page 0
      index := Function.update volume.index page volume.entryPageCount
      entryNext := (linkEntries layout page layout.entryCount 0 (volume.clearLinks page)).entryNext
      entryPage := (linkEntries layout page layout.entryCount 0 (volume.clearLinks page)).entryPage
      entryPages := if volume.entryPages = 0 then page else volume.entryPages
      lastEntryPage := page
      entryPageCount := volume.entryPageCount + 1 } := by
  have fields := linkEntries_fields layout page layout.entryCount 0 (volume.clearLinks page)
  unfold EntryPages.initCacheEntryPage linkPage
  simp only [show ({ volume with
      next := Function.update volume.next page 0
      prev := Function.update volume.prev page 0 } : EntryPages) = volume.clearLinks page from rfl]
  rw [fields]
  by_cases empty : volume.entryPages = 0
  · simp only [clearLinks, empty, if_true]
  · simp only [clearLinks, empty, if_false]

theorem forall_mem_snoc {property : Nat → Prop} (all : ∀ other ∈ listed, property other)
    (last : property page) : ∀ other ∈ listed ++ [page], property other := by
  intro other member
  rcases List.mem_append.mp member with old | new
  · exact all other old
  · exact List.mem_singleton.mp new ▸ last

namespace Tracked

/-- A new page comes behind the others. -/
theorem initCacheEntryPage (tracked : Tracked layout volume listed emptied free)
    (nonNull : page ≠ 0) (unlisted : page ∉ listed ++ emptied) (known : page ∈ volume.pages) :
    Tracked layout (volume.initCacheEntryPage layout page) (listed ++ [page]) emptied
      (Function.update free page (layout.entries page)) := by
  have notListed : page ∉ listed := fun member => unlisted (List.mem_append_left _ member)
  have notEmptied : page ∉ emptied := fun member => unlisted (List.mem_append_right _ member)
  have noPages := tracked.linked.eq_nil_iff
  have listedNe : ∀ other ∈ listed, other ≠ page := fun other member same =>
    notListed (same ▸ member)
  have apart : ∀ other ∈ listed, ∀ entry ∈ layout.entries other, entry ∉ layout.entries page := by
    intro other member entry inOther
    exact (tracked.apart other (tracked.known other (List.mem_append_left _ member)) page known
      (listedNe other member)).notMem inOther
  have outside : ∀ other ∈ listed, ∀ entry ∈ layout.entries other, ∀ index,
      index < layout.entryCount → entry ≠ layout.entry page index := by
    intro other member entry inOther index small same
    exact apart other member entry inOther (EntryLayout.mem_entries.mpr ⟨index, small, same.symm⟩)
  have notLive : ∀ entry ∈ layout.entries page, entry ∉ volume.live := by
    intro entry inPage isLive
    obtain ⟨other, member, inOther⟩ := tracked.live entry isLive
    exact apart other member entry inOther inPage
  rw [initCacheEntryPage_eq]
  constructor
  · apply tracked.linked.pushBack notListed nonNull
    · intro other member notLast
      dsimp only
      split
      · exact Function.update_of_ne (listedNe other member) _ _
      · rw [Function.update_of_ne notLast, Function.update_of_ne (listedNe other member)]
    · intro notNil
      dsimp only
      rw [if_neg fun null => notNil (noPages.mpr null), Function.update_self]
    · dsimp only
      split
      · exact Function.update_self _ _ _
      · rename_i notEmpty
        have lastListed : volume.lastEntryPage ≠ page := by
          rcases tracked.linked.last_mem with null | member
          · exact fun same => nonNull (same.symm.trans null)
          · exact listedNe _ member
        rw [Function.update_of_ne lastListed.symm, Function.update_self]
    · intro other member
      dsimp only
      split
      · exact Function.update_of_ne (listedNe other member) _ _
      · rw [Function.update_of_ne (listedNe other member),
          Function.update_of_ne (listedNe other member)]
    · dsimp only
      split
      · rename_i empty
        rw [Function.update_self, tracked.linked.last, noPages.mpr empty]
        rfl
      · exact Function.update_self _ _ _
  · dsimp only
    rw [tracked.count, List.length_append, List.length_singleton]
  · intro place other found
    dsimp only
    rcases Nat.lt_trichotomy place listed.length with inside | atEnd | beyond
    · rw [List.getElem?_append_left inside] at found
      rw [Function.update_of_ne (listedNe other (List.mem_of_getElem? found))]
      exact tracked.indices place other found
    · rw [atEnd, List.getElem?_append_right (Nat.le_refl _), Nat.sub_self] at found
      have same : page = other := Option.some.inj found
      rw [← same, Function.update_self, tracked.count, atEnd]
    · rw [List.getElem?_eq_none (by
        rw [List.length_append, List.length_singleton]
        omega)] at found
      cases found
  · dsimp only
    apply tracked.chain.frame
    intro other member
    have different : other ≠ page := fun same => notEmptied (same ▸ member)
    have notLast : other ≠ volume.lastEntryPage := by
      intro same
      rcases tracked.linked.last_mem with null | inList
      · exact tracked.chain.ne_zero_of_mem member (same.trans null)
      · exact (List.nodup_append.mp tracked.distinct).2.2 _ inList other member same.symm
    split
    · exact Function.update_of_ne different _ _
    · rw [Function.update_of_ne notLast, Function.update_of_ne different]
  · rw [List.append_assoc, List.singleton_append]
    exact List.nodup_middle.mpr (List.nodup_cons.mpr ⟨unlisted, tracked.distinct⟩)
  · intro other member
    rw [List.append_assoc] at member
    rcases List.mem_append.mp member with inList | later
    · exact tracked.known other (List.mem_append_left _ inList)
    · rcases List.mem_append.mp later with isPage | inEmptied
      · exact List.mem_singleton.mp isPage ▸ known
      · exact tracked.known other (List.mem_append_right _ inEmptied)
  · exact tracked.apart
  · refine forall_mem_snoc ?_ ?_
    · intro other member
      dsimp only
      rw [Function.update_of_ne (listedNe other member), Function.update_of_ne (listedNe other member)]
      apply (tracked.freeChain other member).frame
      intro entry inFree
      have inOther := ((tracked.free_iff other member entry).mp inFree).1
      exact (linkEntries_frame layout.entryCount 0 (volume.clearLinks page)
        (outside other member entry inOther)).1
    · dsimp only
      rw [Function.update_self, Function.update_self]
      exact linkEntries_entries nonNull _
  · refine forall_mem_snoc ?_ ?_
    · intro other member
      rw [Function.update_of_ne (listedNe other member)]
      exact tracked.freeNodup other member
    · rw [Function.update_self]
      exact layout.entries_nodup page
  · refine forall_mem_snoc ?_ ?_
    · intro other member
      rw [Function.update_of_ne (listedNe other member)]
      exact tracked.free_iff other member
    · intro entry
      rw [Function.update_self]
      exact ⟨fun inPage => ⟨inPage, notLive entry inPage⟩, fun both => both.1⟩
  · refine forall_mem_snoc ?_ ?_
    · intro other member
      dsimp only
      rw [Function.update_of_ne (listedNe other member), Function.update_of_ne (listedNe other member)]
      exact tracked.used other member
    · dsimp only
      rw [Function.update_self, Function.update_self, Nat.zero_add, EntryLayout.length_entries]
  · refine forall_mem_snoc ?_ ?_
    · intro other member entry inOther
      have kept := (linkEntries_frame layout.entryCount 0 (volume.clearLinks page)
        (outside other member entry inOther)).2
      exact kept.trans (tracked.owner other member entry inOther)
    · intro entry inPage
      obtain ⟨index, small, same⟩ := EntryLayout.mem_entries.mp inPage
      rw [← same]
      exact linkEntries_owner layout.entryCount 0 (volume.clearLinks page) small
  · intro entry isLive
    obtain ⟨other, member, inOther⟩ := tracked.live entry isLive
    exact ⟨other, List.mem_append_left _ member, inOther⟩
  · exact tracked.liveNodup

end Tracked

end DoggOS.Fs.EntryPages

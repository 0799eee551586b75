/-
Pages that enter and leave the list of entry pages.

The search for a free entry walks over full pages only, and a page that is
recycled or new is given entries when it finds none.  A page whose entries are
all free again is taken out after the pages behind it are renumbered.
-/

import DoggOS.Fs.PupEntryPageCalls

namespace DoggOS.Fs.EntryPages

variable {layout : EntryLayout} {volume : EntryPages} {listed emptied front back rest : List Nat}
  {free : Nat → List Nat} {page other entry : Nat}

namespace Tracked

theorem searchTurn_zero (volume : EntryPages) : volume.searchTurn 0 = none :=
  if_neg fun both => both.1 rfl

/-- The search stops at the first page with a free entry, or at the end of the list. -/
theorem search (tracked : Tracked layout volume listed emptied free)
    (whole : listed = front ++ page :: back) (full : ∀ other ∈ front, free other = [])
    {turns : Nat} (enough : back.length + 2 ≤ turns) :
    ∃ found, whileLoop volume.searchTurn turns page = some found ∧
      (found = 0 ∧ (∀ other ∈ listed, free other = []) ∨
        found ≠ 0 ∧ ∃ before behind, listed = before ++ found :: behind ∧
          (∀ other ∈ before, free other = []) ∧ free found ≠ []) := by
  induction back generalizing front page turns with
  | nil =>
      have inList : page ∈ listed := by
        rw [whole]
        exact List.mem_append_right _ List.mem_cons_self
      have nonNull := tracked.linked.nonNull page inList
      have noFree := tracked.freeEntries_eq_zero_iff inList
      obtain ⟨turns, rfl⟩ := Nat.exists_eq_add_of_le enough
      rw [List.length_nil, Nat.zero_add, Nat.add_comm 2 turns]
      by_cases isFull : free page = []
      · have runs : volume.searchTurn page = some (volume.next page) :=
          if_pos ⟨nonNull, noFree.mpr isFull⟩
        have linked := tracked.linked
        rw [whole] at linked
        have isLast : volume.next page = 0 := linked.next_eq_zero_iff.mpr rfl
        rw [WhileLoop.turn runs, isLast]
        refine ⟨0, WhileLoop.stop (searchTurn_zero volume) turns, Or.inl ⟨rfl, ?_⟩⟩
        rw [whole]
        exact forall_mem_snoc full isFull
      · have stops : volume.searchTurn page = none := if_neg fun both => isFull (noFree.mp both.2)
        exact ⟨page, WhileLoop.stop stops _, Or.inr ⟨nonNull, front, [], whole, full, isFull⟩⟩
  | cons next more ih =>
      have inList : page ∈ listed := by
        rw [whole]
        exact List.mem_append_right _ List.mem_cons_self
      have nonNull := tracked.linked.nonNull page inList
      have noFree := tracked.freeEntries_eq_zero_iff inList
      obtain ⟨turns, rfl⟩ := Nat.exists_eq_add_of_le enough
      rw [List.length_cons] at enough ⊢
      rw [show more.length + 1 + 2 + turns = more.length + 2 + turns + 1 by omega]
      by_cases isFull : free page = []
      · have runs : volume.searchTurn page = some (volume.next page) :=
          if_pos ⟨nonNull, noFree.mpr isFull⟩
        have linked := tracked.linked
        rw [whole] at linked
        have isNext : volume.next page = next := linked.links.2
        rw [WhileLoop.turn runs, isNext]
        rw [List.append_cons] at whole
        exact ih whole (forall_mem_snoc full isFull) (Nat.le_add_right _ _)
      · have stops : volume.searchTurn page = none := if_neg fun both => isFull (noFree.mp both.2)
        exact ⟨page, WhileLoop.stop stops _,
          Or.inr ⟨nonNull, front, next :: more, whole, full, isFull⟩⟩

theorem recyclePage (tracked : Tracked layout volume listed emptied free)
    (fresh : volume.FreshPage layout page) :
    ∃ emptied', Tracked layout (volume.recyclePage page).2 listed emptied' free ∧
      (volume.recyclePage page).1 ≠ 0 ∧ (volume.recyclePage page).1 ∉ listed ++ emptied' ∧
      (volume.recyclePage page).1 ∈ (volume.recyclePage page).2.pages := by
  unfold EntryPages.recyclePage
  by_cases spare : volume.freeableEntryPages ≠ 0
  · rw [if_pos spare]
    have chain := tracked.chain
    have distinct := tracked.distinct
    have known := tracked.known
    cases emptied with
    | nil => exact absurd chain spare
    | cons first rest =>
        obtain ⟨isFirst, nonNull, more⟩ := chain
        obtain ⟨unlisted, distinct⟩ := List.nodup_cons.mp (List.nodup_middle.mp distinct)
        refine ⟨rest, ?_, spare, ?_, ?_⟩
        · exact ⟨tracked.linked, tracked.count, tracked.indices, isFirst ▸ more, distinct,
            fun other member => known other (by
              rcases List.mem_append.mp member with inList | inRest
              · exact List.mem_append_left _ inList
              · exact List.mem_append_right _ (List.mem_cons_of_mem _ inRest)),
            tracked.apart, tracked.freeChain, tracked.freeNodup, tracked.free_iff, tracked.used,
            tracked.owner, tracked.live, tracked.liveNodup⟩
        · rw [isFirst]
          exact unlisted
        · rw [isFirst]
          exact known first (List.mem_append_right _ List.mem_cons_self)
  · rw [if_neg spare]
    have notKnown : page ∉ volume.pages := fun member =>
      layout.not_apart_self page (fresh.2 page member)
    refine ⟨emptied, ?_, fresh.1, fun member => notKnown (tracked.known page member),
      List.mem_cons_self⟩
    refine ⟨tracked.linked, tracked.count, tracked.indices, tracked.chain, tracked.distinct,
      fun other member => List.mem_cons_of_mem _ (tracked.known other member), ?_,
      tracked.freeChain, tracked.freeNodup, tracked.free_iff, tracked.used, tracked.owner,
      tracked.live, tracked.liveNodup⟩
    intro one oneIn two twoIn different
    rcases List.mem_cons.mp oneIn with oneNew | oneOld
    · rcases List.mem_cons.mp twoIn with twoNew | twoOld
      · exact absurd (oneNew.trans twoNew.symm) different
      · exact oneNew ▸ fresh.2 two twoOld
    · rcases List.mem_cons.mp twoIn with twoNew | twoOld
      · rw [twoNew]
        exact (fresh.2 one oneOld).symm
      · exact tracked.apart one oneOld two twoOld different

/-- An allocation returns, with an entry that is not in use. -/
theorem allocCacheEntry (tracked : Tracked layout volume listed emptied free)
    (current : Current volume listed free) (fresh : volume.FreshPage layout page) :
    ∃ entry after listed' emptied' free', volume.allocCacheEntry layout page = some (entry, after) ∧
      entry ≠ 0 ∧ entry ∉ volume.live ∧ after.live = entry :: volume.live ∧
      Tracked layout after listed' emptied' free' ∧ Current after listed' free' := by
  obtain ⟨front, back, whole, full⟩ := current
  have taking : ∀ {start : EntryPages} {listed' emptied' before behind : List Nat}
      {free' : Nat → List Nat} {found : Nat}, Tracked layout start listed' emptied' free' →
      start.live = volume.live → listed' = before ++ found :: behind →
      (∀ other ∈ before, free' other = []) → free' found ≠ [] →
      ∃ entry after listed' emptied' free',
        some ({ start with curEntryPage := found }.takeEntry found) = some (entry, after) ∧
        entry ≠ 0 ∧ entry ∉ volume.live ∧ after.live = entry :: volume.live ∧
        Tracked layout after listed' emptied' free' ∧ Current after listed' free' := by
    intro start listed' emptied' before behind free' found tracked' sameLive whole' full' some
    have inList : found ∈ listed' := by
      rw [whole']
      exact List.mem_append_right _ List.mem_cons_self
    obtain ⟨entry, rest, first⟩ := List.exists_cons_of_ne_nil some
    obtain ⟨isFirst, nonNull, notLive, moved⟩ := (tracked'.setCurrent found).takeEntry inList first
    have live : (EntryPages.takeEntry { start with curEntryPage := found } found).2.live =
        (EntryPages.takeEntry { start with curEntryPage := found } found).1 :: start.live := rfl
    cases taken : EntryPages.takeEntry { start with curEntryPage := found } found with
    | mk got after =>
    rw [taken] at isFirst moved live
    have current : after.curEntryPage = found := by
      have kept : (EntryPages.takeEntry { start with curEntryPage := found } found).2.curEntryPage =
          found := rfl
      rw [taken] at kept
      exact kept
    have isFirst : got = entry := isFirst
    have live : after.live = got :: start.live := live
    refine ⟨got, after, listed', emptied', _, rfl, ?_, ?_, ?_, moved, before, behind, ?_, ?_⟩
    · rw [isFirst]
      exact nonNull
    · rw [isFirst, ← sameLive]
      exact notLive
    · rw [live, sameLive]
    · rw [current]
      exact whole'
    · intro other member
      have different : other ≠ found := by
        rintro rfl
        exact some (full' other member)
      rw [Function.update_of_ne different]
      exact full' other member
  have inList : volume.curEntryPage ∈ listed := by
    rw [whole]
    exact List.mem_append_right _ List.mem_cons_self
  have noFree := tracked.freeEntries_eq_zero_iff inList
  unfold EntryPages.allocCacheEntry
  by_cases some : volume.freeEntries volume.curEntryPage ≠ 0
  · rw [if_pos some]
    exact taking tracked rfl whole full fun none => some (noFree.mpr none)
  · rw [if_neg some]
    have enough : back.length + 2 ≤ volume.entryPageCount + 1 := by
      rw [tracked.count, whole, List.length_append, List.length_cons]
      omega
    obtain ⟨found, ran, outcome⟩ := tracked.search whole full enough
    rw [ran, Option.map_some]
    rcases outcome with ⟨null, allFull⟩ | ⟨nonNull, before, behind, whole', full', some'⟩
    · rw [if_neg (not_not_intro null)]
      obtain ⟨emptied', recycled, nonNull, unlisted, known⟩ := tracked.recyclePage fresh
      have live : (volume.recyclePage page).2.live = volume.live := by
        unfold EntryPages.recyclePage
        split
        · rfl
        · rfl
      cases taken : volume.recyclePage page with
      | mk entryPage start =>
      rw [taken] at recycled nonNull unlisted known live
      have made := recycled.initCacheEntryPage nonNull unlisted known
      have notListed : entryPage ∉ listed := fun member => unlisted (List.mem_append_left _ member)
      apply taking made
      · rw [initCacheEntryPage_eq]
        exact live
      · rfl
      · intro other member
        have different : other ≠ entryPage := fun same => notListed (same ▸ member)
        rw [Function.update_of_ne different]
        exact allFull other member
      · rw [Function.update_self]
        intro none
        have length := layout.length_entries entryPage
        rw [none] at length
        have several := layout.several
        rw [List.length_nil] at length
        omega
    · rw [if_pos nonNull]
      exact taking tracked rfl whole' full' some'

/-- The pages behind an emptied one move up; nothing but the index changes. -/
theorem renumber (chain : Chain volume.next other back) (nodup : back.Nodup) (pageIndex : Nat)
    {turns : Nat} (enough : back.length + 1 ≤ turns) :
    ∃ index last, whileLoop renumberTurn turns (other, pageIndex, volume) =
        some (0, last, { volume with index := index }) ∧
      (∀ place page, back[place]? = some page → index page = pageIndex + place) ∧
      ∀ page, page ∉ back → index page = volume.index page := by
  induction back generalizing other pageIndex turns volume with
  | nil =>
      have null : other = 0 := chain
      obtain ⟨turns, rfl⟩ := Nat.exists_eq_add_of_le enough
      rw [List.length_nil, Nat.zero_add, Nat.add_comm 1 turns, null]
      have stops : renumberTurn (0, pageIndex, volume) = none := by simp [renumberTurn]
      exact ⟨volume.index, pageIndex, WhileLoop.stop stops turns, fun _ _ => nofun, fun _ _ => rfl⟩
  | cons first rest ih =>
      obtain ⟨isFirst, nonNull, more⟩ := chain
      obtain ⟨absent, nodup⟩ := List.nodup_cons.mp nodup
      obtain ⟨turns, rfl⟩ := Nat.exists_eq_add_of_le enough
      rw [List.length_cons, show rest.length + 1 + 1 + turns = rest.length + 1 + turns + 1 by omega]
      have runs : renumberTurn (other, pageIndex, volume) = some (volume.next first, pageIndex + 1,
          { volume with index := Function.update volume.index first pageIndex }) := by
        rw [isFirst]
        exact if_neg nonNull
      rw [WhileLoop.turn runs]
      obtain ⟨index, last, ran, places, others⟩ :=
        @ih { volume with index := Function.update volume.index first pageIndex }
          (volume.next first) more nodup (pageIndex + 1) (rest.length + 1 + turns)
          (Nat.le_add_right _ _)
      refine ⟨index, last, ran, fun place page found => ?_, fun page outside => ?_⟩
      · cases place with
        | zero =>
            have same : first = page := Option.some.inj found
            rw [← same, others first absent]
            exact Function.update_self _ _ _
        | succ place =>
            rw [places place page found]
            omega
      · rw [List.mem_cons, not_or] at outside
        rw [others page outside.2]
        exact Function.update_of_ne outside.1 _ _

theorem unlink (linked : DoublyLinked volume.next volume.prev volume.entryPages
      volume.lastEntryPage (front ++ page :: back)) (notAlone : front ++ back ≠ []) :
    ∃ next prev, (volume.unlinkFirst page).unlinkLast page = { volume with
        next := next
        prev := prev
        entryPages := if volume.prev page = 0 then volume.next page else volume.entryPages
        lastEntryPage := if volume.next page = 0 then volume.prev page else volume.lastEntryPage } ∧
      (∀ other, other ≠ volume.prev page → next other = volume.next other) ∧
      (volume.prev page ≠ 0 → next (volume.prev page) = volume.next page) ∧
      (∀ other, other ≠ volume.next page → prev other = volume.prev other) ∧
      (volume.next page ≠ 0 → prev (volume.next page) = volume.prev page) := by
  have isFirst := linked.eq_first_iff
  have isLast := linked.eq_last_iff
  have noPrev := linked.prev_eq_zero_iff
  have noNext := linked.next_eq_zero_iff
  have notPrev : page ≠ volume.prev page := fun same =>
    linked.prev_notMem_back (same ▸ List.mem_cons_self)
  have notNext : page ≠ volume.next page := fun same =>
    linked.next_notMem_front (same ▸ List.mem_append_right _ List.mem_cons_self)
  by_cases first : front = []
  · have last : back ≠ [] := fun none => notAlone (by rw [first, none]; rfl)
    have atLast : page ≠ volume.lastEntryPage := fun same => last (isLast.mp same)
    have nextNonNull : volume.next page ≠ 0 := fun null => last (noNext.mp null)
    refine ⟨volume.next, Function.update (Function.update volume.prev (volume.next page) 0)
      (volume.next page) (volume.prev page), ?_, fun _ _ => rfl,
      fun nonNull => absurd (noPrev.mpr first) nonNull, ?_, fun _ => Function.update_self _ _ _⟩
    · unfold unlinkFirst unlinkLast
      rw [if_pos (isFirst.mpr first), if_neg atLast, if_pos (noPrev.mpr first), if_neg nextNonNull]
      simp only [Function.update_of_ne notNext]
    · intro other different
      rw [Function.update_of_ne different, Function.update_of_ne different]
  · have atFirst : page ≠ volume.entryPages := fun same => first (isFirst.mp same)
    have prevNonNull : volume.prev page ≠ 0 := fun null => first (noPrev.mp null)
    by_cases last : back = []
    · refine ⟨Function.update (Function.update volume.next (volume.prev page) (volume.next page))
        (volume.prev page) 0, volume.prev, ?_, ?_, ?_, fun _ _ => rfl,
        fun nonNull => absurd (noNext.mpr last) nonNull⟩
      · unfold unlinkFirst unlinkLast
        rw [if_neg atFirst, if_pos (isLast.mpr last), if_neg prevNonNull, if_pos (noNext.mpr last)]
      · intro other different
        rw [Function.update_of_ne different, Function.update_of_ne different]
      · intro _
        rw [Function.update_self]
        exact (noNext.mpr last).symm
    · have atLast : page ≠ volume.lastEntryPage := fun same => last (isLast.mp same)
      have nextNonNull : volume.next page ≠ 0 := fun null => last (noNext.mp null)
      refine ⟨Function.update volume.next (volume.prev page) (volume.next page),
        Function.update volume.prev (volume.next page) (volume.prev page), ?_, ?_, ?_, ?_, ?_⟩
      · unfold unlinkFirst unlinkLast
        rw [if_neg atFirst, if_neg atLast, if_neg prevNonNull, if_neg nextNonNull]
        simp only [Function.update_of_ne notPrev]
      · exact fun other different => Function.update_of_ne different _ _
      · exact fun _ => Function.update_self _ _ _
      · exact fun other different => Function.update_of_ne different _ _
      · exact fun _ => Function.update_self _ _ _

theorem all_free (tracked : Tracked layout volume listed emptied free) (inList : page ∈ listed)
    (none : volume.usedEntries page = 0) : ∀ entry ∈ layout.entries page, entry ∉ volume.live := by
  have used := tracked.used page inList
  rw [none, Nat.zero_add] at used
  have inEntries : free page ⊆ layout.entries page := fun entry member =>
    ((tracked.free_iff page inList entry).mp member).1
  have same := (List.subperm_of_subset (tracked.freeNodup page inList) inEntries).perm_of_length_le
    (Nat.le_of_eq (by rw [used, EntryLayout.length_entries]))
  intro entry inPage
  exact ((tracked.free_iff page inList entry).mp (same.mem_iff.mpr inPage)).2

theorem unlinkPage_live (volume : EntryPages) (page : Nat) :
    (volume.unlinkPage page).live = volume.live := by
  have first : (volume.unlinkFirst page).live = volume.live := by
    unfold unlinkFirst
    split
    · rfl
    · rfl
  have last : ((volume.unlinkFirst page).unlinkLast page).live = (volume.unlinkFirst page).live := by
    unfold unlinkLast
    split
    · rfl
    · rfl
  unfold EntryPages.unlinkPage
  dsimp only
  split
  · exact last.trans first
  · exact last.trans first

/-- An emptied page leaves the list, once the pages behind it are renumbered. -/
theorem unlinkPage (tracked : Tracked layout volume listed emptied free)
    (whole : listed = front ++ page :: back) (notAlone : front ++ back ≠ [])
    (none : volume.usedEntries page = 0) {index : Nat → Nat}
    (places : ∀ place other, back[place]? = some other → index other = front.length + place)
    (others : ∀ other, other ∉ back → index other = volume.index other) :
    Tracked layout ({ volume with index := index }.unlinkPage page) (front ++ back)
        (page :: emptied) free ∧
      ({ volume with index := index }.unlinkPage page).curEntryPage =
        if page = volume.curEntryPage then (front ++ back).headD 0 else volume.curEntryPage := by
  have linked := tracked.linked
  rw [whole] at linked
  have nonNull : page ≠ 0 := linked.nonNull page (List.mem_append_right _ List.mem_cons_self)
  obtain ⟨next, prev, fields, nextsKept, atPrev, prevsKept, atNext⟩ :=
    @unlink { volume with index := index } front back page linked notAlone
  have distinct : (page :: (front ++ back ++ emptied)).Nodup := by
    have nodup := tracked.distinct
    rw [whole, List.append_assoc, List.cons_append] at nodup
    rw [List.append_assoc]
    exact List.nodup_middle.mp nodup
  obtain ⟨absent, restNodup⟩ := List.nodup_cons.mp distinct
  have notListed : page ∉ front ++ back := fun member => absent (List.mem_append_left _ member)
  have toListed : ∀ other ∈ front ++ back, other ∈ listed := by
    intro other member
    rw [whole]
    rcases List.mem_append.mp member with inFront | inBack
    · exact List.mem_append_left _ inFront
    · exact List.mem_append_right _ (List.mem_cons_of_mem _ inBack)
  have different : ∀ other ∈ front ++ back, other ≠ page := fun other member same =>
    notListed (same ▸ member)
  have pageListed : page ∈ listed := by
    rw [whole]
    exact List.mem_append_right _ List.mem_cons_self
  have emptiedNe : ∀ other ∈ emptied, other ≠ page := fun other member same =>
    absent (same ▸ List.mem_append_right _ member)
  have removed := linked.remove (fun other _ => nextsKept other) atPrev
    (fun other _ => prevsKept other) atNext
  have noLive := tracked.all_free pageListed none
  have tracked' : Tracked layout { volume with
        index := index
        next := Function.update next page volume.freeableEntryPages
        prev := prev
        entryPages := if volume.prev page = 0 then volume.next page else volume.entryPages
        lastEntryPage := if volume.next page = 0 then volume.prev page else volume.lastEntryPage
        freeableEntryPages := page
        entryPageCount := volume.entryPageCount - 1 } (front ++ back) (page :: emptied) free := by
    constructor
    · exact removed.frame (fun other member => Function.update_of_ne (different other member) _ _)
        fun _ _ => rfl
    · dsimp only
      rw [tracked.count, whole, List.length_append, List.length_append, List.length_cons]
      omega
    · intro place other found
      dsimp only
      by_cases inFront : place < front.length
      · rw [List.getElem?_append_left inFront] at found
        have notBack : other ∉ back := fun inBack =>
          (List.nodup_append.mp (List.nodup_append.mp restNodup).1).2.2 other
            (List.mem_of_getElem? found) other inBack rfl
        rw [others other notBack]
        apply tracked.indices
        rw [whole, List.getElem?_append_left inFront]
        exact found
      · rw [List.getElem?_append_right (by omega)] at found
        rw [places _ other found]
        omega
    · refine ⟨rfl, nonNull, ?_⟩
      dsimp only
      rw [Function.update_self]
      apply tracked.chain.frame
      intro other member
      rw [Function.update_of_ne (emptiedNe other member)]
      apply nextsKept
      rintro rfl
      have prevListed := tracked.linked.link_mem pageListed
        (tracked.chain.ne_zero_of_mem member) (Or.inr rfl)
      exact (List.nodup_append.mp tracked.distinct).2.2 _ prevListed _ member rfl
    · exact List.nodup_middle.mpr distinct
    · intro other member
      apply tracked.known
      rcases List.mem_append.mp member with inList | inEmptied
      · exact List.mem_append_left _ (toListed other inList)
      · rcases List.mem_cons.mp inEmptied with same | old
        · exact List.mem_append_left _ (same ▸ pageListed)
        · exact List.mem_append_right _ old
    · exact tracked.apart
    · exact fun other member => tracked.freeChain other (toListed other member)
    · exact fun other member => tracked.freeNodup other (toListed other member)
    · exact fun other member => tracked.free_iff other (toListed other member)
    · exact fun other member => tracked.used other (toListed other member)
    · exact fun other member => tracked.owner other (toListed other member)
    · intro entry isLive
      obtain ⟨other, member, inOther⟩ := tracked.live entry isLive
      refine ⟨other, ?_, inOther⟩
      rw [whole] at member
      rcases List.mem_append.mp member with inFront | later
      · exact List.mem_append_left _ inFront
      · rcases List.mem_cons.mp later with same | inBack
        · exact absurd isLive (noLive entry (same ▸ inOther))
        · exact List.mem_append_right _ inBack
    · exact tracked.liveNodup
  unfold EntryPages.unlinkPage
  rw [fields]
  dsimp only
  by_cases isCurrent : page = volume.curEntryPage
  · rw [if_pos isCurrent, if_pos isCurrent]
    exact ⟨tracked'.setCurrent _, removed.first⟩
  · rw [if_neg isCurrent, if_neg isCurrent]
    exact ⟨tracked', rfl⟩

end Tracked

end DoggOS.Fs.EntryPages

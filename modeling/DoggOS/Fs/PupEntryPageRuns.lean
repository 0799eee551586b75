/-
Runs of the entry allocator.

Between two calls the entry pages are tracked and every page before the current
one is full.  A release moves the current page back to the page of the entry if
that stands before it, so an allocation never searches from behind a free entry.
-/

import DoggOS.Fs.PupEntryPageMoves

namespace DoggOS.Fs.EntryPages

variable {layout : EntryLayout} {volume : EntryPages} {listed emptied front back : List Nat}
  {free : Nat → List Nat} {page other entry : Nat}

namespace Tracked

theorem index_eq (tracked : Tracked layout volume listed emptied free)
    (whole : listed = front ++ page :: back) : volume.index page = front.length := by
  apply tracked.indices
  rw [whole, List.getElem?_append_right (Nat.le_refl _), Nat.sub_self]
  rfl

/-- The index of a page tells on which side of another page it stands. -/
theorem index_lt_iff (tracked : Tracked layout volume listed emptied free)
    (whole : listed = front ++ other :: back) (inList : page ∈ listed) :
    volume.index page < volume.index other ↔ page ∈ front := by
  rw [tracked.index_eq whole]
  constructor
  · intro smaller
    rw [whole] at inList
    rcases List.mem_append.mp inList with inFront | later
    · exact inFront
    · rcases List.mem_cons.mp later with same | inBack
      · rw [same, tracked.index_eq whole] at smaller
        exact absurd smaller (Nat.lt_irrefl _)
      · obtain ⟨middle, behind, split⟩ := List.append_of_mem inBack
        rw [split, List.append_cons, ← List.append_assoc] at whole
        rw [tracked.index_eq whole, List.length_append, List.length_append,
          List.length_singleton] at smaller
        omega
  · intro inFront
    obtain ⟨before, middle, split⟩ := List.append_of_mem inFront
    rw [split, List.append_assoc, List.cons_append] at whole
    rw [tracked.index_eq whole, split, List.length_append, List.length_cons]
    omega

theorem dropPage (tracked : Tracked layout volume listed emptied free)
    (whole : listed = front ++ page :: back) (notAlone : front ++ back ≠ [])
    (none : volume.usedEntries page = 0) :
    ∃ after, (whileLoop renumberTurn (volume.entryPageCount + 1)
        (volume.next page, volume.index page, volume)).map (fun turn => turn.2.2.unlinkPage page) =
          some after ∧
      Tracked layout after (front ++ back) (page :: emptied) free ∧ after.live = volume.live ∧
      after.curEntryPage =
        if page = volume.curEntryPage then (front ++ back).headD 0 else volume.curEntryPage := by
  have linked := tracked.linked
  rw [whole] at linked
  have backSegment := (Segment.append_iff.mp linked.segment).2.2.2
  have chain := backSegment.chain fun other member =>
    linked.nonNull other (List.mem_append_right _ (List.mem_cons_of_mem _ member))
  rw [← linked.links.2] at chain
  have nodup := (List.nodup_cons.mp (List.nodup_append.mp linked.nodup).2.1).2
  have enough : back.length + 1 ≤ volume.entryPageCount + 1 := by
    rw [tracked.count, whole, List.length_append, List.length_cons]
    omega
  obtain ⟨index, last, ran, places, others⟩ :=
    renumber chain nodup (volume.index page) enough
  rw [tracked.index_eq whole] at places
  obtain ⟨tracked', current⟩ := tracked.unlinkPage whole notAlone none places others
  refine ⟨_, ?_, tracked', unlinkPage_live _ page, current⟩
  rw [ran]
  rfl

/-- A release returns, and the entry is not in use any more. -/
theorem freeCacheEntry (tracked : Tracked layout volume listed emptied free)
    (current : Current volume listed free) (isLive : entry ∈ volume.live) :
    ∃ after listed' emptied' free', volume.freeCacheEntry entry = some after ∧
      after.live = volume.live.erase entry ∧ Tracked layout after listed' emptied' free' ∧
      Current after listed' free' := by
  obtain ⟨before, behind, whole, full⟩ := current
  obtain ⟨page, inList, owner, given⟩ := tracked.giveEntry isLive
  have sameCurrent : (volume.giveEntry entry).curEntryPage = volume.curEntryPage := rfl
  have stillFull : page ∉ before → ∀ other ∈ before,
      Function.update free page (entry :: free page) other = [] := by
    intro outside other member
    have different : other ≠ page := fun same => outside (same ▸ member)
    rw [Function.update_of_ne different]
    exact full other member
  unfold EntryPages.freeCacheEntry
  simp only [owner]
  by_cases emptied' : (volume.giveEntry entry).usedEntries page = 0 ∧
      (volume.giveEntry entry).entryPageCount > 1
  · rw [if_pos emptied']
    obtain ⟨none, more⟩ := emptied'
    have outside : page ∉ before := by
      intro member
      have used := given.used page inList
      have several := layout.several
      rw [Function.update_self, none, full page member, List.length_singleton] at used
      omega
    have notAlone : ∀ {front back : List Nat}, listed = front ++ page :: back → front ++ back ≠ [] := by
      intro front back split alone
      rw [given.count, split, List.length_append, List.length_cons] at more
      have length := congrArg List.length alone
      rw [List.length_append, List.length_nil] at length
      omega
    by_cases isCurrent : page = volume.curEntryPage
    · rw [← isCurrent] at whole
      obtain ⟨after, ran, tracked', live, current'⟩ := given.dropPage whole (notAlone whole) none
      rw [sameCurrent, if_pos isCurrent] at current'
      refine ⟨after, _, _, _, ran, live, tracked', ?_⟩
      obtain ⟨first, rest, split⟩ := List.exists_cons_of_ne_nil (notAlone whole)
      rw [split] at current' ⊢
      have isFirst : after.curEntryPage = first := current'
      exact ⟨[], rest, by rw [isFirst]; rfl, fun _ => nofun⟩
    · have inBehind : page ∈ behind := by
        rw [whole] at inList
        rcases List.mem_append.mp inList with inBefore | later
        · exact absurd inBefore outside
        · exact (List.mem_cons.mp later).resolve_left isCurrent
      obtain ⟨middle, back, split⟩ := List.append_of_mem inBehind
      have cut : listed = (before ++ volume.curEntryPage :: middle) ++ page :: back := by
        rw [whole, split, List.append_assoc, List.cons_append]
      obtain ⟨after, ran, tracked', live, current'⟩ := given.dropPage cut (notAlone cut) none
      rw [sameCurrent, if_neg isCurrent] at current'
      refine ⟨after, _, _, _, ran, live, tracked', before, middle ++ back, ?_, stillFull outside⟩
      rw [current', List.append_assoc, List.cons_append]
  · rw [if_neg emptied']
    have order := given.index_lt_iff whole inList
    by_cases earlier : (volume.giveEntry entry).index page <
        (volume.giveEntry entry).index (volume.giveEntry entry).curEntryPage
    · rw [if_pos earlier]
      obtain ⟨first, middle, split⟩ := List.append_of_mem (order.mp earlier)
      refine ⟨_, listed, emptied, _, rfl, rfl, given.setCurrent page, first,
        middle ++ volume.curEntryPage :: behind, ?_, ?_⟩
      · rw [whole, split, List.append_assoc, List.cons_append]
      · intro other member
        have nodup := (List.nodup_append.mp tracked.distinct).1
        rw [whole, split, List.append_assoc] at nodup
        have different : other ≠ page :=
          (List.nodup_append.mp nodup).2.2 other member page List.mem_cons_self
        rw [Function.update_of_ne different]
        apply full
        rw [split]
        exact List.mem_append_left _ member
    · rw [if_neg earlier]
      refine ⟨_, listed, emptied, _, rfl, rfl, given, before, behind, whole, ?_⟩
      exact stillFull fun member => earlier (order.mpr member)

end Tracked

theorem Start.tracked (start : Start layout volume) :
    ∃ listed emptied free, Tracked layout volume listed emptied free ∧ Current volume listed free := by
  obtain ⟨zeroed, page, nonNull, noPages, noLast, noFreeable, noCount, noLive, rfl⟩ := start
  have empty : Tracked layout { zeroed with curEntryPage := page, pages := [page] } [] []
      fun _ => [] := by
    refine ⟨?_, noCount, fun _ _ => nofun, noFreeable, List.nodup_nil, fun _ => nofun, ?_,
      fun _ => nofun, fun _ => nofun, fun _ => nofun, fun _ => nofun, fun _ => nofun, ?_, ?_⟩
    · dsimp only
      rw [noPages, noLast]
      exact DoublyLinked.nil
    · intro one oneIn two twoIn different
      exact absurd ((List.mem_singleton.mp oneIn).trans (List.mem_singleton.mp twoIn).symm) different
    · dsimp only
      rw [noLive]
      exact fun _ => nofun
    · dsimp only
      rw [noLive]
      exact List.nodup_nil
  refine ⟨[page], [], _, empty.initCacheEntryPage nonNull List.not_mem_nil List.mem_cons_self,
    [], [], ?_, fun _ => nofun⟩
  rw [initCacheEntryPage_eq]
  rfl

theorem Tracked.call {label : EntryCall} {after : EntryPages}
    (tracked : Tracked layout volume listed emptied free) (current : Current volume listed free)
    (enabled : volume.Enabled layout label) (called : volume.call layout label = some after) :
    ∃ listed emptied free, Tracked layout after listed emptied free ∧ Current after listed free := by
  cases label with
  | allocCacheEntry page =>
      obtain ⟨entry, reached, listed', emptied', free', returned, -, -, -, tracked', current'⟩ :=
        tracked.allocCacheEntry current enabled
      unfold EntryPages.call at called
      simp only [returned] at called
      cases called
      exact ⟨listed', emptied', free', tracked', current'⟩
  | freeCacheEntry entry =>
      obtain ⟨reached, listed', emptied', free', returned, -, tracked', current'⟩ :=
        tracked.freeCacheEntry current enabled
      have same : some reached = some after := returned.symm.trans called
      cases same
      exact ⟨listed', emptied', free', tracked', current'⟩

theorem reachable_tracked (reachable : (machine layout).Reachable volume) :
    ∃ listed emptied free, Tracked layout volume listed emptied free ∧ Current volume listed free := by
  apply (machine layout).invariant (fun _ start => start.tracked) _ reachable
  rintro before label after ⟨listed, emptied, free, tracked, current⟩ ⟨enabled, called⟩
  exact tracked.call current enabled called

/-- The lists of the entry pages, in terms of the entries that are in use. -/
structure Consistent (layout : EntryLayout) (volume : EntryPages) (listed spare : List Nat)
    (free : Nat → List Nat) : Prop where
  linked : DoublyLinked volume.next volume.prev volume.entryPages volume.lastEntryPage listed
  count : volume.entryPageCount = listed.length
  index : ∀ place page, listed[place]? = some page → volume.index page = place
  current : ∃ front back, listed = front ++ volume.curEntryPage :: back ∧
    ∀ page ∈ front, ∀ entry ∈ layout.entries page, entry ∈ volume.live
  used : ∀ page ∈ listed,
    volume.usedEntries page = (volume.live.filter (· ∈ layout.entries page)).length
  freeChain : ∀ page ∈ listed, Chain volume.entryNext (volume.freeEntries page) (free page)
  freeNodup : ∀ page ∈ listed, (free page).Nodup
  free_iff : ∀ page ∈ listed, ∀ entry, entry ∈ free page ↔
    entry ∈ layout.entries page ∧ entry ∉ volume.live
  freeable : Chain volume.next volume.freeableEntryPages spare
  unlisted : ∀ page ∈ spare, page ∉ listed
  idle : ∀ page ∈ spare, ∀ entry ∈ layout.entries page, entry ∉ volume.live
  live : ∀ entry ∈ volume.live, ∃ page ∈ listed, entry ∈ layout.entries page
  liveNodup : volume.live.Nodup

namespace Tracked

theorem used_eq (tracked : Tracked layout volume listed emptied free) (inList : page ∈ listed) :
    volume.usedEntries page = (volume.live.filter (· ∈ layout.entries page)).length := by
  have used := tracked.used page inList
  have parts := List.length_eq_length_filter_add (l := layout.entries page) (· ∈ volume.live)
  have lives : ((layout.entries page).filter (· ∈ volume.live)).Perm
      (volume.live.filter (· ∈ layout.entries page)) := by
    rw [List.perm_ext_iff_of_nodup ((layout.entries_nodup page).filter _)
      (tracked.liveNodup.filter _)]
    intro entry
    simp only [List.mem_filter, decide_eq_true_eq]
    exact and_comm
  have frees : ((layout.entries page).filter (fun entry => ! decide (entry ∈ volume.live))).Perm (free page) := by
    rw [List.perm_ext_iff_of_nodup ((layout.entries_nodup page).filter _)
      (tracked.freeNodup page inList)]
    intro entry
    rw [tracked.free_iff page inList]
    simp only [List.mem_filter, Bool.not_eq_true', decide_eq_false_iff_not]
  rw [EntryLayout.length_entries, lives.length_eq, frees.length_eq] at parts
  omega

theorem consistent (tracked : Tracked layout volume listed emptied free)
    (current : Current volume listed free) : Consistent layout volume listed emptied free := by
  have distinct := List.nodup_append.mp tracked.distinct
  have unlisted : ∀ page ∈ emptied, page ∉ listed := fun page member inList =>
    distinct.2.2 page inList page member rfl
  obtain ⟨front, back, whole, full⟩ := current
  refine ⟨tracked.linked, tracked.count, tracked.indices, ⟨front, back, whole, ?_⟩,
    fun page => tracked.used_eq, tracked.freeChain, tracked.freeNodup, tracked.free_iff,
    tracked.chain, unlisted, ?_, tracked.live, tracked.liveNodup⟩
  · intro page member entry inPage
    have inList : page ∈ listed := by
      rw [whole]
      exact List.mem_append_left _ member
    by_contra notLive
    have isFree := (tracked.free_iff page inList entry).mpr ⟨inPage, notLive⟩
    rw [full page member] at isFree
    cases isFree
  · intro page member entry inPage isLive
    obtain ⟨other, inList, inOther⟩ := tracked.live entry isLive
    have different : page ≠ other := fun same => unlisted page member (same ▸ inList)
    exact (tracked.pages_apart (List.mem_append_right _ member) (List.mem_append_left _ inList)
      different).notMem inPage inOther

end Tracked

/-- In every run the lists are consistent, an allocation gives an entry that is not in use,
and a release returns. -/
theorem entryPages_consistent (reachable : (machine layout).Reachable volume) :
    (∃ listed spare free, Consistent layout volume listed spare free) ∧
      (∀ page, volume.FreshPage layout page →
        ∃ entry after, volume.allocCacheEntry layout page = some (entry, after) ∧
          entry ≠ 0 ∧ entry ∉ volume.live ∧ after.live = entry :: volume.live) ∧
      ∀ entry ∈ volume.live,
        ∃ after, volume.freeCacheEntry entry = some after ∧
          after.live = volume.live.erase entry := by
  obtain ⟨listed, emptied, free, tracked, current⟩ := reachable_tracked reachable
  refine ⟨⟨listed, emptied, free, tracked.consistent current⟩, fun page fresh => ?_,
    fun entry isLive => ?_⟩
  · obtain ⟨entry, after, -, -, -, returned, nonNull, notLive, live, -, -⟩ :=
      tracked.allocCacheEntry current fresh
    exact ⟨entry, after, returned, nonNull, notLive, live⟩
  · obtain ⟨after, -, -, -, returned, live, -, -⟩ := tracked.freeCacheEntry current isLive
    exact ⟨after, returned, live⟩

instance (call : EntryCall) : Decidable (volume.Enabled layout call) :=
  match call with
  | .allocCacheEntry page => inferInstanceAs (Decidable (page ≠ 0 ∧ ∀ other ∈ volume.pages,
      page + layout.pageBytes ≤ other ∨ other + layout.pageBytes ≤ page))
  | .freeCacheEntry entry => inferInstanceAs (Decidable (entry ∈ volume.live))

def nextVolume (layout : EntryLayout) (volume : EntryPages) (label : EntryCall) : Option EntryPages :=
  if volume.Enabled layout label then volume.call layout label else none

theorem step_of_next {label : EntryCall} {after : EntryPages}
    (defined : nextVolume layout volume label = some after) :
    (machine layout).step volume label after := by
  unfold nextVolume at defined
  split at defined
  · exact ⟨‹_›, defined⟩
  · cases defined

def pairs : EntryLayout := ⟨2, 24, 40, by decide, by decide⟩

def onePage : EntryPages :=
  ({ next _ := 0, prev _ := 0, freeEntries _ := 0, usedEntries _ := 0, index _ := 0,
     entryNext _ := 0, entryPage _ := 0, entryPages := 0, lastEntryPage := 0, curEntryPage := 4096,
     freeableEntryPages := 0, entryPageCount := 0, live := [], pages := [4096] } :
    EntryPages).initCacheEntryPage pairs 4096

theorem onePage_start : Start pairs onePage :=
  ⟨{ next _ := 0, prev _ := 0, freeEntries _ := 0, usedEntries _ := 0, index _ := 0,
     entryNext _ := 0, entryPage _ := 0, entryPages := 0, lastEntryPage := 0, curEntryPage := 0,
     freeableEntryPages := 0, entryPageCount := 0, live := [], pages := [] },
    4096, by decide, rfl, rfl, rfl, rfl, rfl, rfl⟩

/-- The first page is emptied while the second one is in use. -/
theorem entryPages_consistent_emptied : ∃ volume, (machine pairs).Reachable volume ∧
    volume.freeableEntryPages = 4096 ∧ volume.curEntryPage = 8192 ∧
    ∃ listed spare free, Consistent pairs volume listed spare free := by
  have ran : (Machine.follow (nextVolume pairs) onePage
      [.allocCacheEntry 8192, .allocCacheEntry 8192, .allocCacheEntry 8192, .freeCacheEntry 4120,
        .freeCacheEntry 4160]).map (fun volume => (volume.freeableEntryPages, volume.curEntryPage)) =
      some (4096, 8192) := by decide +kernel
  obtain ⟨volume, followed, fields⟩ := Option.map_eq_some_iff.mp ran
  have reachable := (machine pairs).follow_reachable (fun _ _ _ => step_of_next)
    ((machine pairs).reachable_start onePage_start) followed
  exact ⟨volume, reachable, congrArg Prod.fst fields, congrArg Prod.snd fields,
    (entryPages_consistent reachable).1⟩

end DoggOS.Fs.EntryPages

/-
Pages of cells, each with a free list of its own.

`cells page` are the cells of a page.  Each listed page has the head of a list
of its free cells and a count of the others; each cell leads to its page.  The
live cells are a history: a cell is taken from the front of a free list, given
back there, and a new page comes with all its cells free.
-/

import DoggOS.Library.LinkedQueues
import Mathlib.Data.List.Perm.Subperm

namespace DoggOS

structure PageFreeLists (cells : Nat → List Nat) (next owner head used : Nat → Nat)
    (live listed : List Nat) (free : Nat → List Nat) : Prop where
  nodupCells : ∀ page ∈ listed, (cells page).Nodup
  disjoint : ∀ page ∈ listed, ∀ other ∈ listed, page ≠ other → ∀ cell ∈ cells page,
    cell ∉ cells other
  nonNull : ∀ page ∈ listed, ∀ cell ∈ cells page, cell ≠ 0
  chain : ∀ page ∈ listed, Chain next (head page) (free page)
  nodup : ∀ page ∈ listed, (free page).Nodup
  free_iff : ∀ page ∈ listed, ∀ cell, cell ∈ free page ↔ cell ∈ cells page ∧ cell ∉ live
  counted : ∀ page ∈ listed, used page + (free page).length = (cells page).length
  owned : ∀ page ∈ listed, ∀ cell ∈ cells page, owner cell = page
  living : ∀ cell ∈ live, ∃ page ∈ listed, cell ∈ cells page
  liveNodup : live.Nodup

namespace PageFreeLists

variable {cells : Nat → List Nat} {next owner head used next' owner' : Nat → Nat}
  {live listed rest : List Nat} {free : Nat → List Nat} {page cell : Nat}

theorem nil : PageFreeLists cells next owner head used [] [] free :=
  ⟨fun _ => nofun, fun _ => nofun, fun _ => nofun, fun _ => nofun, fun _ => nofun,
    fun _ => nofun, fun _ => nofun, fun _ => nofun, fun _ => nofun, List.nodup_nil⟩

theorem head_eq_zero_iff (lists : PageFreeLists cells next owner head used live listed free)
    (member : page ∈ listed) : head page = 0 ↔ free page = [] :=
  (lists.chain page member).eq_nil_iff.symm

/-- The first free cell of a page is taken, whatever its link is set to. -/
theorem take (lists : PageFreeLists cells next owner head used live listed free)
    (member : page ∈ listed) (first : free page = cell :: rest) (link : Nat) :
    head page = cell ∧ cell ∈ cells page ∧ cell ∉ live ∧
      PageFreeLists cells (Function.update next cell link) owner
        (Function.update head page (next cell)) (Function.update used page (used page + 1))
        (cell :: live) listed (Function.update free page rest) := by
  have chain := lists.chain page member
  have nodup := lists.nodup page member
  have members := lists.free_iff page member
  have count := lists.counted page member
  rw [first] at chain nodup members count
  obtain ⟨isFirst, -, more⟩ := chain
  obtain ⟨absent, nodup⟩ := List.nodup_cons.mp nodup
  obtain ⟨inPage, notLive⟩ := (members cell).mp List.mem_cons_self
  refine ⟨isFirst, inPage, notLive, lists.nodupCells, lists.disjoint, lists.nonNull, ?_, ?_, ?_,
    ?_, lists.owned, ?_, List.nodup_cons.mpr ⟨notLive, lists.liveNodup⟩⟩
  · intro other otherIn
    by_cases same : other = page
    · rw [same, Function.update_self, Function.update_self]
      exact more.update absent link
    · rw [Function.update_of_ne same, Function.update_of_ne same]
      apply (lists.chain other otherIn).update
      intro inFree
      have inOther := ((lists.free_iff other otherIn cell).mp inFree).1
      exact lists.disjoint page member other otherIn (Ne.symm same) cell inPage inOther
  · intro other otherIn
    by_cases same : other = page
    · rw [same, Function.update_self]
      exact nodup
    · rw [Function.update_of_ne same]
      exact lists.nodup other otherIn
  · intro other otherIn one
    rw [List.mem_cons, not_or]
    by_cases same : other = page
    · rw [same, Function.update_self]
      have before := members one
      rw [List.mem_cons] at before
      constructor
      · intro inRest
        obtain ⟨inCells, notUsed⟩ := before.mp (Or.inr inRest)
        exact ⟨inCells, fun equal => absent (equal ▸ inRest), notUsed⟩
      · rintro ⟨inCells, different, notUsed⟩
        exact (before.mpr ⟨inCells, notUsed⟩).resolve_left different
    · rw [Function.update_of_ne same, lists.free_iff other otherIn one]
      constructor
      · rintro ⟨inCells, notUsed⟩
        refine ⟨inCells, fun equal => ?_, notUsed⟩
        exact lists.disjoint page member other otherIn (Ne.symm same) cell inPage (equal ▸ inCells)
      · rintro ⟨inCells, -, notUsed⟩
        exact ⟨inCells, notUsed⟩
  · intro other otherIn
    by_cases same : other = page
    · rw [same, Function.update_self, Function.update_self]
      rw [List.length_cons] at count
      omega
    · rw [Function.update_of_ne same, Function.update_of_ne same]
      exact lists.counted other otherIn
  · intro one isLive
    rcases List.mem_cons.mp isLive with same | old
    · exact ⟨page, member, same ▸ inPage⟩
    · exact lists.living one old

theorem give (lists : PageFreeLists cells next owner head used live listed free)
    (isLive : cell ∈ live) :
    ∃ page ∈ listed, owner cell = page ∧ 0 < used page ∧
      PageFreeLists cells (Function.update next cell (head page)) owner
        (Function.update head page cell) (Function.update used page (used page - 1))
        (live.erase cell) listed (Function.update free page (cell :: free page)) := by
  obtain ⟨page, member, inPage⟩ := lists.living cell isLive
  have count := lists.counted page member
  have notFree : ∀ other ∈ listed, cell ∉ free other := by
    intro other otherIn inFree
    exact ((lists.free_iff other otherIn cell).mp inFree).2 isLive
  have nodup := List.nodup_cons.mpr ⟨notFree page member, lists.nodup page member⟩
  have shorter : (free page).length < (cells page).length := by
    have inCells : cell :: free page ⊆ cells page := by
      intro one inFree
      rcases List.mem_cons.mp inFree with same | old
      · exact same ▸ inPage
      · exact ((lists.free_iff page member one).mp old).1
    have bound := (List.subperm_of_subset nodup inCells).length_le
    rw [List.length_cons] at bound
    exact bound
  have liveMem : ∀ one, one ∈ live.erase cell ↔ one ≠ cell ∧ one ∈ live :=
    fun one => lists.liveNodup.mem_erase_iff
  refine ⟨page, member, lists.owned page member cell inPage, by omega, lists.nodupCells,
    lists.disjoint, lists.nonNull, ?_, ?_, ?_, ?_, lists.owned, ?_, lists.liveNodup.erase cell⟩
  · intro other otherIn
    by_cases same : other = page
    · rw [same, Function.update_self, Function.update_self]
      refine ⟨rfl, lists.nonNull page member cell inPage, ?_⟩
      rw [Function.update_self]
      exact (lists.chain page member).update (notFree page member) _
    · rw [Function.update_of_ne same, Function.update_of_ne same]
      exact (lists.chain other otherIn).update (notFree other otherIn) _
  · intro other otherIn
    by_cases same : other = page
    · rw [same, Function.update_self]
      exact nodup
    · rw [Function.update_of_ne same]
      exact lists.nodup other otherIn
  · intro other otherIn one
    rw [liveMem, not_and]
    by_cases same : other = page
    · rw [same, Function.update_self, List.mem_cons, lists.free_iff page member one]
      constructor
      · rintro (isCell | ⟨inCells, notUsed⟩)
        · exact ⟨isCell ▸ inPage, fun different => absurd isCell different⟩
        · exact ⟨inCells, fun _ => notUsed⟩
      · rintro ⟨inCells, notUsed⟩
        by_cases isCell : one = cell
        · exact Or.inl isCell
        · exact Or.inr ⟨inCells, notUsed isCell⟩
    · rw [Function.update_of_ne same, lists.free_iff other otherIn one]
      constructor
      · rintro ⟨inCells, notUsed⟩
        exact ⟨inCells, fun _ => notUsed⟩
      · rintro ⟨inCells, notUsed⟩
        refine ⟨inCells, notUsed fun equal => ?_⟩
        exact lists.disjoint page member other otherIn (Ne.symm same) cell inPage (equal ▸ inCells)
  · intro other otherIn
    by_cases same : other = page
    · rw [same, Function.update_self, Function.update_self, List.length_cons]
      omega
    · rw [Function.update_of_ne same, Function.update_of_ne same]
      exact lists.counted other otherIn
  · intro one inLive
    exact lists.living one ((liveMem one).mp inLive).2

theorem addPage (lists : PageFreeLists cells next owner head used live listed free)
    (unlisted : page ∉ listed) (nodupCells : (cells page).Nodup)
    (disjoint : ∀ other ∈ listed, ∀ cell ∈ cells other, cell ∉ cells page)
    (nonNull : ∀ cell ∈ cells page, cell ≠ 0) {first : Nat}
    (chain : Chain next' first (cells page)) (owned : ∀ cell ∈ cells page, owner' cell = page)
    (nexts : ∀ other ∈ listed, ∀ cell ∈ cells other, next' cell = next cell)
    (owners : ∀ other ∈ listed, ∀ cell ∈ cells other, owner' cell = owner cell) :
    PageFreeLists cells next' owner' (Function.update head page first)
      (Function.update used page 0) live (listed ++ [page])
      (Function.update free page (cells page)) := by
  have listedNe : ∀ other ∈ listed, other ≠ page := fun other member same =>
    unlisted (same ▸ member)
  have atEnd : ∀ {property : Nat → Prop}, (∀ other ∈ listed, property other) → property page →
      ∀ other ∈ listed ++ [page], property other := by
    intro property all last other member
    rcases List.mem_append.mp member with old | new
    · exact all other old
    · exact List.mem_singleton.mp new ▸ last
  have notLive : ∀ cell ∈ cells page, cell ∉ live := by
    intro cell inPage isLive
    obtain ⟨other, member, inOther⟩ := lists.living cell isLive
    exact disjoint other member cell inOther inPage
  refine ⟨atEnd lists.nodupCells nodupCells, ?_, atEnd lists.nonNull nonNull, atEnd ?_ ?_,
    atEnd ?_ ?_, atEnd ?_ ?_, atEnd ?_ ?_, atEnd ?_ owned, ?_, lists.liveNodup⟩
  · refine atEnd (fun one oneIn => atEnd (lists.disjoint one oneIn) fun _ => disjoint one oneIn)
      (atEnd (fun other member _ cell inPage inOther => ?_) fun same => absurd rfl same)
    exact disjoint other member cell inOther inPage
  · intro other member
    rw [Function.update_of_ne (listedNe other member), Function.update_of_ne (listedNe other member)]
    apply (lists.chain other member).frame
    intro cell inFree
    exact nexts other member cell ((lists.free_iff other member cell).mp inFree).1
  · rw [Function.update_self, Function.update_self]
    exact chain
  · intro other member
    rw [Function.update_of_ne (listedNe other member)]
    exact lists.nodup other member
  · rw [Function.update_self]
    exact nodupCells
  · intro other member
    rw [Function.update_of_ne (listedNe other member)]
    exact lists.free_iff other member
  · intro cell
    rw [Function.update_self]
    exact ⟨fun inPage => ⟨inPage, notLive cell inPage⟩, fun both => both.1⟩
  · intro other member
    rw [Function.update_of_ne (listedNe other member), Function.update_of_ne (listedNe other member)]
    exact lists.counted other member
  · rw [Function.update_self, Function.update_self, Nat.zero_add]
  · intro other member cell inOther
    exact (owners other member cell inOther).trans (lists.owned other member cell inOther)
  · intro cell isLive
    obtain ⟨other, member, inOther⟩ := lists.living cell isLive
    exact ⟨other, List.mem_append_left _ member, inOther⟩

theorem used_eq (lists : PageFreeLists cells next owner head used live listed free)
    (member : page ∈ listed) : used page = (live.filter (· ∈ cells page)).length := by
  have count := lists.counted page member
  have parts := List.length_eq_length_filter_add (l := cells page) (· ∈ live)
  have lives : ((cells page).filter (· ∈ live)).Perm (live.filter (· ∈ cells page)) := by
    rw [List.perm_ext_iff_of_nodup ((lists.nodupCells page member).filter _)
      (lists.liveNodup.filter _)]
    intro cell
    simp only [List.mem_filter, decide_eq_true_eq]
    exact and_comm
  have frees : ((cells page).filter (fun cell => ! decide (cell ∈ live))).Perm (free page) := by
    rw [List.perm_ext_iff_of_nodup ((lists.nodupCells page member).filter _)
      (lists.nodup page member)]
    intro cell
    rw [lists.free_iff page member]
    simp only [List.mem_filter, Bool.not_eq_true', decide_eq_false_iff_not]
  rw [lives.length_eq, frees.length_eq] at parts
  omega

end PageFreeLists

end DoggOS

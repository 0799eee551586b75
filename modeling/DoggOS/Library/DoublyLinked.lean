/-
Doubly linked lists in two link memories.

A cell is a natural number and zero is the null link.  `Segment next prev` says
that the links of each cell lead to its neighbours, between what stands before
the cells and what stands after them.  A list is a segment between two nulls
with a pointer to each end; pieces are put together and cut at any place, and
only the links at the cut are written.
-/

import DoggOS.Library.LinkedQueues

namespace DoggOS

def Segment (next prev : Nat → Nat) : Nat → List Nat → Nat → Prop
  | _, [], _ => True
  | before, cell :: rest, after =>
      prev cell = before ∧ next cell = rest.headD after ∧ Segment next prev cell rest after

theorem getLastD_append (front back : List Nat) (default : Nat) :
    (front ++ back).getLastD default = back.getLastD (front.getLastD default) := by
  induction front generalizing default with
  | nil => rfl
  | cons cell rest ih =>
      rw [List.cons_append, List.getLastD_cons, List.getLastD_cons]
      exact ih cell

theorem getLastD_mem {cells : List Nat} (notNil : cells ≠ []) (default : Nat) :
    cells.getLastD default ∈ cells := by
  rw [List.getLastD_eq_getLast?, List.getLast?_eq_some_getLast notNil]
  exact List.getLast_mem notNil

namespace Segment

variable {next prev next' prev' : Nat → Nat} {before after cell : Nat} {cells front back : List Nat}

theorem frame (segment : Segment next prev before cells after)
    (nexts : ∀ cell ∈ cells, next' cell = next cell)
    (prevs : ∀ cell ∈ cells, prev' cell = prev cell) : Segment next' prev' before cells after := by
  induction cells generalizing before with
  | nil => trivial
  | cons first rest ih =>
      obtain ⟨back, forth, more⟩ := segment
      refine ⟨(prevs first List.mem_cons_self).trans back,
        (nexts first List.mem_cons_self).trans forth, ?_⟩
      exact ih more (fun cell member => nexts cell (List.mem_cons_of_mem _ member))
        fun cell member => prevs cell (List.mem_cons_of_mem _ member)

theorem append_iff : Segment next prev before (front ++ back) after ↔
    Segment next prev before front (back.headD after) ∧
      Segment next prev (front.getLastD before) back after := by
  induction front generalizing before with
  | nil => exact ⟨fun segment => ⟨trivial, segment⟩, fun both => both.2⟩
  | cons first rest ih =>
      have heads : (rest ++ back).headD after = rest.headD (back.headD after) := by
        cases rest with
        | nil => rfl
        | cons _ _ => rfl
      rw [List.cons_append, List.getLastD_cons]
      simp only [Segment, heads, ih, and_assoc]

/-- Another cell after the last one: only the link of the last cell changes. -/
theorem setAfter {after' : Nat} (segment : Segment next prev before cells after)
    (nodup : cells.Nodup) (nexts : ∀ cell ∈ cells, cell ≠ cells.getLastD 0 → next' cell = next cell)
    (last : cells ≠ [] → next' (cells.getLastD 0) = after') :
    Segment next' prev before cells after' := by
  induction cells generalizing before with
  | nil => trivial
  | cons first rest ih =>
      obtain ⟨back, forth, more⟩ := segment
      obtain ⟨absent, nodup⟩ := List.nodup_cons.mp nodup
      cases rest with
      | nil => exact ⟨back, last (List.cons_ne_nil _ _), trivial⟩
      | cons second others =>
          have lasts : (first :: second :: others).getLastD 0 = (second :: others).getLastD 0 := by
            rw [List.getLastD_cons, List.getLastD_cons, List.getLastD_cons]
          have notLast : first ≠ (second :: others).getLastD 0 := by
            intro same
            apply absent
            rw [same]
            exact getLastD_mem (List.cons_ne_nil _ _) 0
          rw [lasts] at nexts last
          refine ⟨back, ?_, ?_⟩
          · rw [nexts first List.mem_cons_self notLast, forth]
            rfl
          · exact ih more nodup (fun cell member => nexts cell (List.mem_cons_of_mem _ member))
              fun _ => last (List.cons_ne_nil _ _)

theorem setBefore {before' : Nat} (segment : Segment next prev before cells after)
    (nodup : cells.Nodup) (prevs : ∀ cell ∈ cells, cell ≠ cells.headD 0 → prev' cell = prev cell)
    (first : cells ≠ [] → prev' (cells.headD 0) = before') :
    Segment next prev' before' cells after := by
  cases cells with
  | nil => trivial
  | cons head rest =>
      obtain ⟨_, forth, more⟩ := segment
      have absent := (List.nodup_cons.mp nodup).1
      refine ⟨first (List.cons_ne_nil _ _), forth, more.frame (fun _ _ => rfl) ?_⟩
      intro cell member
      refine prevs cell (List.mem_cons_of_mem _ member) fun same => absent ?_
      have isHead : cell = head := same
      exact isHead ▸ member

theorem chain (segment : Segment next prev before cells 0) (nonNull : ∀ cell ∈ cells, cell ≠ 0) :
    Chain next (cells.headD 0) cells := by
  induction cells generalizing before with
  | nil => rfl
  | cons first rest ih =>
      obtain ⟨_, forth, more⟩ := segment
      refine ⟨rfl, nonNull first List.mem_cons_self, ?_⟩
      rw [forth]
      exact ih more fun cell member => nonNull cell (List.mem_cons_of_mem _ member)

end Segment

/-- The links spell `cells`, from `first` to `last`. -/
structure DoublyLinked (next prev : Nat → Nat) (first last : Nat) (cells : List Nat) : Prop where
  first : first = cells.headD 0
  last : last = cells.getLastD 0
  segment : Segment next prev 0 cells 0
  nodup : cells.Nodup
  nonNull : ∀ cell ∈ cells, cell ≠ 0

namespace DoublyLinked

variable {next prev next' prev' : Nat → Nat} {first last cell : Nat} {cells front back : List Nat}

theorem nil : DoublyLinked next prev 0 0 [] :=
  ⟨rfl, rfl, trivial, List.nodup_nil, fun _ => nofun⟩

theorem chain (linked : DoublyLinked next prev first last cells) : Chain next first cells := by
  rw [linked.first]
  exact linked.segment.chain linked.nonNull

theorem frame (linked : DoublyLinked next prev first last cells)
    (nexts : ∀ cell ∈ cells, next' cell = next cell)
    (prevs : ∀ cell ∈ cells, prev' cell = prev cell) : DoublyLinked next' prev' first last cells :=
  ⟨linked.first, linked.last, linked.segment.frame nexts prevs, linked.nodup, linked.nonNull⟩

theorem eq_nil_iff (linked : DoublyLinked next prev first last cells) : cells = [] ↔ first = 0 :=
  linked.chain.eq_nil_iff

theorem last_mem (linked : DoublyLinked next prev first last cells) :
    last = 0 ∨ last ∈ cells := by
  rw [linked.last]
  by_cases empty : cells = []
  · exact Or.inl (by rw [empty]; rfl)
  · exact Or.inr (getLastD_mem empty 0)

theorem pushBack (linked : DoublyLinked next prev first last cells) (absent : cell ∉ cells)
    (nonNull : cell ≠ 0) (nexts : ∀ other ∈ cells, other ≠ last → next' other = next other)
    (atLast : cells ≠ [] → next' last = cell) (atCell : next' cell = 0)
    (prevs : ∀ other ∈ cells, prev' other = prev other) (back : prev' cell = last) :
    DoublyLinked next' prev' (if first = 0 then cell else first) cell (cells ++ [cell]) := by
  have notFirst := linked.eq_nil_iff
  rw [linked.last] at nexts atLast back
  constructor
  · rw [linked.first] at notFirst ⊢
    cases cells with
    | nil => exact if_pos rfl
    | cons head rest =>
        rw [if_neg fun null => absurd (notFirst.mpr null) (List.cons_ne_nil _ _)]
        rfl
  · rw [getLastD_append]
    rfl
  · refine Segment.append_iff.mpr ⟨?_, back, atCell, trivial⟩
    refine (linked.segment.setAfter linked.nodup nexts atLast).frame (fun _ _ => rfl) prevs
  · rw [List.nodup_append]
    refine ⟨linked.nodup, List.nodup_singleton cell, fun other member new isNew same => ?_⟩
    rw [List.mem_singleton.mp isNew] at same
    exact absent (same ▸ member)
  · intro other member
    rcases List.mem_append.mp member with old | new
    · exact linked.nonNull other old
    · exact List.mem_singleton.mp new ▸ nonNull

theorem links (linked : DoublyLinked next prev first last (front ++ cell :: back)) :
    prev cell = front.getLastD 0 ∧ next cell = back.headD 0 := by
  obtain ⟨_, prevLink, nextLink, _⟩ := Segment.append_iff.mp linked.segment
  exact ⟨prevLink, nextLink⟩

theorem prev_eq_zero_iff (linked : DoublyLinked next prev first last (front ++ cell :: back)) :
    prev cell = 0 ↔ front = [] := by
  rw [linked.links.1]
  constructor
  · intro null
    by_contra notNil
    exact linked.nonNull _ (List.mem_append_left _ (getLastD_mem notNil 0)) null
  · intro empty
    rw [empty]
    rfl

theorem next_eq_zero_iff (linked : DoublyLinked next prev first last (front ++ cell :: back)) :
    next cell = 0 ↔ back = [] := by
  rw [linked.links.2]
  cases back with
  | nil => exact ⟨fun _ => rfl, fun _ => rfl⟩
  | cons head rest =>
      have nonNull : head ≠ 0 := linked.nonNull head (by simp)
      exact ⟨fun null => absurd null nonNull, nofun⟩

theorem eq_first_iff (linked : DoublyLinked next prev first last (front ++ cell :: back)) :
    cell = first ↔ front = [] := by
  rw [linked.first]
  cases front with
  | nil => exact ⟨fun _ => rfl, fun _ => rfl⟩
  | cons head rest =>
      have distinct := (List.nodup_append.mp linked.nodup).2.2 head List.mem_cons_self cell
        List.mem_cons_self
      exact ⟨fun same => absurd same.symm distinct, nofun⟩

theorem eq_last_iff (linked : DoublyLinked next prev first last (front ++ cell :: back)) :
    cell = last ↔ back = [] := by
  rw [linked.last, getLastD_append, List.getLastD_cons]
  cases back with
  | nil => exact ⟨fun _ => rfl, fun _ => rfl⟩
  | cons head rest =>
      have absent := (List.nodup_cons.mp (List.nodup_append.mp linked.nodup).2.1).1
      refine ⟨fun same => absurd ?_ absent, nofun⟩
      rw [same]
      exact getLastD_mem (List.cons_ne_nil _ _) cell

theorem link_mem (linked : DoublyLinked next prev first last cells) {other : Nat}
    (member : other ∈ cells) (nonNull : cell ≠ 0) (link : cell = next other ∨ cell = prev other) :
    cell ∈ cells := by
  obtain ⟨front, back, whole⟩ := List.append_of_mem member
  rw [whole] at linked ⊢
  obtain ⟨prevLink, nextLink⟩ := linked.links
  rcases link with isNext | isPrev
  · rw [nextLink] at isNext
    cases back with
    | nil => exact absurd isNext nonNull
    | cons head rest =>
        have same : cell = head := isNext
        rw [same]
        simp
  · rw [prevLink] at isPrev
    have notNil : front ≠ [] := by
      intro empty
      rw [empty] at isPrev
      exact nonNull isPrev
    rw [isPrev]
    exact List.mem_append_left _ (getLastD_mem notNil 0)

theorem prev_notMem_back (linked : DoublyLinked next prev first last (front ++ cell :: back)) :
    prev cell ∉ cell :: back := by
  rw [linked.links.1]
  intro member
  by_cases empty : front = []
  · rw [empty] at member
    exact linked.nonNull 0 (List.mem_append_right _ member) rfl
  · exact (List.nodup_append.mp linked.nodup).2.2 _ (getLastD_mem empty 0) _ member rfl

theorem next_notMem_front (linked : DoublyLinked next prev first last (front ++ cell :: back)) :
    next cell ∉ front ++ [cell] := by
  rw [linked.links.2]
  intro member
  have inList : back.headD 0 ∈ front ++ cell :: back := by
    rcases List.mem_append.mp member with inFront | isCell
    · exact List.mem_append_left _ inFront
    · exact List.mem_append_right _ (List.mem_singleton.mp isCell ▸ List.mem_cons_self)
  cases back with
  | nil => exact linked.nonNull 0 inList rfl
  | cons head rest =>
      have nodup := linked.nodup
      rw [List.append_cons front cell] at nodup
      exact (List.nodup_append.mp nodup).2.2 head member head List.mem_cons_self rfl

/-- A cell is taken out: its neighbours are linked to each other. -/
theorem remove (linked : DoublyLinked next prev first last (front ++ cell :: back))
    (nexts : ∀ other ∈ front ++ back, other ≠ prev cell → next' other = next other)
    (atPrev : prev cell ≠ 0 → next' (prev cell) = next cell)
    (prevs : ∀ other ∈ front ++ back, other ≠ next cell → prev' other = prev other)
    (atNext : next cell ≠ 0 → prev' (next cell) = prev cell) :
    DoublyLinked next' prev' (if prev cell = 0 then next cell else first)
      (if next cell = 0 then prev cell else last) (front ++ back) := by
  obtain ⟨prevLink, nextLink⟩ := linked.links
  have noPrev := linked.prev_eq_zero_iff
  have noNext := linked.next_eq_zero_iff
  have notBack := linked.prev_notMem_back
  have notFront := linked.next_notMem_front
  obtain ⟨frontNodup, restNodup, apart⟩ := List.nodup_append.mp linked.nodup
  have backNodup := (List.nodup_cons.mp restNodup).2
  obtain ⟨frontSegment, _, _, backSegment⟩ := Segment.append_iff.mp linked.segment
  constructor
  · cases front with
    | nil => exact (if_pos (noPrev.mpr rfl)).trans nextLink
    | cons head rest =>
        rw [if_neg fun null => absurd (noPrev.mp null) (List.cons_ne_nil _ _)]
        exact linked.first
  · cases back with
    | nil =>
        rw [List.append_nil]
        exact (if_pos (noNext.mpr rfl)).trans prevLink
    | cons head rest =>
        rw [if_neg fun null => absurd (noNext.mp null) (List.cons_ne_nil _ _), linked.last,
          getLastD_append, getLastD_append, List.getLastD_cons, List.getLastD_cons,
          List.getLastD_cons]
  · have frontNexts : ∀ other ∈ front, other ≠ front.getLastD 0 → next' other = next other := by
      intro other member different
      rw [← prevLink] at different
      exact nexts other (List.mem_append_left _ member) different
    have frontPrevs : ∀ other ∈ front, prev' other = prev other := by
      intro other member
      apply prevs other (List.mem_append_left _ member)
      rintro rfl
      exact notFront (List.mem_append_left _ member)
    have backNexts : ∀ other ∈ back, next' other = next other := by
      intro other member
      apply nexts other (List.mem_append_right _ member)
      rintro rfl
      exact notBack (List.mem_cons_of_mem _ member)
    have backPrevs : ∀ other ∈ back, other ≠ back.headD 0 → prev' other = prev other := by
      intro other member different
      rw [← nextLink] at different
      exact prevs other (List.mem_append_right _ member) different
    have frontEnd : front ≠ [] → next' (front.getLastD 0) = back.headD 0 := by
      intro notNil
      rw [← prevLink, ← nextLink]
      exact atPrev fun null => notNil (noPrev.mp null)
    have backStart : back ≠ [] → prev' (back.headD 0) = front.getLastD 0 := by
      intro notNil
      rw [← prevLink, ← nextLink]
      exact atNext fun null => notNil (noNext.mp null)
    apply Segment.append_iff.mpr
    constructor
    · exact (frontSegment.setAfter frontNodup frontNexts frontEnd).frame (fun _ _ => rfl) frontPrevs
    · exact (backSegment.setBefore backNodup backPrevs backStart).frame backNexts fun _ _ => rfl
  · rw [List.nodup_append]
    refine ⟨frontNodup, backNodup, fun one inFront two inBack => ?_⟩
    exact apart one inFront two (List.mem_cons_of_mem _ inBack)
  · intro other member
    apply linked.nonNull
    rcases List.mem_append.mp member with inFront | inBack
    · exact List.mem_append_left _ inFront
    · exact List.mem_append_right _ (List.mem_cons_of_mem _ inBack)

end DoublyLinked

end DoggOS

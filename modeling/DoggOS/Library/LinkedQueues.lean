/-
Singly linked lists threaded through one link memory.

A cell is a natural number, `next` gives the link stored in each cell and zero
is the null link.  `Chain next head l` says that following links from `head`
visits exactly `l` and ends in null.  `Queues` is a family of such lists, one
for each key, that share the link memory without sharing a cell; pushing and
popping at one key leaves every other list as it was.
-/

import Mathlib.Logic.Function.Basic
import Mathlib.Data.List.Nodup
import Mathlib.Data.List.Basic

namespace DoggOS

/-- Links from `head` visit `l` and then null. -/
def Chain (next : Nat → Nat) : Nat → List Nat → Prop
  | head, [] => head = 0
  | head, cell :: rest => head = cell ∧ cell ≠ 0 ∧ Chain next (next cell) rest

namespace Chain

variable {next next' : Nat → Nat} {head cell : Nat} {l front back : List Nat}

theorem ne_zero_of_mem (chain : Chain next head l) (member : cell ∈ l) : cell ≠ 0 := by
  induction l generalizing head with
  | nil => cases member
  | cons first rest ih =>
      rcases List.mem_cons.mp member with same | later
      · exact same ▸ chain.2.1
      · exact ih chain.2.2 later

theorem eq_nil_iff (chain : Chain next head l) : l = [] ↔ head = 0 := by
  cases l with
  | nil => exact ⟨fun _ => chain, fun _ => rfl⟩
  | cons first rest =>
      obtain ⟨same, nonNull, -⟩ := chain
      exact ⟨fun impossible => (by cases impossible), fun null => absurd (same ▸ null) nonNull⟩

theorem frame (chain : Chain next head l) (agree : ∀ cell ∈ l, next' cell = next cell) :
    Chain next' head l := by
  induction l generalizing head with
  | nil => exact chain
  | cons first rest ih =>
      obtain ⟨same, nonNull, tail⟩ := chain
      refine ⟨same, nonNull, ?_⟩
      rw [agree first List.mem_cons_self]
      exact ih tail fun cell member => agree cell (List.mem_cons_of_mem _ member)

theorem update (chain : Chain next head l) (absent : cell ∉ l) (link : Nat) :
    Chain (Function.update next cell link) head l :=
  chain.frame fun other member =>
    Function.update_of_ne (fun same : other = cell => absent (same ▸ member)) _ _

theorem unique (chain : Chain next head l) (other : Chain next head front) : l = front := by
  induction l generalizing head front with
  | nil =>
      exact (other.eq_nil_iff.mpr chain).symm
  | cons first rest ih =>
      cases front with
      | nil => exact absurd (chain.1.symm.trans other) chain.2.1
      | cons first' rest' =>
          obtain ⟨same, -, tail⟩ := chain
          obtain ⟨same', -, tail'⟩ := other
          have firsts : first = first' := same.symm.trans same'
          subst firsts
          rw [ih tail tail']

theorem link {behind : List Nat} (chain : Chain next head (front ++ cell :: behind))
    (distinct : cell ∉ front) (agree : ∀ other ∈ front, next' other = next other) (tail : Chain next' (next' cell) back) :
    Chain next' head (front ++ cell :: back) := by
  induction front generalizing head with
  | nil => exact ⟨chain.1, chain.2.1, tail⟩
  | cons first rest ih =>
      obtain ⟨same, nonNull, more⟩ := chain
      refine ⟨same, nonNull, ?_⟩
      rw [agree first List.mem_cons_self]
      exact ih more (fun member => distinct (List.mem_cons_of_mem _ member))
        fun other member => agree other (List.mem_cons_of_mem _ member)

theorem behind (chain : Chain next head (front ++ cell :: back)) : Chain next (next cell) back := by
  induction front generalizing head with
  | nil => exact chain.2.2
  | cons first rest ih => exact ih chain.2.2

theorem next_eq {other index : Nat} (chain : Chain next head l) (here : l[index]? = some cell)
    (further : l[index + 1]? = some other) : next cell = other := by
  induction l generalizing head index with
  | nil => cases here
  | cons first rest ih =>
      obtain ⟨-, -, tail⟩ := chain
      cases index with
      | zero =>
          cases here
          cases rest with
          | nil => cases further
          | cons second others =>
              cases further
              exact tail.1
      | succ index => exact ih tail here further

theorem of_row {cell : Nat → Nat} {count : Nat} {tail : List Nat}
    (nonNull : ∀ index, index < count + 1 → cell index ≠ 0)
    (linked : ∀ index, index < count → next (cell index) = cell (index + 1))
    (rest : Chain next (next (cell count)) tail) :
    Chain next (cell 0) ((List.range (count + 1)).map cell ++ tail) := by
  induction count generalizing cell with
  | zero => exact ⟨rfl, nonNull 0 Nat.zero_lt_one, rest⟩
  | succ count ih =>
      rw [List.range_succ_eq_map, List.map_cons, List.map_map, List.cons_append]
      refine ⟨rfl, nonNull 0 (Nat.succ_pos _), ?_⟩
      rw [linked 0 (Nat.succ_pos _)]
      exact @ih (cell ∘ Nat.succ) (fun index small => nonNull (index + 1) (Nat.succ_lt_succ small))
        (fun index small => linked (index + 1) (Nat.succ_lt_succ small)) rest

end Chain

/-- A family of pairwise disjoint lists in one link memory. -/
structure Queues {κ : Type*} (next : Nat → Nat) (head : κ → Nat) (lists : κ → List Nat) : Prop where
  chain : ∀ key, Chain next (head key) (lists key)
  nodup : ∀ key, (lists key).Nodup
  apart : ∀ key other, key ≠ other → ∀ cell ∈ lists key, cell ∉ lists other

namespace Queues

variable {κ : Type*} {next next' : Nat → Nat} {head : κ → Nat}
  {lists : κ → List Nat} {key : κ} {cell : Nat} {rest : List Nat}

theorem frame (queues : Queues next head lists)
    (agree : ∀ key, ∀ cell ∈ lists key, next' cell = next cell) : Queues next' head lists where
  chain key := (queues.chain key).frame (agree key)
  nodup := queues.nodup
  apart := queues.apart

theorem update (queues : Queues next head lists) (absent : ∀ key, cell ∉ lists key) (link : Nat) :
    Queues (Function.update next cell link) head lists :=
  queues.frame fun key other member =>
    Function.update_of_ne (fun same : other = cell => absent key (same ▸ member)) _ _

theorem apart_cons (queues : Queues next head lists) (popped : lists key = cell :: rest)
    {other : κ} (different : other ≠ key) : cell ∉ lists other := by
  refine queues.apart key other different.symm cell ?_
  rw [popped]
  exact List.mem_cons_self

theorem exists_cons (queues : Queues next head lists) (nonNull : head key ≠ 0) :
    ∃ rest, lists key = head key :: rest := by
  have chain := queues.chain key
  cases listed : lists key with
  | nil =>
      rw [listed] at chain
      exact absurd chain nonNull
  | cons first rest =>
      rw [listed] at chain
      exact ⟨rest, by rw [chain.1]⟩

theorem rename {ι : Type*} (queues : Queues next head lists) {old : ι → κ}
    (injective : Function.Injective old) : Queues next (head ∘ old) (lists ∘ old) where
  chain key := queues.chain (old key)
  nodup key := queues.nodup (old key)
  apart one two different := queues.apart (old one) (old two) fun same => different (injective same)

variable [DecidableEq κ]

theorem replace (queues : Queues next head lists) {newHead : Nat} {newList : List Nat}
    (chain : Chain next' newHead newList) (nodup : newList.Nodup)
    (fresh : ∀ other, other ≠ key → ∀ cell ∈ newList, cell ∉ lists other)
    (agree : ∀ other, other ≠ key → ∀ cell ∈ lists other, next' cell = next cell) :
    Queues next' (Function.update head key newHead) (Function.update lists key newList) := by
  refine ⟨fun other => ?_, fun other => ?_, fun one two different cell inOne inTwo => ?_⟩
  · by_cases same : other = key
    · subst same
      simpa only [Function.update_self] using chain
    · simpa only [Function.update_of_ne same] using (queues.chain other).frame (agree other same)
  · by_cases same : other = key
    · subst same
      simpa only [Function.update_self] using nodup
    · simpa only [Function.update_of_ne same] using queues.nodup other
  · by_cases sameOne : one = key
    · subst sameOne
      have otherKey : two ≠ one := different.symm
      rw [Function.update_self] at inOne
      rw [Function.update_of_ne otherKey] at inTwo
      exact fresh two otherKey cell inOne inTwo
    · rw [Function.update_of_ne sameOne] at inOne
      by_cases sameTwo : two = key
      · subst sameTwo
        rw [Function.update_self] at inTwo
        exact fresh one sameOne cell inTwo inOne
      · rw [Function.update_of_ne sameTwo] at inTwo
        exact queues.apart one two different cell inOne inTwo

theorem pushFront (queues : Queues next head lists) (nonNull : cell ≠ 0)
    (absent : ∀ key, cell ∉ lists key) :
    Queues (Function.update next cell (head key)) (Function.update head key cell)
      (Function.update lists key (cell :: lists key)) := by
  refine queues.replace ⟨rfl, nonNull, ?_⟩ (List.nodup_cons.mpr ⟨absent key, queues.nodup key⟩)
    (fun other different item member => ?_) (fun other _ item member => ?_)
  · rw [Function.update_self]
    exact (queues.chain key).update (absent key) _
  · rcases List.mem_cons.mp member with same | later
    · exact same ▸ absent other
    · exact queues.apart key other different.symm item later
  · exact Function.update_of_ne (fun same : item = cell => absent other (same ▸ member)) _ _

/-- Take the first cell off the list at `key`; its link becomes the head. -/
theorem popFront (queues : Queues next head lists) (popped : lists key = cell :: rest) :
    Queues next (Function.update head key (next cell)) (Function.update lists key rest) := by
  have chain := queues.chain key
  have nodup := queues.nodup key
  rw [popped] at chain nodup
  refine queues.replace chain.2.2 (List.nodup_cons.mp nodup).2
    (fun other different item member => ?_) (fun _ _ _ _ => rfl)
  refine queues.apart key other different.symm item ?_
  rw [popped]
  exact List.mem_cons_of_mem _ member

/-- Link a chain of unlisted cells behind the last cell of the list at `key`. -/
theorem append (queues : Queues next head lists) {last : Nat} {front back : List Nat}
    (listed : lists key = front ++ [last]) (chain : Chain next' (next' last) back)
    (nodup : back.Nodup) (fresh : ∀ key, ∀ cell ∈ back, cell ∉ lists key)
    (agree : ∀ key, ∀ cell ∈ lists key, cell ≠ last → next' cell = next cell) :
    Queues next' head (Function.update lists key (lists key ++ back)) := by
  have chainKey := queues.chain key
  have nodupKey := queues.nodup key
  have inKey : last ∈ lists key := by simp [listed]
  have whole : Chain next' (head key) (lists key ++ back) := by
    rw [listed] at chainKey nodupKey ⊢
    have distinct : last ∉ front := fun member =>
      (List.nodup_append.mp nodupKey).2.2 last member last (by simp) rfl
    rw [List.append_assoc, List.singleton_append]
    refine chainKey.link distinct (fun other member => agree key other ?_ ?_) chain
    · rw [listed]
      exact List.mem_append_left _ member
    · exact fun same => distinct (same ▸ member)
  have nodupWhole : (lists key ++ back).Nodup := by
    refine List.nodup_append.mpr ⟨nodupKey, nodup, fun one inOne two inTwo same => ?_⟩
    exact fresh key two inTwo (same ▸ inOne)
  rw [← Function.update_eq_self key head]
  refine queues.replace whole nodupWhole
    (fun other different item member => ?_) (fun other different item member => ?_)
  · rcases List.mem_append.mp member with old | new
    · exact queues.apart key other different.symm item old
    · exact fresh other item new
  · refine agree other item member fun same => ?_
    exact queues.apart key other different.symm last inKey (same ▸ member)

/-- Put an unlisted cell behind the list at `key`; the tail pointer counts only when it is not empty. -/
theorem pushBack (queues : Queues next head lists) (nonNull : cell ≠ 0)
    (absent : ∀ key, cell ∉ lists key) {last : Nat}
    (isLast : ∀ front back, lists key = front ++ [back] → last = back) :
    Queues (Function.update (if head key = 0 then next else Function.update next last cell) cell 0)
      (if head key = 0 then Function.update head key cell else head)
      (Function.update lists key (lists key ++ [cell])) := by
  by_cases empty : head key = 0
  · have noCells : lists key = [] := ((queues.chain key).eq_nil_iff).mpr empty
    have pushed := @pushFront _ _ _ _ key _ _ queues nonNull absent
    rw [empty, noCells] at pushed
    rw [if_pos empty, if_pos empty, noCells]
    exact pushed
  · rw [if_neg empty, if_neg empty]
    have notNil : lists key ≠ [] := fun noCells => empty (((queues.chain key).eq_nil_iff).mp noCells)
    have listed : lists key = (lists key).dropLast ++ [last] := by
      rw [isLast _ _ (List.dropLast_append_getLast notNil).symm,
        List.dropLast_append_getLast notNil]
    have distinct : last ≠ cell := by
      intro same
      apply absent key
      rw [listed, same]
      exact List.mem_append_right _ List.mem_cons_self
    have alone : Chain (Function.update (Function.update next last cell) cell 0)
        (Function.update (Function.update next last cell) cell 0 last) [cell] := by
      rw [Function.update_of_ne distinct, Function.update_self]
      exact ⟨rfl, nonNull, Function.update_self _ _ _⟩
    apply queues.append listed alone
    · exact List.nodup_singleton cell
    · intro other item member
      rw [List.mem_singleton.mp member]
      exact absent other
    · intro other item member different
      have notCell : item ≠ cell := fun same => absent other (same ▸ member)
      rw [Function.update_of_ne notCell, Function.update_of_ne different]

end Queues

end DoggOS

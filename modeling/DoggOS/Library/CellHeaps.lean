/-
A heap of blocks with contents.

A block is an extent of places, and a cell is a place with an index.  An
allocation gives a block that overlaps no other, and its cells hold anything;
what is written to a cell of a block is read there until the block is
allocated anew.
-/

import DoggOS.Library.Extent
import DoggOS.Library.Refinement

namespace DoggOS

structure CellHeap (Index Value : Type*) where
  blocks : List Extent
  contents : Nat → Index → Value

inductive CellCall (Index Value : Type*) where
  | alloc (block : Extent)
  | free (start : Nat)
  | read (place : Nat) (index : Index) (value : Value)
  | write (place : Nat) (index : Index) (value : Value)

namespace CellHeap

variable {Index Value : Type*} [DecidableEq Index]

def owned (blocks : List Extent) : CellCall Index Value → List Extent
  | .alloc block => block :: blocks
  | .free start => blocks.filter fun block => decide (block.start ≠ start)
  | .read .. | .write .. => blocks

def store (contents : Nat → Index → Value) (place : Nat) (index : Index) (value : Value) :
    Nat → Index → Value :=
  fun other at' => if other = place ∧ at' = index then value else contents other at'

def machine (start : CellHeap Index Value → Prop) :
    Machine (CellHeap Index Value) (CellCall Index Value) where
  start := start
  step before call after :=
    after.blocks = owned before.blocks call ∧
      match call with
      | .alloc block => (∀ other ∈ before.blocks, block.Disjoint other) ∧
          ∀ place, ¬ block.Contains place → after.contents place = before.contents place
      | .free start => (∃ block ∈ before.blocks, block.start = start) ∧
          after.contents = before.contents
      | .read place index value => (∃ block ∈ before.blocks, block.Contains place) ∧
          before.contents place index = value ∧ after.contents = before.contents
      | .write place index value => (∃ block ∈ before.blocks, block.Contains place) ∧
          after.contents = store before.contents place index value

def written (calls : List (CellCall Index Value)) : Nat → Index → Option Value :=
  calls.foldl (fun values call =>
    match call with
    | .alloc block => fun place index => if block.Contains place then none else values place index
    | .write place index value => store values place index (some value)
    | _ => values) fun _ _ => none

def ownedAfter (blocks : List Extent) (calls : List (CellCall Index Value)) : List Extent :=
  calls.foldl owned blocks

/-- Allocations overlap nothing, and reads give what was written. -/
structure Kept (blocks : List Extent) (calls : List (CellCall Index Value)) : Prop where
  apart : ∀ earlier block later, calls = earlier ++ .alloc block :: later →
    ∀ other ∈ ownedAfter blocks earlier, block.Disjoint other
  reads : ∀ earlier place index value later, calls = earlier ++ .read place index value :: later →
    ∀ last, written earlier place index = some last → value = last

variable {start : CellHeap Index Value → Prop} {first last : CellHeap Index Value}
  {calls : List (CellCall Index Value)}

theorem run_blocks (run : (machine start).Run first calls last) :
    last.blocks = ownedAfter first.blocks calls := by
  unfold ownedAfter
  induction run with
  | nil => rfl
  | snoc _ step ih =>
      rw [List.foldl_append, ← ih]
      exact step.1

theorem run_written (run : (machine start).Run first calls last) {place : Nat} {index : Index}
    {value : Value} (wrote : written calls place index = some value) :
    last.contents place index = value := by
  unfold written at wrote
  induction run generalizing value with
  | nil => cases wrote
  | @snoc calls call before after _ step ih =>
      rw [List.foldl_append] at wrote
      cases call with
      | alloc block =>
          have outside : ¬ block.Contains place := by
            intro inside
            simp [inside] at wrote
          rw [step.2.2 place outside]
          apply ih
          simpa [outside] using wrote
      | free start =>
          rw [step.2.2]
          exact ih wrote
      | read other at' seen =>
          rw [step.2.2.2]
          exact ih wrote
      | write other at' stored =>
          rw [step.2.2]
          change store _ other at' (some stored) place index = some value at wrote
          unfold store at wrote ⊢
          by_cases here : place = other ∧ index = at'
          · rw [if_pos here] at wrote ⊢
            exact Option.some.inj wrote
          · rw [if_neg here] at wrote ⊢
            exact ih wrote

theorem run_kept (run : (machine start).Run first calls last) : Kept first.blocks calls := by
  constructor
  · intro earlier block later isCalls
    rw [isCalls] at run
    obtain ⟨before, after, first, step⟩ := run.split
    rw [← run_blocks first]
    exact step.2.1
  · intro earlier place index value later isCalls wrote
    rw [isCalls] at run
    obtain ⟨before, after, first, step⟩ := run.split
    intro stored
    rw [← run_written first stored]
    exact step.2.2.1.symm

end CellHeap

end DoggOS

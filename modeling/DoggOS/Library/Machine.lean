/-
Labelled transition systems and the induction rule for their runs.

A machine is a set of start states and a labelled step relation.  A label is
one call or one scheduling choice; restricting a machine keeps its states and
drops the labelled steps that a condition on the state before the step rejects.
-/

import Mathlib.Logic.Relation

namespace DoggOS

structure Machine (State Label : Type*) where
  start : State → Prop
  step : State → Label → State → Prop

namespace Machine

variable {State Label : Type*} (machine : Machine State Label)

def Moves (before after : State) : Prop := ∃ label, machine.step before label after

def Reachable (state : State) : Prop :=
  ∃ first, machine.start first ∧ Relation.ReflTransGen machine.Moves first state

/-- The same machine with only the steps that meet `condition`. -/
def restrict (condition : State → Label → Prop) : Machine State Label where
  start := machine.start
  step before label after := condition before label ∧ machine.step before label after

def ofNext (start : State → Prop) (next : State → Label → Option State) :
    Machine State Label where
  start := start
  step before label after := next before label = some after

def follow (next : State → Label → Option State) (state : State) : List Label → Option State
  | [] => some state
  | label :: labels => (next state label).bind fun state => follow next state labels

theorem reachable_start {state : State} (initial : machine.start state) :
    machine.Reachable state :=
  ⟨state, initial, .refl⟩

theorem reachable_step {before after : State} {label : Label}
    (reachable : machine.Reachable before) (step : machine.step before label after) :
    machine.Reachable after := by
  obtain ⟨first, initial, path⟩ := reachable
  exact ⟨first, initial, path.tail ⟨label, step⟩⟩

/-- A property of every start state that each step keeps holds in every reachable state. -/
theorem invariant {property : State → Prop}
    (initial : ∀ state, machine.start state → property state)
    (preserved : ∀ before label after, property before →
      machine.step before label after → property after)
    {state : State} (reachable : machine.Reachable state) : property state := by
  obtain ⟨first, atStart, path⟩ := reachable
  induction path with
  | refl => exact initial first atStart
  | tail _ move ih =>
      obtain ⟨label, step⟩ := move
      exact preserved _ label _ ih step

theorem follow_moves {next : State → Label → Option State}
    (steps : ∀ before label after, next before label = some after →
      machine.step before label after)
    {state last : State} {labels : List Label}
    (followed : follow next state labels = some last) :
    Relation.ReflTransGen machine.Moves state last := by
  induction labels generalizing state with
  | nil =>
      cases followed
      exact .refl
  | cons label labels ih =>
      obtain ⟨middle, step, rest⟩ := Option.bind_eq_some_iff.mp followed
      exact .head ⟨label, steps state label middle step⟩ (ih rest)

theorem follow_reachable {next : State → Label → Option State}
    (steps : ∀ before label after, next before label = some after →
      machine.step before label after)
    {state last : State} {labels : List Label} (reachable : machine.Reachable state)
    (followed : follow next state labels = some last) : machine.Reachable last := by
  obtain ⟨first, initial, path⟩ := reachable
  exact ⟨first, initial, path.trans (follow_moves machine steps followed)⟩

theorem follow_restrict {condition : State → Label → Prop}
    {next : State → Label → Option State}
    (steps : ∀ before label after, next before label = some after →
      machine.step before label after)
    {state last : State} {labels : List Label}
    (meets : ∀ label ∈ labels, ∀ state, condition state label)
    (reachable : (machine.restrict condition).Reachable state)
    (followed : follow next state labels = some last) :
    (machine.restrict condition).Reachable last := by
  induction labels generalizing state with
  | nil =>
      cases followed
      exact reachable
  | cons label labels ih =>
      obtain ⟨middle, step, rest⟩ := Option.bind_eq_some_iff.mp followed
      have here := meets label List.mem_cons_self state
      exact ih (fun other member => meets other (List.mem_cons_of_mem _ member))
        (reachable_step _ reachable ⟨here, steps state label middle step⟩) rest

end Machine

end DoggOS

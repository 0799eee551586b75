/-
Runs with their labels, and refinement of one machine by another.

A label carries what a caller sees of a step, its arguments and its results, so
that a machine refines another when each of its runs is, label by label, a run
of the other one.
-/

import DoggOS.Library.Machine

namespace DoggOS.Machine

variable {State View Label : Type*}

inductive Run (machine : Machine State Label) (first : State) : List Label → State → Prop
  | nil : Run machine first [] first
  | snoc {labels : List Label} {label : Label} {before after : State} :
      Run machine first labels before → machine.step before label after →
        Run machine first (labels ++ [label]) after

/-- Every step from a related state is a step of the abstract machine with the same label. -/
structure Refines (concrete : Machine State Label) (abstract : Machine View Label)
    (relation : State → View → Prop) : Prop where
  start : ∀ state, concrete.start state → ∃ view, abstract.start view ∧ relation state view
  step : ∀ before view label after, relation before view → concrete.step before label after →
    ∃ view', abstract.step view label view' ∧ relation after view'

variable {concrete : Machine State Label} {abstract : Machine View Label}
  {relation : State → View → Prop} {first last : State} {labels : List Label}

theorem Run.head {label : Label} {middle : State} (step : concrete.step first label middle)
    (run : concrete.Run middle labels last) : concrete.Run first (label :: labels) last := by
  induction run with
  | nil => exact Run.nil.snoc step
  | snoc _ step' ih => exact ih.snoc step'

theorem run_of_follow {start : State → Prop} {next : State → Label → Option State}
    (followed : follow next first labels = some last) :
    (ofNext start next).Run first labels last := by
  induction labels generalizing first with
  | nil =>
      cases followed
      exact .nil
  | cons label labels ih =>
      obtain ⟨middle, step, rest⟩ := Option.bind_eq_some_iff.mp followed
      exact Run.head step (ih rest)

theorem Run.split {label : Label} {later : List Label}
    (run : concrete.Run first (labels ++ label :: later) last) :
    ∃ before after, concrete.Run first labels before ∧ concrete.step before label after := by
  generalize whole : labels ++ label :: later = all at run
  induction run generalizing later with
  | nil => cases labels <;> cases whole
  | @snoc earlier final before after run step ih =>
      rcases List.eq_nil_or_concat later with none | ⟨rest, end', some⟩
      · rw [none] at whole
        obtain ⟨same, sameLabel⟩ := List.append_inj' whole rfl
        cases sameLabel
        rw [same]
        exact ⟨before, after, run, step⟩
      · rw [some, List.concat_eq_append, ← List.cons_append, ← List.append_assoc] at whole
        obtain ⟨same, _⟩ := List.append_inj' whole rfl
        exact ih same

/-- A refining run is an abstract run. -/
theorem Refines.run (refines : concrete.Refines abstract relation) {view : View}
    (related : relation first view) (run : concrete.Run first labels last) :
    ∃ view', abstract.Run view labels view' ∧ relation last view' := by
  induction run with
  | nil => exact ⟨view, .nil, related⟩
  | snoc _ step ih =>
      obtain ⟨middle, run, related⟩ := ih
      obtain ⟨view', step', related'⟩ := refines.step _ _ _ _ related step
      exact ⟨view', run.snoc step', related'⟩

end DoggOS.Machine

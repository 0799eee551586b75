/-
While loops on a state, with a bound on the number of turns.

The body answers `none` when the loop condition is false.  A loop that is still
running after `turns` turns has no result, so a proof about its result also
shows that the loop ends.  The rule takes a ghost value beside the state; the
variant is a function of the ghost.  In a loop that can fault the condition is
apart and a turn without result leaves the whole loop without one.
-/

import Mathlib.Tactic.TypeStar

namespace DoggOS

def whileLoop {State : Type*} (body : State → Option State) : Nat → State → Option State
  | 0, _ => none
  | turns + 1, state =>
      match body state with
      | none => some state
      | some next => whileLoop body turns next

def faultLoop {State : Type*} (running : State → Bool) (turn : State → Option State) :
    Nat → State → Option State
  | 0, _ => none
  | turns + 1, state =>
      if running state then (turn state).bind (faultLoop running turn turns) else some state

def runTurns {State : Type*} (body : State → Option State) : Nat → State → Option State
  | 0, state => some state
  | count + 1, state => (runTurns body count state).bind body

namespace WhileLoop

variable {State Ghost : Type*} {body : State → Option State}

theorem stop {state : State} (finished : body state = none) (turns : Nat) :
    whileLoop body (turns + 1) state = some state := by
  rw [whileLoop, finished]

theorem turn {state next : State} (runs : body state = some next) (turns : Nat) :
    whileLoop body (turns + 1) state = whileLoop body turns next := by
  rw [whileLoop, runs]

/-- A loop that ends within a bound ends in the same state within a larger one. -/
theorem more {turns larger : Nat} {state after : State}
    (ran : whileLoop body turns state = some after) (enough : turns ≤ larger) :
    whileLoop body larger state = some after := by
  induction turns generalizing state larger with
  | zero => cases ran
  | succ turns ih =>
      obtain ⟨extra, rfl⟩ := Nat.exists_eq_add_of_le enough
      rw [show turns + 1 + extra = turns + extra + 1 by omega]
      cases outcome : body state with
      | none =>
          rw [stop outcome turns] at ran
          rw [stop outcome, ran]
      | some next =>
          rw [turn outcome turns] at ran
          rw [turn outcome]
          exact ih ran (by omega)

/-- What a loop collects on its way changes nothing in it. -/
theorem log {Log : Type*} {logged : State × Log → Option (State × Log)}
    (same : ∀ state log, (logged (state, log)).map Prod.fst = body state) (turns : Nat)
    (state : State) (log : Log) :
    (whileLoop logged turns (state, log)).map Prod.fst = whileLoop body turns state := by
  induction turns generalizing state log with
  | zero => rfl
  | succ turns ih =>
      rw [whileLoop, whileLoop, ← same state log]
      cases logged (state, log) with
      | none => rfl
      | some next => exact ih next.1 next.2

theorem map {View : Type*} {seen : View → Option View} {view : State → View}
    (same : ∀ state, seen (view state) = (body state).map view) (turns : Nat) (state : State) :
    whileLoop seen turns (view state) = (whileLoop body turns state).map view := by
  induction turns generalizing state with
  | zero => rfl
  | succ turns ih =>
      rw [whileLoop, whileLoop, same state]
      cases body state with
      | none => rfl
      | some next => exact ih next

theorem keeps {property : State → Prop}
    (preserved : ∀ state next, property state → body state = some next → property next)
    {turns : Nat} {state after : State} (holds : property state)
    (ran : whileLoop body turns state = some after) : property after := by
  induction turns generalizing state with
  | zero => cases ran
  | succ turns ih =>
      cases outcome : body state with
      | none =>
          rw [stop outcome turns] at ran
          exact Option.some.inj ran ▸ holds
      | some next =>
          rw [turn outcome turns] at ran
          exact ih (preserved state next holds outcome) ran

theorem rule (invariant : Ghost → State → Prop) (variant : Ghost → Nat)
    (preserved : ∀ ghost state next, invariant ghost state → body state = some next →
      ∃ ghost', invariant ghost' next ∧ variant ghost' < variant ghost)
    (ghost : Ghost) (state : State) (holds : invariant ghost state)
    {turns : Nat} (enough : variant ghost < turns) :
    ∃ ghost' after, whileLoop body turns state = some after ∧ invariant ghost' after ∧
      body after = none := by
  induction turns generalizing ghost state with
  | zero => omega
  | succ turns ih =>
      cases outcome : body state with
      | none => exact ⟨ghost, state, stop outcome turns, holds, outcome⟩
      | some next =>
          obtain ⟨ghost', kept, smaller⟩ := preserved ghost state next holds outcome
          rw [turn outcome turns]
          exact ih ghost' next kept (by omega)

theorem fault_rule {running : State → Bool} {turn : State → Option State}
    (invariant : Ghost → State → Prop) (variant : Ghost → Nat)
    (preserved : ∀ ghost state, invariant ghost state → running state = true →
      ∃ ghost' next, turn state = some next ∧ invariant ghost' next ∧
        variant ghost' < variant ghost)
    (ghost : Ghost) (state : State) (holds : invariant ghost state)
    {turns : Nat} (enough : variant ghost < turns) :
    ∃ ghost' after, faultLoop running turn turns state = some after ∧ invariant ghost' after ∧
      running after = false := by
  induction turns generalizing ghost state with
  | zero => omega
  | succ turns ih =>
      cases more : running state with
      | false =>
          refine ⟨ghost, state, ?_, holds, more⟩
          rw [faultLoop, more]
          rfl
      | true =>
          obtain ⟨ghost', next, runs, kept, smaller⟩ := preserved ghost state holds more
          obtain ⟨last, after, ended, atEnd⟩ := ih ghost' next kept (by omega)
          refine ⟨last, after, ?_, atEnd⟩
          rw [faultLoop, more, if_pos rfl, runs]
          exact ended

end WhileLoop

end DoggOS

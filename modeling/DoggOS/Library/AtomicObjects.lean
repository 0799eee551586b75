/-
Objects that threads share, and the order of their operations.

A thread calls an operation, the operation takes effect at one moment, and it
returns its result.  The effects of a run happen in one order, which agrees
with the meaning of the operations one after another and with what every
thread called and got; and wherever the run is cut, the effects so far have all
been called and include all that have returned, so that the order keeps to real
time.
-/

import DoggOS.Library.Refinement
import Mathlib.Data.List.Basic
import Mathlib.Logic.Function.Basic

namespace DoggOS

inductive OpStatus (Op Result : Type*)
  | idle
  | pending (op : Op)
  | finished (result : Result)

inductive ObjectEvent (Thread Op Result : Type*)
  | call (thread : Thread) (op : Op)
  | access (thread : Thread)
  | ret (thread : Thread) (result : Result)

structure OpEffect (Thread Op Result : Type*) where
  thread : Thread
  op : Op
  result : Result

structure AtomicObject (Thread Op Result Value : Type*) where
  value : Value
  status : Thread → OpStatus Op Result

namespace AtomicObject

variable {Thread Op Result Value : Type*}

def Legal (applies : Op → Value → Result → Value → Prop) :
    Value → List (OpEffect Thread Op Result) → Value → Prop
  | first, [], last => first = last
  | first, effect :: effects, last =>
      ∃ middle, applies effect.op first effect.result middle ∧ Legal applies middle effects last

theorem Legal.snoc {applies : Op → Value → Result → Value → Prop} {first middle last : Value}
    {order : List (OpEffect Thread Op Result)} (legal : Legal applies first order middle)
    {effect : OpEffect Thread Op Result}
    (applied : applies effect.op middle effect.result last) :
    Legal applies first (order ++ [effect]) last := by
  induction order generalizing first with
  | nil =>
      cases legal
      exact ⟨last, applied, rfl⟩
  | cons head rest ih =>
      obtain ⟨next, here, later⟩ := legal
      exact ⟨next, here, ih later⟩

def Agrees (ops calls : List Op) (results returned : List Result) : OpStatus Op Result → Prop
  | .idle => calls = ops ∧ results = returned
  | .pending op => calls = ops ++ [op] ∧ results = returned
  | .finished result => calls = ops ∧ results = returned ++ [result]

theorem Agrees.prefixes {ops calls : List Op} {results returned : List Result}
    {status : OpStatus Op Result} (agrees : Agrees ops calls results returned status) :
    ops <+: calls ∧ returned <+: results := by
  cases status with
  | idle => exact ⟨agrees.1 ▸ List.prefix_refl _, agrees.2 ▸ List.prefix_refl _⟩
  | pending op => exact ⟨agrees.1 ▸ List.prefix_append _ _, agrees.2 ▸ List.prefix_refl _⟩
  | finished result => exact ⟨agrees.1 ▸ List.prefix_refl _, agrees.2 ▸ List.prefix_append _ _⟩

variable [DecidableEq Thread]

/-- `applies` says what an operation may do to a value, and with which result. -/
def machine (applies : Op → Value → Result → Value → Prop) (first : Value) :
    Machine (AtomicObject Thread Op Result Value) (ObjectEvent Thread Op Result) where
  start object := object = ⟨first, fun _ => .idle⟩
  step before event after :=
    match event with
    | .call thread op => before.status thread = .idle ∧
        after = ⟨before.value, Function.update before.status thread (.pending op)⟩
    | .access thread => ∃ op, before.status thread = .pending op ∧
        (after = before ∨ ∃ result value, applies op before.value result value ∧
          after = ⟨value, Function.update before.status thread (.finished result)⟩)
    | .ret thread result => before.status thread = .finished result ∧
        after = ⟨before.value, Function.update before.status thread .idle⟩

def calledBy (thread : Thread) (events : List (ObjectEvent Thread Op Result)) : List Op :=
  events.filterMap fun event =>
    match event with
    | .call caller op => if caller = thread then some op else none
    | _ => none

def returnedTo (thread : Thread) (events : List (ObjectEvent Thread Op Result)) : List Result :=
  events.filterMap fun event =>
    match event with
    | .ret caller result => if caller = thread then some result else none
    | _ => none

def effectsOf (thread : Thread) (order : List (OpEffect Thread Op Result)) :
    List (OpEffect Thread Op Result) :=
  order.filter fun effect => decide (effect.thread = thread)

/-- The order explains the events from the first value to the last. -/
structure Linearizes (applies : Op → Value → Result → Value → Prop) (first last : Value)
    (events : List (ObjectEvent Thread Op Result)) (order : List (OpEffect Thread Op Result)) :
    Prop where
  legal : Legal applies first order last
  cut : ∀ early late, events = early ++ late → ∃ done, done <+: order ∧ ∀ thread,
    (effectsOf thread done).map OpEffect.op <+: calledBy thread early ∧
      returnedTo thread early <+: (effectsOf thread done).map OpEffect.result

variable {applies : Op → Value → Result → Value → Prop} {first middle last : Value}
  {events : List (ObjectEvent Thread Op Result)} {order : List (OpEffect Thread Op Result)}

structure Explains (applies : Op → Value → Result → Value → Prop) (first : Value)
    (events : List (ObjectEvent Thread Op Result)) (object : AtomicObject Thread Op Result Value)
    (order : List (OpEffect Thread Op Result)) : Prop where
  linearizes : Linearizes applies first object.value events order
  agrees : ∀ thread, Agrees ((effectsOf thread order).map OpEffect.op) (calledBy thread events)
    ((effectsOf thread order).map OpEffect.result) (returnedTo thread events)
    (object.status thread)

theorem Linearizes.extend (linearizes : Linearizes applies first middle events order)
    {event : ObjectEvent Thread Op Result} {order' : List (OpEffect Thread Op Result)}
    {status : Thread → OpStatus Op Result} (longer : order <+: order')
    (legal : Legal applies first order' last)
    (agrees : ∀ thread, Agrees ((effectsOf thread order').map OpEffect.op)
      (calledBy thread (events ++ [event])) ((effectsOf thread order').map OpEffect.result)
      (returnedTo thread (events ++ [event])) (status thread)) :
    Explains applies first (events ++ [event]) ⟨last, status⟩ order' := by
  refine ⟨⟨legal, fun early late isEvents => ?_⟩, agrees⟩
  rcases List.eq_nil_or_concat late with none | ⟨rest, final, some⟩
  · rw [none, List.append_nil] at isEvents
    exact ⟨order', List.prefix_refl _, fun thread => isEvents ▸ (agrees thread).prefixes⟩
  · rw [some, List.concat_eq_append, ← List.append_assoc] at isEvents
    obtain ⟨same, -⟩ := List.append_inj' isEvents rfl
    obtain ⟨done, isPrefix, bounds⟩ := linearizes.cut early rest same
    exact ⟨done, isPrefix.trans longer, bounds⟩

/-- Every run has an order that explains it. -/
theorem run_explains {start last : AtomicObject Thread Op Result Value}
    (initial : (machine applies first).start start)
    (run : (machine applies first).Run start events last) :
    ∃ order, Explains applies first events last order := by
  induction run with
  | nil =>
      rw [show start = _ from initial]
      refine ⟨[], ⟨rfl, fun early late isEvents => ?_⟩, fun _ => ⟨rfl, rfl⟩⟩
      obtain ⟨rfl, -⟩ := List.append_eq_nil_iff.mp isEvents.symm
      exact ⟨[], List.prefix_refl _, fun _ => ⟨List.prefix_refl _, List.prefix_refl _⟩⟩
  | @snoc events event before after run step ih =>
      obtain ⟨order, explains⟩ := ih
      have others : ∀ {thread : Thread} {status : OpStatus Op Result} {other : Thread},
          other ≠ thread →
            Function.update before.status thread status other = before.status other :=
        fun different => Function.update_of_ne different _ _
      cases event with
      | call thread op =>
          obtain ⟨idle, rfl⟩ := step
          refine ⟨order, explains.linearizes.extend (List.prefix_refl _)
            explains.linearizes.legal fun other => ?_⟩
          have agrees := explains.agrees other
          unfold calledBy returnedTo at agrees ⊢
          rw [List.filterMap_append, List.filterMap_append]
          by_cases same : thread = other
          · subst same
            rw [idle] at agrees
            rw [Function.update_self]
            simpa [Agrees] using agrees
          · rw [others (Ne.symm same)]
            simpa [same] using agrees
      | access thread =>
          obtain ⟨op, pending, stays | ⟨result, value, applied, rfl⟩⟩ := step
          · rw [stays]
            refine ⟨order, explains.linearizes.extend (List.prefix_refl _)
              explains.linearizes.legal fun other => ?_⟩
            simpa [calledBy, returnedTo] using explains.agrees other
          · refine ⟨order ++ [⟨thread, op, result⟩], explains.linearizes.extend
              (List.prefix_append _ _) (explains.linearizes.legal.snoc applied) fun other => ?_⟩
            have agrees := explains.agrees other
            unfold effectsOf calledBy returnedTo at agrees ⊢
            rw [List.filter_append, List.filterMap_append, List.filterMap_append]
            by_cases same : thread = other
            · subst same
              rw [pending] at agrees
              rw [Function.update_self]
              simpa [Agrees] using agrees
            · rw [others (Ne.symm same)]
              simpa [same] using agrees
      | ret thread result =>
          obtain ⟨finished, rfl⟩ := step
          refine ⟨order, explains.linearizes.extend (List.prefix_refl _)
            explains.linearizes.legal fun other => ?_⟩
          have agrees := explains.agrees other
          unfold calledBy returnedTo at agrees ⊢
          rw [List.filterMap_append, List.filterMap_append]
          by_cases same : thread = other
          · subst same
            rw [finished] at agrees
            rw [Function.update_self]
            simpa [Agrees] using agrees
          · rw [others (Ne.symm same)]
            simpa [same] using agrees

end AtomicObject

end DoggOS

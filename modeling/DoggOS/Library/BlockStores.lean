/-
A store with slots that are handed out once.

The store keeps a value for each key, and remembers which of its slots were
handed out.  A read gives the value of the last write, and a restart changes
nothing.
-/

import DoggOS.Library.Refinement
import Mathlib.Data.List.Nodup
import Mathlib.Logic.Function.Basic

namespace DoggOS

structure Store (Key Value : Type*) where
  contents : Key → Value
  used : Nat → Bool

inductive StoreCall (Key Value : Type*) where
  | read (key : Key) (value : Value)
  | write (key : Key) (value : Value)
  | alloc (slot : Option Nat)
  | restart

namespace Store

variable {Key Value : Type*} [DecidableEq Key]

/-- A store of `slots` slots; the lowest free one is handed out. -/
def machine (slots : Nat) (start : Store Key Value → Prop) :
    Machine (Store Key Value) (StoreCall Key Value) where
  start := start
  step before call after :=
    match call with
    | .read key value => before.contents key = value ∧ after = before
    | .write key value =>
        after = { before with contents := Function.update before.contents key value }
    | .alloc (some slot) => slot < slots ∧ before.used slot = false ∧
        (∀ lower < slot, before.used lower = true) ∧
        after = { before with used := Function.update before.used slot true }
    | .alloc none => (∀ slot < slots, before.used slot = true) ∧ after = before
    | .restart => after = before

def written (initial : Key → Value) (calls : List (StoreCall Key Value)) : Key → Value :=
  calls.foldl (fun contents call =>
    match call with
    | .write key value => Function.update contents key value
    | _ => contents) initial

def handedOut (calls : List (StoreCall Key Value)) : List Nat :=
  calls.filterMap fun call =>
    match call with
    | .alloc slot => slot
    | _ => none

variable {slots : Nat} {start : Store Key Value → Prop} {first last : Store Key Value}
  {calls : List (StoreCall Key Value)}

theorem written_append (initial : Key → Value) (calls more : List (StoreCall Key Value)) :
    written initial (calls ++ more) = written (written initial calls) more :=
  List.foldl_append

omit [DecidableEq Key] in
theorem handedOut_append (calls more : List (StoreCall Key Value)) :
    handedOut (calls ++ more) = handedOut calls ++ handedOut more :=
  List.filterMap_append

theorem run_contents (run : (machine slots start).Run first calls last) :
    last.contents = written first.contents calls := by
  induction run with
  | nil => rfl
  | @snoc calls call before after _ step ih =>
      rw [written_append, ← ih]
      cases call with
      | read key value =>
          rw [show after = before from step.2]
          rfl
      | write key value =>
          rw [show after = _ from step]
          rfl
      | alloc slot =>
          cases slot with
          | none =>
              rw [show after = before from step.2]
              rfl
          | some slot =>
              rw [show after = _ from step.2.2.2]
              rfl
      | restart =>
          rw [show after = before from step]
          rfl

theorem run_reads {key : Key} {value : Value} {later : List (StoreCall Key Value)}
    (run : (machine slots start).Run first (calls ++ .read key value :: later) last) :
    value = written first.contents calls key := by
  obtain ⟨before, after, earlier, step⟩ := run.split
  rw [← run_contents earlier]
  exact step.1.symm

structure Hands (first : Store Key Value) (slots : Nat) (calls : List (StoreCall Key Value))
    (last : Store Key Value) : Prop where
  used : ∀ slot, last.used slot = true ↔ first.used slot = true ∨ slot ∈ handedOut calls
  nodup : (handedOut calls).Nodup
  free : ∀ slot ∈ handedOut calls, slot < slots ∧ first.used slot = false

omit [DecidableEq Key] in
theorem Hands.quiet {call : StoreCall Key Value} {before after : Store Key Value}
    (hands : Hands first slots calls before) (none : handedOut [call] = [])
    (same : after.used = before.used) : Hands first slots (calls ++ [call]) after := by
  constructor
  · rw [handedOut_append, none, List.append_nil, same]
    exact hands.used
  · rw [handedOut_append, none, List.append_nil]
    exact hands.nodup
  · rw [handedOut_append, none, List.append_nil]
    exact hands.free

omit [DecidableEq Key] in
theorem Hands.alloc {slot : Nat} {before after : Store Key Value}
    (hands : Hands first slots calls before) (inside : slot < slots)
    (clear : before.used slot = false)
    (marked : after.used = Function.update before.used slot true) :
    Hands first slots (calls ++ [.alloc (some slot)]) after := by
  have free : ¬ (first.used slot = true ∨ slot ∈ handedOut calls) := by
    rw [← hands.used, clear]
    exact Bool.false_ne_true
  rw [not_or] at free
  have more : handedOut (calls ++ [StoreCall.alloc (some slot)] : List (StoreCall Key Value)) =
      handedOut calls ++ [slot] := handedOut_append _ _
  constructor
  · intro other
    rw [more, marked, List.mem_append, List.mem_singleton, Function.update_apply]
    by_cases same : other = slot
    · rw [if_pos same]
      simp [same]
    · rw [if_neg same, hands.used]
      simp [same]
  · rw [more, ← List.concat_eq_append]
    exact hands.nodup.concat free.2
  · rw [more]
    intro other member
    rcases List.mem_append.mp member with earlier | new
    · exact hands.free other earlier
    · rw [List.mem_singleton.mp new]
      exact ⟨inside, Bool.eq_false_iff.mpr free.1⟩

theorem run_hands (run : (machine slots start).Run first calls last) :
    Hands first slots calls last := by
  induction run with
  | nil => exact ⟨fun _ => by simp [handedOut], List.nodup_nil, nofun⟩
  | @snoc calls call before after _ step ih =>
      cases call with
      | read key value => exact ih.quiet rfl (by rw [show after = before from step.2])
      | write key value => exact ih.quiet rfl (by rw [show after = _ from step])
      | alloc slot =>
          cases slot with
          | none => exact ih.quiet rfl (by rw [show after = before from step.2])
          | some slot =>
              obtain ⟨inside, clear, _, marked⟩ := step
              exact ih.alloc inside clear (by rw [marked])
      | restart => exact ih.quiet rfl (by rw [show after = before from step])

end Store

end DoggOS

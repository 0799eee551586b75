/-
In-place moves inside an array, and the list view of an array section.

The two loops are the ascending and the descending element moves of C code.
`Holds a i l` says that the section of `a` that starts at `i` spells the list
`l`; it composes over concatenation, so one array may hold several lists side
by side and a move is one statement for each of them.
-/

import Mathlib.Logic.Function.Basic
import Mathlib.Data.List.Basic

namespace DoggOS.ArrayMove

variable {α : Type*}

/-- `for (m = lo; count more times; m++) a[m] = a[m + d]` -/
def moveDown (d : Nat) : Nat → Nat → (Nat → α) → Nat → α
  | 0, _, a => a
  | count + 1, lo, a => moveDown d count (lo + 1) (Function.update a lo (a (lo + d)))

/-- `for (m = hi; count more times; m--) a[m] = a[m - 1]` -/
def moveUp : Nat → Nat → (Nat → α) → Nat → α
  | 0, _, a => a
  | count + 1, hi, a => moveUp count (hi - 1) (Function.update a hi (a (hi - 1)))

theorem moveDown_apply (d count lo : Nat) (a : Nat → α) (forward : 0 < d) (i : Nat) :
    moveDown d count lo a i = if lo ≤ i ∧ i < lo + count then a (i + d) else a i := by
  induction count generalizing lo a with
  | zero =>
      rw [if_neg (by omega)]
      rfl
  | succ count ih =>
      rw [moveDown, ih]
      by_cases atLo : i = lo
      · subst i
        rw [if_neg (by omega), if_pos (by omega), Function.update_self]
      · by_cases inside : lo + 1 ≤ i ∧ i < lo + 1 + count
        · rw [if_pos inside, if_pos (by omega), Function.update_of_ne (by omega)]
        · rw [if_neg inside, if_neg (by omega), Function.update_of_ne atLo]

theorem moveUp_apply (count hi : Nat) (a : Nat → α) (room : count ≤ hi) (i : Nat) :
    moveUp count hi a i = if hi < i + count ∧ i ≤ hi then a (i - 1) else a i := by
  induction count generalizing hi a with
  | zero =>
      rw [if_neg (by omega)]
      rfl
  | succ count ih =>
      rw [moveUp, ih (hi - 1) _ (by omega)]
      by_cases atHi : i = hi
      · subst i
        rw [if_neg (by omega), if_pos (by omega), Function.update_self]
      · by_cases inside : hi - 1 < i + count ∧ i ≤ hi - 1
        · rw [if_pos inside, if_pos (by omega), Function.update_of_ne (by omega)]
        · rw [if_neg inside, if_neg (by omega), Function.update_of_ne atHi]

def Holds (a : Nat → α) : Nat → List α → Prop
  | _, [] => True
  | i, x :: rest => a i = x ∧ Holds a (i + 1) rest

@[simp] theorem holds_nil (a : Nat → α) (i : Nat) : Holds a i [] := trivial

@[simp] theorem holds_cons (a : Nat → α) (i : Nat) (x : α) (rest : List α) :
    Holds a i (x :: rest) ↔ a i = x ∧ Holds a (i + 1) rest := Iff.rfl

theorem holds_append (a : Nat → α) (i : Nat) (front back : List α) :
    Holds a i (front ++ back) ↔ Holds a i front ∧ Holds a (i + front.length) back := by
  induction front generalizing i with
  | nil => simp
  | cons x front ih =>
      have shift : i + 1 + front.length = i + (front.length + 1) := by omega
      simp only [List.cons_append, holds_cons, ih, List.length_cons, shift, and_assoc]

theorem holds_iff_getElem (a : Nat → α) (i : Nat) (l : List α) :
    Holds a i l ↔ ∀ j (inside : j < l.length), a (i + j) = l[j] := by
  induction l generalizing i with
  | nil => simp
  | cons x l ih =>
      rw [holds_cons, ih]
      constructor
      · rintro ⟨atHead, atTail⟩ j inside
        cases j with
        | zero => simpa using atHead
        | succ j =>
            have next := atTail j (by simpa using inside)
            rw [List.getElem_cons_succ, ← next]
            congr 1
            omega
      · intro all
        refine ⟨all 0 (Nat.succ_pos _), fun j inside => ?_⟩
        have next := all (j + 1) (by simpa using inside)
        rw [List.getElem_cons_succ] at next
        rw [← next]
        congr 1
        omega

theorem Holds.eq_map {a : Nat → α} {i : Nat} {l : List α} (holds : Holds a i l) :
    (List.range' i l.length).map a = l := by
  induction l generalizing i with
  | nil => rfl
  | cons x l ih =>
      rw [List.length_cons, List.range'_succ, List.map_cons, holds.1, ih holds.2]

/-- A section that agrees cell by cell, possibly at another position, spells the same list. -/
theorem Holds.transport {a b : Nat → α} {i j : Nat} {l : List α} (holds : Holds a i l)
    (agree : ∀ k, k < l.length → b (j + k) = a (i + k)) : Holds b j l := by
  rw [holds_iff_getElem] at holds ⊢
  intro k inside
  rw [agree k inside, holds k inside]

/-! ### Sections under writes and moves -/

section Sections

variable {a : Nat → α} {d count lo hi i j : Nat} {l : List α}

theorem Holds.cast (holds : Holds a j l) (same : i = j) : Holds a i l :=
  same ▸ holds

theorem Holds.update (holds : Holds a i l) {place : Nat} (x : α)
    (outside : place < i ∨ i + l.length ≤ place) : Holds (Function.update a place x) i l := by
  apply holds.transport
  intro k inside
  exact Function.update_of_ne (by omega) _ _

theorem Holds.moveDown (holds : Holds a j l) (forward : 0 < d) (shift : j = i + d) (first : lo ≤ i)
    (last : i + l.length ≤ lo + count) : Holds (moveDown d count lo a) i l := by
  apply holds.transport
  intro k inside
  rw [moveDown_apply d count lo a forward, if_pos (by omega), shift]
  congr 1
  omega

theorem Holds.moveDown_outside (holds : Holds a i l) (forward : 0 < d)
    (outside : i + l.length ≤ lo ∨ lo + count ≤ i) : Holds (ArrayMove.moveDown d count lo a) i l := by
  apply holds.transport
  intro k inside
  rw [moveDown_apply d count lo a forward, if_neg (by omega)]

theorem Holds.moveUp (holds : Holds a j l) (room : count ≤ hi) (shift : i = j + 1)
    (first : hi < i + count) (last : j + l.length ≤ hi) : Holds (moveUp count hi a) i l := by
  apply holds.transport
  intro k inside
  rw [moveUp_apply count hi a room, if_pos (by omega), shift]
  congr 1
  omega

theorem Holds.moveUp_outside (holds : Holds a i l) (room : count ≤ hi)
    (outside : i + l.length + count ≤ hi + 1 ∨ hi < i) :
    Holds (ArrayMove.moveUp count hi a) i l := by
  apply holds.transport
  intro k inside
  rw [moveUp_apply count hi a room, if_neg (by omega)]

end Sections

/-- Scanning a section from its first cell either rejects every element or
stops at the first one that passes. -/
theorem Holds.find?_cases {a : Nat → α} {i : Nat} {l : List α} (holds : Holds a i l)
    (test : α → Bool) :
    ((∀ x ∈ l, test x = false) ∧
        (List.range' i l.length).find? (fun k => test (a k)) = none) ∨
      ∃ before x after, l = before ++ x :: after ∧ (∀ y ∈ before, test y = false) ∧
        test x = true ∧
        (List.range' i l.length).find? (fun k => test (a k)) = some (i + before.length) := by
  induction l generalizing i with
  | nil => exact .inl ⟨by simp, rfl⟩
  | cons head tail ih =>
      obtain ⟨atHead, atTail⟩ := holds
      cases passes : test head with
      | true =>
          refine .inr ⟨[], head, tail, rfl, by simp, passes, ?_⟩
          simp [List.range'_succ, atHead, passes]
      | false =>
          have skip : (List.range' i (head :: tail).length).find? (fun k => test (a k)) =
              (List.range' (i + 1) tail.length).find? (fun k => test (a k)) := by
            simp [List.range'_succ, atHead, passes]
          rw [skip]
          rcases ih atTail with ⟨none, notFound⟩ | ⟨before, x, after, split, none, found, atIndex⟩
          · exact .inl ⟨by simpa [passes] using none, notFound⟩
          · refine .inr ⟨head :: before, x, after, by simp [split], by simpa [passes] using none,
              found, ?_⟩
            rw [atIndex, List.length_cons]
            congr 1
            omega

end DoggOS.ArrayMove

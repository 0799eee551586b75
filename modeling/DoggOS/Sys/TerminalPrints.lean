/-
What printing does to the cursor.

A character moves the cursor within its line or to a neighbour of it.  The line
in the buffer goes around the ring while the row on the screen is not bounded,
so a string moves both by the same number of lines.  Every cell that is printed
to lies in the buffer, and none ever holds a line feed.
-/

import DoggOS.Sys.Terminal
import Mathlib.Tactic.Linarith

namespace DoggOS.Sys

theorem low_terminalChar {ch : Nat} (byte : ch < 256) (color : Nat) :
    terminalChar ch color &&& 0xff = ch := by
  have low := Nat.and_two_pow_sub_one_eq_mod (terminalChar ch color) 8
  have joined : terminalChar ch color = color <<< 8 + ch :=
    (Nat.shiftLeft_add_eq_or_of_lt byte color).symm
  rw [show (0xff : Nat) = 2 ^ 8 - 1 from rfl, low, joined, Nat.shiftLeft_eq]
  omega

namespace TermSize

variable {size : TermSize} {x y : Int}

theorem cell_nonneg (left : 0 ≤ x) (above : 0 ≤ y) : 0 ≤ x + y * size.width := by
  have wide := size.wide
  have line := mul_nonneg above (by omega : (0 : Int) ≤ size.width)
  omega

theorem cell_lt_iff (left : 0 ≤ x) (right : x < size.width) :
    x + y * size.width < size.width * size.height ↔ y < size.height := by
  have wide := size.wide
  constructor
  · intro inside
    by_contra below
    have line := mul_le_mul_of_nonneg_right (not_lt.mp below) (by omega : (0 : Int) ≤ size.width)
    rw [mul_comm size.width] at inside
    omega
  · intro above
    have line := mul_le_mul_of_nonneg_right (Int.le_sub_one_of_lt above)
      (by omega : (0 : Int) ≤ size.width)
    rw [Int.sub_mul, one_mul] at line
    rw [mul_comm size.width]
    omega

theorem height_pos (size : TermSize) : 0 < size.height := by
  have visible := size.visible
  have fits := size.fits
  omega

end TermSize

/-- Where a character moves the cursor, on lines without end in both directions. -/
def moveCursor (width : Int) (place : Int × Int) (c : UInt8) : Int × Int :=
  if c = 10 then (0, place.2 + 1)
  else if c = 0x10 then
    if place.1 ≠ 0 then (place.1 - 1, place.2) else (width - 1, place.2 - 1)
  else if c = 13 then (0, place.2)
  else if place.1 + 1 ≥ width then (0, place.2 + 1)
  else (place.1 + 1, place.2)

def linesMoved (width x : Int) (str : List UInt8) : Int :=
  ((str.takeWhile (· ≠ 0)).foldl (moveCursor width) (x, 0)).2

namespace Terminal

variable {size : TermSize} {terminal before middle after : Terminal} {index shift more : Int}

def Inside (size : TermSize) (index : Int) : Prop := 0 ≤ index ∧ index < size.width * size.height

def Plain (terminal : Terminal) (index : Int) : Prop :=
  terminal.outputBuffer index &&& 0xff ≠ 10

structure InRing (size : TermSize) (terminal : Terminal) : Prop where
  left : 0 ≤ terminal.cursorX
  right : terminal.cursorX < size.width
  above : 0 ≤ terminal.bufferCursorY
  below : terminal.bufferCursorY < size.height
  plain : ∀ index, Inside size index → terminal.Plain index

theorem InRing.cursor_inside (inRing : terminal.InRing size) :
    Inside size (terminal.cursor size) :=
  ⟨TermSize.cell_nonneg inRing.left inRing.above,
    (TermSize.cell_lt_iff inRing.left inRing.right).mpr inRing.below⟩

theorem store_plain {value : Nat} {cell : Int} (byte : value &&& 0xff ≠ 10)
    (known : Inside size cell ∧ cell = index ∨ terminal.Plain cell) :
    (terminal.store size index value).Plain cell := by
  unfold Plain store
  dsimp only
  by_cases inside : 0 ≤ index ∧ index < size.width * size.height
  · rw [if_pos inside]
    by_cases here : cell = index
    · rw [here, Function.update_self]
      exact byte
    · rw [Function.update_of_ne here]
      exact known.resolve_left fun both => here both.2
  · rw [if_neg inside]
    exact known.resolve_left fun both => inside (both.2 ▸ both.1)

theorem store_inRing {value : Nat} (inRing : terminal.InRing size)
    (byte : value &&& 0xff ≠ 10) : (terminal.store size index value).InRing size :=
  ⟨inRing.left, inRing.right, inRing.above, inRing.below,
    fun cell inside => store_plain byte (.inr (inRing.plain cell inside))⟩

structure Printed (size : TermSize) (before after : Terminal) (shift : Int) : Prop where
  inRing : after.InRing size
  bufferCursorY : after.bufferCursorY = (before.bufferCursorY + shift) % size.height
  displayCursorY : after.displayCursorY = before.displayCursorY + shift
  scrollY : after.scrollY = before.scrollY
  stores : ∀ index ∈ after.stores, index ∈ before.stores ∨ Inside size index

theorem Printed.trans (first : Printed size before middle shift)
    (second : Printed size middle after more) : Printed size before after (shift + more) := by
  refine ⟨second.inRing, ?_, ?_, second.scrollY.trans first.scrollY, fun index member => ?_⟩
  · rw [second.bufferCursorY, first.bufferCursorY, Int.emod_add_emod, add_assoc]
  · rw [second.displayCursorY, first.displayCursorY, add_assoc]
  · rcases second.stores index member with old | inside
    · exact first.stores index old
    · exact .inr inside

theorem InRing.stays (inRing : terminal.InRing size) :
    terminal.bufferCursorY = (terminal.bufferCursorY + 0) % size.height := by
  rw [add_zero, Int.emod_eq_of_lt inRing.above inRing.below]

theorem Printed.refl (inRing : terminal.InRing size) : Printed size terminal terminal 0 :=
  ⟨inRing, inRing.stays, (add_zero _).symm, rfl, fun _ => .inl⟩

theorem Printed.store {value : Nat} (inRing : terminal.InRing size)
    (byte : value &&& 0xff ≠ 10) :
    Printed size terminal (terminal.store size (terminal.cursor size) value) 0 := by
  have same := inRing.stays
  refine ⟨store_inRing inRing byte, same, (add_zero _).symm, rfl, fun index member => ?_⟩
  rcases List.mem_append.mp member with old | new
  · exact .inl old
  · rw [List.mem_singleton.mp new]
    exact .inr inRing.cursor_inside

theorem Printed.column (inRing : terminal.InRing size) {x : Int} (left : 0 ≤ x)
    (right : x < size.width) : Printed size terminal { terminal with cursorX := x } 0 := by
  have same := inRing.stays
  exact ⟨⟨left, right, inRing.above, inRing.below, inRing.plain⟩, same, (add_zero _).symm, rfl,
    fun _ => .inl⟩

theorem Printed.newLine (inRing : terminal.InRing size) :
    Printed size terminal (terminal.newLine size) 1 := by
  have height := size.height_pos
  refine ⟨⟨le_refl 0, ?_, Int.emod_nonneg _ (by omega), Int.emod_lt_of_pos _ height,
    inRing.plain⟩, rfl, rfl, rfl, fun _ => .inl⟩
  have wide := size.wide
  change (0 : Int) < size.width
  omega

theorem Printed.prevLine (inRing : terminal.InRing size) :
    Printed size terminal (terminal.prevLine size) (-1) := by
  have wide := size.wide
  have height := size.height_pos
  have above := inRing.above
  have below := inRing.below
  have line : (terminal.prevLine size).bufferCursorY =
      (terminal.bufferCursorY + -1) % size.height := by
    unfold Terminal.prevLine
    dsimp only
    by_cases first : terminal.bufferCursorY - 1 < 0
    · have around : (terminal.bufferCursorY + -1) % size.height =
          terminal.bufferCursorY - 1 + size.height := by
        rw [← Int.add_emod_right, Int.emod_eq_of_lt (by omega) (by omega)]
        omega
      rw [if_pos first, around]
    · rw [if_neg first, Int.emod_eq_of_lt (by omega) (by omega)]
      omega
  refine ⟨⟨?_, ?_, ?_, ?_, inRing.plain⟩, line, rfl, rfl, fun _ => .inl⟩
  · change 0 ≤ size.width - 1
    omega
  · change size.width - 1 < size.width
    omega
  · rw [line]
    exact Int.emod_nonneg _ (by omega)
  · rw [line]
    exact Int.emod_lt_of_pos _ height

/-- The line that a backspace goes back to has no line feed. -/
theorem findNewLine_eq_none (inRing : terminal.InRing size) {count : Nat}
    (bounded : (count : Int) ≤ size.width) : terminal.findNewLine size count = none := by
  induction count with
  | zero => rfl
  | succ count ih =>
      have inside : Inside size (count + terminal.bufferCursorY * size.width) :=
        ⟨TermSize.cell_nonneg (by omega) inRing.above,
          (TermSize.cell_lt_iff (by omega) (by omega)).mpr inRing.below⟩
      rw [findNewLine, if_neg (inRing.plain _ inside)]
      exact ih (by omega)

theorem space_plain (color : Nat) : terminalChar space color &&& 0xff ≠ 10 := by
  rw [low_terminalChar (by decide) color]
  decide

theorem Printed.backSpace (inRing : terminal.InRing size) :
    Printed size terminal (terminal.backSpace size) (if terminal.cursorX ≠ 0 then 0 else -1) ∧
      (terminal.backSpace size).cursorX =
        if terminal.cursorX ≠ 0 then terminal.cursorX - 1 else size.width - 1 := by
  have left := inRing.left
  have right := inRing.right
  by_cases inLine : terminal.cursorX ≠ 0
  · have moved := Printed.column inRing (by omega : 0 ≤ terminal.cursorX - 1) (by omega)
    have printed := moved.trans (Printed.store moved.inRing (space_plain terminal.color))
    unfold Terminal.backSpace
    simp only [if_pos inLine]
    exact ⟨printed, rfl⟩
  · have moved := Printed.prevLine inRing
    have printed := moved.trans (Printed.store moved.inRing (space_plain terminal.color))
    have wide := size.wide
    have nothing : (terminal.prevLine size).findNewLine size
        ((terminal.prevLine size).cursorX + 1).toNat = none := by
      apply findNewLine_eq_none moved.inRing
      have last := moved.inRing.right
      have first := moved.inRing.left
      omega
    unfold Terminal.backSpace
    simp only [if_neg inLine, nothing]
    exact ⟨printed, rfl⟩

theorem Printed.putSingleChar (inRing : terminal.InRing size) (c : UInt8) {place : Int × Int}
    (column : place.1 = terminal.cursorX) :
    Printed size terminal (terminal.putSingleChar size c)
        ((moveCursor size.width place c).2 - place.2) ∧
      (terminal.putSingleChar size c).cursorX = (moveCursor size.width place c).1 := by
  have wide := size.wide
  have left := inRing.left
  have right := inRing.right
  unfold Terminal.putSingleChar moveCursor
  by_cases lineFeed : c = 10
  · rw [if_pos lineFeed, if_pos lineFeed]
    have shift : place.2 + 1 - place.2 = 1 := by omega
    dsimp only
    rw [shift]
    exact ⟨Printed.newLine inRing, rfl⟩
  · rw [if_neg lineFeed, if_neg lineFeed]
    by_cases isBack : c = 0x10
    · obtain ⟨printed, backed⟩ := Printed.backSpace inRing
      rw [if_pos isBack, if_pos isBack, column]
      by_cases inLine : terminal.cursorX ≠ 0
      · rw [if_pos inLine] at printed backed ⊢
        have shift : place.2 - place.2 = 0 := by omega
        dsimp only
        rw [shift]
        exact ⟨printed, backed⟩
      · rw [if_neg inLine] at printed backed ⊢
        have shift : place.2 - 1 - place.2 = -1 := by omega
        dsimp only
        rw [shift]
        exact ⟨printed, backed⟩
    · rw [if_neg isBack, if_neg isBack]
      by_cases isReturn : c = 13
      · have shift : place.2 - place.2 = 0 := by omega
        rw [if_pos isReturn, if_pos isReturn]
        dsimp only
        rw [shift]
        exact ⟨Printed.column inRing (le_refl 0) (by omega), rfl⟩
      · have byte : terminalChar c.toNat terminal.color &&& 0xff ≠ 10 := by
          rw [low_terminalChar c.toNat_lt]
          intro same
          exact lineFeed (UInt8.toNat_inj.mp same)
        have stored := Printed.store inRing byte
        rw [if_neg isReturn, if_neg isReturn, column]
        by_cases last : terminal.cursorX + 1 ≥ size.width
        · have printed := stored.trans (Printed.newLine stored.inRing)
          have shift : place.2 + 1 - place.2 = 0 + 1 := by omega
          have atLast : (terminal.store size (terminal.cursor size)
              (terminalChar c.toNat terminal.color)).cursorX + 1 ≥ size.width := last
          rw [if_pos last]
          dsimp only
          rw [if_pos atLast, shift]
          exact ⟨printed, rfl⟩
        · have moved := Printed.column stored.inRing (by omega : 0 ≤ terminal.cursorX + 1)
            (by omega)
          have printed := stored.trans moved
          have shift : place.2 - place.2 = 0 + 0 := by omega
          have inLine : ¬ (terminal.store size (terminal.cursor size)
              (terminalChar c.toNat terminal.color)).cursorX + 1 ≥ size.width := last
          rw [if_neg last]
          dsimp only
          rw [if_neg inLine, shift]
          exact ⟨printed, rfl⟩

/-- Printing moves the cursor by as many lines as the characters do. -/
theorem Printed.putChars (inRing : terminal.InRing size) (chars : List UInt8)
    {place : Int × Int} (column : place.1 = terminal.cursorX) :
    Printed size terminal (terminal.putChars size chars)
      ((chars.foldl (moveCursor size.width) place).2 - place.2) := by
  induction chars generalizing terminal place with
  | nil =>
      have shift : place.2 - place.2 = 0 := by omega
      rw [List.foldl_nil, shift]
      exact Printed.refl inRing
  | cons c chars ih =>
      obtain ⟨first, moved⟩ := Printed.putSingleChar inRing c column
      have rest := first.trans (ih first.inRing moved.symm)
      have shift : (moveCursor size.width place c).2 - place.2 +
          ((chars.foldl (moveCursor size.width) (moveCursor size.width place c)).2 -
            (moveCursor size.width place c).2) =
          (chars.foldl (moveCursor size.width) (moveCursor size.width place c)).2 - place.2 := by
        omega
      rw [List.foldl_cons, ← shift]
      exact rest

end Terminal

end DoggOS.Sys

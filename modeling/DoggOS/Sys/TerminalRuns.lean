/-
Runs of the terminal.

A string that scrolls clears the lines behind the cursor, and the number of the
line does not go around the ring with them: a store leaves the buffer exactly if
the lines do not fit in front of its end.  A string that moves up scrolls back,
and the buffer is entered again at its end once only: the scroll position stays
in the ring exactly if the string does not move up by more than that.
-/

import DoggOS.Sys.TerminalPrints

namespace DoggOS.Sys

namespace Terminal

variable {size : TermSize} {terminal : Terminal} {str : List UInt8}

/-! ### Clearing lines -/

theorem clearLine_kept (line : Int) (count : Nat) :
    (terminal.clearLine size line count).cursorX = terminal.cursorX ∧
      (terminal.clearLine size line count).bufferCursorY = terminal.bufferCursorY ∧
      (terminal.clearLine size line count).displayCursorY = terminal.displayCursorY ∧
      (terminal.clearLine size line count).scrollY = terminal.scrollY := by
  induction count with
  | zero => exact ⟨rfl, rfl, rfl, rfl⟩
  | succ count ih =>
      rw [clearLine]
      exact ih

theorem clearLines_kept (clearStart : Int) (count : Nat) :
    (terminal.clearLines size clearStart count).cursorX = terminal.cursorX ∧
      (terminal.clearLines size clearStart count).bufferCursorY = terminal.bufferCursorY ∧
      (terminal.clearLines size clearStart count).displayCursorY = terminal.displayCursorY ∧
      (terminal.clearLines size clearStart count).scrollY = terminal.scrollY := by
  induction count with
  | zero => exact ⟨rfl, rfl, rfl, rfl⟩
  | succ count ih =>
      obtain ⟨cursorX, bufferCursorY, displayCursorY, scrollY⟩ :=
        @clearLine_kept size (terminal.clearLines size clearStart count) (clearStart + count)
          size.width.toNat
      rw [clearLines]
      exact ⟨cursorX.trans ih.1, bufferCursorY.trans ih.2.1, displayCursorY.trans ih.2.2.1,
        scrollY.trans ih.2.2.2⟩

theorem mem_clearLine (line : Int) (count : Nat) (index : Int) :
    index ∈ (terminal.clearLine size line count).stores ↔
      index ∈ terminal.stores ∨ ∃ x : Nat, x < count ∧ index = x + line * size.width := by
  induction count with
  | zero =>
      rw [clearLine]
      simp
  | succ count ih =>
      rw [clearLine]
      change index ∈ (terminal.clearLine size line count).stores ++ [_] ↔ _
      rw [List.mem_append, ih, List.mem_singleton, or_assoc]
      refine or_congr_right ⟨?_, ?_⟩
      · rintro (⟨x, small, same⟩ | same)
        · exact ⟨x, Nat.lt_succ_of_lt small, same⟩
        · exact ⟨count, Nat.lt_succ_self count, same⟩
      · rintro ⟨x, small, same⟩
        rcases Nat.lt_succ_iff_lt_or_eq.mp small with before | last
        · exact .inl ⟨x, before, same⟩
        · exact .inr (last ▸ same)

theorem mem_clearLines (clearStart : Int) (count : Nat) (index : Int) :
    index ∈ (terminal.clearLines size clearStart count).stores ↔ index ∈ terminal.stores ∨
      ∃ row x : Nat, row < count ∧ x < size.width ∧
        index = x + (clearStart + row) * size.width := by
  induction count with
  | zero =>
      rw [clearLines]
      simp
  | succ count ih =>
      have wide := size.wide
      rw [clearLines, mem_clearLine, ih, or_assoc]
      refine or_congr_right ⟨?_, ?_⟩
      · rintro (⟨row, x, above, inLine, same⟩ | ⟨x, inLine, same⟩)
        · exact ⟨row, x, Nat.lt_succ_of_lt above, inLine, same⟩
        · exact ⟨count, x, Nat.lt_succ_self count, by omega, same⟩
      · rintro ⟨row, x, above, inLine, same⟩
        rcases Nat.lt_succ_iff_lt_or_eq.mp above with before | last
        · exact .inl ⟨row, x, before, inLine, same⟩
        · exact .inr ⟨x, by omega, last ▸ same⟩

theorem clearLine_plain {line cell : Int} {count : Nat}
    (known : (Inside size cell ∧ ∃ x : Nat, x < count ∧ cell = x + line * size.width) ∨
      terminal.Plain cell) : (terminal.clearLine size line count).Plain cell := by
  induction count with
  | zero =>
      rcases known with ⟨-, x, none, -⟩ | plain
      · exact absurd none (Nat.not_lt_zero x)
      · exact plain
  | succ count ih =>
      rw [clearLine]
      apply store_plain (space_plain _)
      rcases known with ⟨inside, x, small, same⟩ | plain
      · rcases Nat.lt_succ_iff_lt_or_eq.mp small with before | last
        · exact .inr (ih (.inl ⟨inside, x, before, same⟩))
        · exact .inl ⟨inside, last ▸ same⟩
      · exact .inr (ih (.inr plain))

theorem clearLines_plain {clearStart cell : Int} {count : Nat}
    (known : (Inside size cell ∧ ∃ row x : Nat, row < count ∧ x < size.width ∧
      cell = x + (clearStart + row) * size.width) ∨ terminal.Plain cell) :
    (terminal.clearLines size clearStart count).Plain cell := by
  induction count with
  | zero =>
      rcases known with ⟨-, row, x, none, -⟩ | plain
      · exact absurd none (Nat.not_lt_zero row)
      · exact plain
  | succ count ih =>
      rw [clearLines]
      apply clearLine_plain
      rcases known with ⟨inside, row, x, above, inLine, same⟩ | plain
      · rcases Nat.lt_succ_iff_lt_or_eq.mp above with before | last
        · exact .inr (ih (.inl ⟨inside, row, x, before, inLine, same⟩))
        · exact .inl ⟨inside, x, by omega, last ▸ same⟩
      · exact .inr (ih (.inr plain))

theorem inside_line {cell : Int} (inside : Inside size cell) :
    ∃ row x : Nat, row < size.height.toNat ∧ x < size.width ∧
      cell = x + (0 + row) * size.width := by
  have wide := size.wide
  have height := size.height_pos
  have row := Int.ediv_nonneg inside.1 (by omega : (0 : Int) ≤ size.width)
  have left := Int.emod_nonneg cell (by omega : size.width ≠ 0)
  have right := Int.emod_lt_of_pos cell (by omega : 0 < size.width)
  have whole : cell % size.width + cell / size.width * size.width = cell := by
    rw [mul_comm]
    exact Int.emod_add_mul_ediv cell size.width
  have below : cell / size.width < size.height :=
    (TermSize.cell_lt_iff left right).mp (whole.symm ▸ inside.2)
  refine ⟨(cell / size.width).toNat, (cell % size.width).toNat, by omega, by omega, ?_⟩
  rw [Int.toNat_of_nonneg row, Int.toNat_of_nonneg left, zero_add, whole]

/-! ### Updates and scrolling -/

theorem update_kept :
    terminal.update size = { terminal with shown := (terminal.update size).shown } := by
  unfold update blitTextBuffer
  dsimp only
  split <;> split <;> (try split) <;> rfl

theorem scroll_kept (lines : Int) :
    (terminal.scroll size lines).cursorX = terminal.cursorX ∧
      (terminal.scroll size lines).bufferCursorY = terminal.bufferCursorY ∧
      (terminal.scroll size lines).displayCursorY = terminal.displayCursorY - lines ∧
      (terminal.scroll size lines).stores = terminal.stores ∧
      (terminal.scroll size lines).outputBuffer = terminal.outputBuffer := by
  unfold scroll
  rw [update_kept]
  dsimp only
  split
  · exact ⟨rfl, rfl, rfl, rfl, rfl⟩
  · have none : lines = 0 := by omega
    exact ⟨rfl, rfl, by omega, rfl, rfl⟩

/-! ### Stores -/

def printed (size : TermSize) (terminal : Terminal) (str : List UInt8) : Terminal :=
  { terminal with stores := [] }.putChars size (str.takeWhile (· ≠ 0))

theorem printed_spec (inRing : terminal.InRing size) (str : List UInt8) :
    Printed size { terminal with stores := [] } (terminal.printed size str)
      (linesMoved size.width terminal.cursorX str) := by
  have plain : { terminal with stores := [] : Terminal }.InRing size :=
    ⟨inRing.left, inRing.right, inRing.above, inRing.below, inRing.plain⟩
  have spec := Printed.putChars plain (str.takeWhile (· ≠ 0))
    (show (terminal.cursorX, (0 : Int)).1 = terminal.cursorX from rfl)
  rw [Int.sub_zero] at spec
  exact spec

/-- The lines that are scrolled in are cleared, and then the screen follows. -/
theorem puts_eq (size : TermSize) (terminal : Terminal) (str : List UInt8) :
    terminal.puts size str =
      (if (terminal.printed size str).scrollLines size > 0 then
        (terminal.printed size str).clearLines size
          (((terminal.printed size str).bufferCursorY + 1) % size.height)
          ((terminal.printed size str).scrollLines size).toNat
      else terminal.printed size str).scroll size
        ((terminal.printed size str).scrollLines size) := rfl

theorem InRing.clearLines (inRing : terminal.InRing size) (clearStart : Int) (count : Nat) :
    (terminal.clearLines size clearStart count).InRing size := by
  obtain ⟨cursorX, bufferCursorY, -, -⟩ := @clearLines_kept size terminal clearStart count
  refine ⟨?_, ?_, ?_, ?_, fun cell inside => clearLines_plain (.inr (inRing.plain cell inside))⟩
  · rw [cursorX]
    exact inRing.left
  · rw [cursorX]
    exact inRing.right
  · rw [bufferCursorY]
    exact inRing.above
  · rw [bufferCursorY]
    exact inRing.below

theorem InRing.scroll (inRing : terminal.InRing size) (lines : Int) :
    (terminal.scroll size lines).InRing size := by
  obtain ⟨cursorX, bufferCursorY, -, -, outputBuffer⟩ := @scroll_kept size terminal lines
  refine ⟨?_, ?_, ?_, ?_, fun cell inside => ?_⟩
  · rw [cursorX]
    exact inRing.left
  · rw [cursorX]
    exact inRing.right
  · rw [bufferCursorY]
    exact inRing.above
  · rw [bufferCursorY]
    exact inRing.below
  · unfold Plain
    rw [outputBuffer]
    exact inRing.plain cell inside

theorem InRing.puts (inRing : terminal.InRing size) (str : List UInt8) :
    (terminal.puts size str).InRing size := by
  have spec := printed_spec inRing str
  rw [puts_eq]
  split
  · exact (spec.inRing.clearLines _ _).scroll _
  · exact spec.inRing.scroll _

theorem cleared_inRing (terminal : Terminal) (first : terminal.cursorX = 0)
    (line : terminal.bufferCursorY = 0) :
    (terminal.clearLines size 0 size.height.toNat).InRing size := by
  have wide := size.wide
  have height := size.height_pos
  obtain ⟨cursorX, bufferCursorY, -, -⟩ := @clearLines_kept size terminal 0 size.height.toNat
  rw [first] at cursorX
  rw [line] at bufferCursorY
  exact ⟨cursorX.ge, cursorX.trans_lt (by omega), bufferCursorY.ge,
    bufferCursorY.trans_lt height,
    fun cell inside => clearLines_plain (.inl ⟨inside, inside_line inside⟩)⟩

theorem InRing.clear (terminal : Terminal) : (terminal.clear size).InRing size := by
  have wide := size.wide
  have height := size.height_pos
  unfold Terminal.clear
  rw [update_kept]
  refine ⟨le_refl 0, ?_, le_refl 0, height,
    fun cell inside => clearLines_plain (.inl ⟨inside, inside_line inside⟩)⟩
  change (0 : Int) < size.width
  omega

theorem reachable_inRing (reachable : (machine size).Reachable terminal) :
    terminal.InRing size := by
  refine Machine.invariant _ ?_ ?_ reachable
  · rintro first ⟨memory, rfl⟩
    exact cleared_inRing _ rfl rfl
  · rintro before label after inRing rfl
    cases label with
    | puts str => exact inRing.puts str
    | clear => exact InRing.clear before

/-- The lines that the string scrolls in end in front of the end of the buffer, if it scrolls any
in. -/
def ScrollFits (size : TermSize) (terminal : Terminal) (str : List UInt8) : Prop :=
  let moved := linesMoved size.width terminal.cursorX str
  let scrolled := terminal.displayCursorY + moved - size.vgaHeight + 1
  scrolled ≤ 0 ∨ (terminal.bufferCursorY + moved + 1) % size.height + scrolled ≤ size.height

/-- Lines from a line of the ring on lie in the buffer exactly if they end in front of its end. -/
theorem clearLines_inside_iff {clearStart : Int} {count : Nat} (start : 0 ≤ clearStart)
    (positive : 0 < count) (inside : ∀ index ∈ terminal.stores, Inside size index) :
    (∀ index ∈ (terminal.clearLines size clearStart count).stores, Inside size index) ↔
      clearStart + count ≤ size.height := by
  have wide := size.wide
  simp only [mem_clearLines]
  constructor
  · intro all
    have last := (all (0 + (clearStart + (count - 1 : Nat)) * size.width)
      (.inr ⟨count - 1, 0, by omega, by omega, rfl⟩)).2
    have above := (TermSize.cell_lt_iff (le_refl 0) (by omega)).mp last
    omega
  · rintro fits index (old | ⟨row, x, above, inLine, rfl⟩)
    · exact inside index old
    · exact ⟨TermSize.cell_nonneg (by omega) (by omega),
        (TermSize.cell_lt_iff (by omega) inLine).mpr (by omega)⟩

theorem InRing.stores_iff (inRing : terminal.InRing size) (str : List UInt8) :
    (∀ index ∈ (terminal.puts size str).stores, Inside size index) ↔
      terminal.ScrollFits size str := by
  have spec := printed_spec inRing str
  have height := size.height_pos
  have visible := size.visible
  have inside : ∀ index ∈ (terminal.printed size str).stores, Inside size index :=
    fun index member => (spec.stores index member).resolve_left List.not_mem_nil
  have line := spec.bufferCursorY
  have row := spec.displayCursorY
  dsimp only at line row
  have start : ((terminal.printed size str).bufferCursorY + 1) % size.height =
      (terminal.bufferCursorY + linesMoved size.width terminal.cursorX str + 1) % size.height := by
    rw [line, Int.emod_add_emod]
  have startNonneg := Int.emod_nonneg
    ((terminal.printed size str).bufferCursorY + 1) (by omega : size.height ≠ 0)
  unfold ScrollFits
  dsimp only
  rw [puts_eq, (scroll_kept _).2.2.2.1, ← start]
  unfold scrollLines
  rw [row]
  by_cases up : terminal.displayCursorY + linesMoved size.width terminal.cursorX str < 0
  · rw [if_pos up, if_neg (by omega)]
    exact ⟨fun _ => .inl (by omega), fun _ => inside⟩
  · rw [if_neg up]
    by_cases down : terminal.displayCursorY + linesMoved size.width terminal.cursorX str ≥
        size.vgaHeight
    · rw [if_pos down, if_pos (by omega), clearLines_inside_iff startNonneg (by omega) inside]
      omega
    · rw [if_neg down, if_neg (by omega)]
      exact ⟨fun _ => .inl (by omega), fun _ => inside⟩

/-! ### The screen -/

/-- The cursor is on the screen, and the line in the buffer is the one that its row shows. -/
structure Aligned (size : TermSize) (terminal : Terminal) : Prop where
  cursorX : 0 ≤ terminal.cursorX ∧ terminal.cursorX < size.width
  bufferCursorY : 0 ≤ terminal.bufferCursorY ∧ terminal.bufferCursorY < size.height
  displayCursorY : 0 ≤ terminal.displayCursorY ∧ terminal.displayCursorY < size.vgaHeight
  scrollY : 0 ≤ terminal.scrollY ∧ terminal.scrollY < size.height
  line : terminal.bufferCursorY = (terminal.scrollY + terminal.displayCursorY) % size.height

/-- The last update copied to each row of the screen its line of the buffer. -/
def Shows (size : TermSize) (terminal : Terminal) : Prop :=
  ∀ row x, 0 ≤ row → row < size.vgaHeight → 0 ≤ x → x < size.width →
    terminal.shown (x + row * size.width) =
      some (x + (terminal.scrollY + row) % size.height * size.width)

def BlitsFit (size : TermSize) (scrollY : Int) : Prop :=
  if size.height - scrollY < size.vgaHeight then
    (size.height - scrollY) * size.width < 2 ^ 16 ∧
      (size.vgaHeight - (size.height - scrollY)) * size.width < 2 ^ 16
  else size.vgaHeight * size.width < 2 ^ 16

instance (size : TermSize) (scrollY : Int) : Decidable (BlitsFit size scrollY) :=
  inferInstanceAs (Decidable (if size.height - scrollY < size.vgaHeight then
    (size.height - scrollY) * size.width < 2 ^ 16 ∧
      (size.vgaHeight - (size.height - scrollY)) * size.width < 2 ^ 16
  else size.vgaHeight * size.width < 2 ^ 16))

def scrolledTo (size : TermSize) (terminal : Terminal) (str : List UInt8) : Int :=
  (terminal.scrollY + { terminal with
    displayCursorY := terminal.displayCursorY +
      linesMoved size.width terminal.cursorX str }.scrollLines size) % size.height

/-- The string does not move up past the screen by more than the ring. -/
def Reaches (size : TermSize) (terminal : Terminal) (str : List UInt8) : Prop :=
  -size.height ≤
    terminal.scrollY + terminal.displayCursorY + linesMoved size.width terminal.cursorX str

def Meets (size : TermSize) (terminal : Terminal) : TermCall → Prop
  | .puts str => terminal.Reaches size str ∧ BlitsFit size (terminal.scrolledTo size str)
  | .clear => BlitsFit size 0

theorem blitTextBuffer_eq {text startY count : Int} (row : 0 ≤ startY ∧ startY < size.vgaHeight)
    (rowWord : startY < 2 ^ 16) (cells : 0 ≤ count ∧ count < 2 ^ 16) :
    terminal.blitTextBuffer size text 0 startY count = { terminal with
      shown := fun cell =>
        if startY * size.width ≤ cell ∧ cell < startY * size.width + count then
          some (text + (cell - startY * size.width))
        else terminal.shown cell } := by
  have wide := size.wide
  unfold blitTextBuffer
  simp only [Int.emod_eq_of_lt row.1 rowWord, Int.emod_eq_of_lt cells.1 cells.2, Int.zero_emod,
    zero_add]
  rw [if_pos ⟨by omega, row.2⟩]

/-- The two parts of an update meet where the ring ends. -/
theorem update_shows (scrollY : 0 ≤ terminal.scrollY ∧ terminal.scrollY < size.height)
    (narrow : BlitsFit size terminal.scrollY) : (terminal.update size).Shows size := by
  have wide := size.wide
  have fits := size.fits
  have word := size.word
  have visible := size.visible
  have rows : (size.height - terminal.scrollY) % 2 ^ 32 = size.height - terminal.scrollY :=
    Int.emod_eq_of_lt (by omega) (by omega)
  have widthNonneg : 0 ≤ size.width := by omega
  unfold BlitsFit at narrow
  have inBuffer : (terminal.update size).scrollY = terminal.scrollY := by rw [update_kept]
  intro row x above below left right
  have cell : x + row * size.width < size.vgaHeight * size.width := by
    have scaled := mul_le_mul_of_nonneg_right (Int.le_sub_one_of_lt below) widthNonneg
    rw [Int.sub_mul] at scaled
    omega
  have cellNonneg := @TermSize.cell_nonneg size x row left above
  rw [inBuffer]
  unfold update
  simp only [rows]
  by_cases wraps : size.height - terminal.scrollY < size.vgaHeight
  · rw [if_pos wraps] at narrow
    have lines : size.height - terminal.scrollY < 2 ^ 16 := by
      have scaled := mul_le_mul_of_nonneg_left wide
        (by omega : 0 ≤ size.height - terminal.scrollY)
      omega
    have firstCells : 0 ≤ (size.height - terminal.scrollY) * size.width ∧
        (size.height - terminal.scrollY) * size.width ≤ size.vgaHeight * size.width :=
      ⟨mul_nonneg (by omega) widthNonneg, mul_le_mul_of_nonneg_right wraps.le widthNonneg⟩
    have restCells : (size.vgaHeight - (size.height - terminal.scrollY)) * size.width =
        size.vgaHeight * size.width - (size.height - terminal.scrollY) * size.width :=
      Int.sub_mul _ _ _
    rw [if_pos wraps, blitTextBuffer_eq ⟨le_refl 0, by omega⟩ (by decide) (by omega),
      blitTextBuffer_eq ⟨by omega, wraps⟩ lines (by rw [restCells] at narrow ⊢; omega)]
    dsimp only
    rw [zero_mul, restCells]
    by_cases inFirst : row < size.height - terminal.scrollY
    · have upper : x + row * size.width < (size.height - terminal.scrollY) * size.width := by
        have scaled := mul_le_mul_of_nonneg_right (Int.le_sub_one_of_lt inFirst) widthNonneg
        rw [Int.sub_mul _ 1] at scaled
        omega
      have shifted : (terminal.scrollY + row) * size.width =
          terminal.scrollY * size.width + row * size.width := Int.add_mul _ _ _
      rw [if_neg (by omega), if_pos (by omega), Int.emod_eq_of_lt (by omega) (by omega), shifted]
      congr 1
      omega
    · have lower : (size.height - terminal.scrollY) * size.width ≤ row * size.width :=
        mul_le_mul_of_nonneg_right (by omega) widthNonneg
      have around : (terminal.scrollY + row) % size.height =
          row - (size.height - terminal.scrollY) := by
        rw [← Int.sub_emod_right, Int.emod_eq_of_lt (by omega) (by omega)]
        omega
      have shifted : (row - (size.height - terminal.scrollY)) * size.width =
          row * size.width - (size.height - terminal.scrollY) * size.width := Int.sub_mul _ _ _
      rw [if_pos (by omega), around, shifted]
      congr 1
      omega
  · rw [if_neg wraps] at narrow
    have allCells : 0 ≤ size.vgaHeight * size.width := mul_nonneg (by omega) widthNonneg
    have shifted : (terminal.scrollY + row) * size.width =
        terminal.scrollY * size.width + row * size.width := Int.add_mul _ _ _
    rw [if_neg wraps, blitTextBuffer_eq ⟨le_refl 0, by omega⟩ (by decide) (by omega)]
    dsimp only
    rw [zero_mul, if_pos (by omega), Int.emod_eq_of_lt (by omega) (by omega), shifted]
    congr 1
    omega

theorem blitTextBuffer_shown {text startY count cell value : Int}
    (shown : (terminal.blitTextBuffer size text 0 startY count).shown cell = some value) :
    (startY % 2 ^ 16 * size.width ≤ cell ∧
        cell < startY % 2 ^ 16 * size.width + count % 2 ^ 16 ∧
        value = text + (cell - startY % 2 ^ 16 * size.width)) ∨
      terminal.shown cell = some value := by
  unfold blitTextBuffer at shown
  simp only [Int.zero_emod, zero_add] at shown
  split at shown
  · dsimp only at shown
    split at shown
    · next inside => exact .inl ⟨inside.1, inside.2, (Option.some.inj shown).symm⟩
    · exact .inr shown
  · exact .inr shown

/-- A blit that is too long leaves its last cell out. -/
theorem update_shows_iff (scrollY : 0 ≤ terminal.scrollY ∧ terminal.scrollY < size.height) :
    (terminal.update size).Shows size ↔ BlitsFit size terminal.scrollY := by
  refine ⟨fun shows => ?_, update_shows scrollY⟩
  have wide := size.wide
  have fits := size.fits
  have word := size.word
  have visible := size.visible
  have rows : (size.height - terminal.scrollY) % 2 ^ 32 = size.height - terminal.scrollY :=
    Int.emod_eq_of_lt (by omega) (by omega)
  have inBuffer : (terminal.update size).scrollY = terminal.scrollY := by rw [update_kept]
  have last : ∀ row, size.width - 1 + (row - 1) * size.width = row * size.width - 1 := by
    intro row
    rw [Int.sub_mul]
    omega
  unfold BlitsFit
  by_cases wraps : size.height - terminal.scrollY < size.vgaHeight
  · rw [if_pos wraps]
    have turned : 0 < terminal.scrollY * size.width := mul_pos (by omega) (by omega)
    have parts : (size.height - terminal.scrollY) * size.width =
        size.height * size.width - terminal.scrollY * size.width := Int.sub_mul _ _ _
    have restCells : (size.vgaHeight - (size.height - terminal.scrollY)) * size.width =
        size.vgaHeight * size.width - (size.height - terminal.scrollY) * size.width :=
      Int.sub_mul _ _ _
    have first : (size.height - terminal.scrollY) * size.width < 2 ^ 16 := by
      by_contra long
      have place : (terminal.scrollY + (size.height - terminal.scrollY - 1)) % size.height =
          size.height - 1 := by
        rw [Int.emod_eq_of_lt (by omega) (by omega)]
        omega
      have here := shows (size.height - terminal.scrollY - 1) (size.width - 1) (by omega)
        (by omega) (by omega) (by omega)
      rw [inBuffer, place, last, last] at here
      unfold update at here
      simp only [rows, if_pos wraps] at here
      have second : 0 ≤ (size.height - terminal.scrollY) % 2 ^ 16 * size.width :=
        mul_nonneg (Int.emod_nonneg _ (by decide)) (by omega)
      rcases blitTextBuffer_shown here with ⟨-, -, value⟩ | before
      · omega
      · rcases blitTextBuffer_shown before with ⟨-, short, -⟩ | before
        · rw [Int.zero_emod, zero_mul] at short
          omega
        · cases before
    refine ⟨first, ?_⟩
    by_contra long
    have lines : size.height - terminal.scrollY < 2 ^ 16 := by
      have scaled := mul_le_mul_of_nonneg_left wide
        (by omega : 0 ≤ size.height - terminal.scrollY)
      omega
    have firstNonneg : 0 ≤ (size.height - terminal.scrollY) * size.width :=
      mul_nonneg (by omega) (by omega)
    have here := shows (size.vgaHeight - 1) (size.width - 1) (by omega) (by omega) (by omega)
      (by omega)
    rw [last] at here
    unfold update at here
    simp only [rows, if_pos wraps] at here
    rcases blitTextBuffer_shown here with ⟨-, short, -⟩ | before
    · rw [Int.emod_eq_of_lt (by omega) lines] at short
      omega
    · rcases blitTextBuffer_shown before with ⟨-, short, -⟩ | before
      · rw [Int.zero_emod, zero_mul] at short
        omega
      · cases before
  · rw [if_neg wraps]
    by_contra long
    have here := shows (size.vgaHeight - 1) (size.width - 1) (by omega) (by omega) (by omega)
      (by omega)
    unfold update at here
    simp only [rows, if_neg wraps, last] at here
    rcases blitTextBuffer_shown here with ⟨-, short, -⟩ | before
    · rw [Int.zero_emod, zero_mul] at short
      omega
    · cases before

theorem scroll_scrollY (lines : Int) :
    (terminal.scroll size lines).scrollY =
      if lines ≠ 0 then
        if terminal.scrollY + lines < 0 then terminal.scrollY + lines + size.height
        else if terminal.scrollY + lines ≥ size.height then
          (terminal.scrollY + lines) % size.height
        else terminal.scrollY + lines
      else terminal.scrollY := by
  unfold scroll
  rw [update_kept]
  dsimp only
  split
  · rfl
  · rfl

/-- A scroll goes back to the screen from as far below as it may be, and from as far above as the
ring reaches once. -/
theorem scroll_aligned_iff
    (cursorX : 0 ≤ terminal.cursorX ∧ terminal.cursorX < size.width)
    (bufferCursorY : 0 ≤ terminal.bufferCursorY ∧ terminal.bufferCursorY < size.height)
    (scrollY : 0 ≤ terminal.scrollY ∧ terminal.scrollY < size.height)
    (line : terminal.bufferCursorY =
      (terminal.scrollY + terminal.displayCursorY) % size.height) :
    (terminal.scroll size (terminal.scrollLines size)).Aligned size ↔
      -size.height ≤ terminal.scrollY + terminal.displayCursorY := by
  have height := size.height_pos
  have visible := size.visible
  have fits := size.fits
  obtain ⟨sameX, sameLine, sameRow, -, -⟩ :=
    @scroll_kept size terminal (terminal.scrollLines size)
  have place := @scroll_scrollY size terminal (terminal.scrollLines size)
  have build (row : 0 ≤ terminal.displayCursorY - terminal.scrollLines size ∧
      terminal.displayCursorY - terminal.scrollLines size < size.vgaHeight)
      (top : 0 ≤ (terminal.scroll size (terminal.scrollLines size)).scrollY ∧
        (terminal.scroll size (terminal.scrollLines size)).scrollY < size.height)
      (same : ((terminal.scroll size (terminal.scrollLines size)).scrollY +
        (terminal.displayCursorY - terminal.scrollLines size)) % size.height =
          (terminal.scrollY + terminal.displayCursorY) % size.height) :
      (terminal.scroll size (terminal.scrollLines size)).Aligned size := by
    refine ⟨?_, ?_, ?_, top, ?_⟩
    · rw [sameX]
      exact cursorX
    · rw [sameLine]
      exact bufferCursorY
    · rw [sameRow]
      exact row
    · rw [sameLine, sameRow, same]
      exact line
  by_cases up : terminal.displayCursorY < 0
  · have lines : terminal.scrollLines size = terminal.displayCursorY := if_pos up
    rw [lines] at place sameRow build ⊢
    rw [if_pos (by omega)] at place
    by_cases past : terminal.scrollY + terminal.displayCursorY < 0
    · rw [if_pos past] at place
      constructor
      · intro aligned
        have top := aligned.scrollY.1
        rw [place] at top
        omega
      · intro reaches
        refine build (by omega) (by rw [place]; omega) ?_
        rw [place, Int.sub_self, add_zero, Int.add_emod_right]
    · rw [if_neg past, if_neg (by omega)] at place
      refine ⟨fun _ => by omega, fun _ => build (by omega) (by rw [place]; omega) ?_⟩
      rw [place, Int.sub_self, add_zero]
  · by_cases down : terminal.displayCursorY ≥ size.vgaHeight
    · have lines : terminal.scrollLines size =
          1 + (terminal.displayCursorY - size.vgaHeight) := by
        unfold scrollLines
        rw [if_neg up, if_pos down]
      rw [lines] at place sameRow build ⊢
      rw [if_pos (by omega), if_neg (by omega)] at place
      have rejoined : terminal.scrollY + (1 + (terminal.displayCursorY - size.vgaHeight)) +
          (terminal.displayCursorY - (1 + (terminal.displayCursorY - size.vgaHeight))) =
            terminal.scrollY + terminal.displayCursorY := by omega
      refine ⟨fun _ => by omega, fun _ => build (by omega) ?_ ?_⟩
      · rw [place]
        split
        · exact ⟨Int.emod_nonneg _ (by omega), Int.emod_lt_of_pos _ height⟩
        · omega
      · rw [place]
        split
        · rw [Int.emod_add_emod, rejoined]
        · rw [rejoined]
    · have lines : terminal.scrollLines size = 0 := by
        unfold scrollLines
        rw [if_neg up, if_neg down]
      rw [lines] at place sameRow build ⊢
      rw [if_neg (by omega)] at place
      refine ⟨fun _ => by omega, fun _ => build (by omega) (by rw [place]; exact scrollY) ?_⟩
      rw [place, Int.sub_zero]

theorem scrollLines_congr {other : Terminal}
    (same : other.displayCursorY = terminal.displayCursorY) :
    other.scrollLines size = terminal.scrollLines size := by
  unfold scrollLines
  rw [same]

theorem puts_scrolls (size : TermSize) (terminal : Terminal) (str : List UInt8) :
    ∃ ready : Terminal, terminal.puts size str = ready.scroll size (ready.scrollLines size) ∧
      ready.cursorX = (terminal.printed size str).cursorX ∧
      ready.bufferCursorY = (terminal.printed size str).bufferCursorY ∧
      ready.displayCursorY = (terminal.printed size str).displayCursorY ∧
      ready.scrollY = (terminal.printed size str).scrollY := by
  rw [puts_eq]
  split
  · obtain ⟨cursorX, bufferCursorY, displayCursorY, scrollY⟩ := @clearLines_kept size
      (terminal.printed size str) (((terminal.printed size str).bufferCursorY + 1) % size.height)
      ((terminal.printed size str).scrollLines size).toNat
    exact ⟨_, by rw [scrollLines_congr displayCursorY], cursorX, bufferCursorY, displayCursorY,
      scrollY⟩
  · exact ⟨_, rfl, rfl, rfl, rfl, rfl⟩

theorem Aligned.puts_iff (aligned : terminal.Aligned size) (inRing : terminal.InRing size)
    (str : List UInt8) :
    (terminal.puts size str).Aligned size ↔ terminal.Reaches size str := by
  have spec := printed_spec inRing str
  obtain ⟨ready, scrolls, cursorX, bufferCursorY, displayCursorY, scrollY⟩ :=
    puts_scrolls size terminal str
  have line := spec.bufferCursorY
  have row := spec.displayCursorY
  have top := spec.scrollY
  dsimp only at line row top
  rw [scrolls, scroll_aligned_iff, scrollY, displayCursorY, top, row, ← add_assoc]
  · rfl
  · rw [cursorX]
    exact ⟨spec.inRing.left, spec.inRing.right⟩
  · rw [bufferCursorY]
    exact ⟨spec.inRing.above, spec.inRing.below⟩
  · rw [scrollY, top]
    exact aligned.scrollY
  · rw [bufferCursorY, scrollY, displayCursorY, line, row, top, aligned.line, Int.emod_add_emod,
      add_assoc]

/-- A scroll that stays in the ring moves by its lines around it. -/
theorem scroll_around (scrollY : 0 ≤ terminal.scrollY ∧ terminal.scrollY < size.height)
    (reaches : -size.height ≤ terminal.scrollY + terminal.displayCursorY) :
    (terminal.scroll size (terminal.scrollLines size)).scrollY =
      (terminal.scrollY + terminal.scrollLines size) % size.height := by
  have least : -size.height ≤ terminal.scrollY + terminal.scrollLines size := by
    unfold scrollLines
    split_ifs <;> omega
  have stays : (terminal.scrollY + 0) % size.height = terminal.scrollY := by
    rw [add_zero]
    exact Int.emod_eq_of_lt scrollY.1 scrollY.2
  rw [scroll_scrollY]
  generalize terminal.scrollLines size = lines at *
  split_ifs with moves above below
  · rw [← Int.add_emod_right]
    exact (Int.emod_eq_of_lt (by omega) (by omega)).symm
  · rfl
  · exact (Int.emod_eq_of_lt (by omega) (by omega)).symm
  · have none : lines = 0 := by omega
    rw [none, stays]

theorem puts_scrollY (scrollY : 0 ≤ terminal.scrollY ∧ terminal.scrollY < size.height)
    (inRing : terminal.InRing size) (reaches : terminal.Reaches size str) :
    (terminal.puts size str).scrollY = terminal.scrolledTo size str := by
  have spec := printed_spec inRing str
  obtain ⟨ready, scrolls, -, -, displayCursorY, top⟩ := puts_scrolls size terminal str
  have row := displayCursorY.trans spec.displayCursorY
  rw [spec.scrollY] at top
  dsimp only at row top
  unfold Reaches at reaches
  rw [scrolls, scroll_around (by rw [top]; exact scrollY) (by rw [top, row]; omega), top]
  unfold scrolledTo
  rw [@scrollLines_congr size { terminal with
    displayCursorY := terminal.displayCursorY + linesMoved size.width terminal.cursorX str } ready row]

theorem puts_shows_iff (scrollY : 0 ≤ (terminal.puts size str).scrollY ∧
    (terminal.puts size str).scrollY < size.height) :
    (terminal.puts size str).Shows size ↔ BlitsFit size (terminal.puts size str).scrollY := by
  obtain ⟨ready, scrolls, -⟩ := puts_scrolls size terminal str
  obtain ⟨moved, updated⟩ : ∃ moved : Terminal,
      ready.scroll size (ready.scrollLines size) = moved.update size := ⟨_, rfl⟩
  have kept : (moved.update size).scrollY = moved.scrollY := by rw [update_kept]
  rw [scrolls, updated, kept] at scrollY
  rw [scrolls, updated, update_shows_iff scrollY, kept]

theorem clear_aligned (terminal : Terminal) : (terminal.clear size).Aligned size := by
  have wide := size.wide
  have height := size.height_pos
  have visible := size.visible
  unfold Terminal.clear
  rw [update_kept]
  exact ⟨⟨le_refl 0, by show (0 : Int) < size.width; omega⟩, ⟨le_refl 0, height⟩,
    ⟨le_refl 0, by show (0 : Int) < size.vgaHeight; omega⟩, ⟨le_refl 0, height⟩,
    (Int.zero_emod size.height).symm⟩

theorem clear_shows_iff (terminal : Terminal) :
    (terminal.clear size).Shows size ↔ BlitsFit size 0 :=
  update_shows_iff ⟨le_refl 0, size.height_pos⟩

theorem init_start (memory : Int → Nat) :
    (init size memory).cursorX = 0 ∧ (init size memory).bufferCursorY = 0 ∧
      (init size memory).displayCursorY = 0 ∧ (init size memory).scrollY = 0 := by
  unfold init
  exact clearLines_kept 0 size.height.toNat

theorem init_aligned (memory : Int → Nat) : (init size memory).Aligned size := by
  have wide := size.wide
  have height := size.height_pos
  have visible := size.visible
  obtain ⟨cursorX, bufferCursorY, displayCursorY, scrollY⟩ := @init_start size memory
  refine ⟨?_, ?_, ?_, ?_, ?_⟩
  · rw [cursorX]
    exact ⟨le_refl 0, by omega⟩
  · rw [bufferCursorY]
    exact ⟨le_refl 0, height⟩
  · rw [displayCursorY]
    exact ⟨le_refl 0, by omega⟩
  · rw [scrollY]
    exact ⟨le_refl 0, height⟩
  · rw [bufferCursorY, scrollY, displayCursorY]
    exact (Int.zero_emod size.height).symm

/-- The next call leaves everything in its place exactly if it meets the condition. -/
theorem Aligned.call_iff (aligned : terminal.Aligned size) (inRing : terminal.InRing size)
    (label : TermCall) :
    (terminal.call size label).Aligned size ∧ (terminal.call size label).Shows size ↔
      terminal.Meets size label := by
  cases label with
  | puts str =>
      change (terminal.puts size str).Aligned size ∧ (terminal.puts size str).Shows size ↔ _
      rw [aligned.puts_iff inRing str]
      refine and_congr_right fun reaches => ?_
      have kept := (aligned.puts_iff inRing str).mpr reaches
      rw [puts_shows_iff kept.scrollY, puts_scrollY aligned.scrollY inRing reaches]
  | clear => exact (and_iff_right (clear_aligned terminal)).trans (clear_shows_iff terminal)

structure Steady (size : TermSize) (terminal : Terminal) : Prop where
  aligned : terminal.Aligned size
  inRing : terminal.InRing size

theorem reachable_steady
    (reachable : ((machine size).restrict (Meets size)).Reachable terminal) :
    terminal.Steady size := by
  refine Machine.invariant _ ?_ ?_ reachable
  · rintro first ⟨memory, rfl⟩
    exact ⟨init_aligned memory, cleared_inRing _ rfl rfl⟩
  · rintro before label after steady ⟨meets, rfl⟩
    refine ⟨((steady.aligned.call_iff steady.inRing label).mpr meets).1, ?_⟩
    cases label with
    | puts str => exact steady.inRing.puts str
    | clear => exact InRing.clear before

end Terminal

open Terminal

/-- All stores of a string lie in the buffer exactly if the lines that it scrolls in do. -/
theorem terminalPuts_inside_iff (size : TermSize) (terminal : Terminal)
    (reachable : (machine size).Reachable terminal) (str : List UInt8) :
    (∀ index ∈ (terminal.puts size str).stores, Inside size index) ↔
      terminal.ScrollFits size str :=
  (reachable_inRing reachable).stores_iff str

def textMode : TermSize := ⟨80, 25, 25, by decide, by decide, by decide, by decide⟩

theorem textMode_reachable : (machine textMode).Reachable (init textMode fun _ => 0) :=
  Machine.reachable_start _ ⟨fun _ => 0, rfl⟩

theorem terminalPuts_inside_iff_line : (machine textMode).Reachable (init textMode fun _ => 0) ∧
    ∀ index ∈ ((init textMode fun _ => 0).puts textMode [65, 10, 66]).stores,
      Inside textMode index := by
  obtain ⟨cursorX, bufferCursorY, displayCursorY, -⟩ := @init_start textMode fun _ => 0
  refine ⟨textMode_reachable,
    (terminalPuts_inside_iff textMode _ textMode_reachable [65, 10, 66]).mpr ?_⟩
  unfold ScrollFits
  rw [cursorX, bufferCursorY, displayCursorY]
  decide

/-- The lines that are scrolled in start in the middle of the buffer and do not end in it. -/
theorem longString_leavesBuffer : (machine textMode).Reachable (init textMode fun _ => 0) ∧
    ¬ ∀ index ∈ ((init textMode fun _ => 0).puts textMode (List.replicate 37 10)).stores,
      Inside textMode index := by
  obtain ⟨cursorX, bufferCursorY, displayCursorY, -⟩ := @init_start textMode fun _ => 0
  refine ⟨textMode_reachable, fun inside => ?_⟩
  have fits := ((reachable_inRing textMode_reachable).stores_iff _).mp inside
  unfold ScrollFits at fits
  rw [cursorX, bufferCursorY, displayCursorY] at fits
  exact absurd fits (by decide)

/-- After each call the cursors and the screen agree exactly if the call does not move up too
far, in every run whose calls before it did not. -/
theorem terminal_aligned_iff (size : TermSize) (terminal : Terminal)
    (reachable : ((machine size).restrict (Meets size)).Reachable terminal)
    (label : TermCall) :
    (terminal.call size label).Aligned size ∧ (terminal.call size label).Shows size ↔
      terminal.Meets size label := by
  have steady := reachable_steady reachable
  exact steady.aligned.call_iff steady.inRing label

/-- A ring of two long lines, which an update copies in two blits of 32768 cells once the second
line is the first on the screen. -/
def longLines : TermSize := ⟨32768, 2, 2, by decide, by decide, by decide, by decide⟩

theorem terminal_aligned_iff_longLines :
    ((init longLines fun _ => 0).puts longLines [65, 10, 10]).Aligned longLines ∧
      ((init longLines fun _ => 0).puts longLines [65, 10, 10]).Shows longLines := by
  obtain ⟨cursorX, -, displayCursorY, scrollY⟩ := @init_start longLines fun _ => 0
  refine (terminal_aligned_iff longLines (init longLines fun _ => 0)
    (Machine.reachable_start _ ⟨fun _ => 0, rfl⟩) (.puts [65, 10, 10])).mpr ?_
  unfold Meets Reaches scrolledTo scrollLines
  rw [cursorX, displayCursorY, scrollY]
  decide

/-- From the first column a backspace goes to the line before. -/
def moveUp (count : Nat) : List UInt8 := (List.replicate count [13, 0x10]).flatten

/-- The scroll position enters the ring at its end once and is still negative. -/
theorem moveUp_leavesRing : (machine textMode).Reachable (init textMode fun _ => 0) ∧
    ((moveUp 26).length : Int) ≤ textMode.width * (textMode.height - 1) ∧
    ¬ ((init textMode fun _ => 0).puts textMode (moveUp 26)).Aligned textMode := by
  obtain ⟨cursorX, -, displayCursorY, scrollY⟩ := @init_start textMode fun _ => 0
  refine ⟨textMode_reachable, by decide, fun aligned => ?_⟩
  have reaches := ((init_aligned fun _ => 0).puts_iff (reachable_inRing textMode_reachable) _).mp
    aligned
  unfold Reaches at reaches
  rw [cursorX, displayCursorY, scrollY] at reaches
  exact absurd reaches (by decide)

end DoggOS.Sys

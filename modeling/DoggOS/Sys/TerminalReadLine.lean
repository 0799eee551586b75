/-
Reading a line from the terminal.

The stream delivers a character to every read.  A buffer of one byte has room
for the NUL only, but the loop tests its bound behind the store, so the first
character of such a line takes the place of the NUL and the NUL comes behind the
buffer.  A longer buffer is filled up to the place of the NUL.
-/

import DoggOS.Library.CharBuffers

namespace DoggOS.Sys

/-- `position` is the number of characters read, `echoed` what was put on the terminal. -/
structure LineState where
  output : List UInt8
  dataCursor : Nat
  position : Nat
  echoed : List UInt8
  deriving DecidableEq

def readTurn (ch : UInt8) (state : LineState) : Option (LineState × Bool) :=
  let state := { state with position := state.position + 1 }
  if ch = 0x10 then
    if state.dataCursor ≠ 0 then
      (storeChar state.output (state.dataCursor - 1) 0).map fun output =>
        ({ state with
            output := output
            dataCursor := state.dataCursor - 1
            echoed := state.echoed ++ [ch] }, false)
    else some (state, false)
  else
    let state := { state with echoed := state.echoed ++ [ch] }
    if ch = '\n'.toUInt8 then some (state, true)
    else
      (storeChar state.output state.dataCursor ch).map fun output =>
        ({ state with output := output, dataCursor := state.dataCursor + 1 }, false)

def readLoop (bufferSize : Nat) (stream : Nat → UInt8) (output : List UInt8) :
    Nat → Option (LineState × Bool)
  | 0 => some (⟨output, 0, 0, []⟩, false)
  | turns + 1 =>
      (readLoop bufferSize stream output turns).bind fun reached =>
        if reached.2 then some reached
        else
          (readTurn (stream reached.1.position) reached.1).map fun turned =>
            (turned.1, turned.2 || decide (¬turned.1.dataCursor < bufferSize - 1))

inductive LineOutcome where
  | reading (state : LineState)
  | returned (status : Nat) (state : LineState)
  deriving DecidableEq

/-- `k_sys_TerminalReadLine` within so many turns of its loop; the buffer is `none` for NULL. -/
def terminalReadLine (output : Option (List UInt8)) (bufferSize : Nat) (stream : Nat → UInt8)
    (turns : Nat) : Option LineOutcome :=
  match output with
  | none => some (.returned 0 ⟨[], 0, 0, []⟩)
  | some output =>
      if bufferSize = 0 then some (.returned 0 ⟨output, 0, 0, []⟩)
      else
        (readLoop bufferSize stream output turns).bind fun reached =>
          if reached.2 then
            (storeChar reached.1.output reached.1.dataCursor 0).map fun output =>
              .returned 1 { reached.1 with output := output }
          else some (.reading reached.1)

def editLine (line : List UInt8) (ch : UInt8) : List UInt8 :=
  if ch = 0x10 then line.dropLast else if ch = '\n'.toUInt8 then line else line ++ [ch]

def consumed (stream : Nat → UInt8) (count : Nat) : List UInt8 :=
  (List.range count).map stream

/-- No store is outside the buffer, and when the call returns the buffer holds the line that was
edited and its NUL. -/
def EditsLine (output : List UInt8) (stream : Nat → UInt8) : Prop :=
  ∀ turns, ∃ outcome, terminalReadLine (some output) output.length stream turns = some outcome ∧
    ∀ status state, outcome = .returned status state →
      let line := (consumed stream state.position).foldl editLine []
      status = 1 ∧ line.length ≤ output.length - 1 ∧ state.output.take line.length = line ∧
        state.output[line.length]? = some 0 ∧ state.output.length = output.length ∧
        '\n'.toUInt8 ∉ (consumed stream state.position).dropLast

def lineOf (stream : Nat → UInt8) (count : Nat) : List UInt8 :=
  (consumed stream count).foldl editLine []

variable {stream : Nat → UInt8} {size : Nat} {state : LineState}

theorem consumed_succ (stream : Nat → UInt8) (count : Nat) :
    consumed stream (count + 1) = consumed stream count ++ [stream count] := by
  unfold consumed
  rw [List.range_succ, List.map_append]
  rfl

theorem lineOf_succ (stream : Nat → UInt8) (count : Nat) :
    lineOf stream (count + 1) = editLine (lineOf stream count) (stream count) := by
  unfold lineOf
  rw [consumed_succ, List.foldl_append]
  rfl

structure Editing (stream : Nat → UInt8) (size : Nat) (state : LineState) (finished : Bool) : Prop where
  length : state.output.length = size
  cursor : state.dataCursor = (lineOf stream state.position).length
  text : state.output.take (lineOf stream state.position).length = lineOf stream state.position
  bound : (lineOf stream state.position).length ≤ size - 1
  room : finished = false → (lineOf stream state.position).length < size - 1 ∨ state.position = 0
  oneLine : '\n'.toUInt8 ∉ (consumed stream state.position).dropLast
  goesOn : finished = false → '\n'.toUInt8 ∉ consumed stream state.position

/-- Behind a turn without a newline the loop stops when the line is full. -/
theorem Editing.next (length : state.output.length = size)
    (cursor : state.dataCursor = (lineOf stream state.position).length)
    (text : state.output.take (lineOf stream state.position).length = lineOf stream state.position)
    (bound : (lineOf stream state.position).length ≤ size - 1)
    (goesOn : '\n'.toUInt8 ∉ consumed stream state.position) :
    Editing stream size state (false || decide (¬state.dataCursor < size - 1)) where
  length := length
  cursor := cursor
  text := text
  bound := bound
  room running := by
    rw [Bool.false_or, decide_eq_false_iff_not, not_not, cursor] at running
    exact Or.inl running
  oneLine member := goesOn (List.mem_of_mem_dropLast member)
  goesOn _ := goesOn

theorem Editing.further (editing : Editing stream size state false)
    (isNewline : stream state.position ≠ '\n'.toUInt8) :
    '\n'.toUInt8 ∉ consumed stream (state.position + 1) := by
  rw [consumed_succ, List.mem_append, List.mem_singleton]
  rintro (member | newline)
  · exact editing.goesOn rfl member
  · exact isNewline newline.symm

theorem Editing.backSpace (editing : Editing stream size state false) (positive : 0 < size)
    (isBackSpace : stream state.position = 0x10) :
    ∃ next, readTurn (stream state.position) state = some (next, false) ∧
      Editing stream size next (false || decide (¬next.dataCursor < size - 1)) := by
  have length := editing.length
  have cursor := editing.cursor
  have bound := editing.bound
  have line := lineOf_succ stream state.position
  have further := editing.further (by rw [isBackSpace]; decide)
  unfold readTurn
  dsimp only
  rw [editLine, if_pos isBackSpace] at line
  rw [if_pos isBackSpace]
  by_cases some : state.dataCursor ≠ 0
  · have shorter : (lineOf stream (state.position + 1)).length = state.dataCursor - 1 := by
      rw [line, List.length_dropLast, cursor]
    have inside : state.dataCursor - 1 < state.output.length := by omega
    rw [if_pos some, CharBuffers.storeChar_eq inside]
    refine ⟨_, rfl, Editing.next ?_ ?_ ?_ ?_ further⟩
    · exact (CharBuffers.overwrite_length inside).trans length
    · exact shorter.symm
    · dsimp only
      rw [shorter, CharBuffers.take_overwrite_of_le (Nat.le_refl _) (Nat.le_of_lt inside), line,
        List.dropLast_eq_take, ← cursor]
      have cut := congrArg (List.take (state.dataCursor - 1)) editing.text
      rw [List.take_take, ← cursor, Nat.min_eq_left (Nat.sub_le _ _)] at cut
      exact cut
    · dsimp only
      omega
  · have empty : lineOf stream state.position = [] := by
      apply List.eq_nil_of_length_eq_zero
      omega
    rw [empty, List.dropLast_nil] at line
    rw [if_neg some]
    refine ⟨_, rfl, Editing.next length ?_ ?_ ?_ further⟩
    · dsimp only
      rw [line]
      exact not_not.mp some
    · dsimp only
      rw [line]
      rfl
    · dsimp only
      rw [line]
      exact Nat.zero_le _

theorem Editing.newline (editing : Editing stream size state false)
    (isNewline : stream state.position = '\n'.toUInt8) :
    ∃ next, readTurn (stream state.position) state = some (next, true) ∧
      Editing stream size next true := by
  have noBackSpace : stream state.position ≠ 0x10 := by
    rw [isNewline]
    decide
  have line := lineOf_succ stream state.position
  unfold readTurn
  dsimp only
  rw [editLine, if_neg noBackSpace, if_pos isNewline] at line
  rw [if_neg noBackSpace, if_pos isNewline]
  refine ⟨_, rfl, ?_⟩
  constructor
  case length => exact editing.length
  case cursor => exact editing.cursor.trans (congrArg List.length line).symm
  case text =>
    dsimp only
    rw [line]
    exact editing.text
  case bound =>
    dsimp only
    rw [line]
    exact editing.bound
  case room =>
    intro impossible
    cases impossible
  case oneLine =>
    dsimp only
    rw [consumed_succ, List.dropLast_concat]
    exact editing.goesOn rfl
  case goesOn =>
    intro impossible
    cases impossible

theorem Editing.store (editing : Editing stream size state false)
    (noBackSpace : stream state.position ≠ 0x10) (noNewline : stream state.position ≠ '\n'.toUInt8)
    (room : (lineOf stream state.position).length < size - 1) :
    ∃ next, readTurn (stream state.position) state = some (next, false) ∧
      Editing stream size next (false || decide (¬next.dataCursor < size - 1)) := by
  have length := editing.length
  have cursor := editing.cursor
  have line := lineOf_succ stream state.position
  unfold readTurn
  dsimp only
  rw [editLine, if_neg noBackSpace, if_neg noNewline] at line
  rw [if_neg noBackSpace, if_neg noNewline]
  have inside : state.dataCursor < state.output.length := by omega
  have longer : (lineOf stream (state.position + 1)).length = state.dataCursor + 1 := by
    rw [line, List.length_append, cursor]
    rfl
  rw [CharBuffers.storeChar_eq inside]
  refine ⟨_, rfl, Editing.next ?_ ?_ ?_ ?_ (editing.further noNewline)⟩
  · exact (CharBuffers.overwrite_length inside).trans length
  · exact longer.symm
  · have taken : (overwrite state.output state.dataCursor [stream state.position]).take
        (state.dataCursor + [stream state.position].length) =
        state.output.take state.dataCursor ++ [stream state.position] :=
      CharBuffers.take_overwrite (Nat.le_of_lt inside)
    dsimp only
    rw [longer]
    refine taken.trans ?_
    rw [line, cursor, editing.text]
  · dsimp only
    omega

theorem Editing.turn (editing : Editing stream size state false) (positive : 0 < size)
    (starts : size = 1 → stream 0 = 0x10 ∨ stream 0 = '\n'.toUInt8) :
    ∃ next broke, readTurn (stream state.position) state = some (next, broke) ∧
      Editing stream size next (broke || decide (¬next.dataCursor < size - 1)) := by
  by_cases isBackSpace : stream state.position = 0x10
  · obtain ⟨next, turned, kept⟩ := editing.backSpace positive isBackSpace
    exact ⟨next, false, turned, kept⟩
  · by_cases isNewline : stream state.position = '\n'.toUInt8
    · obtain ⟨next, turned, kept⟩ := editing.newline isNewline
      exact ⟨next, true, turned, kept⟩
    · have room : (lineOf stream state.position).length < size - 1 := by
        cases editing.room rfl with
        | inl room => exact room
        | inr first =>
            have ordinary : size ≠ 1 := by
              intro one
              rw [first] at isBackSpace isNewline
              exact (starts one).elim isBackSpace isNewline
            rw [first]
            change 0 < size - 1
            omega
      obtain ⟨next, turned, kept⟩ := editing.store isBackSpace isNewline room
      exact ⟨next, false, turned, kept⟩

/-- The loop keeps the line in the buffer in every turn. -/
theorem readLoop_editing (output : List UInt8) (positive : 0 < output.length)
    (starts : output.length = 1 → stream 0 = 0x10 ∨ stream 0 = '\n'.toUInt8) (turns : Nat) :
    ∃ state finished, readLoop output.length stream output turns = some (state, finished) ∧
      Editing stream output.length state finished := by
  induction turns with
  | zero =>
      refine ⟨_, false, rfl, ?_⟩
      constructor
      · rfl
      · rfl
      · rfl
      · exact Nat.zero_le _
      · exact fun _ => Or.inr rfl
      · exact List.not_mem_nil
      · exact fun _ => List.not_mem_nil
  | succ turns ih =>
      obtain ⟨state, finished, ran, editing⟩ := ih
      rw [readLoop, ran, Option.bind_some]
      cases finished with
      | true => exact ⟨state, true, rfl, editing⟩
      | false =>
          obtain ⟨next, broke, turned, kept⟩ := editing.turn positive starts
          refine ⟨next, _, ?_, kept⟩
          dsimp only
          rw [if_neg Bool.false_ne_true, turned]
          rfl

/-- The line is edited inside the buffer unless the buffer is one byte long and the first character
is an ordinary one. -/
theorem terminalReadLine_exact (output : List UInt8) (stream : Nat → UInt8)
    (positive : 0 < output.length) :
    EditsLine output stream ↔
      ¬(output.length = 1 ∧ stream 0 ≠ 0x10 ∧ stream 0 ≠ '\n'.toUInt8) := by
  constructor
  · rintro edits ⟨one, noBackSpace, noNewline⟩
    obtain ⟨outcome, ended, -⟩ := edits 1
    unfold terminalReadLine at ended
    have stored : readTurn (stream 0) ⟨output, 0, 0, []⟩ =
        some (⟨overwrite output 0 [stream 0], 1, 1, [stream 0]⟩, false) := by
      unfold readTurn
      dsimp only
      rw [if_neg noBackSpace, if_neg noNewline, CharBuffers.storeChar_eq positive]
      rfl
    have ran : readLoop output.length stream output 1 =
        some (⟨overwrite output 0 [stream 0], 1, 1, [stream 0]⟩, true) := by
      rw [readLoop, readLoop, Option.bind_some]
      dsimp only
      rw [if_neg Bool.false_ne_true, stored, one]
      rfl
    have outside : storeChar (overwrite output 0 [stream 0]) 1 0 = none := by
      apply CharBuffers.storeChar_outside
      rw [CharBuffers.overwrite_length positive, one]
    dsimp only at ended
    rw [if_neg (Nat.ne_of_gt positive), ran, Option.bind_some, if_pos rfl, outside] at ended
    cases ended
  · intro right turns
    have starts : output.length = 1 → stream 0 = 0x10 ∨ stream 0 = '\n'.toUInt8 := by
      intro one
      by_contra ordinary
      rw [not_or] at ordinary
      exact right ⟨one, ordinary⟩
    obtain ⟨state, finished, ran, editing⟩ := readLoop_editing output positive starts turns
    have bound := editing.bound
    have inside : state.dataCursor < state.output.length := by
      rw [editing.cursor, editing.length]
      omega
    unfold terminalReadLine
    dsimp only
    rw [if_neg (Nat.ne_of_gt positive), ran, Option.bind_some]
    dsimp only
    cases finished with
    | false =>
        refine ⟨_, rfl, ?_⟩
        intro status final impossible
        cases impossible
    | true =>
        rw [if_pos rfl, CharBuffers.storeChar_eq inside]
        refine ⟨_, rfl, ?_⟩
        intro status final returned
        cases returned
        refine ⟨rfl, bound, ?_, ?_, ?_, editing.oneLine⟩
        · change (overwrite _ _ _).take (lineOf stream state.position).length =
            lineOf stream state.position
          rw [← editing.cursor, CharBuffers.take_overwrite_of_le (Nat.le_refl _)
            (Nat.le_of_lt inside), editing.cursor, editing.text]
        · change (overwrite _ _ _)[(lineOf stream state.position).length]? = some 0
          rw [← editing.cursor]
          exact CharBuffers.overwrite_nul inside
        · exact (CharBuffers.overwrite_length inside).trans editing.length

/-- A backspace at the start, and a line of one character. -/
theorem terminalReadLine_exact_short :
    EditsLine [7, 7] (fun position => [16, 97, 98].getD position 10) :=
  (terminalReadLine_exact [7, 7] (fun position => [16, 97, 98].getD position 10)
    (by decide)).mpr fun wrong => absurd wrong.1 (by decide)

/-- An ordinary character and a buffer of one byte. -/
theorem terminalReadLine_one_byte :
    ¬∀ (output : List UInt8) (stream : Nat → UInt8), 0 < output.length →
      EditsLine output stream := by
  intro always
  obtain ⟨outcome, ended, -⟩ := always [7] (fun _ => 97) (by decide) 1
  have outside : terminalReadLine (some [7]) 1 (fun _ => 97) 1 = none := by
    rfl
  have impossible := outside.symm.trans ended
  cases impossible

end DoggOS.Sys

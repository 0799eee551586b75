/-
What the formatter does to its buffer.

Each conversion has room for its text or leaves the buffer as it is, but only
`k_itoa` and `k_strcat` then answer with zero.  `k_xtoa` answers with the length
it would need, so a text that is longer than the room puts `out_index` behind
the buffer, where the last NUL goes.  The format is read past its NUL behind a
directive that the NUL cuts off, and a modifier `ll` is kept for the directives
without one, which then take an argument of another type.
-/

import DoggOS.KString.FormatPieces

namespace DoggOS.KString

inductive ArgKind where
  | dword
  | qword
  | string
  deriving DecidableEq

namespace Arg

def kind : Arg → ArgKind
  | dword _ => .dword
  | qword _ => .qword
  | string _ => .string

def text (letter : UInt8) : Arg → List UInt8
  | dword value =>
      if letter = 'd'.toUInt8 then decimalText value.toInt32.toInt
      else if letter = 'c'.toUInt8 then [(value &&& 0xff).toUInt8]
      else numeral 16 value.toNat
  | qword value => numeral 16 value.toNat
  | string value => value.text

end Arg

def wants (modifier : Modifier) (letter : UInt8) : Option ArgKind :=
  if letter = 'd'.toUInt8 then some .dword
  else if letter = 'x'.toUInt8 then some (if modifier = .longLong then .qword else .dword)
  else if letter = 's'.toUInt8 then some .string
  else if letter = 'c'.toUInt8 then some .dword
  else none

/-- The arguments are those that the pieces take, each directive by its own modifier. -/
def Matches : List Piece → List Arg → Prop
  | [], args => args = []
  | .directive modifier letter :: pieces, args =>
      match wants modifier letter with
      | none => Matches pieces args
      | some kind => ∃ arg left, args = arg :: left ∧ arg.kind = kind ∧ Matches pieces left
  | _ :: pieces, args => Matches pieces args

/-- The room that a conversion asks for. -/
def need (letter : UInt8) (length : Nat) : Nat :=
  if letter = 's'.toUInt8 then length + 2 else if letter = 'c'.toUInt8 then length else length + 1

/-- What a conversion adds to `out_index`. -/
def advance (letter : UInt8) (length room : Nat) : Nat :=
  if letter = 'x'.toUInt8 ∨ need letter length ≤ room then length else 0

def written (letter : UInt8) (text : List UInt8) (room : Nat) (buffer : List UInt8) (start : Nat) :
    List UInt8 :=
  if need letter text.length ≤ room then
    overwrite buffer start (text ++ if letter = 'c'.toUInt8 then [] else [0])
  else buffer

/-- A directive `%x` without a modifier that is taken for `%llx`. -/
def Leaks (modifier own : Modifier) (letter : UInt8) : Prop :=
  letter = 'x'.toUInt8 ∧ own = .none ∧ modifier = .longLong

instance (modifier own : Modifier) (letter : UInt8) : Decidable (Leaks modifier own letter) :=
  inferInstanceAs (Decidable (_ ∧ _ ∧ _))

/-- With this much room left, and this modifier from the directives before, no directive is cut
off, none is taken for `%llx`, and no text passes the end of the buffer. -/
def Fits : Nat → Modifier → List Piece → List Arg → Prop
  | _, _, [], _ => True
  | 0, _, _ :: _, _ => True
  | room + 1, modifier, .char _ :: pieces, args => Fits room modifier pieces args
  | _ + 1, _, .cut :: _, _ => False
  | room + 1, modifier, .directive own letter :: pieces, args =>
      match wants own letter, args with
      | none, args => Fits (room + 1) (own.over modifier) pieces args
      | some _, arg :: left =>
          let taken := advance letter (arg.text letter).length (room + 1)
          ¬Leaks modifier own letter ∧ taken ≤ room + 1 ∧
            Fits (room + 1 - taken) (own.over modifier) pieces left
      | some _, [] => False

/-- `k_vasfmt` stays inside the buffer and the format and ends the text with a NUL. -/
def StaysInside (fmt : CString) (args : List Arg) (buffer : List UInt8) : Prop :=
  ∃ outIndex after, vasfmt buffer buffer.length fmt args = some (outIndex, after) ∧
    after[outIndex]? = some 0

variable {bufferLength : Nat} {letter : UInt8} {state : FmtState}

def FmtState.converted (state : FmtState) (letter : UInt8) (text : List UInt8) (room : Nat)
    (left : List Arg) : FmtState :=
  { state with
    outIndex := state.outIndex + advance letter text.length room
    buffer := written letter text room state.buffer state.outIndex
    args := left }

theorem converted_fits {text : List UInt8} {room : Nat} (left : List Arg)
    (fits : need letter text.length ≤ room) :
    state.converted letter text room left =
      { state with
        outIndex := state.outIndex + text.length
        buffer := overwrite state.buffer state.outIndex
          (text ++ if letter = 'c'.toUInt8 then [] else [0])
        args := left } := by
  unfold FmtState.converted advance written
  rw [if_pos (Or.inr fits), if_pos fits]

theorem converted_short {text : List UInt8} {room : Nat} (left : List Arg)
    (other : letter ≠ 'x'.toUInt8) (short : ¬need letter text.length ≤ room) :
    state.converted letter text room left = { state with args := left } := by
  unfold FmtState.converted advance written
  rw [if_neg (fun either => either.elim other short), if_neg short, Nat.add_zero]

theorem wants_cases {modifier : Modifier} {kind : ArgKind} (takes : wants modifier letter = some kind) :
    letter = 'd'.toUInt8 ∧ kind = .dword ∨
      letter = 'x'.toUInt8 ∧ kind = (if modifier = .longLong then .qword else .dword) ∨
      letter = 's'.toUInt8 ∧ kind = .string ∨ letter = 'c'.toUInt8 ∧ kind = .dword := by
  unfold wants at takes
  split_ifs at takes with isDecimal isHex isLong isString isChar <;> cases takes
  · exact Or.inl ⟨isDecimal, rfl⟩
  · exact Or.inr (Or.inl ⟨isHex, (if_pos isLong).symm⟩)
  · exact Or.inr (Or.inl ⟨isHex, (if_neg isLong).symm⟩)
  · exact Or.inr (Or.inr (Or.inl ⟨isString, rfl⟩))
  · exact Or.inr (Or.inr (Or.inr ⟨isChar, rfl⟩))

theorem directive_skip (bufferLength : Nat) (unknown : wants state.modifier letter = none) :
    state.directive bufferLength letter = some state := by
  unfold wants at unknown
  split_ifs at unknown with isDecimal isHex isString isChar
  unfold FmtState.directive
  dsimp only
  rw [if_neg isDecimal, if_neg isHex, if_neg isString, if_neg isChar]

/-- A kept modifier changes what a directive takes only when it leaks. -/
theorem wants_over {modifier own : Modifier} (kept : ¬Leaks modifier own letter) :
    wants (own.over modifier) letter = wants own letter := by
  unfold wants
  by_cases isHex : letter = 'x'.toUInt8
  · have same : own.over modifier = .longLong ↔ own = .longLong := by
      cases own with
      | none =>
          constructor
          · intro longLong
            exact absurd ⟨isHex, rfl, longLong⟩ kept
          · intro impossible
            cases impossible
      | long => exact Iff.rfl
      | longLong => exact Iff.rfl
    by_cases longLong : own = .longLong
    · rw [if_pos longLong, if_pos (same.mpr longLong)]
    · rw [if_neg longLong, if_neg (fun both => longLong (same.mp both))]
  · rw [if_neg isHex, if_neg isHex]

theorem wants_leaks {modifier own : Modifier} (leaks : Leaks modifier own letter) :
    wants own letter = some .dword ∧ wants (own.over modifier) letter = some .qword := by
  obtain ⟨rfl, rfl, rfl⟩ := leaks
  decide

theorem written_length {text buffer : List UInt8} {room start : Nat}
    (inside : start + room ≤ buffer.length) :
    (written letter text room buffer start).length = buffer.length := by
  unfold written
  by_cases fits : need letter text.length ≤ room
  · rw [if_pos fits, CharBuffers.overwrite_length]
    unfold need at fits
    rw [List.length_append]
    split_ifs at fits ⊢ <;> simp only [List.length_nil, List.length_singleton] <;> omega
  · rw [if_neg fits]

section

variable (room : state.outIndex < bufferLength) (inside : bufferLength < state.buffer.length)

include room inside

theorem directive_decimal (value : UInt32) {left : List Arg}
    (front : state.args = .dword value :: left) :
    state.directive bufferLength 'd'.toUInt8 =
      some (state.converted 'd'.toUInt8 ((Arg.dword value).text 'd'.toUInt8)
        (bufferLength - state.outIndex) left) := by
  have printed := itoa_eq value.toInt32 (by omega : 1 ≤ bufferLength - state.outIndex)
    (by omega : state.outIndex + (bufferLength - state.outIndex) ≤ state.buffer.length)
  unfold FmtState.directive
  dsimp only
  rw [if_pos rfl, front, dwordArg, Option.bind_some, printed, Option.map_some]
  by_cases fits : (decimalText value.toInt32.toInt).length + 1 ≤ bufferLength - state.outIndex
  · rw [if_pos fits, converted_fits left fits]
    rfl
  · rw [if_neg fits, converted_short left (by decide) fits]
    rfl

theorem directive_hex (value : UInt64) {left : List Arg} {arg : Arg}
    (text : arg.text 'x'.toUInt8 = numeral 16 value.toNat)
    (taken : (if state.modifier = .longLong then qwordArg state.args
      else (dwordArg state.args).map fun taken => (taken.1.toUInt64, taken.2)) =
        some (value, left)) :
    state.directive bufferLength 'x'.toUInt8 =
      some (state.converted 'x'.toUInt8 (arg.text 'x'.toUInt8) (bufferLength - state.outIndex)
        left) := by
  have printed := xtoa_eq value (by omega : 1 ≤ bufferLength - state.outIndex)
    (by omega : state.outIndex + (bufferLength - state.outIndex) ≤ state.buffer.length)
  unfold FmtState.directive
  dsimp only
  rw [if_neg (by decide), if_pos rfl, taken, Option.bind_some, printed, Option.map_some, text]
  by_cases fits : (numeral 16 value.toNat).length < bufferLength - state.outIndex
  · rw [if_pos fits, converted_fits left fits]
    rfl
  · have short : ¬need 'x'.toUInt8 (numeral 16 value.toNat).length ≤
        bufferLength - state.outIndex := fits
    unfold FmtState.converted advance written
    rw [if_neg fits, if_pos (Or.inl rfl), if_neg short]
    rfl

theorem directive_string (value : CString) {left : List Arg}
    (empty : state.buffer[state.outIndex]? = some 0) (front : state.args = .string value :: left) :
    state.directive bufferLength 's'.toUInt8 =
      some (state.converted 's'.toUInt8 ((Arg.string value).text 's'.toUInt8)
        (bufferLength - state.outIndex) left) := by
  have printed := strcat_eq value empty (by omega : 1 ≤ bufferLength - state.outIndex)
    (by omega : state.outIndex + (bufferLength - state.outIndex) ≤ state.buffer.length)
  unfold FmtState.directive
  dsimp only
  rw [if_neg (by decide), if_neg (by decide), if_pos rfl, front, stringArg, Option.bind_some,
    printed, Option.map_some]
  by_cases fits : value.text.length + 1 < bufferLength - state.outIndex
  · rw [if_pos fits, converted_fits left fits, if_pos (Nat.succ_ne_zero _)]
    rfl
  · have short : ¬need 's'.toUInt8 ((Arg.string value).text 's'.toUInt8).length ≤
        bufferLength - state.outIndex := fits
    rw [if_neg fits, converted_short left (by decide) short, if_neg (not_not_intro rfl)]
    rfl

theorem directive_char (value : UInt32) {left : List Arg}
    (front : state.args = .dword value :: left) :
    state.directive bufferLength 'c'.toUInt8 =
      some (state.converted 'c'.toUInt8 ((Arg.dword value).text 'c'.toUInt8)
        (bufferLength - state.outIndex) left) := by
  have one : need 'c'.toUInt8 ((Arg.dword value).text 'c'.toUInt8).length ≤
      bufferLength - state.outIndex := by
    change 1 ≤ _
    omega
  unfold FmtState.directive
  dsimp only
  rw [if_neg (by decide), if_neg (by decide), if_neg (by decide), if_pos rfl, front, dwordArg,
    Option.bind_some, CharBuffers.storeChar_eq (by omega), Option.map_some, converted_fits left one,
    if_pos rfl, List.append_nil]
  rfl

theorem directive_take {kind : ArgKind} {arg : Arg} {left : List Arg}
    (takes : wants state.modifier letter = some kind) (front : state.args = arg :: left)
    (same : arg.kind = kind) (empty : state.buffer[state.outIndex]? = some 0) :
    state.directive bufferLength letter =
      some (state.converted letter (arg.text letter) (bufferLength - state.outIndex) left) := by
  rcases wants_cases takes with ⟨rfl, rfl⟩ | ⟨rfl, rfl⟩ | ⟨rfl, rfl⟩ | ⟨rfl, rfl⟩
  · cases arg with
    | dword value => exact directive_decimal room inside value front
    | qword => cases same
    | string => cases same
  · by_cases longLong : state.modifier = .longLong
    · rw [if_pos longLong] at same
      cases arg with
      | dword => cases same
      | qword value =>
          apply directive_hex room inside value rfl
          rw [if_pos longLong, front]
          rfl
      | string => cases same
    · rw [if_neg longLong] at same
      cases arg with
      | dword value =>
          apply directive_hex room inside value.toUInt64
          · rw [UInt32.toNat_toUInt64]
            rfl
          · rw [if_neg longLong, front]
            rfl
      | qword => cases same
      | string => cases same
  · cases arg with
    | dword => cases same
    | qword => cases same
    | string value => exact directive_string room inside value empty front
  · cases arg with
    | dword value => exact directive_char room inside value front
    | qword => cases same
    | string => cases same

end

theorem directive_mistyped (bufferLength : Nat) {kind : ArgKind}
    (takes : wants state.modifier letter = some kind)
    (differs : ∀ arg left, state.args = arg :: left → arg.kind ≠ kind) :
    state.directive bufferLength letter = none := by
  have noDword : kind = .dword → dwordArg state.args = none := by
    rintro rfl
    cases args : state.args with
    | nil => rfl
    | cons arg left =>
        cases arg with
        | dword => exact absurd rfl (differs _ _ args)
        | qword => rfl
        | string => rfl
  have noQword : kind = .qword → qwordArg state.args = none := by
    rintro rfl
    cases args : state.args with
    | nil => rfl
    | cons arg left =>
        cases arg with
        | dword => rfl
        | qword => exact absurd rfl (differs _ _ args)
        | string => rfl
  have noString : kind = .string → stringArg state.args = none := by
    rintro rfl
    cases args : state.args with
    | nil => rfl
    | cons arg left =>
        cases arg with
        | dword => rfl
        | qword => rfl
        | string => exact absurd rfl (differs _ _ args)
  unfold FmtState.directive
  dsimp only
  rcases wants_cases takes with ⟨rfl, same⟩ | ⟨rfl, same⟩ | ⟨rfl, same⟩ | ⟨rfl, same⟩
  · rw [if_pos rfl, noDword same]
    rfl
  · rw [if_neg (by decide), if_pos rfl]
    by_cases longLong : state.modifier = .longLong
    · rw [if_pos longLong] at same ⊢
      rw [noQword same]
      rfl
    · rw [if_neg longLong] at same ⊢
      rw [noDword same]
      rfl
  · rw [if_neg (by decide), if_neg (by decide), if_pos rfl, noString same]
    rfl
  · rw [if_neg (by decide), if_neg (by decide), if_neg (by decide), if_pos rfl, noDword same]
    rfl

theorem fits_skip {own : Modifier} (takes : wants own letter = none) (room : Nat)
    (modifier : Modifier) (pieces : List Piece) (args : List Arg) :
    Fits (room + 1) modifier (.directive own letter :: pieces) args ↔
      Fits (room + 1) (own.over modifier) pieces args := by
  simp only [Fits, takes]

theorem fits_take {own : Modifier} {kind : ArgKind} (takes : wants own letter = some kind)
    (room : Nat) (modifier : Modifier) (pieces : List Piece) (arg : Arg) (left : List Arg) :
    Fits (room + 1) modifier (.directive own letter :: pieces) (arg :: left) ↔
      ¬Leaks modifier own letter ∧ advance letter (arg.text letter).length (room + 1) ≤ room + 1 ∧
        Fits (room + 1 - advance letter (arg.text letter).length (room + 1)) (own.over modifier)
          pieces left := by
  simp only [Fits, takes]

def FmtState.begun (state : FmtState) (own : Modifier) : FmtState :=
  { state with
    modifier := own.over state.modifier
    buffer := overwrite state.buffer state.outIndex [0] }

section

variable (inside : state.outIndex < state.buffer.length)

include inside

theorem begun_length (own : Modifier) : (state.begun own).buffer.length = state.buffer.length :=
  CharBuffers.overwrite_length inside

theorem converted_length (own : Modifier) (letter : UInt8) (text : List UInt8) {room : Nat}
    (left : List Arg)
    (fits : state.outIndex + room ≤ state.buffer.length) :
    ((state.begun own).converted letter text room left).buffer.length = state.buffer.length := by
  have begun := begun_length inside own
  rw [← begun]
  exact written_length (begun ▸ fits)

theorem turn_char (bufferLength : Nat) (ordinary : UInt8) :
    (Piece.char ordinary).turn bufferLength state =
      some { state with
        outIndex := state.outIndex + 1
        buffer := overwrite state.buffer state.outIndex [ordinary] } := by
  have cleared : (overwrite state.buffer state.outIndex [0]).length = state.buffer.length :=
    CharBuffers.overwrite_length inside
  have rewritten : overwrite (overwrite state.buffer state.outIndex [0]) state.outIndex [ordinary] =
      overwrite state.buffer state.outIndex [ordinary] :=
    CharBuffers.overwrite_overwrite (Nat.le_of_lt inside) (Nat.le_refl _)
  unfold Piece.turn
  rw [CharBuffers.storeChar_eq inside, Option.bind_some]
  unfold FmtState.putChar
  dsimp only
  rw [CharBuffers.storeChar_eq (by omega), rewritten]
  rfl

theorem turn_directive (bufferLength : Nat) (own : Modifier) (letter : UInt8) :
    (Piece.directive own letter).turn bufferLength state =
      (state.begun own).directive bufferLength letter := by
  unfold Piece.turn
  rw [CharBuffers.storeChar_eq inside]
  rfl

theorem turn_cut (bufferLength : Nat) : Piece.cut.turn bufferLength state = none := by
  unfold Piece.turn
  rw [CharBuffers.storeChar_eq inside]
  rfl

theorem turn_skip (bufferLength : Nat) {own : Modifier} (takes : wants own letter = none) :
    (Piece.directive own letter).turn bufferLength state = some (state.begun own) := by
  have kept : ¬Leaks state.modifier own letter := by
    intro leaks
    rw [(wants_leaks leaks).1] at takes
    cases takes
  rw [turn_directive inside]
  exact directive_skip bufferLength ((wants_over kept).trans takes)

theorem turn_leaks (bufferLength : Nat) {own : Modifier} {arg : Arg} {left : List Arg}
    (leaks : Leaks state.modifier own letter) (front : state.args = arg :: left)
    (same : arg.kind = .dword) : (Piece.directive own letter).turn bufferLength state = none := by
  rw [turn_directive inside]
  apply directive_mistyped bufferLength (wants_leaks leaks).2
  intro other rest here
  cases front.symm.trans here
  rw [same]
  decide

theorem turn_take {own : Modifier} {kind : ArgKind} {arg : Arg} {left : List Arg}
    (kept : ¬Leaks state.modifier own letter) (takes : wants own letter = some kind)
    (front : state.args = arg :: left) (same : arg.kind = kind)
    (full : state.outIndex < bufferLength) (size : bufferLength < state.buffer.length) :
    (Piece.directive own letter).turn bufferLength state =
      some ((state.begun own).converted letter (arg.text letter) (bufferLength - state.outIndex)
        left) := by
  have fullBegun : (state.begun own).outIndex < bufferLength := full
  have frontBegun : (state.begun own).args = arg :: left := front
  have takesBegun : wants (state.begun own).modifier letter = some kind :=
    (wants_over kept).trans takes
  have sizeBegun : bufferLength < (state.begun own).buffer.length := by
    rw [begun_length inside]
    exact size
  rw [turn_directive inside,
    directive_take fullBegun sizeBegun takesBegun frontBegun same (CharBuffers.overwrite_nul inside)]
  rfl

end

theorem run_full (pieces : List Piece) (full : ¬state.outIndex < bufferLength) :
    Piece.run bufferLength pieces state = some state := by
  cases pieces with
  | nil => rfl
  | cons piece pieces => exact if_neg full

/-- The run over the pieces ends in the buffer exactly when it starts there and they fit. -/
theorem run_inside (pieces : List Piece) (state : FmtState) (bufferLength : Nat)
    (size : state.buffer.length = bufferLength + 1) (suits : Matches pieces state.args) :
    (∃ final, Piece.run bufferLength pieces state = some final ∧
        final.outIndex < final.buffer.length) ↔
      state.outIndex ≤ bufferLength ∧
        Fits (bufferLength - state.outIndex) state.modifier pieces state.args := by
  induction pieces generalizing state with
  | nil =>
      constructor
      · rintro ⟨final, ⟨⟩, inBuffer⟩
        exact ⟨by omega, by unfold Fits; trivial⟩
      · rintro ⟨within, -⟩
        exact ⟨state, rfl, by omega⟩
  | cons piece pieces ih =>
      by_cases full : state.outIndex < bufferLength
      · obtain ⟨room, left⟩ : ∃ room, bufferLength - state.outIndex = room + 1 :=
          ⟨bufferLength - state.outIndex - 1, by omega⟩
        have inside : state.outIndex < state.buffer.length := by omega
        rw [and_iff_right (Nat.le_of_lt full), left, Piece.run, if_pos full]
        cases piece with
        | char ordinary =>
            have less : bufferLength - (state.outIndex + 1) = room := by omega
            have further := ih { state with
                outIndex := state.outIndex + 1
                buffer := overwrite state.buffer state.outIndex [ordinary] }
              ((CharBuffers.overwrite_length inside).trans size) suits
            dsimp only at further
            rw [and_iff_right (Nat.succ_le_of_lt full), less] at further
            rw [turn_char inside, Fits]
            exact further
        | cut =>
            rw [turn_cut inside]
            constructor
            · rintro ⟨final, impossible, -⟩
              cases impossible
            · intro impossible
              exact absurd impossible (by unfold Fits; exact not_false)
        | directive own letter =>
            cases takes : wants own letter with
            | none =>
                rw [Matches, takes] at suits
                have further := ih (state.begun own) ((begun_length inside own).trans size) suits
                change _ ↔ state.outIndex ≤ bufferLength ∧
                  Fits (bufferLength - state.outIndex) _ _ _ at further
                rw [and_iff_right (Nat.le_of_lt full), left] at further
                rw [turn_skip inside bufferLength takes, fits_skip takes]
                exact further
            | some kind =>
                rw [Matches, takes] at suits
                obtain ⟨arg, rest, front, same, suits⟩ := suits
                rw [front, fits_take takes]
                by_cases leaks : Leaks state.modifier own letter
                · have dword : arg.kind = .dword := by
                    rw [(wants_leaks leaks).1] at takes
                    cases takes
                    exact same
                  rw [turn_leaks inside bufferLength leaks front dword]
                  constructor
                  · rintro ⟨final, impossible, -⟩
                    cases impossible
                  · intro fits
                    exact absurd leaks fits.1
                · rw [turn_take inside leaks takes front same full (by omega), left, Option.bind_some,
                    and_iff_right leaks]
                  have length := converted_length inside own letter (arg.text letter) rest
                    (by omega : state.outIndex + (room + 1) ≤ state.buffer.length)
                  have place : state.outIndex + advance letter (arg.text letter).length (room + 1) ≤
                      bufferLength ↔ advance letter (arg.text letter).length (room + 1) ≤ room + 1 := by
                    omega
                  have further := ih ((state.begun own).converted letter (arg.text letter)
                    (room + 1) rest) (length.trans size) suits
                  change _ ↔ state.outIndex + advance letter (arg.text letter).length (room + 1) ≤
                    bufferLength ∧ Fits (bufferLength - (state.outIndex +
                      advance letter (arg.text letter).length (room + 1))) _ _ _ at further
                  rw [← Nat.sub_sub, left, place] at further
                  exact further
      · rw [run_full _ full]
        constructor
        · rintro ⟨final, ⟨⟩, inBuffer⟩
          have none : bufferLength - state.outIndex = 0 := by omega
          rw [none]
          exact ⟨by omega, by unfold Fits; trivial⟩
        · rintro ⟨within, -⟩
          exact ⟨state, rfl, by omega⟩

/-- The formatter stays inside the buffer and the format exactly when the pieces fit. -/
theorem vasfmt_inside (fmt : CString) (args : List Arg) (buffer : List UInt8)
    (positive : 0 < buffer.length) (suits : Matches (pieces fmt.text) args) :
    StaysInside fmt args buffer ↔ Fits (buffer.length - 1) .none (pieces fmt.text) args := by
  have bounded := fmt.bounded
  have ran := fmtLoop_eq_run fmt (buffer.length - 1) (Nat.zero_le _)
    (by omega : fmt.text.length - 0 < 2 ^ 32) ⟨0, .none, buffer, args⟩
  rw [List.drop_zero] at ran
  have inside := run_inside (pieces fmt.text) ⟨0, .none, buffer, args⟩ (buffer.length - 1)
    (by dsimp only; omega) suits
  dsimp only at inside
  rw [and_iff_right (Nat.zero_le _), Nat.sub_zero] at inside
  rw [← inside]
  unfold StaysInside vasfmt
  rw [if_pos (by omega), Int.toNat_natCast, ran]
  constructor
  · rintro ⟨outIndex, after, ended, -⟩
    obtain ⟨final, isFinal, stored⟩ := Option.bind_eq_some_iff.mp ended
    refine ⟨final, isFinal, ?_⟩
    by_contra outside
    rw [CharBuffers.storeChar_outside (Nat.le_of_not_lt outside)] at stored
    cases stored
  · rintro ⟨final, ended, room⟩
    refine ⟨final.outIndex, overwrite final.buffer final.outIndex [0], ?_, CharBuffers.overwrite_nul room⟩
    rw [ended, Option.bind_some, CharBuffers.storeChar_eq room]
    rfl

/-- A number and a string that has no room. -/
theorem vasfmt_inside_number :
    StaysInside ⟨[37, 100, 37, 115], by decide, by decide⟩
      [.dword 7, .string ⟨[97, 98], by decide, by decide⟩] [1, 2, 3, 4] := by
  refine (vasfmt_inside ⟨[37, 100, 37, 115], by decide, by decide⟩
    [.dword 7, .string ⟨[97, 98], by decide, by decide⟩] [1, 2, 3, 4] (by decide) ?_).mpr ?_
  · exact ⟨_, _, rfl, rfl, _, _, rfl, rfl, rfl⟩
  · exact ⟨by decide, by decide, by decide, by decide, trivial⟩

/-- A hexadecimal text that is one longer than the room for it. -/
theorem vasfmt_passes_end :
    ¬∀ (fmt : CString) (args : List Arg) (buffer : List UInt8), 0 < buffer.length →
      Matches (pieces fmt.text) args → StaysInside fmt args buffer := by
  intro always
  obtain ⟨outIndex, after, ended, -⟩ := always ⟨[37, 120], by decide, by decide⟩ [.dword 0xbeef]
    [1, 2, 3, 4] (by decide) ⟨_, _, rfl, rfl, rfl⟩
  have passed : vasfmt [1, 2, 3, 4] 4 ⟨[37, 120], by decide, by decide⟩ [.dword 0xbeef] = none := by
    rfl
  have impossible := passed.symm.trans ended
  cases impossible

end DoggOS.KString

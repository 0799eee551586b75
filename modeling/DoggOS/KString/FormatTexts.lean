/-
What `k_vasfmt` shows of complete directives.

A directive that takes an argument shows the text of the argument where it finds
the room that it asks for, one or two bytes more than the text.  Where it does
not, a string or a decimal number is left out, and a hexadecimal number leaves
the bytes that were in the buffer.
-/

import DoggOS.KString.FormatBounds

namespace DoggOS.KString

/-- The text that `k_vasfmt` leaves in a buffer, up to `out_index`. -/
def fmtText (buffer : List UInt8) (fmt : CString) (args : List Arg) : Option (List UInt8) :=
  (vasfmt buffer buffer.length fmt args).map fun outcome => outcome.2.take outcome.1

/-- An ordinary character or one of the directives `%d`, `%x`, `%ld`, `%lx`, `%llx`, `%s` and
`%c`. -/
def Complete : Piece → Prop
  | .char _ => True
  | .directive modifier letter =>
      (modifier, letter) ∈
        [(.none, 'd'.toUInt8), (.none, 'x'.toUInt8), (.long, 'd'.toUInt8), (.long, 'x'.toUInt8),
          (.longLong, 'x'.toUInt8), (.none, 's'.toUInt8), (.none, 'c'.toUInt8)]
  | .cut => False

instance : DecidablePred Complete
  | .char _ => inferInstanceAs (Decidable True)
  | .directive _ _ => inferInstanceAs (Decidable (_ ∈ _))
  | .cut => inferInstanceAs (Decidable False)

def piecesText : List Piece → List Arg → List UInt8
  | [], _ => []
  | .char ordinary :: pieces, args => ordinary :: piecesText pieces args
  | .directive _ letter :: pieces, arg :: args => arg.text letter ++ piecesText pieces args
  | _ :: pieces, args => piecesText pieces args

/-- The room that the pieces leave. -/
def roomAfter : Nat → List Piece → List Arg → Nat
  | room, .char _ :: pieces, args => roomAfter (room - 1) pieces args
  | room, .directive _ letter :: pieces, arg :: args =>
      roomAfter (room - advance letter (arg.text letter).length room) pieces args
  | room, _, _ => room

def Piece.modifier : Piece → Modifier
  | .directive modifier _ => modifier
  | _ => .none

inductive Suited : List Piece → List Arg → Prop
  | nil : Suited [] []
  | char (ordinary : UInt8) {pieces : List Piece} {args : List Arg} (rest : Suited pieces args) :
      Suited (.char ordinary :: pieces) args
  | directive {own : Modifier} {letter : UInt8} {kind : ArgKind} {arg : Arg}
      (takes : wants own letter = some kind) (same : arg.kind = kind) {pieces : List Piece}
      {args : List Arg} (rest : Suited pieces args) :
      Suited (.directive own letter :: pieces) (arg :: args)

theorem complete_wants {own : Modifier} {letter : UInt8} (complete : Complete (.directive own letter)) :
    ∃ kind, wants own letter = some kind := by
  unfold Complete at complete
  simp only [List.mem_cons, Prod.mk.injEq, List.not_mem_nil, or_false] at complete
  rcases complete with ⟨rfl, rfl⟩ | ⟨rfl, rfl⟩ | ⟨rfl, rfl⟩ | ⟨rfl, rfl⟩ | ⟨rfl, rfl⟩ | ⟨rfl, rfl⟩ |
    ⟨rfl, rfl⟩ <;> exact ⟨_, rfl⟩

theorem suited_of_matches {pieces : List Piece} {args : List Arg}
    (complete : ∀ piece ∈ pieces, Complete piece) (suits : Matches pieces args) :
    Suited pieces args := by
  induction pieces generalizing args with
  | nil =>
      cases suits
      exact Suited.nil
  | cons piece pieces ih =>
      have others : ∀ piece ∈ pieces, Complete piece :=
        fun other member => complete other (List.mem_cons_of_mem _ member)
      have first := complete piece List.mem_cons_self
      cases piece with
      | char ordinary => exact Suited.char ordinary (ih others suits)
      | directive own letter =>
          obtain ⟨kind, takes⟩ := complete_wants first
          rw [Matches, takes] at suits
          obtain ⟨arg, left, rfl, same, rest⟩ := suits
          exact Suited.directive takes same (ih others rest)
      | cut => cases first

theorem piecesFrom_append (behind : Option Modifier) (first second : List UInt8)
    (whole : Piece.cut ∉ piecesFrom behind first) :
    piecesFrom behind (first ++ second) = piecesFrom behind first ++ pieces second := by
  induction first generalizing behind with
  | nil =>
      cases behind with
      | none => rfl
      | some modifier => exact absurd List.mem_cons_self whole
  | cons char first ih =>
      cases behind with
      | none =>
          rw [List.cons_append, piecesFrom, piecesFrom]
          rw [piecesFrom] at whole
          by_cases percent : char = '%'.toUInt8
          · rw [if_pos percent] at whole ⊢
            rw [if_pos percent, ih _ whole]
          · rw [if_neg percent] at whole ⊢
            rw [if_neg percent, ih _ (fun member => whole (List.mem_cons_of_mem _ member)),
              List.cons_append]
      | some modifier =>
          rw [List.cons_append, piecesFrom, piecesFrom]
          rw [piecesFrom] at whole
          by_cases long : char = 'l'.toUInt8 ∧ modifier ≠ .longLong
          · rw [if_pos long] at whole ⊢
            rw [if_pos long, ih _ whole]
          · rw [if_neg long] at whole ⊢
            rw [if_neg long, ih _ (fun member => whole (List.mem_cons_of_mem _ member)),
              List.cons_append]

def LeaksFrom : Modifier → List Piece → Prop
  | _, [] => False
  | modifier, piece :: pieces =>
      piece = .directive .none 'x'.toUInt8 ∧ modifier = .longLong ∨
        LeaksFrom (piece.modifier.over modifier) pieces

theorem over_assoc (first second third : Modifier) :
    first.over (second.over third) = (first.over second).over third := by
  cases first <;> rfl

theorem LeaksFrom.over {modifier : Modifier} {pieces : List Piece}
    (leaks : LeaksFrom modifier pieces) (previous : Modifier) :
    LeaksFrom (modifier.over previous) pieces := by
  induction pieces generalizing modifier with
  | nil => cases leaks
  | cons piece pieces ih =>
      cases leaks with
      | inl here =>
          obtain ⟨rfl, rfl⟩ := here
          exact Or.inl ⟨rfl, rfl⟩
      | inr later =>
          have same := ih later
          rw [← over_assoc] at same
          exact Or.inr same

theorem leaksFrom_append (modifier : Modifier) (first second : List Piece) :
    LeaksFrom modifier (first ++ second) ↔ LeaksFrom modifier first ∨
      LeaksFrom (first.foldl (fun previous piece => piece.modifier.over previous) modifier) second := by
  induction first generalizing modifier with
  | nil =>
      constructor
      · exact Or.inr
      · rintro (impossible | leaks)
        · cases impossible
        · exact leaks
  | cons piece first ih =>
      rw [List.cons_append, LeaksFrom, LeaksFrom, ih, or_assoc]
      rfl

variable {bufferLength : Nat}

/-- The text that is in the buffer up to `out_index`. -/
def FmtState.text (state : FmtState) : List UInt8 := state.buffer.take state.outIndex

def FmtState.withArgs (state : FmtState) (args : List Arg) : FmtState := { state with args }

def FmtState.ended (state : FmtState) : Option (List UInt8) :=
  (storeChar state.buffer state.outIndex 0).map fun buffer => buffer.take state.outIndex

theorem ended_eq {state : FmtState} (inside : state.outIndex < state.buffer.length) :
    state.ended = some state.text := by
  unfold FmtState.ended
  rw [CharBuffers.storeChar_eq inside, Option.map_some,
    CharBuffers.take_overwrite_of_le (Nat.le_refl _) (Nat.le_of_lt inside)]
  rfl

def runText (bufferLength : Nat) (pieces : List Piece) (state : FmtState) : Option (List UInt8) :=
  (Piece.run bufferLength pieces state).bind FmtState.ended

theorem runText_full {state : FmtState} (pieces : List Piece) (full : ¬state.outIndex < bufferLength)
    (inside : state.outIndex < state.buffer.length) :
    runText bufferLength pieces state = some state.text := by
  unfold runText
  rw [run_full pieces full]
  exact ended_eq inside

theorem runText_turn {state next : FmtState} {piece : Piece} (room : state.outIndex < bufferLength)
    (turned : piece.turn bufferLength state = some next) (pieces : List Piece) :
    runText bufferLength (piece :: pieces) state = runText bufferLength pieces next := by
  unfold runText
  rw [Piece.run, if_pos room, turned, Option.bind_some]

theorem advance_le (letter : UInt8) (length room : Nat) : advance letter length room ≤ length := by
  unfold advance
  split_ifs <;> omega

theorem need_le (letter : UInt8) (length : Nat) :
    length ≤ need letter length ∧ need letter length ≤ length + 2 := by
  unfold need
  split_ifs <;> omega

theorem need_le_succ {letter : UInt8} (number : letter ≠ 's'.toUInt8) (length : Nat) :
    need letter length ≤ length + 1 := by
  unfold need
  rw [if_neg number]
  split_ifs <;> omega

structure Shown (bufferLength : Nat) (state next : FmtState) (own : Modifier) (letter : UInt8)
    (text : List UInt8) : Prop where
  modifier : next.modifier = own.over state.modifier
  size : next.buffer.length = bufferLength + 1
  outIndex : next.outIndex =
    state.outIndex + advance letter text.length (bufferLength - state.outIndex)
  front : next.buffer.take state.outIndex = state.text
  fits : need letter text.length ≤ bufferLength - state.outIndex → next.text = state.text ++ text
  short : 0 < text.length → ¬need letter text.length ≤ bufferLength - state.outIndex →
    next.buffer[state.outIndex]? = some 0

theorem shown_silent {state : FmtState} (size : state.buffer.length = bufferLength + 1)
    (own : Modifier) (letter : UInt8) :
    Shown bufferLength state { state with modifier := own.over state.modifier } own letter [] := by
  have none : advance letter 0 (bufferLength - state.outIndex) = 0 :=
    Nat.le_zero.mp (advance_le letter 0 _)
  exact ⟨rfl, size, by rw [List.length_nil, none, Nat.add_zero], rfl,
    fun _ => (List.append_nil _).symm, fun positive => absurd positive (Nat.lt_irrefl 0)⟩

theorem shown_converted {state : FmtState} (size : state.buffer.length = bufferLength + 1)
    (room : state.outIndex < bufferLength) (own : Modifier) (letter : UInt8) (text : List UInt8)
    (left : List Arg) (fitting : text.length ≤ bufferLength - state.outIndex) :
    Shown bufferLength state
      ((state.begun own).converted letter text (bufferLength - state.outIndex) left) own letter
      text := by
  have inside : state.outIndex < state.buffer.length := by omega
  have length := converted_length inside own letter text left
    (by omega : state.outIndex + (bufferLength - state.outIndex) ≤ state.buffer.length)
  have begun : (state.begun own).buffer.length = state.buffer.length := begun_length inside own
  have unchanged : (state.begun own).buffer.take state.outIndex = state.text :=
    CharBuffers.take_overwrite_of_le (Nat.le_refl _) (Nat.le_of_lt inside)
  have kept : ((state.begun own).converted letter text (bufferLength - state.outIndex)
      left).buffer.take state.outIndex = state.text := by
    unfold FmtState.converted written
    dsimp only
    by_cases fits : need letter text.length ≤ bufferLength - state.outIndex
    · rw [if_pos fits, ← unchanged]
      exact CharBuffers.take_overwrite_of_le (Nat.le_refl _) (by rw [begun]; exact Nat.le_of_lt inside)
    · rw [if_neg fits]
      exact unchanged
  refine ⟨rfl, length.trans size, rfl, kept, ?_, ?_⟩
  · intro fits
    have place : state.outIndex + text.length ≤ (state.begun own).buffer.length := by omega
    rw [converted_fits left fits, ← unchanged]
    exact CharBuffers.take_overwrite_append place
  · intro _ short
    unfold FmtState.converted written
    dsimp only
    rw [if_neg short]
    exact CharBuffers.overwrite_nul inside

theorem runText_directive {own : Modifier} {letter : UInt8} {kind : ArgKind} {arg : Arg}
    (takes : wants own letter = some kind) (same : arg.kind = kind) {state : FmtState}
    (size : state.buffer.length = bufferLength + 1) (within : state.outIndex ≤ bufferLength)
    (kept : ¬Leaks state.modifier own letter)
    (fitting : (arg.text letter).length ≤ bufferLength - state.outIndex) :
    ∃ next, Shown bufferLength state next own letter (arg.text letter) ∧
      ∀ left pieces, runText bufferLength (.directive own letter :: pieces)
          (state.withArgs (arg :: left)) = runText bufferLength pieces (next.withArgs left) := by
  by_cases room : state.outIndex < bufferLength
  · refine ⟨_, shown_converted size room own letter (arg.text letter) [] fitting, ?_⟩
    intro left pieces
    have inside : (state.withArgs (arg :: left)).outIndex <
        (state.withArgs (arg :: left)).buffer.length := by
      change state.outIndex < state.buffer.length
      omega
    have full : (state.withArgs (arg :: left)).outIndex < bufferLength := room
    have turned := turn_take inside kept takes rfl same full (size ▸ Nat.lt_succ_self bufferLength)
    exact runText_turn full turned pieces
  · have empty : arg.text letter = [] := List.length_eq_zero_iff.mp (by omega)
    refine ⟨_, empty ▸ shown_silent size own letter, ?_⟩
    intro left pieces
    have inside : state.outIndex < state.buffer.length := by omega
    have full : ¬(state.withArgs (arg :: left)).outIndex < bufferLength := room
    have next : ¬(FmtState.withArgs { state with modifier := own.over state.modifier }
        left).outIndex < bufferLength := room
    rw [runText_full _ full inside, runText_full pieces next inside]
    rfl

theorem runText_char {state : FmtState} (size : state.buffer.length = bufferLength + 1)
    (room : state.outIndex < bufferLength) (ordinary : UInt8) :
    ∃ next : FmtState, next.modifier = state.modifier ∧ next.buffer.length = bufferLength + 1 ∧
      next.outIndex = state.outIndex + 1 ∧ next.text = state.text ++ [ordinary] ∧
      ∀ args pieces, runText bufferLength (.char ordinary :: pieces) (state.withArgs args) =
        runText bufferLength pieces (next.withArgs args) := by
  have inside : state.outIndex < state.buffer.length := by omega
  refine ⟨{ state with
      outIndex := state.outIndex + 1
      buffer := overwrite state.buffer state.outIndex [ordinary] },
    rfl, (CharBuffers.overwrite_length inside).trans size, rfl, ?_, ?_⟩
  · have taken : (overwrite state.buffer state.outIndex [ordinary]).take
        (state.outIndex + [ordinary].length) = state.text ++ [ordinary] :=
      CharBuffers.take_overwrite (Nat.le_of_lt inside)
    exact taken
  · intro args pieces
    have full : (state.withArgs args).outIndex < bufferLength := room
    have insideArgs : (state.withArgs args).outIndex < (state.withArgs args).buffer.length := inside
    exact runText_turn full (turn_char insideArgs bufferLength ordinary) pieces

section Rooms

variable {pieces : List Piece} {args : List Arg}

theorem roomAfter_le (suited : Suited pieces args) (room : Nat) :
    roomAfter room pieces args ≤ room := by
  induction suited generalizing room with
  | nil => exact Nat.le_refl _
  | char ordinary rest ih => exact (ih _).trans (Nat.sub_le _ _)
  | directive takes same rest ih => exact (ih _).trans (Nat.sub_le _ _)

theorem le_roomAfter (suited : Suited pieces args) (room : Nat) :
    room ≤ roomAfter room pieces args + (piecesText pieces args).length := by
  induction suited generalizing room with
  | nil => exact Nat.le_add_right _ _
  | char ordinary rest ih =>
      have further := ih (room - 1)
      rw [roomAfter, piecesText, List.length_cons]
      omega
  | @directive own letter kind arg takes same pieces args rest ih =>
      have further := ih (room - advance letter (arg.text letter).length room)
      have most := advance_le letter (arg.text letter).length room
      rw [roomAfter, piecesText, List.length_append]
      omega

/-- What a directive gains by finding its room is more than what the pieces behind it lose. -/
theorem roomAfter_gain (suited : Suited pieces args) {letter : UInt8} {length small large : Nat}
    (positive : 0 < length) (fitting : length + (piecesText pieces args).length ≤ small)
    (short : ¬need letter length ≤ small) (fits : need letter length ≤ large)
    (mono : ∀ less more, (piecesText pieces args).length ≤ less → less ≤ more →
      less + roomAfter more pieces args ≤ more + roomAfter less pieces args) :
    small + roomAfter (large - length) pieces args < large + roomAfter small pieces args := by
  have most := (need_le letter length).2
  have least := (need_le letter length).1
  have bound := roomAfter_le suited (large - length)
  have behind := le_roomAfter suited small
  by_cases one : length = 1
  · have further := mono small (large - length) (by omega) (by omega)
    omega
  · omega

theorem roomAfter_mono (suited : Suited pieces args) {less more : Nat}
    (fitting : (piecesText pieces args).length ≤ less) (ordered : less ≤ more) :
    less + roomAfter more pieces args ≤ more + roomAfter less pieces args := by
  induction suited generalizing less more with
  | nil =>
      change less + more ≤ more + less
      omega
  | char ordinary rest ih =>
      rw [piecesText, List.length_cons] at fitting
      have further := @ih (less - 1) (more - 1) (by omega) (by omega)
      rw [roomAfter, roomAfter]
      omega
  | @directive own letter kind arg takes same pieces args rest ih =>
      rw [piecesText, List.length_append] at fitting
      rw [roomAfter, roomAfter]
      by_cases empty : (arg.text letter).length = 0
      · have none : ∀ room, advance letter (arg.text letter).length room = 0 := fun room =>
          Nat.le_zero.mp (empty ▸ advance_le letter _ room)
        rw [none, none]
        exact ih (by omega) ordered
      by_cases shown : letter = 'x'.toUInt8 ∨ need letter (arg.text letter).length ≤ less
      · have shownMore : letter = 'x'.toUInt8 ∨ need letter (arg.text letter).length ≤ more :=
          shown.imp_right fun fits => fits.trans ordered
        have further := @ih (less - (arg.text letter).length) (more - (arg.text letter).length)
          (by omega) (by omega)
        unfold advance
        rw [if_pos shown, if_pos shownMore]
        omega
      · have short := fun fits => shown (Or.inr fits)
        by_cases fits : need letter (arg.text letter).length ≤ more
        · have gain := roomAfter_gain rest (Nat.pos_of_ne_zero empty) fitting short fits
            fun _ _ => ih
          unfold advance
          rw [if_neg shown, if_pos (Or.inr fits), Nat.sub_zero]
          exact Nat.le_of_lt gain
        · unfold advance
          rw [if_neg shown, if_neg fun either => either.elim (fun isHex => shown (Or.inl isHex)) fits]
          exact ih (by omega) ordered

end Rooms

theorem runText_append {pieces : List Piece} {args : List Arg} (suited : Suited pieces args)
    {state : FmtState} (size : state.buffer.length = bufferLength + 1)
    (within : state.outIndex ≤ bufferLength)
    (fitting : (piecesText pieces args).length ≤ bufferLength - state.outIndex)
    (kept : ¬LeaksFrom state.modifier pieces) :
    ∃ next : FmtState, next.buffer.length = bufferLength + 1 ∧
      next.outIndex = bufferLength - roomAfter (bufferLength - state.outIndex) pieces args ∧
      next.buffer.take state.outIndex = state.text ∧
      next.modifier =
        pieces.foldl (fun previous piece => piece.modifier.over previous) state.modifier ∧
      ∀ left behind, runText bufferLength (pieces ++ behind) (state.withArgs (args ++ left)) =
        runText bufferLength behind (next.withArgs left) := by
  induction suited generalizing state with
  | nil => exact ⟨state, size, (Nat.sub_sub_self within).symm, rfl, rfl, fun _ _ => rfl⟩
  | @char ordinary pieces args rest ih =>
      rw [piecesText, List.length_cons] at fitting
      obtain ⟨next, modifier, nextSize, outIndex, text, goesOn⟩ :=
        runText_char size (by omega) ordinary
      obtain ⟨last, lastSize, lastIndex, front, lastModifier, behind⟩ := ih nextSize (by omega)
        (by omega) (fun leaks => kept (Or.inr (modifier ▸ leaks)))
      refine ⟨last, lastSize, ?_, ?_, ?_, ?_⟩
      · rw [lastIndex, outIndex, roomAfter, Nat.sub_sub]
      · have shorter := congrArg (List.take state.outIndex) front
        rw [List.take_take, outIndex, Nat.min_eq_left (Nat.le_succ _), text] at shorter
        rw [shorter]
        exact List.take_left' (by unfold FmtState.text; rw [List.length_take]; omega)
      · rw [lastModifier, modifier]
        rfl
      · intro left others
        rw [List.cons_append, goesOn, behind]
  | @directive own letter kind arg takes same pieces args rest ih =>
      rw [piecesText, List.length_append] at fitting
      have notHere : ¬Leaks state.modifier own letter := by
        rintro ⟨rfl, rfl, longLong⟩
        exact kept (Or.inl ⟨rfl, longLong⟩)
      obtain ⟨next, shown, goesOn⟩ := runText_directive takes same size within notHere (by omega)
      have most := advance_le letter (arg.text letter).length (bufferLength - state.outIndex)
      have outIndex := shown.outIndex
      obtain ⟨last, lastSize, lastIndex, front, lastModifier, behind⟩ := ih shown.size (by omega)
        (by omega) (fun leaks => kept (Or.inr (shown.modifier ▸ leaks)))
      refine ⟨last, lastSize, ?_, ?_, ?_, ?_⟩
      · rw [lastIndex, outIndex, roomAfter, Nat.sub_sub]
      · have shorter := congrArg (List.take state.outIndex) front
        have later : state.outIndex ≤ next.outIndex := outIndex ▸ Nat.le_add_right _ _
        unfold FmtState.text at shorter
        rw [List.take_take, List.take_take, Nat.min_eq_left later, shown.front] at shorter
        exact shorter
      · rw [lastModifier, shown.modifier]
        rfl
      · intro left others
        rw [List.cons_append, List.cons_append, goesOn, behind]

theorem runText_walk {pieces : List Piece} {args : List Arg} (suited : Suited pieces args)
    {state : FmtState} (size : state.buffer.length = bufferLength + 1)
    (within : state.outIndex ≤ bufferLength)
    (fitting : (piecesText pieces args).length ≤ bufferLength - state.outIndex)
    (kept : ¬LeaksFrom state.modifier pieces) :
    ∃ text, runText bufferLength pieces (state.withArgs args) = some text ∧
      text.length = bufferLength - roomAfter (bufferLength - state.outIndex) pieces args ∧
      text.take state.outIndex = state.text := by
  obtain ⟨next, nextSize, outIndex, front, -, behind⟩ :=
    runText_append suited size within fitting kept
  have ran := behind [] []
  rw [List.append_nil, List.append_nil] at ran
  have later : state.outIndex ≤ next.outIndex := by
    have most := roomAfter_le suited (bufferLength - state.outIndex)
    omega
  refine ⟨next.text, ran.trans (ended_eq ?_), ?_, ?_⟩
  · change next.outIndex < next.buffer.length
    omega
  · unfold FmtState.text
    rw [List.length_take]
    omega
  · unfold FmtState.text at front ⊢
    rw [List.take_take, Nat.min_eq_left later, front]

theorem Shown.stays {state next : FmtState} {own : Modifier} {letter : UInt8} {text : List UInt8}
    (shown : Shown bufferLength state next own letter text)
    (none : advance letter text.length (bufferLength - state.outIndex) = 0) :
    next.outIndex = state.outIndex ∧ next.text = state.text := by
  have outIndex := shown.outIndex
  rw [none, Nat.add_zero] at outIndex
  refine ⟨outIndex, ?_⟩
  rw [← shown.front, ← outIndex]
  rfl

theorem advance_fits {letter : UInt8} {length room : Nat} (fits : need letter length ≤ room) :
    advance letter length room = length :=
  if_pos (Or.inr fits)

theorem text_length {state : FmtState} (size : state.buffer.length = bufferLength + 1)
    (within : state.outIndex ≤ bufferLength) : state.text.length = state.outIndex := by
  unfold FmtState.text
  rw [List.length_take]
  omega

theorem text_pos {own : Modifier} {letter : UInt8} {kind : ArgKind} {arg : Arg}
    (takes : wants own letter = some kind) (same : arg.kind = kind)
    (number : letter ≠ 's'.toUInt8) : 0 < (arg.text letter).length := by
  have base : 1 < 16 := by omega
  cases arg with
  | dword value =>
      unfold Arg.text
      split_ifs
      · exact Numerals.decimalText_pos _
      · exact Nat.one_pos
      · exact Numerals.numeral_pos base _
  | qword value => exact Numerals.numeral_pos base _
  | string value =>
      rcases wants_cases takes with ⟨-, rfl⟩ | ⟨-, isKind⟩ | ⟨isString, -⟩ | ⟨-, rfl⟩
      · cases same
      · rw [isKind] at same
        split_ifs at same <;> cases same
      · exact absurd isString number
      · cases same

theorem hexText_noNul {own : Modifier} {kind : ArgKind} {arg : Arg}
    (takes : wants own 'x'.toUInt8 = some kind) (same : arg.kind = kind) :
    0 ∉ arg.text 'x'.toUInt8 := by
  cases arg with
  | dword value => exact Numerals.hexadecimal_noNul value.toNat
  | qword value => exact Numerals.hexadecimal_noNul value.toNat
  | string value =>
      rcases wants_cases takes with ⟨isDecimal, -⟩ | ⟨-, isKind⟩ | ⟨isString, -⟩ | ⟨isChar, -⟩
      · exact absurd isDecimal (by decide)
      · rw [isKind] at same
        split_ifs at same <;> cases same
      · exact absurd isString (by decide)
      · exact absurd isChar (by decide)

/-- With a leak an argument of another type is taken. -/
theorem runText_leaks {pieces : List Piece} {args : List Arg} (suited : Suited pieces args)
    {state : FmtState} (size : state.buffer.length = bufferLength + 1)
    (within : state.outIndex ≤ bufferLength)
    (fitting : (piecesText pieces args).length ≤ bufferLength - state.outIndex)
    (leaks : LeaksFrom state.modifier pieces) :
    runText bufferLength pieces (state.withArgs args) = none := by
  induction suited generalizing state with
  | nil => cases leaks
  | @char ordinary pieces args rest ih =>
      rw [piecesText, List.length_cons] at fitting
      obtain ⟨next, modifier, nextSize, outIndex, -, goesOn⟩ :=
        runText_char size (by omega) ordinary
      rw [goesOn]
      refine ih nextSize (by omega) (by omega) ?_
      cases leaks with
      | inl here => cases here.1
      | inr later => exact modifier ▸ later
  | @directive own letter kind arg takes same pieces args rest ih =>
      rw [piecesText, List.length_append] at fitting
      by_cases here : Leaks state.modifier own letter
      · have positive := text_pos takes same (by rw [here.1]; decide)
        have room : (state.withArgs (arg :: args)).outIndex < bufferLength := by
          change state.outIndex < bufferLength
          omega
        have inside : (state.withArgs (arg :: args)).outIndex <
            (state.withArgs (arg :: args)).buffer.length := room.trans (size ▸ Nat.lt_succ_self _)
        have dword : arg.kind = .dword := by
          rw [(wants_leaks here).1] at takes
          cases takes
          exact same
        unfold runText
        rw [Piece.run, if_pos room, turn_leaks inside bufferLength here rfl dword]
        rfl
      · obtain ⟨next, shown, goesOn⟩ := runText_directive takes same size within here (by omega)
        have most := advance_le letter (arg.text letter).length (bufferLength - state.outIndex)
        have outIndex := shown.outIndex
        rw [goesOn]
        refine ih shown.size (by omega) (by omega) ?_
        cases leaks with
        | inl now =>
            obtain ⟨isHex, longLong⟩ := now
            cases isHex
            exact absurd ⟨rfl, rfl, longLong⟩ here
        | inr later =>
            rw [shown.modifier]
            exact later

/-- Each turn clears the byte where it starts. -/
theorem runText_cleared {state : FmtState} (inside : state.outIndex < state.buffer.length)
    (pieces : List Piece) :
    runText bufferLength pieces
        { state with buffer := overwrite state.buffer state.outIndex [0] } =
      runText bufferLength pieces state := by
  have sameText : (overwrite state.buffer state.outIndex [0]).take state.outIndex = state.text :=
    CharBuffers.take_overwrite_of_le (Nat.le_refl _) (Nat.le_of_lt inside)
  by_cases room : state.outIndex < bufferLength
  · cases pieces with
    | nil =>
        have length : (overwrite state.buffer state.outIndex [0]).length = state.buffer.length :=
          CharBuffers.overwrite_length inside
        have ended := ended_eq (show FmtState.outIndex
          { state with buffer := overwrite state.buffer state.outIndex [0] } < _ from
            lt_of_lt_of_eq inside length.symm)
        exact (ended.trans (congrArg some sameText)).trans (ended_eq inside).symm
    | cons piece pieces =>
        have length : (overwrite state.buffer state.outIndex [0]).length = state.buffer.length :=
          CharBuffers.overwrite_length inside
        have again : overwrite (overwrite state.buffer state.outIndex [0]) state.outIndex [0] =
            overwrite state.buffer state.outIndex [0] :=
          CharBuffers.overwrite_overwrite (Nat.le_of_lt inside) (Nat.le_refl _)
        unfold runText
        rw [Piece.run, if_pos room, Piece.run, if_pos room]
        unfold Piece.turn
        dsimp only
        rw [CharBuffers.storeChar_eq (length.symm ▸ inside), again, CharBuffers.storeChar_eq inside]
  · have full : ¬FmtState.outIndex
        { state with buffer := overwrite state.buffer state.outIndex [0] } < bufferLength := room
    rw [runText_full pieces room inside, runText_full pieces full
      (lt_of_lt_of_eq inside (CharBuffers.overwrite_length inside).symm)]
    exact congrArg some sameText

theorem turn_silent {state : FmtState} {arg : Arg} (inside : state.outIndex < state.buffer.length)
    (empty : arg.text 's'.toUInt8 = []) (same : arg.kind = .string)
    (room : state.outIndex < bufferLength) (size : state.buffer.length = bufferLength + 1)
    (left : List Arg) :
    (Piece.directive .none 's'.toUInt8).turn bufferLength (state.withArgs (arg :: left)) =
      some (FmtState.withArgs
        { state with buffer := overwrite state.buffer state.outIndex [0] } left) := by
  have insideArgs : (state.withArgs (arg :: left)).outIndex <
      (state.withArgs (arg :: left)).buffer.length := inside
  have full : (state.withArgs (arg :: left)).outIndex < bufferLength := room
  have kept : ¬Leaks (state.withArgs (arg :: left)).modifier .none 's'.toUInt8 :=
    fun leaks => absurd leaks.1 (by decide)
  have again : overwrite (overwrite state.buffer state.outIndex [0]) state.outIndex [0] =
      overwrite state.buffer state.outIndex [0] :=
    CharBuffers.overwrite_overwrite (Nat.le_of_lt inside) (Nat.le_refl _)
  rw [turn_take insideArgs kept rfl rfl same full (size ▸ Nat.lt_succ_self bufferLength), empty]
  by_cases fits : need 's'.toUInt8 ([] : List UInt8).length ≤
      bufferLength - (state.withArgs (arg :: left)).outIndex
  · rw [converted_fits left fits, List.nil_append, if_neg (by decide)]
    unfold FmtState.begun FmtState.withArgs
    dsimp only
    rw [again]
    rfl
  · rw [converted_short left (by decide) fits]
    rfl

theorem runText_silent {pieces : List Piece} {args : List Arg} (suited : Suited pieces args)
    (complete : ∀ piece ∈ pieces, Complete piece) (silent : piecesText pieces args = [])
    {state : FmtState} (size : state.buffer.length = bufferLength + 1)
    (within : state.outIndex ≤ bufferLength) (left : List Arg) (behind : List Piece) :
    runText bufferLength (pieces ++ behind) (state.withArgs (args ++ left)) =
      runText bufferLength behind (state.withArgs left) := by
  induction suited generalizing state with
  | nil => rfl
  | char ordinary rest ih => cases silent
  | @directive own letter kind arg takes same pieces args rest ih =>
      obtain ⟨none, others⟩ := List.append_eq_nil_iff.mp silent
      have isString : letter = 's'.toUInt8 := by
        by_contra number
        have positive := text_pos takes same number
        rw [none] at positive
        exact absurd positive (Nat.lt_irrefl 0)
      have plain : own = .none := by
        have first := complete _ List.mem_cons_self
        rw [isString] at first
        revert first
        cases own <;> decide
      subst isString plain
      cases takes
      by_cases room : state.outIndex < bufferLength
      · have inside : state.outIndex < state.buffer.length := by omega
        have roomArgs : (state.withArgs (arg :: (args ++ left))).outIndex < bufferLength := room
        have insideLeft : (state.withArgs left).outIndex < (state.withArgs left).buffer.length :=
          inside
        have further := @ih (fun piece member => complete piece (List.mem_cons_of_mem _ member)) others
          { state with buffer := overwrite state.buffer state.outIndex [0] }
          ((CharBuffers.overwrite_length inside).trans size) within
        rw [List.cons_append, List.cons_append,
          runText_turn roomArgs (turn_silent inside none same room size (args ++ left)), further]
        exact runText_cleared insideLeft behind
      · have full : ∀ others, ¬(state.withArgs others).outIndex < bufferLength := fun _ => room
        have inside : ∀ others, (state.withArgs others).outIndex < (state.withArgs others).buffer.length :=
          fun _ => size ▸ Nat.lt_succ_of_le within
        rw [runText_full _ (full _) (inside _), runText_full _ (full _) (inside _)]
        rfl

theorem fmtText_eq (fmt : CString) (args : List Arg) {buffer : List UInt8}
    (positive : 0 < buffer.length) :
    fmtText buffer fmt args =
      runText (buffer.length - 1) (pieces fmt.text) (FmtState.withArgs ⟨0, .none, buffer, []⟩ args) := by
  have bounded := fmt.bounded
  have ran := fmtLoop_eq_run fmt (buffer.length - 1) (Nat.zero_le _)
    (by omega : fmt.text.length - 0 < 2 ^ 32) ⟨0, .none, buffer, args⟩
  rw [List.drop_zero] at ran
  unfold fmtText vasfmt runText
  rw [if_pos (by omega), Int.toNat_natCast, ran, Option.map_bind]
  congr 1
  funext final
  unfold FmtState.ended
  rw [Function.comp_apply, Option.map_map]
  rfl

end DoggOS.KString

/-
Formats behind each other.

A format of complete directives is taken apart in the same way whatever stands
behind it, so its text comes first.  The directives behind it start with the
modifier that it leaves and the room that it leaves.  Only `%x` without a
modifier of its own looks at the modifier, and a `%llx` before it is what it
must not see.  The room only matters at the end of a tight buffer, because the
conversions ask for one or two bytes more than they write.
-/

import DoggOS.KString.FormatTexts

namespace DoggOS.KString

/-- Each conversion with a text finds its room in both walks over the pieces, or in neither. -/
def SameRoom : Nat → Nat → List Piece → List Arg → Prop
  | alone, behind, .char _ :: pieces, args => SameRoom (alone - 1) (behind - 1) pieces args
  | alone, behind, .directive _ letter :: pieces, arg :: args =>
      let length := (arg.text letter).length
      (0 < length → (need letter length ≤ alone ↔ need letter length ≤ behind)) ∧
        SameRoom (alone - advance letter length alone) (behind - advance letter length behind)
          pieces args
  | _, _, _, _ => True

def lastModifier (pieces : List Piece) : Modifier :=
  pieces.foldl (fun previous piece => piece.modifier.over previous) .none

/-- Some `%x` without a modifier stands behind a `%llx`, with no other modifier between them. -/
def HasLeak (pieces : List Piece) : Prop :=
  ∃ before after, pieces = before ++ .directive .none 'x'.toUInt8 :: after ∧
    lastModifier before = .longLong

/-- The text of the two formats together is the one text and then the other. -/
def Joins (first second whole : CString) (firstArgs secondArgs : List Arg)
    (buffer : List UInt8) : Prop :=
  ∃ firstText secondText, fmtText buffer first firstArgs = some firstText ∧
    fmtText buffer second secondArgs = some secondText ∧
    fmtText buffer whole (firstArgs ++ secondArgs) = some (firstText ++ secondText)

theorem leaksFrom_iff (modifier : Modifier) (pieces : List Piece) :
    LeaksFrom modifier pieces ↔
      ∃ before after, pieces = before ++ .directive .none 'x'.toUInt8 :: after ∧
        before.foldl (fun previous piece => piece.modifier.over previous) modifier = .longLong := by
  induction pieces generalizing modifier with
  | nil =>
      constructor
      · intro impossible
        cases impossible
      · rintro ⟨before, after, split, -⟩
        cases before <;> cases split
  | cons piece pieces ih =>
      rw [LeaksFrom, ih]
      constructor
      · rintro (⟨rfl, longLong⟩ | ⟨before, after, rfl, longLong⟩)
        · exact ⟨[], pieces, rfl, longLong⟩
        · exact ⟨piece :: before, after, rfl, longLong⟩
      · rintro ⟨before, after, split, longLong⟩
        cases before with
        | nil =>
            cases split
            exact Or.inl ⟨rfl, longLong⟩
        | cons other before =>
            cases split
            exact Or.inr ⟨before, after, rfl, longLong⟩

variable {bufferLength : Nat}

section Together

variable {pieces : List Piece} {args : List Arg} {front : List UInt8} {behind alone : FmtState}

theorem sameRoom_refl (suited : Suited pieces args) (room : Nat) :
    SameRoom room room pieces args := by
  induction suited generalizing room with
  | nil => trivial
  | char ordinary rest ih => exact ih _
  | directive takes same rest ih => exact ⟨fun _ => Iff.rfl, ih _⟩

/-- A hexadecimal text that has room only where it stands alone starts with a NUL behind the
front. -/
theorem hex_differs {own : Modifier} {kind : ArgKind} {arg : Arg} {behind' alone' : FmtState}
    (takes : wants own 'x'.toUInt8 = some kind) (same : arg.kind = kind)
    (behindSize : behind.buffer.length = bufferLength + 1)
    (aloneSize : alone.buffer.length = bufferLength + 1)
    (behindWithin : behind.outIndex ≤ bufferLength) (aloneWithin : alone.outIndex ≤ bufferLength)
    (texts : behind.text = front ++ alone.text)
    (shown : Shown bufferLength behind behind' own 'x'.toUInt8 (arg.text 'x'.toUInt8))
    (shownAlone : Shown bufferLength alone alone' own 'x'.toUInt8 (arg.text 'x'.toUInt8))
    (short : ¬need 'x'.toUInt8 (arg.text 'x'.toUInt8).length ≤ bufferLength - behind.outIndex)
    (fits : need 'x'.toUInt8 (arg.text 'x'.toUInt8).length ≤ bufferLength - alone.outIndex)
    {one two : List UInt8} (oneFront : one.take behind'.outIndex = behind'.text)
    (twoFront : two.take alone'.outIndex = alone'.text) : one ≠ front ++ two := by
  intro equal
  have positive := text_pos takes same (by decide)
  have place := congrArg List.length texts
  rw [List.length_append, text_length behindSize behindWithin, text_length aloneSize aloneWithin]
    at place
  have later : behind.outIndex < behind'.outIndex := by
    have moved := shown.outIndex
    unfold advance at moved
    rw [if_pos (Or.inl rfl)] at moved
    omega
  have laterAlone : alone.outIndex < alone'.outIndex := by
    have moved := shownAlone.outIndex
    rw [advance_fits fits] at moved
    omega
  have nul : one[behind.outIndex]? = some 0 := by
    rw [← List.getElem?_take_of_lt later, oneFront]
    unfold FmtState.text
    rw [List.getElem?_take_of_lt later]
    exact shown.short positive short
  have digit : two[alone.outIndex]? = (arg.text 'x'.toUInt8)[0]? := by
    have length := text_length aloneSize aloneWithin
    rw [← List.getElem?_take_of_lt laterAlone, twoFront, shownAlone.fits fits,
      List.getElem?_append_right (by omega), length, Nat.sub_self]
  rw [equal, place, List.getElem?_append_right (Nat.le_add_right _ _), Nat.add_sub_cancel_left,
    digit] at nul
  exact hexText_noNul takes same (List.mem_of_getElem? nul)

theorem shown_differs {own : Modifier} {letter : UInt8} {kind : ArgKind} {arg : Arg}
    {behind' alone' : FmtState} (takes : wants own letter = some kind) (same : arg.kind = kind)
    (rest : Suited pieces args) (behindSize : behind.buffer.length = bufferLength + 1)
    (aloneSize : alone.buffer.length = bufferLength + 1)
    (behindWithin : behind.outIndex ≤ bufferLength) (aloneWithin : alone.outIndex ≤ bufferLength)
    (texts : behind.text = front ++ alone.text)
    (fitting : (arg.text letter).length + (piecesText pieces args).length ≤
      bufferLength - behind.outIndex)
    (shown : Shown bufferLength behind behind' own letter (arg.text letter))
    (shownAlone : Shown bufferLength alone alone' own letter (arg.text letter))
    (positive : 0 < (arg.text letter).length)
    (short : ¬need letter (arg.text letter).length ≤ bufferLength - behind.outIndex)
    (fits : need letter (arg.text letter).length ≤ bufferLength - alone.outIndex)
    {one two : List UInt8} (oneFront : one.take behind'.outIndex = behind'.text)
    (twoFront : two.take alone'.outIndex = alone'.text)
    (oneLength : one.length = bufferLength - roomAfter (bufferLength - behind'.outIndex) pieces args)
    (twoLength : two.length = bufferLength - roomAfter (bufferLength - alone'.outIndex) pieces args) :
    one ≠ front ++ two := by
  by_cases isHex : letter = 'x'.toUInt8
  · subst isHex
    exact hex_differs takes same behindSize aloneSize behindWithin aloneWithin texts shown shownAlone
      short fits oneFront twoFront
  · intro equal
    have none : advance letter (arg.text letter).length (bufferLength - behind.outIndex) = 0 :=
      if_neg fun either => either.elim isHex short
    have outIndex := (shown.stays none).1
    have outIndexAlone := shownAlone.outIndex
    rw [advance_fits fits] at outIndexAlone
    have place := congrArg List.length texts
    rw [List.length_append, text_length behindSize behindWithin, text_length aloneSize aloneWithin]
      at place
    have gain := roomAfter_gain rest positive fitting short fits fun _ _ => roomAfter_mono rest
    have bound := roomAfter_le rest (bufferLength - behind.outIndex)
    have boundAlone := roomAfter_le rest (bufferLength - alone.outIndex - (arg.text letter).length)
    have lengths := congrArg List.length equal
    rw [List.length_append, oneLength, twoLength, outIndex, outIndexAlone, ← Nat.sub_sub] at lengths
    omega

/-- A text is shown in both places or in neither, or only where it stands alone. -/
theorem shown_together {own : Modifier} {letter : UInt8} {text : List UInt8}
    {behind' alone' : FmtState} (texts : behind.text = front ++ alone.text)
    (shown : Shown bufferLength behind behind' own letter text)
    (shownAlone : Shown bufferLength alone alone' own letter text)
    (less : bufferLength - behind.outIndex ≤ bufferLength - alone.outIndex)
    (spare : text.length < bufferLength - alone.outIndex) :
    (behind'.text = front ++ alone'.text ∧
      (0 < text.length → (need letter text.length ≤ bufferLength - alone.outIndex ↔
        need letter text.length ≤ bufferLength - behind.outIndex))) ∨
      (0 < text.length ∧ ¬need letter text.length ≤ bufferLength - behind.outIndex ∧
        need letter text.length ≤ bufferLength - alone.outIndex) := by
  by_cases empty : text.length = 0
  · have none : ∀ room, advance letter text.length room = 0 := fun room =>
      Nat.le_zero.mp (empty ▸ advance_le letter _ room)
    refine .inl ⟨?_, fun positive => absurd empty (Nat.ne_of_gt positive)⟩
    rw [(shown.stays (none _)).2, (shownAlone.stays (none _)).2, texts]
  by_cases fits : need letter text.length ≤ bufferLength - behind.outIndex
  · have fitsAlone := fits.trans less
    refine .inl ⟨?_, fun _ => iff_of_true fitsAlone fits⟩
    rw [shown.fits fits, shownAlone.fits fitsAlone, texts, List.append_assoc]
  by_cases fitsAlone : need letter text.length ≤ bufferLength - alone.outIndex
  · exact .inr ⟨Nat.pos_of_ne_zero empty, fits, fitsAlone⟩
  · -- only a string can lack room alone, and then nothing is written in either place
    have isString : letter = 's'.toUInt8 := by
      by_contra number
      have enough := need_le_succ number text.length
      omega
    have noHex : letter ≠ 'x'.toUInt8 := by
      rw [isString]
      decide
    refine .inl ⟨?_, fun _ => iff_of_false fitsAlone fits⟩
    rw [(shown.stays (if_neg fun either => either.elim noHex fits)).2,
      (shownAlone.stays (if_neg fun either => either.elim noHex fitsAlone)).2, texts]

/-- Pieces behind a text show the same as alone exactly when each text finds its room in both
places or in neither. -/
theorem runText_agree (suited : Suited pieces args)
    (behindSize : behind.buffer.length = bufferLength + 1)
    (aloneSize : alone.buffer.length = bufferLength + 1)
    (behindWithin : behind.outIndex ≤ bufferLength)
    (texts : behind.text = front ++ alone.text)
    (fitting : (piecesText pieces args).length ≤ bufferLength - behind.outIndex)
    (spare : (piecesText pieces args).length < bufferLength - alone.outIndex)
    (behindKept : ¬LeaksFrom behind.modifier pieces) (aloneKept : ¬LeaksFrom alone.modifier pieces) :
    ∃ one two, runText bufferLength pieces (behind.withArgs args) = some one ∧
      runText bufferLength pieces (alone.withArgs args) = some two ∧
      (one = front ++ two ↔
        SameRoom (bufferLength - alone.outIndex) (bufferLength - behind.outIndex) pieces args) := by
  induction suited generalizing behind alone with
  | nil =>
      have inside : (behind.withArgs []).outIndex < (behind.withArgs []).buffer.length := by
        change behind.outIndex < behind.buffer.length
        omega
      have insideAlone : (alone.withArgs []).outIndex < (alone.withArgs []).buffer.length := by
        change alone.outIndex < alone.buffer.length
        omega
      exact ⟨_, _, ended_eq inside, ended_eq insideAlone, iff_of_true texts trivial⟩
  | @char ordinary pieces args rest ih =>
      rw [piecesText, List.length_cons] at fitting spare
      obtain ⟨behind', modifier, size, outIndex, text, goesOn⟩ :=
        runText_char behindSize (by omega) ordinary
      obtain ⟨alone', modifierAlone, sizeAlone, outIndexAlone, textAlone, goesOnAlone⟩ :=
        runText_char aloneSize (by omega) ordinary
      rw [goesOn, goesOnAlone, SameRoom, Nat.sub_sub, Nat.sub_sub, ← outIndex, ← outIndexAlone]
      exact ih size sizeAlone (by omega) (by rw [text, textAlone, texts, List.append_assoc])
        (by omega) (by omega) (fun leaks => behindKept (Or.inr (modifier ▸ leaks)))
        (fun leaks => aloneKept (Or.inr (modifierAlone ▸ leaks)))
  | @directive own letter kind arg takes same pieces args rest ih =>
      rw [piecesText, List.length_append] at fitting spare
      have aloneWithin : alone.outIndex ≤ bufferLength := by omega
      have place := congrArg List.length texts
      rw [List.length_append, text_length behindSize behindWithin,
        text_length aloneSize aloneWithin] at place
      have behindNot : ¬Leaks behind.modifier own letter := by
        rintro ⟨rfl, rfl, longLong⟩
        exact behindKept (Or.inl ⟨rfl, longLong⟩)
      have aloneNot : ¬Leaks alone.modifier own letter := by
        rintro ⟨rfl, rfl, longLong⟩
        exact aloneKept (Or.inl ⟨rfl, longLong⟩)
      obtain ⟨behind', shown, goesOn⟩ := runText_directive takes same behindSize behindWithin behindNot (by omega)
      obtain ⟨alone', shownAlone, goesOnAlone⟩ :=
        runText_directive takes same aloneSize aloneWithin aloneNot (by omega)
      have kept := fun leaks => behindKept (Or.inr (shown.modifier ▸ leaks))
      have keptAlone := fun leaks => aloneKept (Or.inr (shownAlone.modifier ▸ leaks))
      have most := advance_le letter (arg.text letter).length (bufferLength - behind.outIndex)
      have mostAlone := advance_le letter (arg.text letter).length (bufferLength - alone.outIndex)
      have outIndex := shown.outIndex
      have outIndexAlone := shownAlone.outIndex
      rw [goesOn, goesOnAlone, SameRoom, Nat.sub_sub, Nat.sub_sub, ← outIndex, ← outIndexAlone]
      rcases shown_together texts shown shownAlone (by omega) (by omega) with
        ⟨texts', passes⟩ | ⟨positive, short, fits⟩
      · obtain ⟨one, two, ran, ranAlone, alike⟩ := ih shown.size shownAlone.size (by omega) texts'
          (by omega) (by omega) kept keptAlone
        exact ⟨one, two, ran, ranAlone, alike.trans (and_iff_right passes).symm⟩
      · obtain ⟨one, ran, oneLength, oneFront⟩ :=
          runText_walk rest shown.size (by omega) (by omega) kept
        obtain ⟨two, ranAlone, twoLength, twoFront⟩ :=
          runText_walk rest shownAlone.size (by omega) (by omega) keptAlone
        exact ⟨one, two, ran, ranAlone, iff_of_false
          (shown_differs takes same rest behindSize aloneSize behindWithin aloneWithin texts fitting
            shown shownAlone positive short fits oneFront twoFront oneLength twoLength)
          fun both => short ((both.1 positive).mp fits)⟩

end Together

section

variable {first second : List Piece} {firstArgs secondArgs : List Arg}

theorem suited_append (suited : Suited first firstArgs) (other : Suited second secondArgs) :
    Suited (first ++ second) (firstArgs ++ secondArgs) := by
  induction suited with
  | nil => exact other
  | char ordinary rest ih => exact .char ordinary ih
  | directive takes same rest ih => exact .directive takes same ih

theorem piecesText_append (suited : Suited first firstArgs) :
    piecesText (first ++ second) (firstArgs ++ secondArgs) =
      piecesText first firstArgs ++ piecesText second secondArgs := by
  induction suited with
  | nil => rfl
  | char ordinary rest ih => exact congrArg (ordinary :: ·) ih
  | directive takes same rest ih =>
      rw [List.cons_append, List.cons_append, piecesText, ih, piecesText, List.append_assoc]

/-- Without a leak both formats have a text, and so have the two together. -/
theorem runText_joins (firstSuited : Suited first firstArgs)
    (secondSuited : Suited second secondArgs) (complete : ∀ piece ∈ first, Complete piece)
    {start : FmtState} (size : start.buffer.length = bufferLength + 1) (fresh : start.outIndex = 0)
    (plain : start.modifier = .none) (kept : ¬LeaksFrom .none (first ++ second))
    (large : (piecesText first firstArgs).length + (piecesText second secondArgs).length ≤
      bufferLength) :
    ∃ one two both, runText bufferLength first (start.withArgs firstArgs) = some one ∧
      runText bufferLength second (start.withArgs secondArgs) = some two ∧
      runText bufferLength (first ++ second) (start.withArgs (firstArgs ++ secondArgs)) =
        some both ∧
      (both = one ++ two ↔
        SameRoom bufferLength (roomAfter bufferLength first firstArgs) second secondArgs) := by
  have startText : start.text = [] := by
    rw [FmtState.text, fresh]
    exact List.take_zero
  have apart := (leaksFrom_append .none first second).not.mp kept
  have firstKept : ¬LeaksFrom start.modifier first := plain ▸ fun leaks => apart (.inl leaks)
  have secondKept : ¬LeaksFrom start.modifier second :=
    plain ▸ fun leaks => apart (.inr (leaks.over _))
  obtain ⟨mid, midSize, midIndex, -, midModifier, goesOn⟩ :=
    runText_append firstSuited size (by omega) (by omega) firstKept
  have most := roomAfter_le firstSuited bufferLength
  have least := le_roomAfter firstSuited bufferLength
  rw [fresh, Nat.sub_zero] at midIndex
  rw [plain] at midModifier
  have firstText : runText bufferLength first (start.withArgs firstArgs) = some mid.text := by
    have inside : (mid.withArgs []).outIndex < (mid.withArgs []).buffer.length := by
      change mid.outIndex < mid.buffer.length
      omega
    have ends := goesOn [] []
    rw [List.append_nil, List.append_nil] at ends
    exact ends.trans (ended_eq inside)
  by_cases silent : (piecesText first firstArgs).length = 0
  · have noText : mid.text = [] :=
      List.length_eq_zero_iff.mp ((text_length midSize (by omega)).trans (by omega))
    have all : roomAfter bufferLength first firstArgs = bufferLength := by omega
    obtain ⟨secondText, shown, -, -⟩ :=
      runText_walk secondSuited size (by omega) (by omega) secondKept
    have through := runText_silent firstSuited complete (List.length_eq_zero_iff.mp silent) size
      (by omega) secondArgs second
    rw [all]
    refine ⟨mid.text, secondText, secondText, firstText, shown, through.trans shown, ?_⟩
    rw [noText]
    exact iff_of_true rfl (sameRoom_refl secondSuited _)
  · obtain ⟨behind, alone, shownBehind, shownAlone, agree⟩ :=
      runText_agree secondSuited midSize size (by omega)
        (by rw [startText, List.append_nil]) (by omega) (by omega)
        (midModifier ▸ fun leaks => apart (.inr leaks)) secondKept
    rw [fresh, Nat.sub_zero, show bufferLength - mid.outIndex =
      roomAfter bufferLength first firstArgs by omega] at agree
    exact ⟨mid.text, alone, behind, firstText, shownAlone,
      (goesOn secondArgs second).trans shownBehind, agree⟩

end

/-- The texts of two formats join exactly when no `%x` without a modifier of its own stands behind
a `%llx`, and the second finds the same room behind the first as alone. -/
theorem vasfmt_joins (first second whole : CString) (firstArgs secondArgs : List Arg)
    (buffer : List UInt8) (joined : whole.text = first.text ++ second.text)
    (firstComplete : ∀ piece ∈ pieces first.text, Complete piece)
    (secondComplete : ∀ piece ∈ pieces second.text, Complete piece)
    (firstSuits : Matches (pieces first.text) firstArgs)
    (secondSuits : Matches (pieces second.text) secondArgs)
    (large : (piecesText (pieces first.text) firstArgs).length +
      (piecesText (pieces second.text) secondArgs).length + 1 ≤ buffer.length) :
    Joins first second whole firstArgs secondArgs buffer ↔
      ¬HasLeak (pieces whole.text) ∧
        SameRoom (buffer.length - 1) (roomAfter (buffer.length - 1) (pieces first.text) firstArgs)
          (pieces second.text) secondArgs := by
  obtain ⟨bufferLength, size⟩ : ∃ bufferLength, buffer.length = bufferLength + 1 :=
    ⟨buffer.length - 1, by omega⟩
  have firstSuited := suited_of_matches firstComplete firstSuits
  have secondSuited := suited_of_matches secondComplete secondSuits
  have noCut : Piece.cut ∉ pieces first.text := fun member => firstComplete _ member
  have split : pieces whole.text = pieces first.text ++ pieces second.text := by
    rw [joined]
    exact piecesFrom_append none first.text second.text noCut
  have roomy : buffer.length - 1 = bufferLength := by omega
  obtain ⟨start, isStart⟩ : ∃ start : FmtState, start = ⟨0, .none, buffer, []⟩ := ⟨_, rfl⟩
  have startSize : start.buffer.length = bufferLength + 1 := isStart ▸ size
  have startIndex : start.outIndex = 0 := isStart ▸ rfl
  unfold Joins
  rw [fmtText_eq first firstArgs (by omega), fmtText_eq second secondArgs (by omega),
    fmtText_eq whole (firstArgs ++ secondArgs) (by omega), split, roomy, ← isStart]
  by_cases leak : HasLeak (pieces first.text ++ pieces second.text)
  · have leaks := (leaksFrom_iff _ _).mpr leak
    have mistyped := runText_leaks (suited_append firstSuited secondSuited) startSize (by omega)
      (by rw [piecesText_append firstSuited, List.length_append]; omega) (isStart ▸ leaks)
    refine iff_of_false ?_ fun both => both.1 leak
    rintro ⟨firstText, secondText, -, -, shown⟩
    rw [mistyped] at shown
    cases shown
  rw [and_iff_right leak]
  obtain ⟨one, two, both, ran, ranAlone, ranBoth, agree⟩ := runText_joins firstSuited secondSuited
    firstComplete startSize startIndex (isStart ▸ rfl) ((leaksFrom_iff _ _).not.mpr leak) (by omega)
  rw [ran, ranAlone, ranBoth, ← agree]
  constructor
  · rintro ⟨_, _, ⟨⟩, ⟨⟩, same⟩
    exact Option.some.inj same
  · intro same
    exact ⟨one, two, rfl, rfl, congrArg some same⟩

/-- `%llx` and then `%lx`. -/
theorem vasfmt_joins_long :
    Joins ⟨[37, 108, 108, 120], by decide, by decide⟩ ⟨[37, 108, 120], by decide, by decide⟩
      ⟨[37, 108, 108, 120, 37, 108, 120], by decide, by decide⟩ [.qword 10] [.dword 11]
      (List.replicate 8 7) := by
  refine (vasfmt_joins ⟨[37, 108, 108, 120], by decide, by decide⟩
    ⟨[37, 108, 120], by decide, by decide⟩
    ⟨[37, 108, 108, 120, 37, 108, 120], by decide, by decide⟩ [.qword 10] [.dword 11]
    (List.replicate 8 7) rfl (by decide) (by decide) ⟨_, _, rfl, rfl, rfl⟩ ⟨_, _, rfl, rfl, rfl⟩
    (by decide)).mpr ⟨?_, fun _ => by decide, trivial⟩
  intro leak
  rcases (leaksFrom_iff .none _).mpr leak with ⟨here, -⟩ | ⟨here, -⟩ | impossible
  · cases here
  · cases here
  · cases impossible

/-- `%llx` and then `%x`. -/
theorem vasfmt_joins_leak :
    ¬∀ (first second whole : CString) (firstArgs secondArgs : List Arg) (buffer : List UInt8),
      whole.text = first.text ++ second.text → (∀ piece ∈ pieces first.text, Complete piece) →
      (∀ piece ∈ pieces second.text, Complete piece) → Matches (pieces first.text) firstArgs →
      Matches (pieces second.text) secondArgs →
      (piecesText (pieces first.text) firstArgs).length +
        (piecesText (pieces second.text) secondArgs).length + 1 ≤ buffer.length →
      Joins first second whole firstArgs secondArgs buffer := by
  intro always
  obtain ⟨firstText, secondText, -, -, written⟩ := always
    ⟨[37, 108, 108, 120], by decide, by decide⟩ ⟨[37, 120], by decide, by decide⟩
    ⟨[37, 108, 108, 120, 37, 120], by decide, by decide⟩ [.qword 10] [.dword 11]
    (List.replicate 8 7) rfl (by decide) (by decide) ⟨_, _, rfl, rfl, rfl⟩ ⟨_, _, rfl, rfl, rfl⟩
    (by decide)
  have mistyped : fmtText (List.replicate 8 7) ⟨[37, 108, 108, 120, 37, 120], by decide, by decide⟩
      [.qword 10, .dword 11] = none := by
    rfl
  have impossible := mistyped.symm.trans written
  cases impossible

/-- The letter a and then `%x`: in a buffer of six bytes the four digits have room alone only. -/
example : ¬Joins ⟨[97], by decide, by decide⟩ ⟨[37, 120], by decide, by decide⟩
    ⟨[97, 37, 120], by decide, by decide⟩ [] [.dword 0xbeef] (List.replicate 6 7) := by
  rintro ⟨firstText, secondText, one, two, whole⟩
  have short : fmtText (List.replicate 6 7) ⟨[97, 37, 120], by decide, by decide⟩ [.dword 0xbeef] =
      some [97, 0, 7, 7, 7] := by
    rfl
  cases one
  cases two
  cases short.symm.trans whole

end DoggOS.KString

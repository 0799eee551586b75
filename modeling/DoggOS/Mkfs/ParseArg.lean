/-
The arguments of a command of the file system tool.

`parse_arg` puts a NUL behind a name and behind a value and goes one character
further.  When the word ends at the NUL of the command it has then left the
command, and what it reads there is from an earlier one.  The buffer of the
tool has 0xffff bytes, so a cursor of 32 bits does not wrap.
-/

import DoggOS.Library.CharBuffers
import Mathlib.Data.List.TakeWhile
import Mathlib.Tactic.IntervalCases

namespace DoggOS.Mkfs

def skipWhile (keep : UInt8 → Bool) (cmdStr : List UInt8) : Nat → Nat → Option Nat
  | 0, _ => none
  | turns + 1, cursor =>
      cmdStr[cursor]?.bind fun char =>
        if keep char then skipWhile keep cmdStr turns (cursor + 1) else some cursor

def isSpace (char : UInt8) : Bool := char = ' '.toUInt8 && char ≠ 0

def inWord (char : UInt8) : Bool := char ≠ 0 && char ≠ '='.toUInt8 && char ≠ ' '.toUInt8

def skipSpaces (cmdStr : List UInt8) (cursor : Nat) : Option Nat :=
  skipWhile isSpace cmdStr (cmdStr.length + 1) cursor

def skipWord (cmdStr : List UInt8) (cursor : Nat) : Option Nat :=
  skipWhile inWord cmdStr (cmdStr.length + 1) cursor

/-- What `parse_arg` leaves; a pointer is an index into the buffer, or `none` for NULL. -/
structure ParsedArg where
  cmdStr : List UInt8
  argName : Option Nat
  argValue : Option Nat
  cursor : Nat
  deriving DecidableEq

/-- The part of `parse_arg` behind the name, from the character that ended it. -/
def parseValue (cmdStr : List UInt8) (argName cursor : Nat) : Option ParsedArg :=
  (storeChar cmdStr cursor 0).bind fun cmdStr =>
    (skipSpaces cmdStr (cursor + 1)).bind fun cursor =>
      cmdStr[cursor]?.bind fun char =>
        (if char = '='.toUInt8 then skipSpaces cmdStr (cursor + 1) else some cursor).bind
          fun cursor =>
            cmdStr[cursor]?.bind fun char =>
              if char ≠ 0 then
                (skipWord cmdStr cursor).bind fun stop =>
                  (storeChar cmdStr stop 0).map fun cmdStr =>
                    ⟨cmdStr, some argName, some cursor, stop + 1⟩
              else some ⟨cmdStr, some argName, none, cursor⟩

/-- `parse_arg` -/
def parseArg (cmdStr : List UInt8) (cursor : Nat) : Option ParsedArg :=
  (skipSpaces cmdStr cursor).bind fun cursor =>
    cmdStr[cursor]?.bind fun char =>
      if char ≠ 0 then
        (skipWord cmdStr cursor).bind fun stop => parseValue cmdStr cursor stop
      else some ⟨cmdStr, none, none, cursor⟩

def textAt (cmdStr : List UInt8) (pointer : Nat) : List UInt8 :=
  (cmdStr.drop pointer).takeWhile (· ≠ 0)

def afterName (rest : List UInt8) : List UInt8 := (rest.dropWhile isSpace).dropWhile inWord

def beforeValue (rest : List UInt8) : List UInt8 :=
  let next := (afterName rest).tail.dropWhile isSpace
  if next.head? = some '='.toUInt8 then next.tail.dropWhile isSpace else next

def afterValue (rest : List UInt8) : List UInt8 := (beforeValue rest).dropWhile inWord

/-- The rest of the command is blank, or a space or an equals sign stands behind its next name, and
behind the value of that as well if it has one. -/
def StaysInCommand (rest : List UInt8) : Prop :=
  rest.dropWhile isSpace = [] ∨
    afterName rest ≠ [] ∧ (beforeValue rest = [] ∨ afterValue rest ≠ [])

instance (rest : List UInt8) : Decidable (StaysInCommand rest) :=
  inferInstanceAs (Decidable (_ ∨ _ ∧ (_ ∨ _)))

/-- A call on two buffers with the same command gives the same texts, and the cursor and the command
are the same afterwards. -/
def IgnoresStale (first second : List UInt8) (cursor nul : Nat) : Prop :=
  ∃ one two, parseArg first cursor = some one ∧ parseArg second cursor = some two ∧
    one.argName.map (textAt one.cmdStr) = two.argName.map (textAt two.cmdStr) ∧
    one.argValue.map (textAt one.cmdStr) = two.argValue.map (textAt two.cmdStr) ∧
    one.cursor = two.cursor ∧ one.cursor ≤ nul ∧
    one.cmdStr.take (nul + 1) = two.cmdStr.take (nul + 1)

structure Ahead (cmdStr : List UInt8) (nul : Nat) (rest : List UInt8) : Prop where
  within : rest.length ≤ nul
  drop : ∃ behind, cmdStr.drop (nul - rest.length) = rest ++ 0 :: behind
  noNul : 0 ∉ rest

def parsedOf (cmdStr : List UInt8) (nul : Nat) (rest : List UInt8) : ParsedArg :=
  if rest.dropWhile isSpace = [] then ⟨cmdStr, none, none, nul⟩
  else
    let named := cmdStr.set (nul - (afterName rest).length) 0
    let argName := some (nul - (rest.dropWhile isSpace).length)
    if beforeValue rest = [] then ⟨named, argName, none, nul⟩
    else
      ⟨named.set (nul - (afterValue rest).length) 0, argName, some (nul - (beforeValue rest).length),
        nul - (afterValue rest).length + 1⟩

variable {cmdStr rest : List UInt8} {nul : Nat}

namespace Ahead

theorem char (ahead : Ahead cmdStr nul rest) :
    cmdStr[nul - rest.length]? = some (rest.head?.getD 0) := by
  obtain ⟨behind, drop⟩ := ahead.drop
  have front := congrArg List.head? drop
  rw [List.head?_drop] at front
  rw [front]
  cases rest <;> rfl

theorem head_ne_zero (ahead : Ahead cmdStr nul rest) (nonempty : rest ≠ []) :
    rest.head?.getD 0 ≠ 0 := by
  obtain ⟨char, others, rfl⟩ := List.exists_cons_of_ne_nil nonempty
  exact fun zero => ahead.noNul (zero ▸ List.mem_cons_self)

theorem nul_lt (ahead : Ahead cmdStr nul rest) : nul < cmdStr.length := by
  obtain ⟨behind, drop⟩ := ahead.drop
  have counted := congrArg List.length drop
  have within := ahead.within
  rw [List.length_drop, List.length_append, List.length_cons] at counted
  omega

theorem tail {char : UInt8} (ahead : Ahead cmdStr nul (char :: rest)) :
    Ahead cmdStr nul rest ∧ nul - (char :: rest).length + 1 = nul - rest.length := by
  obtain ⟨behind, drop⟩ := ahead.drop
  have within := ahead.within
  have place : nul - (char :: rest).length + 1 = nul - rest.length := by
    rw [List.length_cons] at within ⊢
    omega
  refine ⟨⟨Nat.le_of_succ_le within, ⟨behind, ?_⟩, fun member =>
    ahead.noNul (List.mem_cons_of_mem _ member)⟩, place⟩
  have further := congrArg List.tail drop
  rw [List.tail_drop, place] at further
  exact further

theorem skip (ahead : Ahead cmdStr nul rest) {keep : UInt8 → Bool} (keepNul : keep 0 = false)
    {turns : Nat} (enough : rest.length < turns) :
    skipWhile keep cmdStr turns (nul - rest.length) =
        some (nul - (rest.dropWhile keep).length) ∧
      Ahead cmdStr nul (rest.dropWhile keep) := by
  -- The induction is on the command, so at its end the cursor stands on the NUL.
  induction rest generalizing turns with
  | nil =>
      obtain ⟨turns, rfl⟩ := Nat.exists_eq_add_of_lt enough
      refine ⟨?_, ahead⟩
      rw [skipWhile, ahead.char, Option.bind_some]
      exact if_neg (by rw [List.head?_nil, Option.getD_none, keepNul]; exact Bool.false_ne_true)
  | cons char rest ih =>
      obtain ⟨turns, rfl⟩ := Nat.exists_eq_succ_of_ne_zero (Nat.ne_zero_of_lt enough)
      obtain ⟨further, place⟩ := ahead.tail
      rw [skipWhile, ahead.char, Option.bind_some, List.head?_cons, Option.getD_some,
        List.dropWhile_cons]
      by_cases kept : keep char = true
      · rw [if_pos kept, if_pos kept, place]
        exact ih further (Nat.lt_of_succ_lt_succ enough)
      · rw [if_neg kept, if_neg kept]
        exact ⟨rfl, ahead⟩

theorem skipSpaces (ahead : Ahead cmdStr nul rest) :
    skipSpaces cmdStr (nul - rest.length) = some (nul - (rest.dropWhile isSpace).length) ∧
      Ahead cmdStr nul (rest.dropWhile isSpace) := by
  have inside := ahead.nul_lt
  have within := ahead.within
  exact ahead.skip rfl (by omega)

theorem skipWord (ahead : Ahead cmdStr nul rest) :
    skipWord cmdStr (nul - rest.length) = some (nul - (rest.dropWhile inWord).length) ∧
      Ahead cmdStr nul (rest.dropWhile inWord) := by
  have inside := ahead.nul_lt
  have within := ahead.within
  exact ahead.skip rfl (by omega)

theorem store {char : UInt8} (ahead : Ahead cmdStr nul (char :: rest)) :
    storeChar cmdStr (nul - (char :: rest).length) 0 =
        some (cmdStr.set (nul - (char :: rest).length) 0) ∧
      Ahead (cmdStr.set (nul - (char :: rest).length) 0) nul rest := by
  have inside := ahead.nul_lt
  obtain ⟨further, place⟩ := ahead.tail
  obtain ⟨behind, drop⟩ := further.drop
  refine ⟨if_pos (by omega), further.within, ⟨behind, ?_⟩, further.noNul⟩
  rw [← place, List.drop_set_of_lt (Nat.lt_add_one _), place, drop]

end Ahead

theorem skipWhile_le {keep : UInt8 → Bool} {turns cursor stop : Nat}
    (ran : skipWhile keep cmdStr turns cursor = some stop) : cursor ≤ stop := by
  induction turns generalizing cursor with
  | zero => cases ran
  | succ turns ih =>
      obtain ⟨char, -, went⟩ := Option.bind_eq_some_iff.mp ran
      by_cases kept : keep char = true
      · rw [if_pos kept] at went
        exact Nat.le_of_succ_le (ih went)
      · rw [if_neg kept] at went
        cases went
        exact Nat.le_refl _

theorem parseValue_lt {argName cursor : Nat} {parsed : ParsedArg}
    (ran : parseValue cmdStr argName cursor = some parsed) : cursor < parsed.cursor := by
  obtain ⟨named, -, ran⟩ := Option.bind_eq_some_iff.mp ran
  obtain ⟨next, skipped, ran⟩ := Option.bind_eq_some_iff.mp ran
  obtain ⟨char, -, ran⟩ := Option.bind_eq_some_iff.mp ran
  obtain ⟨value, skippedToo, ran⟩ := Option.bind_eq_some_iff.mp ran
  obtain ⟨first, -, ran⟩ := Option.bind_eq_some_iff.mp ran
  have further := skipWhile_le skipped
  have furtherToo : next ≤ value := by
    by_cases equals : char = '='.toUInt8
    · rw [if_pos equals] at skippedToo
      exact Nat.le_of_succ_le (skipWhile_le skippedToo)
    · rw [if_neg equals] at skippedToo
      cases skippedToo
      exact Nat.le_refl _
  by_cases some : first ≠ 0
  · rw [if_pos some] at ran
    obtain ⟨stop, passed, ran⟩ := Option.bind_eq_some_iff.mp ran
    obtain ⟨ended, -, rfl⟩ := Option.map_eq_some_iff.mp ran
    have last := skipWhile_le passed
    change cursor < stop + 1
    omega
  · rw [if_neg some] at ran
    cases ran
    change cursor < value
    omega

theorem Ahead.skipEquals {next : List UInt8} (ahead : Ahead cmdStr nul next) :
    (if next.head?.getD 0 = '='.toUInt8 then
        Mkfs.skipSpaces cmdStr (nul - next.length + 1)
      else some (nul - next.length)) =
      some (nul - (if next.head? = some '='.toUInt8 then next.tail.dropWhile isSpace
        else next).length) ∧
      Ahead cmdStr nul (if next.head? = some '='.toUInt8 then next.tail.dropWhile isSpace
        else next) := by
  cases next with
  | nil => exact ⟨rfl, ahead⟩
  | cons char next =>
      obtain ⟨further, place⟩ := ahead.tail
      rw [List.head?_cons, Option.getD_some, List.tail_cons, place]
      by_cases equals : char = '='.toUInt8
      · rw [if_pos equals, if_pos (congrArg some equals)]
        exact further.skipSpaces
      · rw [if_neg equals, if_neg (fun same => equals (Option.some.inj same))]
        exact ⟨rfl, ahead⟩

theorem parseValue_eq (argName : Nat) (ahead : Ahead cmdStr nul (afterName rest))
    (ended : afterName rest ≠ []) :
    parseValue cmdStr argName (nul - (afterName rest).length) =
      some (if beforeValue rest = [] then
          ⟨cmdStr.set (nul - (afterName rest).length) 0, some argName, none, nul⟩
        else
          ⟨(cmdStr.set (nul - (afterName rest).length) 0).set (nul - (afterValue rest).length) 0,
            some argName, some (nul - (beforeValue rest).length),
            nul - (afterValue rest).length + 1⟩) := by
  obtain ⟨char, others, split⟩ := List.exists_cons_of_ne_nil ended
  unfold afterValue beforeValue parseValue
  rw [split] at ahead ⊢
  obtain ⟨stored, next⟩ := ahead.store
  obtain ⟨spaces, next⟩ := next.skipSpaces
  obtain ⟨equals, value⟩ := next.skipEquals
  rw [stored, Option.bind_some, ahead.tail.2, spaces, Option.bind_some, next.char, Option.bind_some,
    equals, Option.bind_some, value.char, Option.bind_some, List.tail_cons]
  dsimp only
  generalize (if (others.dropWhile isSpace).head? = some '='.toUInt8 then
    (others.dropWhile isSpace).tail.dropWhile isSpace else others.dropWhile isSpace) = found at value ⊢
  cases found with
  | nil => rfl
  | cons first found =>
      obtain ⟨passed, last⟩ := value.skipWord
      have inside := last.nul_lt
      rw [if_pos (value.head_ne_zero (List.cons_ne_nil _ _)), passed, Option.bind_some,
        if_neg (List.cons_ne_nil _ _), storeChar, if_pos (by omega)]
      rfl

theorem parseArg_eq (ahead : Ahead cmdStr nul rest) (stays : StaysInCommand rest) :
    parseArg cmdStr (nul - rest.length) = some (parsedOf cmdStr nul rest) := by
  obtain ⟨spaces, named⟩ := ahead.skipSpaces
  unfold parseArg parsedOf
  rw [spaces, Option.bind_some, named.char, Option.bind_some]
  by_cases blank : rest.dropWhile isSpace = []
  · rw [if_pos blank, blank]
    rfl
  · obtain ⟨ended, -⟩ := stays.resolve_left blank
    obtain ⟨passed, last⟩ := named.skipWord
    rw [if_neg blank, if_pos (named.head_ne_zero blank), passed, Option.bind_some]
    exact (parseValue_eq _ last ended).trans (by split_ifs <;> rfl)

theorem parseArg_within_iff (ahead : Ahead cmdStr nul rest) :
    (∃ parsed, parseArg cmdStr (nul - rest.length) = some parsed ∧ parsed.cursor ≤ nul) ↔
      StaysInCommand rest := by
  constructor
  · rintro ⟨parsed, ran, within⟩
    obtain ⟨spaces, named⟩ := ahead.skipSpaces
    obtain ⟨passed, last⟩ := named.skipWord
    by_cases blank : rest.dropWhile isSpace = []
    · exact Or.inl blank
    · unfold parseArg at ran
      rw [spaces, Option.bind_some, named.char, Option.bind_some,
        if_pos (named.head_ne_zero blank), passed, Option.bind_some] at ran
      change parseValue cmdStr _ (nul - (afterName rest).length) = some parsed at ran
      refine Or.inr ⟨?_, ?_⟩
      -- A word that ends at the NUL leaves the cursor behind it, whatever is read there.
      · intro atEnd
        have beyond := parseValue_lt ran
        rw [atEnd] at beyond
        change nul - 0 < parsed.cursor at beyond
        omega
      · by_cases ended : afterName rest = []
        · have beyond := parseValue_lt ran
          rw [ended] at beyond
          change nul - 0 < parsed.cursor at beyond
          omega
        · rw [parseValue_eq _ last ended] at ran
          by_cases noValue : beforeValue rest = []
          · exact Or.inl noValue
          · rw [if_neg noValue] at ran
            cases ran
            refine Or.inr fun atEnd => ?_
            rw [atEnd] at within
            change nul - 0 + 1 ≤ nul at within
            omega
  · intro stays
    refine ⟨_, parseArg_eq ahead stays, ?_⟩
    have within := ahead.within
    unfold parsedOf
    by_cases blank : rest.dropWhile isSpace = []
    · rw [if_pos blank]
    · rw [if_neg blank]
      dsimp only
      by_cases noValue : beforeValue rest = []
      · rw [if_pos noValue]
      · rw [if_neg noValue]
        have behind := (stays.resolve_left blank).2.resolve_left noValue
        have positive := List.length_pos_of_ne_nil behind
        have some : 0 < rest.length := by
          apply List.length_pos_of_ne_nil
          rintro rfl
          exact blank rfl
        change nul - (afterValue rest).length + 1 ≤ nul
        omega

theorem getElem?_set_nul {stop : Nat} (isNul : cmdStr[nul]? = some 0) :
    (cmdStr.set stop 0)[nul]? = some 0 := by
  rw [List.getElem?_set]
  by_cases here : stop = nul
  · obtain ⟨inside, -⟩ := List.getElem?_eq_some_iff.mp isNul
    rw [if_pos here, if_pos (here ▸ inside)]
  · rw [if_neg here, isNul]

theorem textAt_congr {first second : List UInt8} {pointer : Nat}
    (agree : first.take (nul + 1) = second.take (nul + 1)) (isNul : first[nul]? = some 0)
    (within : pointer ≤ nul) : textAt first pointer = textAt second pointer := by
  have ends : ∀ buffer : List UInt8, buffer[nul]? = some 0 →
      textAt buffer pointer = ((buffer.take (nul + 1)).drop pointer).takeWhile (· ≠ 0) := by
    intro buffer nulHere
    have inside := (List.getElem?_eq_some_iff.mp nulHere).1
    have split : buffer.drop pointer =
        (buffer.take (nul + 1)).drop pointer ++ buffer.drop (nul + 1) := by
      nth_rewrite 1 [← List.take_append_drop (nul + 1) buffer]
      rw [List.drop_append_of_le_length]
      rw [List.length_take]
      omega
    have member : 0 ∈ (buffer.take (nul + 1)).drop pointer := by
      rw [List.mem_iff_getElem?]
      refine ⟨nul - pointer, ?_⟩
      rw [List.getElem?_drop, Nat.add_sub_cancel' within, List.getElem?_take, if_pos (by omega),
        nulHere]
    unfold textAt
    rw [split, List.takeWhile_append, if_neg]
    intro all
    have whole := List.takeWhile_eq_self_iff.mp ((List.takeWhile_prefix _).eq_of_length all)
    exact absurd (whole 0 member) (by decide)
  have isNulToo : second[nul]? = some 0 := by
    rw [← List.getElem?_take_of_lt (Nat.lt_succ_self nul), ← agree,
      List.getElem?_take_of_lt (Nat.lt_succ_self nul), isNul]
  rw [ends first isNul, ends second isNulToo, agree]

theorem ahead_of_nul {buffer : List UInt8} {cursor : Nat} (after : cursor ≤ nul)
    (isNul : buffer[nul]? = some 0)
    (isFirst : ∀ index, cursor ≤ index → index < nul → buffer[index]? ≠ some 0) :
    Ahead buffer nul ((buffer.take nul).drop cursor) ∧
      nul - ((buffer.take nul).drop cursor).length = cursor := by
  obtain ⟨inside, isZero⟩ := List.getElem?_eq_some_iff.mp isNul
  have length : ((buffer.take nul).drop cursor).length = nul - cursor := by
    rw [List.length_drop, List.length_take, Nat.min_eq_left (Nat.le_of_lt inside)]
  have place : nul - ((buffer.take nul).drop cursor).length = cursor := by omega
  refine ⟨⟨by omega, ⟨buffer.drop (nul + 1), ?_⟩, ?_⟩, place⟩
  · have split : buffer.drop nul = 0 :: buffer.drop (nul + 1) := by
      rw [List.drop_eq_getElem_cons inside, isZero]
    rw [place, ← split]
    nth_rewrite 1 [← List.take_append_drop nul buffer]
    rw [List.drop_append_of_le_length]
    rw [List.length_take]
    omega
  · intro member
    obtain ⟨index, here⟩ := List.mem_iff_getElem?.mp member
    rw [List.getElem?_drop, List.getElem?_take] at here
    by_cases before : cursor + index < nul
    · rw [if_pos before] at here
      exact isFirst (cursor + index) (Nat.le_add_right _ _) before here
    · rw [if_neg before] at here
      cases here

theorem parsedOf_congr {first second : List UInt8}
    (agree : first.take (nul + 1) = second.take (nul + 1)) (rest : List UInt8) :
    (parsedOf first nul rest).argName = (parsedOf second nul rest).argName ∧
      (parsedOf first nul rest).argValue = (parsedOf second nul rest).argValue ∧
      (parsedOf first nul rest).cursor = (parsedOf second nul rest).cursor ∧
      (parsedOf first nul rest).cmdStr.take (nul + 1) =
        (parsedOf second nul rest).cmdStr.take (nul + 1) := by
  unfold parsedOf
  split_ifs
  · exact ⟨rfl, rfl, rfl, agree⟩
  · refine ⟨rfl, rfl, rfl, ?_⟩
    rw [List.take_set, List.take_set, agree]
  · refine ⟨rfl, rfl, rfl, ?_⟩
    rw [List.take_set, List.take_set, List.take_set, List.take_set, agree]

theorem parsedOf_pointers (cmdStr : List UInt8) (nul : Nat) (rest : List UInt8) :
    (∀ pointer, (parsedOf cmdStr nul rest).argName = some pointer → pointer ≤ nul) ∧
      ∀ pointer, (parsedOf cmdStr nul rest).argValue = some pointer → pointer ≤ nul := by
  unfold parsedOf
  split_ifs
  · exact ⟨(fun _ impossible => nomatch impossible), fun _ impossible => nomatch impossible⟩
  · refine ⟨?_, fun _ impossible => nomatch impossible⟩
    rintro pointer ⟨⟩
    exact Nat.sub_le _ _
  · constructor
    · rintro pointer ⟨⟩
      exact Nat.sub_le _ _
    · rintro pointer ⟨⟩
      exact Nat.sub_le _ _

theorem parsedOf_nul (isNul : cmdStr[nul]? = some 0) (rest : List UInt8) :
    (parsedOf cmdStr nul rest).cmdStr[nul]? = some 0 := by
  unfold parsedOf
  split_ifs
  · exact isNul
  · exact getElem?_set_nul isNul
  · exact getElem?_set_nul (getElem?_set_nul isNul)

/-- What stands behind the NUL makes no difference exactly when the call stays in the command. -/
theorem parseArg_ignoresStale (first second : List UInt8) (cursor nul : Nat)
    (agree : first.take (nul + 1) = second.take (nul + 1)) (after : cursor ≤ nul)
    (isNul : first[nul]? = some 0)
    (isFirst : ∀ index, cursor ≤ index → index < nul → first[index]? ≠ some 0) :
    IgnoresStale first second cursor nul ↔ StaysInCommand ((first.take nul).drop cursor) := by
  have same : ∀ index, index < nul + 1 → second[index]? = first[index]? := by
    intro index inside
    rw [← List.getElem?_take_of_lt inside, ← agree, List.getElem?_take_of_lt inside]
  have command : (second.take nul).drop cursor = (first.take nul).drop cursor := by
    have shorter := congrArg (List.take nul) agree
    rw [List.take_take, List.take_take, Nat.min_eq_left (Nat.le_succ nul)] at shorter
    rw [shorter]
  obtain ⟨ahead, place⟩ := ahead_of_nul after isNul isFirst
  obtain ⟨aheadToo, -⟩ := ahead_of_nul after ((same nul (Nat.lt_succ_self _)).trans isNul)
    (fun index from_cursor inside => (same index (by omega)).symm ▸ isFirst index from_cursor inside)
  rw [command] at aheadToo
  constructor
  · rintro ⟨one, two, ran, -, -, -, -, within, -⟩
    apply (parseArg_within_iff ahead).mp
    rw [place]
    exact ⟨one, ran, within⟩
  · intro stays
    have ran := parseArg_eq ahead stays
    have ranToo := parseArg_eq aheadToo stays
    obtain ⟨parsed, alsoRan, within⟩ := (parseArg_within_iff ahead).mpr stays
    rw [place] at ran ranToo alsoRan
    cases ran.symm.trans alsoRan
    obtain ⟨names, values, cursors, commands⟩ :=
      parsedOf_congr agree ((first.take nul).drop cursor)
    obtain ⟨nameIn, valueIn⟩ := parsedOf_pointers first nul ((first.take nul).drop cursor)
    have nulIn := parsedOf_nul isNul ((first.take nul).drop cursor)
    refine ⟨_, _, ran, ranToo, ?_, ?_, cursors, within, commands⟩
    · rw [← names]
      apply Option.map_congr
      intro pointer here
      exact textAt_congr commands nulIn (nameIn pointer here)
    · rw [← values]
      apply Option.map_congr
      intro pointer here
      exact textAt_congr commands nulIn (valueIn pointer here)

/-- The name `a` and the value `b`, with a space behind them. -/
theorem parseArg_ignoresStale_spaced :
    IgnoresStale [97, 61, 98, 32, 0, 99, 0] [97, 61, 98, 32, 0, 0, 0] 0 4 :=
  (parseArg_ignoresStale _ _ 0 4 (by decide) (by decide) (by decide) (by
    intro index _ inside
    interval_cases index <;> decide)).mpr (by decide)

/-- The name `a` alone, with the value `b` of an earlier command behind it. -/
theorem parseArg_takes_stale :
    ¬∀ (first second : List UInt8) (cursor nul : Nat),
      first.take (nul + 1) = second.take (nul + 1) → cursor ≤ nul → first[nul]? = some 0 →
      (∀ index, cursor ≤ index → index < nul → first[index]? ≠ some 0) →
      IgnoresStale first second cursor nul := by
  intro always
  have ignores := always [97, 0, 98, 0] [97, 0, 0, 0] 0 1 (by decide) (by decide) (by decide) (by
    intro index _ inside
    interval_cases index
    decide)
  obtain ⟨one, two, ran, ranToo, -, values, -⟩ := ignores
  have value : parseArg [97, 0, 98, 0] 0 = some ⟨[97, 0, 98, 0], some 0, some 2, 4⟩ := by
    decide +kernel
  have noValue : parseArg [97, 0, 0, 0] 0 = some ⟨[97, 0, 0, 0], some 0, none, 2⟩ := by
    decide +kernel
  cases ran.symm.trans value
  cases ranToo.symm.trans noValue
  cases values

end DoggOS.Mkfs

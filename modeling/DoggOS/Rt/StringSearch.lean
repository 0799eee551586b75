/-
The substring search of the run time.

After a failed start `k_rt_StrStr` goes on behind the partial match instead of
behind the first character of it.  `Splits` says that it comes to a place in
this way: the text in front of it falls into characters that cannot start the
pattern and partial matches that the text does not continue.
-/

import DoggOS.Library.CharBuffers

namespace DoggOS.Rt

section

variable (searchIn searchFor : Nat → Option UInt8)

/-- The inner loop: both cursors go on while the characters agree. -/
def matchLoop : Nat → Nat → Nat → Option (Nat × Nat)
  | 0, _, _ => none
  | turns + 1, searchInIndex, searchForIndex =>
      (searchIn searchInIndex).bind fun char =>
        if char ≠ 0 then
          (searchFor searchForIndex).bind fun wanted =>
            if char = wanted then
              matchLoop turns ((searchInIndex + 1) % 2 ^ 32) ((searchForIndex + 1) % 2 ^ 32)
            else some (searchInIndex, searchForIndex)
        else some (searchInIndex, searchForIndex)

/-- The outer loop; inside is the index of the match, when there is one. -/
def searchLoop : Nat → Nat → Nat → Option (Option Nat)
  | 0, _, _ => none
  | turns + 1, searchInIndex, searchForIndex =>
      (searchIn searchInIndex).bind fun char =>
        if char ≠ 0 then
          (searchFor searchForIndex).bind fun wanted =>
            if char = wanted then
              (matchLoop searchIn searchFor (2 ^ 32) searchInIndex searchForIndex).bind
                fun stopped =>
                  (searchFor stopped.2).bind fun wanted =>
                    if wanted = 0 then some (some searchInIndex)
                    else searchLoop turns stopped.1 0
            else searchLoop turns ((searchInIndex + 1) % 2 ^ 32) searchForIndex
        else some none

end

/-- `k_rt_StrStr`; a string is `none` for NULL, and the match is an index into the first one. -/
def strStr (searchIn searchFor : Option (Nat → Option UInt8)) : Option (Option Nat) :=
  match searchIn, searchFor with
  | some searchIn, some searchFor => searchLoop searchIn searchFor (2 ^ 32) 0 0
  | _, _ => some none

def OccursAt (pattern text : List UInt8) (position : Nat) : Prop :=
  pattern <+: text.drop position

instance (pattern text : List UInt8) (position : Nat) : Decidable (OccursAt pattern text position) :=
  inferInstanceAs (Decidable (pattern <+: text.drop position))

def FirstAt (pattern text : List UInt8) (position : Nat) : Prop :=
  OccursAt pattern text position ∧ ∀ earlier < position, ¬OccursAt pattern text earlier

/-- The search ends within both strings with the first occurrence, or with none when there is
none. -/
def FindsFirst (searchIn searchFor : CString) : Prop :=
  ∃ found, strStr (some searchIn.char) (some searchFor.char) = some found ∧
    (∀ position, found = some position → FirstAt searchFor.text searchIn.text position) ∧
    (found = none ↔ ∀ position, ¬OccursAt searchFor.text searchIn.text position)

/-- The first text falls into characters that cannot start the pattern and parts of the pattern
that end where the text leaves it. -/
inductive Splits (pattern : List UInt8) : List UInt8 → List UInt8 → Prop
  | done (rest : List UInt8) : Splits pattern [] rest
  | other (char : UInt8) {before rest : List UInt8} (different : pattern.head? ≠ some char)
      (splits : Splits pattern before rest) : Splits pattern (char :: before) rest
  | part (piece : List UInt8) (next : UInt8) (left : List UInt8) {before rest : List UInt8}
      (nonempty : piece ≠ []) (starts : pattern = piece ++ next :: left)
      (leaves : (before ++ rest).head? ≠ some next) (splits : Splits pattern before rest) :
      Splits pattern (piece ++ before) rest

variable {searchIn searchFor : Nat → Option UInt8} {text pattern : List UInt8}

theorem matchLoop_eq (reads : ReadsText searchIn text) (wants : ReadsText searchFor pattern)
    (small : text.length < 2 ^ 32) (piece : List UInt8) {rest left : List UInt8}
    {index place turns : Nat} (within : index ≤ text.length) (inPattern : place ≤ pattern.length)
    (fits : pattern.length < 2 ^ 32)
    (ahead : text.drop index = piece ++ rest) (wanted : pattern.drop place = piece ++ left)
    (leaves : ∀ char, rest.head? = some char → left.head? ≠ some char)
    (enough : text.length - index < turns) :
    matchLoop searchIn searchFor turns index place =
      some (index + piece.length, place + piece.length) := by
  induction piece generalizing index place turns with
  | nil =>
      obtain ⟨turns, rfl⟩ := Nat.exists_eq_add_of_lt enough
      rw [matchLoop, reads.drop within, wants.drop inPattern, ahead, wanted,
        List.nil_append, List.nil_append]
      cases rest with
      | nil => rfl
      | cons char rest =>
          have nonzero : char ≠ 0 := reads.drop_ne_zero ahead
          have different : char ≠ left.head?.getD 0 := by
            cases left with
            | nil => exact nonzero
            | cons next left =>
                intro same
                exact leaves char rfl (congrArg some same.symm)
          rw [List.head?_cons, Option.getD_some, Option.bind_some, if_pos nonzero, Option.bind_some,
            if_neg different]
          rfl
  | cons char piece ih =>
      cases turns with
      | zero => omega
      | succ turns =>
          have nonzero : char ≠ 0 := reads.drop_ne_zero ahead
          obtain ⟨inside, further⟩ := CharBuffers.drop_cons ahead
          obtain ⟨insidePattern, furtherWanted⟩ := CharBuffers.drop_cons wanted
          rw [matchLoop, reads.drop within, wants.drop inPattern, ahead, wanted,
            List.cons_append, List.cons_append, List.head?_cons, List.head?_cons, Option.getD_some,
            Option.bind_some, if_pos nonzero, Option.bind_some, if_pos rfl,
            Nat.mod_eq_of_lt (by omega), Nat.mod_eq_of_lt (by omega),
            ih (by omega) (by omega) further furtherWanted (by omega), List.length_cons]
          congr 2 <;> omega

section

variable (reads : ReadsText searchIn text) (wants : ReadsText searchFor pattern)
  (small : text.length < 2 ^ 32) (fits : pattern.length < 2 ^ 32)

include reads in
theorem searchLoop_end (turns : Nat) :
    searchLoop searchIn searchFor (turns + 1) text.length 0 = some none := by
  rw [searchLoop, reads.nul]
  rfl

include reads wants small in
theorem searchLoop_other {index : Nat} {char : UInt8} {rest : List UInt8}
    (ahead : text.drop index = char :: rest) (within : index < text.length)
    (different : pattern.head? ≠ some char) (turns : Nat) :
    searchLoop searchIn searchFor (turns + 1) index 0 =
      searchLoop searchIn searchFor turns (index + 1) 0 := by
  have nonzero : char ≠ 0 := reads.drop_ne_zero ahead
  have departs : char ≠ pattern.head?.getD 0 := by
    cases pattern with
    | nil => exact nonzero
    | cons first left => exact fun same => different (congrArg some same.symm)
  rw [searchLoop, reads.drop (Nat.le_of_lt within), wants.drop (Nat.zero_le _), ahead,
    List.drop_zero, List.head?_cons, Option.getD_some, Option.bind_some, if_pos nonzero,
    Option.bind_some, if_neg departs, Nat.mod_eq_of_lt (by omega)]

include reads wants small fits in
theorem searchLoop_start {index : Nat} (piece : List UInt8) {rest left : List UInt8}
    (nonempty : piece ≠ []) (ahead : text.drop index = piece ++ rest)
    (starts : pattern = piece ++ left) (within : index ≤ text.length)
    (leaves : ∀ char, rest.head? = some char → left.head? ≠ some char) (turns : Nat) :
    searchLoop searchIn searchFor (turns + 1) index 0 =
      if left = [] then some (some index)
      else searchLoop searchIn searchFor turns (index + piece.length) 0 := by
  obtain ⟨first, others, rfl⟩ := List.exists_cons_of_ne_nil nonempty
  have nonzero : first ≠ 0 := reads.drop_ne_zero ahead
  have passed := matchLoop_eq reads wants small (first :: others) within (Nat.zero_le _) fits ahead
    starts leaves (by omega : text.length - index < 2 ^ 32)
  have stopped : searchFor (0 + (first :: others).length) = some (left.head?.getD 0) := by
    have length : (first :: others).length ≤ pattern.length := by
      rw [starts, List.length_append]
      omega
    rw [Nat.zero_add, wants.drop length, starts, List.drop_left]
  rw [searchLoop, reads.drop within, wants.drop (Nat.zero_le _), ahead, List.drop_zero,
    starts, List.cons_append, List.cons_append, List.head?_cons, List.head?_cons, Option.getD_some,
    Option.bind_some, if_pos nonzero, Option.bind_some, if_pos rfl, passed, Option.bind_some,
    stopped, Option.bind_some]
  cases left with
  | nil => rfl
  | cons next left =>
      have inPattern : next ∈ pattern := by
        rw [starts]
        exact List.mem_append_right _ List.mem_cons_self
      have nextNonzero : next ≠ 0 := fun zero => wants.noNul (zero ▸ inPattern)
      rw [List.head?_cons, Option.getD_some, if_neg nextNonzero, if_neg (List.cons_ne_nil _ _)]

theorem exists_common (first second : List UInt8) : ∃ piece rest left,
    first = piece ++ rest ∧ second = piece ++ left ∧
      ∀ char, rest.head? = some char → left.head? ≠ some char := by
  induction first generalizing second with
  | nil => exact ⟨[], [], second, rfl, rfl, fun char none => nomatch none⟩
  | cons char first ih =>
      by_cases same : second.head? = some char
      · obtain ⟨others, rfl⟩ := List.head?_eq_some_iff.mp same
        obtain ⟨piece, rest, left, whole, wholeSecond, leaves⟩ := ih others
        exact ⟨char :: piece, rest, left, congrArg (char :: ·) whole,
          congrArg (char :: ·) wholeSecond, leaves⟩
      · refine ⟨[], char :: first, second, rfl, rfl, ?_⟩
        intro other front
        cases front
        exact same

include reads wants small fits in
/-- What the search answers is an occurrence that the text in front of it leads to. -/
theorem searchLoop_sound {index turns : Nat} (within : index ≤ text.length)
    (enough : text.length - index < turns) :
    ∃ found, searchLoop searchIn searchFor turns index 0 = some found ∧
      ∀ position, found = some position → OccursAt pattern text position ∧
        ∃ before, text.drop index = before ++ text.drop position ∧
          position = index + before.length ∧ Splits pattern before (text.drop position) := by
  induction turns generalizing index with
  | zero => omega
  | succ turns ih =>
      by_cases atEnd : index = text.length
      · rw [atEnd]
        exact ⟨none, searchLoop_end reads turns, fun position impossible => nomatch impossible⟩
      · have ahead : text.drop index = text[index] :: text.drop (index + 1) :=
          List.drop_eq_getElem_cons _
        by_cases begins : pattern.head? = some text[index]
        · obtain ⟨piece, rest, left, whole, starts, leaves⟩ := exists_common (text.drop index) pattern
          have nonempty : piece ≠ [] := by
            rintro rfl
            rw [List.nil_append] at whole starts
            rw [← whole, ← starts, ahead] at leaves
            exact leaves _ rfl begins
          have turned := searchLoop_start reads wants small fits piece nonempty whole starts within
            leaves turns
          rw [turned]
          cases left with
          | nil =>
              refine ⟨some index, if_pos rfl, ?_⟩
              intro position found
              cases found
              refine ⟨?_, [], rfl, rfl, Splits.done _⟩
              rw [OccursAt, whole, starts, List.append_nil]
              exact List.prefix_append piece rest
          | cons next left =>
              have counted := congrArg List.length whole
              rw [List.length_drop, List.length_append] at counted
              have positive := List.length_pos_of_ne_nil nonempty
              have behind : text.drop (index + piece.length) = rest := by
                rw [← List.drop_drop, whole, List.drop_left]
              have inText : index + piece.length ≤ text.length := by omega
              obtain ⟨found, ran, leadsTo⟩ := ih inText (by omega)
              refine ⟨found, (if_neg (List.cons_ne_nil _ _)).trans ran, ?_⟩
              intro position isFound
              obtain ⟨occurs, before, split, place, splits⟩ := leadsTo position isFound
              rw [behind] at split
              refine ⟨occurs, piece ++ before, ?_, ?_, ?_⟩
              · rw [whole, split, List.append_assoc]
              · rw [List.length_append]
                omega
              · refine Splits.part piece next left nonempty starts ?_ splits
                intro continued
                rw [← split] at continued
                exact leaves next continued rfl
        · have turned := searchLoop_other reads wants small ahead (by omega) begins turns
          have inText : index + 1 ≤ text.length := by omega
          obtain ⟨found, ran, leadsTo⟩ := ih inText (by omega)
          refine ⟨found, turned.trans ran, ?_⟩
          intro position isFound
          obtain ⟨occurs, before, split, place, splits⟩ := leadsTo position isFound
          refine ⟨occurs, text[index] :: before, ?_, ?_, Splits.other _ begins splits⟩
          · rw [ahead, split, List.cons_append]
          · rw [List.length_cons]
            omega

include reads wants small fits in
/-- The search comes to an occurrence that the text in front of it leads to. -/
theorem searchLoop_complete {before rest : List UInt8} (nonempty : pattern ≠ [])
    (splits : Splits pattern before rest) (occurs : pattern <+: rest) {index turns : Nat}
    (ahead : text.drop index = before ++ rest) (within : index ≤ text.length)
    (enough : text.length - index < turns) :
    searchLoop searchIn searchFor turns index 0 = some (some (index + before.length)) := by
  induction splits generalizing index turns with
  | done =>
      obtain ⟨turns, rfl⟩ := Nat.exists_eq_add_of_lt enough
      obtain ⟨behind, rfl⟩ := occurs
      exact (searchLoop_start reads wants small fits pattern nonempty ahead
        (List.append_nil pattern).symm within (fun char _ impossible => nomatch impossible) _).trans
        (if_pos rfl)
  | other char different splits ih =>
      cases turns with
      | zero => omega
      | succ turns =>
          obtain ⟨inside, further⟩ := CharBuffers.drop_cons ahead
          rw [searchLoop_other reads wants small ahead inside different turns,
            ih occurs further (by omega) (by omega), List.length_cons, Nat.add_right_comm,
            Nat.add_assoc]
  | @part piece next left middle rest pieceNonempty starts leaves splits ih =>
      cases turns with
      | zero => omega
      | succ turns =>
          rw [List.append_assoc] at ahead
          have counted := congrArg List.length ahead
          rw [List.length_drop, List.length_append] at counted
          have positive := List.length_pos_of_ne_nil pieceNonempty
          have further : text.drop (index + piece.length) = middle ++ rest := by
            rw [← List.drop_drop, ahead, List.drop_left]
          have departs : ∀ char, (middle ++ rest).head? = some char → (next :: left).head? ≠ some char := by
            intro char front same
            cases same
            exact leaves front
          rw [searchLoop_start reads wants small fits piece pieceNonempty ahead starts within departs
            turns, if_neg (List.cons_ne_nil _ _), ih occurs further (by omega) (by omega),
            List.length_append, Nat.add_assoc]

end

theorem OccursAt.lt {position : Nat} (occurs : OccursAt pattern text position)
    (nonempty : pattern ≠ []) : position < text.length := by
  by_contra beyond
  unfold OccursAt at occurs
  rw [List.drop_eq_nil_of_le (by omega), List.prefix_nil] at occurs
  exact nonempty occurs

theorem exists_firstAt {position : Nat} (occurs : OccursAt pattern text position) :
    ∃ first, FirstAt pattern text first := by
  induction position using Nat.strong_induction_on with
  | _ position ih =>
      by_cases earlier : ∃ place < position, OccursAt pattern text place
      · obtain ⟨place, less, occursThere⟩ := earlier
        exact ih place less occursThere
      · exact ⟨position, occurs, fun place less occursThere => earlier ⟨place, less, occursThere⟩⟩

/-- The search finds the first occurrence when the text in front of it leads to it. -/
theorem strStr_exact (searchIn searchFor : CString) (nonempty : searchFor.text ≠ []) :
    FindsFirst searchIn searchFor ↔
      ∀ position, FirstAt searchFor.text searchIn.text position →
        Splits searchFor.text (searchIn.text.take position) (searchIn.text.drop position) := by
  have small : searchIn.text.length < 2 ^ 32 := Nat.lt_of_succ_lt searchIn.bounded
  have fits : searchFor.text.length < 2 ^ 32 := Nat.lt_of_succ_lt searchFor.bounded
  have enough : searchIn.text.length - 0 < 2 ^ 32 := by omega
  obtain ⟨found, ran, leadsTo⟩ := searchLoop_sound searchIn.readsText searchFor.readsText small fits
    (Nat.zero_le _) enough
  constructor
  · rintro ⟨answer, answered, isFirst, isNone⟩ position ⟨occurs, first⟩
    cases ran.symm.trans answered
    cases found with
    | none => exact absurd occurs (isNone.mp rfl position)
    | some place =>
        obtain ⟨occursThere, firstThere⟩ := isFirst place rfl
        have same : place = position := by
          by_contra different
          cases Nat.lt_or_gt_of_ne different with
          | inl less => exact first place less occursThere
          | inr greater => exact firstThere position greater occurs
        subst same
        obtain ⟨-, before, split, counted, splits⟩ := leadsTo place rfl
        have front : searchIn.text.take place = before := by
          rw [List.drop_zero] at split
          have taken := congrArg (List.take place) split
          rw [List.take_left' (by omega)] at taken
          exact taken
        rw [front]
        exact splits
  · intro leads
    have reaches : ∀ position, OccursAt searchFor.text searchIn.text position →
        ∃ first, FirstAt searchFor.text searchIn.text first ∧ found = some first := by
      intro position occurs
      obtain ⟨first, isFirst⟩ := exists_firstAt occurs
      have inText := isFirst.1.lt nonempty
      have whole : searchIn.text.drop 0 =
          searchIn.text.take first ++ searchIn.text.drop first :=
        (List.take_append_drop first searchIn.text).symm
      have came := searchLoop_complete searchIn.readsText searchFor.readsText small fits nonempty
        (leads first isFirst) isFirst.1 whole (Nat.zero_le _) enough
      rw [List.length_take, Nat.min_eq_left (Nat.le_of_lt inText), Nat.zero_add, ran] at came
      exact ⟨first, isFirst, Option.some.inj came⟩
    refine ⟨found, ran, ?_, ?_⟩
    · rintro position rfl
      obtain ⟨first, isFirst, same⟩ := reaches position (leadsTo position rfl).1
      cases same
      exact isFirst
    · constructor
      · rintro rfl position occurs
        obtain ⟨first, -, impossible⟩ := reaches position occurs
        cases impossible
      · intro absent
        cases found with
        | none => rfl
        | some position => exact absurd (leadsTo position rfl).1 (absent position)

/-- "ab" in "axab": the walk takes the first character for the start of a match. -/
theorem strStr_exact_part :
    FindsFirst ⟨[97, 120, 97, 98], by decide, by decide⟩ ⟨[97, 98], by decide, by decide⟩ := by
  refine (strStr_exact ⟨[97, 120, 97, 98], by decide, by decide⟩
    ⟨[97, 98], by decide, by decide⟩ (by decide)).mpr ?_
  rintro position ⟨occurs, first⟩
  have third : OccursAt [97, 98] [97, 120, 97, 98] 2 := List.prefix_refl _
  have inText := occurs.lt (by decide)
  match position, inText with
  | 0, _ => exact absurd occurs (by decide)
  | 1, _ => exact absurd occurs (by decide)
  | 2, _ =>
      exact Splits.part [97] 98 [] (by decide) rfl (by decide)
        (Splits.other 120 (by decide) (Splits.done [97, 98]))
  | 3, _ => exact absurd third (first 2 (by decide))

/-- "aab" in "aaab" is not found. -/
theorem strStr_skips : ¬∀ searchIn searchFor : CString, searchFor.text ≠ [] →
    FindsFirst searchIn searchFor := by
  intro always
  obtain ⟨found, answered, -, isNone⟩ := always ⟨[97, 97, 97, 98], by decide, by decide⟩
    ⟨[97, 97, 98], by decide, by decide⟩ (by decide)
  have nothing : strStr (some (CString.char ⟨[97, 97, 97, 98], by decide, by decide⟩))
      (some (CString.char ⟨[97, 97, 98], by decide, by decide⟩)) = some none := by
    decide +kernel
  rw [nothing] at answered
  exact isNone.mp (Option.some.inj answered).symm 1 (List.prefix_refl _)

end DoggOS.Rt

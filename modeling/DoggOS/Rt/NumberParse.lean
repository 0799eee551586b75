/-
Reading decimal texts.

`k_rt_AtoI` takes digits and nothing else: it has no sign, an empty text is
zero, and the `int32_t` it collects the value in wraps.  So it reads back what
`k_rt_ItoA` wrote for the numbers that are not negative, and the texts that it
takes wrongly are the empty one and the digits of a number from 2^31 on.
-/

import DoggOS.Rt.NumberText

namespace DoggOS.Rt

def atoILoop (str : Nat → Option UInt8) : Nat → Nat → Int32 → Option (Option Int32)
  | 0, _, _ => none
  | turns + 1, cursor, localValue =>
      (str cursor).bind fun char =>
        if char ≠ 0 then
          -- a character from 128 on is negative in the source, and out of the digits as well
          if char < '0'.toUInt8 ∨ char > '9'.toUInt8 then some none
          else
            atoILoop str turns ((cursor + 1) % 2 ^ 32)
              (localValue * 10 + Int32.ofNat (char.toNat - 48))
        else some (some localValue)

/-- `k_rt_AtoI`; the string is `none` for NULL, and `value` is what the caller's variable holds. -/
def atoI (str : Option (Nat → Option UInt8)) (value : Int32) : Option (StringResult × Int32) :=
  match str with
  | none => some (.badParam, value)
  | some str =>
      (atoILoop str (2 ^ 32) 0 0).map fun outcome =>
        match outcome with
        | some localValue => (.ok, localValue)
        | none => (.badParam, value)

def IsDigits (text : List UInt8) : Prop := ∀ char ∈ text, isDecimal char = true

instance (text : List UInt8) : Decidable (IsDigits text) :=
  inferInstanceAs (Decidable (∀ char ∈ text, isDecimal char = true))

/-- A decimal numeral, with a minus sign or without, and its number. -/
inductive IsNumeral : List UInt8 → Int → Prop
  | plain (digits : List UInt8) (nonempty : digits ≠ []) (decimal : IsDigits digits) :
      IsNumeral digits (numeralValue digits)
  | negated (digits : List UInt8) (nonempty : digits ≠ []) (decimal : IsDigits digits) :
      IsNumeral ('-'.toUInt8 :: digits) (-(numeralValue digits : Int))

/-- `k_rt_AtoI` reads the text that `k_rt_ItoA` writes. -/
def ReadsBack (value : Int32) : Prop :=
  ∀ (buffer : List UInt8) (size resultSize : Nat) (old : Int32),
    (decimalText value.toInt).length + 1 ≤ size → size ≤ buffer.length →
    ∃ after, itoA value (some buffer) size resultSize =
        some ⟨.ok, some after, (decimalText value.toInt).length⟩ ∧
      atoI (some fun place => after[place]?) old = some (.ok, value)

/-- What `k_rt_AtoI` takes is a numeral, and it stores its number. -/
def TakesNumerals (string : CString) : Prop :=
  ∀ old stored, atoI (some string.char) old = some (.ok, stored) →
    IsNumeral string.text stored.toInt

variable {read : Nat → Option UInt8} {text : List UInt8}

theorem isDecimal_iff (char : UInt8) :
    isDecimal char = true ↔ ¬(char < '0'.toUInt8 ∨ char > '9'.toUInt8) := by
  have zero : '0'.toUInt8.toNat = 48 := rfl
  have nine : '9'.toUInt8.toNat = 57 := rfl
  unfold isDecimal
  rw [Bool.and_eq_true, decide_eq_true_iff, decide_eq_true_iff, gt_iff_lt, UInt8.lt_iff_toNat_lt,
    UInt8.lt_iff_toNat_lt, zero, nine]
  omega

theorem ofNat_numeralValue_snoc (digits : List UInt8) (char : UInt8) :
    Int32.ofNat (numeralValue (digits ++ [char])) =
      Int32.ofNat (numeralValue digits) * 10 + Int32.ofNat (char.toNat - 48) := by
  rw [Numerals.numeralValue_snoc, Int32.ofNat_add, Int32.ofNat_mul, Int32.mul_comm]
  rfl

theorem atoILoop_eq (reads : ReadsText read text) (small : text.length < 2 ^ 32) (taken : Nat)
    (within : taken ≤ text.length) (decimal : IsDigits (text.take taken)) {turns : Nat}
    (enough : text.length - taken < turns) :
    atoILoop read turns taken (Int32.ofNat (numeralValue (text.take taken))) =
      some (if IsDigits text then some (Int32.ofNat (numeralValue text)) else none) := by
  induction turns generalizing taken with
  | zero => omega
  | succ turns ih =>
      by_cases atEnd : taken = text.length
      · rw [atEnd, List.take_length] at decimal ⊢
        rw [atoILoop, reads.nul, Option.bind_some, if_neg (not_not_intro rfl), if_pos decimal]
      · have inside : taken < text.length := by omega
        have next : text.take (taken + 1) = text.take taken ++ [text[taken]] :=
          List.take_succ_eq_append_getElem inside
        rw [atoILoop, reads.char inside, Option.bind_some, if_pos (reads.char_ne_zero inside)]
        by_cases digit : isDecimal text[taken] = true
        · have longer : IsDigits (text.take (taken + 1)) := by
            intro char member
            rw [next, List.mem_append, List.mem_singleton] at member
            cases member with
            | inl before => exact decimal char before
            | inr last => exact last ▸ digit
          rw [if_neg ((isDecimal_iff _).mp digit), ← ofNat_numeralValue_snoc, ← next,
            Nat.mod_eq_of_lt (by omega)]
          exact ih (taken + 1) inside longer (by omega)
        · have other : ¬IsDigits text := fun all => digit (all _ (List.getElem_mem inside))
          rw [if_pos (not_not.mp fun inRange => digit ((isDecimal_iff _).mpr inRange)),
            if_neg other]

theorem atoI_eq (reads : ReadsText read text) (small : text.length < 2 ^ 32) (old : Int32) :
    atoI (some read) old =
      some (if IsDigits text then (.ok, Int32.ofNat (numeralValue text)) else (.badParam, old)) := by
  have started := atoILoop_eq reads small 0 (Nat.zero_le _)
    (fun char member => absurd member List.not_mem_nil) (show text.length - 0 < 2 ^ 32 by omega)
  change atoILoop read (2 ^ 32) 0 0 = _ at started
  unfold atoI
  dsimp only
  rw [started, Option.map_some]
  by_cases decimal : IsDigits text
  · rw [if_pos decimal, if_pos decimal]
  · rw [if_neg decimal, if_neg decimal]

theorem minus_not_digit {digits : List UInt8} : ¬IsDigits ('-'.toUInt8 :: digits) := by
  intro all
  exact absurd (all _ List.mem_cons_self) (by decide)

theorem IsNumeral.of_digits {number : Int} (numeral : IsNumeral text number)
    (decimal : IsDigits text) : text ≠ [] ∧ number = numeralValue text := by
  cases numeral with
  | plain _ nonempty _ => exact ⟨nonempty, rfl⟩
  | negated => exact absurd decimal minus_not_digit

theorem decimalText_noNul (number : Int) : 0 ∉ decimalText number := by
  have digits : 0 ∉ numeral 10 number.natAbs := by
    intro member
    exact absurd (Numerals.numeral_isDecimal _ 0 member) (by decide)
  unfold decimalText
  by_cases negative : number < 0
  · rw [if_pos negative, List.mem_cons]
    rintro (minus | member)
    · exact absurd minus (by decide)
    · exact digits member
  · rw [if_neg negative]
    exact digits

theorem decimalText_short (value : Int32) : (decimalText value.toInt).length ≤ 11 := by
  have word : (unsignedValue value).toNat < 10 ^ 10 :=
    lt_trans (unsignedValue value).toNat_lt (by decide)
  have count := (Numerals.numeral_length_le (by omega) (by omega)).mpr word
  rw [decimalText_sign, List.length_append, signText_length]
  by_cases negative : value < 0
  · rw [if_pos negative]
    omega
  · rw [if_neg negative]
    omega

theorem itoA_readsText {value : Int32} {buffer : List UInt8} {size : Nat} (resultSize : Nat)
    (fits : (decimalText value.toInt).length + 1 ≤ size) (inside : size ≤ buffer.length) :
    ∃ after, itoA value (some buffer) size resultSize =
        some ⟨.ok, some after, (decimalText value.toInt).length⟩ ∧
      ReadsText (fun place => after[place]?) (decimalText value.toInt) := by
  refine ⟨_, by rw [itoA_eq value resultSize (by omega) inside, if_pos fits], ?_⟩
  have room : 0 + (decimalText value.toInt).length < buffer.length := by omega
  have back := CharBuffers.readsText_overwrite room (decimalText_noNul _)
  simp only [Nat.zero_add] at back
  exact back

theorem readsBack_iff (value : Int32) : ReadsBack value ↔ 0 ≤ value.toInt := by
  have short := decimalText_short value
  constructor
  · intro readsBack
    by_contra negative
    obtain ⟨after, written, parsed⟩ := readsBack (List.replicate 12 0) 12 0 0 (by omega) (by decide)
    obtain ⟨same, writes, reads⟩ := itoA_readsText 0
      (show (decimalText value.toInt).length + 1 ≤ 12 by omega)
      (show 12 ≤ (List.replicate 12 (0 : UInt8)).length by decide)
    rw [writes] at written
    cases written
    have minus : ¬IsDigits (decimalText value.toInt) := by
      rw [decimalText, if_pos (by omega)]
      exact minus_not_digit
    rw [atoI_eq reads (by omega), if_neg minus] at parsed
    cases parsed
  · intro positive buffer size resultSize old fits inside
    obtain ⟨after, written, reads⟩ := itoA_readsText resultSize fits inside
    have digits : decimalText value.toInt = numeral 10 value.toInt.natAbs := by
      rw [decimalText, if_neg (by omega)]
    have decimal : IsDigits (decimalText value.toInt) := by
      rw [digits]
      exact Numerals.numeral_isDecimal _
    have number : Int32.ofNat (numeralValue (decimalText value.toInt)) = value := by
      rw [digits, Numerals.numeralValue_numeral, ← Int32.ofInt_eq_ofNat,
        Int.natAbs_of_nonneg positive, Int32.ofInt_toInt]
    refine ⟨after, written, ?_⟩
    rw [atoI_eq reads (by omega), if_pos decimal, number]

theorem takesNumerals_iff (string : CString) :
    TakesNumerals string ↔
      ¬(string.text = [] ∨ IsDigits string.text ∧ 2 ^ 31 ≤ numeralValue string.text) := by
  have parsed := atoI_eq string.readsText (Nat.lt_of_succ_lt string.bounded)
  constructor
  · intro takes wrong
    have decimal : IsDigits string.text := by
      cases wrong with
      | inl empty => exact fun char member => absurd (empty ▸ member) List.not_mem_nil
      | inr large => exact large.1
    have numeral := takes 0 _ ((parsed 0).trans (by rw [if_pos decimal]))
    obtain ⟨nonempty, number⟩ := numeral.of_digits decimal
    have word := Int32.toInt_lt (Int32.ofNat (numeralValue string.text))
    cases wrong with
    | inl empty => exact nonempty empty
    | inr large => omega
  · intro right old stored answered
    rw [parsed old] at answered
    by_cases decimal : IsDigits string.text
    · rw [if_pos decimal] at answered
      cases answered
      have small : numeralValue string.text < 2 ^ 31 :=
        Nat.lt_of_not_le fun large => right (Or.inr ⟨decimal, large⟩)
      rw [Int32.toInt_ofNat_of_lt small]
      exact IsNumeral.plain _ (fun empty => right (Or.inl empty)) decimal
    · rw [if_neg decimal] at answered
      cases answered

/-- The reader agrees with the writer and the grammar on these numbers and texts only. -/
theorem atoI_exact (value : Int32) (string : CString) :
    (ReadsBack value ↔ 0 ≤ value.toInt) ∧
      (TakesNumerals string ↔
        ¬(string.text = [] ∨ IsDigits string.text ∧ 2 ^ 31 ≤ numeralValue string.text)) :=
  ⟨readsBack_iff value, takesNumerals_iff string⟩

/-- The text of -1 is turned down, and the empty text is taken. -/
theorem atoI_minus_one :
    ¬((∀ value, ReadsBack value) ∧ ∀ string, TakesNumerals string) := by
  rintro ⟨readsBack, -⟩
  obtain ⟨after, written, parsed⟩ := readsBack (-1) (List.replicate 3 0) 3 0 0 (by decide) (by decide)
  have minus : itoA (-1) (some (List.replicate 3 0)) 3 0 = some ⟨.ok, some [45, 49, 0], 2⟩ := by
    decide +kernel
  rw [minus] at written
  cases written
  have turned : atoI (some fun place => [45, 49, 0][place]?) 0 = some (.badParam, 0) := by
    decide +kernel
  rw [turned] at parsed
  cases parsed

end DoggOS.Rt

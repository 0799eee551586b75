/-
Character buffers and C strings.

A buffer is the bytes of one object; a store outside it has no outcome.  A C
string is a text without a NUL that has one behind it, and nothing can be read
behind that one.
-/

import Mathlib.Data.List.Basic
import Mathlib.Data.UInt

namespace DoggOS

def storeChar (buffer : List UInt8) (index : Nat) (char : UInt8) : Option (List UInt8) :=
  if index < buffer.length then some (buffer.set index char) else none

def overwrite (buffer : List UInt8) (index : Nat) (text : List UInt8) : List UInt8 :=
  buffer.take index ++ text ++ buffer.drop (index + text.length)

/-- The text and its NUL are less than the address space. -/
structure CString where
  text : List UInt8
  noNul : 0 ∉ text
  bounded : text.length + 1 < 2 ^ 32

namespace CString

def char (string : CString) (index : Nat) : Option UInt8 :=
  (string.text ++ [0])[index]?

theorem char_beyond (string : CString) {index : Nat} (beyond : string.text.length < index) :
    string.char index = none := by
  unfold char
  rw [List.getElem?_eq_none_iff, List.length_append, List.length_singleton]
  exact beyond

end CString

structure ReadsText (read : Nat → Option UInt8) (text : List UInt8) : Prop where
  chars : ∀ index, index < text.length + 1 → read index = (text ++ [0])[index]?
  noNul : 0 ∉ text

namespace ReadsText

variable {read : Nat → Option UInt8} {text : List UInt8}

theorem nul (reads : ReadsText read text) : read text.length = some 0 := by
  rw [reads.chars _ (Nat.lt_succ_self _), List.getElem?_append_right (Nat.le_refl _), Nat.sub_self]
  rfl

theorem char (reads : ReadsText read text) {index : Nat} (inside : index < text.length) :
    read index = some text[index] := by
  rw [reads.chars _ (by omega), List.getElem?_append_left inside, List.getElem?_eq_getElem inside]

theorem char_ne_zero (reads : ReadsText read text) {index : Nat} (inside : index < text.length) :
    text[index] ≠ 0 := by
  intro zero
  exact reads.noNul (zero ▸ List.getElem_mem inside)

theorem drop (reads : ReadsText read text) {index : Nat} (within : index ≤ text.length) :
    read index = some ((text.drop index).head?.getD 0) := by
  rw [List.head?_drop]
  by_cases atEnd : index = text.length
  · rw [atEnd, reads.nul, List.getElem?_eq_none (Nat.le_refl _)]
    rfl
  · have inside : index < text.length := by omega
    rw [reads.char inside, List.getElem?_eq_getElem inside]
    rfl

theorem drop_ne_zero (reads : ReadsText read text) {index : Nat} {char : UInt8}
    {rest : List UInt8} (front : text.drop index = char :: rest) : char ≠ 0 := by
  intro zero
  have member : char ∈ text.drop index := by
    rw [front]
    exact List.mem_cons_self
  exact reads.noNul (zero ▸ List.mem_of_mem_drop member)

end ReadsText

theorem CString.readsText (string : CString) : ReadsText string.char string.text where
  chars _ _ := rfl
  noNul := string.noNul

namespace CharBuffers

theorem drop_cons {text rest : List UInt8} {index : Nat} {char : UInt8}
    (ahead : text.drop index = char :: rest) :
    index < text.length ∧ text.drop (index + 1) = rest := by
  constructor
  · by_contra beyond
    rw [List.drop_eq_nil_of_le (by omega)] at ahead
    cases ahead
  · rw [← List.tail_drop, ahead, List.tail_cons]

variable {buffer text more : List UInt8} {index : Nat} {char : UInt8}

theorem overwrite_nil (buffer : List UInt8) (index : Nat) : overwrite buffer index [] = buffer := by
  unfold overwrite
  rw [List.append_nil, List.length_nil, Nat.add_zero, List.take_append_drop]

theorem overwrite_length (fits : index + text.length ≤ buffer.length) :
    (overwrite buffer index text).length = buffer.length := by
  unfold overwrite
  rw [List.length_append, List.length_append, List.length_take, List.length_drop]
  omega

theorem take_overwrite (inside : index ≤ buffer.length) :
    (overwrite buffer index text).take (index + text.length) = buffer.take index ++ text := by
  unfold overwrite
  rw [List.take_append_of_le_length, List.take_of_length_le]
  · rw [List.length_append, List.length_take]
    omega
  · rw [List.length_append, List.length_take]
    omega

theorem drop_overwrite (inside : index ≤ buffer.length) :
    (overwrite buffer index text).drop (index + text.length) =
      buffer.drop (index + text.length) := by
  unfold overwrite
  have front : index + text.length = (buffer.take index ++ text).length := by
    rw [List.length_append, List.length_take]
    omega
  rw [front, List.drop_left]

theorem take_overwrite_of_le {count : Nat} (before : count ≤ index) (inside : index ≤ buffer.length) :
    (overwrite buffer index text).take count = buffer.take count := by
  unfold overwrite
  rw [List.append_assoc, List.take_append_of_le_length, List.take_take, Nat.min_eq_left before]
  rw [List.length_take]
  omega

theorem overwrite_append (inside : index ≤ buffer.length) :
    overwrite (overwrite buffer index text) (index + text.length) more =
      overwrite buffer index (text ++ more) := by
  have behind : (overwrite buffer index text).drop (index + text.length + more.length) =
      buffer.drop (index + (text.length + more.length)) := by
    rw [← List.drop_drop, drop_overwrite inside, List.drop_drop, Nat.add_assoc]
  rw [overwrite, take_overwrite inside, behind, overwrite, List.length_append, List.append_assoc,
    List.append_assoc, List.append_assoc, List.append_assoc]

theorem take_overwrite_append (fits : index + text.length ≤ buffer.length) :
    (overwrite buffer index (text ++ more)).take (index + text.length) =
      buffer.take index ++ text := by
  have inside : index ≤ buffer.length := by omega
  have length : (overwrite buffer index text).length = buffer.length := overwrite_length fits
  rw [← overwrite_append inside, take_overwrite_of_le (Nat.le_refl _) (by omega),
    take_overwrite inside]

theorem overwrite_overwrite (inside : index ≤ buffer.length) (longer : text.length ≤ more.length) :
    overwrite (overwrite buffer index text) index more = overwrite buffer index more := by
  obtain ⟨extra, sum⟩ := Nat.exists_eq_add_of_le longer
  have behind : (overwrite buffer index text).drop (index + more.length) =
      buffer.drop (index + more.length) := by
    rw [sum, ← Nat.add_assoc, ← List.drop_drop, drop_overwrite inside, List.drop_drop]
  rw [overwrite, take_overwrite_of_le (Nat.le_refl index) inside, behind, overwrite]

theorem storeChar_eq (inside : index < buffer.length) :
    storeChar buffer index char = some (overwrite buffer index [char]) := by
  unfold storeChar overwrite
  rw [if_pos inside, List.set_eq_take_append_cons_drop, if_pos inside, List.append_assoc]
  rfl

theorem storeChar_outside (outside : buffer.length ≤ index) : storeChar buffer index char = none := by
  unfold storeChar
  rw [if_neg (by omega)]

theorem storeChar_behind (char : UInt8) (inside : index + text.length < buffer.length) :
    storeChar (overwrite buffer index text) (index + text.length) char =
      some (overwrite buffer index (text ++ [char])) := by
  rw [storeChar_eq, overwrite_append (by omega)]
  rw [overwrite_length (by omega)]
  exact inside

theorem storeChar_before (inside : index + text.length < buffer.length) :
    storeChar (overwrite buffer (index + 1) text) index char =
      some (overwrite buffer index (char :: text)) := by
  have behind : (overwrite buffer (index + 1) text).drop (index + 1) =
      text ++ buffer.drop (index + 1 + text.length) := by
    have front : index + 1 = (buffer.take (index + 1)).length := by
      rw [List.length_take]
      omega
    unfold overwrite
    rw [List.append_assoc]
    nth_rewrite 1 [front]
    rw [List.drop_left]
  rw [storeChar_eq]
  · congr 1
    rw [overwrite, take_overwrite_of_le (Nat.le_succ index) (by omega), List.length_singleton,
      behind, overwrite, List.length_cons, Nat.add_right_comm index 1 text.length, List.append_assoc,
      List.append_assoc]
    rfl
  · rw [overwrite_length (by omega)]
    omega

/-- A text that was written with its NUL is read back from where it starts. -/
theorem readsText_overwrite (inside : index + text.length < buffer.length) (noNul : 0 ∉ text) :
    ReadsText (fun place => (overwrite buffer index (text ++ [0]))[index + place]?) text where
  chars place before := by
    have taken : (buffer.take index).length = index := by
      rw [List.length_take, Nat.min_eq_left (by omega)]
    unfold overwrite
    rw [List.append_assoc, List.getElem?_append_right (by omega), taken, Nat.add_sub_cancel_left,
      List.getElem?_append_left]
    rw [List.length_append]
    exact before
  noNul := noNul

theorem overwrite_nul (inside : index < buffer.length) :
    (overwrite buffer index [0])[index]? = some 0 := by
  have reads : ReadsText (fun place => (overwrite buffer index ([] ++ [0]))[index + place]?) [] :=
    readsText_overwrite inside List.not_mem_nil
  exact reads.chars 0 Nat.zero_lt_one

end CharBuffers

end DoggOS

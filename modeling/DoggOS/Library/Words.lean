/-
Little-endian words in byte memory.

A block of memory is a function from offsets to bytes.  A word is read and
stored at any offset, or as an entry of an array of words; storing a word
changes its four bytes and nothing else.
-/

import Mathlib.Tactic.TypeStar
import Mathlib.Data.UInt

namespace DoggOS

abbrev Bytes := Nat → UInt8

def loadHalfAt (bytes : Bytes) (offset : Nat) : Nat :=
  (bytes offset).toNat + 256 * (bytes (offset + 1)).toNat

def loadWordAt (bytes : Bytes) (offset : Nat) : Nat :=
  loadHalfAt bytes offset + 65536 * loadHalfAt bytes (offset + 2)

def loadLongAt (bytes : Bytes) (offset : Nat) : Nat :=
  loadWordAt bytes offset + 4294967296 * loadWordAt bytes (offset + 4)

def loadWord (bytes : Bytes) (index : Nat) : Nat := loadWordAt bytes (4 * index)

def storeWord (bytes : Bytes) (index word : Nat) : Bytes := fun offset =>
  if offset / 4 = index then UInt8.ofNat (word / 256 ^ (offset % 4)) else bytes offset

def fillBytes (bytes : Bytes) (start count : Nat) (source : Bytes) : Bytes := fun offset =>
  if start ≤ offset ∧ offset < start + count then source (offset - start) else bytes offset

def storeWordAt (bytes : Bytes) (offset word : Nat) : Bytes :=
  fillBytes bytes offset 4 fun place => UInt8.ofNat (word / 256 ^ place)

namespace Words

variable {bytes other : Bytes} {index word : Nat}

theorem loadWordAt_moved {offset moved : Nat}
    (same : ∀ place < 4, other (moved + place) = bytes (offset + place)) :
    loadWordAt other moved = loadWordAt bytes offset := by
  have first := same 0 (by omega)
  have second := same 1 (by omega)
  have third := same 2 (by omega)
  have fourth := same 3 (by omega)
  unfold loadWordAt loadHalfAt
  rw [Nat.add_zero, Nat.add_zero] at first
  rw [first, second, third, Nat.add_assoc moved 2 1, fourth, Nat.add_assoc offset 2 1]

theorem loadWordAt_congr {offset : Nat}
    (same : ∀ place < 4, other (offset + place) = bytes (offset + place)) :
    loadWordAt other offset = loadWordAt bytes offset := loadWordAt_moved same

theorem loadLongAt_congr {offset : Nat}
    (same : ∀ place < 8, other (offset + place) = bytes (offset + place)) :
    loadLongAt other offset = loadLongAt bytes offset := by
  have low : loadWordAt other offset = loadWordAt bytes offset := by
    apply loadWordAt_congr
    intro place inWord
    exact same place (by omega)
  have high : loadWordAt other (offset + 4) = loadWordAt bytes (offset + 4) := by
    apply loadWordAt_congr
    intro place inWord
    rw [Nat.add_assoc]
    exact same (4 + place) (by omega)
  unfold loadLongAt
  rw [low, high]

theorem loadLongAt_of_bytes {bytes : Bytes} {offset value : Nat} (fits : value < 2 ^ 64)
    (each : ∀ place < 8, bytes (offset + place) = UInt8.ofNat (value / 256 ^ place)) :
    loadLongAt bytes offset = value := by
  have digit : ∀ place < 8, (bytes (offset + place)).toNat = value / 256 ^ place % 256 := by
    intro place inLong
    rw [each place inLong]
    exact UInt8.toNat_ofNat'
  have first := digit 0 (by omega)
  have second := digit 1 (by omega)
  have third := digit 2 (by omega)
  have fourth := digit 3 (by omega)
  have fifth := digit 4 (by omega)
  have sixth := digit 5 (by omega)
  have seventh := digit 6 (by omega)
  have eighth := digit 7 (by omega)
  unfold loadLongAt loadWordAt loadHalfAt
  simp only [Nat.add_assoc, Nat.reduceAdd]
  rw [Nat.add_zero] at first
  rw [first, second, third, fourth, fifth, sixth, seventh, eighth]
  omega

theorem loadWord_congr (same : ∀ offset, offset / 4 = index → other offset = bytes offset) :
    loadWord other index = loadWord bytes index := by
  unfold loadWord loadWordAt loadHalfAt
  rw [same (4 * index) (by omega), same (4 * index + 1) (by omega), same (4 * index + 2) (by omega),
    same (4 * index + 2 + 1) (by omega)]

theorem loadWord_storeWord (bytes : Bytes) (fits : word < 2 ^ 32) :
    loadWord (storeWord bytes index word) index = word := by
  have byte : ∀ place, place < 4 → storeWord bytes index word (4 * index + place) =
      UInt8.ofNat (word / 256 ^ place) := by
    intro place small
    have inWord : (4 * index + place) / 4 = index := by omega
    have isPlace : (4 * index + place) % 4 = place := by omega
    unfold storeWord
    rw [if_pos inWord, isPlace]
  have first := byte 0 (by omega)
  have second := byte 1 (by omega)
  have third := byte 2 (by omega)
  have fourth := byte 3 (by omega)
  unfold loadWord loadWordAt loadHalfAt
  rw [Nat.add_zero] at first
  rw [first, second, third, show 4 * index + 2 + 1 = 4 * index + 3 by omega, fourth]
  simp only [UInt8.toNat_ofNat']
  omega

theorem loadWord_storeWord_of_ne (bytes : Bytes) {place : Nat} (different : place ≠ index) :
    loadWord (storeWord bytes index word) place = loadWord bytes place := by
  apply loadWord_congr
  intro offset inWord
  unfold storeWord
  rw [if_neg (by omega)]

theorem loadWord_zero (clear : ∀ offset, offset / 4 = index → bytes offset = 0) :
    loadWord bytes index = 0 := by
  have same : loadWord bytes index = loadWord (fun _ => 0) index := loadWord_congr clear
  rw [same]
  rfl

theorem fillBytes_zero (bytes : Bytes) (start : Nat) (source : Bytes) :
    fillBytes bytes start 0 source = bytes := by
  funext offset
  unfold fillBytes
  rw [if_neg (by omega)]

theorem fillBytes_inside {start count place : Nat} (source : Bytes) (inside : place < count) :
    fillBytes bytes start count source (start + place) = source place := by
  unfold fillBytes
  rw [if_pos (by omega), Nat.add_sub_cancel_left]

theorem fillBytes_outside {start count place : Nat} (source : Bytes)
    (outside : place < start ∨ start + count ≤ place) :
    fillBytes bytes start count source place = bytes place := by
  unfold fillBytes
  rw [if_neg (by omega)]

theorem loadWordAt_fillBytes_outside {start count offset : Nat} (source : Bytes)
    (outside : offset + 4 ≤ start ∨ start + count ≤ offset) :
    loadWordAt (fillBytes bytes start count source) offset = loadWordAt bytes offset := by
  apply loadWordAt_congr
  intro place inWord
  exact fillBytes_outside source (by omega)

theorem loadWordAt_storeWordAt (bytes : Bytes) (offset : Nat) (fits : word < 2 ^ 32) :
    loadWordAt (storeWordAt bytes offset word) offset = word := by
  have byte : ∀ place < 4, (storeWordAt bytes offset word (offset + place)).toNat =
      word / 256 ^ place % 256 := by
    intro place inWord
    unfold storeWordAt
    rw [fillBytes_inside _ inWord, UInt8.toNat_ofNat']
  have first := byte 0 (by omega)
  have second := byte 1 (by omega)
  have third := byte 2 (by omega)
  have fourth := byte 3 (by omega)
  unfold loadWordAt loadHalfAt
  rw [Nat.add_zero] at first
  rw [first, second, third, Nat.add_assoc offset 2 1, fourth]
  omega

theorem update_fillBytes (bytes : Bytes) (start count : Nat) (source : Bytes) :
    Function.update (fillBytes bytes start count source) (start + count) (source count) =
      fillBytes bytes start (count + 1) source := by
  funext place
  unfold fillBytes
  by_cases last : place = start + count
  · rw [last, Function.update_self, if_pos (by omega), Nat.add_sub_cancel_left]
  · rw [Function.update_of_ne last]
    by_cases inside : start ≤ place ∧ place < start + count
    · rw [if_pos inside, if_pos (by omega)]
    · rw [if_neg inside, if_neg (by omega)]

theorem fillBytes_congr {start count : Nat} {source same : Bytes}
    (equal : ∀ place < count, source place = same place) :
    fillBytes bytes start count source = fillBytes bytes start count same := by
  funext offset
  unfold fillBytes
  split
  · exact equal _ (by omega)
  · rfl

theorem fillBytes_append (bytes : Bytes) (start first second : Nat) (source : Bytes) :
    fillBytes (fillBytes bytes start first source) (start + first) second
      (fun place => source (first + place)) = fillBytes bytes start (first + second) source := by
  funext offset
  unfold fillBytes
  by_cases inSecond : start + first ≤ offset ∧ offset < start + first + second
  · have place : first + (offset - (start + first)) = offset - start := by omega
    rw [if_pos inSecond, if_pos (by omega), ← place]
  · rw [if_neg inSecond]
    by_cases inFirst : start ≤ offset ∧ offset < start + first
    · rw [if_pos inFirst, if_pos (by omega)]
    · rw [if_neg inFirst, if_neg (by omega)]

end Words

end DoggOS

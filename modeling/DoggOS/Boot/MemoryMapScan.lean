/-
The scan of the firmware's memory map in the second boot stage.

The table of the scan lies below 64 KiB and `di` goes through it entry by entry,
so it is counted in entries here.  Every call stores at `di`; the entry stays
when `di` goes one further.
-/

import Mathlib.Data.List.Basic

namespace DoggOS.Boot

/-- The 24 bytes that a call of the firmware stores. -/
structure MemRange where
  base : BitVec 64
  length : BitVec 64
  type : BitVec 32
  attributes : BitVec 32
  deriving DecidableEq

/-- What `int 0x15` answers with `0xe820`: one entry a call, and `ebx` zero with the last one. -/
structure MemoryMap where
  entries : List MemRange
  ebxAfter : Nat → BitVec 32
  more : ∀ call, call + 1 < entries.length → ebxAfter call ≠ 0
  ended : ebxAfter (entries.length - 1) = 0

structure Scan where
  memRanges : List MemRange
  di : Nat
  rangeCount : Nat
  ebx : BitVec 32
  calls : Nat

/-- The firmware stores at `di`; outside the table the scan has no outcome. -/
def int15 (map : MemoryMap) (scan : Scan) : Option Scan :=
  let answered := { scan with ebx := map.ebxAfter scan.calls, calls := scan.calls + 1 }
  match map.entries[scan.calls]? with
  | none => some answered
  | some entry =>
      if scan.di < scan.memRanges.length then
        some { answered with memRanges := scan.memRanges.set scan.di entry }
      else none

def memMapLoop (map : MemoryMap) : Nat → Scan → Option Scan
  | 0, _ => none
  | turns + 1, scan =>
      (int15 map scan).bind fun scan =>
        if scan.ebx = 0 then some scan
        -- The carry is the borrow of the comparison with zero, not the firmware's.
        else if scan.ebx < 0 then some scan
        else
          scan.memRanges[scan.di]?.bind fun range =>
            if range.type ≠ 1 then memMapLoop map turns scan
            else if range.length.setWidth 32 = 0 then memMapLoop map turns scan
            else if range.base.setWidth 32 = 0 then memMapLoop map turns scan
            else
              memMapLoop map turns
                { scan with di := scan.di + 1, rangeCount := scan.rangeCount + 1 }

/-- `mem_ranges` and `range_count` as the image has them, and `ebx` and `di` as they are set. -/
def Scan.start : Scan := ⟨List.replicate 32 ⟨0, 0, 0, 0⟩, 0, 0, 0, 0⟩

def usable (range : MemRange) : Bool := range.type = 1 && range.length ≠ 0 && range.base ≠ 0

def appended (range : MemRange) : Bool :=
  range.type = 1 && range.length.setWidth 32 ≠ 0 && range.base.setWidth 32 ≠ 0

/-- The scan ends, and it leaves the usable entries in the table. -/
def ScansMap (map : MemoryMap) : Prop :=
  ∃ turns after, memMapLoop map turns Scan.start = some after ∧
    after.rangeCount = (map.entries.filter usable).length ∧
    after.memRanges.take after.rangeCount = map.entries.filter usable

/-- The last entry is not usable, no usable entry in front of it has a length or a base that is a
multiple of 4 GiB, and these are at most 31. -/
def FitsScan (map : MemoryMap) : Prop :=
  (∀ entry ∈ map.entries.getLast?, usable entry = false) ∧
    (∀ entry ∈ map.entries.dropLast, usable entry = true →
      entry.length.setWidth 32 ≠ 0 ∧ entry.base.setWidth 32 ≠ 0) ∧
    (map.entries.dropLast.filter usable).length ≤ 31

variable {map : MemoryMap} {scan after : Scan} {seen rest : List MemRange}

theorem usable_iff {range : MemRange} :
    usable range = true ↔ range.type = 1 ∧ range.length ≠ 0 ∧ range.base ≠ 0 := by
  simp only [usable, Bool.and_eq_true, decide_eq_true_eq, and_assoc]

theorem appended_iff {range : MemRange} :
    appended range = true ↔
      range.type = 1 ∧ range.length.setWidth 32 ≠ 0 ∧ range.base.setWidth 32 ≠ 0 := by
  simp only [appended, Bool.and_eq_true, decide_eq_true_eq, and_assoc]

theorem usable_of_appended {range : MemRange} (append : appended range = true) :
    usable range = true := by
  obtain ⟨type, length, base⟩ := appended_iff.mp append
  refine usable_iff.mpr ⟨type, fun zero => length ?_, fun zero => base ?_⟩
  · rw [zero]
    rfl
  · rw [zero]
    rfl

structure Scanned (scan : Scan) (seen : List MemRange) : Prop where
  calls : scan.calls = seen.length
  di : scan.di = (seen.filter appended).length
  rangeCount : scan.rangeCount = scan.di
  length : scan.memRanges.length = 32
  table : scan.memRanges.take scan.di = seen.filter appended

namespace Scanned

theorem start : Scanned Scan.start [] :=
  ⟨rfl, rfl, rfl, List.length_replicate, rfl⟩

def answered (map : MemoryMap) (scan : Scan) (entry : MemRange) : Scan :=
  { scan with
    memRanges := scan.memRanges.set scan.di entry
    ebx := map.ebxAfter scan.calls
    calls := scan.calls + 1 }

theorem int15_eq {entry : MemRange} (scanned : Scanned scan seen)
    (split : map.entries = seen ++ entry :: rest) :
    int15 map scan = if scan.di < 32 then some (answered map scan entry) else none := by
  have here : map.entries[scan.calls]? = some entry := by
    rw [split, scanned.calls, List.getElem?_append_right (Nat.le_refl _), Nat.sub_self]
    rfl
  unfold int15
  rw [here, scanned.length]
  rfl

theorem take_set {entry : MemRange} (scanned : Scanned scan seen) :
    (scan.memRanges.set scan.di entry).take scan.di = seen.filter appended := by
  rw [List.take_set_of_le (Nat.le_refl _), scanned.table]

theorem append (map : MemoryMap) {entry : MemRange} (scanned : Scanned scan seen)
    (inside : scan.di < 32) (append : appended entry = true) :
    Scanned { answered map scan entry with di := scan.di + 1, rangeCount := scan.rangeCount + 1 }
      (seen ++ [entry]) := by
  have filtered : (seen ++ [entry]).filter appended = seen.filter appended ++ [entry] := by
    rw [List.filter_append, List.filter_cons_of_pos append, List.filter_nil]
  refine ⟨?_, ?_, congrArg Nat.succ scanned.rangeCount, ?_, ?_⟩
  · rw [List.length_append, ← scanned.calls]
    rfl
  · rw [filtered, List.length_append, ← scanned.di]
    rfl
  · exact List.length_set.trans scanned.length
  · change (scan.memRanges.set scan.di entry).take (scan.di + 1) = _
    rw [List.take_add_one, scanned.take_set, List.getElem?_set_self (scanned.length ▸ inside),
      filtered]
    rfl

theorem ignore (map : MemoryMap) {entry : MemRange} (scanned : Scanned scan seen)
    (ignored : appended entry = false) :
    Scanned (answered map scan entry) (seen ++ [entry]) := by
  have filtered : (seen ++ [entry]).filter appended = seen.filter appended := by
    rw [List.filter_append, List.filter_cons_of_neg (ne_true_of_eq_false ignored), List.filter_nil,
      List.append_nil]
  refine ⟨?_, ?_, scanned.rangeCount, List.length_set.trans scanned.length, ?_⟩
  · rw [List.length_append, ← scanned.calls]
    rfl
  · rw [filtered, ← scanned.di]
    rfl
  · rw [filtered]
    exact scanned.take_set

theorem turn {entry : MemRange} (scanned : Scanned scan seen)
    (split : map.entries = seen ++ entry :: rest) (others : rest ≠ []) (inside : scan.di < 32) :
    ∃ further, Scanned further (seen ++ [entry]) ∧
      ∀ turns, memMapLoop map (turns + 1) scan = memMapLoop map turns further := by
  have more : (answered map scan entry).ebx ≠ 0 := by
    have positive := List.length_pos_iff.mpr others
    apply map.more
    rw [split, scanned.calls, List.length_append, List.length_cons]
    omega
  have noBorrow : ¬(answered map scan entry).ebx < 0 := BitVec.not_lt_zero
  have here : (answered map scan entry).memRanges[(answered map scan entry).di]? = some entry :=
    List.getElem?_set_self (scanned.length ▸ inside)
  have turned (turns : Nat) : memMapLoop map (turns + 1) scan =
      if entry.type ≠ 1 then memMapLoop map turns (answered map scan entry)
      else if entry.length.setWidth 32 = 0 then memMapLoop map turns (answered map scan entry)
      else if entry.base.setWidth 32 = 0 then memMapLoop map turns (answered map scan entry)
      else
        memMapLoop map turns
          { answered map scan entry with di := scan.di + 1, rangeCount := scan.rangeCount + 1 } := by
    rw [memMapLoop, scanned.int15_eq split, if_pos inside, Option.bind_some, if_neg more,
      if_neg noBorrow, here]
    rfl
  cases kept : appended entry with
  | true =>
      refine ⟨_, scanned.append map inside kept, fun turns => ?_⟩
      obtain ⟨type, length, base⟩ := appended_iff.mp kept
      rw [turned, if_neg (not_not_intro type), if_neg length, if_neg base]
  | false =>
      refine ⟨_, scanned.ignore map kept, fun turns => ?_⟩
      rw [turned]
      split_ifs with type length base
      · rfl
      · rfl
      · rfl
      · have tests := appended_iff.mpr ⟨not_not.mp type, length, base⟩
        exact absurd (tests.symm.trans kept) (by decide)

theorem last {entry : MemRange} (scanned : Scanned scan seen)
    (split : map.entries = seen ++ [entry]) (turns : Nat) :
    memMapLoop map (turns + 1) scan =
      if scan.di < 32 then some (answered map scan entry) else none := by
  have ended : (answered map scan entry).ebx = 0 := by
    change map.ebxAfter scan.calls = 0
    rw [scanned.calls, ← map.ended, split, List.length_append, List.length_singleton,
      Nat.add_sub_cancel]
  rw [memMapLoop, scanned.int15_eq split]
  by_cases inside : scan.di < 32
  · rw [if_pos inside, Option.bind_some, if_pos ended]
  · rw [if_neg inside, Option.bind_none]

end Scanned

theorem memMapLoop_outside {entry : MemRange} (scanned : Scanned scan seen)
    (split : map.entries = seen ++ entry :: rest) (outside : ¬scan.di < 32) (turns : Nat) :
    memMapLoop map turns scan = none := by
  cases turns with
  | zero => rfl
  | succ turns => rw [memMapLoop, scanned.int15_eq split, if_neg outside, Option.bind_none]

/-- A scan with an outcome has examined all entries but the last. -/
theorem memMapLoop_ran {entry : MemRange} {turns : Nat} (scanned : Scanned scan seen)
    (split : map.entries = seen ++ (rest ++ [entry]))
    (ran : memMapLoop map turns scan = some after) :
    ((seen ++ rest).filter appended).length ≤ 31 ∧
      after.rangeCount = ((seen ++ rest).filter appended).length ∧
      after.memRanges.take after.rangeCount = (seen ++ rest).filter appended := by
  -- The induction is on the entries in front of the last one, each a turn.
  induction rest generalizing turns scan seen with
  | nil =>
      rw [List.nil_append] at split
      rw [List.append_nil]
      cases turns with
      | zero => cases ran
      | succ turns =>
          rw [scanned.last split] at ran
          obtain ⟨inside, ⟨⟩⟩ := Option.ite_none_right_eq_some.mp ran
          refine ⟨scanned.di ▸ Nat.le_of_lt_succ inside, scanned.rangeCount.trans scanned.di, ?_⟩
          change (scan.memRanges.set scan.di entry).take scan.rangeCount = _
          rw [scanned.rangeCount, scanned.take_set]
  | cons first rest ih =>
      cases turns with
      | zero => cases ran
      | succ turns =>
          by_cases inside : scan.di < 32
          · obtain ⟨further, next, turned⟩ := scanned.turn split (List.concat_ne_nil _ _) inside
            rw [turned] at ran
            rw [List.append_cons]
            apply ih next _ ran
            rw [split, List.cons_append, List.append_cons]
          · rw [memMapLoop_outside scanned split inside] at ran
            cases ran

/-- A scan has an outcome when the entries that it appends leave a place for the last one. -/
theorem memMapLoop_runs {entry : MemRange} (scanned : Scanned scan seen)
    (split : map.entries = seen ++ (rest ++ [entry]))
    (room : ((seen ++ rest).filter appended).length ≤ 31) :
    ∃ after, memMapLoop map (rest.length + 1) scan = some after := by
  have inside : scan.di < 32 := by
    rw [List.filter_append, List.length_append, ← scanned.di] at room
    omega
  induction rest generalizing scan seen with
  | nil =>
      rw [List.nil_append] at split
      exact ⟨_, (scanned.last split _).trans (if_pos inside)⟩
  | cons first rest ih =>
      obtain ⟨further, next, turned⟩ := scanned.turn split (List.concat_ne_nil _ _) inside
      rw [List.length_cons, turned]
      rw [List.append_cons] at room
      apply ih next _ room
      · rw [List.filter_append, List.length_append, ← next.di] at room
        omega
      · rw [split, List.cons_append, List.append_cons]

theorem filter_usable_concat {front : List MemRange} {entry : MemRange}
    (last : usable entry = false) : (front ++ [entry]).filter usable = front.filter usable := by
  rw [List.filter_append, List.filter_cons_of_neg (ne_true_of_eq_false last), List.filter_nil,
    List.append_nil]

theorem filter_appended_eq_iff (front : List MemRange) (entry : MemRange) :
    front.filter appended = (front ++ [entry]).filter usable ↔
      usable entry = false ∧ ∀ range ∈ front, usable range = true →
        range.length.setWidth 32 ≠ 0 ∧ range.base.setWidth 32 ≠ 0 := by
  have inner : front.filter appended = (front.filter usable).filter appended := by
    rw [List.filter_filter]
    apply List.filter_congr
    intro range _
    cases append : appended range with
    | true => rw [usable_of_appended append, Bool.and_self]
    | false => rw [Bool.false_and]
  constructor
  -- An entry that is dropped makes the left side shorter, so equal lists drop none.
  · intro same
    have fewer := List.length_filter_le appended (front.filter usable)
    rw [← inner, same, List.filter_append, List.length_append] at fewer
    have none : [entry].filter usable = [] := List.eq_nil_of_length_eq_zero (by omega)
    rw [List.filter_append, none, List.append_nil, inner] at same
    refine ⟨?_, fun range member kept => ?_⟩
    · simpa only [List.filter_eq_nil_iff, List.mem_singleton, forall_eq, Bool.not_eq_true] using none
    · have append := List.filter_eq_self.mp same range (List.mem_filter.mpr ⟨member, kept⟩)
      exact (appended_iff.mp append).2
  · rintro ⟨last, halves⟩
    rw [filter_usable_concat last, inner, List.filter_eq_self]
    intro range member
    obtain ⟨inFront, kept⟩ := List.mem_filter.mp member
    exact appended_iff.mpr ⟨(usable_iff.mp kept).1, halves range inFront kept⟩

theorem scansMap_nil (empty : map.entries = []) : ScansMap map := by
  have nothing : map.entries[Scan.start.calls]? = none := by
    rw [empty]
    rfl
  have ended := map.ended
  rw [empty] at ended
  refine ⟨1, { Scan.start with ebx := map.ebxAfter 0, calls := 1 }, ?_, ?_, ?_⟩
  · rw [memMapLoop, int15, nothing]
    exact if_pos ended
  · rw [empty]
    rfl
  · rw [empty]
    rfl

/-- The scan leaves the usable entries exactly on these maps. -/
theorem memoryMapScan_exact (map : MemoryMap) : ScansMap map ↔ FitsScan map := by
  rcases List.eq_nil_or_concat map.entries with empty | ⟨front, entry, split⟩
  · refine iff_of_true (scansMap_nil empty) ?_
    unfold FitsScan
    rw [empty]
    exact ⟨(fun _ member => nomatch member), (fun _ member => nomatch member), Nat.zero_le _⟩
  · rw [List.concat_eq_append] at split
    have fits : FitsScan map ↔
        front.filter appended = map.entries.filter usable ∧
          (front.filter appended).length ≤ 31 := by
      unfold FitsScan
      rw [split, List.getLast?_concat, List.dropLast_concat, filter_appended_eq_iff]
      constructor
      · rintro ⟨last, halves, room⟩
        have same := (filter_appended_eq_iff front entry).mpr ⟨last entry rfl, halves⟩
        rw [filter_usable_concat (last entry rfl)] at same
        exact ⟨⟨last entry rfl, halves⟩, same ▸ room⟩
      · rintro ⟨⟨last, halves⟩, room⟩
        have same := (filter_appended_eq_iff front entry).mpr ⟨last, halves⟩
        rw [filter_usable_concat last] at same
        refine ⟨?_, halves, same ▸ room⟩
        rintro range ⟨⟩
        exact last
    rw [fits]
    constructor
    · rintro ⟨turns, after, ran, counted, table⟩
      obtain ⟨room, -, appends⟩ := memMapLoop_ran Scanned.start split ran
      exact ⟨appends.symm.trans table, room⟩
    · rintro ⟨same, room⟩
      obtain ⟨after, ran⟩ := memMapLoop_runs Scanned.start split room
      obtain ⟨-, counted, appends⟩ := memMapLoop_ran Scanned.start split ran
      refine ⟨_, after, ran, ?_, appends.trans same⟩
      rw [counted, ← same]
      rfl

/-- One usable entry, which is the last. -/
theorem memoryMapScan_one_range : ¬∀ map : MemoryMap, ScansMap map := by
  intro always
  let range : MemRange := ⟨0x100000, 0x7ee0000, 1, 0⟩
  have split : [range] = [] ++ ([] ++ [range]) := rfl
  obtain ⟨turns, after, ran, counted, -⟩ := always
    { entries := [range]
      ebxAfter := fun _ => 0
      more := fun _ more => absurd more (Nat.not_lt_of_le (Nat.le_add_left 1 _))
      ended := rfl }
  obtain ⟨-, none, -⟩ := memMapLoop_ran Scanned.start split ran
  exact absurd (none.symm.trans counted) (by decide)

end DoggOS.Boot

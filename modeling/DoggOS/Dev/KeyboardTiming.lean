/-
The keyboard and the times of its interrupts.

The bytes of one call are seen as scan codes of one or two bytes.  A call keeps
nothing of a code that it has read in part: behind a prefix without a second
byte the prefix is read again, as the code 0x60 of the second table, and that
table is shorter.  So the calls agree with one call on all the bytes as long as
every code is in its table and none is cut.
-/

import DoggOS.Dev.Keyboard
import Mathlib.Tactic.Common

namespace DoggOS.Dev

inductive ScanCode where
  | one (data : UInt8)
  | two (data : UInt8)
  | cut
  deriving DecidableEq

def scanCodes : List UInt8 → List ScanCode
  | [] => []
  | [byte] => if byte = 0xe0 then [.cut] else [.one byte]
  | byte :: data :: bytes =>
      if byte = 0xe0 then .two data :: scanCodes bytes else .one byte :: scanCodes (data :: bytes)

namespace ScanCode

/-- The code has an entry in its table, and a key that is pressed has a character.  The keys
without one are Escape, the function keys, Scroll Lock and Enter of the key pad. -/
def InTables : ScanCode → Prop
  | one data =>
      data &&& 0x7f ≤ 0x58 ∧
        data ∉ [0x01, 0x3b, 0x3c, 0x3d, 0x3e, 0x3f, 0x40, 0x41, 0x42, 0x43, 0x44, 0x46, 0x57, 0x58]
  | two data =>
      data &&& 0x7f = 0x2a ∨ data &&& 0x7f = 0x36 ∨ data &&& 0x7f ≤ 0x53 ∧ data ≠ 0x1c
  | cut => False

instance : DecidablePred InTables
  | one _ => inferInstanceAs (Decidable (_ ∧ _))
  | two _ => inferInstanceAs (Decidable (_ ∨ _ ∨ _ ∧ _))
  | cut => inferInstanceAs (Decidable False)

def event : ScanCode → Option (Option KeyEvent)
  | one data => (lookUpKey scanset1KeyLut1 data).map some
  | two data =>
      if data &&& 0x7f = 0x2a ∨ data &&& 0x7f = 0x36 then some none
      else (lookUpKey scanset1KeyLut2 data).map some
  | cut => none

def run (terminal : Bool) (keyboard : Keyboard) (code : ScanCode) :
    Option (Keyboard × List UInt8) :=
  code.event.bind fun event =>
    match event with
    | some event => keyboardHandler terminal keyboard event
    | none => some (keyboard, [])

def runAll (terminal : Bool) : List ScanCode → Keyboard → Option (Keyboard × List UInt8)
  | [], keyboard => some (keyboard, [])
  | code :: codes, keyboard =>
      (code.run terminal keyboard).bind fun handled =>
        (runAll terminal codes handled.1).map fun rest => (rest.1, handled.2 ++ rest.2)

end ScanCode

/-- These calls write what one call on all the bytes writes, and no lookup is outside its table. -/
def TimingFree (terminal : Bool) (calls : List (List UInt8)) (state : KeyboardState) : Prop :=
  ∃ split whole, interrupts terminal calls state = some split ∧
    interrupts terminal [calls.flatten] state = some whole ∧ split.written = whole.written

variable {terminal : Bool} {keyboard : Keyboard}

theorem keyboardHandler_isSome (terminal : Bool) (keyboard : Keyboard) (event : KeyEvent) :
    (keyboardHandler terminal keyboard event).isSome = true ↔
      (event.type = .keyDown → event.key < 107) := by
  unfold keyboardHandler
  by_cases isLeft : event.key = lShiftKey
  · rw [if_pos isLeft, isLeft]
    exact iff_of_true rfl (fun _ => by decide)
  by_cases isRight : event.key = rShiftKey
  · rw [if_neg isLeft, if_pos isRight, isRight]
    exact iff_of_true rfl (fun _ => by decide)
  by_cases isCaps : event.key = caspLockKey
  · rw [if_neg isLeft, if_neg isRight, if_pos isCaps, isCaps]
    exact iff_of_true rfl (fun _ => by decide)
  rw [if_neg isLeft, if_neg isRight, if_neg isCaps]
  by_cases down : event.type = .keyDown
  · have sizes : shiftKeyLut.length = 107 ∧ keyLut.length = 107 := by decide +kernel
    rw [if_pos down, Option.isSome_map, isSome_getElem?]
    constructor
    · intro inTable _
      split_ifs at inTable <;> omega
    · intro inTable
      have small := inTable down
      split_ifs <;> omega
  · rw [if_neg down]
    exact iff_of_true rfl (fun isDown => absurd isDown down)

def Typeable : Option (Option KeyEvent) → Bool
  | some (some event) => decide (event.type = .keyDown → event.key < 107)
  | some none => true
  | none => false

theorem typeable_iff : ∀ byte < 256,
    ∀ code ∈ [ScanCode.one (UInt8.ofNat byte), ScanCode.two (UInt8.ofNat byte)],
    Typeable code.event = decide code.InTables := by
  decide +kernel

theorem event_inTables (code : ScanCode) : Typeable code.event = true ↔ code.InTables := by
  have byteLt : ∀ byte : UInt8, byte.toNat < 256 := fun byte => byte.toNat_lt
  cases code with
  | one data =>
      have known := typeable_iff data.toNat (byteLt data) _ List.mem_cons_self
      rw [UInt8.ofNat_toNat] at known
      rw [known, decide_eq_true_iff]
  | two data =>
      have known := typeable_iff data.toNat (byteLt data) _ (List.mem_cons_of_mem _ List.mem_cons_self)
      rw [UInt8.ofNat_toNat] at known
      rw [known, decide_eq_true_iff]
  | cut => exact iff_of_false Bool.false_ne_true not_false

theorem run_isSome (terminal : Bool) (keyboard : Keyboard) (code : ScanCode) :
    (code.run terminal keyboard).isSome = true ↔ code.InTables := by
  rw [← event_inTables]
  unfold ScanCode.run
  cases code.event with
  | none => exact Iff.rfl
  | some event =>
      cases event with
      | none => exact Iff.rfl
      | some event =>
          rw [Option.bind_some, keyboardHandler_isSome]
          exact decide_eq_true_iff.symm

theorem runAll_isSome (terminal : Bool) (codes : List ScanCode) (keyboard : Keyboard) :
    (ScanCode.runAll terminal codes keyboard).isSome = true ↔ ∀ code ∈ codes, code.InTables := by
  induction codes generalizing keyboard with
  | nil => exact iff_of_true rfl (fun code member => absurd member List.not_mem_nil)
  | cons code codes ih =>
      have first := run_isSome terminal keyboard code
      rw [ScanCode.runAll, List.forall_mem_cons, ← first]
      cases code.run terminal keyboard with
      | none => exact iff_of_false Bool.false_ne_true (fun both => Bool.false_ne_true both.1)
      | some handled =>
          rw [Option.bind_some, Option.isSome_map, ih]
          exact (and_iff_right rfl).symm

theorem runAll_append (terminal : Bool) (first second : List ScanCode) (keyboard : Keyboard) :
    ScanCode.runAll terminal (first ++ second) keyboard =
      (ScanCode.runAll terminal first keyboard).bind fun handled =>
        (ScanCode.runAll terminal second handled.1).map fun rest =>
          (rest.1, handled.2 ++ rest.2) := by
  induction first generalizing keyboard with
  | nil =>
      rw [List.nil_append, ScanCode.runAll, Option.bind_some]
      cases ScanCode.runAll terminal second keyboard <;> rfl
  | cons code first ih =>
      rw [List.cons_append, ScanCode.runAll, ScanCode.runAll]
      cases code.run terminal keyboard with
      | none => rfl
      | some handled =>
          rw [Option.bind_some, Option.bind_some, ih]
          cases ScanCode.runAll terminal first handled.1 with
          | none => rfl
          | some rest =>
              rw [Option.bind_some, Option.map_some, Option.bind_some]
              dsimp only
              cases ScanCode.runAll terminal second rest.1 with
              | none => rfl
              | some last =>
                  rw [Option.map_some, Option.map_some, Option.map_some, List.append_assoc]

theorem scanCodes_append (first second : List UInt8) (whole : ScanCode.cut ∉ scanCodes first) :
    scanCodes (first ++ second) = scanCodes first ++ scanCodes second := by
  induction first using scanCodes.induct with
  | case1 => rfl
  | case2 =>
      exact absurd List.mem_cons_self whole
  | case3 byte ordinary =>
      rw [scanCodes, if_neg ordinary]
      cases second with
      | nil => exact if_neg ordinary
      | cons data bytes => exact if_neg ordinary
  | case4 data bytes ih =>
      rw [scanCodes, if_pos rfl] at whole
      rw [List.cons_append, List.cons_append, scanCodes, if_pos rfl, scanCodes, if_pos rfl,
        ih (fun member => whole (List.mem_cons_of_mem _ member)), List.cons_append]
  | case5 byte data bytes ordinary ih =>
      rw [scanCodes, if_neg ordinary] at whole
      rw [List.cons_append, List.cons_append, scanCodes, if_neg ordinary, scanCodes,
        if_neg ordinary, ← List.cons_append,
        ih (fun member => whole (List.mem_cons_of_mem _ member)), List.cons_append]

theorem scanCodes_flatten (calls : List (List UInt8))
    (whole : ∀ bytes ∈ calls, ScanCode.cut ∉ scanCodes bytes) :
    scanCodes calls.flatten = calls.flatMap scanCodes := by
  induction calls with
  | nil => rfl
  | cons bytes calls ih =>
      rw [List.flatten_cons, List.flatMap_cons, scanCodes_append _ _ (whole bytes List.mem_cons_self),
        ih (fun later member => whole later (List.mem_cons_of_mem _ member))]

def seen (state : KeyboardState) : Keyboard × List UInt8 := (state.keyboard, state.written)

def behind (written : List UInt8) (handled : Keyboard × List UInt8) : Keyboard × List UInt8 :=
  (handled.1, written ++ handled.2)

theorem turn_event (terminal : Bool) (state : KeyboardState) {controller : Controller}
    (code : ScanCode)
    (read : scanset1Key state.controller = code.event.map fun event => (event, controller)) :
    interruptTurn terminal state =
      (code.run terminal state.keyboard).map fun handled =>
        { controller := controller, keyboard := handled.1, written := state.written ++ handled.2 } := by
  unfold interruptTurn ScanCode.run
  rw [read]
  cases code.event with
  | none => rfl
  | some event =>
      cases event with
      | none =>
          rw [Option.map_some, Option.bind_some, Option.bind_some, Option.map_some, List.append_nil]
      | some event =>
          rw [Option.map_some, Option.bind_some, Option.bind_some]

theorem scanset1Key_one {byte : UInt8} (ordinary : ¬byte = 0xe0) (bytes : List UInt8)
    (last : UInt8) :
    scanset1Key ⟨byte :: bytes, last⟩ =
      (ScanCode.one byte).event.map fun event => (event, ⟨bytes, byte⟩) := by
  unfold scanset1Key Controller.readData ScanCode.event
  dsimp only
  rw [if_neg ordinary, Option.map_map]
  rfl

theorem scanset1Key_two (data : UInt8) (bytes : List UInt8) (last : UInt8) :
    scanset1Key ⟨0xe0 :: data :: bytes, last⟩ =
      (ScanCode.two data).event.map fun event => (event, ⟨bytes, data⟩) := by
  unfold scanset1Key Controller.readData ScanCode.event
  dsimp only
  rw [if_pos rfl]
  by_cases fake : data &&& 0x7f = 0x2a ∨ data &&& 0x7f = 0x36
  · rw [if_pos fake, if_pos fake]
    rfl
  · rw [if_neg fake, if_neg fake, Option.map_map]
    rfl

/-- The prefix is read a second time. -/
theorem scanset1Key_cut (last : UInt8) : scanset1Key ⟨[0xe0], last⟩ = none := by
  have outside : lookUpKey scanset1KeyLut2 0xe0 = none := by decide +kernel
  unfold scanset1Key Controller.readData
  dsimp only
  rw [if_pos rfl, if_neg (by decide), outside]
  rfl

theorem interruptLoop_step {terminal : Bool} {byte last : UInt8} {bytes : List UInt8}
    {controller : Controller} {code : ScanCode} {codes : List ScanCode} {turns : Nat}
    (read : scanset1Key ⟨byte :: bytes, last⟩ = code.event.map fun event => (event, controller))
    (rest : ∀ keyboard written,
      (faultLoop (fun state => !state.controller.available.isEmpty) (interruptTurn terminal) turns
          ⟨controller, keyboard, written⟩).map seen =
        (ScanCode.runAll terminal codes keyboard).map (behind written))
    (keyboard : Keyboard) (written : List UInt8) :
    (faultLoop (fun state => !state.controller.available.isEmpty) (interruptTurn terminal)
        (turns + 1) ⟨⟨byte :: bytes, last⟩, keyboard, written⟩).map seen =
      (ScanCode.runAll terminal (code :: codes) keyboard).map (behind written) := by
  have turned := turn_event terminal ⟨⟨byte :: bytes, last⟩, keyboard, written⟩ code read
  rw [faultLoop, turned, ScanCode.runAll]
  dsimp only
  cases code.run terminal keyboard with
  | none => rfl
  | some handled =>
      rw [Option.map_some, Option.bind_some, Option.bind_some]
      refine (rest handled.1 (written ++ handled.2)).trans ?_
      cases ScanCode.runAll terminal codes handled.1 with
      | none => rfl
      | some others =>
          rw [Option.map_some, Option.map_some, Option.map_some, behind, behind, List.append_assoc]

/-- The loop of the handler runs over the codes. -/
theorem interruptLoop_eq (terminal : Bool) (bytes : List UInt8) (last : UInt8)
    (keyboard : Keyboard) (written : List UInt8) {turns : Nat} (enough : bytes.length < turns) :
    (faultLoop (fun state => !state.controller.available.isEmpty) (interruptTurn terminal) turns
        ⟨⟨bytes, last⟩, keyboard, written⟩).map seen =
      (ScanCode.runAll terminal (scanCodes bytes) keyboard).map (behind written) := by
  have atEnd : ∀ {turns : Nat}, 0 < turns → ∀ last keyboard written,
      (faultLoop (fun state => !state.controller.available.isEmpty) (interruptTurn terminal) turns
          ⟨⟨[], last⟩, keyboard, written⟩).map seen =
        (ScanCode.runAll terminal [] keyboard).map (behind written) := by
    intro turns positive last keyboard written
    obtain ⟨turns, rfl⟩ := Nat.exists_eq_add_of_lt positive
    rw [ScanCode.runAll, Option.map_some, behind, List.append_nil]
    rfl
  induction bytes using scanCodes.induct generalizing last keyboard written turns with
  | case1 => exact atEnd enough last keyboard written
  | case2 =>
      obtain ⟨turns, rfl⟩ := Nat.exists_eq_add_of_lt enough
      have cut : interruptTurn terminal ⟨⟨[0xe0], last⟩, keyboard, written⟩ = none := by
        unfold interruptTurn
        rw [scanset1Key_cut]
        rfl
      rw [faultLoop, cut]
      rfl
  | case3 byte ordinary =>
      obtain ⟨turns, rfl⟩ := Nat.exists_eq_succ_of_ne_zero (Nat.ne_zero_of_lt enough)
      rw [scanCodes, if_neg ordinary]
      exact interruptLoop_step (scanset1Key_one ordinary [] last)
        (atEnd (Nat.lt_of_succ_lt_succ enough) byte) keyboard written
  | case4 data bytes ih =>
      obtain ⟨turns, rfl⟩ := Nat.exists_eq_succ_of_ne_zero (Nat.ne_zero_of_lt enough)
      have shorter : bytes.length < turns := by
        rw [List.length_cons, List.length_cons] at enough
        omega
      rw [scanCodes, if_pos rfl]
      exact interruptLoop_step (scanset1Key_two data bytes last)
        (fun keyboard written => ih data keyboard written shorter) keyboard written
  | case5 byte data bytes ordinary ih =>
      obtain ⟨turns, rfl⟩ := Nat.exists_eq_succ_of_ne_zero (Nat.ne_zero_of_lt enough)
      rw [scanCodes, if_neg ordinary]
      exact interruptLoop_step (scanset1Key_one ordinary (data :: bytes) last)
        (fun keyboard written => ih byte keyboard written (Nat.lt_of_succ_lt_succ enough)) keyboard
        written

theorem interrupts_eq (terminal : Bool) (calls : List (List UInt8)) (state : KeyboardState) :
    (interrupts terminal calls state).map seen =
      (ScanCode.runAll terminal (calls.flatMap scanCodes) state.keyboard).map
        (behind state.written) := by
  induction calls generalizing state with
  | nil =>
      rw [List.flatMap_nil, ScanCode.runAll, Option.map_some, behind, List.append_nil]
      rfl
  | cons bytes calls ih =>
      have called : (keyboardInterruptHandler terminal bytes state).map seen =
          (ScanCode.runAll terminal (scanCodes bytes) state.keyboard).map (behind state.written) :=
        interruptLoop_eq terminal bytes state.controller.last state.keyboard state.written
          (Nat.lt_succ_self _)
      rw [interrupts, List.flatMap_cons, runAll_append]
      cases handled : ScanCode.runAll terminal (scanCodes bytes) state.keyboard with
      | none =>
          rw [handled, Option.map_none, Option.map_eq_none_iff] at called
          rw [called]
          rfl
      | some others =>
          rw [handled, Option.map_some] at called
          obtain ⟨next, ran, same⟩ := Option.map_eq_some_iff.mp called
          have keyboard : next.keyboard = others.1 := congrArg Prod.fst same
          have written : next.written = state.written ++ others.2 := congrArg Prod.snd same
          rw [ran, Option.bind_some, Option.bind_some, ih, keyboard, written]
          cases ScanCode.runAll terminal (calls.flatMap scanCodes) others.1 with
          | none => rfl
          | some rest =>
              rw [Option.map_some, Option.map_some, Option.map_some, behind, behind,
                List.append_assoc]

/-- The times of the interrupts make no difference exactly when every code is in the tables and
none is cut by the end of a call. -/
theorem keyboard_timingFree (terminal : Bool) (calls : List (List UInt8)) (state : KeyboardState) :
    TimingFree terminal calls state ↔
      ∀ bytes ∈ calls, ∀ code ∈ scanCodes bytes, code.InTables := by
  have splitRun := interrupts_eq terminal calls state
  have defined := runAll_isSome terminal (calls.flatMap scanCodes) state.keyboard
  have everyCode : (∀ code ∈ calls.flatMap scanCodes, code.InTables) ↔
      ∀ bytes ∈ calls, ∀ code ∈ scanCodes bytes, code.InTables := by
    constructor
    · intro all bytes called code member
      exact all code (List.mem_flatMap.mpr ⟨bytes, called, member⟩)
    · intro all code member
      obtain ⟨bytes, called, here⟩ := List.mem_flatMap.mp member
      exact all bytes called code here
  have alike := congrArg Option.isSome splitRun
  rw [Option.isSome_map, Option.isSome_map] at alike
  rw [← everyCode, ← defined, ← alike]
  constructor
  · rintro ⟨split, whole, ran, -, -⟩
    rw [ran]
    rfl
  · intro isDefined
    have noCut : ∀ bytes ∈ calls, ScanCode.cut ∉ scanCodes bytes :=
      fun bytes called member =>
        everyCode.mp (defined.mp (alike ▸ isDefined)) bytes called _ member
    have wholeRun := interrupts_eq terminal [calls.flatten] state
    rw [List.flatMap_singleton, scanCodes_flatten calls noCut, ← splitRun] at wholeRun
    obtain ⟨split, ran⟩ := Option.isSome_iff_exists.mp isDefined
    rw [ran, Option.map_some] at wholeRun
    obtain ⟨whole, wholeRan, same⟩ := Option.map_eq_some_iff.mp wholeRun
    exact ⟨split, whole, ran, wholeRan, (congrArg Prod.snd same).symm⟩

/-- Right Control, with an interrupt for its prefix alone. -/
theorem keyboard_prefix_alone :
    ¬∀ (terminal : Bool) (calls : List (List UInt8)) (state : KeyboardState),
      (∀ bytes ∈ calls, bytes ≠ []) → TimingFree terminal calls state := by
  intro always
  obtain ⟨split, whole, ran, -, -⟩ := always true [[0xe0], [0x1d]]
    ⟨⟨[], 0⟩, ⟨false, false, false⟩, []⟩ (by decide)
  have outside : interrupts true [[0xe0], [0x1d]] ⟨⟨[], 0⟩, ⟨false, false, false⟩, []⟩ = none := by
    decide +kernel
  rw [outside] at ran
  cases ran

end DoggOS.Dev

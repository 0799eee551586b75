/-
From the keyboard's interrupts to the lines that a program reads.

An interrupt hands the bytes of the controller to the keyboard handler, which
writes the characters into the stream of the terminal; a program that calls
`k_sys_TerminalReadLine` takes one character from the stream with each read.
Interrupts come at any time between two reads, and between two lines.
-/

import DoggOS.Dev.KeyboardTiming
import DoggOS.Io.TerminalStream
import DoggOS.Sys.TerminalReadLine

namespace DoggOS.Sys

open Dev Io

/-- A call of `k_sys_TerminalReadLine`, with the characters it has taken. -/
structure LineCall where
  size : Nat
  state : LineState
  taken : List UInt8

/-- The terminal of the focused process.  `arrived` keeps the bytes of each interrupt, and
`lines` the calls that have returned. -/
structure Typing where
  keyboard : KeyboardState
  stream : Stream
  call : Option LineCall
  arrived : List (List UInt8)
  lines : List LineCall

inductive TypingStep where
  | interrupt (bytes : List UInt8)
  | callReadLine (output : List UInt8)
  | read (ch : Bytes)

namespace Typing

variable (malloc : Nat → Nat)

/-- The writes of `k_dev_kb_KeyboardHandler`, one for each character. -/
def writeChars (stream : Stream) (chars : List UInt8) : Option Stream :=
  chars.foldlM (fun stream ch => stream.keyboardHandler malloc ch) stream

def interrupt (typing : Typing) (bytes : List UInt8) : Option Typing :=
  (keyboardInterruptHandler true bytes { typing.keyboard with written := [] }).bind fun handled =>
    (writeChars malloc typing.stream handled.written).map fun stream =>
      { typing with
        keyboard := { handled with written := typing.keyboard.written ++ handled.written }
        stream := stream
        arrived := typing.arrived ++ [bytes] }

/-- The loop of `k_sys_TerminalReadLine` on a character; its last turn stores the NUL. -/
def takeChar (call : LineCall) (ch : UInt8) : Option (LineCall × Bool) :=
  (readTurn ch call.state).bind fun (state, broke) =>
    let taken := call.taken ++ [ch]
    if broke || decide (¬state.dataCursor < call.size - 1) then
      (storeChar state.output state.dataCursor 0).map fun output =>
        ({ call with state := { state with output := output }, taken := taken }, true)
    else some ({ call with state := state, taken := taken }, false)

/-- `k_io_ReadStream` of one character, once the condition of the stream is set. -/
def read (typing : Typing) (ch : Bytes) : Option Typing :=
  typing.call.bind fun call =>
    if typing.stream.condition ≠ 0 then
      (typing.stream.readStream (some ch) 1).bind fun (_, filled, stream) =>
        filled.bind fun filled =>
          (takeChar call (filled 0)).map fun (call, returned) =>
            if returned then
              { typing with stream := stream, call := none, lines := typing.lines ++ [call] }
            else { typing with stream := stream, call := some call }
    else none

def next (typing : Typing) : TypingStep → Option Typing
  | .interrupt bytes => typing.interrupt malloc bytes
  | .callReadLine output =>
      if typing.call.isNone ∧ output ≠ [] then
        some { typing with call := some ⟨output.length, ⟨output, 0, 0, []⟩, []⟩ }
      else none
  | .read ch => typing.read ch

structure Quiet (flags : Nat) (typing : Typing) : Prop where
  stream : Stream.allocStream malloc flags = some typing.stream
  written : typing.keyboard.written = []
  keyboard : typing.keyboard.keyboard = ⟨false, false, false⟩
  call : typing.call = none
  arrived : typing.arrived = []
  lines : typing.lines = []

def machine (flags : Nat) : Machine Typing TypingStep := .ofNext (Quiet malloc flags) (next malloc)

def Fits (typing : Typing) : TypingStep → Prop
  | .interrupt bytes => ∀ handled,
      keyboardInterruptHandler true bytes { typing.keyboard with written := [] } = some handled →
      typing.keyboard.written.length + handled.written.length < 2 ^ 32
  | _ => True

end Typing

structure LineCall.Edits (call : LineCall) : Prop where
  length : call.state.output.length = call.size
  text : call.state.output.take (call.taken.foldl editLine []).length =
    call.taken.foldl editLine []
  bound : (call.taken.foldl editLine []).length ≤ call.size - 1
  oneLine : '\n'.toUInt8 ∉ call.taken.dropLast

/-- A line that was returned: it ends with a newline or fills the buffer. -/
structure LineCall.Returned (call : LineCall) : Prop extends call.Edits where
  nul : call.state.output[(call.taken.foldl editLine []).length]? = some 0
  ends : call.taken.getLast? = some '\n'.toUInt8 ∨
    (call.taken.foldl editLine []).length = call.size - 1

namespace Typing

def taken (typing : Typing) : List UInt8 :=
  typing.lines.flatMap LineCall.taken ++ (typing.call.map LineCall.taken).getD []

/-- The lines are those of the characters that the bytes of the interrupts mean; each character
that is taken needs an interrupt of its own. -/
structure Exact (typing : Typing) : Prop where
  decoded : (ScanCode.runAll true (typing.arrived.flatMap scanCodes) ⟨false, false, false⟩).map
    Prod.snd = some typing.keyboard.written
  taken : typing.taken <+: typing.keyboard.written
  unread : typing.stream.availableCount = typing.keyboard.written.length - typing.taken.length
  paced : typing.taken.length ≤ typing.arrived.length
  returned : ∀ line ∈ typing.lines, line.Returned
  editing : ∀ call, typing.call = some call → call.Edits

end Typing

section Lines

variable {call after : LineCall} {ch : UInt8}

def LineCall.Reading (call : LineCall) : Prop :=
  ∃ stream, consumed stream call.state.position = call.taken ∧
    Editing stream call.size call.state false

theorem Editing.congr {stream other : Nat → UInt8} {size : Nat} {state : LineState} {finished : Bool}
    (editing : Editing stream size state finished)
    (same : consumed other state.position = consumed stream state.position) :
    Editing other size state finished := by
  have sameLine : lineOf other state.position = lineOf stream state.position := by
    unfold lineOf
    rw [same]
  constructor
  · exact editing.length
  · rw [sameLine]
    exact editing.cursor
  · rw [sameLine]
    exact editing.text
  · rw [sameLine]
    exact editing.bound
  · rw [sameLine]
    exact editing.room
  · rw [same]
    exact editing.oneLine
  · rw [same]
    exact editing.goesOn

theorem readTurn_position {state next : LineState} {broke : Bool}
    (turned : readTurn ch state = some (next, broke)) :
    next.position = state.position + 1 ∧ (broke = true → ch = '\n'.toUInt8) := by
  unfold readTurn at turned
  simp only at turned
  split at turned
  · split at turned
    · obtain ⟨output, _, same⟩ := Option.map_eq_some_iff.mp turned
      cases same
      exact ⟨rfl, nofun⟩
    · cases turned
      exact ⟨rfl, nofun⟩
  · split at turned
    · rename_i newline
      cases turned
      exact ⟨rfl, fun _ => newline⟩
    · obtain ⟨output, _, same⟩ := Option.map_eq_some_iff.mp turned
      cases same
      exact ⟨rfl, nofun⟩

/-- In a buffer of one byte a character leaves no room for the NUL, and the store behind the
buffer has no outcome. -/
theorem takeChar_one_byte (one : call.size = 1) (length : call.state.output.length = 1)
    (cursor : call.state.dataCursor = 0) (noBackSpace : ch ≠ 0x10)
    (noNewline : ch ≠ '\n'.toUInt8) : Typing.takeChar call ch = none := by
  unfold Typing.takeChar readTurn
  simp only [if_neg noBackSpace, if_neg noNewline, cursor, storeChar, length, Nat.zero_lt_one,
    if_true, Option.map_some, Option.bind_some, one, Bool.false_or, Nat.sub_self, Nat.not_lt_zero,
    not_false_eq_true, decide_true, List.length_set, Nat.lt_irrefl, Nat.zero_add, if_false,
    Option.map_none]

theorem LineCall.Reading.starts {stream : Nat → UInt8}
    (editing : Editing stream call.size call.state false) (here : stream call.state.position = ch)
    {returned : Bool} (takes : Typing.takeChar call ch = some (after, returned)) :
    call.size = 1 → stream 0 = 0x10 ∨ stream 0 = '\n'.toUInt8 := by
  intro one
  have atStart : call.state.position = 0 := by
    rcases editing.room rfl with short | start
    · omega
    · exact start
  rw [atStart] at here
  by_contra ordinary
  rw [not_or, here] at ordinary
  have length := editing.length
  have cursor := editing.cursor
  have bound := editing.bound
  have none := takeChar_one_byte one (length.trans one) (by omega) ordinary.1 ordinary.2
  rw [none] at takes
  cases takes

theorem takeChar_spec (reading : call.Reading) (positive : 0 < call.size)
    {returned : Bool} (takes : Typing.takeChar call ch = some (after, returned)) :
    after.taken = call.taken ++ [ch] ∧ after.size = call.size ∧
      (if returned then after.Returned else after.Reading) := by
  obtain ⟨first, same, editing⟩ := reading
  -- The characters of the line, with this one behind those that were taken.
  let stream := Function.update first call.state.position ch
  have here : stream call.state.position = ch := Function.update_self _ _ _
  have agree : consumed stream call.state.position = consumed first call.state.position := by
    apply List.map_congr_left
    intro position member
    exact Function.update_of_ne (List.mem_range.mp member).ne _ _
  have taken : consumed stream (call.state.position + 1) = call.taken ++ [ch] := by
    rw [consumed_succ, agree, same, here]
  have editing := editing.congr agree
  obtain ⟨next, broke, turned, edits⟩ :=
    editing.turn positive (LineCall.Reading.starts editing here takes)
  rw [here] at turned
  obtain ⟨position, newline⟩ := readTurn_position turned
  rw [← position] at taken
  unfold Typing.takeChar at takes
  rw [turned, Option.bind_some] at takes
  simp only at takes
  have line : lineOf stream next.position = (call.taken ++ [ch]).foldl editLine [] := by
    unfold lineOf
    rw [taken]
  split at takes
  · rename_i finished
    rw [finished] at edits
    obtain ⟨output, stored, result⟩ := Option.map_eq_some_iff.mp takes
    cases result
    refine ⟨rfl, rfl, ?_⟩
    have inside : next.dataCursor < next.output.length := by
      rw [edits.length, edits.cursor]
      have bound := edits.bound
      omega
    have isOutput : output = next.output.set next.dataCursor 0 := by
      unfold storeChar at stored
      rw [if_pos inside] at stored
      exact (Option.some.inj stored).symm
    have length : output.length = call.size := by
      rw [isOutput, List.length_set]
      exact edits.length
    have cursor : next.dataCursor = ((call.taken ++ [ch]).foldl editLine []).length := by
      rw [← line]
      exact edits.cursor
    refine ⟨⟨length, ?_, ?_, ?_⟩, ?_, ?_⟩
    · change output.take ((call.taken ++ [ch]).foldl editLine []).length = _
      rw [← cursor, isOutput, List.take_set_of_le (Nat.le_refl _), cursor, ← line]
      exact edits.text
    · change ((call.taken ++ [ch]).foldl editLine []).length ≤ call.size - 1
      rw [← line]
      exact edits.bound
    · change _ ∉ (call.taken ++ [ch]).dropLast
      rw [← taken]
      exact edits.oneLine
    · change output[((call.taken ++ [ch]).foldl editLine []).length]? = some 0
      rw [← cursor, isOutput, List.getElem?_set_self inside]
    · change (call.taken ++ [ch]).getLast? = _ ∨
        ((call.taken ++ [ch]).foldl editLine []).length = call.size - 1
      rw [Bool.or_eq_true, decide_eq_true_eq] at finished
      rcases finished with broke | full
      · left
        rw [List.getLast?_concat, newline broke]
      · right
        rw [← line, ← edits.cursor]
        have bound := edits.bound
        rw [← edits.cursor] at bound
        omega
  · rename_i goesOn
    cases takes
    refine ⟨rfl, rfl, ?_⟩
    rw [Bool.not_eq_true] at goesOn
    rw [goesOn] at edits
    exact ⟨stream, taken, edits⟩

/-- The line that is being edited, in the form of a returned one. -/
theorem LineCall.Reading.edits (reading : call.Reading) : call.Edits := by
  obtain ⟨stream, same, editing⟩ := reading
  have line : lineOf stream call.state.position = call.taken.foldl editLine [] := by
    unfold lineOf
    rw [same]
  constructor
  · exact editing.length
  · rw [← line]
    exact editing.text
  · rw [← line]
    exact editing.bound
  · rw [← same]
    exact editing.oneLine

theorem LineCall.reading_start (output : List UInt8) :
    LineCall.Reading ⟨output.length, ⟨output, 0, 0, []⟩, []⟩ := by
  refine ⟨fun _ => 0, rfl, ?_⟩
  constructor
  · rfl
  · rfl
  · rfl
  · exact Nat.zero_le _
  · exact fun _ => Or.inr rfl
  · exact List.not_mem_nil
  · exact fun _ => List.not_mem_nil

end Lines

namespace Typing

section Runs

variable {malloc : Nat → Nat} {flags : Nat} {typing before after : Typing} {stream : Stream}

def usage (typing : Typing) : Usage where
  stream := typing.stream
  written := typing.keyboard.written
  delivered := typing.taken

theorem keyboardHandler_consistent (fresh : Fresh malloc) {written delivered : List UInt8}
    (consistent : Usage.Consistent malloc ⟨stream, written, delivered⟩)
    (fits : written.length + 1 < 2 ^ 32) (ch : UInt8) :
    ∃ after, stream.keyboardHandler malloc ch = some after ∧
      Usage.Consistent malloc ⟨after, written ++ [ch], delivered⟩ := by
  have allowed : Usage.Allowed ⟨stream, written, delivered⟩ (.write (fun _ => ch) 1) :=
    ⟨Nat.one_pos, fits⟩
  obtain ⟨middle, wrote, kept, _⟩ := Usage.write_consistent fresh consistent allowed
  refine ⟨middle.signalStream, ?_, ?_⟩
  · change stream.writeStreamData malloc (some fun _ => ch) 1 = some (.ok, middle) at wrote
    unfold Stream.keyboardHandler
    rw [wrote, Option.map_some]
  · obtain ⟨history, carries, isWritten, isDelivered, available⟩ := kept
    exact ⟨history, carries.counted _ _, isWritten, isDelivered, available⟩

theorem writeChars_consistent (fresh : Fresh malloc) {written delivered : List UInt8}
    (chars : List UInt8)
    (consistent : Usage.Consistent malloc ⟨stream, written, delivered⟩)
    (fits : written.length + chars.length < 2 ^ 32) :
    ∃ after, writeChars malloc stream chars = some after ∧
      Usage.Consistent malloc ⟨after, written ++ chars, delivered⟩ ∧
      (chars = [] → after = stream) := by
  induction chars generalizing stream written with
  | nil =>
      rw [List.append_nil]
      exact ⟨stream, rfl, consistent, fun _ => rfl⟩
  | cons ch chars ih =>
      rw [List.length_cons] at fits
      obtain ⟨middle, wrote, kept⟩ := keyboardHandler_consistent fresh consistent (by omega) ch
      have fits' : (written ++ [ch]).length + chars.length < 2 ^ 32 := by
        rw [List.length_append, List.length_singleton]
        omega
      obtain ⟨after, rest, kept, _⟩ := ih kept fits'
      rw [List.append_assoc, List.singleton_append] at kept
      refine ⟨after, ?_, kept, nofun⟩
      unfold writeChars at rest ⊢
      rw [List.foldlM_cons, wrote]
      exact rest

structure Sound (malloc : Nat → Nat) (typing : Typing) : Prop where
  consistent : typing.usage.Consistent malloc
  signalled : typing.stream.condition ≠ 0 → typing.taken.length < typing.keyboard.written.length
  paced : typing.taken.length + (if typing.stream.condition = 0 then 0 else 1) ≤
    typing.arrived.length
  decoded : (ScanCode.runAll true (typing.arrived.flatMap scanCodes) ⟨false, false, false⟩) =
    some (typing.keyboard.keyboard, typing.keyboard.written)
  returned : ∀ line ∈ typing.lines, line.Returned
  reading : ∀ call, typing.call = some call → call.Reading ∧ 0 < call.size

theorem Quiet.sound (fresh : Fresh malloc) (quiet : typing.Quiet malloc flags) :
    typing.Sound malloc := by
  have start : (Usage.machine malloc flags).start typing.usage := by
    refine ⟨quiet.stream, quiet.written, ?_⟩
    change typing.taken = []
    unfold taken
    rw [quiet.lines, quiet.call]
    rfl
  have unsignalled : typing.stream.condition = 0 := by
    obtain ⟨stream, made, _, _, unsignalled⟩ := Carries.allocStream_spec fresh flags fun _ => 0
    have same := quiet.stream
    rw [made, Option.some_inj] at same
    rw [same] at unsignalled
    exact unsignalled
  constructor
  · exact Usage.start_consistent fresh start
  · exact fun signalled => absurd unsignalled signalled
  · rw [if_pos unsignalled, show typing.taken = [] from start.2.2]
    exact Nat.zero_le _
  · rw [quiet.arrived, quiet.keyboard, quiet.written]
    rfl
  · rw [quiet.lines]
    nofun
  · rw [quiet.call]
    nofun

theorem Sound.interrupt (sound : before.Sound malloc) (fresh : Fresh malloc) {bytes : List UInt8}
    (fits : before.Fits (.interrupt bytes)) (stepped : before.interrupt malloc bytes = some after) :
    after.Sound malloc := by
  obtain ⟨handled, handles, stepped⟩ := Option.bind_eq_some_iff.mp stepped
  obtain ⟨stream, wrote, result⟩ := Option.map_eq_some_iff.mp stepped
  obtain ⟨stream', wrote', kept, unchanged⟩ :=
    writeChars_consistent fresh handled.written sound.consistent (fits handled handles)
  change writeChars malloc before.stream handled.written = some stream' at wrote'
  rw [wrote, Option.some_inj] at wrote'
  cases result
  have decode : ScanCode.runAll true (scanCodes bytes) before.keyboard.keyboard =
      some (handled.keyboard, handled.written) := by
    have whole := interrupts_eq true [bytes] { before.keyboard with written := [] }
    rw [interrupts, handles, List.flatMap_cons, List.flatMap_nil, List.append_nil] at whole
    obtain ⟨result, run, same⟩ := Option.map_eq_some_iff.mp whole.symm
    rw [run]
    exact congrArg some same
  constructor
  · change Usage.Consistent malloc ⟨stream, before.keyboard.written ++ handled.written, before.taken⟩
    rw [wrote']
    exact kept
  · intro signalled
    change before.taken.length < (before.keyboard.written ++ handled.written).length
    rw [List.length_append]
    by_cases none : handled.written = []
    · have same : stream = before.stream := wrote'.trans (unchanged none)
      have less := sound.signalled (same ▸ signalled)
      omega
    · obtain ⟨_, carries, _⟩ := sound.consistent
      have ordered : before.taken.length ≤ before.keyboard.written.length := carries.ordered
      have positive := List.length_pos_of_ne_nil none
      omega
  · change before.taken.length + (if stream.condition = 0 then 0 else 1) ≤
      (before.arrived ++ [bytes]).length
    have paced := sound.paced
    rw [List.length_append, List.length_singleton]
    split <;> omega
  · change ScanCode.runAll true ((before.arrived ++ [bytes]).flatMap scanCodes) _ = _
    rw [List.flatMap_append, runAll_append, sound.decoded, Option.bind_some, List.flatMap_cons,
      List.flatMap_nil, List.append_nil]
    rw [decode]
    rfl
  · exact sound.returned
  · exact sound.reading

theorem takeChar_taken {call after : LineCall} {ch : UInt8} {returned : Bool}
    (takes : takeChar call ch = some (after, returned)) : after.taken = call.taken ++ [ch] := by
  obtain ⟨turned, _, takes⟩ := Option.bind_eq_some_iff.mp takes
  simp only at takes
  split at takes
  · obtain ⟨output, _, same⟩ := Option.map_eq_some_iff.mp takes
    cases same
    rfl
  · cases takes
    rfl

theorem Sound.read (sound : before.Sound malloc) (fresh : Fresh malloc) {ch : Bytes}
    (stepped : before.read ch = some after) : after.Sound malloc := by
  obtain ⟨call, calling, stepped⟩ := Option.bind_eq_some_iff.mp stepped
  split at stepped
  · rename_i signalled
    obtain ⟨reading, positive⟩ := sound.reading call calling
    have allowed : before.usage.Allowed (.read ch 1) := ⟨Nat.one_pos, by decide⟩
    obtain ⟨filled, stream, reads, kept, count, _⟩ :=
      Usage.read_consistent fresh sound.consistent (sound.signalled signalled) allowed
    change before.stream.readStreamData (some ch) 1 = _ at reads
    rw [Stream.readStream_eq reads, Option.bind_some] at stepped
    dsimp only at stepped
    rw [Option.bind_some] at stepped
    obtain ⟨⟨call', returned⟩, takes, result⟩ := Option.map_eq_some_iff.mp stepped
    have one : before.usage.stream.availableCount - stream.availableCount = 1 := by
      rw [count]
      have less := sound.signalled signalled
      change min 1 (before.keyboard.written.length - before.taken.length) = 1
      omega
    rw [one] at kept
    have taken : before.taken ++ [filled 0] =
        before.lines.flatMap LineCall.taken ++ call'.taken := by
      unfold Typing.taken
      rw [calling, takeChar_taken takes, List.append_assoc]
      rfl
    have consistent : Usage.Consistent malloc ⟨{ stream with condition := 0 },
        before.keyboard.written, before.lines.flatMap LineCall.taken ++ call'.taken⟩ := by
      rw [← taken]
      obtain ⟨history, carries, isWritten, isDelivered, available⟩ := kept
      exact ⟨history, carries.counted _ _, isWritten, isDelivered, available⟩
    have paced : (before.lines.flatMap LineCall.taken ++ call'.taken).length ≤
        before.arrived.length := by
      rw [← taken, List.length_append, List.length_singleton]
      have paced := sound.paced
      rw [if_neg signalled] at paced
      exact paced
    obtain ⟨_, sameSize, spec⟩ := takeChar_spec reading positive takes
    cases returned with
    | false =>
        cases result
        refine ⟨consistent, fun not => absurd rfl not, paced, sound.decoded, sound.returned, ?_⟩
        intro other isCall
        cases isCall
        rw [sameSize]
        exact ⟨spec, positive⟩
    | true =>
        cases result
        refine ⟨?_, fun not => absurd rfl not, ?_, sound.decoded, ?_, nofun⟩
        · change Usage.Consistent malloc ⟨_, _, (before.lines ++ [call']).flatMap LineCall.taken ++ []⟩
          rw [List.flatMap_append, List.flatMap_singleton, List.append_nil]
          exact consistent
        · change ((before.lines ++ [call']).flatMap LineCall.taken ++ []).length + 0 ≤ _
          rw [List.flatMap_append, List.flatMap_singleton, List.append_nil]
          exact paced
        · intro line member
          rcases List.mem_append.mp member with earlier | new
          · exact sound.returned line earlier
          · rw [List.mem_singleton.mp new]
            exact spec
  · cases stepped

theorem Sound.step (sound : before.Sound malloc) (fresh : Fresh malloc) {step : TypingStep}
    (fits : before.Fits step) (stepped : before.next malloc step = some after) :
    after.Sound malloc := by
  cases step with
  | interrupt bytes => exact sound.interrupt fresh fits stepped
  | read ch => exact sound.read fresh stepped
  | callReadLine output =>
      simp only [next] at stepped
      split at stepped
      · rename_i idle
        cases stepped
        have noCall : before.call = none := Option.isNone_iff_eq_none.mp idle.1
        refine ⟨?_, ?_, ?_, sound.decoded, sound.returned, ?_⟩
        · have kept := sound.consistent
          unfold usage taken at kept ⊢
          rw [noCall] at kept
          exact kept
        · have kept := sound.signalled
          unfold taken at kept ⊢
          rw [noCall] at kept
          exact kept
        · have kept := sound.paced
          unfold taken at kept ⊢
          rw [noCall] at kept
          exact kept
        · intro call isCall
          cases isCall
          exact ⟨LineCall.reading_start output, List.length_pos_of_ne_nil idle.2⟩
      · cases stepped

/-- Whatever the timing of keys and reads, the lines are made of the characters that were typed:
none is lost, none twice, and in the order of the keys. -/
theorem typedLines_exact (fresh : Fresh malloc)
    (reachable : ((machine malloc flags).restrict Fits).Reachable typing) : typing.Exact := by
  have sound : typing.Sound malloc := by
    apply Machine.invariant _ _ _ reachable
    · intro initial quiet
      exact Quiet.sound fresh quiet
    · intro before step after sound stepped
      exact sound.step fresh stepped.1 stepped.2
  obtain ⟨history, carries, isWritten, isDelivered, available⟩ := sound.consistent
  constructor
  · rw [sound.decoded]
    rfl
  · have ordered : typing.taken.length ≤ typing.keyboard.written.length := carries.ordered
    have written : typing.keyboard.written = Usage.bytesOf history typing.keyboard.written.length :=
      isWritten
    have delivered : typing.taken = Usage.bytesOf history typing.taken.length := isDelivered
    rw [written, delivered]
    refine ⟨Usage.bytesOf (fun place => history (typing.taken.length + place))
      (typing.keyboard.written.length - typing.taken.length), ?_⟩
    rw [Usage.bytesOf_split, Nat.add_sub_cancel' ordered]
  · exact available
  · exact Nat.le_trans (Nat.le_add_right _ _) sound.paced
  · exact sound.returned
  · intro call calling
    exact (sound.reading call calling).1.edits

theorem fits_of_handled {bytes : List UInt8} {handled : KeyboardState}
    (handles : keyboardInterruptHandler true bytes { typing.keyboard with written := [] } =
      some handled)
    (small : typing.keyboard.written.length + handled.written.length < 2 ^ 32) :
    typing.Fits (.interrupt bytes) := by
  intro other same
  rw [handles] at same
  cases same
  exact small

end Runs

def emptyTyping : Typing where
  keyboard := ⟨⟨[], 0⟩, ⟨false, false, false⟩, []⟩
  stream := (Stream.allocStream Usage.pageOf 0).get (by decide +kernel)
  call := none
  arrived := []
  lines := []

def typesLine : List TypingStep :=
  [.interrupt [0x1e], .callReadLine [7, 7, 7, 7], .read fun _ => 0, .interrupt [0x9e, 0x1c],
    .read fun _ => 0]

def oneLine : Typing :=
  (Machine.follow (next Usage.pageOf) emptyTyping typesLine).getD emptyTyping

example : oneLine.lines.map (fun line => line.state.output) = [[97, 0, 7, 7]] := by decide +kernel

theorem oneLine_reachable : ((machine Usage.pageOf 0).restrict Fits).Reachable oneLine := by
  have start := ((machine Usage.pageOf 0).restrict Fits).reachable_start
    (show (machine Usage.pageOf 0).start emptyTyping from ⟨rfl, rfl, rfl, rfl, rfl, rfl⟩)
  have first := Machine.reachable_step _ start (show (Machine.restrict _ Fits).step emptyTyping
    (.interrupt [0x1e]) _ from ⟨fits_of_handled rfl (by decide), rfl⟩)
  have second := Machine.reachable_step _ first (show (Machine.restrict _ Fits).step _
    (.callReadLine [7, 7, 7, 7]) _ from ⟨trivial, rfl⟩)
  have third := Machine.reachable_step _ second (show (Machine.restrict _ Fits).step _
    (.read fun _ => 0) _ from ⟨trivial, rfl⟩)
  have fourth := Machine.reachable_step _ third (show (Machine.restrict _ Fits).step _
    (.interrupt [0x9e, 0x1c]) _ from ⟨fits_of_handled rfl (by decide), rfl⟩)
  exact Machine.reachable_step _ fourth (show (Machine.restrict _ Fits).step _
    (.read fun _ => 0) oneLine from ⟨trivial, rfl⟩)

theorem typedLines_exact_line : oneLine.Exact :=
  typedLines_exact Usage.pageOf_fresh oneLine_reachable

end Typing

end DoggOS.Sys

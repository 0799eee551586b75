/-
The keyboard.

The controller gives its bytes in order and the last one again when it has no
more.  A lookup behind the end of a table has no outcome.  The characters are
those that the handler writes to the terminal of the focused process, if there
is one.
-/

import DoggOS.Library.WhileLoop
import Mathlib.Data.UInt
import Mathlib.Algebra.Group.Nat.Defs

namespace DoggOS.Dev

/-- An array with designated initialisers; the other entries are zero. -/
def designated {Entry : Type} [Zero Entry] (size : Nat) (entries : List (Nat × Entry)) :
    List Entry :=
  (List.range size).map fun index => (entries.lookup index).getD 0

/-- `K_DEV_KEYBOARD_BACKSPACE_KEY` -/
abbrev backspaceKey := 15

/-- `K_DEV_KEYBOARD_TAB_KEY` -/
abbrev tabKey := 16

/-- `K_DEV_KEYBOARD_CASPLOCK_KEY` -/
abbrev caspLockKey := 30

/-- `K_DEV_KEYBOARD_ENTER_KEY` -/
abbrev enterKey := 43

/-- `K_DEV_KEYBOARD_LSHIFT_KEY` -/
abbrev lShiftKey := 44

/-- `K_DEV_KEYBOARD_RSHIFT_KEY` -/
abbrev rShiftKey := 57

/-- `K_DEV_KEYBOARD_LCTRL_KEY` -/
abbrev lCtrlKey := 58

/-- `K_DEV_KEYBOARD_RALT_KEY` -/
abbrev rAltKey := 62

/-- `K_DEV_KEYBOARD_RCTRL_KEY` -/
abbrev rCtrlKey := 64

/-- `K_DEV_KEYBOARD_NUMLOCK_KEY` -/
abbrev numLockKey := 90

/-- `K_DEV_KEYBOARD_KP_ENTER_KEY` -/
abbrev kpEnterKey := 108

/-- `k_ps2_scanset1_key_lut1` -/
def scanset1KeyLut1 : List Nat := designated 0x59
  [(0x29, 1), (0x02, 2), (0x03, 3), (0x04, 4), (0x05, 5), (0x06, 6), (0x07, 7), (0x08, 8),
   (0x09, 9), (0x0a, 10), (0x0b, 11), (0x0c, 12), (0x0d, 13), (0x0e, backspaceKey),
   (0x0f, tabKey), (0x10, 17), (0x11, 18), (0x12, 19), (0x13, 20), (0x14, 21), (0x15, 22),
   (0x16, 23), (0x17, 24), (0x18, 25), (0x19, 26), (0x1a, 27), (0x1b, 28), (0x2b, 29),
   (0x3a, caspLockKey), (0x1e, 31), (0x1f, 32), (0x20, 33), (0x21, 34), (0x22, 35), (0x23, 36),
   (0x24, 37), (0x25, 38), (0x26, 39), (0x27, 40), (0x28, 41), (0x1c, enterKey),
   (0x2a, lShiftKey), (0x2c, 46), (0x2d, 47), (0x2e, 48), (0x2f, 49), (0x30, 50), (0x31, 51),
   (0x32, 52), (0x33, 53), (0x34, 54), (0x35, 55), (0x36, rShiftKey), (0x1d, lCtrlKey),
   (0x38, 60), (0x39, 61), (0x45, numLockKey), (0x47, 91), (0x4b, 92), (0x4f, 93), (0x48, 96),
   (0x4c, 97), (0x50, 98), (0x52, 99), (0x37, 100), (0x49, 101), (0x4d, 102), (0x51, 103),
   (0x53, 104), (0x4a, 105), (0x4e, 106), (0x01, 110), (0x3b, 112), (0x3c, 113), (0x3d, 114),
   (0x3e, 115), (0x3f, 116), (0x40, 117), (0x41, 118), (0x42, 119), (0x43, 120), (0x44, 121),
   (0x57, 122), (0x58, 123), (0x46, 125)]

/-- `k_ps2_scanset1_key_lut2` -/
def scanset1KeyLut2 : List Nat := designated 0x54
  [(0x1c, kpEnterKey), (0x1d, rCtrlKey), (0x38, rAltKey), (0x47, 80), (0x48, 83), (0x49, 85),
   (0x4b, 79), (0x4d, 89), (0x4f, 81), (0x50, 84), (0x51, 86), (0x52, 75), (0x53, 76)]

def characters (entries : List (Nat × Char)) : List (Nat × UInt8) :=
  entries.map fun entry => (entry.1, entry.2.toUInt8)

/-- `k_kb_key_lut`; the constant of the first key has two bytes in the source, and the second one
is kept. -/
def keyLut : List UInt8 := designated 107 <| characters
  [(1, '\xb4'), (2, '1'), (3, '2'), (4, '3'), (5, '4'), (6, '5'), (7, '6'), (8, '7'), (9, '8'),
   (10, '9'), (11, '0'), (12, '-'), (13, '='), (17, 'q'), (18, 'w'), (19, 'e'), (20, 'r'),
   (21, 't'), (22, 'y'), (23, 'u'), (24, 'i'), (25, 'o'), (26, 'p'), (27, '['), (28, ']'),
   (29, '\x5c'), (31, 'a'), (32, 's'), (33, 'd'), (34, 'f'), (35, 'g'), (36, 'h'), (37, 'j'),
   (38, 'k'), (39, 'l'), (40, ';'), (41, '\x27'), (46, 'z'), (47, 'x'), (48, 'c'), (49, 'v'),
   (50, 'b'), (51, 'n'), (52, 'm'), (53, ','), (54, '.'), (55, '/'), (61, ' '), (95, '/'),
   (100, '*'), (105, '-'), (106, '+'), (backspaceKey, '\x10'), (enterKey, '\n')]

/-- `k_kb_shift_key_lut` -/
def shiftKeyLut : List UInt8 := designated 107 <| characters
  [(1, '~'), (2, '!'), (3, '@'), (4, '#'), (5, '$'), (6, '%'), (7, '^'), (8, '&'), (9, '*'),
   (10, '('), (11, ')'), (12, '_'), (13, '+'), (17, 'Q'), (18, 'W'), (19, 'E'), (20, 'R'),
   (21, 'T'), (22, 'Y'), (23, 'U'), (24, 'I'), (25, 'O'), (26, 'P'), (27, '\x7b'), (28, '\x7d'),
   (29, '|'), (31, 'A'), (32, 'S'), (33, 'D'), (34, 'F'), (35, 'G'), (36, 'H'), (37, 'J'),
   (38, 'K'), (39, 'L'), (40, ':'), (41, '\x22'), (46, 'Z'), (47, 'X'), (48, 'C'), (49, 'V'),
   (50, 'B'), (51, 'N'), (52, 'M'), (53, '<'), (54, '>'), (55, '?'), (61, ' '), (95, '/'),
   (100, '*'), (105, '-'), (106, '+'), (backspaceKey, '\x10'), (enterKey, '\n')]

/-- `enum K_DEV_KEYBOARD_EVENTS` -/
inductive KeyEventType where
  | keyDown
  | keyUp
  | repeat
  deriving DecidableEq

/-- `struct k_dev_keyboard_event_t` -/
structure KeyEvent where
  type : KeyEventType
  key : Nat
  deriving DecidableEq

structure Controller where
  available : List UInt8
  last : UInt8
  deriving DecidableEq

/-- `ReadData` -/
def Controller.readData (controller : Controller) : UInt8 × Controller :=
  match controller.available with
  | [] => (controller.last, controller)
  | byte :: available => (byte, { available := available, last := byte })

def lookUpKey (lut : List Nat) (data : UInt8) : Option KeyEvent :=
  lut[(data &&& 0x7f).toNat]?.map fun key =>
    { type := if data &&& 0x80 ≠ 0 then .keyUp else .keyDown, key := key }

/-- `k_PS2_Scanset1Key`; inside is the event, when it answers with 1. -/
def scanset1Key (controller : Controller) : Option (Option KeyEvent × Controller) :=
  let (data, controller) := controller.readData
  if data = 0xe0 then
    let (data, controller) := controller.readData
    if data &&& 0x7f = 0x2a ∨ data &&& 0x7f = 0x36 then some (none, controller)
    else (lookUpKey scanset1KeyLut2 data).map fun event => (some event, controller)
  else (lookUpKey scanset1KeyLut1 data).map fun event => (some event, controller)

/-- The fields of `struct k_dev_keyboard_t` that the handler uses. -/
structure Keyboard where
  leftShift : Bool
  rightShift : Bool
  capsLock : Bool
  deriving DecidableEq

/-- `k_dev_kb_KeyboardHandler`; `terminal` says that the focused process has one.  With the
keyboard come the characters that are written. -/
def keyboardHandler (terminal : Bool) (keyboard : Keyboard) (event : KeyEvent) :
    Option (Keyboard × List UInt8) :=
  if event.key = lShiftKey then
    some ({ keyboard with leftShift := decide (event.type = .keyDown) }, [])
  else if event.key = rShiftKey then
    some ({ keyboard with rightShift := decide (event.type = .keyDown) }, [])
  else if event.key = caspLockKey then
    some (if event.type = .keyDown then { keyboard with capsLock := !keyboard.capsLock }
      else keyboard, [])
  else if event.type = .keyDown then
    let lut :=
      if keyboard.leftShift || keyboard.rightShift || keyboard.capsLock then shiftKeyLut else keyLut
    lut[event.key]?.map fun ch => (keyboard, if terminal then [ch] else [])
  else some (keyboard, [])

/-- `written` are the characters that went to the terminal. -/
structure KeyboardState where
  controller : Controller
  keyboard : Keyboard
  written : List UInt8
  deriving DecidableEq

/-- One turn of the loop of `k_PS2_KeyboardInterruptHandler`. -/
def interruptTurn (terminal : Bool) (state : KeyboardState) : Option KeyboardState :=
  (scanset1Key state.controller).bind fun read =>
    match read.1 with
    | some event =>
        (keyboardHandler terminal state.keyboard event).map fun handled =>
          { controller := read.2, keyboard := handled.1, written := state.written ++ handled.2 }
    | none => some { state with controller := read.2 }

/-- `k_PS2_KeyboardInterruptHandler`, with these bytes available during the call. -/
def keyboardInterruptHandler (terminal : Bool) (bytes : List UInt8) (state : KeyboardState) :
    Option KeyboardState :=
  faultLoop (fun state => !state.controller.available.isEmpty) (interruptTurn terminal)
    (bytes.length + 1) { state with controller := { state.controller with available := bytes } }

def interrupts (terminal : Bool) : List (List UInt8) → KeyboardState → Option KeyboardState
  | [], state => some state
  | bytes :: calls, state =>
      (keyboardInterruptHandler terminal bytes state).bind (interrupts terminal calls)

end DoggOS.Dev

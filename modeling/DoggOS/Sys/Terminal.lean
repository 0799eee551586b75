/-
The terminal.

The output buffer is a ring of lines, and the screen shows as many of them as it
has rows, from `scrollY` on.  Positions are integers: the buffer lies in the
32-bit address space, so they stay below the limits of the machine words, and
remainders are taken of numbers that are not negative.  A store outside the
buffer changes no cell of it.  `stores` and `shown` are histories: the indices
that the last call stored to, and the cell of the buffer that each cell of the
screen was copied from by the last update.
-/

import DoggOS.Library.Machine
import Mathlib.Algebra.Order.Ring.Int
import Mathlib.Data.Nat.Bitwise
import Mathlib.Logic.Function.Basic

namespace DoggOS.Sys

/-- The buffer has at least the lines of the screen, and their number is an `int32_t`. -/
structure TermSize where
  width : Int
  height : Int
  vgaHeight : Int
  wide : 1 ≤ width
  visible : 1 ≤ vgaHeight
  fits : vgaHeight ≤ height
  word : height < 2 ^ 31

structure Terminal where
  outputBuffer : Int → Nat
  color : Nat
  cursorX : Int
  bufferCursorY : Int
  displayCursorY : Int
  scrollY : Int
  stores : List Int
  shown : Int → Option Int

/-- `k_sys_TerminalChar` -/
def terminalChar (ch color : Nat) : Nat := color <<< 8 ||| ch

def space : Nat := 32

/-- `K_SYS_TERM_COLOR_WHITE` on `K_SYS_TERM_COLOR_BLACK` -/
def whiteOnBlack : Nat := 0 <<< 4 ||| 15 &&& 0x0f

namespace Terminal

variable (size : TermSize) (terminal : Terminal)

def store (index : Int) (value : Nat) : Terminal :=
  { terminal with
    outputBuffer :=
      if 0 ≤ index ∧ index < size.width * size.height then
        Function.update terminal.outputBuffer index value
      else terminal.outputBuffer
    stores := terminal.stores ++ [index] }

def cursor : Int := terminal.cursorX + terminal.bufferCursorY * size.width

/-- `k_sys_TerminalPrevLine` -/
def prevLine : Terminal :=
  { terminal with
    cursorX := size.width - 1
    bufferCursorY :=
      if terminal.bufferCursorY - 1 < 0 then terminal.bufferCursorY - 1 + size.height
      else terminal.bufferCursorY - 1
    displayCursorY := terminal.displayCursorY - 1 }

/-- `k_sys_TerminalNewLine` -/
def newLine : Terminal :=
  { terminal with
    cursorX := 0
    bufferCursorY := (terminal.bufferCursorY + 1) % size.height
    displayCursorY := terminal.displayCursorY + 1 }

/-- The loop of `k_sys_TerminalBackSpace` over the first cells of the line, from the last one
down. -/
def findNewLine : Nat → Option Nat
  | 0 => none
  | cursor + 1 =>
      if terminal.outputBuffer (cursor + terminal.bufferCursorY * size.width) &&& 0xff = 10 then
        some cursor
      else findNewLine cursor

/-- `k_sys_TerminalBackSpace` -/
def backSpace : Terminal :=
  let terminal :=
    if terminal.cursorX ≠ 0 then { terminal with cursorX := terminal.cursorX - 1 }
    else
      let terminal := terminal.prevLine size
      match terminal.findNewLine size (terminal.cursorX + 1).toNat with
      | none => terminal
      | some cursor =>
          { terminal with cursorX := if cursor ≠ 0 then (cursor : Int) - 1 else cursor }
  terminal.store size (terminal.cursor size) (terminalChar space terminal.color)

/-- `k_sys_TerminalPutSingleChar` -/
def putSingleChar (c : UInt8) : Terminal :=
  if c = 10 then terminal.newLine size
  else if c = 0x10 then terminal.backSpace size
  else if c = 13 then { terminal with cursorX := 0 }
  else
    let terminal := terminal.store size (terminal.cursor size) (terminalChar c.toNat terminal.color)
    if terminal.cursorX + 1 ≥ size.width then terminal.newLine size
    else { terminal with cursorX := terminal.cursorX + 1 }

def clearLine (line : Int) : Nat → Terminal
  | 0 => terminal
  | count + 1 =>
      (clearLine line count).store size (count + line * size.width)
        (terminalChar space terminal.color)

/-- The lines that are scrolled in.  The line number is not brought back into the ring. -/
def clearLines (clearStart : Int) : Nat → Terminal
  | 0 => terminal
  | count + 1 => (clearLines clearStart count).clearLine size (clearStart + count) size.width.toNat

/-- `k_gfx_BlitTextBuffer` with a part of the output buffer; its parameters are 16 bits wide. -/
def blitTextBuffer (text startX startY count : Int) : Terminal :=
  let startX := startX % 2 ^ 16
  let startY := startY % 2 ^ 16
  let count := count % 2 ^ 16
  if startX < size.width ∧ startY < size.vgaHeight then
    let start := startX + startY * size.width
    { terminal with
      shown := fun cell =>
        if start ≤ cell ∧ cell < start + count then some (text + (cell - start))
        else terminal.shown cell }
  else terminal

/-- `k_sys_TerminalUpdate` -/
def update : Terminal :=
  let terminal := { terminal with shown := fun _ => none }
  let bufferRowsCount := (size.height - terminal.scrollY) % 2 ^ 32
  if bufferRowsCount < size.vgaHeight then
    let terminal := terminal.blitTextBuffer size (terminal.scrollY * size.width) 0 0
      (bufferRowsCount * size.width)
    let wrapBufferRowsCount := size.vgaHeight - bufferRowsCount
    terminal.blitTextBuffer size 0 0 bufferRowsCount (wrapBufferRowsCount * size.width)
  else
    terminal.blitTextBuffer size (terminal.scrollY * size.width) 0 0
      (size.vgaHeight * size.width)

/-- `k_sys_TerminalScroll` -/
def scroll (lines : Int) : Terminal :=
  let terminal :=
    if lines ≠ 0 then
      let scrollY := terminal.scrollY + lines
      { terminal with
        scrollY :=
          if scrollY < 0 then scrollY + size.height
          else if scrollY ≥ size.height then scrollY % size.height
          else scrollY
        displayCursorY := terminal.displayCursorY - lines }
    else terminal
  terminal.update size

def putChars (chars : List UInt8) : Terminal :=
  chars.foldl (fun terminal c => terminal.putSingleChar size c) terminal

/-- The lines by which `k_sys_TerminalPuts` scrolls. -/
def scrollLines : Int :=
  if terminal.displayCursorY < 0 then terminal.displayCursorY
  else if terminal.displayCursorY ≥ size.vgaHeight then
    1 + (terminal.displayCursorY - size.vgaHeight)
  else 0

/-- `k_sys_TerminalPuts`; the string ends at its first null. -/
def puts (str : List UInt8) : Terminal :=
  let terminal := { terminal with stores := [] }.putChars size (str.takeWhile (· ≠ 0))
  let lines := terminal.scrollLines size
  let terminal :=
    if lines > 0 then
      terminal.clearLines size ((terminal.bufferCursorY + 1) % size.height) lines.toNat
    else terminal
  terminal.scroll size lines

/-- `k_sys_TerminalClear` -/
def clear : Terminal :=
  let terminal := { terminal with stores := [] }.clearLines size 0 size.height.toNat
  { terminal with bufferCursorY := 0, scrollY := 0, cursorX := 0, displayCursorY := 0 }.update size

/-- `k_sys_TerminalInit`, with what `k_rt_Malloc` gives. -/
def init (memory : Int → Nat) : Terminal :=
  { outputBuffer := memory, color := whiteOnBlack, cursorX := 0, bufferCursorY := 0,
    displayCursorY := 0, scrollY := 0, stores := [], shown := fun _ => none : Terminal }.clearLines
    size 0 size.height.toNat

end Terminal

inductive TermCall where
  | puts (str : List UInt8)
  | clear

namespace Terminal

def call (size : TermSize) (terminal : Terminal) : TermCall → Terminal
  | .puts str => terminal.puts size str
  | .clear => terminal.clear size

def machine (size : TermSize) : Machine Terminal TermCall where
  start terminal := ∃ memory, terminal = init size memory
  step before label after := after = before.call size label

end Terminal

end DoggOS.Sys

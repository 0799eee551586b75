/-
The formatter of the kernel.

`k_vasfmt` reads its format one character or one directive at a time.  A format
is seen here as its pieces; `runPieces` is the loop over them, and the code does
the same with its index.  The argument list is typed: taking an argument of
another type, or one that is not there, has no outcome.  The indices stay below
2^32, because the format and the buffer are smaller.
-/

import DoggOS.KString.Conversions

namespace DoggOS.KString

/-- `enum K_FMT_MODIFIER_TYPE` -/
inductive Modifier where
  | none
  | long
  | longLong
  deriving DecidableEq, Repr

inductive Arg where
  | dword (value : UInt32)
  | qword (value : UInt64)
  | string (value : CString)

/-- `va_arg(args, uint32_t)` -/
def dwordArg : List Arg → Option (UInt32 × List Arg)
  | .dword value :: args => some (value, args)
  | _ => none

/-- `va_arg(args, uint64_t)` -/
def qwordArg : List Arg → Option (UInt64 × List Arg)
  | .qword value :: args => some (value, args)
  | _ => none

/-- `va_arg(args, char *)` -/
def stringArg : List Arg → Option (CString × List Arg)
  | .string value :: args => some (value, args)
  | _ => none

structure FmtState where
  outIndex : Nat
  modifier : Modifier
  buffer : List UInt8
  args : List Arg

namespace FmtState

variable (state : FmtState)

def wrote (args : List Arg) (written : Nat × List UInt8) : FmtState :=
  { state with outIndex := state.outIndex + written.1, buffer := written.2, args := args }

def directive (bufferLength : Nat) (letter : UInt8) : Option FmtState :=
  let room : Int := (bufferLength - state.outIndex : Nat)
  if letter = 'd'.toUInt8 then
    (dwordArg state.args).bind fun taken =>
      (itoa state.buffer state.outIndex room taken.1.toInt32).map (state.wrote taken.2)
  else if letter = 'x'.toUInt8 then
    (if state.modifier = .longLong then qwordArg state.args
      else (dwordArg state.args).map fun taken => (taken.1.toUInt64, taken.2)).bind fun taken =>
        (xtoa state.buffer state.outIndex room taken.1).map (state.wrote taken.2)
  else if letter = 's'.toUInt8 then
    (stringArg state.args).bind fun taken =>
      (strcat state.buffer state.outIndex room taken.1).map fun written =>
        if written.1 ≠ 0 then state.wrote taken.2 (written.1 - 1, written.2)
        else state.wrote taken.2 (0, written.2)
  else if letter = 'c'.toUInt8 then
    (dwordArg state.args).bind fun taken =>
      (storeChar state.buffer state.outIndex (taken.1 &&& 0xff).toUInt8).map fun buffer =>
        state.wrote taken.2 (1, buffer)
  else some state

def putChar (char : UInt8) : Option FmtState :=
  (storeChar state.buffer state.outIndex char).map fun buffer =>
    { state with outIndex := state.outIndex + 1, buffer := buffer }

end FmtState

/-- The first switch, over the modifier behind a percent sign: the index of the letter and the
modifier from here on. -/
def readModifier (fmt : CString) (inIndex : Nat) (modifier : Modifier) : Option (Nat × Modifier) :=
  (fmt.char inIndex).bind fun char =>
    if char = 'l'.toUInt8 then
      (fmt.char (inIndex + 1)).map fun char =>
        if char = 'l'.toUInt8 then (inIndex + 2, .longLong) else (inIndex + 1, .long)
    else some (inIndex, modifier)

def fmtTurn (fmt : CString) (bufferLength inIndex : Nat) (char : UInt8) (state : FmtState) :
    Option (Nat × FmtState) :=
  (storeChar state.buffer state.outIndex 0).bind fun buffer =>
    let state := { state with buffer := buffer }
    if char = '%'.toUInt8 then
      (readModifier fmt (inIndex + 1) state.modifier).bind fun read =>
        (fmt.char read.1).bind fun letter =>
          (FmtState.directive { state with modifier := read.2 } bufferLength letter).map
            fun state => (read.1 + 1, state)
    else (state.putChar char).map fun state => (inIndex + 1, state)

def fmtLoop (fmt : CString) (bufferLength : Nat) : Nat → Nat → FmtState → Option FmtState
  | 0, _, _ => none
  | turns + 1, inIndex, state =>
      (fmt.char inIndex).bind fun char =>
        if char ≠ 0 ∧ state.outIndex < bufferLength then
          (fmtTurn fmt bufferLength inIndex char state).bind fun next =>
            fmtLoop fmt bufferLength turns next.1 next.2
        else some state

/-- `k_vasfmt`; the outcome is `out_index` at the end and the buffer. -/
def vasfmt (buffer : List UInt8) (bufferSize : Int) (fmt : CString) (args : List Arg) :
    Option (Nat × List UInt8) :=
  if bufferSize > 0 then
    (fmtLoop fmt (bufferSize.toNat - 1) (2 ^ 32) 0 ⟨0, .none, buffer, args⟩).bind fun state =>
      (storeChar state.buffer state.outIndex 0).map fun buffer => (state.outIndex, buffer)
  else some (0, buffer)

/-- A character, a directive with its modifier and letter, or a directive that the NUL cuts off. -/
inductive Piece where
  | char (ordinary : UInt8)
  | directive (modifier : Modifier) (letter : UInt8)
  | cut
  deriving DecidableEq, Repr

def Modifier.longer : Modifier → Modifier
  | none => long
  | _ => longLong

/-- The pieces of a format, behind a percent sign and a modifier when there is one. -/
def piecesFrom : Option Modifier → List UInt8 → List Piece
  | none, [] => []
  | none, char :: fmt =>
      if char = '%'.toUInt8 then piecesFrom (some .none) fmt else .char char :: piecesFrom none fmt
  | some _, [] => [.cut]
  | some modifier, char :: fmt =>
      if char = 'l'.toUInt8 ∧ modifier ≠ .longLong then piecesFrom (some modifier.longer) fmt
      else .directive modifier char :: piecesFrom none fmt

def pieces (fmt : List UInt8) : List Piece := piecesFrom none fmt

def Modifier.over : Modifier → Modifier → Modifier
  | none, previous => previous
  | modifier, _ => modifier

namespace Piece

/-- What a turn does at a piece.  Behind a directive that is cut off the format is read past its
NUL. -/
def turn (bufferLength : Nat) (piece : Piece) (state : FmtState) : Option FmtState :=
  (storeChar state.buffer state.outIndex 0).bind fun buffer =>
    let state := { state with buffer := buffer }
    match piece with
    | .char ordinary => state.putChar ordinary
    | .directive modifier letter =>
        FmtState.directive { state with modifier := modifier.over state.modifier } bufferLength letter
    | .cut => none

def run (bufferLength : Nat) : List Piece → FmtState → Option FmtState
  | [], state => some state
  | piece :: pieces, state =>
      if state.outIndex < bufferLength then
        (piece.turn bufferLength state).bind (run bufferLength pieces)
      else some state

end Piece

end DoggOS.KString

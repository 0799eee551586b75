/-
Segments and interrupt gates of the x86 processor.

The processor reads a segment from four halves of the descriptor table and a gate
from two words of the interrupt table.  An interrupt enters the code segment that
its gate names, in the ring of that segment, or in the ring of the interrupted
code where the segment conforms.
-/

import DoggOS.Library.X86

namespace DoggOS.X86

structure SegmentDesc where
  base : Word
  limit : BitVec 20
  present : Bool
  ring : BitVec 2
  code : Bool
  conforming : Bool
  deriving DecidableEq

/-- `code` is set only where the segment is not one of the system. -/
def segmentOf (w0 w1 w2 w3 : BitVec 16) : SegmentDesc where
  base := w3.extractLsb' 8 8 ++ w2.extractLsb' 0 8 ++ w1
  limit := w3.extractLsb' 0 4 ++ w0
  present := w2.getLsbD 15
  ring := w2.extractLsb' 13 2
  code := w2.getLsbD 12 && w2.getLsbD 11
  conforming := w2.getLsbD 10

structure Gate where
  offset : Word
  selector : BitVec 16
  ring : BitVec 2
  trap : Bool
  deriving DecidableEq

/-- Only 32-bit interrupt gates and trap gates that are present. -/
def gateOf (dw0 dw1 : Word) : Option Gate :=
  if dw1.getLsbD 15 ∧ dw1.extractLsb' 9 4 = 7#4 then
    some {
      offset := dw1.extractLsb' 16 16 ++ dw0.extractLsb' 0 16
      selector := dw0.extractLsb' 16 16
      ring := dw1.extractLsb' 13 2
      trap := dw1.getLsbD 8 }
  else none

/-- Where an interrupt goes, and in which ring; nothing where the processor faults instead.  There
is no local descriptor table. -/
def enter (segments : List SegmentDesc) (ring : BitVec 2) (software : Bool) (gate : Gate) :
    Option (Word × BitVec 2) :=
  if software ∧ gate.ring < ring then none
  else if gate.selector.getLsbD 2 then none
  else
    match segments[(gate.selector >>> 3).toNat]? with
    | none => none
    | some segment =>
        if segment.code ∧ segment.present ∧ segment.ring ≤ ring then
          some (gate.offset, if segment.conforming then ring else segment.ring)
        else none

end DoggOS.X86

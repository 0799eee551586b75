/-
Byte streams: a list of buffers with a reader and a writer.

Buffers are given by their addresses.  A result is missing where the code
follows a pointer that is NULL or has no buffer.  `k_rt_Malloc` is a parameter,
the address of each new buffer, which is zero filled.  Offsets and counts are
32-bit.  A stream is given by its record, so the checks for a NULL
stream have no counterpart; data that may be NULL is optional.
-/

import DoggOS.Library.WhileLoop
import DoggOS.Library.Words
import Mathlib.Logic.Function.Basic

namespace DoggOS.Io

/-- `struct k_io_stream_buf_t` -/
structure StreamBuf where
  next : Nat
  prev : Nat
  data : Bytes

/-- `K_IO_STREAM_BUF_DATA_SIZE` -/
def bufDataSize : Nat := 4096 - 4 * 2

/-- `enum K_IO_STREAM_FLAGS` -/
def flagRead : Nat := 1 <<< 1

def flagWrite : Nat := 1 <<< 2

def flagBlocked : Nat := 1 <<< 3

def flagClearRead : Nat := 1 <<< 4

/-- The members of `enum K_STATUS_CODES` that the stream calls return. -/
inductive Status where
  | ok
  | emptyStream
  | blockedStream
  | invalidData
deriving DecidableEq, Repr

abbrev Bufs := Nat → Option StreamBuf

/-- `struct k_io_stream_t`, the buffers in memory, and how many there are. -/
structure Stream where
  readOffset : Nat
  writeOffset : Nat
  availableCount : Nat
  flags : Nat
  condition : Nat
  buffers : Nat
  lastBuffer : Nat
  readBuffer : Nat
  writeBuffer : Nat
  freeBuffers : Nat
  bufs : Bufs
  allocated : Nat

/-- The variables of the copy loops: `data`, `data_offset`, `size` and the buffer passed last. -/
structure Copying where
  stream : Stream
  data : Bytes
  dataOffset : Nat
  size : Nat
  lastFreed : Nat

namespace Stream

def deref (stream : Stream) (buffer : Nat) : Option StreamBuf :=
  if buffer = 0 then none else stream.bufs buffer

def modify (stream : Stream) (buffer : Nat) (change : StreamBuf → StreamBuf) : Option Stream :=
  (stream.deref buffer).map fun found =>
    { stream with bufs := Function.update stream.bufs buffer (some (change found)) }

section Alloc

variable (malloc : Nat → Nat)

/-- The first part of `k_io_AllocStreamBuffer`: the address of a buffer. -/
def takeBuffer (stream : Stream) : Option (Nat × Stream) :=
  if stream.freeBuffers ≠ 0 then
    (stream.deref stream.freeBuffers).map fun found =>
      (stream.freeBuffers, { stream with freeBuffers := found.next })
  else
    let buffer := malloc stream.allocated
    some (buffer, { stream with
      bufs := Function.update stream.bufs buffer (some { next := 0, prev := 0, data := fun _ => 0 })
      allocated := stream.allocated + 1 })

/-- `k_io_AllocStreamBuffer` -/
def allocStreamBuffer (stream : Stream) : Option Stream :=
  (stream.takeBuffer malloc).bind fun (buffer, stream) =>
    let linked :=
      if stream.buffers = 0 then some { stream with buffers := buffer }
      else stream.modify stream.lastBuffer fun found => { found with next := buffer }
    linked.bind fun stream =>
      (stream.modify buffer fun found => { found with prev := stream.lastBuffer }).map
        fun stream => { stream with lastBuffer := buffer }

/-- `k_io_AllocStream` -/
def allocStream (flags : Nat) : Option Stream :=
  (allocStreamBuffer malloc
    { readOffset := 0
      writeOffset := 0
      availableCount := 0
      flags := flags &&& (flagRead ||| flagWrite)
      condition := 0
      buffers := 0
      lastBuffer := 0
      readBuffer := 0
      writeBuffer := 0
      freeBuffers := 0
      bufs := fun _ => none
      allocated := 0 }).map fun stream =>
    { stream with readBuffer := stream.buffers, writeBuffer := stream.buffers }

/-- One turn of the loop in `k_io_WriteStreamData`. -/
def writeTurn (copying : Copying) : Option Copying :=
  let stream := copying.stream
  let bufferOffset := stream.writeOffset % bufDataSize
  let copySize := bufDataSize - bufferOffset
  let buffer := stream.writeBuffer
  let passed :=
    if copySize ≤ copying.size then
      (stream.deref stream.writeBuffer).bind fun found =>
        (if found.next = 0 then stream.allocStreamBuffer malloc else some stream).bind fun stream =>
          (stream.deref stream.writeBuffer).map fun found =>
            ({ stream with writeBuffer := found.next }, copySize)
    else some (stream, copying.size)
  passed.bind fun (stream, copySize) =>
    (stream.modify buffer fun found => { found with
      data := fillBytes found.data bufferOffset copySize
        fun byte => copying.data (copying.dataOffset + byte) }).map fun stream =>
      { copying with
        stream := { stream with writeOffset := (stream.writeOffset + copySize) % 2 ^ 32 }
        dataOffset := (copying.dataOffset + copySize) % 2 ^ 32
        size := copying.size - copySize }

/-- `k_io_WriteStreamData` -/
def writeStreamData (stream : Stream) (data : Option Bytes) (size : Nat) :
    Option (Status × Stream) :=
  match data with
  | none => some (.invalidData, stream)
  | some data =>
      if size = 0 then some (.invalidData, stream)
      else if stream.flags &&& flagBlocked ≠ 0 then some (.blockedStream, stream)
      else
        (faultLoop (fun copying => copying.size ≠ 0) (writeTurn malloc) (size + 1)
          ⟨stream, data, 0, size, 0⟩).map fun copied =>
          let written := { copied.stream with
            availableCount := (copied.stream.availableCount + copied.dataOffset) % 2 ^ 32 }
          (.ok, if written.readBuffer = 0 then { written with readBuffer := stream.writeBuffer }
            else written)

end Alloc

/-- One turn of the loop in `k_io_ReadStreamData`. -/
def readTurn (copying : Copying) : Option Copying :=
  let stream := copying.stream
  let bufferOffset := stream.readOffset % bufDataSize
  let copySize := bufDataSize - bufferOffset
  let buffer := stream.readBuffer
  let passed :=
    if copySize ≤ copying.size then
      (stream.deref stream.readBuffer).map fun found =>
        ({ stream with readBuffer := found.next }, copySize, buffer)
    else some (stream, copying.size, copying.lastFreed)
  passed.bind fun (stream, copySize, lastFreed) =>
    (stream.deref buffer).map fun found =>
      { stream := { stream with readOffset := (stream.readOffset + copySize) % 2 ^ 32 }
        data := fillBytes copying.data copying.dataOffset copySize
          fun byte => found.data (bufferOffset + byte)
        dataOffset := (copying.dataOffset + copySize) % 2 ^ 32
        size := copying.size - copySize
        lastFreed := lastFreed }

/-- The part of `k_io_ReadStreamData` for `K_IO_STREAM_FLAG_CLEAR_READ`: the buffers from
`first` to `last` go to the free list. -/
def freeReadBuffers (stream : Stream) (first last : Nat) : Option Stream :=
  (stream.deref first).bind fun firstFreed =>
    (stream.deref last).bind fun lastFreed =>
      let unlinked :=
        if first = stream.buffers then some { stream with buffers := lastFreed.next }
        else stream.modify firstFreed.prev fun found => { found with next := lastFreed.next }
      unlinked.bind fun stream =>
        let ended :=
          if last = stream.lastBuffer then some { stream with lastBuffer := firstFreed.prev }
          else stream.modify lastFreed.next fun found => { found with prev := firstFreed.prev }
        ended.bind fun stream =>
          (stream.modify last fun found => { found with next := stream.freeBuffers }).map
            fun stream => { stream with freeBuffers := first }

/-- `k_io_ReadStreamData`; the result has the bytes at `data` after the call. -/
def readStreamData (stream : Stream) (data : Option Bytes) (size : Nat) :
    Option (Status × Option Bytes × Stream) :=
  if stream.flags &&& flagBlocked ≠ 0 then some (.blockedStream, data, stream)
  else
    match data with
    | none => some (.invalidData, none, stream)
    | some data =>
        if size = 0 then some (.invalidData, some data, stream)
        else if stream.buffers = 0 ∨ stream.readOffset = stream.writeOffset then
          some (.emptyStream, some data, stream)
        else
          let size := if size > stream.availableCount then stream.availableCount else size
          (faultLoop (fun copying => copying.size ≠ 0) readTurn (size + 1)
            ⟨stream, data, 0, size, 0⟩).bind fun copied =>
            let read := { copied.stream with
              availableCount := (copied.stream.availableCount + 2 ^ 32 - copied.dataOffset) % 2 ^ 32 }
            let freed :=
              if read.flags &&& flagClearRead ≠ 0 ∧ copied.lastFreed ≠ 0 then
                read.freeReadBuffers stream.readBuffer copied.lastFreed
              else some read
            freed.map fun stream => (.ok, some copied.data, stream)

end Stream

end DoggOS.Io

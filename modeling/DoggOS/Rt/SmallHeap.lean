/-
The small heap: nine bucket lists for each thread, refilled one page at a time.

Memory is a function from the byte addresses of aligned 32-bit words to their
contents.  A free chunk keeps its `next` link in its first word and its `prev`
link in the second; a chunk page keeps `main_bucket` in the low four bits of
its second word.  The definitions follow `k_rt_InitChunkPage`,
`k_rt_SmallAlloc` and `k_rt_SmallFree`; the page that `k_rt_BigAlloc(4096)`
returns is an argument of the call that may need it.
-/

import DoggOS.Mem.Defs
import Mathlib.Logic.Function.Basic

namespace DoggOS.Rt

def smallBucketCount : Nat := 9

def smallBucketSizes : List Nat := [8, 16, 32, 64, 128, 256, 512, 1024, 2048]

def smallBucketSize (bucketIndex : Nat) : Nat := smallBucketSizes.getD bucketIndex 0

def noBucket : Nat := 0xffffffff

def smallBucketIndexFromSize (size : Nat) : Nat :=
  ((List.range smallBucketCount).find?
    (fun bucketIndex => decide (size ≤ smallBucketSize bucketIndex))).getD noBucket

/-- `sizeof(struct k_rt_scpheader_t)` and `sizeof(struct k_rt_schunk_t)`. -/
def headerBytes : Nat := 8

def chunkBytes : Nat := 8

def pageChunkBytes : Nat := 4096 - headerBytes

def pageChunkCount : Nat := pageChunkBytes / chunkBytes

abbrev BucketKey := Nat × Nat

structure SmallHeaps where
  mem : Nat → Nat
  firstChunk : BucketKey → Nat
  lastChunk : BucketKey → Nat

def chunkNext (mem : Nat → Nat) (chunk : Nat) : Nat := mem chunk

def prevAddress (chunk : Nat) : Nat := chunk + 4

def mainBucketAddress (page : Nat) : Nat := page + 4

def mainBucket (mem : Nat → Nat) (page : Nat) : Nat := mem (mainBucketAddress page) % 16

/-- The bit field store keeps the other bits of its word. -/
def setMainBucket (mem : Nat → Nat) (page bucketIndex : Nat) : Nat → Nat :=
  Function.update mem (mainBucketAddress page)
    (mem (mainBucketAddress page) / 16 * 16 + bucketIndex % 16)

structure Carve where
  mem : Nat → Nat
  curOffset : Nat
  nextChunk : Nat
  lastChunk : Nat

def chunkAddress (page curOffset : Nat) : Nat := page + headerBytes + chunkBytes * curOffset

def carveChunk (page slotsPerChunk : Nat) (carve : Carve) : Carve :=
  let curOffset := carve.curOffset - slotsPerChunk
  let chunk := chunkAddress page curOffset
  let mem := Function.update carve.mem chunk carve.nextChunk
  if carve.nextChunk ≠ 0 then
    { mem := Function.update mem (prevAddress carve.nextChunk) chunk
      curOffset, nextChunk := chunk, lastChunk := carve.lastChunk }
  else
    { mem, curOffset, nextChunk := chunk, lastChunk := chunk }

def carveChunks (page slotsPerChunk : Nat) : Nat → Carve → Carve
  | 0, carve => carve
  | count + 1, carve => carveChunks page slotsPerChunk count (carveChunk page slotsPerChunk carve)

def linkChunks (heaps : SmallHeaps) (bucket : BucketKey) (first last : Nat) : SmallHeaps :=
  let oldLast := heaps.lastChunk bucket
  if oldLast ≠ 0 then
    { mem := Function.update (Function.update heaps.mem oldLast first) (prevAddress first) oldLast
      firstChunk := heaps.firstChunk
      lastChunk := Function.update heaps.lastChunk bucket last }
  else
    { mem := heaps.mem
      firstChunk := Function.update heaps.firstChunk bucket first
      lastChunk := Function.update heaps.lastChunk bucket last }

/-- `while(cur_offset)`: the slots below the main chunks, halved at each turn. -/
def carveLadder (page thread : Nat) : Nat → Nat → Nat → Nat → SmallHeaps → Option SmallHeaps
  | _, _, 0, _, heaps => some heaps
  | 0, _, _ + 1, _, _ => none
  | fuel + 1, slotsPerChunk, curOffset + 1, bucketIndex, heaps =>
      let slots := slotsPerChunk >>> 1
      let offset := curOffset + 1 - slots
      let index := bucketIndex - 1
      let chunk := chunkAddress page offset
      let cleared := { heaps with mem := Function.update heaps.mem chunk 0 }
      carveLadder page thread fuel slots offset index
        (linkChunks cleared (thread, index) chunk chunk)

/-- `k_rt_InitChunkPage`, with the page that `k_rt_BigAlloc(4096)` returned. -/
def initChunkPage (heaps : SmallHeaps) (thread bucketIndex page : Nat) : Option SmallHeaps :=
  let chunkSize := smallBucketSize bucketIndex
  let slotsPerChunk := chunkSize / smallBucketSize 0
  let chunkCount := pageChunkBytes / chunkSize
  let carve := carveChunks page slotsPerChunk chunkCount
    { mem := setMainBucket heaps.mem page bucketIndex
      curOffset := pageChunkCount, nextChunk := 0, lastChunk := 0 }
  let linked := linkChunks { heaps with mem := carve.mem } (thread, bucketIndex)
    carve.nextChunk carve.lastChunk
  carveLadder page thread smallBucketCount slotsPerChunk carve.curOffset bucketIndex linked

/-- The last statements of `k_rt_SmallAlloc`: take the first chunk of the bucket. -/
def takeChunk (heaps : SmallHeaps) (bucket : BucketKey) : Nat × SmallHeaps :=
  let chunk := heaps.firstChunk bucket
  let next := chunkNext heaps.mem chunk
  let firstChunk := Function.update heaps.firstChunk bucket next
  if next ≠ 0 then
    (chunk, { mem := Function.update heaps.mem (prevAddress next) 0
              firstChunk, lastChunk := heaps.lastChunk })
  else
    (chunk, { mem := heaps.mem
              firstChunk, lastChunk := Function.update heaps.lastChunk bucket 0 })

/-- `k_rt_SmallAlloc` -/
def smallAlloc (heaps : SmallHeaps) (thread size page : Nat) : Option (Nat × SmallHeaps) :=
  let bucketIndex := smallBucketIndexFromSize size
  if bucketIndex = noBucket then some (0, heaps)
  else if heaps.firstChunk (thread, bucketIndex) = 0 then
    (initChunkPage heaps thread bucketIndex page).map
      (fun refilled => takeChunk refilled (thread, bucketIndex))
  else some (takeChunk heaps (thread, bucketIndex))

/-- The bucket `k_rt_SmallFree` returns a chunk to. -/
def freeBucketIndex (mem : Nat → Nat) (memory : Nat) : Nat :=
  let page := memory &&& 0xfffff000
  let bucketIndex := smallBucketIndexFromSize (memory - page)
  if mainBucket mem page < bucketIndex then mainBucket mem page else bucketIndex

/-- `k_rt_SmallFree` -/
def smallFree (heaps : SmallHeaps) (thread memory : Nat) : SmallHeaps :=
  let bucket := (thread, freeBucketIndex heaps.mem memory)
  let cleared := Function.update (Function.update heaps.mem memory 0) (prevAddress memory) 0
  let next := heaps.firstChunk bucket
  let linked := Function.update cleared memory next
  let firstChunk := Function.update heaps.firstChunk bucket memory
  if next ≠ 0 then
    { mem := Function.update linked (prevAddress next) memory
      firstChunk, lastChunk := heaps.lastChunk }
  else
    { mem := linked, firstChunk
      lastChunk := Function.update heaps.lastChunk bucket memory }

/-- The test of `k_rt_Free`: a non-zero page offset goes to `k_rt_SmallFree`. -/
def dispatchesSmallFree (memory : Nat) : Prop := memory &&& 0xfff ≠ 0

end DoggOS.Rt

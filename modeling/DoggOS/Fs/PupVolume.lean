/-
A mounted Pup volume and its block bitmap.

The volume record has the root that was read at mount time, the bitmap with one
bit for each allocatable block, and the entries of the cache set in list order.
Sizes and links are 64-bit, the loop counter of the allocation is 32-bit.  The
definitions follow `k_fs_PupAllocBlock` and `k_fs_PupFreeBlock`.
-/

import DoggOS.Library.BitArray
import DoggOS.Library.WhileLoop

namespace DoggOS.Fs

/-- `struct k_fs_pup_root_t`; a link is a block number. -/
structure PupRoot where
  ident : List UInt8
  rootNode : Nat
  bitmaskStart : Nat
  bitmaskBlockCount : Nat
  allocStart : Nat
  blockCount : Nat
deriving DecidableEq, Repr

/-- `struct k_fs_pup_centry_t`: four blocks from `firstBlock` on. -/
structure CacheEntry where
  firstBlock : Nat
  buffer : Bytes

/-- `struct k_fs_pup_vol_t` -/
structure PupVolume where
  root : PupRoot
  blockBitmask : Bytes
  cacheEntries : List CacheEntry

/-- `K_FS_PUP_NULL_LINK` -/
def nullLink : Nat := 0

/-- `k_rt_CmpXchg8` -/
def cmpXchg8 (bytes : Bytes) (location : Nat) (expected new : UInt8) : Bool × Bytes :=
  if bytes location = expected then (true, Function.update bytes location new) else (false, bytes)

/-- The variables of the loop in `k_fs_PupAllocBlock`. -/
structure BlockSearch where
  blockIndex : Nat
  block : Nat
  blockBitmask : Bytes
  left : Bool

namespace PupVolume

def allocTurn (allocStart blockCount : Nat) (search : BlockSearch) : Option BlockSearch :=
  if search.left = true ∨ ¬ search.blockIndex < blockCount then none
  else
    let bitmaskIndex := search.blockIndex >>> 3
    let bitmask := search.blockBitmask bitmaskIndex
    let bit := byteBit (search.blockIndex &&& 0x7)
    if bitmask &&& bit = 0 then
      let exchanged := cmpXchg8 search.blockBitmask bitmaskIndex bitmask (bitmask ||| bit)
      if exchanged.1 = true then
        some { search with
          block := (allocStart + search.blockIndex) % 2 ^ 64
          blockBitmask := exchanged.2
          left := true }
      else some { search with blockIndex := (0xffffffff + 1) % 2 ^ 32, blockBitmask := exchanged.2 }
    else some { search with blockIndex := (search.blockIndex + 1) % 2 ^ 32 }

/-- `uint32_t block_count` of `k_fs_PupAllocBlock`. -/
def searchCount (volume : PupVolume) : Nat :=
  (volume.root.blockCount + 2 ^ 64 - volume.root.allocStart) % 2 ^ 64 % 2 ^ 32

/-- `k_fs_PupAllocBlock` -/
def allocBlock (volume : PupVolume) : Option (Nat × PupVolume) :=
  (whileLoop (allocTurn volume.root.allocStart volume.searchCount) (volume.searchCount + 1)
    { blockIndex := 0, block := nullLink, blockBitmask := volume.blockBitmask, left := false }).map
    (fun search => (search.block, { volume with blockBitmask := search.blockBitmask }))

/-- `k_fs_PupFreeBlock`; the bit number is taken from the byte index. With one thread the first
exchange succeeds. -/
def freeBlock (volume : PupVolume) (block : Nat) : PupVolume :=
  let bitmaskIndex := ((block + 2 ^ 64 - volume.root.allocStart) % 2 ^ 64) >>> 3
  let bitmask := volume.blockBitmask bitmaskIndex
  let bit := byteBit (bitmaskIndex &&& 0x7)
  { volume with
    blockBitmask := (cmpXchg8 volume.blockBitmask bitmaskIndex bitmask (bitmask &&& ~~~ bit)).2 }

end PupVolume

end DoggOS.Fs

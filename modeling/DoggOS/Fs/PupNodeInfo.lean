/-
Acquiring and releasing nodes of cached blocks.

While a node is acquired its size field holds a pointer to an info object, where
the size is kept.  The fields of nodes, info objects and cache entries are
functions of their addresses; `poolNode` of the pool is the first word of an info
object, and at the address of a node it is the low word of `contents`.
-/

import DoggOS.Rt.Pool

namespace DoggOS.Fs

open Mem Rt

/-- `k_rt_pool_CreateForType(struct k_fs_pup_node_info_t)` -/
def nodeInfoType : PoolType := ⟨0, 36, 4⟩

/-- `K_FS_PUP_NODE_FLAG_INFO` -/
def nodeFlagInfo : Nat := 1

structure NodeStore where
  pool : Pool
  /-- Fields of a node. -/
  size : Nat → Nat
  flags : Nat → Nat
  /-- Fields of an info object. -/
  infoNode : Nat → Nat
  infoSize : Nat → Nat
  infoRefCount : Nat → Nat
  infoEntry : Nat → Nat
  /-- Fields of a cache entry. -/
  firstBlock : Nat → Nat
  refCount : Nat → Nat

/-- `entry->buffer` -/
def entryBuffer (entry : Nat) : Nat := entry + 40

/-- `K_FS_PUP_NODE_BLOCK` -/
def nodeBlock (link : Nat) : Nat := link >>> 8

/-- `K_FS_PUP_NODE_INDEX` -/
def nodeIndex (link : Nat) : Nat := link &&& 255

/-- An acquire names the node by its link and the entry that holds its block. -/
inductive NodeCall where
  | getNodeOnEntry (link entry page : Nat)
  | releaseNode (link entry : Nat)
deriving DecidableEq, Repr

namespace NodeStore

def contents (store : NodeStore) (link entry : Nat) : Nat :=
  let offset := (nodeBlock link + 2 ^ 64 - store.firstBlock entry) % 2 ^ 64 * 4096 % wordLimit
  (entryBuffer entry + offset) % wordLimit

/-- `contents->dir.entries + node_index` -/
def node (store : NodeStore) (link entry : Nat) : Nat :=
  store.contents link entry + 16 + 256 * nodeIndex link

/-- `node->info`, the low word of the size. -/
def info (store : NodeStore) (node : Nat) : Nat := store.size node % wordLimit

def hasInfo (store : NodeStore) (node : Nat) : Prop := store.flags node &&& nodeFlagInfo ≠ 0

instance (store : NodeStore) (node : Nat) : Decidable (store.hasInfo node) :=
  inferInstanceAs (Decidable (_ ≠ _))

/-- `k_fs_PupAcquireEntry` -/
def acquireEntry (store : NodeStore) (entry : Nat) : NodeStore :=
  if entry = 0 then store
  else { store with
    refCount := Function.update store.refCount entry ((store.refCount entry + 1) % wordLimit) }

/-- `k_fs_PupReleaseEntry` -/
def releaseEntry (store : NodeStore) (entry : Nat) : NodeStore :=
  if entry = 0 ∨ store.refCount entry = 0 then store
  else { store with refCount := Function.update store.refCount entry (store.refCount entry - 1) }

def attachInfo (store : NodeStore) (link entry node page : Nat) : Option NodeStore := do
  let (info, pool) ← store.pool.allocObj nodeInfoType page
  return { store with
    pool := pool
    size := Function.update store.size node (store.size node / wordLimit * wordLimit + info)
    infoNode := Function.update store.infoNode info link
    infoSize := Function.update store.infoSize info (store.size node)
    infoRefCount := Function.update store.infoRefCount info 0
    infoEntry := Function.update store.infoEntry info entry }

def countInfo (store : NodeStore) (node : Nat) : NodeStore :=
  { store with
    infoRefCount := Function.update store.infoRefCount (store.info node)
      ((store.infoRefCount (store.info node) + 1) % 2 ^ 64) }

/-- `k_fs_PupGetNodeOnEntry`; it ends without a return statement. -/
def getNodeOnEntry (store : NodeStore) (link entry page : Nat) : Option NodeStore :=
  let node := store.node link entry
  if store.contents link entry ≠ 0 ∧ nodeIndex link < 255 then
    (if store.hasInfo node then some store else store.attachInfo link entry node page).map
      fun store => (store.countInfo node).acquireEntry entry
  else some store

/-- The size goes back to its place; it is the node that is given to the pool. -/
def detachInfo (store : NodeStore) (node : Nat) : Option NodeStore := do
  let size := store.infoSize (store.info node)
  let pool ← store.pool.freeObj nodeInfoType node
  return { store with
    pool := pool
    size := Function.update store.size node size
    flags := Function.update store.flags node (store.flags node - nodeFlagInfo) }

/-- `k_fs_PupReleaseNode` -/
def releaseNode (store : NodeStore) (node : Nat) : Option NodeStore :=
  if node ≠ 0 ∧ store.hasInfo node then
    let info := store.info node
    let store := { store with
      infoRefCount := Function.update store.infoRefCount info
        ((store.infoRefCount info + 2 ^ 64 - 1) % 2 ^ 64) }
    let store := store.releaseEntry (store.infoEntry info)
    if store.infoRefCount info = 0 then store.detachInfo node else some store
  else some store

def call (store : NodeStore) : NodeCall → Option NodeStore
  | .getNodeOnEntry link entry page => store.getNodeOnEntry link entry page
  | .releaseNode link entry => store.releaseNode (store.node link entry)

def run (store : NodeStore) : List NodeCall → Option NodeStore
  | [] => some store
  | label :: calls => (store.call label).bind fun store => run store calls

end NodeStore

end DoggOS.Fs

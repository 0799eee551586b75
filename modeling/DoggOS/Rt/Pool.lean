/-
Pools of objects of one type.

Each field of a page is a function of its address, and so is the pool node of an
object: it links a free object to the next one and names the page of an object
in use.  `objects` is a history that the code does not keep: the objects that
were given out and not returned.  Page zero is not mapped, so an access through a
null pointer leaves a call without a result.
-/

import DoggOS.Library.WhileLoop
import DoggOS.Mem.Defs
import Mathlib.Logic.Function.Basic

namespace DoggOS.Rt

open Mem

/-- What `k_rt_pool_Create` fixes. -/
structure PoolType where
  nodeOffset : Nat
  objSize : Nat
  objAlign : Nat

/-- `K_RT_POOL_PAGE_SIZE` -/
def poolPageSize : Nat := 4096

/-- `sizeof(struct {K_RT_POOL_PAGE_FIELDS})` -/
def poolPageHeader : Nat := 24

structure Pool where
  /-- `union k_rt_pool_node_t` -/
  poolNode : Nat → Nat
  next : Nat → Nat
  prev : Nat → Nat
  nextFree : Nat → Nat
  index : Nat → Nat
  usedCount : Nat → Nat
  firstPage : Nat
  lastPage : Nat
  curPage : Nat
  freeablePages : Nat
  nextPageIndex : Nat
  objects : List Nat

namespace Pool

def linkEntries (type : PoolType) : Nat → Nat → Pool → Pool
  | 0, _, pool => pool
  | count + 1, curNode, pool =>
      linkEntries type count (curNode + type.objSize)
        { pool with poolNode := Function.update pool.poolNode curNode (curNode + type.objSize) }

/-- The first object of a page and the number of objects. -/
def entriesBlock (type : PoolType) (page : Nat) : Nat × Nat :=
  let align := (page + poolPageHeader) % type.objAlign
  if align ≠ 0 then
    (page + poolPageHeader + (type.objAlign - align),
      (poolPageSize - poolPageHeader + wordLimit - align) % wordLimit / type.objSize)
  else (page + poolPageHeader, (poolPageSize - poolPageHeader) / type.objSize)

/-- A page that `k_rt_Malloc` gives. -/
def initPage (type : PoolType) (pool : Pool) (page : Nat) : Pool :=
  let (entriesBlock, entryCount) := entriesBlock type page
  let curNode := entriesBlock + type.nodeOffset
  linkEntries type ((entryCount + wordLimit - 1) % wordLimit) curNode
    { pool with nextFree := Function.update pool.nextFree page curNode }

/-- An emptied page, or else a new one. -/
def takePage (type : PoolType) (pool : Pool) (page : Nat) : Nat × Pool :=
  if pool.freeablePages ≠ 0 then
    (pool.freeablePages, { pool with
      freeablePages := pool.next pool.freeablePages
      next := Function.update pool.next pool.freeablePages 0
      prev := Function.update pool.prev pool.freeablePages 0 })
  else (page, pool.initPage type page)

def linkPage (pool : Pool) (page : Nat) : Pool :=
  if pool.firstPage = 0 then { pool with firstPage := page }
  else { pool with
    next := Function.update pool.next pool.lastPage page
    prev := Function.update pool.prev page pool.lastPage }

def currentPage (type : PoolType) (pool : Pool) (page : Nat) : Nat × Pool :=
  if pool.curPage ≠ 0 then (pool.curPage, pool)
  else
    let (curPage, pool) := pool.takePage type page
    let pool := { pool with curPage := curPage }.linkPage curPage
    (curPage, { pool with
      lastPage := curPage
      index := Function.update pool.index curPage pool.nextPageIndex
      nextPageIndex := (pool.nextPageIndex + 1) % wordLimit })

/-- `k_rt_pool_AllocObj`, with the page that `k_rt_Malloc` gives if it is asked.  It reads the
first free node of the page without a test for null. -/
def allocObj (type : PoolType) (pool : Pool) (page : Nat) : Option (Nat × Pool) :=
  let (curPage, pool) := pool.currentPage type page
  let node := pool.nextFree curPage
  if node = 0 then none
  else
    let obj := node - type.nodeOffset
    some (obj, { pool with
      nextFree := Function.update pool.nextFree curPage (pool.poolNode node)
      usedCount := Function.update pool.usedCount curPage ((pool.usedCount curPage + 1) % wordLimit)
      poolNode := Function.update pool.poolNode node curPage
      objects := obj :: pool.objects })

/-- A page whose objects are all free leaves the list; its neighbours are written without a test
for null. -/
def unlinkPage (pool : Pool) (page : Nat) : Option Pool :=
  if page ≠ pool.firstPage ∧ pool.prev page = 0 ∨ page ≠ pool.lastPage ∧ pool.next page = 0 then
    none
  else
    let pool :=
      if page = pool.firstPage then { pool with firstPage := pool.next page }
      else { pool with next := Function.update pool.next (pool.prev page) (pool.next page) }
    let pool :=
      if page = pool.lastPage then { pool with lastPage := pool.prev page }
      else { pool with prev := Function.update pool.prev (pool.next page) (pool.prev page) }
    some { pool with
      prev := Function.update pool.prev page 0
      next := Function.update pool.next page pool.freeablePages
      freeablePages := page }

/-- `k_rt_pool_FreeObj` -/
def freeObj (type : PoolType) (pool : Pool) (obj : Nat) : Option Pool :=
  if obj = 0 then some pool
  else
    let node := obj + type.nodeOffset
    let page := pool.poolNode node
    if page = 0 then none
    else
      let pool := { pool with
        poolNode := Function.update pool.poolNode node (pool.nextFree page)
        nextFree := Function.update pool.nextFree page node
        usedCount := Function.update pool.usedCount page
          ((pool.usedCount page + wordLimit - 1) % wordLimit)
        objects := pool.objects.erase obj }
      if pool.curPage = 0 ∨ pool.index page < pool.index pool.curPage then
        some { pool with curPage := page }
      else if pool.usedCount page = 0 then pool.unlinkPage page
      else some pool

/-- A turn of the loop of `k_rt_pool_FreeUnusedPages`, with the pages that `k_rt_Free` got. -/
def freeTurn : List Nat × Pool → Option (List Nat × Pool)
  | (freed, pool) =>
      if pool.freeablePages = 0 then none
      else some (freed ++ [pool.freeablePages],
        { pool with freeablePages := pool.next pool.freeablePages })

/-- `k_rt_pool_FreeUnusedPages` on a pool that has `pages` pages; one turn more frees what is not a
page of the pool, or a page again. -/
def freeUnusedPages (pool : Pool) (pages : Nat) : Option (List Nat × Pool) :=
  whileLoop freeTurn (pages + 1) ([], pool)

end Pool

end DoggOS.Rt

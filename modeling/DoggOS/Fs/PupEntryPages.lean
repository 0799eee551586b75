/-
The pages from which cache entries are allocated.

Each field of a page and of an entry is a function of its address.  A page holds
`entryCount` entries behind its header; its free entries form a list, the pages
with entries in use form a doubly linked list, and emptied pages are kept apart
for later.  `live` and `pages` are histories that the code does not keep: the
entries that were allocated and not freed, and the pages that `k_rt_Malloc` gave.
-/

import DoggOS.Library.DoublyLinked
import DoggOS.Library.Machine
import DoggOS.Library.WhileLoop

namespace DoggOS.Fs

/-- `K_FS_PUP_CENTRY_PAGE_ENTRIES_COUNT` and the sizes that give an entry its place in a page. -/
structure EntryLayout where
  entryCount : Nat
  headerBytes : Nat
  entryBytes : Nat
  several : 1 < entryCount
  sized : 0 < entryBytes

namespace EntryLayout

/-- `page->entries + index` -/
def entry (layout : EntryLayout) (page index : Nat) : Nat :=
  page + layout.headerBytes + layout.entryBytes * index

def entries (layout : EntryLayout) (page : Nat) : List Nat :=
  (List.range layout.entryCount).map (layout.entry page)

/-- `sizeof(struct k_fs_pup_centry_page_t)` -/
def pageBytes (layout : EntryLayout) : Nat :=
  layout.headerBytes + layout.entryBytes * layout.entryCount

/-- Blocks that `k_rt_Malloc` gives have no byte in common. -/
def Apart (layout : EntryLayout) (page other : Nat) : Prop :=
  page + layout.pageBytes ≤ other ∨ other + layout.pageBytes ≤ page

end EntryLayout

structure EntryPages where
  next : Nat → Nat
  prev : Nat → Nat
  freeEntries : Nat → Nat
  usedEntries : Nat → Nat
  index : Nat → Nat
  /-- `entry->next` and `entry->page`. -/
  entryNext : Nat → Nat
  entryPage : Nat → Nat
  entryPages : Nat
  lastEntryPage : Nat
  curEntryPage : Nat
  freeableEntryPages : Nat
  entryPageCount : Nat
  live : List Nat
  pages : List Nat

namespace EntryPages

/-- The loop of `k_fs_PupInitCacheEntryPage`, from the last entry down. -/
def linkEntries (layout : EntryLayout) (page : Nat) : Nat → Nat → EntryPages → EntryPages
  | 0, _, volume => volume
  | index + 1, nextEntry, volume =>
      let entry := layout.entry page index
      linkEntries layout page index entry { volume with
        entryPage := Function.update volume.entryPage entry page
        entryNext := Function.update volume.entryNext entry nextEntry }

def linkPage (volume : EntryPages) (page : Nat) : EntryPages :=
  if volume.entryPages = 0 then { volume with entryPages := page }
  else { volume with
    prev := Function.update volume.prev page volume.lastEntryPage
    next := Function.update volume.next volume.lastEntryPage page }

/-- `k_fs_PupInitCacheEntryPage` -/
def initCacheEntryPage (layout : EntryLayout) (volume : EntryPages) (page : Nat) : EntryPages :=
  let volume := { volume with
    next := Function.update volume.next page 0
    prev := Function.update volume.prev page 0 }
  let volume := linkEntries layout page layout.entryCount 0 volume
  let volume := { volume with
    freeEntries := Function.update volume.freeEntries page (layout.entry page 0)
    index := Function.update volume.index page volume.entryPageCount
    usedEntries := Function.update volume.usedEntries page 0
    entryPageCount := volume.entryPageCount + 1 }
  { volume.linkPage page with lastEntryPage := page }

/-- `while (entry_page && entry_page->free_entries == NULL)` -/
def searchTurn (volume : EntryPages) (page : Nat) : Option Nat :=
  if page ≠ 0 ∧ volume.freeEntries page = 0 then some (volume.next page) else none

/-- An emptied page, or else the page that `k_rt_Malloc` gives. -/
def recyclePage (volume : EntryPages) (page : Nat) : Nat × EntryPages :=
  if volume.freeableEntryPages ≠ 0 then
    (volume.freeableEntryPages,
      { volume with freeableEntryPages := volume.next volume.freeableEntryPages })
  else (page, { volume with pages := page :: volume.pages })

def takeEntry (volume : EntryPages) (page : Nat) : Nat × EntryPages :=
  let entry := volume.freeEntries page
  (entry, { volume with
    freeEntries := Function.update volume.freeEntries page (volume.entryNext entry)
    usedEntries := Function.update volume.usedEntries page (volume.usedEntries page + 1)
    entryNext := Function.update volume.entryNext entry 0
    live := entry :: volume.live })

/-- `k_fs_PupAllocCacheEntry`, with the page that `k_rt_Malloc` gives if it is asked. -/
def allocCacheEntry (layout : EntryLayout) (volume : EntryPages) (page : Nat) :
    Option (Nat × EntryPages) :=
  if volume.freeEntries volume.curEntryPage ≠ 0 then some (volume.takeEntry volume.curEntryPage)
  else
    (whileLoop volume.searchTurn (volume.entryPageCount + 1) volume.curEntryPage).map
      (fun found =>
        if found ≠ 0 then { volume with curEntryPage := found }.takeEntry found
        else
          let (entryPage, volume) := volume.recyclePage page
          let volume := volume.initCacheEntryPage layout entryPage
          { volume with curEntryPage := entryPage }.takeEntry entryPage)

def renumberTurn : Nat × Nat × EntryPages → Option (Nat × Nat × EntryPages)
  | (usedPage, pageIndex, volume) =>
      if usedPage = 0 then none
      else some (volume.next usedPage, pageIndex + 1,
        { volume with index := Function.update volume.index usedPage pageIndex })

def unlinkFirst (volume : EntryPages) (page : Nat) : EntryPages :=
  if page = volume.entryPages then
    { volume with
      entryPages := volume.next page
      prev := Function.update volume.prev (volume.next page) 0 }
  else { volume with next := Function.update volume.next (volume.prev page) (volume.next page) }

def unlinkLast (volume : EntryPages) (page : Nat) : EntryPages :=
  if page = volume.lastEntryPage then
    { volume with
      lastEntryPage := volume.prev page
      next := Function.update volume.next (volume.prev page) 0 }
  else { volume with prev := Function.update volume.prev (volume.next page) (volume.prev page) }

def unlinkPage (volume : EntryPages) (page : Nat) : EntryPages :=
  let volume := (volume.unlinkFirst page).unlinkLast page
  let volume := { volume with
    next := Function.update volume.next page volume.freeableEntryPages
    freeableEntryPages := page
    entryPageCount := volume.entryPageCount - 1 }
  if page = volume.curEntryPage then { volume with curEntryPage := volume.entryPages } else volume

def giveEntry (volume : EntryPages) (entry : Nat) : EntryPages :=
  let page := volume.entryPage entry
  { volume with
    entryNext := Function.update volume.entryNext entry (volume.freeEntries page)
    freeEntries := Function.update volume.freeEntries page entry
    usedEntries := Function.update volume.usedEntries page (volume.usedEntries page - 1)
    live := volume.live.erase entry }

/-- `k_fs_PupFreeCacheEntry` -/
def freeCacheEntry (volume : EntryPages) (entry : Nat) : Option EntryPages :=
  let page := volume.entryPage entry
  let volume := volume.giveEntry entry
  if volume.usedEntries page = 0 ∧ volume.entryPageCount > 1 then
    (whileLoop renumberTurn (volume.entryPageCount + 1) (volume.next page, volume.index page, volume)).map
      (fun turn => turn.2.2.unlinkPage page)
  else if volume.index page < volume.index volume.curEntryPage then
    some { volume with curEntryPage := page }
  else some volume

inductive EntryCall where
  | allocCacheEntry (page : Nat)
  | freeCacheEntry (entry : Nat)
deriving DecidableEq, Repr

def call (layout : EntryLayout) (volume : EntryPages) : EntryCall → Option EntryPages
  | .allocCacheEntry page => (volume.allocCacheEntry layout page).map Prod.snd
  | .freeCacheEntry entry => volume.freeCacheEntry entry

def FreshPage (layout : EntryLayout) (volume : EntryPages) (page : Nat) : Prop :=
  page ≠ 0 ∧ ∀ other ∈ volume.pages, layout.Apart page other

def Enabled (layout : EntryLayout) (volume : EntryPages) : EntryCall → Prop
  | .allocCacheEntry page => volume.FreshPage layout page
  | .freeCacheEntry entry => entry ∈ volume.live

/-- A zeroed volume whose first page `k_fs_PupMountVolume` has initialised. -/
def Start (layout : EntryLayout) (volume : EntryPages) : Prop :=
  ∃ (zeroed : EntryPages) (page : Nat), page ≠ 0 ∧ zeroed.entryPages = 0 ∧
    zeroed.lastEntryPage = 0 ∧ zeroed.freeableEntryPages = 0 ∧ zeroed.entryPageCount = 0 ∧
    zeroed.live = [] ∧
    volume = ({ zeroed with curEntryPage := page, pages := [page] } : EntryPages).initCacheEntryPage
      layout page

def machine (layout : EntryLayout) : Machine EntryPages EntryCall where
  start := Start layout
  step before label after := before.Enabled layout label ∧ before.call layout label = some after

end EntryPages

end DoggOS.Fs

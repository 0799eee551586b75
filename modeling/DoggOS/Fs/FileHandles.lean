/-
File handles and the pages they are taken from.

Each field of a handle and of a page is a function of its address.  Page zero is
not mapped, so an access through a null pointer leaves a call without a result.
-/

import DoggOS.Mem.Defs
import Mathlib.Logic.Function.Basic

namespace DoggOS.Fs

open Mem

/-- The characters in front of the null of a path. -/
abbrev Path := List Nat

/-- `K_FS_FILE_HANDLE_PAGE_SIZE` -/
def fileHandlePageSize : Nat := 4096

/-- `K_FS_FILE_HANDLE_PAGE_ENTRY_COUNT` -/
def fileHandlePageEntryCount : Nat := (fileHandlePageSize - 20) / 36

structure FileHandles where
  /-- Fields of a handle; a path that is not set is a null pointer. -/
  refs : Nat → Nat
  volume : Nat → Nat
  page : Nat → Nat
  handle : Nat → Nat
  next : Nat → Nat
  prev : Nat → Nat
  path : Nat → Option Path
  /-- Fields of a page. -/
  index : Nat → Nat
  nextPage : Nat → Nat
  prevPage : Nat → Nat
  nextFree : Nat → Nat
  usedCount : Nat → Nat
  fileHandlePageIndex : Nat
  fileHandlePageCount : Nat
  fileHandlePages : Nat
  curFileHandlePage : Nat
  lastFileHandlePage : Nat

namespace FileHandles

/-- `page->entries + index` -/
def entry (page index : Nat) : Nat := page + 20 + 36 * index

/-- `k_rt_SetBytes` on one field of what lies in a page. -/
def clear {α : Type} (zero : α) (page : Nat) (field : Nat → α) (address : Nat) : α :=
  if page ≤ address ∧ address < page + fileHandlePageSize then zero else field address

def setBytes (handles : FileHandles) (page : Nat) : FileHandles :=
  { handles with
    refs := clear 0 page handles.refs
    volume := clear 0 page handles.volume
    page := clear 0 page handles.page
    handle := clear 0 page handles.handle
    next := clear 0 page handles.next
    prev := clear 0 page handles.prev
    path := clear none page handles.path
    index := clear 0 page handles.index
    nextPage := clear 0 page handles.nextPage
    prevPage := clear 0 page handles.prevPage
    nextFree := clear 0 page handles.nextFree
    usedCount := clear 0 page handles.usedCount }

def linkEntries (page : Nat) : Nat → Nat → FileHandles → FileHandles
  | 0, _, handles => handles
  | index + 1, nextEntry, handles =>
      linkEntries page index (entry page index) { handles with
        next := Function.update handles.next (entry page index) nextEntry
        page := Function.update handles.page (entry page index) page }

def linkPage (handles : FileHandles) (page : Nat) : FileHandles :=
  if handles.fileHandlePages = 0 then { handles with fileHandlePages := page }
  else { handles with
    nextPage := Function.update handles.nextPage handles.lastFileHandlePage page
    prevPage := Function.update handles.prevPage page handles.lastFileHandlePage }

/-- The page that `k_rt_Malloc` gives becomes the current one. -/
def newPage (handles : FileHandles) (page : Nat) : FileHandles :=
  let handles := handles.setBytes page
  let handles := linkEntries page fileHandlePageEntryCount 0 { handles with
    index := Function.update handles.index page handles.fileHandlePageIndex
    nextFree := Function.update handles.nextFree page (entry page 0)
    fileHandlePageIndex := (handles.fileHandlePageIndex + 1) % wordLimit }
  let handles := handles.linkPage page
  { handles with
    curFileHandlePage := page
    lastFileHandlePage := page
    fileHandlePageCount := (handles.fileHandlePageCount + 1) % wordLimit }

/-- The first free entry of the current page.  What should be the test whether there is another
one assigns null to `next_free`, so the branch that goes to the next page is never taken. -/
def takeEntry (handles : FileHandles) : Option (Nat × FileHandles) :=
  let page := handles.curFileHandlePage
  let file := handles.nextFree page
  if file = 0 then none
  else
    let handles := { handles with
      nextFree := Function.update handles.nextFree page (handles.next file)
      usedCount := Function.update handles.usedCount page
        ((handles.usedCount page + 1) % wordLimit)
      next := Function.update handles.next file 0
      prev := Function.update handles.prev file 0 }
    some (file, { handles with nextFree := Function.update handles.nextFree page 0 })

/-- `k_fs_AllocFileHandle`, with the page that `k_rt_Malloc` gives if it is asked. -/
def allocFileHandle (handles : FileHandles) (page : Nat) : Option (Nat × FileHandles) :=
  if handles.curFileHandlePage = 0 then (handles.newPage page).takeEntry else handles.takeEntry

/-- `k_fs_FreeFileHandle` -/
def freeFileHandle (handles : FileHandles) (file : Nat) : Option FileHandles :=
  let page := handles.page file
  if page = 0 then none
  else
    let handles := { handles with
      next := Function.update handles.next file (handles.nextFree page)
      nextFree := Function.update handles.nextFree page file
      usedCount := Function.update handles.usedCount page
        ((handles.usedCount page + wordLimit - 1) % wordLimit) }
    if handles.curFileHandlePage = 0 ∨ handles.index page < handles.index handles.curFileHandlePage
    then some { handles with curFileHandlePage := page }
    else some handles

end FileHandles

end DoggOS.Fs

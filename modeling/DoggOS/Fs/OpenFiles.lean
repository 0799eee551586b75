/-
The table of open files.

The search goes over the open files by path alone.  A file system that opens a
file takes a handle and may store a path in it; its answer is part of the call.
`handles` and `opens` are histories: the handles that were given out, and for each
open that is not closed yet its handle, volume and path.
-/

import DoggOS.Fs.FileHandles
import DoggOS.Library.LinkedQueues
import DoggOS.Library.Machine
import DoggOS.Library.WhileLoop

namespace DoggOS.Fs

open Mem

structure OpenedFile where
  handle : Nat
  path : Option Path
deriving DecidableEq, Repr

structure OpenFiles where
  files : FileHandles
  openFiles : Nat
  lastOpenFile : Nat
  handles : List Nat
  opens : List (Nat × Nat × Path)

inductive FileCall where
  /-- The answer of the file system, and the page that `k_rt_Malloc` gives if it is asked. -/
  | openFile (volume : Nat) (path : Path) (answer : Option OpenedFile) (page : Nat)
  | closeFile (file : Nat)
deriving DecidableEq, Repr

namespace OpenFiles

def otherPath (table : OpenFiles) (path : Path) (file : Nat) : Bool :=
  file ≠ 0 ∧ table.files.path file ≠ some path

def searchTurn (table : OpenFiles) (file : Nat) : Option Nat :=
  if table.files.path file = none then none else some (table.files.next file)

/-- `while(file_handle)` -/
def search (table : OpenFiles) (path : Path) : Option Nat :=
  faultLoop (table.otherPath path) table.searchTurn (table.handles.length + 1) table.openFiles

/-- `OpenFile` of the file system. -/
def openOnVolume (table : OpenFiles) (opened : OpenedFile) (page : Nat) :
    Option (Nat × OpenFiles) :=
  (table.files.allocFileHandle page).map fun (file, files) => (file, { table with
    handles := file :: table.handles
    files := { files with
      handle := Function.update files.handle file opened.handle
      path := if opened.path = none then files.path
        else Function.update files.path file opened.path } })

def link (table : OpenFiles) (file : Nat) : OpenFiles :=
  let table :=
    if table.openFiles = 0 then { table with openFiles := file }
    else { table with files := { table.files with
      next := Function.update table.files.next table.lastOpenFile file
      prev := Function.update table.files.prev file table.lastOpenFile } }
  { table with lastOpenFile := file }

def setFile (table : OpenFiles) (file refs volume : Nat) (path : Path) : OpenFiles :=
  { table with
    opens := (file, volume, path) :: table.opens
    files := { table.files with
      refs := Function.update table.files.refs file refs
      volume := Function.update table.files.volume file volume } }

/-- `k_fs_OpenFile`; when the file system fails it writes to a null handle. -/
def openFile (table : OpenFiles) (volume : Nat) (path : Path) (answer : Option OpenedFile)
    (page : Nat) : Option (Nat × OpenFiles) := do
  let file ← table.search path
  if file ≠ 0 then
    return (file, table.setFile file ((table.files.refs file + 1) % wordLimit) volume path)
  let opened ← answer
  let (file, table) ← table.openOnVolume opened page
  return (file, (table.link file).setFile file 1 volume path)

def dropReference (table : OpenFiles) (file : Nat) : OpenFiles :=
  { table with
    opens := table.opens.eraseP fun entry => entry.1 = file
    files := { table.files with
      refs := Function.update table.files.refs file (table.files.refs file - 1) } }

/-- The handle goes back to its page; the list of open files is left as it is. -/
def releaseHandle (table : OpenFiles) (file : Nat) : Option OpenFiles :=
  ({ table.files with
    handle := Function.update table.files.handle file 0 }.freeFileHandle file).map
      fun files => { table with files := files }

/-- `k_fs_CloseFile` -/
def closeFile (table : OpenFiles) (file : Nat) : Option OpenFiles :=
  if file ≠ 0 ∧ table.files.handle file ≠ 0 ∧ table.files.refs file > 0 then
    if (table.dropReference file).files.refs file = 0 then
      (table.dropReference file).releaseHandle file
    else some (table.dropReference file)
  else some table

def call (table : OpenFiles) : FileCall → Option (Nat × OpenFiles)
  | .openFile volume path answer page => table.openFile volume path answer page
  | .closeFile file => (table.closeFile file).map fun table => (0, table)

/-- A file system that opens a file gives it a handle that is not zero; a file that is closed was
opened before. -/
def Enabled (table : OpenFiles) : FileCall → Prop
  | .openFile _ _ answer page => page ≠ 0 ∧ ∀ opened, answer = some opened → opened.handle ≠ 0
  | .closeFile file => file = 0 ∨ file ∈ table.handles

def Start (table : OpenFiles) : Prop :=
  table.openFiles = 0 ∧ table.handles = [] ∧ table.opens = [] ∧
    table.files.curFileHandlePage = 0

def machine : Machine OpenFiles FileCall where
  start := Start
  step before label after :=
    before.Enabled label ∧ ∃ result, before.call label = some (result, after)

end OpenFiles

end DoggOS.Fs

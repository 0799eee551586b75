/-
The pages from which disk commands are allocated.

Each field of a page and of a command is a function of its address.  The
commands of a page start behind its header, at the next multiple of the
alignment; the free ones form a list, and the pages form a doubly linked list.
`live` and `pages` are histories that the code does not keep: the commands that
were allocated and not freed, and the pages that `k_rt_Malloc` gave.
-/

import DoggOS.Dev.Disk
import DoggOS.Library.DoublyLinked
import DoggOS.Library.Machine
import DoggOS.Library.WhileLoop
import DoggOS.Mem.Defs

namespace DoggOS.Dev

open Mem

/-- `K_DEV_DSK_CMD_PAGE_SIZE` -/
def cmdPageSize : Nat := 0x1000

/-- `sizeof(struct {K_DEV_DSK_CMD_PAGE_FIELDS;})` -/
def cmdPageHeader : Nat := 20

/-- `cmd_size` and `cmd_align` of a disk; a command holds a `struct k_dev_dsk_cmd_t`. -/
structure CmdLayout where
  cmdSize : Nat
  cmdAlign : Nat
  holds : 28 ≤ cmdSize
  byte : cmdSize < 256
  power : ∃ bit, bit < 8 ∧ cmdAlign = 2 ^ bit

namespace CmdLayout

/-- `(cmd_start + cmd_align) & ~cmd_align` -/
def cmdStart (layout : CmdLayout) (page : Nat) : Nat :=
  (page + cmdPageHeader + (layout.cmdAlign - 1)) % wordLimit &&& (wordLimit - layout.cmdAlign)

def cmdCount (layout : CmdLayout) (page : Nat) : Nat :=
  (cmdPageSize - cmdPageHeader - (layout.cmdStart page - (page + cmdPageHeader))) / layout.cmdSize

def cmd (layout : CmdLayout) (page index : Nat) : Nat :=
  layout.cmdStart page + layout.cmdSize * index

def cmds (layout : CmdLayout) (page : Nat) : List Nat :=
  (List.range (layout.cmdCount page)).map (layout.cmd page)

end CmdLayout

/-- The fields of `struct k_dev_dsk_cmd_t` besides its links. -/
structure CmdFields where
  condition : Nat
  type : DiskCmdType
  status : Nat
  address : Nat
  size : Nat
  buffer : Nat
deriving DecidableEq, Repr

structure CmdPages where
  next : Nat → Nat
  prev : Nat → Nat
  nextFree : Nat → Nat
  usedCount : Nat → Nat
  index : Nat → Nat
  /-- `cmd->next` and `cmd->page`. -/
  cmdNext : Nat → Nat
  cmdPage : Nat → Nat
  cmdFields : Nat → CmdFields
  cmdPages : Nat
  lastCmdPage : Nat
  curCmdPage : Nat
  freeableCmdPages : Nat
  cmdPageIndex : Nat
  cmdPageCount : Nat
  live : List Nat
  pages : List Nat

namespace CmdPages

/-- The loop of `k_dev_InitDiskCmdPage`; its first result is the last command. -/
def linkCmds (layout : CmdLayout) (page : Nat) : Nat → Nat → Nat → CmdPages → Nat × CmdPages
  | 0, cmd, _, disk => (cmd, disk)
  | count + 1, _, cmd, disk =>
      linkCmds layout page count cmd (cmd + layout.cmdSize) { disk with
        cmdNext := Function.update disk.cmdNext cmd (cmd + layout.cmdSize)
        cmdPage := Function.update disk.cmdPage cmd page
        cmdFields := Function.update disk.cmdFields cmd
          { disk.cmdFields cmd with type := .last, buffer := 0 } }

def linkPage (disk : CmdPages) (page : Nat) : CmdPages :=
  if disk.cmdPages = 0 then { disk with cmdPages := page }
  else { disk with
    next := Function.update disk.next disk.lastCmdPage page
    prev := Function.update disk.prev page disk.lastCmdPage }

/-- `k_dev_InitDiskCmdPage` -/
def initDiskCmdPage (layout : CmdLayout) (disk : CmdPages) (page : Nat) : CmdPages :=
  let disk := { disk with
    usedCount := Function.update disk.usedCount page 0
    index := Function.update disk.index page disk.cmdPageIndex
    nextFree := Function.update disk.nextFree page (layout.cmdStart page)
    cmdPageIndex := (disk.cmdPageIndex + 1) % wordLimit }
  let (cmd, disk) := linkCmds layout page (layout.cmdCount page) 0 (layout.cmdStart page) disk
  let disk := { disk with cmdNext := Function.update disk.cmdNext cmd 0 }
  { disk.linkPage page with lastCmdPage := page }

/-- A zero filled page of `k_rt_Malloc`. -/
def mallocPage (disk : CmdPages) (page : Nat) : CmdPages :=
  { disk with
    next := Function.update disk.next page 0
    prev := Function.update disk.prev page 0
    pages := page :: disk.pages }

/-- `while(cmd_page != NULL && cmd_page->next_free == NULL)` -/
def searchTurn (disk : CmdPages) (page : Nat) : Option Nat :=
  if page ≠ 0 ∧ disk.nextFree page = 0 then some (disk.next page) else none

/-- A freeable page, or else the page that `k_rt_Malloc` gives. -/
def recyclePage (disk : CmdPages) (page : Nat) : Nat × CmdPages :=
  if disk.freeableCmdPages ≠ 0 then
    (disk.freeableCmdPages,
      { disk with freeableCmdPages := disk.next disk.freeableCmdPages })
  else (page, disk.mallocPage page)

def takeCmd (disk : CmdPages) : Nat × CmdPages :=
  let page := disk.curCmdPage
  let cmd := disk.nextFree page
  (cmd, { disk with
    nextFree := Function.update disk.nextFree page (disk.cmdNext cmd)
    usedCount := Function.update disk.usedCount page (disk.usedCount page + 1)
    cmdNext := Function.update disk.cmdNext cmd 0
    cmdFields := Function.update disk.cmdFields cmd
      { condition := 0, type := .last, status := 0, address := 0, size := 0, buffer := 0 }
    live := cmd :: disk.live })

/-- `k_dev_AllocDiskCmd`, with the page that `k_rt_Malloc` gives if it is asked. -/
def allocDiskCmd (layout : CmdLayout) (disk : CmdPages) (page : Nat) : Option (Nat × CmdPages) :=
  if disk.nextFree disk.curCmdPage ≠ 0 then some disk.takeCmd
  else
    (whileLoop disk.searchTurn (disk.pages.length + 1) disk.curCmdPage).map (fun found =>
      if found ≠ 0 then { disk with curCmdPage := found }.takeCmd
      else
        let (cmdPage, disk) := disk.recyclePage page
        { disk.initDiskCmdPage layout cmdPage with curCmdPage := cmdPage }.takeCmd)

def unlinkFirst (disk : CmdPages) (page : Nat) : CmdPages :=
  if page = disk.cmdPages then
    { disk with
      cmdPages := disk.next page
      prev := Function.update disk.prev (disk.next page) 0 }
  else { disk with next := Function.update disk.next (disk.prev page) (disk.next page) }

def unlinkLast (disk : CmdPages) (page : Nat) : CmdPages :=
  if page = disk.lastCmdPage then
    { disk with
      lastCmdPage := disk.prev page
      next := Function.update disk.next (disk.prev page) 0 }
  else { disk with prev := Function.update disk.prev (disk.next page) (disk.prev page) }

def unlinkPage (disk : CmdPages) (page : Nat) : CmdPages :=
  let disk := (disk.unlinkFirst page).unlinkLast page
  { disk with
    next := Function.update disk.next page disk.freeableCmdPages
    freeableCmdPages := page
    cmdPageCount := disk.cmdPageCount - 1 }

def giveCmd (disk : CmdPages) (cmd : Nat) : CmdPages :=
  let page := disk.cmdPage cmd
  { disk with
    cmdNext := Function.update disk.cmdNext cmd (disk.nextFree page)
    nextFree := Function.update disk.nextFree page cmd
    usedCount := Function.update disk.usedCount page (disk.usedCount page - 1)
    live := disk.live.erase cmd }

/-- `k_dev_FreeDiskCmd` -/
def freeDiskCmd (disk : CmdPages) (cmd : Nat) : CmdPages :=
  if cmd = 0 then disk
  else
    let page := disk.cmdPage cmd
    let disk := disk.giveCmd cmd
    if disk.usedCount page = 0 ∧ disk.cmdPageCount > 1 then disk.unlinkPage page
    else if disk.index page < disk.index disk.curCmdPage then { disk with curCmdPage := page }
    else disk

inductive CmdCall where
  | allocDiskCmd (page : Nat)
  | freeDiskCmd (cmd : Nat)
deriving DecidableEq, Repr

def call (layout : CmdLayout) (disk : CmdPages) : CmdCall → Option CmdPages
  | .allocDiskCmd page => (disk.allocDiskCmd layout page).map Prod.snd
  | .freeDiskCmd cmd => some (disk.freeDiskCmd cmd)

def FreshPage (disk : CmdPages) (page : Nat) : Prop :=
  page ≠ 0 ∧ page + cmdPageSize ≤ wordLimit ∧
    ∀ other ∈ disk.pages, page + cmdPageSize ≤ other ∨ other + cmdPageSize ≤ page

def Enabled (disk : CmdPages) : CmdCall → Prop
  | .allocDiskCmd page => disk.FreshPage page
  | .freeDiskCmd cmd => cmd ∈ disk.live

structure Blank (disk : CmdPages) : Prop where
  cmdPages : disk.cmdPages = 0
  lastCmdPage : disk.lastCmdPage = 0
  freeableCmdPages : disk.freeableCmdPages = 0
  cmdPageIndex : disk.cmdPageIndex = 0
  cmdPageCount : disk.cmdPageCount = 0
  live : disk.live = []
  pages : disk.pages = []

def Start (layout : CmdLayout) (disk : CmdPages) : Prop :=
  ∃ (blank : CmdPages) (page : Nat), blank.Blank ∧ blank.FreshPage page ∧
    disk = { (blank.mallocPage page).initDiskCmdPage layout page with curCmdPage := page }

def machine (layout : CmdLayout) : Machine CmdPages CmdCall where
  start := Start layout
  step before label after := before.Enabled label ∧ before.call layout label = some after

end CmdPages

end DoggOS.Dev

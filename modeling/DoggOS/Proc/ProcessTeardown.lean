/-
The physical pages of processes from `k_proc_CreateProcess` to `k_proc_DestroyThread`.

Each call of the page allocator is a step of its own, so the pages that a loader
obtains and the pages that a teardown gives back come in between the allocations
of everyone else.  The state also notes who obtained a page last and which pages
the calls of a teardown made free; nothing reads these notes.

`k_proc_TerminateProcess` gives back whatever the page map of the process names,
and the map names the ring 0 stack of the main thread, which lives on until
`k_proc_DestroyThread` gives the page behind it back as well.
-/

import DoggOS.Mem.PhysicalPageRuns
import DoggOS.Proc.ProcessPageNames

namespace DoggOS.Proc

open DoggOS.Mem

def entryPages (bytes : Bytes) : List Nat :=
  ((List.range 1024).map (fun index => loadWord bytes index &&& addressMask4KB)).filter
    (fun page => decide (page ≠ 0))

/-- The arguments of `k_mem_FreePhysicalPages` in `k_proc_TerminateProcess`.  The entries of a table
are read before the table is released, and the directory is released last. -/
def terminateCalls (mem : Nat → Bytes) (pageMap : Nat) : List Nat :=
  (entryPages (mem pageMap)).flatMap (fun table => entryPages (mem table) ++ [table]) ++ [pageMap]

inductive PageOwner where
  | process (pid : Nat)
  | other
deriving DecidableEq, Repr

/-- A page that a call of `k_mem_FreePhysicalPages` for a process made free, and who had it. -/
structure Release where
  pid : Nat
  page : Nat
  owner : Option PageOwner
deriving DecidableEq, Repr

/-- How far a process has come.  `pages` were obtained for it; `stack` is the page behind the kernel
stack of its main thread, and `calls` are the pages that are still to be given back. -/
inductive Stage where
  | unused
  | loading (pages : List Nat)
  | live (pages : List Nat) (pageMap : Nat) (stack : Option Nat)
  | ending (pages : List Nat) (stack : Nat) (calls : List Nat)
  | destroyed (pages : List Nat)
deriving DecidableEq, Repr

def Stage.pages : Stage → List Nat
  | .unused => []
  | .loading pages => pages
  | .live pages _ _ => pages
  | .ending pages _ _ => pages
  | .destroyed pages => pages

structure PageWorld where
  list : PRList
  mem : Nat → Bytes
  owner : Nat → Option PageOwner
  stage : Nat → Stage
  log : List Release

namespace PageWorld

/-- One call of `k_mem_AllocPhysicalPage`. -/
def obtain (world : PageWorld) (flags : Nat) (who : PageOwner) : Nat × PageWorld :=
  let page := (world.list.allocPhysicalPage flags).1
  (page, { world with
    list := (world.list.allocPhysicalPage flags).2
    owner := if page = nullPage then world.owner else Function.update world.owner page (some who) })

def freePages (list : PRList) : List Nat :=
  list.ranges.flatMap fun range => range.freeList list.mem

/-- One call of `k_mem_FreePhysicalPages`; the pages that are free behind it and were not before. -/
def release (world : PageWorld) (pid fuel page : Nat) : Option PageWorld :=
  (world.list.freePhysicalPages fuel page).map fun list =>
    let released := (freePages list).filter fun page => decide (page ∉ freePages world.list)
    { world with
      list
      owner := fun page => if page ∈ released then none else world.owner page
      log := world.log ++ released.map fun page => ⟨pid, page, world.owner page⟩ }

def setStage (world : PageWorld) (pid : Nat) (stage : Stage) : PageWorld :=
  { world with stage := Function.update world.stage pid stage }

def releases (world : PageWorld) (pid page : Nat) : Nat :=
  world.log.countP fun release => decide (release.pid = pid ∧ release.page = page)

/-- The page maps of the processes are not mapped anywhere, so nobody writes to them. -/
def KeepsMaps (world : PageWorld) (mem : Nat → Bytes) : Prop :=
  ∀ pid pages pageMap stack, world.stage pid = .live pages pageMap stack →
    mem pageMap = world.mem pageMap ∧
      ∀ table ∈ entryPages (world.mem pageMap), mem table = world.mem table

end PageWorld

inductive PageCall where
  /-- `k_mem_AllocPhysicalPage` by anyone but the loader -/
  | alloc (flags : Nat)
  /-- The memory after the threads have run. -/
  | write (mem : Nat → Bytes)
  /-- `k_mem_AllocPhysicalPage` in `k_proc_CreateProcess` -/
  | load (pid : Nat)
  /-- The return of `k_proc_CreateProcess`. -/
  | create (pid : Nat) (image : Bytes)
  /-- `k_proc_TerminateProcess` -/
  | terminate (pid : Nat)
  /-- `k_mem_FreePhysicalPages` in `k_proc_TerminateProcess` -/
  | release (pid : Nat)
  /-- `k_proc_DestroyThread` of the main thread -/
  | destroy (pid : Nat)

namespace PageWorld

/-- `k_proc_CreateProcess` obtains one more page. -/
def load (world : PageWorld) (pid : Nat) (pages : List Nat) : PageWorld :=
  (world.obtain 0 (.process pid)).2.setStage pid
    (.loading (pages ++ [(world.obtain 0 (.process pid)).1]))

/-- The process is made of the pages that were obtained for it.  `k_proc_CreateThread` makes no
thread without an entry point. -/
def Creates (layout : KernelLayout) (before : PageWorld) (pid : Nat) (image : Bytes)
    (after : PageWorld) : Prop :=
  ∃ pages pageMap process stack, before.stage pid = .loading pages ∧ IsExecutable image ∧
    createProcess (fun k => pages.getD k 0) layout image before.mem = some (pageMap, process) ∧
    process.obtained = pages.length ∧
    ringStackPage (fun k => pages.getD k 0) layout image before.mem = some stack ∧
    after = { before with mem := process.mem }.setStage pid
      (.live pages pageMap (if (elfHeader image).entry ≠ 0 then some stack else none))

def Step (layout : KernelLayout) (before : PageWorld) (call : PageCall) (after : PageWorld) : Prop :=
  match call with
  | .alloc flags => after = (before.obtain flags .other).2
  | .write mem => before.KeepsMaps mem ∧ after = { before with mem }
  | .load pid =>
      ∃ pages, (before.stage pid = .unused ∧ pages = [] ∨ before.stage pid = .loading pages) ∧
        after = before.load pid pages
  | .create pid image => before.Creates layout pid image after
  | .terminate pid =>
      ∃ pages pageMap stack, before.stage pid = .live pages pageMap (some stack) ∧
        after = before.setStage pid (.ending pages stack (terminateCalls before.mem pageMap))
  | .release pid =>
      ∃ pages stack page calls fuel released,
        before.stage pid = .ending pages stack (page :: calls) ∧
        before.release pid (fuel + 1) page = some released ∧
        after = released.setStage pid (.ending pages stack calls)
  | .destroy pid =>
      ∃ pages stack fuel released, before.stage pid = .ending pages stack [] ∧
        before.release pid (fuel + 1) stack = some released ∧
        after = released.setStage pid (.destroyed pages)

end PageWorld

/-- The ranges are those of `k_mem_Init`; what every process shares is in the lower memory. -/
def teardownMachine (layout : KernelLayout) : Machine PageWorld PageCall where
  start world :=
    (∃ ranges pageHeaders mem, world.list = PRList.init ranges pageHeaders mem) ∧
      (∀ range ∈ world.list.ranges, range.pages.stop ≤ 2 ^ 32) ∧
      world.list.ranges.Pairwise (fun one two => one.pages.Disjoint two.pages) ∧
      (∀ page, world.list.Managed page → lowMemoryEnd ≤ page) ∧
      (∀ address ∈ layout.sharedAddresses, address < lowMemoryEnd) ∧
      (∀ page, world.owner page = none) ∧ (∀ pid, world.stage pid = .unused) ∧ world.log = []
  step := PageWorld.Step layout

/-- The page behind the kernel stack of a terminated thread is not taken before the thread is
destroyed. -/
def PageWorld.SparesStacks (world : PageWorld) : Prop :=
  ∀ pid pages stack calls, world.stage pid = .ending pages stack calls → stack ∉ world.list.tops

/-- A page that is obtained is not such a stack page, the loader finds a free page, and a page that
is given back does not look like the first one of a longer block. -/
def SafeCall (world : PageWorld) : PageCall → Prop
  | .alloc _ => world.SparesStacks
  | .load _ => world.SparesStacks ∧ ∃ page, world.list.Free page
  | .release pid => ∀ pages stack page calls, world.stage pid = .ending pages stack (page :: calls) →
      world.list.EndsAt (pageOf page)
  | .destroy pid => ∀ pages stack calls, world.stage pid = .ending pages stack calls →
      world.list.EndsAt (pageOf stack)
  | .write _ | .create _ _ | .terminate _ => True

/-- Teardown takes no page away from anyone else, and it gives every page of a process back once. -/
structure PageWorld.ReleasesOwn (world : PageWorld) : Prop where
  foreign : ∀ release ∈ world.log, ∀ owner, release.owner = some owner →
    owner = .process release.pid
  atMostOnce : ∀ pid, ∀ page ∈ (world.stage pid).pages, world.releases pid page ≤ 1
  exactlyOnce : ∀ pid pages, world.stage pid = .destroyed pages →
    ∀ page ∈ pages, world.releases pid page = 1

end DoggOS.Proc

/-
The command queue between the threads that transfer data and the disk thread.

Each label is one statement of `k_dev_EnqueueDiskCmd` in some thread, or of the
part of `k_dev_DiskThread` that takes a command from the queue.  Nothing locks
`cmds`, `last_cmd` and the links, so the statements of different threads follow
each other in any order.  `called`, `enqueued` and `dequeued` are histories that
the code does not keep.  Page zero is not mapped, so a statement that follows a
null pointer has no next state.
-/

import DoggOS.Dev.Disk
import DoggOS.Library.LinkedQueues
import DoggOS.Library.Machine

namespace DoggOS.Dev

/-- The statement of `k_dev_EnqueueDiskCmd` that a thread runs next. -/
inductive EnqueuePlace where
  | idle
  | checkCmd (cmd : Nat)
  | testCmds (cmd : Nat)
  | setCmds (cmd : Nat)
  | setNext (cmd : Nat)
  | setLast (cmd : Nat)
deriving DecidableEq, Repr

inductive DequeuePlace where
  | getCmd
  | testCmd (cmd : Nat)
  | takeCmd (cmd : Nat)
  | testCmds
  | clearLast
deriving DecidableEq, Repr

structure DiskQueue where
  cmds : Nat
  lastCmd : Nat
  next : Nat → Nat
  cmdType : Nat → DiskCmdType
  place : Nat → EnqueuePlace
  diskPlace : DequeuePlace
  called : List Nat
  enqueued : List Nat
  dequeued : List Nat

inductive QueueTurn where
  | call (thread cmd : Nat)
  | enqueue (thread : Nat)
  | dequeue
deriving DecidableEq, Repr

namespace DiskQueue

def move (queue : DiskQueue) (thread : Nat) (place : EnqueuePlace) : DiskQueue :=
  { queue with place := Function.update queue.place thread place }

/-- The statements of `k_dev_EnqueueDiskCmd`. -/
def nextEnqueue (queue : DiskQueue) (thread : Nat) : Option DiskQueue :=
  match queue.place thread with
  | .idle => none
  | .checkCmd cmd =>
      if cmd ≠ 0 ∧ queue.cmdType cmd ≠ .last then
        some { queue.move thread (.testCmds cmd) with enqueued := cmd :: queue.enqueued }
      else some (queue.move thread .idle)
  | .testCmds cmd =>
      some (queue.move thread (if queue.cmds = 0 then .setCmds cmd else .setNext cmd))
  | .setCmds cmd => some { queue.move thread (.setLast cmd) with cmds := cmd }
  | .setNext cmd =>
      if queue.lastCmd = 0 then none
      else some { queue.move thread (.setLast cmd) with
        next := Function.update queue.next queue.lastCmd cmd }
  | .setLast cmd => some { queue.move thread .idle with lastCmd := cmd }

/-- The statements of `k_dev_DiskThread` up to the one that runs the command. -/
def nextDequeue (queue : DiskQueue) : Option DiskQueue :=
  match queue.diskPlace with
  | .getCmd => some { queue with diskPlace := .testCmd queue.cmds }
  | .testCmd cmd => some { queue with diskPlace := if cmd = 0 then .getCmd else .takeCmd cmd }
  | .takeCmd cmd =>
      if queue.cmds = 0 then none
      else some { queue with
        cmds := queue.next queue.cmds
        diskPlace := .testCmds
        dequeued := cmd :: queue.dequeued }
  | .testCmds => some { queue with diskPlace := if queue.cmds = 0 then .clearLast else .getCmd }
  | .clearLast => some { queue with lastCmd := 0, diskPlace := .getCmd }

/-- No command is handed in twice. -/
def nextQueue (queue : DiskQueue) : QueueTurn → Option DiskQueue
  | .call thread cmd =>
      if queue.place thread = .idle ∧ cmd ∉ queue.called then
        some { queue.move thread (.checkCmd cmd) with called := cmd :: queue.called }
      else none
  | .enqueue thread => queue.nextEnqueue thread
  | .dequeue => queue.nextDequeue

/-- An empty queue, and commands as `k_dev_AllocDiskCmd` returns them. -/
structure Start (queue : DiskQueue) : Prop where
  cmds : queue.cmds = 0
  lastCmd : queue.lastCmd = 0
  next : ∀ cmd, queue.next cmd = 0
  place : ∀ thread, queue.place thread = .idle
  diskPlace : queue.diskPlace = .getCmd
  called : queue.called = []
  enqueued : queue.enqueued = []
  dequeued : queue.dequeued = []

def machine : Machine DiskQueue QueueTurn := Machine.ofNext Start nextQueue

end DiskQueue

end DoggOS.Dev

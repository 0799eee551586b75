/-
The list of processes: `k_proc_CreateProcess` adds at the tail and
`k_proc_TerminateProcess` takes out anywhere.

The links are functions of the address of a process.  A new process comes zeroed
from `k_rt_Malloc`, and `k_rt_Free` leaves anything in the links of a process
that has ended.  `live` is a history that the code does not keep: the processes
that have not ended, in the order they were created.
-/

import DoggOS.Library.DoublyLinked
import DoggOS.Library.Machine

namespace DoggOS.Proc

structure ProcessList where
  next : Nat → Nat
  prev : Nat → Nat
  /-- `k_proc_processes` and `k_proc_last_process`. -/
  processes : Nat
  lastProcess : Nat
  live : List Nat

inductive ProcessCall where
  | createProcess (process : Nat)
  | terminateProcess (process freedNext freedPrev : Nat)
deriving DecidableEq, Repr

namespace ProcessList

/-- The zeroed process that `k_rt_Malloc` returns. -/
def zeroProcess (list : ProcessList) (process : Nat) : ProcessList :=
  { list with
    next := Function.update list.next process 0
    prev := Function.update list.prev process 0 }

def linkProcess (list : ProcessList) (process : Nat) : ProcessList :=
  if list.processes = 0 then { list with processes := process }
  else { list with
    next := Function.update list.next list.lastProcess process
    prev := Function.update list.prev process process }

/-- The statements of `k_proc_CreateProcess` about the list. -/
def createProcess (list : ProcessList) (process : Nat) : ProcessList :=
  { (list.zeroProcess process).linkProcess process with
    lastProcess := process
    live := list.live ++ [process] }

def unlinkNext (list : ProcessList) (process : Nat) : ProcessList :=
  if list.prev process = 0 then { list with processes := list.next process }
  else { list with next := Function.update list.next (list.prev process) (list.next process) }

def unlinkPrev (list : ProcessList) (process : Nat) : ProcessList :=
  if list.next process = 0 then { list with lastProcess := list.prev process }
  else { list with prev := Function.update list.prev (list.next process) (list.prev process) }

/-- The statements of `k_proc_TerminateProcess` about the list. -/
def terminateProcess (list : ProcessList) (process freedNext freedPrev : Nat) : ProcessList :=
  let list := (list.unlinkNext process).unlinkPrev process
  { list with
    next := Function.update list.next process freedNext
    prev := Function.update list.prev process freedPrev
    live := list.live.erase process }

def call (list : ProcessList) : ProcessCall → ProcessList
  | .createProcess process => list.createProcess process
  | .terminateProcess process freedNext freedPrev => list.terminateProcess process freedNext freedPrev

def Enabled (list : ProcessList) : ProcessCall → Prop
  | .createProcess process => process ≠ 0 ∧ process ∉ list.live
  | .terminateProcess process _ _ => process ∈ list.live

def Start (list : ProcessList) : Prop :=
  list.processes = 0 ∧ list.lastProcess = 0 ∧ list.live = []

def machine : Machine ProcessList ProcessCall where
  start := Start
  step before label after := before.Enabled label ∧ before.call label = after

def Reaches (list : ProcessList) (process : Nat) : Prop :=
  process = list.processes ∨ process = list.lastProcess ∨
    ∃ other ∈ list.live, process = list.next other ∨ process = list.prev other

structure Consistent (list : ProcessList) : Prop where
  linked : DoublyLinked list.next list.prev list.processes list.lastProcess list.live
  reaches : ∀ process, process ≠ 0 → list.Reaches process → process ∈ list.live

/-- No process is created while another one lives. -/
def CreatesAlone (list : ProcessList) : ProcessCall → Prop
  | .createProcess _ => list.live = []
  | .terminateProcess _ _ _ => True

variable {list : ProcessList} {process : Nat}

theorem Consistent.of_linked
    (linked : DoublyLinked list.next list.prev list.processes list.lastProcess list.live) :
    list.Consistent := by
  refine ⟨linked, fun process nonNull reached => ?_⟩
  rcases reached with first | last | ⟨other, live, link⟩
  · rw [first, linked.first] at nonNull ⊢
    cases members : list.live with
    | nil =>
        rw [members] at nonNull
        exact absurd rfl nonNull
    | cons head rest => exact List.mem_cons_self
  · rcases linked.last_mem with null | member
    · exact absurd (last.trans null) nonNull
    · exact last ▸ member
  · exact linked.link_mem live nonNull link

/-- After a creation the list is consistent only if it was empty before. -/
theorem createProcess_consistent_iff (consistent : list.Consistent) (nonNull : process ≠ 0)
    (fresh : process ∉ list.live) : (list.createProcess process).Consistent ↔ list.live = [] := by
  have linked := consistent.linked
  have empty := linked.eq_nil_iff
  constructor
  · intro created
    by_contra notNil
    have notFirst : list.processes ≠ 0 := fun null => notNil (empty.mpr null)
    have member : list.live.getLastD 0 ∈ list.live := getLastD_mem notNil 0
    have selfLinked : (list.createProcess process).prev process = process := by
      unfold createProcess linkProcess
      rw [if_neg (show (list.zeroProcess process).processes ≠ 0 from notFirst)]
      exact Function.update_self _ _ _
    have back := created.linked.links.1
    rw [selfLinked] at back
    exact fresh (back ▸ member)
  · intro none
    have noFirst : (list.zeroProcess process).processes = 0 := empty.mp none
    apply Consistent.of_linked
    unfold createProcess linkProcess
    rw [if_pos noFirst, none]
    exact ⟨rfl, rfl, ⟨Function.update_self _ _ _, Function.update_self _ _ _, trivial⟩,
      List.nodup_singleton process, fun other same => List.mem_singleton.mp same ▸ nonNull⟩

/-- What the first half of the removal writes. -/
theorem unlinkNext_spec (list : ProcessList) (process : Nat) :
    (list.unlinkNext process).prev = list.prev ∧
      (list.unlinkNext process).lastProcess = list.lastProcess ∧
      (list.unlinkNext process).live = list.live ∧
      (list.unlinkNext process).processes =
        (if list.prev process = 0 then list.next process else list.processes) ∧
      (∀ other, other ≠ list.prev process → (list.unlinkNext process).next other = list.next other) ∧
      (list.prev process ≠ 0 →
        (list.unlinkNext process).next (list.prev process) = list.next process) := by
  unfold unlinkNext
  by_cases null : list.prev process = 0
  · rw [if_pos null, if_pos null]
    exact ⟨rfl, rfl, rfl, rfl, fun _ _ => rfl, fun nonNull => absurd null nonNull⟩
  · rw [if_neg null, if_neg null]
    exact ⟨rfl, rfl, rfl, rfl, fun other different => Function.update_of_ne different _ _,
      fun _ => Function.update_self _ _ _⟩

theorem unlinkPrev_spec (list : ProcessList) (process : Nat) :
    (list.unlinkPrev process).next = list.next ∧
      (list.unlinkPrev process).processes = list.processes ∧
      (list.unlinkPrev process).live = list.live ∧
      (list.unlinkPrev process).lastProcess =
        (if list.next process = 0 then list.prev process else list.lastProcess) ∧
      (∀ other, other ≠ list.next process → (list.unlinkPrev process).prev other = list.prev other) ∧
      (list.next process ≠ 0 →
        (list.unlinkPrev process).prev (list.next process) = list.prev process) := by
  unfold unlinkPrev
  by_cases null : list.next process = 0
  · rw [if_pos null, if_pos null]
    exact ⟨rfl, rfl, rfl, rfl, fun _ _ => rfl, fun nonNull => absurd null nonNull⟩
  · rw [if_neg null, if_neg null]
    exact ⟨rfl, rfl, rfl, rfl, fun other different => Function.update_of_ne different _ _,
      fun _ => Function.update_self _ _ _⟩

theorem terminateProcess_consistent (consistent : list.Consistent) (live : process ∈ list.live)
    (freedNext freedPrev : Nat) :
    (list.terminateProcess process freedNext freedPrev).Consistent := by
  obtain ⟨front, back, whole⟩ := List.append_of_mem live
  have linked := consistent.linked
  rw [whole] at linked
  have notPrev : process ≠ list.prev process := fun same =>
    linked.prev_notMem_back (same ▸ List.mem_cons_self)
  have notNext : process ≠ list.next process := fun same =>
    linked.next_notMem_front (same ▸ List.mem_append_right _ List.mem_cons_self)
  obtain ⟨-, restNodup, apart⟩ := List.nodup_append.mp linked.nodup
  have notFront : process ∉ front := fun member => apart process member process List.mem_cons_self rfl
  have notBack := (List.nodup_cons.mp restNodup).1
  have others : ∀ other ∈ front ++ back, other ≠ process := by
    rintro other member rfl
    rcases List.mem_append.mp member with inFront | inBack
    · exact notFront inFront
    · exact notBack inBack
  have erased : list.live.erase process = front ++ back := by
    rw [whole, List.erase_append_right _ notFront, List.erase_cons_head]
  obtain ⟨prevs, lasts, lives, firsts, nexts, atPrev⟩ := unlinkNext_spec list process
  obtain ⟨nexts', firsts', lives', lasts', prevs', atNext⟩ :=
    unlinkPrev_spec (list.unlinkNext process) process
  rw [nexts process notPrev, prevs] at prevs' atNext lasts'
  have removed : DoublyLinked
      (Function.update ((list.unlinkNext process).unlinkPrev process).next process freedNext)
      (Function.update ((list.unlinkNext process).unlinkPrev process).prev process freedPrev)
      (if list.prev process = 0 then list.next process else list.processes)
      (if list.next process = 0 then list.prev process else list.lastProcess) (front ++ back) := by
    apply linked.remove
    · intro other member different
      rw [Function.update_of_ne (others other member), nexts', nexts other different]
    · intro nonNull
      rw [Function.update_of_ne notPrev.symm, nexts', atPrev nonNull]
    · intro other member different
      rw [Function.update_of_ne (others other member), prevs' other different]
    · intro nonNull
      rw [Function.update_of_ne notNext.symm, atNext nonNull]
  rw [lasts] at lasts'
  rw [← firsts, ← firsts', ← lasts', ← erased, ← lives, ← lives'] at removed
  exact Consistent.of_linked removed

theorem Start.consistent (start : list.Start) : list.Consistent := by
  obtain ⟨first, last, none⟩ := start
  apply Consistent.of_linked
  rw [first, last, none]
  exact DoublyLinked.nil

/-- In a run that never creates a process beside a live one, the list is always consistent. -/
theorem processList_consistent (reachable : (machine.restrict CreatesAlone).Reachable list) :
    list.Consistent := by
  apply (machine.restrict CreatesAlone).invariant _ _ reachable
  · intro first start
    exact start.consistent
  · intro before label after consistent step
    obtain ⟨alone, enabled, called⟩ := step
    rw [← called]
    cases label with
    | createProcess process =>
        exact (createProcess_consistent_iff consistent enabled.1 enabled.2).mpr alone
    | terminateProcess process freedNext freedPrev =>
        exact terminateProcess_consistent consistent enabled freedNext freedPrev

/-- The state of `k_proc_processes` and `k_proc_last_process` at boot. -/
def noProcesses : ProcessList where
  next _ := 0
  prev _ := 0
  processes := 0
  lastProcess := 0
  live := []

theorem noProcesses_start : noProcesses.Start := ⟨rfl, rfl, rfl⟩

theorem processList_consistent_again :
    (((noProcesses.createProcess 8).terminateProcess 8 5 0).createProcess 8).Consistent := by
  have first : (machine.restrict CreatesAlone).step noProcesses (.createProcess 8)
      (noProcesses.createProcess 8) := ⟨rfl, ⟨by decide, by decide⟩, rfl⟩
  have second : (machine.restrict CreatesAlone).step (noProcesses.createProcess 8)
      (.terminateProcess 8 5 0) ((noProcesses.createProcess 8).terminateProcess 8 5 0) :=
    ⟨trivial, List.mem_cons_self, rfl⟩
  have third : (machine.restrict CreatesAlone).step
      ((noProcesses.createProcess 8).terminateProcess 8 5 0) (.createProcess 8)
      (((noProcesses.createProcess 8).terminateProcess 8 5 0).createProcess 8) :=
    ⟨rfl, ⟨by decide, by decide⟩, rfl⟩
  have start := (machine.restrict CreatesAlone).reachable_start noProcesses_start
  exact processList_consistent (Machine.reachable_step _
    (Machine.reachable_step _ (Machine.reachable_step _ start first) second) third)

/-- Two processes: the second one is its own predecessor, and stays in the list when it ends. -/
theorem secondProcess_staysListed : ∃ list, machine.Reachable list ∧ list.live = [8] ∧
    list.lastProcess = 16 ∧ list.next 8 = 16 ∧ ¬ list.Consistent := by
  have first : machine.step noProcesses (.createProcess 8) (noProcesses.createProcess 8) :=
    ⟨⟨by decide, by decide⟩, rfl⟩
  have second : machine.step (noProcesses.createProcess 8) (.createProcess 16)
      ((noProcesses.createProcess 8).createProcess 16) := ⟨⟨by decide, by decide⟩, rfl⟩
  have third : machine.step ((noProcesses.createProcess 8).createProcess 16)
      (.terminateProcess 16 0 0)
      (((noProcesses.createProcess 8).createProcess 16).terminateProcess 16 0 0) :=
    ⟨List.mem_cons_of_mem _ List.mem_cons_self, rfl⟩
  have start := machine.reachable_start noProcesses_start
  refine ⟨_, machine.reachable_step (machine.reachable_step (machine.reachable_step start first)
    second) third, by decide, by decide, by decide, fun consistent => ?_⟩
  have last := consistent.linked.last
  revert last
  decide

end ProcessList

end DoggOS.Proc

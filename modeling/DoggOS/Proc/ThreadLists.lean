/-
Where each thread slot is: on a list, or in the hands of the running code.

A list is named by the variable that holds its first thread; the local
variables of the scheduler and of the cleanup thread count too.  `Placed` says
that the lists share `queue_next` without sharing a slot and that every other
slot is in hand or belongs to a thread that has ended.  `move` is the one rule
for a step that changes where a single slot is; taking a slot from a list and
putting it on one are its instances.
-/

import DoggOS.Library.LinkedQueues
import DoggOS.Proc.Scheduler
import Mathlib.Data.List.Perm.Subperm

namespace DoggOS.Proc

inductive ListKey where
  | ready | condWait | delete | pool | waiting | resume | deleted
deriving DecidableEq, Repr

structure Locals where
  waiting : Nat
  resume : Nat
  deleted : Nat

def ListKey.Tailed (key : ListKey) : Prop := key = .ready ∨ key = .condWait

def Locals.none : Locals := ⟨0, 0, 0⟩

namespace Core

def heads (core : Core) (locals : Locals) : ListKey → Nat
  | .ready => core.readyThreads
  | .condWait => core.condWaitThreads
  | .delete => core.deleteList
  | .pool => core.poolThreads
  | .waiting => locals.waiting
  | .resume => locals.resume
  | .deleted => locals.deleted

def tails (core : Core) : ListKey → Nat
  | .ready => core.lastReadyThread
  | .condWait => core.condWaitLastThread
  | _ => 0

def StateFits (core : Core) : ListKey → Nat → Prop
  | .ready, thread => core.state thread = .ready
  | .condWait, thread => core.state thread = .condWait ∧ core.waitConditions thread ≠ 0
  | .waiting, thread => core.state thread = .condWait ∧ core.waitConditions thread ≠ 0
  | .resume, thread => core.state thread ≠ .invalid ∧ core.state thread ≠ .terminated
  | .delete, thread => core.state thread = .detached
  | .deleted, thread => core.state thread = .detached
  | .pool, thread => thread ∈ core.created → core.state thread = .invalid

/-- What a list asks of the threads on it; only the pool holds slots that were never used. -/
def Fits (core : Core) (key : ListKey) (thread : Nat) : Prop :=
  (key ≠ .pool → thread ∈ core.created) ∧ core.StateFits key thread

def Ended (core : Core) (thread : Nat) : Prop :=
  thread ∈ core.created ∧ core.state thread = .terminated

structure Agree (core after : Core) (thread : Nat) : Prop where
  poolPages : after.poolPages = core.poolPages
  created : ∀ other, other ≠ thread → (other ∈ after.created ↔ other ∈ core.created)
  state : ∀ other, other ≠ thread → after.state other = core.state other
  flags : ∀ other, other ≠ thread → after.flags other = core.flags other
  waitConditions : ∀ other, other ≠ thread →
    after.waitConditions other = core.waitConditions other

theorem Agree.refl {core after : Core} (thread : Nat) (pages : after.poolPages = core.poolPages)
    (created : after.created = core.created) (state : after.state = core.state)
    (flags : after.flags = core.flags)
    (waitConditions : after.waitConditions = core.waitConditions) : core.Agree after thread where
  poolPages := pages
  created _ _ := by rw [created]
  state _ _ := by rw [state]
  flags _ _ := by rw [flags]
  waitConditions _ _ := by rw [waitConditions]

theorem Agree.slots {core after : Core} {thread : Nat} (agree : core.Agree after thread) :
    after.slots = core.slots := by
  unfold Core.slots
  rw [agree.poolPages]

theorem Agree.fits {core after : Core} {thread other : Nat} (agree : core.Agree after thread)
    (different : other ≠ thread) {key : ListKey} (fits : core.Fits key other) :
    after.Fits key other := by
  have state := agree.state other different
  have waits := agree.waitConditions other different
  have created := agree.created other different
  refine ⟨fun notPool => created.mpr (fits.1 notPool), ?_⟩
  have old := fits.2
  cases key with
  | ready => exact state.trans old
  | condWait => exact ⟨state.trans old.1, by rw [waits]; exact old.2⟩
  | waiting => exact ⟨state.trans old.1, by rw [waits]; exact old.2⟩
  | resume => exact ⟨by rw [state]; exact old.1, by rw [state]; exact old.2⟩
  | delete => exact state.trans old
  | deleted => exact state.trans old
  | pool => exact fun isCreated => state.trans (old (created.mp isCreated))

theorem Fits.not_ended {core : Core} {key : ListKey} {thread : Nat} (fits : core.Fits key thread) :
    ¬ core.Ended thread := by
  rintro ⟨created, terminated⟩
  have old := fits.2
  cases key with
  | ready => exact absurd (old.symm.trans terminated) (by decide)
  | condWait => exact absurd (old.1.symm.trans terminated) (by decide)
  | waiting => exact absurd (old.1.symm.trans terminated) (by decide)
  | resume => exact old.2 terminated
  | delete => exact absurd (old.symm.trans terminated) (by decide)
  | deleted => exact absurd (old.symm.trans terminated) (by decide)
  | pool => exact absurd ((old created).symm.trans terminated) (by decide)

structure Placed (core : Core) (locals : Locals) (lists : ListKey → List Nat)
    (hands : List Nat) : Prop where
  queues : Queues core.queueNext (core.heads locals) lists
  tails : ∀ key, key.Tailed → ∀ front last, lists key = front ++ [last] → core.tails key = last
  listed : ∀ key, ∀ thread ∈ lists key,
    thread ∈ core.slots ∧ thread ∉ hands ∧ core.Fits key thread
  handsNodup : hands.Nodup
  inHand : ∀ thread ∈ hands, thread ∈ core.slots
  covered : ∀ thread ∈ core.slots,
    thread ∈ hands ∨ (∃ key, thread ∈ lists key) ∨ core.Ended thread
  created : ∀ thread ∈ core.created, thread ∈ core.slots
  undetached : ∀ thread, core.Ended thread → core.flags thread &&& threadFlagDetached = 0
  pages : core.poolPages.Nodup ∧ ∀ page ∈ core.poolPages, page ≠ 0 ∧ page % 4096 = 0
  fifo : core.queued = core.ran ++ lists .ready

namespace Placed

variable {core after : Core} {locals locals' : Locals} {lists lists' : ListKey → List Nat}
  {hands hands' : List Nat} {thread : Nat} {key : ListKey} {rest : List Nat}

theorem slot_ne_zero (placed : Placed core locals lists hands) (slot : thread ∈ core.slots) :
    thread ≠ 0 := by
  obtain ⟨page, member, inPage⟩ := List.mem_flatMap.mp slot
  obtain ⟨index, -, same⟩ := List.mem_map.mp inPage
  have nonNull := (placed.pages.2 page member).1
  unfold threadSlot at same
  omega

theorem unlisted (placed : Placed core locals lists hands) (held : thread ∈ hands) :
    ∀ key, thread ∉ lists key :=
  fun key member => (placed.listed key thread member).2.1 held

theorem ended_unlisted (placed : Placed core locals lists hands) (ended : core.Ended thread) :
    ∀ key, thread ∉ lists key :=
  fun key member => (placed.listed key thread member).2.2.not_ended ended

theorem move (placed : Placed core locals lists hands) (agree : core.Agree after thread)
    (slot : thread ∈ core.slots)
    (queues : Queues after.queueNext (after.heads locals') lists')
    (tails : ∀ key, key.Tailed → ∀ front last, lists' key = front ++ [last] → after.tails key = last)
    (fifo : after.queued = after.ran ++ lists' .ready)
    (members : ∀ key other, other ≠ thread → (other ∈ lists' key ↔ other ∈ lists key))
    (holds : ∀ other, other ≠ thread → (other ∈ hands' ↔ other ∈ hands)) (nodup : hands'.Nodup)
    (own : ∀ key, thread ∈ lists' key → thread ∉ hands' ∧ after.Fits key thread)
    (ownPlace : thread ∈ hands' ∨ (∃ key, thread ∈ lists' key) ∨ after.Ended thread)
    (ownFlag : after.Ended thread → after.flags thread &&& threadFlagDetached = 0) :
    Placed after locals' lists' hands' where
  queues := queues
  tails := tails
  listed key other member := by
    rw [agree.slots]
    by_cases same : other = thread
    · subst same
      exact ⟨slot, own key member⟩
    · obtain ⟨isSlot, free, fits⟩ := placed.listed key other ((members key other same).mp member)
      exact ⟨isSlot, fun held => free ((holds other same).mp held), agree.fits same fits⟩
  handsNodup := nodup
  inHand other held := by
    rw [agree.slots]
    by_cases same : other = thread
    · exact same ▸ slot
    · exact placed.inHand other ((holds other same).mp held)
  covered other isSlot := by
    rw [agree.slots] at isSlot
    by_cases same : other = thread
    · exact same ▸ ownPlace
    · rcases placed.covered other isSlot with held | ⟨key, member⟩ | ⟨isCreated, terminated⟩
      · exact Or.inl ((holds other same).mpr held)
      · exact Or.inr (Or.inl ⟨key, (members key other same).mpr member⟩)
      · exact Or.inr (Or.inr ⟨(agree.created other same).mpr isCreated,
          (agree.state other same).trans terminated⟩)
  created other isCreated := by
    rw [agree.slots]
    by_cases same : other = thread
    · exact same ▸ slot
    · exact placed.created other ((agree.created other same).mp isCreated)
  undetached other ended := by
    by_cases same : other = thread
    · subst same
      exact ownFlag ended
    · rw [agree.flags other same]
      exact placed.undetached other ⟨(agree.created other same).mp ended.1,
        (agree.state other same).symm.trans ended.2⟩
  pages := by
    rw [agree.poolPages]
    exact placed.pages
  fifo := fifo

theorem update (placed : Placed core locals lists hands) (held : thread ∈ hands)
    (agree : core.Agree after thread)
    (links : ∀ other, other ≠ thread → after.queueNext other = core.queueNext other)
    (heads : after.heads locals' = core.heads locals) (tails : after.tails = core.tails)
    (fifo : after.queued = after.ran ++ lists .ready)
    (flag : after.Ended thread → after.flags thread &&& threadFlagDetached = 0) :
    Placed after locals' lists hands := by
  have unlisted := placed.unlisted held
  apply placed.move agree (placed.inHand thread held)
  · rw [heads]
    exact placed.queues.frame fun key other member =>
      links other fun same => unlisted key (same ▸ member)
  · rw [tails]
    exact placed.tails
  · exact fifo
  · exact fun _ _ _ => Iff.rfl
  · exact fun _ _ => Iff.rfl
  · exact placed.handsNodup
  · exact fun key member => absurd member (unlisted key)
  · exact Or.inl held
  · exact flag

theorem take (placed : Placed core locals lists hands) (popped : lists key = thread :: rest)
    (agree : core.Agree after thread) (links : after.queueNext = core.queueNext)
    (heads : after.heads locals' =
      Function.update (core.heads locals) key (core.queueNext thread))
    (tails : after.tails = core.tails)
    (fifo : after.queued = after.ran ++ Function.update lists key rest .ready)
    (flag : after.Ended thread → after.flags thread &&& threadFlagDetached = 0) :
    Placed after locals' (Function.update lists key rest) (thread :: hands) := by
  have member : thread ∈ lists key := by
    rw [popped]
    exact List.mem_cons_self
  obtain ⟨slot, free, -⟩ := placed.listed key thread member
  have once : thread ∉ rest := by
    have nodup := placed.queues.nodup key
    rw [popped] at nodup
    exact (List.nodup_cons.mp nodup).1
  apply placed.move agree slot
  · rw [heads, links]
    exact placed.queues.popFront popped
  · intro other tailed front last listed
    rw [tails]
    by_cases same : other = key
    · subst same
      rw [Function.update_self] at listed
      exact placed.tails other tailed (thread :: front) last (by rw [popped, listed]; rfl)
    · rw [Function.update_of_ne same] at listed
      exact placed.tails other tailed front last listed
  · exact fifo
  · intro other item different
    by_cases same : other = key
    · subst same
      rw [Function.update_self, popped, List.mem_cons]
      exact (or_iff_right different).symm
    · rw [Function.update_of_ne same]
  · intro other different
    rw [List.mem_cons]
    exact or_iff_right different
  · exact List.nodup_cons.mpr ⟨free, placed.handsNodup⟩
  · intro other listed
    by_cases same : other = key
    · subst same
      rw [Function.update_self] at listed
      exact absurd listed once
    · rw [Function.update_of_ne same] at listed
      exact absurd listed (placed.queues.apart_cons popped same)
  · exact Or.inl List.mem_cons_self
  · exact flag

theorem put (placed : Placed core locals lists (thread :: hands)) {newList : List Nat}
    (agree : core.Agree after thread)
    (queues : Queues after.queueNext (after.heads locals') (Function.update lists key newList))
    (mem_newList : ∀ other, other ∈ newList ↔ other = thread ∨ other ∈ lists key)
    (tails : ∀ other, other.Tailed → ∀ front last,
      Function.update lists key newList other = front ++ [last] → after.tails other = last)
    (fifo : after.queued = after.ran ++ Function.update lists key newList .ready)
    (fits : after.Fits key thread) :
    Placed after locals' (Function.update lists key newList) hands := by
  have inFront : thread ∈ thread :: hands := List.mem_cons_self
  have unlisted := placed.unlisted inFront
  obtain ⟨free, nodup⟩ := List.nodup_cons.mp placed.handsNodup
  apply placed.move agree (placed.inHand thread inFront) queues tails fifo
  · intro other item different
    by_cases same : other = key
    · subst same
      rw [Function.update_self, mem_newList]
      exact or_iff_right different
    · rw [Function.update_of_ne same]
  · intro other different
    rw [List.mem_cons]
    exact (or_iff_right different).symm
  · exact nodup
  · intro other listed
    by_cases same : other = key
    · exact ⟨free, same ▸ fits⟩
    · rw [Function.update_of_ne same] at listed
      exact absurd listed (unlisted other)
  · refine Or.inr (Or.inl ⟨key, ?_⟩)
    rw [Function.update_self]
    exact (mem_newList thread).mpr (Or.inl rfl)
  · exact fun ended => absurd ended fits.not_ended

theorem putFront (placed : Placed core locals lists (thread :: hands)) (untailed : ¬ key.Tailed)
    (agree : core.Agree after thread)
    (links : after.queueNext = Function.update core.queueNext thread (core.heads locals key))
    (heads : after.heads locals' = Function.update (core.heads locals) key thread)
    (tails : after.tails = core.tails) (fifo : after.queued = after.ran ++ lists .ready)
    (fits : after.Fits key thread) :
    Placed after locals' (Function.update lists key (thread :: lists key)) hands := by
  have inFront : thread ∈ thread :: hands := List.mem_cons_self
  have notReady : ListKey.ready ≠ key := fun same => untailed (Or.inl same.symm)
  apply placed.put agree
  · rw [links, heads]
    exact placed.queues.pushFront (placed.slot_ne_zero (placed.inHand thread inFront))
      (placed.unlisted inFront)
  · exact fun other => List.mem_cons
  · intro other tailed front last listed
    have different : other ≠ key := fun same => untailed (same ▸ tailed)
    rw [Function.update_of_ne different] at listed
    rw [tails]
    exact placed.tails other tailed front last listed
  · rw [Function.update_of_ne notReady]
    exact fifo
  · exact fits

theorem putBack (placed : Placed core locals lists (thread :: hands)) (tailed : key.Tailed)
    (agree : core.Agree after thread)
    (links : after.queueNext = Function.update (if core.heads locals key = 0 then core.queueNext
      else Function.update core.queueNext (core.tails key) thread) thread 0)
    (heads : after.heads locals' = if core.heads locals key = 0 then
      Function.update (core.heads locals) key thread else core.heads locals)
    (tails : after.tails = Function.update core.tails key thread)
    (fifo : after.queued = after.ran ++
      Function.update lists key (lists key ++ [thread]) .ready)
    (fits : after.Fits key thread) :
    Placed after locals' (Function.update lists key (lists key ++ [thread])) hands := by
  have inFront : thread ∈ thread :: hands := List.mem_cons_self
  apply placed.put agree
  · rw [links, heads]
    exact placed.queues.pushBack (placed.slot_ne_zero (placed.inHand thread inFront))
      (placed.unlisted inFront) (placed.tails key tailed)
  · intro other
    rw [List.mem_append, List.mem_singleton]
    exact or_comm
  · intro other otherTailed front last listed
    rw [tails]
    by_cases same : other = key
    · subst same
      rw [Function.update_self] at listed ⊢
      exact (List.cons.inj (List.append_inj' listed rfl).2).1
    · rw [Function.update_of_ne same] at listed ⊢
      exact placed.tails other otherTailed front last listed
  · exact fifo
  · exact fits

theorem pickUp (placed : Placed core locals lists hands) (ended : core.Ended thread)
    (notHeld : thread ∉ hands) : Placed core locals lists (thread :: hands) := by
  have unlisted := placed.ended_unlisted ended
  apply placed.move (Agree.refl thread rfl rfl rfl rfl rfl) (placed.created thread ended.1)
    placed.queues placed.tails placed.fifo
  · exact fun _ _ _ => Iff.rfl
  · intro other different
    rw [List.mem_cons]
    exact or_iff_right different
  · exact List.nodup_cons.mpr ⟨notHeld, placed.handsNodup⟩
  · exact fun key member => absurd member (unlisted key)
  · exact Or.inl List.mem_cons_self
  · exact placed.undetached thread

theorem putDown (placed : Placed core locals lists (thread :: hands)) (ended : core.Ended thread) :
    Placed core locals lists hands := by
  have inFront : thread ∈ thread :: hands := List.mem_cons_self
  have unlisted := placed.unlisted inFront
  apply placed.move (Agree.refl thread rfl rfl rfl rfl rfl) (placed.inHand thread inFront)
    placed.queues placed.tails placed.fifo
  · exact fun _ _ _ => Iff.rfl
  · intro other different
    rw [List.mem_cons]
    exact (or_iff_right different).symm
  · exact (List.nodup_cons.mp placed.handsNodup).2
  · exact fun key member => absurd member (unlisted key)
  · exact Or.inr (Or.inr ended)
  · exact placed.undetached thread

theorem length_le (placed : Placed core locals lists hands) (key : ListKey) :
    (lists key).length ≤ core.slots.length :=
  (List.subperm_of_subset (placed.queues.nodup key) fun thread member =>
    (placed.listed key thread member).1).length_le

theorem nil_of_head (placed : Placed core locals lists hands) (empty : core.heads locals key = 0) :
    lists key = [] :=
  ((placed.queues.chain key).eq_nil_iff).mpr empty

end Placed

end Core

end DoggOS.Proc

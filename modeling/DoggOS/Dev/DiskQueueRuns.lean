/-
Runs of the disk command queue.

An enqueue tests `cmds` and then relies on what it saw.  Its store loses no
command as long as it finds `cmds` null where the test found it null, and
`last_cmd` at the end of the list where the test found a list.  Any other store
cuts off commands that are queued, or puts its own where no link leads.
-/

import DoggOS.Dev.DiskQueue

namespace DoggOS.Dev

def EnqueuePlace.pending : EnqueuePlace → Option Nat
  | .testCmds cmd | .setCmds cmd | .setNext cmd => some cmd
  | .idle | .checkCmd _ | .setLast _ => none

def EnqueuePlace.waiting : EnqueuePlace → Option Nat
  | .checkCmd cmd | .testCmds cmd | .setCmds cmd | .setNext cmd => some cmd
  | .idle | .setLast _ => none

namespace DiskQueue

variable {queue after : DiskQueue} {cells rest : List Nat} {thread other cmd : Nat}
  {turn : QueueTurn}

/-- What the test of an enqueue saw still holds when its store is made. -/
def Current (queue : DiskQueue) : QueueTurn → Prop
  | .enqueue thread =>
      match queue.place thread with
      | .setCmds _ => queue.cmds = 0
      | .setNext _ => ∃ cells, Chain queue.next queue.cmds (cells ++ [queue.lastCmd])
      | _ => True
  | .call _ _ | .dequeue => True

/-- Between enqueues every command that waits for the disk is in the list, once. -/
def Lossless (queue : DiskQueue) : Prop :=
  queue.dequeued.Nodup ∧ ((∀ thread, queue.place thread = .idle) →
    ∃ cells, Chain queue.next queue.cmds cells ∧ cells.Nodup ∧
      ∀ cmd ∈ queue.enqueued, cmd ∉ queue.dequeued → cmd ∈ cells)

def Lost (queue : DiskQueue) (cmd : Nat) : Prop :=
  cmd ∈ queue.enqueued ∧ cmd ∉ queue.dequeued ∧
    (∀ thread, (queue.place thread).pending ≠ some cmd) ∧
    ∀ cells, Chain queue.next queue.cmds cells → cmd ∉ cells

structure Tracked (queue : DiskQueue) (cells : List Nat) : Prop where
  chain : Chain queue.next queue.cmds cells
  nodup : (cells ++ queue.dequeued).Nodup
  known : ∀ cmd ∈ cells ++ queue.dequeued, cmd ∈ queue.enqueued
  called : ∀ cmd ∈ queue.enqueued, cmd ∈ queue.called
  whole : ∀ cmd ∈ queue.enqueued, cmd ∈ cells ++ queue.dequeued ∨
    ∃ thread, (queue.place thread).pending = some cmd
  pending : ∀ thread cmd, (queue.place thread).pending = some cmd →
    cmd ≠ 0 ∧ cmd ∈ queue.enqueued ∧ cmd ∉ cells ++ queue.dequeued
  checked : ∀ thread cmd, queue.place thread = .checkCmd cmd → cmd ∉ queue.enqueued
  waiting : ∀ thread cmd, (queue.place thread).waiting = some cmd →
    cmd ∈ queue.called ∧ queue.next cmd = 0
  single : ∀ thread other cmd, (queue.place thread).waiting = some cmd →
    (queue.place other).waiting = some cmd → thread = other
  uncalled : ∀ cmd, cmd ∉ queue.called → queue.next cmd = 0
  tested : ∀ cmd, queue.diskPlace = .testCmd cmd → cmd ≠ 0 → ∃ rest, cells = cmd :: rest
  taken : ∀ cmd, queue.diskPlace = .takeCmd cmd → ∃ rest, cells = cmd :: rest

theorem pending_waiting {place : EnqueuePlace} (pending : place.pending = some cmd) :
    place.waiting = some cmd := by
  cases place with
  | idle | checkCmd _ | setLast _ => cases pending
  | testCmds _ | setCmds _ | setNext _ => exact pending

namespace Tracked

theorem of_start (start : Start queue) : Tracked queue [] := by
  have idle : ∀ thread, (queue.place thread).waiting = none := by
    intro thread
    rw [start.place thread]
    rfl
  have unpending : ∀ thread cmd, (queue.place thread).pending ≠ some cmd := by
    intro thread cmd pending
    have waits := pending_waiting pending
    rw [idle thread] at waits
    cases waits
  constructor
  · exact start.cmds
  · rw [start.dequeued]
    exact List.nodup_nil
  · rw [start.dequeued]
    exact fun _ => nofun
  · rw [start.enqueued]
    exact fun _ => nofun
  · rw [start.enqueued]
    exact fun _ => nofun
  · exact fun thread cmd pending => absurd pending (unpending thread cmd)
  · intro thread cmd checking
    rw [start.place thread] at checking
    cases checking
  · intro thread cmd waits
    rw [idle thread] at waits
    cases waits
  · intro thread other cmd waits
    rw [idle thread] at waits
    cases waits
  · exact fun cmd _ => start.next cmd
  · intro cmd atTest
    rw [start.diskPlace] at atTest
    cases atTest
  · intro cmd atTake
    rw [start.diskPlace] at atTake
    cases atTake

theorem linked_called (tracked : Tracked queue cells) (member : cmd ∈ cells) :
    cmd ∈ queue.called :=
  tracked.called cmd (tracked.known cmd (List.mem_append_left _ member))

theorem move (tracked : Tracked queue cells) {place : EnqueuePlace} {last : Nat}
    (pending : place.pending = (queue.place thread).pending)
    (waiting : ∀ cmd, place.waiting = some cmd → (queue.place thread).waiting = some cmd)
    (unchecked : ∀ cmd, place ≠ .checkCmd cmd) :
    Tracked { queue.move thread place with lastCmd := last } cells := by
  have pendings : ∀ other, (Function.update queue.place thread place other).pending =
      (queue.place other).pending := by
    intro other
    by_cases same : other = thread
    · rw [same, Function.update_self, pending]
    · rw [Function.update_of_ne same]
  have waitings : ∀ other cmd, (Function.update queue.place thread place other).waiting = some cmd →
      (queue.place other).waiting = some cmd := by
    intro other cmd waits
    by_cases same : other = thread
    · rw [same, Function.update_self] at waits
      exact same ▸ waiting cmd waits
    · rw [Function.update_of_ne same] at waits
      exact waits
  refine ⟨tracked.chain, tracked.nodup, tracked.known, tracked.called, ?_, ?_, ?_, ?_, ?_,
    tracked.uncalled, tracked.tested, tracked.taken⟩
  · intro cmd member
    simp only [DiskQueue.move, pendings]
    exact tracked.whole cmd member
  · intro other cmd pending
    exact tracked.pending other cmd ((pendings other).symm.trans pending)
  · intro other cmd checking
    by_cases same : other = thread
    · simp only [DiskQueue.move, same, Function.update_self] at checking
      exact absurd checking (unchecked cmd)
    · simp only [DiskQueue.move, Function.update_of_ne same] at checking
      exact tracked.checked other cmd checking
  · exact fun other cmd waits => tracked.waiting other cmd (waitings other cmd waits)
  · exact fun one two cmd first second =>
      tracked.single one two cmd (waitings one cmd first) (waitings two cmd second)

theorem call (tracked : Tracked queue cells) (idle : queue.place thread = .idle)
    (fresh : cmd ∉ queue.called) :
    Tracked { queue.move thread (.checkCmd cmd) with called := cmd :: queue.called } cells := by
  have waits : ∀ other one, (Function.update queue.place thread (.checkCmd cmd) other).waiting =
      some one → other = thread ∧ one = cmd ∨
        other ≠ thread ∧ (queue.place other).waiting = some one := by
    intro other one waits
    by_cases same : other = thread
    · rw [same, Function.update_self] at waits
      exact Or.inl ⟨same, (Option.some.inj waits).symm⟩
    · rw [Function.update_of_ne same] at waits
      exact Or.inr ⟨same, waits⟩
  have pendings : ∀ other, (Function.update queue.place thread (.checkCmd cmd) other).pending =
      (queue.place other).pending := by
    intro other
    by_cases same : other = thread
    · rw [same, Function.update_self, idle]
      rfl
    · rw [Function.update_of_ne same]
  refine ⟨tracked.chain, tracked.nodup, tracked.known,
    fun one member => List.mem_cons_of_mem _ (tracked.called one member), ?_, ?_, ?_, ?_, ?_, ?_,
    tracked.tested, tracked.taken⟩
  · intro one member
    simp only [DiskQueue.move, pendings]
    exact tracked.whole one member
  · exact fun other one pending => tracked.pending other one ((pendings other).symm.trans pending)
  · intro other one checking member
    have isCalled := tracked.called one member
    by_cases same : other = thread
    · simp only [DiskQueue.move, same, Function.update_self, EnqueuePlace.checkCmd.injEq] at checking
      exact fresh (checking ▸ isCalled)
    · simp only [DiskQueue.move, Function.update_of_ne same] at checking
      exact tracked.checked other one checking member
  · intro other one waiting
    rcases waits other one waiting with ⟨-, isCmd⟩ | ⟨-, old⟩
    · rw [isCmd]
      exact ⟨List.mem_cons_self, tracked.uncalled cmd fresh⟩
    · obtain ⟨isCalled, noNext⟩ := tracked.waiting other one old
      exact ⟨List.mem_cons_of_mem _ isCalled, noNext⟩
  · intro one two shared first second
    have old : ∀ {other}, (queue.place other).waiting = some shared → shared ≠ cmd :=
      fun waiting same => fresh (same ▸ (tracked.waiting _ _ waiting).1)
    rcases waits one shared first with ⟨isOne, isCmd⟩ | ⟨-, oldOne⟩
    · rcases waits two shared second with ⟨isTwo, -⟩ | ⟨-, oldTwo⟩
      · exact isOne.trans isTwo.symm
      · exact absurd isCmd (old oldTwo)
    · rcases waits two shared second with ⟨-, isCmd⟩ | ⟨-, oldTwo⟩
      · exact absurd isCmd (old oldOne)
      · exact tracked.single one two shared oldOne oldTwo
  · intro one absent
    exact tracked.uncalled one fun member => absent (List.mem_cons_of_mem _ member)

/-- A command passes the check and counts as enqueued. -/
theorem accept (tracked : Tracked queue cells) (checking : queue.place thread = .checkCmd cmd)
    (nonNull : cmd ≠ 0) :
    Tracked { queue.move thread (.testCmds cmd) with enqueued := cmd :: queue.enqueued } cells := by
  have waitingHere : (queue.place thread).waiting = some cmd := by
    rw [checking]
    rfl
  have isNew := tracked.checked thread cmd checking
  have unlinked : cmd ∉ cells ++ queue.dequeued := fun member => isNew (tracked.known cmd member)
  have waitings : ∀ other one, (Function.update queue.place thread (.testCmds cmd) other).waiting =
      some one → (queue.place other).waiting = some one := by
    intro other one waits
    by_cases same : other = thread
    · rw [same, Function.update_self] at waits
      rw [same, waitingHere]
      exact waits
    · rw [Function.update_of_ne same] at waits
      exact waits
  refine ⟨tracked.chain, tracked.nodup,
    fun one member => List.mem_cons_of_mem _ (tracked.known one member), ?_, ?_, ?_, ?_, ?_, ?_,
    tracked.uncalled, tracked.tested, tracked.taken⟩
  · intro one member
    rcases List.mem_cons.mp member with same | old
    · exact same ▸ (tracked.waiting thread cmd waitingHere).1
    · exact tracked.called one old
  · intro one member
    rcases List.mem_cons.mp member with same | old
    · refine Or.inr ⟨thread, ?_⟩
      simp only [DiskQueue.move, Function.update_self, same]
      rfl
    · rcases tracked.whole one old with linked | ⟨other, pending⟩
      · exact Or.inl linked
      · refine Or.inr ⟨other, ?_⟩
        have different : other ≠ thread := by
          rintro rfl
          rw [checking] at pending
          cases pending
        simp only [DiskQueue.move, Function.update_of_ne different]
        exact pending
  · intro other one pending
    by_cases same : other = thread
    · simp only [DiskQueue.move, same, Function.update_self] at pending
      have isCmd : cmd = one := Option.some.inj pending
      rw [← isCmd]
      exact ⟨nonNull, List.mem_cons_self, unlinked⟩
    · simp only [DiskQueue.move, Function.update_of_ne same] at pending
      obtain ⟨notNull, member, outside⟩ := tracked.pending other one pending
      exact ⟨notNull, List.mem_cons_of_mem _ member, outside⟩
  · intro other one otherChecking member
    by_cases same : other = thread
    · simp only [DiskQueue.move, same, Function.update_self] at otherChecking
      cases otherChecking
    · simp only [DiskQueue.move, Function.update_of_ne same] at otherChecking
      rcases List.mem_cons.mp member with isCmd | old
      · have waits : (queue.place other).waiting = some cmd := by
          rw [otherChecking, isCmd]
          rfl
        exact same (tracked.single other thread cmd waits waitingHere)
      · exact tracked.checked other one otherChecking old
  · exact fun other one waits => tracked.waiting other one (waitings other one waits)
  · exact fun one two shared first second =>
      tracked.single one two shared (waitings one shared first) (waitings two shared second)

/-- A pending command comes behind the others. -/
theorem link (tracked : Tracked queue cells) (pending : (queue.place thread).pending = some cmd)
    {next : Nat → Nat} {cmds : Nat} (chain : Chain next cmds (cells ++ [cmd]))
    (agree : ∀ one, one ∉ cells → next one = queue.next one) :
    Tracked { queue.move thread (.setLast cmd) with cmds := cmds, next := next }
      (cells ++ [cmd]) := by
  obtain ⟨nonNull, enqueued, unlinked⟩ := tracked.pending thread cmd pending
  have moved : (cells ++ [cmd] ++ queue.dequeued).Perm (cmd :: (cells ++ queue.dequeued)) := by
    rw [List.append_assoc]
    exact List.perm_middle
  have linkedMem : ∀ one, one ∈ cells ++ [cmd] ++ queue.dequeued ↔
      one = cmd ∨ one ∈ cells ++ queue.dequeued := fun one => moved.mem_iff.trans List.mem_cons
  have pendings : ∀ other one, (Function.update queue.place thread (.setLast cmd) other).pending =
      some one → other ≠ thread ∧ (queue.place other).pending = some one := by
    intro other one waits
    by_cases same : other = thread
    · rw [same, Function.update_self] at waits
      cases waits
    · rw [Function.update_of_ne same] at waits
      exact ⟨same, waits⟩
  have waitings : ∀ other one, (Function.update queue.place thread (.setLast cmd) other).waiting =
      some one → (queue.place other).waiting = some one := by
    intro other one waits
    by_cases same : other = thread
    · rw [same, Function.update_self] at waits
      cases waits
    · rw [Function.update_of_ne same] at waits
      exact waits
  have waitsOutside : ∀ other one, (queue.place other).waiting = some one → one ∉ cells := by
    intro other one waits member
    have isEnqueued := tracked.known one (List.mem_append_left _ member)
    cases isPlace : queue.place other with
    | idle | setLast _ =>
        rw [isPlace] at waits
        cases waits
    | checkCmd held =>
        rw [isPlace] at waits
        have same : held = one := Option.some.inj waits
        exact tracked.checked other one (same ▸ isPlace) isEnqueued
    | testCmds held | setCmds held | setNext held =>
        have isPending : (queue.place other).pending = some one := by
          rw [isPlace] at waits ⊢
          exact waits
        exact (tracked.pending other one isPending).2.2 (List.mem_append_left _ member)
  refine ⟨chain, moved.nodup_iff.mpr (List.nodup_cons.mpr ⟨unlinked, tracked.nodup⟩), ?_,
    tracked.called, ?_, ?_, ?_, ?_, ?_, ?_, ?_, ?_⟩
  · intro one member
    rcases (linkedMem one).mp member with isCmd | old
    · exact isCmd ▸ enqueued
    · exact tracked.known one old
  · intro one member
    rcases tracked.whole one member with linked | ⟨other, waits⟩
    · exact Or.inl ((linkedMem one).mpr (Or.inr linked))
    · by_cases same : other = thread
      · rw [same, pending] at waits
        exact Or.inl ((linkedMem one).mpr (Or.inl (Option.some.inj waits).symm))
      · refine Or.inr ⟨other, ?_⟩
        simp only [DiskQueue.move, Function.update_of_ne same]
        exact waits
  · intro other one waits
    obtain ⟨different, old⟩ := pendings other one waits
    obtain ⟨notNull, isEnqueued, outside⟩ := tracked.pending other one old
    refine ⟨notNull, isEnqueued, fun member => ?_⟩
    rcases (linkedMem one).mp member with isCmd | linked
    · rw [isCmd] at old
      exact different (tracked.single other thread cmd (pending_waiting old) (pending_waiting pending))
    · exact outside linked
  · intro other one checking
    by_cases same : other = thread
    · simp only [DiskQueue.move, same, Function.update_self] at checking
      cases checking
    · simp only [DiskQueue.move, Function.update_of_ne same] at checking
      exact tracked.checked other one checking
  · intro other one waits
    have old := waitings other one waits
    obtain ⟨isCalled, noNext⟩ := tracked.waiting other one old
    exact ⟨isCalled, (agree one (waitsOutside other one old)).trans noNext⟩
  · exact fun one two shared first second =>
      tracked.single one two shared (waitings one shared first) (waitings two shared second)
  · intro one absent
    have outside : one ∉ cells := fun member => absent (tracked.linked_called member)
    exact (agree one outside).trans (tracked.uncalled one absent)
  · intro one atTest notNull
    obtain ⟨rest, whole⟩ := tracked.tested one atTest notNull
    exact ⟨rest ++ [cmd], by rw [whole, List.cons_append]⟩
  · intro one atTake
    obtain ⟨rest, whole⟩ := tracked.taken one atTake
    exact ⟨rest ++ [cmd], by rw [whole, List.cons_append]⟩

theorem enqueue (tracked : Tracked queue cells) (current : queue.Current (.enqueue thread))
    (stepped : queue.nextEnqueue thread = some after) : ∃ cells, Tracked after cells := by
  simp only [Current] at current
  unfold nextEnqueue at stepped
  cases isPlace : queue.place thread with
  | idle =>
      rw [isPlace] at stepped
      cases stepped
  | checkCmd cmd =>
      rw [isPlace] at stepped
      dsimp only at stepped
      split at stepped
      · rename_i valid
        cases stepped
        exact ⟨cells, tracked.accept isPlace valid.1⟩
      · cases stepped
        refine ⟨cells, tracked.move ?_ (fun _ => nofun) fun _ => nofun⟩
        rw [isPlace]
        rfl
  | testCmds cmd =>
      rw [isPlace] at stepped
      cases stepped
      refine ⟨cells, tracked.move ?_ (fun one => ?_) fun one => ?_⟩
      · rw [isPlace]
        split
        · rfl
        · rfl
      · rw [isPlace]
        split
        · exact id
        · exact id
      · split
        · nofun
        · nofun
  | setCmds cmd =>
      rw [isPlace] at stepped current
      cases stepped
      have pending : (queue.place thread).pending = some cmd := by
        rw [isPlace]
        rfl
      have none : cells = [] := tracked.chain.eq_nil_iff.mpr current
      have noNext := (tracked.waiting thread cmd (pending_waiting pending)).2
      have alone : Chain queue.next cmd (cells ++ [cmd]) := by
        rw [none]
        exact ⟨rfl, (tracked.pending thread cmd pending).1, noNext⟩
      exact ⟨cells ++ [cmd], tracked.link pending alone fun _ _ => rfl⟩
  | setNext cmd =>
      rw [isPlace] at stepped current
      dsimp only at stepped
      obtain ⟨front, toLast⟩ := current
      split at stepped
      · cases stepped
      · cases stepped
        have pending : (queue.place thread).pending = some cmd := by
          rw [isPlace]
          rfl
        have noNext := (tracked.waiting thread cmd (pending_waiting pending)).2
        obtain ⟨nonNull, -, outside⟩ := tracked.pending thread cmd pending
        have whole : cells = front ++ [queue.lastCmd] := tracked.chain.unique toLast
        have lastIn : queue.lastCmd ∈ cells := by
          rw [whole]
          exact List.mem_append_right _ List.mem_cons_self
        have different : cmd ≠ queue.lastCmd := fun same =>
          outside (List.mem_append_left _ (same ▸ lastIn))
        have nodup := (List.nodup_append.mp tracked.nodup).1
        rw [whole] at nodup
        have absent : queue.lastCmd ∉ front := fun member =>
          (List.nodup_append.mp nodup).2.2 _ member _ List.mem_cons_self rfl
        have longer : Chain (Function.update queue.next queue.lastCmd cmd) queue.cmds
            (cells ++ [cmd]) := by
          rw [whole, List.append_assoc]
          apply toLast.link absent
          · intro one member
            apply Function.update_of_ne
            rintro rfl
            exact absent member
          · rw [Function.update_self]
            refine ⟨rfl, nonNull, ?_⟩
            exact (Function.update_of_ne different _ _).trans noNext
        refine ⟨cells ++ [cmd], tracked.link pending longer fun one notIn => ?_⟩
        apply Function.update_of_ne
        rintro rfl
        exact notIn lastIn
  | setLast cmd =>
      rw [isPlace] at stepped
      cases stepped
      refine ⟨cells, tracked.move ?_ (fun _ => nofun) fun _ => nofun⟩
      rw [isPlace]
      rfl

theorem setDisk (tracked : Tracked queue cells) {place : DequeuePlace} {last : Nat}
    (tested : ∀ cmd, place = .testCmd cmd → cmd ≠ 0 → ∃ rest, cells = cmd :: rest)
    (taken : ∀ cmd, place = .takeCmd cmd → ∃ rest, cells = cmd :: rest) :
    Tracked { queue with diskPlace := place, lastCmd := last } cells :=
  ⟨tracked.chain, tracked.nodup, tracked.known, tracked.called, tracked.whole, tracked.pending,
    tracked.checked, tracked.waiting, tracked.single, tracked.uncalled, tested, taken⟩

theorem take (tracked : Tracked queue (cmd :: rest)) :
    Tracked { queue with
      cmds := queue.next queue.cmds
      diskPlace := .testCmds
      dequeued := cmd :: queue.dequeued } rest := by
  obtain ⟨isFirst, -, more⟩ := tracked.chain
  have moved : (rest ++ cmd :: queue.dequeued).Perm (cmd :: rest ++ queue.dequeued) :=
    List.perm_middle
  refine ⟨?_, moved.nodup_iff.mpr tracked.nodup, ?_, tracked.called, ?_, ?_, tracked.checked,
    tracked.waiting, tracked.single, tracked.uncalled, fun _ => nofun, fun _ => nofun⟩
  · rw [isFirst]
    exact more
  · exact fun one member => tracked.known one (moved.mem_iff.mp member)
  · exact fun one member => (tracked.whole one member).imp_left moved.mem_iff.mpr
  · intro other one pending
    obtain ⟨nonNull, enqueued, outside⟩ := tracked.pending other one pending
    exact ⟨nonNull, enqueued, fun member => outside (moved.mem_iff.mp member)⟩

theorem dequeue (tracked : Tracked queue cells) (stepped : queue.nextDequeue = some after) :
    ∃ cells, Tracked after cells := by
  unfold nextDequeue at stepped
  cases isPlace : queue.diskPlace with
  | getCmd =>
      rw [isPlace] at stepped
      cases stepped
      refine ⟨cells, tracked.setDisk (fun cmd isCmds nonNull => ?_) fun _ => nofun⟩
      have same : queue.cmds = cmd := DequeuePlace.testCmd.inj isCmds
      have chain := tracked.chain
      cases cells with
      | nil => exact absurd (same.symm.trans chain) nonNull
      | cons first rest => exact ⟨rest, by rw [← same, chain.1]⟩
  | testCmd cmd =>
      rw [isPlace] at stepped
      cases stepped
      refine ⟨cells, tracked.setDisk (fun one => ?_) fun one => ?_⟩
      · split
        · nofun
        · nofun
      · split
        · nofun
        · rename_i nonNull
          intro isCmd
          rw [← DequeuePlace.takeCmd.inj isCmd]
          exact tracked.tested cmd isPlace nonNull
  | takeCmd cmd =>
      rw [isPlace] at stepped
      dsimp only at stepped
      split at stepped
      · cases stepped
      · cases stepped
        obtain ⟨rest, rfl⟩ := tracked.taken cmd isPlace
        exact ⟨rest, tracked.take⟩
  | testCmds =>
      rw [isPlace] at stepped
      cases stepped
      refine ⟨cells, tracked.setDisk (fun one => ?_) fun one => ?_⟩
      · split
        · nofun
        · nofun
      · split
        · nofun
        · nofun
  | clearLast =>
      rw [isPlace] at stepped
      cases stepped
      exact ⟨cells, tracked.setDisk (fun _ => nofun) fun _ => nofun⟩

theorem step (tracked : Tracked queue cells) (current : queue.Current turn)
    (stepped : queue.nextQueue turn = some after) : ∃ cells, Tracked after cells := by
  cases turn with
  | call thread cmd =>
      unfold nextQueue at stepped
      dsimp only at stepped
      split at stepped
      · rename_i enabled
        cases stepped
        exact ⟨cells, tracked.call enabled.1 enabled.2⟩
      · cases stepped
  | enqueue thread => exact tracked.enqueue current stepped
  | dequeue => exact tracked.dequeue stepped

theorem lossless (tracked : Tracked queue cells) : queue.Lossless := by
  obtain ⟨listNodup, dequeuedNodup, -⟩ := List.nodup_append.mp tracked.nodup
  refine ⟨dequeuedNodup, fun idle => ⟨cells, tracked.chain, listNodup, fun cmd member waits => ?_⟩⟩
  rcases tracked.whole cmd member with linked | ⟨thread, pending⟩
  · exact (List.mem_append.mp linked).resolve_right waits
  · rw [idle thread] at pending
    cases pending

theorem not_lost (tracked : Tracked queue cells) (cmd : Nat) : ¬ queue.Lost cmd := by
  rintro ⟨member, waits, unpending, unlinked⟩
  rcases tracked.whole cmd member with linked | ⟨thread, pending⟩
  · exact unlinked cells tracked.chain ((List.mem_append.mp linked).resolve_right waits)
  · exact unpending thread pending

/-- A store that does not find what the test saw loses a command. -/
theorem lost_of_stale (tracked : Tracked queue cells) (stale : ¬ queue.Current turn)
    (stepped : queue.nextQueue turn = some after) : ∃ cmd, after.Lost cmd := by
  cases turn with
  | call _ _ | dequeue => exact absurd trivial stale
  | enqueue thread =>
  have stored : ∀ {cmd one : Nat}, (queue.place thread).pending = some cmd →
      one ∈ cmd :: cells → one ∈ queue.enqueued ∧ one ∉ queue.dequeued ∧
        ∀ other, (Function.update queue.place thread (.setLast cmd) other).pending ≠ some one := by
    intro cmd one pending member
    obtain ⟨-, enqueued, outside⟩ := tracked.pending thread cmd pending
    have pendings : ∀ other, (Function.update queue.place thread (.setLast cmd) other).pending =
        some one → other ≠ thread ∧ (queue.place other).pending = some one := by
      intro other waits
      by_cases same : other = thread
      · rw [same, Function.update_self] at waits
        cases waits
      · rw [Function.update_of_ne same] at waits
        exact ⟨same, waits⟩
    rcases List.mem_cons.mp member with isCmd | linked
    · rw [isCmd] at pendings ⊢
      refine ⟨enqueued, fun taken => outside (List.mem_append_right _ taken), fun other waits => ?_⟩
      obtain ⟨different, old⟩ := pendings other waits
      exact different (tracked.single other thread cmd (pending_waiting old) (pending_waiting pending))
    · refine ⟨tracked.known one (List.mem_append_left _ linked), fun taken => ?_, fun other waits => ?_⟩
      · exact (List.nodup_append.mp tracked.nodup).2.2 one linked one taken rfl
      · exact (tracked.pending other one (pendings other waits).2).2.2 (List.mem_append_left _ linked)
  simp only [Current] at stale
  simp only [nextQueue, nextEnqueue] at stepped
  cases isPlace : queue.place thread with
  | idle | checkCmd _ | testCmds _ | setLast _ =>
      rw [isPlace] at stale
      exact absurd trivial stale
  | setCmds cmd =>
      rw [isPlace] at stale stepped
      cases stepped
      have pending : (queue.place thread).pending = some cmd := by
        rw [isPlace]
        rfl
      have noNext := (tracked.waiting thread cmd (pending_waiting pending)).2
      obtain ⟨nonNull, -, outside⟩ := tracked.pending thread cmd pending
      have chain := tracked.chain
      cases cells with
      | nil => exact absurd chain stale
      | cons first rest =>
          -- The queued commands are cut off.
          obtain ⟨enqueued, waits, unpending⟩ :=
            @stored cmd first pending (List.mem_cons_of_mem cmd List.mem_cons_self)
          refine ⟨first, enqueued, waits, unpending, fun others leads member => ?_⟩
          have alone : Chain queue.next cmd [cmd] := ⟨rfl, nonNull, noNext⟩
          rw [leads.unique alone] at member
          rw [List.mem_singleton.mp member] at outside
          exact outside List.mem_cons_self
  | setNext cmd =>
      rw [isPlace] at stale stepped
      dsimp only at stepped
      split at stepped
      · cases stepped
      · rename_i lastNonNull
        cases stepped
        have pending : (queue.place thread).pending = some cmd := by
          rw [isPlace]
          rfl
        have noNext := (tracked.waiting thread cmd (pending_waiting pending)).2
        obtain ⟨nonNull, -, outside⟩ := tracked.pending thread cmd pending
        by_cases lastIn : queue.lastCmd ∈ cells
        · -- What stands behind `last_cmd` is cut off.
          obtain ⟨front, back, whole⟩ := List.append_of_mem lastIn
          cases back with
          | nil => exact absurd ⟨front, whole ▸ tracked.chain⟩ stale
          | cons second rest =>
              have nodup := (List.nodup_append.mp tracked.nodup).1
              rw [whole] at nodup
              obtain ⟨-, backNodup, apart⟩ := List.nodup_append.mp nodup
              have behind : second ∈ cells := by
                rw [whole]
                simp
              obtain ⟨enqueued, waits, unpending⟩ :=
                stored pending (List.mem_cons_of_mem cmd behind)
              refine ⟨second, enqueued, waits, unpending, fun others leads member => ?_⟩
              have different : cmd ≠ queue.lastCmd := fun same =>
                outside (List.mem_append_left _ (same ▸ lastIn))
              have absent : queue.lastCmd ∉ front := fun inFront =>
                apart _ inFront _ List.mem_cons_self rfl
              have chain := tracked.chain
              rw [whole] at chain
              have shorter : Chain (Function.update queue.next queue.lastCmd cmd) queue.cmds
                  (front ++ queue.lastCmd :: [cmd]) := by
                apply chain.link absent
                · intro one inFront
                  apply Function.update_of_ne
                  rintro rfl
                  exact absent inFront
                · rw [Function.update_self]
                  exact ⟨rfl, nonNull, (Function.update_of_ne different _ _).trans noNext⟩
              rw [leads.unique shorter] at member
              rcases List.mem_append.mp member with inFront | inBack
              · exact apart second inFront second (List.mem_cons_of_mem _ List.mem_cons_self) rfl
              · rcases List.mem_cons.mp inBack with isLast | isCmd
                · exact (List.nodup_cons.mp backNodup).1 (isLast ▸ List.mem_cons_self)
                · rw [List.mem_singleton.mp isCmd] at behind
                  exact outside (List.mem_append_left _ behind)
        · -- No link leads to `last_cmd`.
          obtain ⟨enqueued, waits, unpending⟩ := @stored cmd cmd pending List.mem_cons_self
          refine ⟨cmd, enqueued, waits, unpending, fun others leads member => ?_⟩
          rw [leads.unique (tracked.chain.update lastIn cmd)] at member
          exact outside (List.mem_append_left _ member)

end Tracked

/-- As long as every store of a run finds what its test saw, no command is lost; the first store
that does not loses one. -/
theorem diskQueue_lossless (reachable : (machine.restrict Current).Reachable queue) :
    queue.Lossless ∧ ∀ turn after, queue.nextQueue turn = some after →
      ((∀ cmd, ¬ after.Lost cmd) ↔ queue.Current turn) := by
  have tracked : ∃ cells, Tracked queue cells := by
    apply (machine.restrict Current).invariant (fun _ start => ⟨[], Tracked.of_start start⟩) _ reachable
    rintro before label after ⟨cells, tracked⟩ ⟨current, stepped⟩
    exact tracked.step current stepped
  obtain ⟨cells, tracked⟩ := tracked
  refine ⟨tracked.lossless, fun turn after stepped => ⟨fun kept => ?_, fun current => ?_⟩⟩
  · by_contra stale
    obtain ⟨cmd, lost⟩ := tracked.lost_of_stale stale stepped
    exact kept cmd lost
  · obtain ⟨cells', tracked'⟩ := tracked.step current stepped
    exact tracked'.not_lost

def emptyQueue : DiskQueue where
  cmds := 0
  lastCmd := 0
  next _ := 0
  cmdType _ := .read
  place _ := .idle
  diskPlace := .getCmd
  called := []
  enqueued := []
  dequeued := []

theorem emptyQueue_start : Start emptyQueue :=
  ⟨rfl, rfl, fun _ => rfl, fun _ => rfl, rfl, rfl, rfl, rfl⟩

def currentSingle (queue : DiskQueue) : QueueTurn → Bool
  | .enqueue thread =>
      match queue.place thread with
      | .setCmds _ => queue.cmds = 0
      | .setNext _ =>
          queue.cmds = queue.lastCmd ∧ queue.lastCmd ≠ 0 ∧ queue.next queue.lastCmd = 0
      | _ => true
  | .call _ _ | .dequeue => true

theorem current_of_single (single : queue.currentSingle turn = true) : queue.Current turn := by
  unfold currentSingle at single
  unfold Current
  cases turn with
  | call _ _ | dequeue => trivial
  | enqueue thread =>
      dsimp only at single ⊢
      cases isPlace : queue.place thread with
      | idle | checkCmd _ | testCmds _ | setLast _ => trivial
      | setCmds cmd =>
          rw [isPlace] at single
          exact of_decide_eq_true single
      | setNext cmd =>
          rw [isPlace] at single
          obtain ⟨alone, nonNull, ends⟩ := of_decide_eq_true single
          exact ⟨[], alone, nonNull, ends⟩

def nextSingle (queue : DiskQueue) (turn : QueueTurn) : Option DiskQueue :=
  if queue.currentSingle turn then queue.nextQueue turn else none

theorem step_of_single (defined : queue.nextSingle turn = some after) :
    (machine.restrict Current).step queue turn after := by
  unfold nextSingle at defined
  split at defined
  · rename_i single
    exact ⟨current_of_single single, defined⟩
  · cases defined

/-- A thread enqueues two commands and the disk thread takes the first. -/
theorem diskQueue_lossless_two : ∃ queue, (machine.restrict Current).Reachable queue ∧
    queue.cmds = 32 ∧ queue.lastCmd = 32 ∧ queue.enqueued = [32, 16] ∧ queue.dequeued = [16] ∧
    queue.Lossless := by
  have ran : (Machine.follow nextSingle emptyQueue
      [.call 0 16, .enqueue 0, .enqueue 0, .enqueue 0, .enqueue 0, .call 1 32, .enqueue 1,
        .enqueue 1, .enqueue 1, .enqueue 1, .dequeue, .dequeue, .dequeue, .dequeue]).map
      (fun queue => (queue.cmds, queue.lastCmd, queue.enqueued, queue.dequeued)) =
      some (32, 32, [32, 16], [16]) := by decide +kernel
  obtain ⟨queue, followed, fields⟩ := Option.map_eq_some_iff.mp ran
  have reachable := (machine.restrict Current).follow_reachable (fun _ _ _ => step_of_single)
    ((machine.restrict Current).reachable_start emptyQueue_start) followed
  simp only [Prod.mk.injEq] at fields
  obtain ⟨cmds, lastCmd, enqueued, dequeued⟩ := fields
  exact ⟨queue, reachable, cmds, lastCmd, enqueued, dequeued, (diskQueue_lossless reachable).1⟩

def crossing : List QueueTurn :=
  [.call 0 16, .call 1 32, .enqueue 0, .enqueue 0, .enqueue 1, .enqueue 1, .enqueue 0, .enqueue 0,
    .enqueue 1, .enqueue 1]

theorem crossing_loses : ∃ queue, machine.Reachable queue ∧
    (∀ thread, queue.place thread = .idle) ∧ queue.enqueued = [32, 16] ∧ queue.dequeued = [] ∧
    Chain queue.next queue.cmds [32] ∧ ¬ queue.Lossless := by
  obtain ⟨queue, followed, idle, enqueued, dequeued, chain⟩ : ∃ queue, Machine.follow nextQueue emptyQueue crossing = some queue ∧
      (∀ thread, queue.place thread = .idle) ∧ queue.enqueued = [32, 16] ∧ queue.dequeued = [] ∧
      Chain queue.next queue.cmds [32] := by
    refine ⟨_, rfl, fun thread => ?_, rfl, rfl, rfl, by decide, rfl⟩
    by_cases first : thread = 0
    · rw [first]
      rfl
    · by_cases second : thread = 1
      · rw [second]
        rfl
      · simp only [DiskQueue.move, Function.update_of_ne first, Function.update_of_ne second,
          emptyQueue]
  refine ⟨queue, machine.follow_reachable (fun _ _ _ stepped => stepped)
    (machine.reachable_start emptyQueue_start) followed, idle, enqueued, dequeued, chain, ?_⟩
  rintro ⟨-, between⟩
  obtain ⟨cells, leads, -, whole⟩ := between idle
  have first : 16 ∈ queue.enqueued := by
    rw [enqueued]
    decide
  have waits : 16 ∉ queue.dequeued := by
    rw [dequeued]
    decide
  have inList := whole 16 first waits
  rw [leads.unique chain] at inList
  revert inList
  decide

end DiskQueue

end DoggOS.Dev

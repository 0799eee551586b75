/-
Locks of threads that the scheduler waits for.

The queue functions of the scheduler are also called by threads, which the timer
can preempt while they hold a lock; then the scheduler spins on a lock that
nobody releases.  The statements of a thread release every lock before it gives
up the core, so where the timer spares the lock holders no thread holds one of
the three locks while the scheduler runs.
-/

import DoggOS.Proc.Preemption

namespace DoggOS.Proc

namespace Statement

def needs : Statement → Option SpinLock
  | .spinUnlock lock => if lock = .threadPool then none else some lock
  | .linkReady _ => some .ready
  | .pickReady => some .ready
  | .linkWaiting _ => some .condWait
  | .takeWaiting => some .condWait
  | .linkDeleted _ => some .deleteList
  | .takeDeleted => some .deleteList
  | _ => none

def leaves : Statement → Option SpinLock
  | .spinLock lock => if lock = .threadPool then none else some lock
  | _ => none

end Statement

def Guarded : Option SpinLock → List Statement → Prop
  | held, [] => held = none
  | held, statement :: rest => held = statement.needs ∧ Guarded statement.leaves rest

namespace PreemptiveCore

/-- The scheduler spins on a lock of its lists that a thread holds. -/
def Deadlocked (state : PreemptiveCore) : Prop :=
  state.running = none ∧ ∃ lock rest thread, lock ≠ .threadPool ∧
    state.code none = .spinLock lock :: rest ∧ state.locks lock = some (some thread)

/-- The timer does not preempt a thread that holds a lock of the scheduler's lists. -/
def SparesHolders (state : PreemptiveCore) : Turn → Prop
  | .timer => ∀ lock, lock ≠ .threadPool → state.locks lock ≠ some state.running
  | _ => True

def Owns (state : PreemptiveCore) (thread : Nat) (held : Option SpinLock) : Prop :=
  ∀ lock, lock ≠ .threadPool → (state.locks lock = some (some thread) ↔ held = some lock)

structure Disciplined (state : PreemptiveCore) : Prop where
  threads : ∀ thread, ∃ held, Guarded held (state.code (some thread)) ∧ state.Owns thread held
  running : ∀ thread lock, lock ≠ .threadPool → state.locks lock = some (some thread) →
    state.running = some thread

variable {state after : PreemptiveCore} {statement : Statement} {rest : List Statement}

theorem guarded_ne_threadPool {held : Option SpinLock} (guarded : Guarded held rest) :
    held ≠ some .threadPool := by
  cases rest with
  | nil =>
      rw [show held = none from guarded]
      exact nofun
  | cons statement rest =>
      rw [guarded.1]
      cases statement with
      | spinUnlock lock => cases lock <;> simp [Statement.needs]
      | _ => simp [Statement.needs]

def heldNow (state : PreemptiveCore) (statement : Statement) : Option SpinLock :=
  match statement with
  | .spinLock lock => if state.locks lock = none then statement.leaves else none
  | .spinUnlock _ => none
  | _ => statement.needs

theorem execute_guarded (guarded : Guarded statement.leaves rest) :
    Guarded (state.heldNow statement) ((state.execute statement).2 ++ rest) := by
  cases statement with
  | spinLock lock =>
      simp only [heldNow, execute]
      by_cases free : state.locks lock = none
      · rw [if_pos free, if_pos free]
        exact guarded
      · rw [if_neg free, if_neg free]
        exact ⟨rfl, guarded⟩
  | spinUnlock lock => exact guarded
  | _ =>
      simp only [execute, heldNow]
      repeat' split
      all_goals simp_all [Guarded, Statement.needs, Statement.leaves]

/-- A statement takes a free lock for the running party, or gives one up, or leaves it alone. -/
theorem execute_locks {lock : SpinLock} (listLock : lock ≠ .threadPool) :
    (state.execute statement).1.locks lock =
      if statement = .spinLock lock ∧ state.locks lock = none then some state.running
      else if statement = .spinUnlock lock then none else state.locks lock := by
  cases statement with
  | spinLock other =>
      by_cases same : other = lock
      · rw [same]
        simp only [execute]
        split <;> simp_all [setLock]
      · simp only [execute]
        split <;> simp [setLock, same, Ne.symm same]
  | spinUnlock other =>
      by_cases same : other = lock
      · simp [execute, setLock, same]
      · simp [execute, setLock, same, Ne.symm same]
  | _ =>
      simp only [execute]
      repeat' split
      all_goals simp_all [setLock, withCore]

theorem execute_code (party : Option Nat) :
    (state.execute statement).1.code party = state.code party ∨
      party ≠ none ∧ (state.execute statement).1.code party = [] := by
  cases statement with
  | initThread thread =>
      by_cases same : party = some thread
      · rw [same]
        exact .inr ⟨nofun, Function.update_self _ _ _⟩
      · exact .inl (Function.update_of_ne same _ _)
  | _ =>
      left
      simp only [execute]
      repeat' split
      all_goals rfl

/-- The core changes hands only in two statements. -/
theorem execute_running :
    (state.execute statement).1.running = state.running ∨ statement = .yieldThread ∨
      ∃ thread, statement = .runThread thread := by
  cases statement with
  | yieldThread => exact .inr (.inl rfl)
  | runThread thread => exact .inr (.inr ⟨thread, rfl⟩)
  | _ =>
      left
      simp only [execute]
      repeat' split
      all_goals rfl

theorem heldNow_iff {lock : SpinLock} (listLock : lock ≠ .threadPool) :
    state.heldNow statement = some lock ↔
      (statement = .spinLock lock ∧ state.locks lock = none) ∨
        (statement ≠ .spinUnlock lock ∧ statement.needs = some lock) := by
  cases statement with
  | spinLock other =>
      simp only [heldNow, Statement.leaves, Statement.needs]
      by_cases same : other = lock
      · rw [same]
        simp [listLock]
      · simp only [Statement.spinLock.injEq, same, false_and, reduceCtorEq, and_false, or_false]
        split <;> simp [same]
  | spinUnlock other =>
      simp only [heldNow, Statement.needs]
      by_cases same : other = lock
      · simp [same]
      · simp [same]
  | _ => simp [heldNow]

section Steps

/-- A party that does not run holds no list lock after a statement of another one. -/
theorem execute_notOwner (disciplined : state.Disciplined) {thread : Nat}
    (other : state.running ≠ some thread) {lock : SpinLock} (listLock : lock ≠ .threadPool) :
    (state.execute statement).1.locks lock ≠ some (some thread) := by
  rw [execute_locks listLock]
  intro owned
  split at owned
  · exact other (Option.some.inj owned)
  · split at owned
    · cases owned
    · exact other (disciplined.running thread lock listLock owned)

theorem unlocked_guarded (disciplined : state.Disciplined) {thread : Nat}
    (other : state.running ≠ some thread) : Guarded none (state.code (some thread)) := by
  obtain ⟨held, guarded, owns⟩ := disciplined.threads thread
  cases held with
  | none => exact guarded
  | some lock =>
      have listLock : lock ≠ .threadPool := by
        intro pool
        exact guarded_ne_threadPool guarded (congrArg some pool)
      exact absurd (disciplined.running thread lock listLock ((owns lock listLock).mpr rfl)) other

theorem execute_owns {thread : Nat} (running : state.running = some thread)
    (owns : state.Owns thread statement.needs) :
    (state.execute statement).1.Owns thread (state.heldNow statement) := by
  intro lock listLock
  rw [execute_locks listLock, heldNow_iff listLock, running]
  have before := owns lock listLock
  by_cases taken : statement = .spinLock lock ∧ state.locks lock = none
  · rw [if_pos taken]
    simp [taken]
  · rw [if_neg taken]
    by_cases given : statement = .spinUnlock lock
    · rw [if_pos given]
      simp [given]
    · rw [if_neg given, before]
      simp [taken, given]

theorem next_disciplined (disciplined : state.Disciplined) (stepped : state.next = some after) :
    after.Disciplined := by
  unfold next at stepped
  cases run : state.code state.running with
  | nil =>
      rw [run] at stepped
      cases stepped
  | cons statement rest =>
      rw [run] at stepped
      cases stepped
      constructor
      · intro thread
        by_cases running : state.running = some thread
        · obtain ⟨held, guarded, owns⟩ := disciplined.threads thread
          rw [← running, run] at guarded
          obtain ⟨needed, guarded⟩ := guarded
          rw [needed] at owns
          refine ⟨state.heldNow statement, ?_, execute_owns running owns⟩
          change Guarded _ (Function.update (state.execute statement).1.code state.running
            ((state.execute statement).2 ++ rest) (some thread))
          rw [← running, Function.update_self]
          exact execute_guarded guarded
        · refine ⟨none, ?_, ?_⟩
          · change Guarded none (Function.update (state.execute statement).1.code state.running
              ((state.execute statement).2 ++ rest) (some thread))
            rw [Function.update_of_ne (Ne.symm running)]
            rcases execute_code (some thread) with same | ⟨_, empty⟩
            · rw [same]
              exact unlocked_guarded disciplined running
            · rw [empty]
              rfl
          · intro lock listLock
            constructor
            · intro owned
              exact absurd owned (execute_notOwner disciplined running listLock)
            · intro impossible
              cases impossible
      · intro thread lock listLock owned
        by_cases running : state.running = some thread
        · rcases execute_running with same | changed
          · exact same.trans running
          · obtain ⟨held, guarded, owns⟩ := disciplined.threads thread
            rw [← running, run] at guarded
            rw [guarded.1] at owns
            change (state.execute statement).1.locks lock = _ at owned
            have nothing := (execute_owns running owns lock listLock).mp owned
            rcases changed with yields | ⟨next, runs⟩
            · rw [yields] at nothing
              cases nothing
            · rw [runs] at nothing
              cases nothing
        · exact absurd owned (execute_notOwner disciplined running listLock)

theorem begin_disciplined {call : ThreadCall} (disciplined : state.Disciplined)
    (begun : state.begin call = some after) : after.Disciplined := by
  unfold begin at begun
  cases running : state.running with
  | none =>
      rw [running] at begun
      cases begun
  | some thread =>
      rw [running] at begun
      simp only at begun
      split at begun
      · rename_i idle
        cases begun
        constructor
        · intro other
          obtain ⟨held, guarded, owns⟩ := disciplined.threads other
          refine ⟨held, ?_, owns⟩
          change Guarded held (Function.update state.code (some thread) [statementOf call] (some other))
          by_cases same : other = thread
          · rw [same, Function.update_self]
            rw [same, idle] at guarded
            rw [show held = none from guarded]
            cases call with
            | _ => exact ⟨rfl, rfl⟩
          · rw [Function.update_of_ne (fun equal => same (Option.some.inj equal))]
            exact guarded
        · intro other lock listLock owned
          exact running.symm.trans (disciplined.running other lock listLock owned)
      · cases begun

theorem preempt_disciplined (disciplined : state.Disciplined)
    (spares : ∀ lock, lock ≠ .threadPool → state.locks lock ≠ some state.running)
    (preempted : state.preempt = some after) : after.Disciplined := by
  unfold preempt at preempted
  cases running : state.running with
  | none =>
      rw [running] at preempted
      cases preempted
  | some thread =>
      rw [running] at preempted
      cases preempted
      constructor
      · exact disciplined.threads
      · intro other lock listLock owned
        have owner := disciplined.running other lock listLock owned
        have held : state.locks lock = some state.running := by
          rw [owner]
          exact owned
        exact absurd held (spares lock listLock)

end Steps

theorem Start.disciplined (start : state.Start) : state.Disciplined := by
  constructor
  · intro thread
    refine ⟨none, ?_, ?_⟩
    · rcases start.threads thread with idle | cleanup
      · rw [idle]
        rfl
      · rw [cleanup]
        exact ⟨rfl, rfl⟩
    · intro lock _
      rw [start.free lock]
      constructor
      · intro impossible
        cases impossible
      · intro impossible
        cases impossible
  · intro thread lock _ owned
    rw [start.free lock] at owned
    cases owned

theorem reachable_disciplined (reachable : (machine.restrict SparesHolders).Reachable state) :
    state.Disciplined := by
  apply (machine.restrict SparesHolders).invariant _ _ reachable
  · intro first initial
    exact Start.disciplined initial
  · intro before turn after disciplined step
    obtain ⟨spares, step⟩ := step
    cases turn with
    | statement => exact next_disciplined disciplined step
    | call call => exact begin_disciplined disciplined step
    | timer => exact preempt_disciplined disciplined spares step

/-- The scheduler never waits for a lock holder where the timer spares them. -/
theorem scheduler_notDeadlocked (reachable : (machine.restrict SparesHolders).Reachable state) :
    ¬ state.Deadlocked := by
  intro deadlocked
  obtain ⟨scheduler, lock, rest, thread, listLock, _, owned⟩ := deadlocked
  have running := (reachable_disciplined reachable).running thread lock listLock owned
  rw [scheduler] at running
  cases running

def follow (state : PreemptiveCore) : List Turn → Option PreemptiveCore
  | [] => some state
  | turn :: turns => (state.after turn).bind fun state => follow state turns

theorem follow_reachable {turns : List Turn} {last : PreemptiveCore}
    (reachable : machine.Reachable state) (followed : state.follow turns = some last) :
    machine.Reachable last := by
  induction turns generalizing state with
  | nil =>
      cases followed
      exact reachable
  | cons turn turns ih =>
      obtain ⟨next, step, rest⟩ := Option.bind_eq_some_iff.mp followed
      exact ih (machine.reachable_step reachable step) rest

theorem follow_reachable_untimed {turns : List Turn} {last : PreemptiveCore}
    (untimed : ∀ turn ∈ turns, turn ≠ .timer)
    (reachable : (machine.restrict SparesHolders).Reachable state)
    (followed : state.follow turns = some last) :
    (machine.restrict SparesHolders).Reachable last := by
  induction turns generalizing state with
  | nil =>
      cases followed
      exact reachable
  | cons turn turns ih =>
      obtain ⟨next, step, rest⟩ := Option.bind_eq_some_iff.mp followed
      have spares : state.SparesHolders turn := by
        cases turn with
        | timer => exact absurd rfl (untimed .timer (List.mem_cons_self))
        | statement => trivial
        | call call => trivial
      exact ih (fun turn member => untimed turn (List.mem_cons_of_mem _ member))
        ((machine.restrict SparesHolders).reachable_step reachable ⟨spares, step⟩) rest

section Example

def oneReady : PreemptiveCore where
  core :=
    { queueNext := fun _ => 0
      state := fun _ => .ready
      flags := fun _ => 0
      returnData := fun _ => 0
      waitConditions := fun _ => 0
      conditions := fun _ => 0
      waitFrames := fun _ => none
      readyThreads := threadSlot 4096 1
      lastReadyThread := threadSlot 4096 1
      condWaitThreads := 0
      condWaitLastThread := 0
      deleteList := 0
      poolThreads := threadSlot 4096 2
      poolPages := [4096]
      cleanupThread := threadSlot 4096 0
      control := .scheduler
      created := [threadSlot 4096 1, threadSlot 4096 0]
      queued := []
      ran := [] }
  locks := fun _ => none
  running := none
  code := fun party => if party = none then [.schedule]
    else if party = some (threadSlot 4096 0) then [.cleanup] else []

theorem oneReady_start : oneReady.Start := by
  constructor
  · intro _
    rfl
  · rfl
  · rfl
  · intro thread
    by_cases cleanup : thread = threadSlot 4096 0
    · exact .inr (by simp [oneReady, cleanup])
    · exact .inl (by simp [oneReady, cleanup])

def upToInit : List Turn :=
  List.replicate 18 .statement ++ [.call (.createThread ⟨1, 1, 1⟩ 8192)] ++
    List.replicate 4 .statement

/-- The timer preempts it there; it runs again and holds the lock of the ready list. -/
theorem scheduler_notDeadlocked_resumed : ∃ before between last,
    oneReady.follow upToInit = some before ∧ before.preempt = some between ∧
      between.follow (List.replicate 27 .statement) = some last ∧
      (machine.restrict SparesHolders).Reachable last ∧
      last.locks .ready = some (some (threadSlot 4096 1)) ∧ ¬ last.Deadlocked := by
  have outcome : ((oneReady.follow upToInit).bind fun before => before.preempt.bind fun between =>
      (between.follow (List.replicate 27 .statement)).map fun last =>
        (before.locks .ready, before.locks .condWait, before.locks .deleteList,
          last.locks .ready)) =
        some (none, none, none, some (some (threadSlot 4096 1))) := by
    decide +kernel
  obtain ⟨before, first, outcome⟩ := Option.bind_eq_some_iff.mp outcome
  obtain ⟨between, preempted, outcome⟩ := Option.bind_eq_some_iff.mp outcome
  obtain ⟨last, second, found⟩ := Option.map_eq_some_iff.mp outcome
  simp only [Prod.mk.injEq] at found
  obtain ⟨ready, condWait, deleteList, owned⟩ := found
  have spares : before.SparesHolders .timer := by
    intro lock listLock
    cases lock with
    | ready => simp [ready]
    | condWait => simp [condWait]
    | deleteList => simp [deleteList]
    | threadPool => exact absurd rfl listLock
  have reached := follow_reachable_untimed (by decide)
    ((machine.restrict SparesHolders).reachable_start oneReady_start) first
  have timed := (machine.restrict SparesHolders).reachable_step reached
    (show (machine.restrict SparesHolders).step before .timer between from ⟨spares, preempted⟩)
  have reachable := follow_reachable_untimed (by decide) timed second
  exact ⟨before, between, last, first, preempted, second, reachable, owned,
    scheduler_notDeadlocked reachable⟩

def upToLock : List Turn := upToInit ++ List.replicate 3 .statement

/-- The timer preempts the thread there, and the scheduler waits for the lock. -/
theorem scheduler_deadlocked : ∃ last, machine.Reachable last ∧ last.Deadlocked := by
  have outcome : (oneReady.follow (upToLock ++ [.timer, .statement, .statement])).map
      (fun state => (state.running, (state.code none).head?, state.locks .ready)) =
        some (none, some (.spinLock .ready), some (some (threadSlot 4096 1))) := by
    decide +kernel
  obtain ⟨last, followed, found⟩ := Option.map_eq_some_iff.mp outcome
  simp only [Prod.mk.injEq] at found
  obtain ⟨running, first, owned⟩ := found
  have reachable := follow_reachable (machine.reachable_start oneReady_start) followed
  obtain ⟨rest, code⟩ := List.head?_eq_some_iff.mp first
  exact ⟨last, reachable, running, .ready, rest, _, by decide, code, owned⟩

end Example

end PreemptiveCore

end DoggOS.Proc

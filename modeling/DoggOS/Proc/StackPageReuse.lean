/-
A stack page that is obtained again before its thread is destroyed.

Whoever has the page loses it when the thread is destroyed.  The calls of a run
can be computed, all but the writes of the threads: in one run a process ends,
the next pages that are asked for are its old ones, and the destruction of its
main thread takes the last of them away again.
-/

import DoggOS.Proc.ProcessTeardownRuns

namespace DoggOS.Proc

open DoggOS.Mem

namespace PageWorld

def next (layout : KernelLayout) (before : PageWorld) : PageCall → Option PageWorld
  | .alloc flags => some (before.obtain flags .other).2
  | .write _ => none
  | .load pid =>
      match before.stage pid with
      | .unused => some (before.load pid [])
      | .loading pages => some (before.load pid pages)
      | _ => none
  | .create pid image =>
      match before.stage pid with
      | .loading pages =>
          if IsExecutable image then
            match createProcess (fun k => pages.getD k 0) layout image before.mem,
              ringStackPage (fun k => pages.getD k 0) layout image before.mem with
            | some (pageMap, process), some stack =>
                if process.obtained = pages.length then
                  some ({ before with mem := process.mem }.setStage pid
                    (.live pages pageMap (if (elfHeader image).entry ≠ 0 then some stack else none)))
                else none
            | _, _ => none
          else none
      | _ => none
  | .terminate pid =>
      match before.stage pid with
      | .live pages pageMap (some stack) =>
          some (before.setStage pid (.ending pages stack (terminateCalls before.mem pageMap)))
      | _ => none
  | .release pid =>
      match before.stage pid with
      | .ending pages stack (page :: calls) =>
          (before.release pid 1 page).map fun released =>
            released.setStage pid (.ending pages stack calls)
      | _ => none
  | .destroy pid =>
      match before.stage pid with
      | .ending pages stack [] =>
          (before.release pid 1 stack).map fun released => released.setStage pid (.destroyed pages)
      | _ => none

variable {layout : KernelLayout} {world before after last : PageWorld} {pid : Nat}
  {call : PageCall}

/-- The thread's old stack page is taken from whoever obtained it since. -/
theorem Owned.destroy_takes (owned : before.Owned) {pages : List Nat} {stack : Nat}
    {who : PageOwner} (ending : before.stage pid = .ending pages stack [])
    (isOwner : before.owner stack = some who) (foreign : who ≠ .process pid)
    (ends : before.list.EndsAt (pageOf stack)) (step : before.Step layout (.destroy pid) after) :
    ⟨pid, stack, some who⟩ ∈ after.log ∧ ¬ after.ReleasesOwn := by
  obtain ⟨theirs, theirStack, fuel, released, same, ran, rfl⟩ := step
  obtain ⟨-, rfl, -⟩ := Stage.ending.inj (ending.symm.trans same)
  obtain ⟨result, ranResult, -, -, -, log, -⟩ :=
    owned.release_held (owned.held stack who isOwner) ends pid
  obtain rfl := Option.some.inj ((ranResult fuel).symm.trans ran)
  have logged : (⟨pid, stack, some who⟩ : Release) ∈ result.log := by
    rw [log, isOwner]
    exact List.mem_append_right _ (List.mem_singleton_self _)
  exact ⟨logged, fun own => foreign (own.foreign _ logged who rfl)⟩

theorem next_step (ran : before.next layout call = some after) : before.Step layout call after := by
  cases call with
  | alloc flags => exact (Option.some.inj ran).symm
  | write mem => cases ran
  | load pid =>
      unfold next at ran
      dsimp only at ran
      split at ran
      · next unused => exact ⟨[], .inl ⟨unused, rfl⟩, (Option.some.inj ran).symm⟩
      · next pages loading => exact ⟨pages, .inr loading, (Option.some.inj ran).symm⟩
      · cases ran
  | create pid image =>
      unfold next at ran
      dsimp only at ran
      split at ran
      · next pages loading =>
          split at ran
          · next executable =>
              split at ran
              · next pageMap process stack created isStack =>
                  split at ran
                  · next all => exact ⟨pages, pageMap, process, stack, loading, executable, created,
                      all, isStack, (Option.some.inj ran).symm⟩
                  · cases ran
              · cases ran
          · cases ran
      · cases ran
  | terminate pid =>
      unfold next at ran
      dsimp only at ran
      split at ran
      · next pages pageMap stack live =>
          exact ⟨pages, pageMap, stack, live, (Option.some.inj ran).symm⟩
      · cases ran
  | release pid =>
      unfold next at ran
      dsimp only at ran
      split at ran
      · next pages stack page calls ending =>
          obtain ⟨released, freed, rfl⟩ := Option.map_eq_some_iff.mp ran
          exact ⟨pages, stack, page, calls, 0, released, ending, freed, rfl⟩
      · cases ran
  | destroy pid =>
      unfold next at ran
      dsimp only at ran
      split at ran
      · next pages stack ending =>
          obtain ⟨released, freed, rfl⟩ := Option.map_eq_some_iff.mp ran
          exact ⟨pages, stack, 0, released, ending, freed, rfl⟩
      · cases ran

/-! ### Runs of one process -/

def calm (list : PRList) : Bool :=
  list.ranges.all fun range => (List.range range.pageCount).all fun index =>
    decide (range.flags list.mem index % 4 = 3 → range.flags list.mem (index + 1) % 4 ≠ 1)

def spares (world : PageWorld) (pid : Nat) : Bool :=
  match world.stage pid with
  | .ending _ stack _ => decide (stack ∉ world.list.tops)
  | _ => true

def safe (world : PageWorld) (pid : Nat) : PageCall → Bool
  | .alloc _ => world.spares pid
  | .write _ => false
  | .load other => decide (other = pid) && world.spares pid && decide (freePages world.list ≠ [])
  | .create other _ => decide (other = pid)
  | .terminate other => decide (other = pid)
  | .release other => decide (other = pid) && calm world.list
  | .destroy other => decide (other = pid) && calm world.list

def Alone (world : PageWorld) (pid : Nat) : Prop := ∀ other, other ≠ pid → world.stage other = .unused

theorem calm_endsAt {list : PRList} (isCalm : calm list = true) (page : Nat) : list.EndsAt page := by
  intro range member index inRange _
  have ofRange := List.all_eq_true.mp isCalm range member
  exact of_decide_eq_true (List.all_eq_true.mp ofRange index (List.mem_range.mpr inRange))

theorem Alone.sparesStacks (alone : world.Alone pid) (isSpared : world.spares pid = true) :
    world.SparesStacks := by
  intro other pages stack calls ending
  by_cases here : other = pid
  · subst here
    unfold spares at isSpared
    rw [ending] at isSpared
    exact of_decide_eq_true isSpared
  · rw [alone other here] at ending
    cases ending

theorem Alone.safeCall (alone : world.Alone pid) (isSafe : world.safe pid call = true) :
    SafeCall world call := by
  cases call with
  | alloc flags => exact alone.sparesStacks isSafe
  | write mem => cases isSafe
  | load other =>
      obtain ⟨first, some⟩ := Bool.and_eq_true_iff.mp isSafe
      obtain ⟨-, isSpared⟩ := Bool.and_eq_true_iff.mp first
      obtain ⟨page, member⟩ := List.exists_mem_of_ne_nil _ (of_decide_eq_true some)
      exact ⟨alone.sparesStacks isSpared, page, mem_freePages.mp member⟩
  | create other image => exact trivial
  | terminate other => exact trivial
  | release other =>
      have isCalm := (Bool.and_eq_true_iff.mp isSafe).2
      exact fun _ _ page _ _ => calm_endsAt isCalm (pageOf page)
  | destroy other =>
      have isCalm := (Bool.and_eq_true_iff.mp isSafe).2
      exact fun _ stack _ _ => calm_endsAt isCalm (pageOf stack)

theorem release_stage {fuel page : Nat} {released : PageWorld}
    (ran : world.release pid fuel page = some released) : released.stage = world.stage := by
  obtain ⟨list, -, rfl⟩ := Option.map_eq_some_iff.mp ran
  rfl

theorem Alone.setStage (alone : before.Alone pid) (same : after.stage = before.stage)
    (stage : Stage) : (after.setStage pid stage).Alone pid := by
  intro other elsewhere
  have kept : (after.setStage pid stage).stage other = after.stage other :=
    Function.update_of_ne elsewhere _ _
  rw [kept, same]
  exact alone other elsewhere

theorem Alone.step (alone : before.Alone pid) (isSafe : before.safe pid call = true)
    (step : before.Step layout call after) : after.Alone pid := by
  cases call with
  | alloc flags =>
      have same : after = (before.obtain flags .other).2 := step
      exact same ▸ alone
  | write mem => cases isSafe
  | load other =>
      obtain ⟨first, -⟩ := Bool.and_eq_true_iff.mp isSafe
      obtain rfl := of_decide_eq_true (Bool.and_eq_true_iff.mp first).1
      obtain ⟨pages, -, rfl⟩ := step
      exact alone.setStage rfl _
  | create other image =>
      obtain rfl := of_decide_eq_true isSafe
      obtain ⟨pages, pageMap, process, stack, -, -, -, -, -, rfl⟩ := step
      exact alone.setStage rfl _
  | terminate other =>
      obtain rfl := of_decide_eq_true isSafe
      obtain ⟨pages, pageMap, stack, -, rfl⟩ := step
      exact alone.setStage rfl _
  | release other =>
      obtain rfl := of_decide_eq_true (Bool.and_eq_true_iff.mp isSafe).1
      obtain ⟨pages, stack, page, calls, fuel, released, -, ran, rfl⟩ := step
      exact alone.setStage (release_stage ran) _
  | destroy other =>
      obtain rfl := of_decide_eq_true (Bool.and_eq_true_iff.mp isSafe).1
      obtain ⟨pages, stack, fuel, released, -, ran, rfl⟩ := step
      exact alone.setStage (release_stage ran) _

def nextSafe (layout : KernelLayout) (pid : Nat) (before : PageWorld) (call : PageCall) :
    Option PageWorld :=
  if before.safe pid call = true then before.next layout call else none

theorem Alone.reachable_follow (alone : world.Alone pid)
    (reachable : ((teardownMachine layout).restrict SafeCall).Reachable world)
    {calls : List PageCall}
    (followed : Machine.follow (nextSafe layout pid) world calls = some last) :
    ((teardownMachine layout).restrict SafeCall).Reachable last := by
  induction calls generalizing world with
  | nil =>
      cases followed
      exact reachable
  | cons call rest ih =>
      obtain ⟨middle, ran, followedRest⟩ := Option.bind_eq_some_iff.mp followed
      unfold nextSafe at ran
      by_cases isSafe : world.safe pid call = true
      · rw [if_pos isSafe] at ran
        have step := next_step ran
        exact ih (alone.step isSafe step)
          (Machine.reachable_step _ reachable ⟨alone.safeCall isSafe, step⟩) followedRest
      · rw [if_neg isSafe] at ran
        cases ran

end PageWorld

def bareElf : Bytes
  | 0 => 0x7f
  | 1 => 0x45
  | 2 => 0x4c
  | 3 => 0x46
  | 16 => 2
  | 24 => 1
  | 28 => 52
  | 42 => 32
  | _ => 0

def threePages : PageWorld where
  list := PRList.init [(0x100000, 0x3000)] 0 (fun _ => 0)
  mem := fun _ _ => 7
  owner := fun _ => none
  stage := fun _ => .unused
  log := []

/-- The life of a process, up to the end of `k_proc_TerminateProcess`. -/
def lifeOfOne : List PageCall :=
  [.load 1, .load 1, .load 1, .create 1 bareElf, .terminate 1, .release 1, .release 1, .release 1,
    .release 1, .release 1, .release 1]

theorem threePages_start : (teardownMachine sampleLayout).start threePages := by
  refine ⟨⟨_, _, _, rfl⟩, by decide, List.pairwise_singleton _ _, ?_, by decide, fun _ => rfl,
    fun _ => rfl, rfl⟩
  rintro page ⟨range, member, index, inRange, isPage⟩
  have base : range.baseAddress = 0x100000 := by
    rw [List.mem_singleton.mp member]
    rfl
  unfold PRange.pageAt at isPage
  unfold lowMemoryEnd
  omega

/-- A whole life of a process. -/
theorem teardown_releasesOwn_life :
    ∃ world : PageWorld, world.stage 1 = .destroyed [0x102000, 0x101000, 0x100000] ∧
      world.ReleasesOwn := by
  have ran : (Machine.follow (PageWorld.nextSafe sampleLayout 1) threePages
      (lifeOfOne ++ [.destroy 1])).map (fun world => world.stage 1) =
        some (.destroyed [0x102000, 0x101000, 0x100000]) := by decide +kernel
  obtain ⟨world, followed, destroyed⟩ := Option.map_eq_some_iff.mp ran
  have alone : threePages.Alone 1 := fun _ _ => rfl
  exact ⟨world, destroyed, teardown_releasesOwn sampleLayout world
    (alone.reachable_follow (Machine.reachable_start _ threePages_start) followed)⟩

/-- Three allocations between the end of the process and the end of its thread. -/
theorem teardown_takes_page : ¬ ∀ (layout : KernelLayout) (world : PageWorld),
    (teardownMachine layout).Reachable world → world.ReleasesOwn := by
  intro releasesOwn
  have ran : (Machine.follow (PageWorld.next sampleLayout) threePages
      (lifeOfOne ++ [.alloc 0, .alloc 0, .alloc 0, .destroy 1])).map
        (fun world => world.log.getLast?) =
      some (some ⟨1, 0x100000, some .other⟩) := by decide +kernel
  obtain ⟨world, followed, last⟩ := Option.map_eq_some_iff.mp ran
  have own := releasesOwn sampleLayout world (Machine.follow_reachable _
    (fun _ _ _ ran => PageWorld.next_step ran) (Machine.reachable_start _ threePages_start) followed)
  have taken := own.foreign _ (List.mem_of_getLast? last) _ rfl
  cases taken

end DoggOS.Proc

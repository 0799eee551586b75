/-
Every page of a process is given back once, as long as nobody takes its stack page.

A page of a process belongs to it until the first call that names it.  The only
page with a second call is the ring 0 stack: `k_proc_TerminateProcess` finds it
in the page map, `k_proc_DestroyThread` behind the kernel stack.  The second
call finds a free page and does nothing, unless the page was obtained by anyone
in between; then it is taken away from its new owner.
-/

import DoggOS.Proc.TeardownCalls

namespace DoggOS.Proc

open DoggOS.Mem

namespace PageWorld

variable {layout : KernelLayout} {world before after : PageWorld} {pid other page : Nat}
  {stage : Stage}

theorem mem_freePages {list : PRList} : page ∈ freePages list ↔ list.Free page :=
  List.mem_flatMap

structure Owned (world : PageWorld) : Prop where
  stacked : world.list.Stacked
  managed : ∀ page, world.list.Managed page → lowMemoryEnd ≤ page
  held : ∀ page owner, world.owner page = some owner → world.list.Held page

theorem Owned.free (owned : world.Owned) (free : world.list.Free page) :
    ¬ world.list.Held page ∧ lowMemoryEnd ≤ page ∧ page % 4096 = 0 ∧ page < 2 ^ 32 := by
  have managed := owned.stacked.free_managed free
  exact ⟨fun held => ((owned.stacked.held_iff page).mp held).2 free, owned.managed page managed,
    owned.stacked.managed_page managed⟩

theorem Owned.used (owned : world.Owned) (held : world.list.Held page) :
    lowMemoryEnd ≤ page ∧ page % 4096 = 0 ∧ page < 2 ^ 32 := by
  have managed := ((owned.stacked.held_iff page).mp held).1
  exact ⟨owned.managed page managed, owned.stacked.managed_page managed⟩

theorem Owned.obtain (owned : world.Owned) (flags : Nat) (who : PageOwner) :
    (world.obtain flags who).2.Owned ∧
      (∀ page, (world.obtain flags who).2.list.Free page ↔
        world.list.Free page ∧ page ∉ world.list.tops) ∧
      ∀ page owner, world.owner page = some owner →
        (world.obtain flags who).2.owner page = some owner := by
  obtain ⟨-, stacked, free, managed, -⟩ := owned.stacked.alloc flags
  have returned := owned.stacked.alloc_returns flags
  have stillHeld : ∀ page, world.list.Held page →
      (world.list.allocPhysicalPage flags).2.Held page := by
    intro page held
    obtain ⟨isManaged, notFree⟩ := (owned.stacked.held_iff page).mp held
    exact (stacked.held_iff page).mpr
      ⟨(managed page).mpr isManaged, fun still => notFree ((free page).mp still).1⟩
  have kept : ∀ page owner, world.owner page = some owner →
      (world.obtain flags who).2.owner page = some owner := by
    intro page owner isOwner
    unfold PageWorld.obtain
    dsimp only
    by_cases null : (world.list.allocPhysicalPage flags).1 = nullPage
    · rw [if_pos null]
      exact isOwner
    · rw [if_neg null, Function.update_of_ne]
      · exact isOwner
      · intro same
        exact (owned.free (PRList.free_of_top (returned.resolve_left null))).1
          (same ▸ owned.held page owner isOwner)
  refine ⟨⟨stacked, fun page isManaged => owned.managed page ((managed page).mp isManaged),
    fun page owner isOwner => ?_⟩, free, kept⟩
  unfold PageWorld.obtain at isOwner ⊢
  dsimp only at isOwner ⊢
  by_cases null : (world.list.allocPhysicalPage flags).1 = nullPage
  · rw [if_pos null] at isOwner
    exact stillHeld page (owned.held page owner isOwner)
  · rw [if_neg null] at isOwner
    by_cases here : page = (world.list.allocPhysicalPage flags).1
    · have top := returned.resolve_left null
      rw [here]
      exact (stacked.held_iff _).mpr ⟨(managed _).mpr
        (owned.stacked.free_managed (PRList.free_of_top top)), fun still => ((free _).mp still).2 top⟩
    · rw [Function.update_of_ne here] at isOwner
      exact stillHeld page (owned.held page owner isOwner)

theorem Owned.obtain_page (owned : world.Owned) (some : ∃ page, world.list.Free page) (flags : Nat)
    (who : PageOwner) :
    world.list.Free (world.obtain flags who).1 ∧
      (world.obtain flags who).2.owner (world.obtain flags who).1 = .some who := by
  have returned := (owned.stacked.alloc flags).1
  obtain ⟨free, range, member, listed⟩ := some
  have top : (world.list.allocPhysicalPage flags).1 ∈ world.list.tops := by
    rw [returned]
    rcases List.eq_nil_or_concat world.list.tops with none | ⟨front, last, split⟩
    · cases last : (range.freeList world.list.mem).getLast? with
      | none =>
          rw [List.getLast?_eq_none_iff.mp last] at listed
          cases listed
      | some top =>
          have isTop : top ∈ world.list.tops := List.mem_filterMap.mpr ⟨range, member, last⟩
          rw [none] at isTop
          cases isTop
    · rw [split]
      simp
  have isFree := PRList.free_of_top top
  refine ⟨isFree, ?_⟩
  have nonNull : (world.list.allocPhysicalPage flags).1 ≠ nullPage := by
    intro null
    have least := (owned.free isFree).2.1
    rw [null] at least
    exact absurd least (by decide)
  unfold PageWorld.obtain
  dsimp only
  rw [if_neg nonNull, Function.update_self]

/-- A call that names a page in use takes the page from its owner, and nothing else. -/
theorem Owned.release_held (owned : world.Owned) (held : world.list.Held page)
    (ends : world.list.EndsAt (pageOf page)) (pid : Nat) :
    ∃ released : PageWorld, (∀ fuel, world.release pid (fuel + 1) page = some released) ∧
      released.Owned ∧ released.mem = world.mem ∧ released.stage = world.stage ∧
      released.log = world.log ++ [⟨pid, page, world.owner page⟩] ∧
      (∀ other, other ≠ page → released.owner other = world.owner other) ∧
      ∀ other, released.list.Free other ↔ world.list.Free other ∨ other = page := by
  obtain ⟨least, aligned, word⟩ := owned.used held
  have samePage : pageOf page = page := by
    unfold pageOf
    omega
  have nonNull : page ≠ nullPage := by
    intro null
    rw [null] at least
    exact absurd least (by decide)
  rw [samePage] at ends
  obtain ⟨list, freed, stacked, free, managed⟩ := owned.stacked.free ends nonNull held
  have notFree := ((owned.stacked.held_iff page).mp held).2
  have isReleased : (freePages list).filter (fun page => decide (page ∉ freePages world.list)) =
      [page] := by
    refine List.perm_singleton.mp ((List.perm_ext_iff_of_nodup
      (stacked.freeLists_nodup.filter _) (List.nodup_singleton page)).mpr fun other => ?_)
    rw [List.mem_filter, decide_eq_true_iff, List.mem_singleton]
    constructor
    · rintro ⟨isFree, new⟩
      refine ((free other).mp (mem_freePages.mp isFree)).resolve_left fun old => ?_
      exact new (mem_freePages.mpr old)
    · rintro rfl
      exact ⟨mem_freePages.mpr ((free other).mpr (.inr rfl)),
        fun old => notFree (mem_freePages.mp old)⟩
  refine ⟨{ world with
    list
    owner := fun other => if other ∈ [page] then none else world.owner other
    log := world.log ++ [⟨pid, page, world.owner page⟩] }, fun fuel => ?_,
    ⟨stacked, fun other isManaged => owned.managed other ((managed other).mp isManaged),
      fun other owner isOwner => ?_⟩, rfl, rfl, rfl, fun other different => ?_, free⟩
  · unfold PageWorld.release
    rw [freed (fuel + 1) (Nat.succ_pos fuel)]
    simp only [Option.map_some, isReleased, List.map_cons, List.map_nil]
  · dsimp only at isOwner
    by_cases here : other ∈ [page]
    · rw [if_pos here] at isOwner
      cases isOwner
    · rw [if_neg here] at isOwner
      obtain ⟨isManaged, wasUsed⟩ :=
        (owned.stacked.held_iff other).mp (owned.held other owner isOwner)
      refine (stacked.held_iff other).mpr ⟨(managed other).mpr isManaged, fun still => ?_⟩
      rcases (free other).mp still with old | isPage
      · exact wasUsed old
      · exact here (List.mem_singleton.mpr isPage)
  · exact if_neg fun isPage => different (List.mem_singleton.mp isPage)

theorem Owned.release_unheld (owned : world.Owned) (word : page < 2 ^ 32)
    (unheld : ¬ world.list.Held (pageOf page)) (pid fuel : Nat) :
    world.release pid fuel page = some world := by
  have nothing : (freePages world.list).filter
      (fun page => decide (page ∉ freePages world.list)) = [] := by
    rw [List.filter_eq_nil_iff]
    intro other member
    rw [decide_eq_true_iff]
    exact not_not_intro member
  unfold PageWorld.release
  rw [owned.stacked.free_unheld word (.inr unheld) fuel]
  simp only [Option.map_some, nothing, List.map_nil, List.append_nil, List.not_mem_nil, if_false]

/-! ### The invariant -/

structure OwnsAll (world : PageWorld) (pid : Nat) (pages : List Nat) : Prop where
  distinct : pages.Nodup
  owner : ∀ page ∈ pages, world.owner page = some (.process pid)
  kept : ∀ page, world.releases pid page = 0

/-- A page belongs to the process until its call; the stack may have no call. -/
structure EndsOnce (world : PageWorld) (pid : Nat) (pages : List Nat) (stack : Nat)
    (calls : List Nat) : Prop where
  stackIn : stack ∈ pages
  once : calls.Pairwise fun one two => one ∈ pages → one ≠ two
  low : ∀ call ∈ calls, call ∈ pages ∨ call < lowMemoryEnd
  each : ∀ page ∈ pages,
    (world.owner page = some (.process pid) ∧ world.releases pid page = 0 ∧
      (page ∈ calls ∨ page = stack)) ∨
    (page ∉ calls ∧ world.releases pid page = 1 ∧ (page = stack → world.list.Free stack))

def StageOk (world : PageWorld) (pid : Nat) : Stage → Prop
  | .unused => ∀ page, world.releases pid page = 0
  | .loading pages => world.OwnsAll pid pages
  | .live pages pageMap stack => world.OwnsAll pid pages ∧ MapOf world.mem pageMap pages ∧
      ∀ page, stack = some page → page ∈ pages ∧
        Tears pages page (terminateCalls world.mem pageMap)
  | .ending pages stack calls => world.EndsOnce pid pages stack calls
  | .destroyed pages => ∀ page ∈ pages, world.releases pid page = 1

structure Tidy (layout : KernelLayout) (world : PageWorld) : Prop where
  owned : world.Owned
  shared : ∀ address ∈ layout.sharedAddresses, address < lowMemoryEnd
  own : ∀ release ∈ world.log, release.owner = some (.process release.pid)
  stages : ∀ pid, world.StageOk pid (world.stage pid)

structure Keeps (before : PageWorld) (pid : Nat) (stage : Stage) (after : PageWorld) : Prop where
  owner : ∀ page, before.owner page = some (.process pid) → after.owner page = some (.process pid)
  releases : ∀ page, after.releases pid page = before.releases pid page
  maps : ∀ pages pageMap stack, stage = .live pages pageMap stack →
    after.mem pageMap = before.mem pageMap ∧
      ∀ table ∈ entryPages (before.mem pageMap), after.mem table = before.mem table
  free : ∀ pages stack calls, stage = .ending pages stack calls →
    before.list.Free stack → after.list.Free stack

theorem keeps_setStage (world : PageWorld) (pid other : Nat) (stage new : Stage) :
    world.Keeps other stage (world.setStage pid new) :=
  ⟨fun _ => id, fun _ => rfl, fun _ _ _ _ => ⟨rfl, fun _ _ => rfl⟩, fun _ _ _ _ => id⟩

theorem OwnsAll.kept_by {pages : List Nat} (owns : before.OwnsAll pid pages)
    (keeps : before.Keeps pid stage after) : after.OwnsAll pid pages where
  distinct := owns.distinct
  owner page member := keeps.owner page (owns.owner page member)
  kept page := (keeps.releases page).trans (owns.kept page)

theorem StageOk.kept_by (ok : before.StageOk pid stage) (keeps : before.Keeps pid stage after) :
    after.StageOk pid stage := by
  cases stage with
  | unused => exact fun page => (keeps.releases page).trans (ok page)
  | loading pages => exact OwnsAll.kept_by ok keeps
  | live pages pageMap stack =>
      obtain ⟨owns, ⟨mapIn, tablesIn⟩, tears⟩ := ok
      obtain ⟨directory, tables⟩ := keeps.maps pages pageMap stack rfl
      refine ⟨owns.kept_by keeps, ⟨mapIn, ?_⟩, ?_⟩
      · rw [directory]
        exact tablesIn
      · rw [terminateCalls_congr directory tables]
        exact tears
  | ending pages stack calls =>
      refine ⟨ok.stackIn, ok.once, ok.low, fun page member => ?_⟩
      rw [keeps.releases]
      rcases ok.each page member with ⟨isOwner, unreleased, left⟩ | ⟨gone, released, isFree⟩
      · exact .inl ⟨keeps.owner page isOwner, unreleased, left⟩
      · exact .inr ⟨gone, released, fun same => keeps.free pages stack calls rfl (isFree same)⟩
  | destroyed pages => exact fun page member => (keeps.releases page).trans (ok page member)

theorem Tidy.setStage (tidy : before.Tidy layout) (owned : after.Owned)
    (own : ∀ release ∈ after.log, release.owner = some (.process release.pid))
    (sameStage : after.stage = before.stage)
    (keeps : ∀ other, other ≠ pid → before.Keeps other (before.stage other) after)
    (ok : after.StageOk pid stage) : (after.setStage pid stage).Tidy layout := by
  refine ⟨⟨owned.stacked, owned.managed, owned.held⟩, tidy.shared, own, fun other => ?_⟩
  by_cases here : other = pid
  · subst here
    have isStage : (after.setStage other stage).stage other = stage := Function.update_self ..
    rw [isStage]
    exact ok.kept_by (keeps_setStage after other other stage stage)
  · have isStage : (after.setStage pid stage).stage other = before.stage other :=
      (Function.update_of_ne here _ _).trans (congrFun sameStage other)
    rw [isStage]
    exact ((tidy.stages other).kept_by (keeps other here)).kept_by
      (keeps_setStage after pid other _ stage)

theorem Tidy.step_others (tidy : before.Tidy layout) (owned : after.Owned)
    (log : after.log = before.log) (sameStage : after.stage = before.stage)
    (keeps : ∀ other, before.Keeps other (before.stage other) after) : after.Tidy layout := by
  refine ⟨owned, tidy.shared, by rw [log]; exact tidy.own, fun other => ?_⟩
  rw [sameStage]
  exact (tidy.stages other).kept_by (keeps other)

theorem Tidy.obtain_keeps (tidy : before.Tidy layout) (spares : before.SparesStacks) (flags : Nat)
    (who : PageOwner) (pid : Nat) :
    before.Keeps pid (before.stage pid) (before.obtain flags who).2 := by
  obtain ⟨-, free, owner⟩ := tidy.owned.obtain flags who
  refine ⟨fun page => owner page _, fun page => rfl, fun _ _ _ _ => ⟨rfl, fun _ _ => rfl⟩, ?_⟩
  intro pages stack calls at_ isFree
  exact (free stack).mpr ⟨isFree, spares pid pages stack calls at_⟩

/-! ### The steps -/

theorem Tidy.alloc (tidy : before.Tidy layout) (spares : before.SparesStacks) (flags : Nat) :
    (before.obtain flags .other).2.Tidy layout :=
  tidy.step_others (tidy.owned.obtain flags .other).1 rfl rfl
    (tidy.obtain_keeps spares flags .other)

theorem Tidy.write (tidy : before.Tidy layout) {mem : Nat → Bytes} (keeps : before.KeepsMaps mem) :
    Tidy layout { before with mem } :=
  tidy.step_others ⟨tidy.owned.stacked, tidy.owned.managed, tidy.owned.held⟩ rfl rfl fun other =>
    ⟨fun _ => id, fun _ => rfl, fun pages pageMap stack at_ => keeps other pages pageMap stack at_,
      fun _ _ _ _ => id⟩

theorem Tidy.load (tidy : before.Tidy layout) (spares : before.SparesStacks)
    (some : ∃ page, before.list.Free page) {pages : List Nat}
    (loading : before.stage pid = .unused ∧ pages = [] ∨ before.stage pid = .loading pages) :
    (before.load pid pages).Tidy layout := by
  have owns : before.OwnsAll pid pages := by
    have ok := tidy.stages pid
    rcases loading with ⟨unused, none⟩ | loading
    · rw [unused] at ok
      rw [none]
      exact ⟨List.nodup_nil, fun page member => absurd member List.not_mem_nil, ok⟩
    · rw [loading] at ok
      exact ok
  obtain ⟨owned, -, kept⟩ := tidy.owned.obtain 0 (.process pid)
  obtain ⟨isFree, isOwner⟩ := tidy.owned.obtain_page some 0 (.process pid)
  refine tidy.setStage owned tidy.own rfl
    (fun other _ => tidy.obtain_keeps spares 0 (.process pid) other) ⟨?_, ?_, owns.kept⟩
  · refine List.nodup_append.mpr ⟨owns.distinct, List.nodup_singleton _, ?_⟩
    intro page member new isNew same
    rw [List.mem_singleton.mp isNew] at same
    refine (tidy.owned.free isFree).1 ?_
    rw [← same]
    exact tidy.owned.held page _ (owns.owner page member)
  · intro page member
    rcases List.mem_append.mp member with old | isNew
    · exact kept page _ (owns.owner page old)
    · rw [List.mem_singleton.mp isNew]
      exact isOwner

/-- Owned pages are what the loader relies on. -/
theorem Tidy.fresh (tidy : before.Tidy layout) {pages : List Nat} (owns : before.OwnsAll pid pages) :
    FreshPages (fun k => pages.getD k 0) layout pages.length := by
  have page : ∀ k, k < pages.length → lowMemoryEnd ≤ pages.getD k 0 ∧
      pages.getD k 0 % 4096 = 0 ∧ pages.getD k 0 < 2 ^ 32 := by
    intro k inside
    exact tidy.owned.used (tidy.owned.held _ _ (owns.owner _ (mem_iff_getD.mpr ⟨k, inside, rfl⟩)))
  constructor
  · intro k inside null
    have least := (page k inside).1
    rw [null] at least
    exact absurd least (by decide)
  · exact fun k inside => (page k inside).2.1
  · exact fun k inside => (page k inside).2.2
  · intro one two oneIn twoIn same
    rw [List.getD_eq_getElem _ _ oneIn, List.getD_eq_getElem _ _ twoIn] at same
    exact (List.Nodup.getElem_inj_iff owns.distinct).mp same
  · intro k inside address member same
    have least := (page k inside).1
    have low := tidy.shared address member
    omega

/-- Building a process writes to its own pages only. -/
theorem Tidy.create (tidy : before.Tidy layout) {image : Bytes}
    (creates : before.Creates layout pid image after) : after.Tidy layout := by
  obtain ⟨pages, pageMap, process, stack, loading, executable, ran, all, isStack, rfl⟩ := creates
  have ok := tidy.stages pid
  rw [loading] at ok
  have owns : before.OwnsAll pid pages := ok
  obtain ⟨stackIn, isMap, tears, untouched⟩ :=
    createProcess_tears executable (tidy.fresh owns) tidy.shared ran all isStack
  refine tidy.setStage ⟨tidy.owned.stacked, tidy.owned.managed, tidy.owned.held⟩ tidy.own rfl
    (fun other different => ⟨fun _ => id, fun _ => rfl, fun theirs theirMap theirStack at_ => ?_,
      fun _ _ _ _ => id⟩) ⟨⟨owns.distinct, owns.owner, owns.kept⟩, isMap, fun page some => ?_⟩
  · have theirOk := tidy.stages other
    rw [at_] at theirOk
    obtain ⟨theirOwns, ⟨mapIn, tablesIn⟩, -⟩ := theirOk
    have foreign : ∀ page ∈ theirs, process.mem page = before.mem page := by
      intro page member
      refine untouched page fun mine => different ?_
      have same := (theirOwns.owner page member).symm.trans (owns.owner page mine)
      exact PageOwner.process.inj (Option.some.inj same)
    exact ⟨foreign theirMap mapIn, fun table member => foreign table (tablesIn table member)⟩
  · by_cases entry : (elfHeader image).entry ≠ 0
    · rw [if_pos entry] at some
      obtain rfl := Option.some.inj some
      exact ⟨stackIn, tears⟩
    · rw [if_neg entry] at some
      cases some

theorem Tidy.terminate (tidy : before.Tidy layout) {pages : List Nat} {pageMap stack : Nat}
    (live : before.stage pid = .live pages pageMap (some stack)) :
    (before.setStage pid (.ending pages stack (terminateCalls before.mem pageMap))).Tidy layout := by
  have ok := tidy.stages pid
  rw [live] at ok
  obtain ⟨owns, -, torn⟩ := ok
  obtain ⟨stackIn, tears⟩ := torn stack rfl
  refine tidy.setStage tidy.owned tidy.own rfl
    (fun other _ => ⟨fun _ => id, fun _ => rfl, fun _ _ _ _ => ⟨rfl, fun _ _ => rfl⟩,
      fun _ _ _ _ => id⟩) ⟨stackIn, tears.once, tears.low, fun page member => ?_⟩
  exact .inl ⟨owns.owner page member, owns.kept page, tears.all page member⟩

theorem releases_append {owner : Option PageOwner}
    (log : after.log = before.log ++ [⟨pid, page, owner⟩]) (other place : Nat) :
    after.releases other place =
      before.releases other place + if pid = other ∧ page = place then 1 else 0 := by
  unfold releases
  rw [log, List.countP_append, List.countP_singleton]
  simp only [decide_eq_true_eq]

theorem Tidy.release_own (tidy : before.Tidy layout)
    (isOwner : before.owner page = some (.process pid)) (ends : before.list.EndsAt (pageOf page)) :
    ∃ released : PageWorld, (∀ fuel, before.release pid (fuel + 1) page = some released) ∧
      released.Owned ∧ released.stage = before.stage ∧
      (∀ release ∈ released.log, release.owner = some (.process release.pid)) ∧
      (∀ other, other ≠ page → released.owner other = before.owner other) ∧
      (∀ other, released.list.Free other ↔ before.list.Free other ∨ other = page) ∧
      (∀ other place, released.releases other place =
        before.releases other place + if pid = other ∧ page = place then 1 else 0) ∧
      ∀ other, other ≠ pid → before.Keeps other (before.stage other) released := by
  obtain ⟨released, ran, owned, mem, stage, log, owner, free⟩ :=
    tidy.owned.release_held (tidy.owned.held page _ isOwner) ends pid
  refine ⟨released, ran, owned, stage, fun release member => ?_, owner, free, releases_append log,
    fun other different => ⟨fun place isTheirs => ?_, fun place => ?_, fun _ _ _ _ => ?_,
      fun _ stack _ _ isFree => (free stack).mpr (.inl isFree)⟩⟩
  · rw [log] at member
    rcases List.mem_append.mp member with old | isNew
    · exact tidy.own release old
    · rw [List.mem_singleton.mp isNew]
      exact isOwner
  · rw [owner place fun same => different ?_]
    · exact isTheirs
    · rw [same] at isTheirs
      exact PageOwner.process.inj (Option.some.inj (isTheirs.symm.trans isOwner))
  · rw [releases_append log, if_neg fun same => different same.1.symm, Nat.add_zero]
  · rw [mem]
    exact ⟨rfl, fun _ _ => rfl⟩

theorem Tidy.releaseNext (tidy : before.Tidy layout) {pages calls : List Nat} {stack fuel : Nat}
    {released : PageWorld} (ending : before.stage pid = .ending pages stack (page :: calls))
    (ends : before.list.EndsAt (pageOf page))
    (ran : before.release pid (fuel + 1) page = some released) :
    (released.setStage pid (.ending pages stack calls)).Tidy layout := by
  have ok := tidy.stages pid
  rw [ending] at ok
  have endsOnce : before.EndsOnce pid pages stack (page :: calls) := ok
  obtain ⟨later, once⟩ := List.pairwise_cons.mp endsOnce.once
  have low : ∀ call ∈ calls, call ∈ pages ∨ call < lowMemoryEnd :=
    fun call member => endsOnce.low call (List.mem_cons_of_mem _ member)
  by_cases mine : page ∈ pages
  · have gone : page ∉ calls := fun member => later page member mine rfl
    rcases endsOnce.each page mine with ⟨isOwner, unreleased, -⟩ | ⟨already, -⟩
    swap
    · exact absurd List.mem_cons_self already
    obtain ⟨result, ranResult, owned, stage, own, owner, free, count, keeps⟩ :=
      tidy.release_own isOwner ends
    obtain rfl := Option.some.inj ((ranResult fuel).symm.trans ran)
    refine tidy.setStage owned own stage keeps ⟨endsOnce.stackIn, once, low, fun place member => ?_⟩
    rw [count]
    by_cases here : place = page
    · subst here
      rw [if_pos ⟨rfl, rfl⟩, unreleased]
      exact .inr ⟨gone, rfl, fun isStack => (free stack).mpr (.inr isStack.symm)⟩
    · rw [if_neg fun same => here same.2.symm, Nat.add_zero, owner place here]
      rcases endsOnce.each place member with ⟨isTheirs, none, left⟩ | ⟨past, one, isFree⟩
      · exact .inl ⟨isTheirs, none, left.imp_left fun inCalls =>
          (List.mem_cons.mp inCalls).resolve_left here⟩
      · exact .inr ⟨fun inCalls => past (List.mem_cons_of_mem _ inCalls), one,
          fun isStack => (free stack).mpr (.inl (isFree isStack))⟩
  · -- a page that every process shares
    have isLow := (endsOnce.low page List.mem_cons_self).resolve_left mine
    have word : page < 2 ^ 32 := Nat.lt_trans isLow (by decide)
    have unheld : ¬ before.list.Held (pageOf page) := by
      intro held
      have least := (tidy.owned.used held).1
      unfold pageOf at least
      omega
    obtain rfl := Option.some.inj
      ((tidy.owned.release_unheld word unheld pid (fuel + 1)).symm.trans ran)
    refine tidy.setStage tidy.owned tidy.own rfl
      (fun other _ => ⟨fun _ => id, fun _ => rfl, fun _ _ _ _ => ⟨rfl, fun _ _ => rfl⟩,
        fun _ _ _ _ => id⟩) ⟨endsOnce.stackIn, once, low, fun place member => ?_⟩
    have different : place ≠ page := fun same => mine (same ▸ member)
    rcases endsOnce.each place member with ⟨isTheirs, none, left⟩ | ⟨past, one, isFree⟩
    · exact .inl ⟨isTheirs, none, left.imp_left fun inCalls =>
        (List.mem_cons.mp inCalls).resolve_left different⟩
    · exact .inr ⟨fun inCalls => past (List.mem_cons_of_mem _ inCalls), one, isFree⟩

/-- The last call finds the stack in use, when the page map did not name it, or free. -/
theorem Tidy.destroy (tidy : before.Tidy layout) {pages : List Nat} {stack fuel : Nat}
    {released : PageWorld} (ending : before.stage pid = .ending pages stack [])
    (ends : before.list.EndsAt (pageOf stack))
    (ran : before.release pid (fuel + 1) stack = some released) :
    (released.setStage pid (.destroyed pages)).Tidy layout := by
  have ok := tidy.stages pid
  rw [ending] at ok
  have endsOnce : before.EndsOnce pid pages stack [] := ok
  rcases endsOnce.each stack endsOnce.stackIn with ⟨isOwner, unreleased, -⟩ | ⟨-, one, isFree⟩
  · obtain ⟨result, ranResult, owned, stage, own, -, -, count, keeps⟩ :=
      tidy.release_own isOwner ends
    obtain rfl := Option.some.inj ((ranResult fuel).symm.trans ran)
    refine tidy.setStage owned own stage keeps fun place member => ?_
    rw [count]
    by_cases here : place = stack
    · rw [here, if_pos ⟨rfl, rfl⟩, unreleased]
    · rw [if_neg fun same => here same.2.symm, Nat.add_zero]
      rcases endsOnce.each place member with ⟨-, -, left⟩ | ⟨-, released, -⟩
      · exact absurd (left.resolve_left List.not_mem_nil) here
      · exact released
  · obtain ⟨notHeld, -, aligned, word⟩ := tidy.owned.free (isFree rfl)
    have samePage : pageOf stack = stack := by
      unfold pageOf
      omega
    obtain rfl := Option.some.inj ((tidy.owned.release_unheld word (by rw [samePage]; exact notHeld)
      pid (fuel + 1)).symm.trans ran)
    refine tidy.setStage tidy.owned tidy.own rfl
      (fun other _ => ⟨fun _ => id, fun _ => rfl, fun _ _ _ _ => ⟨rfl, fun _ _ => rfl⟩,
        fun _ _ _ _ => id⟩) fun place member => ?_
    rcases endsOnce.each place member with ⟨-, none, left⟩ | ⟨-, released, -⟩
    · rw [left.resolve_left List.not_mem_nil, one] at none
      cases none
    · exact released

theorem Tidy.step (tidy : before.Tidy layout) {call : PageCall} (safe : SafeCall before call)
    (step : before.Step layout call after) : after.Tidy layout := by
  cases call with
  | alloc flags =>
      have same : after = (before.obtain flags .other).2 := step
      exact same ▸ tidy.alloc safe flags
  | write mem =>
      obtain ⟨keeps, rfl⟩ := step
      exact tidy.write keeps
  | load pid =>
      obtain ⟨pages, loading, rfl⟩ := step
      exact tidy.load safe.1 safe.2 loading
  | create pid image => exact tidy.create step
  | terminate pid =>
      obtain ⟨pages, pageMap, stack, live, rfl⟩ := step
      exact tidy.terminate live
  | release pid =>
      obtain ⟨pages, stack, page, calls, fuel, released, ending, ran, rfl⟩ := step
      exact tidy.releaseNext ending (safe pages stack page calls ending) ran
  | destroy pid =>
      obtain ⟨pages, stack, fuel, released, ending, ran, rfl⟩ := step
      exact tidy.destroy ending (safe pages stack [] ending) ran

theorem tidy_start (initial : (teardownMachine layout).start world) : world.Tidy layout := by
  obtain ⟨⟨ranges, pageHeaders, mem, listEq⟩, fits, disjoint, managed, shared, unowned, unused,
    noLog⟩ := initial
  refine ⟨⟨?_, managed, fun page owner isOwner => ?_⟩, shared, fun release member => ?_,
    fun pid => ?_⟩
  · rw [listEq] at fits disjoint ⊢
    exact PRList.init_stacked fits disjoint
  · rw [unowned] at isOwner
    cases isOwner
  · rw [noLog] at member
    cases member
  · rw [unused]
    intro page
    unfold releases
    rw [noLog]
    rfl

theorem Tidy.releasesOwn (tidy : world.Tidy layout) : world.ReleasesOwn := by
  refine ⟨fun release member owner isOwner => ?_, fun pid page member => ?_,
    fun pid pages destroyed => ?_⟩
  · exact Option.some.inj (isOwner.symm.trans (tidy.own release member))
  · have ok := tidy.stages pid
    cases at_ : world.stage pid with
    | unused =>
        rw [at_] at member
        cases member
    | loading pages =>
        rw [at_] at ok
        rw [OwnsAll.kept ok page]
        exact Nat.zero_le 1
    | live pages pageMap stack =>
        rw [at_] at ok
        rw [OwnsAll.kept ok.1 page]
        exact Nat.zero_le 1
    | ending pages stack calls =>
        rw [at_] at ok member
        rcases ok.each page member with ⟨-, none, -⟩ | ⟨-, one, -⟩
        · rw [none]
          exact Nat.zero_le 1
        · exact Nat.le_of_eq one
    | destroyed pages =>
        rw [at_] at ok member
        exact Nat.le_of_eq (ok page member)
  · have ok := tidy.stages pid
    rw [destroyed] at ok
    exact ok

end PageWorld

/-- In every run whose calls are safe, teardown gives back what belongs to the process, once. -/
theorem teardown_releasesOwn (layout : KernelLayout) (world : PageWorld)
    (reachable : ((teardownMachine layout).restrict SafeCall).Reachable world) :
    world.ReleasesOwn := by
  have tidy : world.Tidy layout := by
    refine Machine.invariant ((teardownMachine layout).restrict SafeCall)
      (fun first initial => PageWorld.tidy_start initial) ?_ reachable
    rintro before call after tidy ⟨safe, step⟩
    exact tidy.step safe step
  exact tidy.releasesOwn

end DoggOS.Proc

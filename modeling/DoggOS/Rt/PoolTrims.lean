/-
Trimming a pool.

A page comes to the freeable list while it is the current page, and it stays the
current page.  So a trim that finds a page to free takes away the page that the
next object comes from, with the objects that were allocated from it since it
was emptied.  What the pages hold when `k_rt_Malloc` gives them plays no part.
-/

import DoggOS.Rt.PoolRuns

namespace DoggOS.Rt

open Mem

inductive TrimCall where
  | allocObj (page : Nat)
  | freeObj (obj : Nat)
  | freeUnusedPages

/-- A pool and the pages that it has from `k_rt_Malloc`. -/
structure TrimRun where
  pool : Pool
  pages : List Nat

/-- What `k_rt_pool_CreateForType` passes: the object contains its node. -/
structure PoolType.OfType (type : PoolType) : Prop where
  node : type.nodeOffset + 4 ≤ type.objSize
  align : 0 < type.objAlign

namespace TrimRun

/-- What `k_rt_pool_Create` leaves. -/
def Start (run : TrimRun) : Prop :=
  run.pool.firstPage = 0 ∧ run.pool.lastPage = 0 ∧ run.pool.curPage = 0 ∧
    run.pool.freeablePages = 0 ∧ run.pool.objects = [] ∧ run.pages = []

def Fresh (run : TrimRun) (page : Nat) : Prop :=
  page ≠ 0 ∧ page + poolPageSize ≤ wordLimit ∧
    ∀ other ∈ run.pages, page + poolPageSize ≤ other ∨ other + poolPageSize ≤ page

def Enabled (type : PoolType) (run : TrimRun) : TrimCall → Prop
  | .allocObj page =>
      if run.pool.curPage = 0 then run.Fresh page ∧ 0 < type.entryCount page
      else run.pool.objects.length < type.entryCount run.pool.curPage
  | .freeObj obj => obj ∈ run.pool.objects
  | .freeUnusedPages => True

def call (type : PoolType) (run : TrimRun) : TrimCall → Option TrimRun
  | .allocObj page => (run.pool.allocObj type page).map fun result =>
      { pool := result.2
        pages := if run.pool.curPage = 0 ∧ run.pool.freeablePages = 0 then page :: run.pages
          else run.pages }
  | .freeObj obj => (run.pool.freeObj type obj).map fun pool => { run with pool := pool }
  | .freeUnusedPages => (run.pool.freeUnusedPages run.pages.length).map fun result =>
      { pool := result.2, pages := run.pages.filter fun page => page ∉ result.1 }

/-- The trim frees pages without live objects only, and nothing refers to them afterwards. -/
def TrimsRightly (run : TrimRun) : Prop :=
  ∃ freed after, run.pool.freeUnusedPages run.pages.length = some (freed, after) ∧
    (∀ page ∈ freed, ∀ obj ∈ run.pool.objects, ¬ (page ≤ obj ∧ obj < page + poolPageSize)) ∧
    after.curPage ∉ freed ∧ after.firstPage ∉ freed ∧ after.lastPage ∉ freed ∧
    after.freeablePages ∉ freed ∧
    ∀ page ∈ run.pages, page ∉ freed → after.next page ∉ freed ∧ after.prev page ∉ freed

def Does (run : TrimRun) : TrimCall → Prop
  | .freeUnusedPages => run.TrimsRightly
  | _ => True

def Meets (run : TrimRun) : TrimCall → Prop
  | .freeUnusedPages => run.pool.freeablePages = 0
  | _ => True

def Always (type : PoolType) (condition : TrimRun → TrimCall → Prop) :
    TrimRun → List TrimCall → Prop
  | _, [] => True
  | run, label :: labels => condition run label ∧
      ∀ after, run.call type label = some after → Always type condition after labels

inductive Shaped (type : PoolType) (run : TrimRun) : Prop where
  | start (atStart : run.Start)
  | paged (page : Nat) (free : List Nat) (stop : Nat) (held : run.pool.Held type page free stop)
      (pages : run.pages = [page])
      (freeable : run.pool.freeablePages = 0 ∨ run.pool.freeablePages = page)

variable {type : PoolType} {run after : TrimRun} {label : TrimCall} {labels : List TrimCall}
  {page : Nat}

theorem trim_nothing (none : run.pool.freeablePages = 0) (pages : Nat) :
    run.pool.freeUnusedPages pages = some ([], run.pool) := by
  apply WhileLoop.stop
  exact if_pos none

theorem trimsRightly_of_nothing (none : run.pool.freeablePages = 0) : run.TrimsRightly := by
  refine ⟨[], run.pool, trim_nothing none _, ?_⟩
  simp

/-- The first page that a trim frees is the current one. -/
theorem not_trimsRightly (nonNull : page ≠ 0) (pages : run.pages = [page])
    (current : run.pool.curPage = page) (freeable : run.pool.freeablePages = page) :
    ¬ run.TrimsRightly := by
  rintro ⟨freed, after, ran, -, notCurrent, -⟩
  have first : Pool.freeTurn ([], run.pool) =
      some ([page], { run.pool with freeablePages := run.pool.next page }) := by
    unfold Pool.freeTurn
    simp only [freeable, if_neg nonNull, List.nil_append]
  rw [pages, Pool.freeUnusedPages, List.length_singleton, WhileLoop.turn first] at ran
  by_cases last : run.pool.next page = 0
  · have ends : Pool.freeTurn ([page], { run.pool with freeablePages := run.pool.next page }) =
        none := if_pos last
    rw [WhileLoop.stop ends] at ran
    obtain ⟨rfl, rfl⟩ := Prod.mk.inj (Option.some.inj ran)
    exact notCurrent (by simp [current])
  · have second : Pool.freeTurn ([page], { run.pool with freeablePages := run.pool.next page }) =
        some ([page] ++ [run.pool.next page], { run.pool with
          freeablePages := run.pool.next (run.pool.next page) }) := if_neg last
    rw [WhileLoop.turn second] at ran
    exact absurd ran.symm (Option.some_ne_none _)

theorem entryCount_lt (type : PoolType) (page : Nat) : type.entryCount page < wordLimit := by
  have word : 0 < wordLimit := by decide
  unfold PoolType.entryCount Pool.entriesBlock
  dsimp only
  split
  · exact (Nat.div_le_self _ _).trans_lt (Nat.mod_lt _ word)
  · exact (Nat.div_le_self _ _).trans_lt (by decide)

theorem unlinkPage_kept {pool result : Pool} (unlinked : pool.unlinkPage page = some result) :
    result.curPage = pool.curPage ∧ result.nextFree = pool.nextFree ∧
      result.poolNode = pool.poolNode ∧ result.objects = pool.objects ∧
      result.freeablePages = page := by
  unfold Pool.unlinkPage at unlinked
  split at unlinked
  · exact absurd unlinked.symm (Option.some_ne_none _)
  · obtain rfl := Option.some.inj unlinked
    refine ⟨?_, ?_, ?_, ?_, rfl⟩ <;> (dsimp only; split <;> split <;> rfl)

theorem Shaped.alloc (shaped : run.Shaped type) (ofType : type.OfType)
    (enabled : run.Enabled type (.allocObj page))
    (step : run.call type (.allocObj page) = some after) : after.Shaped type := by
  have sized : 0 < type.objSize := by
    have node := ofType.node
    omega
  obtain ⟨result, returned, rfl⟩ := Option.map_eq_some_iff.mp step
  cases shaped with
  | start atStart =>
      obtain ⟨first, -, current, freeable, unused, pages⟩ := atStart
      have given : run.Fresh page ∧ 0 < type.entryCount page := by
        have asked : if run.pool.curPage = 0 then _ else _ := enabled
        rwa [if_pos current] at asked
      obtain ⟨⟨nonNull, -, -⟩, several⟩ := given
      obtain ⟨init, taken, leads, -, -, -, noFirst, spare, objects⟩ :=
        Pool.takePage_fresh sized several (entryCount_lt type page) freeable
      have held := Pool.opened_held nonNull (objects.trans unused) leads
      rw [Pool.allocObj_first current taken (noFirst.trans first) nonNull] at returned
      cases listed : type.nodes page with
      | nil =>
          have lengths := congrArg List.length listed
          unfold PoolType.nodes at lengths
          rw [List.length_map, List.length_range, List.length_nil] at lengths
          omega
      | cons node rest =>
          rw [listed] at held
          obtain ⟨index, -, -, took, heldAfter⟩ := held.take sized page
          cases took.symm.trans returned
          refine .paged page rest _ heldAfter ?_ (.inl (spare.trans freeable))
          simp only [current, freeable, and_self, if_true, pages]
  | paged current free stop held pages freeable =>
      have notNull : run.pool.curPage ≠ 0 := held.current ▸ held.nonNull
      have room : run.pool.objects.length < type.entryCount current := by
        have asked : if run.pool.curPage = 0 then _ else _ := enabled
        rwa [if_neg notNull, held.current] at asked
      have lengths := held.length
      cases free with
      | nil =>
          rw [List.length_nil] at lengths
          omega
      | cons node rest =>
          obtain ⟨index, -, -, took, heldAfter⟩ := held.take sized page
          cases took.symm.trans returned
          refine .paged current rest _ heldAfter ?_ freeable
          simp only [notNull, false_and, if_false, pages]

theorem Shaped.free {obj : Nat} (shaped : run.Shaped type) (ofType : type.OfType)
    (live : obj ∈ run.pool.objects) (step : run.call type (.freeObj obj) = some after) :
    after.Shaped type := by
  have sized : 0 < type.objSize := by
    have node := ofType.node
    omega
  obtain ⟨pool, returned, rfl⟩ := Option.map_eq_some_iff.mp step
  cases shaped with
  | start atStart =>
      rw [atStart.2.2.2.2.1] at live
      exact absurd live List.not_mem_nil
  | paged page free stop held pages freeable =>
      have given := held.give sized live
      rw [held.freeObj live] at returned
      split at returned
      · obtain ⟨current, nextFree, poolNode, objects, spare⟩ := unlinkPage_kept returned
        refine .paged page ((obj + type.nodeOffset) :: free) stop ⟨given.nonNull, current.trans given.current, ?_, ?_, ?_⟩ pages
          (.inr spare)
        · rw [poolNode, nextFree]
          exact given.leads
        · rw [objects]
          exact given.nodes
        · rw [objects, poolNode]
          exact given.owner
      · obtain rfl := Option.some.inj returned
        exact .paged page _ stop given pages freeable

/-- A trim does what it should exactly if the freeable list is empty, and then it changes nothing. -/
theorem Shaped.does_iff (shaped : run.Shaped type) : run.Does label ↔ run.Meets label := by
  cases label with
  | allocObj page => exact Iff.rfl
  | freeObj obj => exact Iff.rfl
  | freeUnusedPages =>
      refine ⟨fun rightly => ?_, trimsRightly_of_nothing⟩
      cases shaped with
      | start atStart => exact atStart.2.2.2.1
      | paged page free stop held pages freeable =>
          rcases freeable with none | spare
          · exact none
          · exact absurd rightly (not_trimsRightly held.nonNull pages held.current spare)

theorem Shaped.call (shaped : run.Shaped type) (ofType : type.OfType)
    (enabled : run.Enabled type label) (meets : run.Meets label)
    (step : run.call type label = some after) : after.Shaped type := by
  cases label with
  | allocObj page => exact shaped.alloc ofType enabled step
  | freeObj obj => exact shaped.free ofType enabled step
  | freeUnusedPages =>
      have nothing := trim_nothing meets run.pages.length
      unfold TrimRun.call at step
      simp only [nothing, Option.map_some, List.not_mem_nil, not_false_eq_true, decide_true,
        List.filter_true] at step
      exact Option.some.inj step ▸ shaped

theorem Shaped.always (shaped : run.Shaped type) (ofType : type.OfType)
    (legal : Always type (Enabled type) run labels) :
    Always type Does run labels ↔ Always type Meets run labels := by
  induction labels generalizing run with
  | nil => exact Iff.rfl
  | cons label labels ih =>
      obtain ⟨enabled, later⟩ := legal
      unfold Always
      rw [shaped.does_iff]
      refine and_congr_right fun meets => forall_congr' fun after => imp_congr_right fun step => ?_
      exact ih (shaped.call ofType enabled meets step) (later after step)

end TrimRun

open TrimRun in
/-- Each trim of a sequence is right exactly if the freeable list is empty at each trim. -/
theorem trims_rightly_iff (type : PoolType) (ofType : type.OfType) (run : TrimRun)
    (start : run.Start) (labels : List TrimCall)
    (legal : Always type (Enabled type) run labels) :
    Always type Does run labels ↔ Always type Meets run labels :=
  (Shaped.start start).always ofType legal

def pairType : PoolType := ⟨0, 2000, 4⟩

def newTrim : TrimRun := ⟨newPool.pool, []⟩

theorem newTrim_start : newTrim.Start := ⟨rfl, rfl, rfl, rfl, rfl, rfl⟩

theorem pairType_ofType : pairType.OfType := ⟨by decide, by decide⟩

theorem newTrim_enabled : newTrim.Enabled pairType (.allocObj 4096) :=
  ⟨⟨by decide, by decide, fun _ => nofun⟩, by decide⟩

def TrimRun.view (run : TrimRun) : Nat × Nat × List Nat × List Nat :=
  (run.pool.freeablePages, run.pool.curPage, run.pages, run.pool.objects)

theorem newTrim_first {one : TrimRun} (first : newTrim.call pairType (.allocObj 4096) = some one) :
    one.view = (0, 4096, [4096], [4120]) := by
  have seen : (newTrim.call pairType (.allocObj 4096)).map TrimRun.view =
      some (0, 4096, [4096], [4120]) := by decide +kernel
  rw [first] at seen
  exact Option.some.inj seen

theorem trims_rightly_iff_unfreed :
    newTrim.Always pairType TrimRun.Does [.allocObj 4096, .freeUnusedPages] := by
  refine (trims_rightly_iff pairType pairType_ofType newTrim newTrim_start
    [.allocObj 4096, .freeUnusedPages] ⟨newTrim_enabled, fun _ _ => ⟨trivial, fun _ _ => trivial⟩⟩).mpr
    ⟨trivial, fun one first => ⟨?_, fun _ _ => trivial⟩⟩
  exact congrArg Prod.fst (newTrim_first first)

/-- An object that is allocated after its page was emptied is on the page that is freed. -/
theorem emptiedPage_trimmed :
    newTrim.Always pairType (TrimRun.Enabled pairType)
        [.allocObj 4096, .freeObj 4120, .allocObj 4096, .freeUnusedPages] ∧
      ¬ newTrim.Always pairType TrimRun.Does
        [.allocObj 4096, .freeObj 4120, .allocObj 4096, .freeUnusedPages] ∧
      (Machine.follow (TrimRun.call pairType) newTrim
        [.allocObj 4096, .freeObj 4120, .allocObj 4096]).bind (fun run =>
          (run.pool.freeUnusedPages run.pages.length).map fun trimmed =>
            (trimmed.1, run.pool.objects, trimmed.2.curPage)) =
        some ([4096], [4120], 4096) := by
  have secondView : ((newTrim.call pairType (.allocObj 4096)).bind fun one =>
      one.call pairType (.freeObj 4120)).map TrimRun.view = some (4096, 4096, [4096], []) := by
    decide +kernel
  have thirdView : ((newTrim.call pairType (.allocObj 4096)).bind fun one =>
      (one.call pairType (.freeObj 4120)).bind fun two =>
        two.call pairType (.allocObj 4096)).map TrimRun.view =
          some (4096, 4096, [4096], [4120]) := by
    decide +kernel
  refine ⟨⟨newTrim_enabled, fun one first => ⟨?_, fun two second => ⟨?_, fun _ _ =>
    ⟨trivial, fun _ _ => trivial⟩⟩⟩⟩, fun rightly => ?_, by decide +kernel⟩
  · have objects : one.pool.objects = [4120] :=
      congrArg (fun view => view.2.2.2) (newTrim_first first)
    change 4120 ∈ one.pool.objects
    rw [objects]
    exact List.mem_singleton_self _
  · rw [first, Option.bind_some, second] at secondView
    have view := Option.some.inj secondView
    have current : two.pool.curPage = 4096 := congrArg (fun view => view.2.1) view
    have objects : two.pool.objects = [] := congrArg (fun view => view.2.2.2) view
    change if two.pool.curPage = 0 then _ else _
    rw [current, objects, if_neg (by decide)]
    decide
  · obtain ⟨three, followed, view⟩ := Option.map_eq_some_iff.mp thirdView
    obtain ⟨one, first, rest⟩ := Option.bind_eq_some_iff.mp followed
    obtain ⟨two, second, third⟩ := Option.bind_eq_some_iff.mp rest
    have trims := (((rightly.2 one first).2 two second).2 three third).1
    exact TrimRun.not_trimsRightly (by decide) (congrArg (fun view => view.2.2.1) view)
      (congrArg (fun view => view.2.1) view) (congrArg Prod.fst view) trims

end DoggOS.Rt

/-
Runs of a pool.

A pool never gets a second page: a full current page is not replaced, and its
first free node is read through a null pointer.  An emptied page goes to the
freeable list and stays the current page, so it can be emptied again, and then
its neighbours in a list that it is not in are written.  Until one of the two
happens the objects, the counts and the two lists are as they should be.
-/

import DoggOS.Library.LinkedQueues
import DoggOS.Library.Machine
import DoggOS.Rt.PoolPages

namespace DoggOS.Rt

open Mem

inductive PoolCall where
  | allocObj (page : Nat)
  | freeObj (obj : Nat)
  | write (address value : Nat)

/-- The bytes of objects apart from the pool nodes, and the pages that `k_rt_Malloc` gave. -/
structure PoolRun where
  pool : Pool
  bytes : Nat → Nat
  pages : List Nat

namespace PoolType

def Owns (type : PoolType) (obj address : Nat) : Prop :=
  obj ≤ address ∧ address < obj + type.objSize ∧
    (address < obj + type.nodeOffset ∨ obj + type.nodeOffset + 4 ≤ address)

def Apart (type : PoolType) (one two : Nat) : Prop :=
  one + type.objSize ≤ two ∨ two + type.objSize ≤ one

def InPage (type : PoolType) (page obj : Nat) : Prop :=
  page + poolPageHeader ≤ obj ∧ obj + type.objSize ≤ page + poolPageSize

instance (type : PoolType) (page obj : Nat) : Decidable (type.InPage page obj) :=
  inferInstanceAs (Decidable (_ ∧ _))

structure Fits (type : PoolType) (page : Nat) : Prop where
  node : type.nodeOffset + 4 ≤ type.objSize
  align : 0 < type.objAlign
  several : 0 < type.entryCount page
  inside : type.object page (type.entryCount page) ≤ page + poolPageSize

variable {type : PoolType} {page index other : Nat}

theorem Fits.sized (fits : type.Fits page) : 0 < type.objSize := by
  have node := fits.node
  omega

theorem Fits.object_inPage (fits : type.Fits page) (small : index < type.entryCount page) :
    type.InPage page (type.object page index) := by
  refine ⟨type.header_le_object page index, ?_⟩
  have inside := fits.inside
  have scaled := Nat.mul_le_mul_right type.objSize (Nat.succ_le_of_lt small)
  rw [Nat.succ_mul] at scaled
  unfold object at *
  omega

theorem object_apart (different : index ≠ other) :
    type.Apart (type.object page index) (type.object page other) := by
  unfold Apart object
  rcases Nat.lt_or_gt_of_ne different with less | more
  · have scaled := Nat.mul_le_mul_right type.objSize (Nat.succ_le_of_lt less)
    rw [Nat.succ_mul] at scaled
    omega
  · have scaled := Nat.mul_le_mul_right type.objSize (Nat.succ_le_of_lt more)
    rw [Nat.succ_mul] at scaled
    omega

theorem Fits.entryCount_lt (fits : type.Fits page) : type.entryCount page < wordLimit := by
  have inside := fits.inside
  have header := type.header_le_object page 0
  have sized := fits.sized
  have scaled := Nat.le_mul_of_pos_right (type.entryCount page) sized
  unfold object poolPageHeader poolPageSize at *
  unfold wordLimit
  omega

end PoolType

namespace PoolRun

/-- What `k_rt_pool_Create` leaves. -/
def Start (run : PoolRun) : Prop :=
  run.pool.firstPage = 0 ∧ run.pool.lastPage = 0 ∧ run.pool.curPage = 0 ∧
    run.pool.freeablePages = 0 ∧ run.pool.objects = [] ∧ run.pages = []

/-- A page that `k_rt_Malloc` gives is filled with zeros and apart from the others. -/
structure Fresh (run : PoolRun) (page : Nat) : Prop where
  nonNull : page ≠ 0
  word : page + poolPageSize ≤ wordLimit
  apart : ∀ other ∈ run.pages, page + poolPageSize ≤ other ∨ other + poolPageSize ≤ page
  next : run.pool.next page = 0
  prev : run.pool.prev page = 0
  usedCount : run.pool.usedCount page = 0
  zero : ∀ address, page ≤ address → address < page + poolPageSize →
    run.pool.poolNode address = 0 ∧ run.bytes address = 0

/-- `k_rt_Malloc` is asked if there is neither a current page nor a freeable one. -/
def Enabled (type : PoolType) (run : PoolRun) : PoolCall → Prop
  | .allocObj page => run.pool.curPage = 0 ∧ run.pool.freeablePages = 0 → run.Fresh page
  | .freeObj obj => obj ∈ run.pool.objects
  | .write address _ => ∃ obj ∈ run.pool.objects, type.Owns obj address

/-- `k_rt_SetBytes` -/
def setBytes (bytes : Nat → Nat) (start size : Nat) : Nat → Nat :=
  fun address => if start ≤ address ∧ address < start + size then 0 else bytes address

def call (type : PoolType) (run : PoolRun) : PoolCall → Option PoolRun
  | .allocObj page => (run.pool.allocObj type page).map fun result =>
      { pool := result.2
        bytes := setBytes run.bytes result.1 type.objSize
        pages := if run.pool.curPage = 0 ∧ run.pool.freeablePages = 0 then page :: run.pages
          else run.pages }
  | .freeObj obj => (run.pool.freeObj type obj).map fun pool => { run with pool := pool }
  | .write address value => some { run with bytes := Function.update run.bytes address value }

def machine (type : PoolType) : Machine PoolRun PoolCall where
  start := Start
  step before label after := before.Enabled type label ∧ before.call type label = some after

/-- Live objects lie in pages and apart from each other, the pages count them, and each page is in
one of the two lists. -/
structure Consistent (type : PoolType) (run : PoolRun) : Prop where
  inside : ∀ obj ∈ run.pool.objects, ∃ page ∈ run.pages, type.InPage page obj
  apart : run.pool.objects.Pairwise type.Apart
  used : ∀ page ∈ run.pages,
    run.pool.usedCount page = run.pool.objects.countP fun obj => type.InPage page obj
  lists : ∃ listed spare, Chain run.pool.next run.pool.firstPage listed ∧
    run.pool.lastPage = listed.getLastD 0 ∧ Chain run.pool.next run.pool.freeablePages spare ∧
    (listed ++ spare).Perm run.pages ∧ (listed ++ spare).Nodup

/-- An allocation gives a zeroed object and leaves the others as they are. -/
def Answers (type : PoolType) (run after : PoolRun) : PoolCall → Prop
  | .allocObj _ => ∃ obj, after.pool.objects = obj :: run.pool.objects ∧
      (∀ address, type.Owns obj address → after.bytes address = 0) ∧
      ∀ live ∈ run.pool.objects, ∀ address, type.Owns live address →
        after.bytes address = run.bytes address
  | .freeObj obj => after.pool.objects = run.pool.objects.erase obj ∧ after.bytes = run.bytes
  | .write _ _ => True

def Works (type : PoolType) (run : PoolRun) (label : PoolCall) : Prop :=
  ∃ after, run.call type label = some after ∧ run.Answers type after label ∧
    after.Consistent type

/-- The objects of the first page fit in it; later an object of the current page is free.  The
last object of a page that is freeable already is not freed. -/
def Meets (type : PoolType) (run : PoolRun) : PoolCall → Prop
  | .allocObj page =>
      if run.pool.curPage = 0 then type.Fits page
      else run.pool.objects.length < type.entryCount run.pool.curPage
  | .freeObj obj => run.pool.freeablePages = 0 ∨ run.pool.objects ≠ [obj]
  | .write _ _ => True

structure Paged (type : PoolType) (run : PoolRun) (page : Nat) (free : List Nat) : Prop where
  held : run.pool.Held type page free 0
  fits : type.Fits page
  pages : run.pages = [page]
  used : run.pool.usedCount page = run.pool.objects.length
  next : run.pool.next page = 0
  prev : run.pool.prev page = 0
  place : run.pool.firstPage = page ∧ run.pool.lastPage = page ∧ run.pool.freeablePages = 0 ∨
    run.pool.firstPage = 0 ∧ run.pool.lastPage = 0 ∧ run.pool.freeablePages = page

variable {type : PoolType} {run after : PoolRun} {label : PoolCall} {free rest : List Nat}
  {page obj node : Nat}

theorem Start.consistent (start : run.Start) : run.Consistent type := by
  obtain ⟨first, last, -, freeable, objects, pages⟩ := start
  constructor
  · simp [objects]
  · simp [objects]
  · simp [pages]
  · exact ⟨[], [], first, last, freeable, by simp [pages], List.nodup_nil⟩

namespace Paged

theorem objects_inPage (paged : Paged type run page free) (live : obj ∈ run.pool.objects) :
    type.InPage page obj := by
  obtain ⟨index, small, rfl⟩ := paged.held.live_object live
  exact paged.fits.object_inPage small

theorem consistent (paged : Paged type run page free) : run.Consistent type := by
  have nodup := paged.held.nodes_nodup paged.fits.sized
  have objectsNodup : run.pool.objects.Nodup :=
    List.Nodup.of_map _ (List.nodup_append.mp nodup).2.1
  constructor
  · intro obj live
    exact ⟨page, by simp [paged.pages], paged.objects_inPage live⟩
  · refine List.Pairwise.imp_of_mem ?_ objectsNodup
    intro one two oneLive twoLive different
    obtain ⟨first, -, rfl⟩ := paged.held.live_object oneLive
    obtain ⟨second, -, rfl⟩ := paged.held.live_object twoLive
    exact PoolType.object_apart fun same => different (congrArg _ same)
  · rw [paged.pages]
    intro other member
    rw [List.mem_singleton.mp member, paged.used]
    symm
    rw [List.countP_eq_length]
    exact fun obj live => decide_eq_true (paged.objects_inPage live)
  · have alone : Chain run.pool.next page [page] := ⟨rfl, paged.held.nonNull, paged.next⟩
    rw [paged.pages]
    rcases paged.place with ⟨first, last, freeable⟩ | ⟨first, last, freeable⟩
    · exact ⟨[page], [], by rw [first]; exact alone, last, freeable, List.Perm.refl _,
        List.nodup_singleton page⟩
    · exact ⟨[], [page], first, last, by rw [freeable]; exact alone, List.Perm.refl _,
        List.nodup_singleton page⟩

theorem length_lt_word (paged : Paged type run page free) :
    run.pool.objects.length < wordLimit := by
  have lengths := paged.held.length
  have word := paged.fits.entryCount_lt
  omega

theorem alloc (paged : Paged type run page (node :: rest)) (other : Nat) :
    ∃ after, run.call type (.allocObj other) = some after ∧ Paged type after page rest ∧
      run.Answers type after (.allocObj other) := by
  obtain ⟨index, small, notLive, returned, held⟩ := paged.held.take paged.fits.sized other
  have notNull : ¬ (run.pool.curPage = 0 ∧ run.pool.freeablePages = 0) := by
    rw [paged.held.current]
    exact fun both => paged.held.nonNull both.1
  unfold call
  simp only [returned, Option.map_some, if_neg notNull]
  refine ⟨_, rfl, ?_, ?_⟩
  · refine ⟨held, paged.fits, paged.pages, ?_, paged.next, paged.prev, paged.place⟩
    have lengths := held.length
    have word := paged.fits.entryCount_lt
    refine (Function.update_self _ _ _).trans ?_
    rw [paged.used]
    refine Nat.mod_eq_of_lt ?_
    rw [List.length_cons] at lengths
    omega
  · refine ⟨type.object page index, rfl, ?_, ?_⟩
    · intro address owned
      exact if_pos ⟨owned.1, owned.2.1⟩
    · intro live member address owned
      obtain ⟨second, -, rfl⟩ := paged.held.live_object member
      have different : index ≠ second := fun same => notLive (same ▸ member)
      have apart : type.Apart (type.object page index) (type.object page second) :=
        PoolType.object_apart different
      refine if_neg ?_
      rintro ⟨above, below⟩
      obtain ⟨from', upTo, -⟩ := owned
      unfold PoolType.Apart at apart
      omega

theorem returned_used (paged : Paged type run page free) (live : obj ∈ run.pool.objects) :
    (run.pool.returned type page obj).usedCount page = (run.pool.objects.erase obj).length := by
  refine (Function.update_self _ _ _).trans ?_
  have positive := List.length_pos_of_mem live
  have word := paged.length_lt_word
  rw [paged.used, List.length_erase_of_mem live]
  have shifted : run.pool.objects.length + wordLimit - 1 =
      run.pool.objects.length - 1 + wordLimit := by omega
  rw [shifted, Nat.add_mod_right, Nat.mod_eq_of_lt (by omega)]

theorem erase_length_eq_zero (live : obj ∈ run.pool.objects) :
    (run.pool.objects.erase obj).length = 0 ↔ run.pool.objects = [obj] := by
  rw [List.length_erase_of_mem live]
  constructor
  · intro none
    have positive := List.length_pos_of_mem live
    obtain ⟨only, same⟩ := List.length_eq_one_iff.mp (by omega : run.pool.objects.length = 1)
    rw [same, List.mem_singleton] at live
    rw [same, live]
  · intro same
    rw [same]
    rfl

theorem free_works (paged : Paged type run page free) (live : obj ∈ run.pool.objects)
    (meets : run.Meets type (.freeObj obj)) :
    ∃ after, run.call type (.freeObj obj) = some after ∧
      Paged type after page ((obj + type.nodeOffset) :: free) ∧
      run.Answers type after (.freeObj obj) := by
  have held := paged.held.give paged.fits.sized live
  have used := paged.returned_used live
  have freed := paged.held.freeObj live
  by_cases last : run.pool.objects = [obj]
  · have inList : run.pool.freeablePages = 0 := meets.resolve_right (fun others => others last)
    have emptied : (run.pool.returned type page obj).usedCount page = 0 := by
      rw [used, erase_length_eq_zero live]
      exact last
    obtain ⟨first, lastPage, freeable⟩ | ⟨-, -, freeable⟩ := paged.place
    · have unlinked : (run.pool.returned type page obj).unlinkPage page =
          some { run.pool.returned type page obj with
            firstPage := 0, lastPage := 0, freeablePages := page
            prev := Function.update run.pool.prev page 0
            next := Function.update run.pool.next page 0 } := by
        unfold Pool.unlinkPage
        simp only [Pool.returned, first, lastPage, freeable, ne_eq, not_true_eq_false, false_and,
          or_self, if_false, if_true, paged.next, paged.prev]
      rw [if_pos emptied, unlinked] at freed
      unfold call
      simp only [freed, Option.map_some]
      refine ⟨_, rfl, ⟨⟨held.nonNull, held.current, held.leads, held.nodes, held.owner⟩, paged.fits,
        paged.pages, used, Function.update_self _ _ _, Function.update_self _ _ _,
        .inr ⟨rfl, rfl, rfl⟩⟩, rfl, rfl⟩
    · exact absurd (freeable.symm.trans inList) paged.held.nonNull
  · have more : (run.pool.returned type page obj).usedCount page ≠ 0 := by
      rw [used, ne_eq, erase_length_eq_zero live]
      exact last
    rw [if_neg more] at freed
    unfold call
    simp only [freed, Option.map_some]
    exact ⟨_, rfl, ⟨held, paged.fits, paged.pages, used, paged.next, paged.prev, paged.place⟩,
      rfl, rfl⟩

/-- The second time that the page is emptied, it has no neighbours to write. -/
theorem free_faults (paged : Paged type run page free) (live : obj ∈ run.pool.objects)
    (fails : ¬ run.Meets type (.freeObj obj)) : run.call type (.freeObj obj) = none := by
  obtain ⟨spare, last⟩ := not_or.mp fails
  have emptied : (run.pool.returned type page obj).usedCount page = 0 := by
    rw [paged.returned_used live, erase_length_eq_zero live]
    exact not_not.mp last
  have freed := paged.held.freeObj live
  rw [if_pos emptied] at freed
  have faults : (run.pool.returned type page obj).unlinkPage page = none := by
    obtain ⟨-, -, freeable⟩ | ⟨first, -, -⟩ := paged.place
    · exact absurd freeable spare
    · unfold Pool.unlinkPage
      refine if_pos (.inl ⟨?_, paged.prev⟩)
      change page ≠ run.pool.firstPage
      rw [first]
      exact paged.held.nonNull
  unfold call
  simp only [freed, faults, Option.map_none]

/-- A full page is not replaced. -/
theorem alloc_faults (paged : Paged type run page []) (other : Nat) :
    run.call type (.allocObj other) = none := by
  have noNode : run.pool.nextFree page = 0 := paged.held.leads
  unfold call Pool.allocObj
  simp only [paged.held.currentPage, noNode, if_true, Option.map_none]

end Paged

def opened (run : PoolRun) (init : Pool) (page : Nat) : PoolRun :=
  { run with pool := init.opened page, pages := [page] }

theorem opened_paged (start : run.Start) (fresh : run.Fresh page) (fits : type.Fits page) :
    ∃ init, run.pool.takePage type page = (page, init) ∧ init.firstPage = 0 ∧
      init.objects = [] ∧ Paged type (run.opened init page) page (type.nodes page) := by
  obtain ⟨first, -, -, freeable, unused, -⟩ := start
  have several := fits.several
  have last := (fits.object_inPage (Nat.sub_lt several Nat.one_pos)).2
  have header := type.header_le_object page (type.entryCount page - 1)
  have node := fits.node
  have zero := (fresh.zero (type.object page (type.entryCount page - 1) + type.nodeOffset)
    (by omega) (by omega)).1
  obtain ⟨init, taken, leads, next, prev, usedCount, noFirst, spare, objects⟩ :=
    Pool.takePage_fresh fits.sized several fits.entryCount_lt freeable
  have held := Pool.opened_held fresh.nonNull (objects.trans unused) (zero ▸ leads)
  refine ⟨init, taken, noFirst.trans first, objects.trans unused, held, fits, rfl, ?_, ?_, ?_,
    .inl ⟨rfl, rfl, spare.trans freeable⟩⟩
  · change init.usedCount page = init.objects.length
    rw [usedCount, objects, unused, fresh.usedCount]
    rfl
  · exact (congrFun next page).trans fresh.next
  · exact (congrFun prev page).trans fresh.prev

theorem Start.alloc (start : run.Start) (fresh : run.Fresh page) (fits : type.Fits page) :
    ∃ after free, run.call type (.allocObj page) = some after ∧ Paged type after page free ∧
      run.Answers type after (.allocObj page) := by
  obtain ⟨init, taken, noFirst, objects, paged⟩ := opened_paged start fresh fits
  obtain ⟨first, -, current, freeable, unused, pages⟩ := start
  cases listed : type.nodes page with
  | nil =>
      have several := fits.several
      have lengths := congrArg List.length listed
      unfold PoolType.nodes at lengths
      rw [List.length_map, List.length_range, List.length_nil] at lengths
      omega
  | cons node rest =>
      rw [listed] at paged
      obtain ⟨after, returned, kept, answers⟩ := paged.alloc page
      have same : run.call type (.allocObj page) =
          (run.opened init page).call type (.allocObj page) := by
        have notNull : ¬ ((run.opened init page).pool.curPage = 0 ∧
            (run.opened init page).pool.freeablePages = 0) := fun both => fresh.nonNull both.1
        unfold call
        simp only [if_neg notNull, current, freeable, and_self, if_true, pages,
          Pool.allocObj_first current taken noFirst fresh.nonNull]
        rfl
      refine ⟨after, rest, same.trans returned, kept, ?_⟩
      have unchanged : (run.opened init page).pool.objects = run.pool.objects :=
        objects.trans unused.symm
      obtain ⟨obj, live, zeroed, others⟩ := answers
      rw [unchanged] at live others
      exact ⟨obj, live, zeroed, others⟩

theorem Paged.write (paged : Paged type run page free) (address value : Nat) :
    Paged type { run with bytes := Function.update run.bytes address value } page free :=
  ⟨paged.held, paged.fits, paged.pages, paged.used, paged.next, paged.prev, paged.place⟩

theorem Paged.meets_alloc_iff (paged : Paged type run page free) (other : Nat) :
    run.Meets type (.allocObj other) ↔ free ≠ [] := by
  have lengths := paged.held.length
  have notNull : run.pool.curPage ≠ 0 := paged.held.current ▸ paged.held.nonNull
  change (if run.pool.curPage = 0 then _ else _) ↔ _
  rw [if_neg notNull, paged.held.current, ← List.length_pos_iff]
  omega

/-- A call on the page works exactly if it meets the condition, and leaves the page. -/
theorem Paged.call (paged : Paged type run page free) (enabled : run.Enabled type label) :
    (run.Meets type label → ∃ after free, run.call type label = some after ∧
      Paged type after page free ∧ run.Answers type after label) ∧
      (¬ run.Meets type label → run.call type label = none) := by
  cases label with
  | allocObj other =>
      rw [paged.meets_alloc_iff]
      cases free with
      | nil => exact ⟨fun some => absurd rfl some, fun _ => paged.alloc_faults other⟩
      | cons node rest =>
          obtain ⟨after, returned, kept, answers⟩ := paged.alloc other
          exact ⟨fun _ => ⟨after, rest, returned, kept, answers⟩,
            fun none => absurd (List.cons_ne_nil _ _) none⟩
  | freeObj obj =>
      refine ⟨fun meets => ?_, paged.free_faults enabled⟩
      obtain ⟨after, returned, kept, answers⟩ := paged.free_works enabled meets
      exact ⟨after, _, returned, kept, answers⟩
  | write address value =>
      exact ⟨fun _ => ⟨_, free, rfl, paged.write address value, trivial⟩,
        fun fails => absurd trivial fails⟩

theorem Start.call (start : run.Start) (enabled : run.Enabled type label)
    (meets : run.Meets type label) : ∃ after page free, run.call type label = some after ∧
      Paged type after page free ∧ run.Answers type after label := by
  have current := start.2.2.1
  have unused := start.2.2.2.2.1
  cases label with
  | allocObj page =>
      have fits : type.Fits page := by
        have first : if run.pool.curPage = 0 then type.Fits page else _ := meets
        rwa [if_pos current] at first
      have fresh := enabled ⟨current, start.2.2.2.1⟩
      obtain ⟨after, free, returned, kept, answers⟩ := start.alloc fresh fits
      exact ⟨after, page, free, returned, kept, answers⟩
  | freeObj obj =>
      have live : obj ∈ run.pool.objects := enabled
      rw [unused] at live
      exact absurd live List.not_mem_nil
  | write address value =>
      obtain ⟨obj, live, -⟩ := enabled
      rw [unused] at live
      exact absurd live List.not_mem_nil

def Shaped (type : PoolType) (run : PoolRun) : Prop :=
  run.Start ∨ ∃ page free, Paged type run page free

theorem reachable_shaped (reachable : ((machine type).restrict (Meets type)).Reachable run) :
    run.Shaped type := by
  refine Machine.invariant _ (fun _ start => .inl start) ?_ reachable
  rintro before label after (start | ⟨page, free, paged⟩) ⟨meets, enabled, step⟩
  · obtain ⟨result, page, free, returned, kept, -⟩ := start.call enabled meets
    cases returned.symm.trans step
    exact .inr ⟨page, free, kept⟩
  · obtain ⟨result, free, returned, kept, -⟩ := (paged.call enabled).1 meets
    cases returned.symm.trans step
    exact .inr ⟨page, free, kept⟩

/-- In runs whose calls meet the condition everything is as it should be, and the first call that
does not meet it, once there is a page, does not return. -/
theorem pool_consistent (type : PoolType) (run : PoolRun)
    (reachable : ((machine type).restrict (Meets type)).Reachable run) :
    run.Consistent type ∧ ∀ label, run.Enabled type label →
      (run.Meets type label → run.Works type label) ∧
        (run.pool.curPage ≠ 0 → run.Works type label → run.Meets type label) := by
  rcases reachable_shaped reachable with start | ⟨page, free, paged⟩
  · refine ⟨start.consistent, fun label enabled => ⟨fun meets => ?_, fun notNull => ?_⟩⟩
    · obtain ⟨after, page, free, returned, kept, answers⟩ := start.call enabled meets
      exact ⟨after, returned, answers, kept.consistent⟩
    · exact absurd start.2.2.1 notNull
  · refine ⟨paged.consistent, fun label enabled => ⟨fun meets => ?_, fun _ works => ?_⟩⟩
    · obtain ⟨after, free, returned, kept, answers⟩ := (paged.call enabled).1 meets
      exact ⟨after, returned, answers, kept.consistent⟩
    · by_contra fails
      obtain ⟨after, returned, -⟩ := works
      rw [(paged.call enabled).2 fails] at returned
      exact absurd returned.symm (Option.some_ne_none _)

end PoolRun

def newPool : PoolRun :=
  { pool :=
      { poolNode := fun _ => 0, next := fun _ => 0, prev := fun _ => 0, nextFree := fun _ => 0
        index := fun _ => 0, usedCount := fun _ => 0, firstPage := 0, lastPage := 0, curPage := 0
        freeablePages := 0, nextPageIndex := 0, objects := [] }
    bytes := fun _ => 0
    pages := [] }

def largeType : PoolType := ⟨0, 4000, 4⟩

theorem newPool_start : newPool.Start := ⟨rfl, rfl, rfl, rfl, rfl, rfl⟩

theorem newPool_fresh : newPool.Fresh 4096 :=
  ⟨by decide, by decide, fun _ => nofun, rfl, rfl, rfl, fun _ _ _ => ⟨rfl, rfl⟩⟩

theorem largeType_fits : largeType.Fits 4096 :=
  ⟨by decide, by decide, by decide, by decide⟩

open PoolRun in
theorem newPool_first : ∃ after, (machine largeType).step newPool (.allocObj 4096) after ∧
    ((machine largeType).restrict (Meets largeType)).Reachable after ∧
    Paged largeType after 4096 [] ∧ after.pool.objects ≠ [] := by
  obtain ⟨after, free, returned, paged, obj, live, -⟩ :=
    newPool_start.alloc newPool_fresh largeType_fits
  have step : (machine largeType).step newPool (.allocObj 4096) after :=
    ⟨fun _ => newPool_fresh, returned⟩
  have taken : after.pool.objects ≠ [] := by
    rw [live]
    exact List.cons_ne_nil _ _
  have full : free = [] := by
    have lengths := paged.held.length
    have one : largeType.entryCount 4096 = 1 := by decide
    have positive := List.length_pos_iff.mpr taken
    exact List.length_eq_zero_iff.mp (by omega)
  subst full
  exact ⟨after, step, Machine.reachable_step _ (Machine.reachable_start _ newPool_start)
    ⟨show Meets largeType newPool (.allocObj 4096) from largeType_fits, step⟩, paged, taken⟩

theorem pool_consistent_large : ∃ run : PoolRun, run.pool.objects ≠ [] ∧ run.Consistent largeType := by
  obtain ⟨after, -, reachable, -, taken⟩ := newPool_first
  exact ⟨after, taken, (PoolRun.pool_consistent largeType after reachable).1⟩

/-- The second object of a type that fills a page is asked from the full page. -/
theorem fullPage_faults : ∃ run, (PoolRun.machine largeType).Reachable run ∧
    run.Enabled largeType (.allocObj 8192) ∧ run.call largeType (.allocObj 8192) = none ∧
    ¬ run.Works largeType (.allocObj 8192) := by
  obtain ⟨after, step, -, paged, -⟩ := newPool_first
  have faults := paged.alloc_faults 8192
  refine ⟨after, Machine.reachable_step _ (Machine.reachable_start _ newPool_start) step,
    fun both => absurd (paged.held.current.symm.trans both.1) paged.held.nonNull, faults, ?_⟩
  rintro ⟨result, returned, -⟩
  rw [faults] at returned
  exact absurd returned.symm (Option.some_ne_none _)

end DoggOS.Rt

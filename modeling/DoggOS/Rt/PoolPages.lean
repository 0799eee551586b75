/-
The page of a pool.

The nodes of a page are linked in order when it is new.  From then on the free
nodes form a list that starts at `next_free` and ends in what the link of the
last node of the page held, and the nodes of the other objects name the page.
An allocation takes the head of the list and a free puts a node in front.
-/

import DoggOS.Rt.Pool
import Mathlib.Data.List.Nodup
import Mathlib.Data.List.Perm.Basic

namespace DoggOS.Rt

open Mem

namespace PoolType

def entryCount (type : PoolType) (page : Nat) : Nat := (Pool.entriesBlock type page).2

def object (type : PoolType) (page index : Nat) : Nat :=
  (Pool.entriesBlock type page).1 + index * type.objSize

def nodes (type : PoolType) (page : Nat) : List Nat :=
  (List.range (type.entryCount page)).map fun index => type.object page index + type.nodeOffset

theorem nodes_nodup {type : PoolType} (sized : 0 < type.objSize) (page : Nat) :
    (type.nodes page).Nodup := by
  unfold nodes
  apply List.nodup_range.map
  intro one two same
  have scaled : one * type.objSize = two * type.objSize := by
    unfold object at same
    dsimp only at same
    omega
  exact Nat.eq_of_mul_eq_mul_right sized scaled

theorem header_le_object (type : PoolType) (page index : Nat) :
    page + poolPageHeader ≤ type.object page index := by
  unfold object Pool.entriesBlock
  dsimp only
  split
  · exact Nat.le_trans (Nat.le_add_right _ _) (Nat.le_add_right _ _)
  · exact Nat.le_add_right _ _

theorem mem_nodes {type : PoolType} {page node : Nat} (member : node ∈ type.nodes page) :
    ∃ index, index < type.entryCount page ∧ node = type.object page index + type.nodeOffset := by
  obtain ⟨index, small, same⟩ := List.mem_map.mp member
  exact ⟨index, List.mem_range.mp small, same.symm⟩

theorem node_ne_zero {type : PoolType} {page node : Nat} (member : node ∈ type.nodes page) :
    node ≠ 0 := by
  obtain ⟨index, -, rfl⟩ := mem_nodes member
  have behind := type.header_le_object page index
  unfold poolPageHeader at behind
  omega

end PoolType

def Leads (next : Nat → Nat) : Nat → List Nat → Nat → Prop
  | head, [], stop => head = stop
  | head, node :: rest, stop => head = node ∧ Leads next (next node) rest stop

namespace Leads

variable {next next' : Nat → Nat} {head stop node : Nat} {nodes : List Nat}

theorem frame (leads : Leads next head nodes stop)
    (agree : ∀ node ∈ nodes, next' node = next node) : Leads next' head nodes stop := by
  induction nodes generalizing head with
  | nil => exact leads
  | cons node rest ih =>
      refine ⟨leads.1, ?_⟩
      rw [agree node List.mem_cons_self]
      exact ih leads.2 fun other member => agree other (List.mem_cons_of_mem _ member)

theorem update (leads : Leads next head nodes stop) (absent : node ∉ nodes) (link : Nat) :
    Leads (Function.update next node link) head nodes stop :=
  leads.frame fun _ member => Function.update_of_ne (ne_of_mem_of_not_mem member absent) _ _

end Leads

namespace Pool

variable {type : PoolType} {pool after : Pool} {free : List Nat} {page stop obj node : Nat}

theorem linkEntries_fields (type : PoolType) (count curNode : Nat) (pool : Pool) :
    linkEntries type count curNode pool =
      { pool with poolNode := (linkEntries type count curNode pool).poolNode } := by
  induction count generalizing curNode pool with
  | zero => rfl
  | succ count ih =>
      rw [linkEntries]
      exact ih _ _

theorem linkEntries_kept (type : PoolType) (count curNode : Nat) (pool : Pool) :
    (linkEntries type count curNode pool).next = pool.next ∧
      (linkEntries type count curNode pool).prev = pool.prev ∧
      (linkEntries type count curNode pool).usedCount = pool.usedCount ∧
      (linkEntries type count curNode pool).firstPage = pool.firstPage ∧
      (linkEntries type count curNode pool).freeablePages = pool.freeablePages ∧
      (linkEntries type count curNode pool).objects = pool.objects := by
  rw [linkEntries_fields]
  exact ⟨rfl, rfl, rfl, rfl, rfl, rfl⟩

theorem linkEntries_before (type : PoolType) (count : Nat) {curNode node : Nat} (pool : Pool)
    (before : node < curNode) :
    (linkEntries type count curNode pool).poolNode node = pool.poolNode node := by
  induction count generalizing curNode pool with
  | zero => rfl
  | succ count ih =>
      rw [linkEntries, ih _ (by omega)]
      exact Function.update_of_ne (by omega) _ _

theorem linkEntries_leads {type : PoolType} (sized : 0 < type.objSize) (count curNode : Nat)
    (pool : Pool) :
    Leads (linkEntries type count curNode pool).poolNode curNode
      ((List.range (count + 1)).map fun index => curNode + index * type.objSize)
      (pool.poolNode (curNode + count * type.objSize)) := by
  induction count generalizing curNode pool with
  | zero =>
      simp [linkEntries, Leads]
  | succ count ih =>
      have rest := ih (curNode + type.objSize)
        { pool with
          poolNode := Function.update pool.poolNode curNode (curNode + type.objSize) }
      have linked : (linkEntries type (count + 1) curNode pool).poolNode curNode =
          curNode + type.objSize := by
        rw [linkEntries, linkEntries_before _ _ _ (by omega)]
        exact Function.update_self _ _ _
      have last : curNode + type.objSize + count * type.objSize =
          curNode + (count + 1) * type.objSize := by
        rw [Nat.succ_mul]
        omega
      have later : curNode + (count + 1) * type.objSize ≠ curNode := by
        have positive : 0 < (count + 1) * type.objSize := Nat.mul_pos (Nat.succ_pos _) sized
        omega
      have kept := Function.update_of_ne later (curNode + type.objSize) pool.poolNode
      dsimp only at rest
      rw [last, kept] at rest
      have shifted : (List.range (count + 1)).map
          (fun index => curNode + type.objSize + index * type.objSize) =
          (List.range (count + 1)).map fun index => curNode + (index + 1) * type.objSize := by
        apply List.map_congr_left
        intro index _
        rw [Nat.succ_mul]
        omega
      rw [List.range_succ_eq_map, List.map_cons, List.map_map]
      have first : curNode + 0 * type.objSize = curNode := by rw [Nat.zero_mul, Nat.add_zero]
      refine ⟨first.symm, ?_⟩
      rw [first, linked]
      exact shifted ▸ rest

def returned (type : PoolType) (pool : Pool) (page obj : Nat) : Pool :=
  { pool with
    poolNode := Function.update pool.poolNode (obj + type.nodeOffset) (pool.nextFree page)
    nextFree := Function.update pool.nextFree page (obj + type.nodeOffset)
    usedCount := Function.update pool.usedCount page
      ((pool.usedCount page + wordLimit - 1) % wordLimit)
    objects := pool.objects.erase obj }

structure Held (type : PoolType) (pool : Pool) (page : Nat) (free : List Nat) (stop : Nat) :
    Prop where
  nonNull : page ≠ 0
  current : pool.curPage = page
  leads : Leads pool.poolNode (pool.nextFree page) free stop
  nodes : (free ++ pool.objects.map fun obj => obj + type.nodeOffset).Perm (type.nodes page)
  owner : ∀ obj ∈ pool.objects, pool.poolNode (obj + type.nodeOffset) = page

def blankPage (type : PoolType) (pool : Pool) (page : Nat) : Pool :=
  { pool with
    nextFree :=
      Function.update pool.nextFree page ((entriesBlock type page).1 + type.nodeOffset) }

theorem initPage_eq (type : PoolType) (pool : Pool) (page : Nat) :
    pool.initPage type page = linkEntries type ((type.entryCount page + wordLimit - 1) % wordLimit)
      ((entriesBlock type page).1 + type.nodeOffset) (pool.blankPage type page) := by
  unfold initPage blankPage PoolType.entryCount
  cases entriesBlock type page
  simp only

theorem initPage_kept (type : PoolType) (pool : Pool) (page : Nat) :
    (pool.initPage type page).next = pool.next ∧ (pool.initPage type page).prev = pool.prev ∧
      (pool.initPage type page).usedCount = pool.usedCount ∧
      (pool.initPage type page).firstPage = pool.firstPage ∧
      (pool.initPage type page).freeablePages = pool.freeablePages ∧
      (pool.initPage type page).objects = pool.objects := by
  rw [initPage_eq]
  exact linkEntries_kept type _ _ (pool.blankPage type page)

theorem initPage_nextFree (type : PoolType) (pool : Pool) (page : Nat) :
    (pool.initPage type page).nextFree page = (entriesBlock type page).1 + type.nodeOffset := by
  rw [initPage_eq, linkEntries_fields]
  exact Function.update_self _ _ _

theorem initPage_leads (sized : 0 < type.objSize) (several : 0 < type.entryCount page)
    (word : type.entryCount page < wordLimit) (pool : Pool) :
    Leads (pool.initPage type page).poolNode ((pool.initPage type page).nextFree page)
      (type.nodes page)
      (pool.poolNode (type.object page (type.entryCount page - 1) + type.nodeOffset)) := by
  obtain ⟨count, isCount⟩ : ∃ count, type.entryCount page = count + 1 :=
    Nat.exists_eq_succ_of_ne_zero several.ne'
  have turns : (type.entryCount page + wordLimit - 1) % wordLimit = count := by
    rw [isCount] at word ⊢
    have shifted : count + 1 + wordLimit - 1 = count + wordLimit := by omega
    rw [shifted, Nat.add_mod_right, Nat.mod_eq_of_lt (by omega)]
  have linked := linkEntries_leads sized count ((entriesBlock type page).1 + type.nodeOffset)
    (pool.blankPage type page)
  have nodes : type.nodes page = (List.range (count + 1)).map fun index =>
      (entriesBlock type page).1 + type.nodeOffset + index * type.objSize := by
    unfold PoolType.nodes PoolType.object
    rw [isCount]
    apply List.map_congr_left
    intro index _
    omega
  have last : type.object page (type.entryCount page - 1) + type.nodeOffset =
      (entriesBlock type page).1 + type.nodeOffset + count * type.objSize := by
    unfold PoolType.object
    rw [isCount, Nat.add_sub_cancel]
    omega
  rw [initPage_nextFree, nodes, last, initPage_eq, turns]
  exact linked

namespace Held

variable {rest : List Nat}

theorem nodes_nodup (held : Held type pool page free stop) (sized : 0 < type.objSize) :
    (free ++ pool.objects.map fun obj => obj + type.nodeOffset).Nodup :=
  held.nodes.nodup_iff.mpr (PoolType.nodes_nodup sized page)

theorem length (held : Held type pool page free stop) :
    free.length + pool.objects.length = type.entryCount page := by
  have lengths := held.nodes.length_eq
  rw [List.length_append, List.length_map] at lengths
  rw [lengths]
  unfold PoolType.nodes
  rw [List.length_map, List.length_range]

theorem free_object (held : Held type pool page free stop) (member : node ∈ free) :
    ∃ index, index < type.entryCount page ∧ node = type.object page index + type.nodeOffset :=
  PoolType.mem_nodes (held.nodes.subset (List.mem_append_left _ member))

theorem live_object (held : Held type pool page free stop) (live : obj ∈ pool.objects) :
    ∃ index, index < type.entryCount page ∧ obj = type.object page index := by
  obtain ⟨index, small, same⟩ := PoolType.mem_nodes (held.nodes.subset
    (List.mem_append_right _ (List.mem_map_of_mem live)))
  exact ⟨index, small, by omega⟩

theorem currentPage (held : Held type pool page free stop) (other : Nat) :
    pool.currentPage type other = (page, pool) := by
  have notNull : pool.curPage ≠ 0 := held.current ▸ held.nonNull
  unfold Pool.currentPage
  rw [if_pos notNull, held.current]

theorem take (held : Held type pool page (node :: rest) stop) (sized : 0 < type.objSize)
    (other : Nat) : ∃ index, index < type.entryCount page ∧
      type.object page index ∉ pool.objects ∧
      pool.allocObj type other = some (type.object page index, { pool with
        nextFree := Function.update pool.nextFree page (pool.poolNode node)
        usedCount := Function.update pool.usedCount page ((pool.usedCount page + 1) % wordLimit)
        poolNode := Function.update pool.poolNode node page
        objects := type.object page index :: pool.objects }) ∧
      Held type { pool with
        nextFree := Function.update pool.nextFree page (pool.poolNode node)
        usedCount := Function.update pool.usedCount page ((pool.usedCount page + 1) % wordLimit)
        poolNode := Function.update pool.poolNode node page
        objects := type.object page index :: pool.objects } page rest stop := by
  obtain ⟨index, small, isNode⟩ := held.free_object List.mem_cons_self
  have inNodes := held.nodes.subset (List.mem_append_left _ List.mem_cons_self)
  have nodup := held.nodes_nodup sized
  have apart := (List.nodup_cons.mp (List.cons_append ▸ nodup)).1
  have notRest : node ∉ rest := fun member => apart (List.mem_append_left _ member)
  have notLive : type.object page index ∉ pool.objects := by
    intro live
    apply apart
    rw [isNode]
    exact List.mem_append_right _
      (List.mem_map_of_mem (f := fun obj => obj + type.nodeOffset) live)
  have isFirst : pool.nextFree page = node := held.leads.1
  refine ⟨index, small, notLive, ?_, held.nonNull, held.current, ?_, ?_, ?_⟩
  · have obj : node - type.nodeOffset = type.object page index := by omega
    unfold allocObj
    simp only [held.currentPage, isFirst, if_neg (PoolType.node_ne_zero inNodes), obj]
  · have head : Function.update pool.nextFree page (pool.poolNode node) page =
        pool.poolNode node := Function.update_self _ _ _
    dsimp only
    rw [head]
    exact held.leads.2.update notRest _
  · refine List.Perm.trans ?_ held.nodes
    rw [List.map_cons, ← isNode]
    exact List.perm_middle
  · intro obj live
    rcases List.mem_cons.mp live with rfl | old
    · rw [← isNode]
      exact Function.update_self _ _ _
    · have different : obj + type.nodeOffset ≠ node := by
        intro same
        apply apart
        rw [← same]
        exact List.mem_append_right _ (List.mem_map_of_mem old)
      exact (Function.update_of_ne different _ _).trans (held.owner obj old)

/-- The page of a live object is the current one, so it stays the current one. -/
theorem freeObj (held : Held type pool page free stop) (live : obj ∈ pool.objects) :
    pool.freeObj type obj =
      if (returned type pool page obj).usedCount page = 0 then
        (returned type pool page obj).unlinkPage page
      else some (returned type pool page obj) := by
  obtain ⟨index, -, isObject⟩ := held.live_object live
  have behind := type.header_le_object page index
  have nonNull : obj ≠ 0 := by
    unfold poolPageHeader at behind
    omega
  have stays : ¬ (page = 0 ∨ pool.index page < pool.index page) := by
    rintro (null | less)
    · exact held.nonNull null
    · exact absurd less (Nat.lt_irrefl _)
  unfold Pool.freeObj
  simp only [if_neg nonNull, held.owner obj live, if_neg held.nonNull, held.current, if_neg stays,
    returned]

theorem give (held : Held type pool page free stop) (sized : 0 < type.objSize)
    (live : obj ∈ pool.objects) :
    Held type (returned type pool page obj) page ((obj + type.nodeOffset) :: free) stop := by
  have nodup := held.nodes_nodup sized
  obtain ⟨-, liveNodup, apart⟩ := List.nodup_append.mp nodup
  have inLive : obj + type.nodeOffset ∈ pool.objects.map fun obj => obj + type.nodeOffset :=
    List.mem_map_of_mem live
  have notFree : obj + type.nodeOffset ∉ free := fun member =>
    apart _ member _ inLive rfl
  have objectsNodup : pool.objects.Nodup := List.Nodup.of_map _ liveNodup
  refine ⟨held.nonNull, held.current, ?_, ?_, ?_⟩
  · refine ⟨Function.update_self _ _ _, ?_⟩
    have link : (returned type pool page obj).poolNode (obj + type.nodeOffset) =
        pool.nextFree page := Function.update_self _ _ _
    rw [link]
    exact held.leads.update notFree _
  · refine List.Perm.trans ?_ held.nodes
    have split := (List.perm_cons_erase live).map fun obj => obj + type.nodeOffset
    rw [List.map_cons] at split
    exact List.perm_middle.symm.trans (split.symm.append_left free)
  · intro other kept
    have different : other ≠ obj := ((objectsNodup.mem_erase_iff).mp kept).1
    have notHere : other + type.nodeOffset ≠ obj + type.nodeOffset := by omega
    exact (Function.update_of_ne notHere _ _).trans (held.owner other (List.mem_of_mem_erase kept))

end Held

/-- A page that `k_rt_Malloc` gives is linked up, and nothing else changes. -/
theorem takePage_fresh (sized : 0 < type.objSize) (several : 0 < type.entryCount page)
    (word : type.entryCount page < wordLimit) (noSpare : pool.freeablePages = 0) :
    ∃ init, pool.takePage type page = (page, init) ∧
      Leads init.poolNode (init.nextFree page) (type.nodes page)
        (pool.poolNode (type.object page (type.entryCount page - 1) + type.nodeOffset)) ∧
      init.next = pool.next ∧ init.prev = pool.prev ∧ init.usedCount = pool.usedCount ∧
      init.firstPage = pool.firstPage ∧ init.freeablePages = pool.freeablePages ∧
      init.objects = pool.objects := by
  refine ⟨pool.initPage type page, ?_, initPage_leads sized several word pool,
    initPage_kept type pool page⟩
  unfold takePage
  rw [if_neg (not_not.mpr noSpare)]

def opened (pool : Pool) (page : Nat) : Pool :=
  { pool with
    curPage := page
    firstPage := page
    lastPage := page
    index := Function.update pool.index page pool.nextPageIndex
    nextPageIndex := (pool.nextPageIndex + 1) % wordLimit }

theorem currentPage_first {init : Pool} (noPage : pool.curPage = 0)
    (taken : pool.takePage type page = (page, init)) (noFirst : init.firstPage = 0) :
    pool.currentPage type page = (page, init.opened page) := by
  unfold currentPage linkPage opened
  simp only [noPage, taken, noFirst, ne_eq, not_true_eq_false, if_false, if_true]

theorem allocObj_first {init : Pool} (noPage : pool.curPage = 0)
    (taken : pool.takePage type page = (page, init)) (noFirst : init.firstPage = 0)
    (nonNull : page ≠ 0) : pool.allocObj type page = (init.opened page).allocObj type page := by
  have stays : (init.opened page).currentPage type page = (page, init.opened page) :=
    if_pos nonNull
  unfold allocObj
  simp only [currentPage_first noPage taken noFirst, stays]

theorem opened_held {init : Pool} (nonNull : page ≠ 0) (unused : init.objects = [])
    (leads : Leads init.poolNode (init.nextFree page) (type.nodes page) stop) :
    Held type (init.opened page) page (type.nodes page) stop := by
  have objects : (init.opened page).objects = [] := unused
  refine ⟨nonNull, rfl, leads, ?_, ?_⟩
  · rw [objects, List.map_nil, List.append_nil]
  · rw [objects]
    exact fun _ => nofun

end Pool

end DoggOS.Rt

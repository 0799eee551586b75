/-
Runs of the disk command allocator.

`Consistent` is what the pages and their count should be between two calls:
`cmd_page_count` is the length of the list and an emptied page leaves it unless
it is alone.  `k_dev_InitDiskCmdPage` appends a page without counting it, so the
count is zero in every run while the list never is; the commands themselves are
given out as they should be.
-/

import DoggOS.Dev.DiskCmdPageLists

namespace DoggOS.Dev.CmdPages

open Mem

variable {layout : CmdLayout} {disk : CmdPages} {listed : List Nat} {free : Nat → List Nat}
  {page cmd : Nat}

structure Allocated (layout : CmdLayout) (disk : CmdPages) (listed : List Nat) : Prop where
  linked : DoublyLinked disk.next disk.prev disk.cmdPages disk.lastCmdPage listed
  current : disk.curCmdPage ∈ listed
  used : ∀ page ∈ listed,
    disk.usedCount page = (disk.live.filter (· ∈ layout.cmds page)).length
  inside : ∀ cmd ∈ disk.live, ∃ page ∈ listed, cmd ∈ layout.cmds page ∧
    page + cmdPageHeader ≤ cmd ∧ cmd + layout.cmdSize ≤ page + cmdPageSize
  aligned : layout.cmdAlign ∣ layout.cmdSize → ∀ cmd ∈ disk.live, layout.cmdAlign ∣ cmd
  apart : ∀ cmd ∈ disk.live, ∀ other ∈ disk.live, cmd ≠ other →
    cmd + layout.cmdSize ≤ other ∨ other + layout.cmdSize ≤ cmd
  nodup : disk.live.Nodup

structure Consistent (layout : CmdLayout) (disk : CmdPages) (listed freeable : List Nat) : Prop where
  allocated : Allocated layout disk listed
  count : disk.cmdPageCount = listed.length
  emptied : ∀ page ∈ listed, disk.usedCount page = 0 → listed = [page]
  freeable : Chain disk.next disk.freeableCmdPages freeable

theorem Tracked.allocated (tracked : Tracked layout disk listed free)
    (current : disk.curCmdPage ∈ listed) : Allocated layout disk listed := by
  refine ⟨tracked.linked, current, fun page => tracked.lists.used_eq, ?_, ?_, ?_,
    tracked.lists.liveNodup⟩
  · intro cmd isLive
    obtain ⟨page, member, inPage⟩ := tracked.lists.living cmd isLive
    exact ⟨page, member, inPage,
      CmdLayout.cmd_inside (tracked.inside page (tracked.known page member)) inPage⟩
  · intro multiple cmd isLive
    obtain ⟨page, member, inPage⟩ := tracked.lists.living cmd isLive
    exact CmdLayout.cmd_aligned (tracked.inside page (tracked.known page member)) multiple inPage
  · intro cmd isLive other otherLive different
    obtain ⟨page, member, inPage⟩ := tracked.lists.living cmd isLive
    obtain ⟨otherPage, otherMember, otherIn⟩ := tracked.lists.living other otherLive
    by_cases same : page = otherPage
    · rw [← same] at otherIn
      exact CmdLayout.cmd_apart inPage otherIn different
    · have known := tracked.known page member
      have otherKnown := tracked.known otherPage otherMember
      have here := CmdLayout.cmd_inside (tracked.inside page known) inPage
      have there := CmdLayout.cmd_inside (tracked.inside otherPage otherKnown) otherIn
      rcases tracked.apart page known otherPage otherKnown same with before | behind
      · exact Or.inl (by omega)
      · exact Or.inr (by omega)

theorem Start.tracked (start : Start layout disk) :
    ∃ listed free, Tracked layout disk listed free ∧ disk.curCmdPage ∈ listed := by
  obtain ⟨blank, page, isBlank, fresh, rfl⟩ := start
  have empty : Tracked layout blank [] fun _ => [] := by
    refine ⟨?_, ?_, fun _ => nofun, ?_, ?_, isBlank.cmdPageCount, isBlank.freeableCmdPages⟩
    · rw [isBlank.cmdPages, isBlank.lastCmdPage]
      exact DoublyLinked.nil
    · rw [isBlank.live]
      exact PageFreeLists.nil
    · rw [isBlank.pages]
      exact fun _ => nofun
    · rw [isBlank.pages]
      exact fun _ => nofun
  obtain ⟨malloced, unlisted⟩ := empty.mallocPage fresh
  have made := malloced.initDiskCmdPage fresh.1 unlisted List.mem_cons_self
    (Function.update_self _ _ _) (Function.update_self _ _ _)
  exact ⟨_, _, made.setCurrent page, List.mem_append_right _ List.mem_cons_self⟩

theorem reachable_tracked (reachable : (machine layout).Reachable disk) :
    ∃ listed free, Tracked layout disk listed free ∧ disk.curCmdPage ∈ listed := by
  apply (machine layout).invariant (fun _ start => start.tracked) _ reachable
  rintro before label after ⟨listed, free, tracked, current⟩ ⟨enabled, called⟩
  cases label with
  | allocDiskCmd page =>
      obtain ⟨cmd, reached, listed', free', returned, -, -, tracked', current'⟩ :=
        tracked.allocDiskCmd current enabled
      unfold CmdPages.call at called
      simp only [returned] at called
      cases called
      exact ⟨listed', free', tracked', current'⟩
  | freeDiskCmd cmd =>
      obtain ⟨free', -, tracked', current'⟩ := tracked.freeDiskCmd current enabled
      have same : some (before.freeDiskCmd cmd) = some after := called
      cases same
      exact ⟨listed, free', tracked', current'⟩

/-- No run counts its pages or keeps an emptied one for later; the commands in use lie in the
listed pages without overlapping, an allocation gives one more and a release takes it back. -/
theorem diskCmds_uncounted (reachable : (machine layout).Reachable disk) :
    (¬ ∃ listed freeable, Consistent layout disk listed freeable) ∧
      disk.cmdPageCount = 0 ∧ disk.freeableCmdPages = 0 ∧
      (∃ listed, Allocated layout disk listed) ∧
      (∀ page, disk.FreshPage page →
        ∃ cmd after, disk.allocDiskCmd layout page = some (cmd, after) ∧ cmd ∉ disk.live ∧
          after.live = cmd :: disk.live) ∧
      ∀ cmd ∈ disk.live, (disk.freeDiskCmd cmd).live = disk.live.erase cmd := by
  obtain ⟨listed, free, tracked, current⟩ := reachable_tracked reachable
  refine ⟨?_, tracked.uncounted, tracked.noFreeable, ⟨listed, tracked.allocated current⟩,
    fun page fresh => ?_, fun cmd isLive => ?_⟩
  · rintro ⟨other, freeable, consistent⟩
    have count := consistent.count
    rw [tracked.uncounted] at count
    have none : other = [] := List.eq_nil_of_length_eq_zero count.symm
    have some := consistent.allocated.current
    rw [none] at some
    cases some
  · obtain ⟨cmd, after, -, -, returned, notLive, live, -, -⟩ := tracked.allocDiskCmd current fresh
    exact ⟨cmd, after, returned, notLive, live⟩
  · obtain ⟨free', live, -, -⟩ := tracked.freeDiskCmd current isLive
    exact live

instance : Decidable (disk.FreshPage page) := inferInstanceAs (Decidable (_ ∧ _ ∧ _))

instance (label : CmdCall) : Decidable (disk.Enabled label) :=
  match label with
  | .allocDiskCmd page => inferInstanceAs (Decidable (disk.FreshPage page))
  | .freeDiskCmd cmd => inferInstanceAs (Decidable (cmd ∈ disk.live))

def nextDisk (layout : CmdLayout) (disk : CmdPages) (label : CmdCall) : Option CmdPages :=
  if disk.Enabled label then disk.call layout label else none

theorem step_of_next {label : CmdCall} {after : CmdPages}
    (defined : nextDisk layout disk label = some after) :
    (machine layout).step disk label after := by
  unfold nextDisk at defined
  split at defined
  · exact ⟨‹_›, defined⟩
  · cases defined

def wide : CmdLayout := ⟨255, 1, by decide, by decide, 0, by decide, rfl⟩

def blankDisk : CmdPages where
  next _ := 0
  prev _ := 0
  nextFree _ := 0
  usedCount _ := 0
  index _ := 0
  cmdNext _ := 0
  cmdPage _ := 0
  cmdFields _ := ⟨0, .last, 0, 0, 0, 0⟩
  cmdPages := 0
  lastCmdPage := 0
  curCmdPage := 0
  freeableCmdPages := 0
  cmdPageIndex := 0
  cmdPageCount := 0
  live := []
  pages := []

def onePage : CmdPages :=
  { (blankDisk.mallocPage 4096).initDiskCmdPage wide 4096 with curCmdPage := 4096 }

theorem onePage_start : Start wide onePage :=
  ⟨blankDisk, 4096, ⟨rfl, rfl, rfl, rfl, rfl, rfl, rfl⟩, ⟨by decide, by decide, fun _ => nofun⟩, rfl⟩

def overflowing : List CmdCall :=
  List.replicate 16 (.allocDiskCmd 8192) ++ [.freeDiskCmd (wide.cmd 4096 3)]

theorem diskCmds_uncounted_twoPages : ∃ disk, (machine wide).Reachable disk ∧
    disk.usedCount 4096 = 14 ∧ disk.usedCount 8192 = 1 ∧
      (¬ ∃ listed freeable, Consistent wide disk listed freeable) ∧
      ∃ listed, Allocated wide disk listed := by
  have ran : (Machine.follow (nextDisk wide) onePage overflowing).map (fun disk =>
      (disk.usedCount 4096, disk.usedCount 8192)) = some (14, 1) := by decide +kernel
  obtain ⟨disk, followed, fields⟩ := Option.map_eq_some_iff.mp ran
  simp only [Prod.mk.injEq] at fields
  have reachable : (machine wide).Reachable disk :=
    (machine wide).follow_reachable (fun _ _ _ => step_of_next)
      ((machine wide).reachable_start onePage_start) followed
  obtain ⟨uncounted, -, -, allocated, -⟩ := diskCmds_uncounted reachable
  exact ⟨disk, reachable, fields.1, fields.2, uncounted, allocated⟩

def emptying : List CmdCall :=
  List.replicate 16 (.allocDiskCmd 8192) ++
    (List.range 15).map fun index => .freeDiskCmd (wide.cmd 4096 index)

theorem emptiedPage_stays : ∃ disk, (machine wide).Reachable disk ∧ disk.cmdPageCount = 0 ∧
    disk.cmdPages = 4096 ∧ disk.next 4096 = 8192 ∧ disk.usedCount 4096 = 0 ∧
    disk.usedCount 8192 = 1 ∧ disk.freeableCmdPages = 0 ∧
    ¬ ∃ listed freeable, Consistent wide disk listed freeable := by
  have ran : (Machine.follow (nextDisk wide) onePage emptying).map (fun disk =>
      (disk.cmdPageCount, disk.cmdPages, disk.next 4096, disk.usedCount 4096, disk.usedCount 8192,
        disk.freeableCmdPages)) = some (0, 4096, 8192, 0, 1, 0) := by decide +kernel
  obtain ⟨disk, followed, fields⟩ := Option.map_eq_some_iff.mp ran
  simp only [Prod.mk.injEq] at fields
  obtain ⟨count, first, second, emptied, used, freeable⟩ := fields
  refine ⟨disk, (machine wide).follow_reachable (fun _ _ _ => step_of_next)
    ((machine wide).reachable_start onePage_start) followed, count, first, second, emptied, used,
    freeable, ?_⟩
  rintro ⟨listed, spare, consistent⟩
  have none : listed = [] :=
    List.eq_nil_of_length_eq_zero (consistent.count.symm.trans count)
  have noPages := consistent.allocated.linked.eq_nil_iff.mp none
  rw [first] at noPages
  cases noPages

end DoggOS.Dev.CmdPages

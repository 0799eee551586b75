/-
What the lists of the command pages spell.

The commands of a page stand in a row inside it and are linked in that order.
`Tracked` ties the links in memory to two ghosts, the pages of the list and the
free commands of each page.  The driver starts with no page counted and no call
counts one, so no emptied page ever leaves the list.
-/

import DoggOS.Dev.DiskCmdPages
import DoggOS.Library.Bits
import DoggOS.Library.PageFreeLists

namespace DoggOS.Dev

open Mem

namespace CmdLayout

variable {layout : CmdLayout} {page other cmd one two : Nat}

theorem cmdStart_spec (layout : CmdLayout) (inside : page + cmdPageSize ≤ wordLimit) :
    page + cmdPageHeader ≤ layout.cmdStart page ∧
      layout.cmdStart page < page + cmdPageHeader + 128 ∧
      layout.cmdAlign ∣ layout.cmdStart page := by
  obtain ⟨bit, small, isPower⟩ := layout.power
  have positive : 0 < 2 ^ bit := Nat.two_pow_pos bit
  have atMost : 2 ^ bit ≤ 2 ^ 7 := Nat.pow_le_pow_right (by decide) (by omega)
  have fits : page + cmdPageHeader + (2 ^ bit - 1) < 2 ^ 32 := by
    unfold cmdPageSize wordLimit at inside
    unfold cmdPageHeader
    omega
  have rounded := Bits.and_high _ bit 32 fits (by omega)
  have below := Nat.mod_lt (page + cmdPageHeader + (2 ^ bit - 1)) positive
  have start : layout.cmdStart page = page + cmdPageHeader + (2 ^ bit - 1) -
      (page + cmdPageHeader + (2 ^ bit - 1)) % 2 ^ bit := by
    unfold cmdStart wordLimit
    rw [isPower, Nat.mod_eq_of_lt fits, rounded]
  rw [start, isPower]
  refine ⟨by omega, by omega, Nat.dvd_sub_mod _⟩

theorem row_fits (layout : CmdLayout) (inside : page + cmdPageSize ≤ wordLimit) :
    layout.cmdStart page + layout.cmdSize * layout.cmdCount page ≤ page + cmdPageSize := by
  obtain ⟨above, below, -⟩ := layout.cmdStart_spec inside
  have product := Nat.mul_div_le
    (cmdPageSize - cmdPageHeader - (layout.cmdStart page - (page + cmdPageHeader))) layout.cmdSize
  unfold cmdCount
  unfold cmdPageHeader cmdPageSize at *
  omega

theorem several (layout : CmdLayout) (inside : page + cmdPageSize ≤ wordLimit) :
    2 ≤ layout.cmdCount page := by
  obtain ⟨above, below, -⟩ := layout.cmdStart_spec inside
  have holds := layout.holds
  have byte := layout.byte
  unfold cmdCount
  rw [Nat.le_div_iff_mul_le (by omega)]
  unfold cmdPageHeader cmdPageSize at *
  omega

theorem mem_cmds : cmd ∈ layout.cmds page ↔
    ∃ index, index < layout.cmdCount page ∧ layout.cmd page index = cmd := by
  unfold cmds
  rw [List.mem_map]
  exact exists_congr fun index => and_congr_left fun _ => List.mem_range

theorem cmd_inj (same : layout.cmd page one = layout.cmd page two) : one = two := by
  have holds := layout.holds
  unfold cmd at same
  exact Nat.eq_of_mul_eq_mul_left (by omega) (Nat.add_left_cancel same)

theorem cmds_nodup (layout : CmdLayout) (page : Nat) : (layout.cmds page).Nodup :=
  List.nodup_range.map fun _ _ same => cmd_inj same

theorem cmd_inside (inside : page + cmdPageSize ≤ wordLimit) (member : cmd ∈ layout.cmds page) :
    page + cmdPageHeader ≤ cmd ∧ cmd + layout.cmdSize ≤ page + cmdPageSize := by
  obtain ⟨index, small, same⟩ := mem_cmds.mp member
  have above := (layout.cmdStart_spec inside).1
  have fits := layout.row_fits inside
  have next : layout.cmdSize * (index + 1) ≤ layout.cmdSize * layout.cmdCount page :=
    Nat.mul_le_mul_left _ small
  rw [Nat.mul_add, Nat.mul_one] at next
  unfold CmdLayout.cmd at same
  omega

theorem cmd_apart (inPage : one ∈ layout.cmds page) (otherIn : two ∈ layout.cmds page)
    (different : one ≠ two) : one + layout.cmdSize ≤ two ∨ two + layout.cmdSize ≤ one := by
  obtain ⟨i, -, rfl⟩ := mem_cmds.mp inPage
  obtain ⟨j, -, rfl⟩ := mem_cmds.mp otherIn
  have ordered : ∀ {i j}, i < j → layout.cmd page i + layout.cmdSize ≤ layout.cmd page j := by
    intro i j smaller
    have product : layout.cmdSize * (i + 1) ≤ layout.cmdSize * j := Nat.mul_le_mul_left _ smaller
    rw [Nat.mul_add, Nat.mul_one] at product
    unfold CmdLayout.cmd
    omega
  rcases Nat.lt_trichotomy i j with smaller | same | greater
  · exact Or.inl (ordered smaller)
  · exact absurd (congrArg (layout.cmd page) same) different
  · exact Or.inr (ordered greater)

theorem cmd_aligned (inside : page + cmdPageSize ≤ wordLimit)
    (multiple : layout.cmdAlign ∣ layout.cmdSize) (member : cmd ∈ layout.cmds page) :
    layout.cmdAlign ∣ cmd := by
  obtain ⟨index, -, rfl⟩ := mem_cmds.mp member
  exact Nat.dvd_add (layout.cmdStart_spec inside).2.2 (Nat.dvd_mul_right_of_dvd multiple index)

end CmdLayout

namespace CmdPages

variable {layout : CmdLayout} {disk : CmdPages} {listed front back rest : List Nat}
  {free : Nat → List Nat} {page other cmd : Nat}

theorem linkCmds_fields (layout : CmdLayout) (page count last start : Nat) (disk : CmdPages) :
    (linkCmds layout page count last start disk).2 = { disk with
      cmdNext := (linkCmds layout page count last start disk).2.cmdNext
      cmdPage := (linkCmds layout page count last start disk).2.cmdPage
      cmdFields := (linkCmds layout page count last start disk).2.cmdFields } := by
  induction count generalizing last start disk with
  | zero => rfl
  | succ count ih =>
      rw [linkCmds]
      exact ih _ _ _

theorem linkCmds_last (layout : CmdLayout) (page count last start : Nat) (disk : CmdPages) :
    (linkCmds layout page (count + 1) last start disk).1 = start + layout.cmdSize * count := by
  induction count generalizing last start disk with
  | zero => rfl
  | succ count ih =>
      rw [linkCmds, ih, Nat.mul_succ]
      omega

theorem linkCmds_frame (count last start : Nat) (disk : CmdPages)
    (outside : ∀ index, index < count → cmd ≠ start + layout.cmdSize * index) :
    (linkCmds layout page count last start disk).2.cmdNext cmd = disk.cmdNext cmd ∧
      (linkCmds layout page count last start disk).2.cmdPage cmd = disk.cmdPage cmd := by
  induction count generalizing last start disk with
  | zero => exact ⟨rfl, rfl⟩
  | succ count ih =>
      have notHere : cmd ≠ start := outside 0 (Nat.succ_pos count)
      rw [linkCmds]
      obtain ⟨next, owner⟩ := ih start (start + layout.cmdSize) { disk with
          cmdNext := Function.update disk.cmdNext start (start + layout.cmdSize)
          cmdPage := Function.update disk.cmdPage start page
          cmdFields := Function.update disk.cmdFields start
            { disk.cmdFields start with type := .last, buffer := 0 } }
        (fun index small => by
          have later := outside (index + 1) (by omega)
          rw [Nat.mul_succ] at later
          omega)
      exact ⟨next.trans (Function.update_of_ne notHere _ _),
        owner.trans (Function.update_of_ne notHere _ _)⟩

theorem linkCmds_row (count last start : Nat) (disk : CmdPages) {index : Nat}
    (small : index < count) :
    (linkCmds layout page count last start disk).2.cmdNext (start + layout.cmdSize * index) =
        start + layout.cmdSize * (index + 1) ∧
      (linkCmds layout page count last start disk).2.cmdPage (start + layout.cmdSize * index) =
        page := by
  have holds := layout.holds
  induction count generalizing last start disk index with
  | zero => omega
  | succ count ih =>
      rw [linkCmds]
      cases index with
      | zero =>
          have outside : ∀ index, index < count →
              start ≠ start + layout.cmdSize + layout.cmdSize * index := by
            intro index _
            omega
          obtain ⟨next, owner⟩ := @linkCmds_frame layout page start count start
            (start + layout.cmdSize) { disk with
              cmdNext := Function.update disk.cmdNext start (start + layout.cmdSize)
              cmdPage := Function.update disk.cmdPage start page
              cmdFields := Function.update disk.cmdFields start
                { disk.cmdFields start with type := .last, buffer := 0 } } outside
          rw [Nat.mul_zero, Nat.add_zero, Nat.zero_add, Nat.mul_one]
          exact ⟨next.trans (Function.update_self _ _ _), owner.trans (Function.update_self _ _ _)⟩
      | succ index =>
          have more := @ih start (start + layout.cmdSize) { disk with
              cmdNext := Function.update disk.cmdNext start (start + layout.cmdSize)
              cmdPage := Function.update disk.cmdPage start page
              cmdFields := Function.update disk.cmdFields start
                { disk.cmdFields start with type := .last, buffer := 0 } } index (by omega)
          have place : ∀ index, start + layout.cmdSize * (index + 1) =
              start + layout.cmdSize + layout.cmdSize * index := by
            intro index
            rw [Nat.mul_succ]
            omega
          rw [place index, place (index + 1)]
          exact more

/-- The fields that `k_dev_InitDiskCmdPage` writes before its loop. -/
def openPage (layout : CmdLayout) (disk : CmdPages) (page : Nat) : CmdPages :=
  { disk with
    usedCount := Function.update disk.usedCount page 0
    index := Function.update disk.index page disk.cmdPageIndex
    nextFree := Function.update disk.nextFree page (layout.cmdStart page)
    cmdPageIndex := (disk.cmdPageIndex + 1) % wordLimit }

def linkedCmds (layout : CmdLayout) (disk : CmdPages) (page : Nat) : Nat × CmdPages :=
  linkCmds layout page (layout.cmdCount page) 0 (layout.cmdStart page) (disk.openPage layout page)

theorem initDiskCmdPage_eq (layout : CmdLayout) (disk : CmdPages) (page : Nat) :
    disk.initDiskCmdPage layout page = { disk with
      next := if disk.cmdPages = 0 then disk.next
        else Function.update disk.next disk.lastCmdPage page
      prev := if disk.cmdPages = 0 then disk.prev
        else Function.update disk.prev page disk.lastCmdPage
      usedCount := Function.update disk.usedCount page 0
      index := Function.update disk.index page disk.cmdPageIndex
      nextFree := Function.update disk.nextFree page (layout.cmdStart page)
      cmdPageIndex := (disk.cmdPageIndex + 1) % wordLimit
      cmdNext := Function.update (linkedCmds layout disk page).2.cmdNext
        (linkedCmds layout disk page).1 0
      cmdPage := (linkedCmds layout disk page).2.cmdPage
      cmdFields := (linkedCmds layout disk page).2.cmdFields
      cmdPages := if disk.cmdPages = 0 then page else disk.cmdPages
      lastCmdPage := page } := by
  have fields := linkCmds_fields layout page (layout.cmdCount page) 0 (layout.cmdStart page)
    (disk.openPage layout page)
  have init : disk.initDiskCmdPage layout page = { ({ (linkedCmds layout disk page).2 with
      cmdNext := Function.update (linkedCmds layout disk page).2.cmdNext
        (linkedCmds layout disk page).1 0 } : CmdPages).linkPage page with lastCmdPage := page } := rfl
  rw [init, show (linkedCmds layout disk page).2 = _ from fields]
  unfold linkPage
  by_cases empty : disk.cmdPages = 0
  · simp only [openPage, empty, if_true]
  · simp only [openPage, empty, if_false]

theorem linkedCmds_last (disk : CmdPages) (inside : page + cmdPageSize ≤ wordLimit) :
    ∃ count, layout.cmdCount page = count + 1 ∧
      (linkedCmds layout disk page).1 = layout.cmd page count := by
  have several := layout.several inside
  obtain ⟨count, isCount⟩ : ∃ count, layout.cmdCount page = count + 1 :=
    Nat.exists_eq_succ_of_ne_zero (by omega)
  refine ⟨count, isCount, ?_⟩
  unfold linkedCmds
  rw [isCount]
  exact linkCmds_last layout page count 0 _ _

/-- The commands of a new page are linked in order, and no other link changes. -/
theorem linkedCmds_chain (disk : CmdPages) (nonNull : page ≠ 0)
    (inside : page + cmdPageSize ≤ wordLimit) :
    Chain (Function.update (linkedCmds layout disk page).2.cmdNext
        (linkedCmds layout disk page).1 0) (layout.cmdStart page) (layout.cmds page) := by
  have above := (layout.cmdStart_spec inside).1
  obtain ⟨count, isCount, last⟩ := @linkedCmds_last layout page disk inside
  have start : layout.cmd page 0 = layout.cmdStart page := rfl
  rw [← start, last, CmdLayout.cmds, isCount, ← List.append_nil (List.map _ _)]
  apply Chain.of_row
  · intro index _
    unfold CmdLayout.cmd
    omega
  · intro index small
    have different : layout.cmd page index ≠ layout.cmd page count := fun same =>
      Nat.ne_of_lt small (CmdLayout.cmd_inj same)
    rw [Function.update_of_ne different]
    exact (linkCmds_row (layout.cmdCount page) 0 (layout.cmdStart page)
      (disk.openPage layout page) (by omega)).1
  · exact Function.update_self _ _ _

theorem linkedCmds_owner (disk : CmdPages) (member : cmd ∈ layout.cmds page) :
    (linkedCmds layout disk page).2.cmdPage cmd = page := by
  obtain ⟨index, small, rfl⟩ := CmdLayout.mem_cmds.mp member
  exact (linkCmds_row (layout.cmdCount page) 0 (layout.cmdStart page)
    (disk.openPage layout page) small).2

theorem linkedCmds_frame (disk : CmdPages) (inside : page + cmdPageSize ≤ wordLimit)
    (outside : cmd ∉ layout.cmds page) :
    Function.update (linkedCmds layout disk page).2.cmdNext
        (linkedCmds layout disk page).1 0 cmd = disk.cmdNext cmd ∧
      (linkedCmds layout disk page).2.cmdPage cmd = disk.cmdPage cmd := by
  have notIn : ∀ index, index < layout.cmdCount page → cmd ≠ layout.cmd page index :=
    fun index small same => outside (CmdLayout.mem_cmds.mpr ⟨index, small, same.symm⟩)
  obtain ⟨count, isCount, last⟩ := @linkedCmds_last layout page disk inside
  have frame := @linkCmds_frame layout page cmd (layout.cmdCount page) 0 (layout.cmdStart page)
    (disk.openPage layout page) notIn
  rw [last, Function.update_of_ne (notIn count (by omega))]
  exact frame

structure Tracked (layout : CmdLayout) (disk : CmdPages) (listed : List Nat)
    (free : Nat → List Nat) : Prop where
  linked : DoublyLinked disk.next disk.prev disk.cmdPages disk.lastCmdPage listed
  lists : PageFreeLists layout.cmds disk.cmdNext disk.cmdPage disk.nextFree disk.usedCount
    disk.live listed free
  known : ∀ page ∈ listed, page ∈ disk.pages
  inside : ∀ page ∈ disk.pages, page + cmdPageSize ≤ wordLimit
  apart : ∀ page ∈ disk.pages, ∀ other ∈ disk.pages, page ≠ other →
    page + cmdPageSize ≤ other ∨ other + cmdPageSize ≤ page
  uncounted : disk.cmdPageCount = 0
  noFreeable : disk.freeableCmdPages = 0

namespace Tracked

theorem length_le (tracked : Tracked layout disk listed free) :
    listed.length ≤ disk.pages.length :=
  (List.subperm_of_subset tracked.linked.nodup tracked.known).length_le

theorem setCurrent (tracked : Tracked layout disk listed free) (current : Nat) :
    Tracked layout { disk with curCmdPage := current } listed free :=
  ⟨tracked.linked, tracked.lists, tracked.known, tracked.inside, tracked.apart, tracked.uncounted,
    tracked.noFreeable⟩

theorem cmd_notMem (tracked : Tracked layout disk listed free) (inPages : page ∈ disk.pages)
    (otherIn : other ∈ disk.pages) (different : page ≠ other) (member : cmd ∈ layout.cmds page) :
    cmd ∉ layout.cmds other := by
  intro inOther
  have holds := layout.holds
  have here := CmdLayout.cmd_inside (tracked.inside page inPages) member
  have there := CmdLayout.cmd_inside (tracked.inside other otherIn) inOther
  rcases tracked.apart page inPages other otherIn different with before | behind
  · omega
  · omega

theorem mallocPage (tracked : Tracked layout disk listed free) (fresh : disk.FreshPage page) :
    Tracked layout (disk.mallocPage page) listed free ∧ page ∉ listed := by
  obtain ⟨nonNull, inside, apart⟩ := fresh
  have unlisted : page ∉ listed := by
    intro member
    have self := apart page (tracked.known page member)
    unfold cmdPageSize at self
    omega
  have listedNe : ∀ other ∈ listed, other ≠ page := fun other member same =>
    unlisted (same ▸ member)
  refine ⟨⟨?_, tracked.lists, ?_, ?_, ?_, tracked.uncounted, tracked.noFreeable⟩, unlisted⟩
  · exact tracked.linked.frame (fun other member => Function.update_of_ne (listedNe other member) _ _)
      fun other member => Function.update_of_ne (listedNe other member) _ _
  · exact fun other member => List.mem_cons_of_mem _ (tracked.known other member)
  · intro other member
    rcases List.mem_cons.mp member with same | old
    · exact same ▸ inside
    · exact tracked.inside other old
  · intro one oneIn two twoIn different
    rcases List.mem_cons.mp oneIn with isOne | oldOne
    · rcases List.mem_cons.mp twoIn with isTwo | oldTwo
      · exact absurd (isOne.trans isTwo.symm) different
      · exact isOne ▸ apart two oldTwo
    · rcases List.mem_cons.mp twoIn with isTwo | oldTwo
      · exact (isTwo ▸ apart one oldOne).symm
      · exact tracked.apart one oldOne two oldTwo different

/-- A zero filled page comes behind the others with all its commands free. -/
theorem initDiskCmdPage (tracked : Tracked layout disk listed free) (nonNull : page ≠ 0)
    (unlisted : page ∉ listed) (known : page ∈ disk.pages) (noNext : disk.next page = 0)
    (noPrev : disk.prev page = 0) :
    Tracked layout (disk.initDiskCmdPage layout page) (listed ++ [page])
      (Function.update free page (layout.cmds page)) := by
  have inside := tracked.inside page known
  have noPages := tracked.linked.eq_nil_iff
  have listedNe : ∀ other ∈ listed, other ≠ page := fun other member same =>
    unlisted (same ▸ member)
  have apart : ∀ other ∈ listed, ∀ cmd ∈ layout.cmds other, cmd ∉ layout.cmds page :=
    fun other member cmd inOther =>
      tracked.cmd_notMem (tracked.known other member) known (listedNe other member) inOther
  rw [initDiskCmdPage_eq]
  refine ⟨?_, ?_, ?_, tracked.inside, tracked.apart, tracked.uncounted, tracked.noFreeable⟩
  · apply tracked.linked.pushBack unlisted nonNull
    · intro other member notLast
      dsimp only
      split
      · rfl
      · exact Function.update_of_ne notLast _ _
    · intro notNil
      dsimp only
      rw [if_neg fun null => notNil (noPages.mpr null), Function.update_self]
    · dsimp only
      split
      · exact noNext
      · have lastListed : page ≠ disk.lastCmdPage := by
          rcases tracked.linked.last_mem with null | member
          · exact fun same => nonNull (same.trans null)
          · exact (listedNe _ member).symm
        rw [Function.update_of_ne lastListed, noNext]
    · intro other member
      dsimp only
      split
      · rfl
      · exact Function.update_of_ne (listedNe other member) _ _
    · dsimp only
      split
      · rename_i empty
        rw [noPrev, tracked.linked.last, noPages.mpr empty]
        rfl
      · exact Function.update_self _ _ _
  · apply tracked.lists.addPage unlisted (layout.cmds_nodup page) apart
    · intro cmd member
      have above := (CmdLayout.cmd_inside inside member).1
      unfold cmdPageHeader at above
      omega
    · exact linkedCmds_chain disk nonNull inside
    · exact fun cmd => linkedCmds_owner disk
    · exact fun other member cmd inOther =>
        (linkedCmds_frame disk inside (apart other member cmd inOther)).1
    · exact fun other member cmd inOther =>
        (linkedCmds_frame disk inside (apart other member cmd inOther)).2
  · intro other member
    rcases List.mem_append.mp member with old | new
    · exact tracked.known other old
    · exact List.mem_singleton.mp new ▸ known

theorem searchTurn_zero (disk : CmdPages) : disk.searchTurn 0 = none := if_neg fun both => both.1 rfl

/-- The search stops at a page with a free command, or at the end of the list. -/
theorem search (tracked : Tracked layout disk listed free) {cells : List Nat}
    (chain : Chain disk.next page cells) (inList : ∀ other ∈ cells, other ∈ listed) {turns : Nat}
    (enough : cells.length + 1 ≤ turns) :
    ∃ found, whileLoop disk.searchTurn turns page = some found ∧
      (found = 0 ∨ found ∈ listed ∧ free found ≠ []) := by
  obtain ⟨turns, rfl⟩ := Nat.exists_eq_add_of_le' enough
  induction cells generalizing page turns with
  | nil =>
      have null : page = 0 := chain
      rw [null]
      exact ⟨0, WhileLoop.stop (searchTurn_zero disk) turns, Or.inl rfl⟩
  | cons first rest ih =>
      obtain ⟨rfl, nonNull, more⟩ := chain
      have member := inList page List.mem_cons_self
      have noFree := tracked.lists.head_eq_zero_iff member
      rw [List.length_cons, ← Nat.add_assoc]
      by_cases full : free page = []
      · have runs : disk.searchTurn page = some (disk.next page) :=
          if_pos ⟨nonNull, noFree.mpr full⟩
        rw [WhileLoop.turn runs]
        exact ih more (fun other later => inList other (List.mem_cons_of_mem _ later)) turns
          (Nat.le_add_left _ _)
      · have stops : disk.searchTurn page = none := if_neg fun both => full (noFree.mp both.2)
        exact ⟨page, WhileLoop.stop stops _, Or.inr ⟨member, full⟩⟩

theorem takeCmd (tracked : Tracked layout disk listed free) (current : disk.curCmdPage ∈ listed)
    (some : free disk.curCmdPage ≠ []) :
    ∃ free', disk.takeCmd.1 ∈ layout.cmds disk.curCmdPage ∧ disk.takeCmd.1 ∉ disk.live ∧
      Tracked layout disk.takeCmd.2 listed free' := by
  obtain ⟨cmd, rest, first⟩ := List.exists_cons_of_ne_nil some
  obtain ⟨isFirst, inPage, notLive, lists⟩ := tracked.lists.take current first 0
  have taken : disk.takeCmd.1 = cmd := isFirst
  rw [taken]
  refine ⟨Function.update free disk.curCmdPage rest, inPage, notLive, tracked.linked, ?_, tracked.known, tracked.inside, tracked.apart,
    tracked.uncounted, tracked.noFreeable⟩
  simp only [CmdPages.takeCmd, isFirst]
  exact lists

/-- A live command goes back to its page, which stays in the list. -/
theorem freeDiskCmd (tracked : Tracked layout disk listed free)
    (current : disk.curCmdPage ∈ listed) (isLive : cmd ∈ disk.live) :
    ∃ free', (disk.freeDiskCmd cmd).live = disk.live.erase cmd ∧
      Tracked layout (disk.freeDiskCmd cmd) listed free' ∧
      (disk.freeDiskCmd cmd).curCmdPage ∈ listed := by
  obtain ⟨page, member, owner, -, lists⟩ := tracked.lists.give isLive
  obtain ⟨inOwner, ownerIn, inCmds⟩ := tracked.lists.living cmd isLive
  have nonNull := tracked.lists.nonNull inOwner ownerIn cmd inCmds
  have given : Tracked layout (disk.giveCmd cmd) listed
      (Function.update free page (cmd :: free page)) := by
    refine ⟨tracked.linked, ?_, tracked.known, tracked.inside, tracked.apart, tracked.uncounted,
      tracked.noFreeable⟩
    simp only [CmdPages.giveCmd, owner]
    exact lists
  have uncounted : ¬ ((disk.giveCmd cmd).usedCount page = 0 ∧ (disk.giveCmd cmd).cmdPageCount > 1) := by
    rw [given.uncounted]
    omega
  unfold CmdPages.freeDiskCmd
  rw [if_neg nonNull]
  simp only [owner]
  rw [if_neg uncounted]
  by_cases earlier : (disk.giveCmd cmd).index page <
      (disk.giveCmd cmd).index (disk.giveCmd cmd).curCmdPage
  · rw [if_pos earlier]
    exact ⟨_, rfl, given.setCurrent page, member⟩
  · rw [if_neg earlier]
    exact ⟨_, rfl, given, current⟩

/-- An allocation returns a command that is not in use, of a listed page. -/
theorem allocDiskCmd (tracked : Tracked layout disk listed free)
    (current : disk.curCmdPage ∈ listed) (fresh : disk.FreshPage page) :
    ∃ cmd after listed' free', disk.allocDiskCmd layout page = some (cmd, after) ∧
      cmd ∉ disk.live ∧ after.live = cmd :: disk.live ∧ Tracked layout after listed' free' ∧
      after.curCmdPage ∈ listed' := by
  have taking : ∀ {start : CmdPages} {listed : List Nat} {free : Nat → List Nat},
      Tracked layout start listed free → start.live = disk.live → start.curCmdPage ∈ listed →
      free start.curCmdPage ≠ [] →
      ∃ cmd after listed' free', some start.takeCmd = some (cmd, after) ∧ cmd ∉ disk.live ∧
        after.live = cmd :: disk.live ∧ Tracked layout after listed' free' ∧
        after.curCmdPage ∈ listed' := by
    intro start listed free tracked sameLive current some
    obtain ⟨free', -, notLive, taken⟩ := tracked.takeCmd current some
    have live : start.takeCmd.2.live = start.takeCmd.1 :: start.live := rfl
    rw [sameLive] at notLive live
    exact ⟨start.takeCmd.1, start.takeCmd.2, listed, free', rfl, notLive, live, taken, current⟩
  have noFree := tracked.lists.head_eq_zero_iff current
  unfold CmdPages.allocDiskCmd
  by_cases some : disk.nextFree disk.curCmdPage ≠ 0
  · rw [if_pos some]
    exact taking tracked rfl current fun none => some (noFree.mpr none)
  · rw [if_neg some]
    obtain ⟨front, back, whole⟩ := List.append_of_mem current
    have segment := tracked.linked.segment
    rw [whole] at segment
    have inList : ∀ other ∈ disk.curCmdPage :: back, other ∈ listed := by
      intro other member
      rw [whole]
      exact List.mem_append_right _ member
    have chain := (Segment.append_iff.mp segment).2.chain fun other member =>
      tracked.linked.nonNull other (inList other member)
    have enough : (disk.curCmdPage :: back).length + 1 ≤ disk.pages.length + 1 := by
      have bound := tracked.length_le
      rw [whole, List.length_append] at bound
      omega
    obtain ⟨found, ran, outcome⟩ := tracked.search chain inList enough
    have began : (disk.curCmdPage :: back).headD 0 = disk.curCmdPage := rfl
    rw [began] at ran
    rw [ran, Option.map_some]
    rcases outcome with null | ⟨member, some⟩
    · rw [if_neg (not_not_intro null)]
      obtain ⟨malloced, unlisted⟩ := tracked.mallocPage fresh
      have recycled : disk.recyclePage page = (page, disk.mallocPage page) :=
        if_neg (not_not_intro tracked.noFreeable)
      rw [recycled]
      have made := malloced.initDiskCmdPage fresh.1 unlisted List.mem_cons_self
        (Function.update_self _ _ _) (Function.update_self _ _ _)
      apply taking (made.setCurrent page)
      · rw [initDiskCmdPage_eq]
        rfl
      · exact List.mem_append_right _ List.mem_cons_self
      · dsimp only
        rw [Function.update_self]
        intro none
        have several := layout.several fresh.2.1
        have length := congrArg List.length none
        unfold CmdLayout.cmds at length
        rw [List.length_map, List.length_range, List.length_nil] at length
        omega
    · rw [if_pos (tracked.linked.nonNull found member)]
      exact taking (tracked.setCurrent found) rfl member some

end Tracked

end CmdPages

end DoggOS.Dev

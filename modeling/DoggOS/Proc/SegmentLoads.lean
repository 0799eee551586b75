/-
The loops over the segments of an image.

Each turn maps one page number that no turn has mapped before, to a page that
nobody has used before, so the map after a run of turns is known page by page.
The turns of a segment are those of its loop; segments on different pages do
not meet, and the loops always end.
-/

import DoggOS.Proc.SegmentTurns

namespace DoggOS.Proc

open DoggOS.Mem

structure LoadTurn where
  header : ProgramHeader
  place : Nat
deriving DecidableEq

def LoadTurn.number (turn : LoadTurn) : Nat := turn.header.firstPage + turn.place

namespace ProcessMem

def LoadedPage (initial : Nat → Bytes) (image : Bytes) (process : ProcessMem) (turn : LoadTurn) :
    Prop :=
  turn.number < 2 ^ 20 ∧ process.pte turn.number ≠ 0 ∧
    ∀ offset, offset < 4096 → process.mem (entryPage (process.pte turn.number)) offset =
      turn.header.pageBytes image turn.place (initial (entryPage (process.pte turn.number))) offset

structure Holds (pages : Nat → Nat) (limit : Nat) (initial : Nat → Bytes) (image : Bytes)
    (turns : List LoadTurn) (process : ProcessMem) : Prop where
  built : Built pages limit initial process
  atFirst : process.pageDir = pages 0
  mapped : ∀ number, number < 2 ^ 20 → process.pte number ≠ 0 →
    ∃ turn ∈ turns, number = turn.number
  loaded : ∀ turn ∈ turns, process.LoadedPage initial image turn

variable {pages : Nat → Nat} {layout : KernelLayout} {limit : Nat} {initial : Nat → Bytes}
  {image : Bytes} {process after : ProcessMem} {turns : List LoadTurn} {page : Nat}

theorem Built.writePage (built : Built pages limit initial process)
    (taken : ∃ k, k < process.obtained ∧ pages k = page) (notDir : page ≠ process.pageDir)
    (notTable : ∀ index, index < 1024 → process.pde index ≠ 0 →
      entryPage (process.pde index) ≠ page) (bytes : Bytes) :
    Built pages limit initial (process.writePage page bytes) ∧
      ∀ number, number < 2 ^ 20 → (process.writePage page bytes).pte number = process.pte number := by
  have memOther : ∀ other, other ≠ page → (process.writePage page bytes).mem other =
      process.mem other := fun other different => Function.update_of_ne different _ _
  have pde : ∀ index, (process.writePage page bytes).pde index = process.pde index := by
    intro index
    exact congrArg (fun bytes => loadWord bytes index) (memOther _ notDir.symm)
  have pte : ∀ number, number < 2 ^ 20 →
      (process.writePage page bytes).pte number = process.pte number := by
    intro number inRange
    unfold ProcessMem.pte
    rw [pde]
    by_cases unused : process.pde (number / 1024) = 0
    · rw [if_pos unused, if_pos unused]
    · rw [if_neg unused, if_neg unused, memOther _ (notTable _ (by omega) unused)]
  refine ⟨⟨built.obtained_le, built.directory, fun index inDir used => ?_,
    fun one two oneIn twoIn oneUsed twoUsed same => ?_, fun number inRange mapped => ?_,
    fun number inRange mapped => ?_, fun number inRange mapped => ?_, built.tableWindow,
    built.pageWindow, fun other never => ?_⟩, pte⟩
  · rw [pde] at used ⊢
    exact built.tables index inDir used
  · rw [pde] at oneUsed twoUsed same
    rw [pde] at same
    exact built.tablesDistinct one two oneIn twoIn oneUsed twoUsed same
  · rw [pte number inRange] at mapped ⊢
    exact built.entries number inRange mapped
  · rw [pte number inRange] at mapped ⊢
    exact built.known number inRange mapped
  · rw [pte number inRange] at mapped ⊢
    refine ⟨(built.apart number inRange mapped).1, fun index inDir used => ?_⟩
    rw [pde] at used ⊢
    exact (built.apart number inRange mapped).2 index inDir used
  · obtain ⟨k, before, isPage⟩ := taken
    rw [memOther other fun same => never k before (isPage.trans same.symm)]
    exact built.untouched other never

theorem Shown.content (shown : Shown pages limit initial process number 0 after)
    (built : Built pages limit initial process) (fresh : FreshPages pages layout limit)
    (small : number < 2 ^ 20) (empty : process.pte number = 0) :
    after.mem (entryPage (after.pte number)) = initial (entryPage (after.pte number)) := by
  obtain ⟨k, least, before, isPage⟩ := shown.obtained empty rfl
  obtain ⟨notDir, notTable⟩ := shown.built.apart number small shown.mapped
  rw [shown.grows.pageDir] at notDir
  rw [shown.keeps _ notDir notTable, isPage]
  apply built.untouched
  intro j earlier same
  have limited := shown.built.obtained_le
  have equal := fresh.distinct j k (by omega) (by omega) same
  omega

theorem Holds.turn (holds : Holds pages limit initial image turns process)
    (fresh : FreshPages pages layout limit) {turn : LoadTurn} (small : turn.number < 2 ^ 20)
    (new : ∀ other ∈ turns, turn.number ≠ other.number)
    (turned : ProgramHeader.TurnOf pages image turn.header turn.place process after)
    (within : after.obtained ≤ limit) :
    Holds pages limit initial image (turn :: turns) after := by
  obtain ⟨bytes, afterEq, written⟩ := turned.writes
  have skewLe := turn.header.skew_le
  have padLt := turn.header.pad_lt
  have address : turn.header.addressAt turn.place / 4096 = turn.number := by
    unfold ProgramHeader.addressAt LoadTurn.number
    split_ifs <;> omega
  have word : turn.header.addressAt turn.place < 2 ^ 32 := by omega
  have empty : process.pte turn.number = 0 := by
    by_contra mapped
    obtain ⟨other, member, same⟩ := holds.mapped turn.number small mapped
    exact new other member same
  have withinMap : (process.mapProcessAddress pages (turn.header.addressAt turn.place) 0).obtained ≤
      limit := by
    rw [afterEq] at within
    exact within
  have shown := holds.built.mapProcessAddress fresh word (by decide) (fun given => absurd rfl given)
    withinMap
  rw [address] at shown
  have content := shown.content holds.built fresh small empty
  have isShown := shown.page
  generalize process.mapProcessAddress pages (turn.header.addressAt turn.place) 0 = mapped at *
  obtain ⟨k, least, before, isPage⟩ := shown.obtained empty rfl
  obtain ⟨notDir, notTable⟩ := shown.built.apart turn.number small shown.mapped
  obtain ⟨built, pte⟩ := shown.built.writePage ⟨k, before, isPage.symm⟩ notDir notTable bytes
  rw [isShown, content] at written
  rw [isShown] at afterEq
  rw [← afterEq] at built pte
  -- The other numbers keep their entries, and their pages are not the new one.
  have old : ∀ number, number < 2 ^ 20 → number ≠ turn.number →
      after.pte number = process.pte number := by
    intro number inRange different
    rw [pte number inRange, shown.others number inRange different]
  have self : after.pte turn.number = mapped.pte turn.number := pte _ small
  have otherPage : ∀ number, number < 2 ^ 20 → process.pte number ≠ 0 →
      entryPage (process.pte number) ≠ entryPage (mapped.pte turn.number) := by
    intro number inRange used same
    have limited := shown.built.obtained_le
    rw [isPage] at same
    rcases holds.built.known number inRange used with ⟨j, earlier, isOld⟩ | never
    · have equal := fresh.distinct j k (by omega) (by omega) (isOld.trans same)
      omega
    · exact never k (by omega) same.symm
  constructor
  · exact built
  · rw [afterEq]
    exact shown.grows.pageDir.trans holds.atFirst
  · intro number inRange used
    by_cases here : number = turn.number
    · exact ⟨turn, List.mem_cons_self, here⟩
    · rw [old number inRange here] at used
      obtain ⟨other, member, same⟩ := holds.mapped number inRange used
      exact ⟨other, List.mem_cons_of_mem _ member, same⟩
  · intro other member
    rcases List.mem_cons.mp member with isTurn | earlier
    · rw [isTurn]
      refine ⟨small, by rw [self]; exact shown.mapped, fun offset inside => ?_⟩
      rw [self, afterEq, writePage_mem]
      exact written offset inside
    · obtain ⟨otherSmall, used, bytesOf⟩ := holds.loaded other earlier
      have different := (new other earlier).symm
      have sameEntry := old other.number otherSmall different
      refine ⟨otherSmall, by rw [sameEntry]; exact used, fun offset inside => ?_⟩
      have keptPage : after.mem (entryPage (process.pte other.number)) =
          process.mem (entryPage (process.pte other.number)) := by
        rw [afterEq]
        exact (Function.update_of_ne (otherPage _ otherSmall used) _ _).trans
          (shown.grows.content _ otherSmall used)
      rw [sameEntry, keptPage]
      exact bytesOf offset inside

end ProcessMem

/-! ### The loop over the pages of a segment -/

namespace ProgramHeader

variable {pages : Nat → Nat} {layout : KernelLayout} {limit : Nat} {initial : Nat → Bytes}
  {image : Bytes} {header : ProgramHeader} {process after : ProcessMem} {turns : List LoadTurn}
  {place : Nat}

theorem Turns.before (later : header.Turns (place + 1)) : header.Turns place := by
  unfold Turns at *
  rw [if_neg (Nat.succ_ne_zero place)] at later
  split_ifs <;> omega

theorem Turns.occupies (turns : header.Turns place) :
    header.Occupies (header.firstPage + place) := by
  unfold Turns at turns
  have skewLe := header.skew_le
  have start := header.vaddr_eq
  unfold Occupies lastPage
  split_ifs at turns with first
  · subst first
    omega
  · omega

theorem Occupies.small (valid : header.Valid) {number : Nat} (inside : header.Occupies number) :
    number < 2 ^ 20 := by
  have noWrap := valid.noWrap
  obtain ⟨some, -, upper⟩ := inside
  unfold lastPage at upper
  omega

theorem running_iff (header : ProgramHeader) (place : Nat) :
    header.addressAt place < 4096 * header.firstPage + header.memSize ↔ header.Turns place := by
  unfold addressAt Turns
  split_ifs with first
  · subst first
    omega
  · omega

theorem TurnOf.obtained_le (turned : TurnOf pages image header place process after) :
    process.obtained ≤ after.obtained ∧ after.obtained ≤ process.obtained + 2 := by
  obtain ⟨bytes, afterEq, -⟩ := turned.writes
  rw [afterEq]
  exact ProcessMem.obtained_mapProcessAddress pages process _ 0

theorem pageLoop_holds (valid : header.Valid) (fresh : FreshPages pages layout limit)
    (fuel place : Nat) (process : ProcessMem) (reached : place = 0 ∨ header.Turns (place - 1))
    (enough : 2 ^ 20 < place + fuel) :
    ∃ address copied after,
      faultLoop (fun state => decide (state.linearAddress <
          4096 * header.firstPage + header.memSize)) (segmentTurn pages image header) fuel
          ⟨header.addressAt place, header.copiedAt place, process⟩ =
        some ⟨address, copied, after⟩ ∧ process.obtained ≤ after.obtained ∧
      after.obtained ≤ process.obtained + 2 * (header.lastPage + 1 - (header.firstPage + place)) ∧
      (after.obtained ≤ limit → ∀ turns, process.Holds pages limit initial image turns →
        (∀ turn ∈ turns, ∀ index, place ≤ index → header.Turns index →
          header.firstPage + index ≠ turn.number) →
        ∃ more, after.Holds pages limit initial image (more ++ turns) ∧
          ∀ turn, turn ∈ more ↔ turn.header = header ∧ place ≤ turn.place ∧
            header.Turns turn.place) := by
  induction fuel generalizing place process with
  | zero =>
      rcases reached with first | turned
      · omega
      · have inside := turned.occupies.small valid
        omega
  | succ fuel ih =>
      rw [faultLoop]
      by_cases runs : header.Turns place
      swap
      · have stops : ¬ header.addressAt place < 4096 * header.firstPage + header.memSize :=
          fun running => runs ((header.running_iff place).mp running)
        simp only [decide_eq_false stops, Bool.false_eq_true, if_false]
        refine ⟨_, _, process, rfl, Nat.le_refl _, Nat.le_add_right _ _,
          fun _ turns holds _ => ⟨[], holds, fun turn => ?_⟩⟩
        refine iff_of_false List.not_mem_nil ?_
        rintro ⟨isHeader, beyond, running⟩
        apply runs
        have down : ∀ count, header.Turns (place + count) → header.Turns place := by
          intro count
          induction count with
          | zero => exact id
          | succ count ihCount => exact fun later => ihCount later.before
        exact down (turn.place - place) (by rw [Nat.add_sub_cancel' beyond]; exact running)
      obtain ⟨next, turned⟩ := exists_turn valid runs pages image process
      have inside := runs.occupies.small valid
      obtain ⟨address, copied, after, ran, more, bound, holdsAfter⟩ := ih (place + 1) next
        (.inr (by rw [Nat.add_sub_cancel]; exact runs)) (by omega)
      have taken := turned.obtained_le
      have upper := runs.occupies.2.2
      refine ⟨address, copied, after, ?_, Nat.le_trans taken.1 more, by omega, ?_⟩
      · simp only [decide_eq_true ((header.running_iff place).mpr runs), if_true, turned.turn,
          Option.bind_some]
        exact ran
      · intro within turns holds away
        have turnedHolds : next.Holds pages limit initial image (⟨header, place⟩ :: turns) :=
          holds.turn fresh inside (fun other member => away other member place (Nat.le_refl _) runs)
            turned (by omega)
        obtain ⟨rest, holdsRest, restIff⟩ := holdsAfter within (⟨header, place⟩ :: turns) turnedHolds (by
          intro other member index beyond running
          rcases List.mem_cons.mp member with isThis | earlier
          · rw [isThis]
            unfold LoadTurn.number
            simp only
            omega
          · exact away other earlier index (by omega) running)
        refine ⟨rest ++ [⟨header, place⟩], ?_, fun turn => ?_⟩
        · rw [List.append_assoc, List.singleton_append]
          exact holdsRest
        · rw [List.mem_append, restIff, List.mem_singleton]
          constructor
          · rintro (⟨isHeader, beyond, running⟩ | here)
            · exact ⟨isHeader, by omega, running⟩
            · rw [here]
              exact ⟨rfl, Nat.le_refl _, runs⟩
          · rintro ⟨isHeader, beyond, running⟩
            by_cases here : turn.place = place
            · right
              cases turn
              simp only at isHeader here
              rw [isHeader, here]
            · exact .inl ⟨isHeader, by omega, running⟩

def pageSpan (header : ProgramHeader) : Nat := header.lastPage + 1 - header.firstPage

/-- What the loader relies on in a header that it takes. -/
def LoadValid (header : ProgramHeader) : Prop :=
  header.type = segmentTypeLoad → header.memSize ≠ 0 → header.Valid

theorem not_turns (empty : header.memSize = 0) (place : Nat) : ¬ header.Turns place := by
  unfold Turns
  split_ifs <;> omega

theorem loadSegment_empty (empty : header.memSize = 0) (process : ProcessMem) :
    loadSegment pages image process header = some process := by
  have word : header.vaddr &&& addressMask4KB < 2 ^ 32 :=
    Nat.lt_of_le_of_lt Nat.and_le_right (by decide)
  unfold loadSegment
  by_cases loads : header.type = segmentTypeLoad
  · rw [if_pos loads]
    simp only [empty, Nat.add_zero, Nat.mod_eq_of_lt word]
    unfold segmentTurns
    rw [faultLoop, decide_eq_false (Nat.lt_irrefl _)]
    rfl
  · rw [if_neg loads]

def TurnsOf (headers : List ProgramHeader) (turn : LoadTurn) : Prop :=
  turn.header ∈ headers ∧ turn.header.type = segmentTypeLoad ∧ turn.header.Turns turn.place

def Apart (one two : ProgramHeader) : Prop :=
  one.type = segmentTypeLoad → two.type = segmentTypeLoad →
    ∀ number, one.Occupies number → ¬ two.Occupies number

theorem Apart.symm {one two : ProgramHeader} (apart : Apart one two) : Apart two one :=
  fun twoLoads oneLoads number ofTwo ofOne => apart oneLoads twoLoads number ofOne ofTwo

theorem TurnsOf.occupies {headers : List ProgramHeader} {turn : LoadTurn}
    (isTurn : TurnsOf headers turn) : turn.header.Occupies turn.number :=
  isTurn.2.2.occupies

theorem loadSegment_holds (valid : header.LoadValid) (fresh : FreshPages pages layout limit)
    (process : ProcessMem) : ∃ after, loadSegment pages image process header = some after ∧
      process.obtained ≤ after.obtained ∧
      after.obtained ≤ process.obtained + 2 * header.pageSpan ∧
      (after.obtained ≤ limit → ∀ turns, process.Holds pages limit initial image turns →
        (header.type = segmentTypeLoad → ∀ turn ∈ turns, ¬ header.Occupies turn.number) →
        ∃ more, after.Holds pages limit initial image (more ++ turns) ∧
          ∀ turn, turn ∈ more ↔ TurnsOf [header] turn) := by
  by_cases loads : header.type = segmentTypeLoad
  swap
  · refine ⟨process, if_neg loads, Nat.le_refl _, Nat.le_add_right _ _, fun _ turns holds _ =>
      ⟨[], holds, fun turn => iff_of_false List.not_mem_nil fun ⟨member, isLoad, _⟩ => ?_⟩⟩
    rw [List.mem_singleton] at member
    exact loads (member ▸ isLoad)
  by_cases empty : header.memSize = 0
  · refine ⟨process, loadSegment_empty empty process, Nat.le_refl _, Nat.le_add_right _ _,
      fun _ turns holds _ => ⟨[], holds, fun turn => iff_of_false List.not_mem_nil
        fun ⟨member, _, running⟩ => ?_⟩⟩
    rw [List.mem_singleton] at member
    exact not_turns empty turn.place (member ▸ running)
  have isValid := valid loads empty
  have noWrap := isValid.noWrap
  obtain ⟨address, copied, after, ran, least, bound, holdsAfter⟩ :=
    @pageLoop_holds pages layout limit initial image header isValid fresh segmentTurns 0 process
      (.inl rfl) (by decide)
  have start : header.vaddr &&& addressMask4KB = header.addressAt 0 := by
    rw [header.addressAt_zero, and_addressMask _ (by omega)]
    unfold firstPage
    omega
  have none : header.copiedAt 0 = 0 := by
    unfold copiedAt
    omega
  have stop : (header.addressAt 0 + header.memSize) % 2 ^ 32 =
      4096 * header.firstPage + header.memSize := by
    have split := header.vaddr_eq
    rw [header.addressAt_zero, Nat.mod_eq_of_lt (by omega)]
  refine ⟨after, ?_, least, bound, fun within turns holds away => ?_⟩
  · unfold loadSegment
    rw [if_pos loads]
    simp only [start, stop]
    rw [none] at ran
    rw [ran]
    rfl
  · obtain ⟨more, holdsMore, moreIff⟩ := holdsAfter within turns holds fun turn member index _ running
        same => away loads turn member (same ▸ running.occupies)
    refine ⟨more, holdsMore, fun turn => ?_⟩
    rw [moreIff]
    unfold TurnsOf
    rw [List.mem_singleton]
    constructor
    · intro ⟨isHeader, _, running⟩
      exact ⟨isHeader, isHeader ▸ loads, isHeader ▸ running⟩
    · intro ⟨isHeader, _, running⟩
      exact ⟨isHeader, Nat.zero_le _, isHeader ▸ running⟩

theorem loadSegments_holds {headers : List ProgramHeader}
    (valid : ∀ header ∈ headers, header.LoadValid) (apart : headers.Pairwise Apart)
    (fresh : FreshPages pages layout limit) (process : ProcessMem) :
    ∃ after, headers.foldlM (loadSegment pages image) process = some after ∧
      process.obtained ≤ after.obtained ∧
      after.obtained ≤ process.obtained + 2 * (headers.map pageSpan).sum ∧
      (after.obtained ≤ limit → ∀ turns, process.Holds pages limit initial image turns →
        (∀ header ∈ headers, header.type = segmentTypeLoad →
          ∀ turn ∈ turns, ¬ header.Occupies turn.number) →
        ∃ more, after.Holds pages limit initial image (more ++ turns) ∧
          ∀ turn, turn ∈ more ↔ TurnsOf headers turn) := by
  induction headers generalizing process with
  | nil =>
      refine ⟨process, rfl, Nat.le_refl _, Nat.le_refl _, fun _ turns holds _ => ⟨[], holds,
        fun turn => iff_of_false List.not_mem_nil fun isTurn => ?_⟩⟩
      exact List.not_mem_nil isTurn.1
  | cons header rest ih =>
      obtain ⟨middle, first, leastFirst, boundFirst, holdsFirst⟩ :=
        @loadSegment_holds pages layout limit initial image header
          (valid header List.mem_cons_self) fresh process
      obtain ⟨after, later, leastRest, boundRest, holdsRest⟩ :=
        ih (fun other member => valid other (List.mem_cons_of_mem _ member))
          (List.pairwise_cons.mp apart).2 middle
      have apartRest := (List.pairwise_cons.mp apart).1
      refine ⟨after, ?_, Nat.le_trans leastFirst leastRest, ?_, fun within turns holds away => ?_⟩
      · rw [List.foldlM_cons, first]
        exact later
      · rw [List.map_cons, List.sum_cons]
        omega
      · obtain ⟨mine, holdsMine, mineIff⟩ := holdsFirst (by omega) turns holds
          (away header List.mem_cons_self)
        have awayRest : ∀ other ∈ rest, other.type = segmentTypeLoad →
            ∀ turn ∈ mine ++ turns, ¬ other.Occupies turn.number := by
          intro other member isLoad turn turnMember occupied
          rcases List.mem_append.mp turnMember with isMine | old
          · have ofHeader := (mineIff turn).mp isMine
            have same := List.mem_singleton.mp ofHeader.1
            exact apartRest other member (same ▸ ofHeader.2.1) isLoad turn.number
              (same ▸ ofHeader.occupies) occupied
          · exact away other (List.mem_cons_of_mem _ member) isLoad turn old occupied
        obtain ⟨theirs, holdsTheirs, theirsIff⟩ := holdsRest within (mine ++ turns) holdsMine awayRest
        refine ⟨theirs ++ mine, ?_, fun turn => ?_⟩
        · rw [List.append_assoc]
          exact holdsTheirs
        · rw [List.mem_append, theirsIff, mineIff]
          unfold TurnsOf
          rw [List.mem_singleton, List.mem_cons]
          constructor
          · intro either
            cases either with
            | inl inRest => exact ⟨.inr inRest.1, inRest.2⟩
            | inr isHeader => exact ⟨.inl isHeader.1, isHeader.2⟩
          · intro ⟨member, isTurn⟩
            cases member with
            | inl isHeader => exact .inr ⟨isHeader, isTurn⟩
            | inr inRest => exact .inl ⟨inRest, isTurn⟩

end ProgramHeader

end DoggOS.Proc

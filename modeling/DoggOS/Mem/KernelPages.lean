/-
The pages that `k_mem_MapKernelData` reserves and the pages that it maps.

The first half of the function computes the end of its interval from the end of
the data and rounds it up only when the interval looks too short; the second
half simply maps page after page up to the last byte.  The two agree unless the
data ends inside a page at an offset no larger than the one it starts at, or in
the last page of the address space, where the mapping loop wraps and goes on.
-/

import DoggOS.Mem.KernelChops
import DoggOS.Mem.PageMapWalk
import DoggOS.Mem.VirtualRangeSets

namespace DoggOS.Mem

namespace KernelMapping

variable {endAddress : Nat} {mapping reached : KernelMapping}

def Visits (endAddress : Nat) (mapping : KernelMapping) (page : Nat) : Prop :=
  ∃ count reached, runTurns (turn endAddress) count mapping = some reached ∧
    reached.startAddress < endAddress ∧ reached.startAddress / 4096 = page

/-- The mapping loop enters linear page `page` in the page map: its entry was not in use. -/
def IdentityMaps (endAddress : Nat) (mapping : KernelMapping) (page : Nat) : Prop :=
  ∃ count reached, runTurns (turn endAddress) count mapping = some reached ∧
    reached.startAddress < endAddress ∧ reached.startAddress / 4096 = page ∧
    ¬ hasFlag (reached.withTable.1.kernelEntry reached.startAddress) pentryFlagUsed

theorem IdentityMaps.visits {page : Nat} (maps : IdentityMaps endAddress mapping page) :
    Visits endAddress mapping page := by
  obtain ⟨count, reached, ran, running, atPage, -⟩ := maps
  exact ⟨count, reached, ran, running, atPage⟩

theorem runTurns_address (word : mapping.startAddress < wordLimit) {count : Nat}
    (ran : runTurns (turn endAddress) count mapping = some reached) :
    reached.startAddress = (mapping.startAddress + count * 4096) % wordLimit ∧
      ∀ earlier, earlier < count →
        (mapping.startAddress + earlier * 4096) % wordLimit < endAddress := by
  induction count generalizing reached with
  | zero =>
      cases ran
      refine ⟨?_, fun earlier impossible => absurd impossible (by omega)⟩
      rw [Nat.zero_mul, Nat.add_zero, Nat.mod_eq_of_lt word]
  | succ count ih =>
      rw [runTurns, Option.bind_eq_some_iff] at ran
      obtain ⟨middle, ranBefore, last⟩ := ran
      obtain ⟨atMiddle, running⟩ := ih ranBefore
      unfold turn at last
      split_ifs at last with more
      rw [Option.some_inj] at last
      subst last
      constructor
      · simp only [atMiddle, addressOffset4KB]
        unfold wordLimit
        omega
      · intro earlier before
        rcases Nat.lt_succ_iff_lt_or_eq.mp before with sooner | now
        · exact running earlier sooner
        · rw [now, ← atMiddle]
          exact more

theorem runTurns_reaches {count : Nat} (word : mapping.startAddress < wordLimit)
    (running : ∀ earlier, earlier < count →
      (mapping.startAddress + earlier * 4096) % wordLimit < endAddress) :
    ∃ reached, runTurns (turn endAddress) count mapping = some reached := by
  induction count with
  | zero => exact ⟨mapping, rfl⟩
  | succ count ih =>
      obtain ⟨middle, ran⟩ := ih fun earlier before => running earlier (by omega)
      have more : middle.startAddress < endAddress := by
        rw [(runTurns_address word ran).1]
        exact running count (by omega)
      rw [runTurns, ran, Option.bind_some, turn, if_pos more]
      exact ⟨_, rfl⟩

theorem visits_iff {first page : Nat} (atFirst : mapping.startAddress = first * 4096)
    (word : mapping.startAddress < wordLimit) (below : endAddress ≤ 0xfffff000) :
    Visits endAddress mapping page ↔ first ≤ page ∧ page * 4096 < endAddress := by
  constructor
  · rintro ⟨count, reached, ran, running, atPage⟩
    obtain ⟨address, earlierRunning⟩ := runTurns_address word ran
    rw [atFirst] at address earlierRunning word
    unfold wordLimit at *
    -- Before the address could wrap, the loop would stop at the last page.
    have noWrap : first + count < 2 ^ 20 := by
      by_contra wraps
      rcases Nat.eq_or_lt_of_le (Nat.le_of_not_lt wraps) with atTop | past
      · have atLast := earlierRunning (count - 1)
        by_cases none : count = 0
        · omega
        · have stillRunning := atLast (by omega)
          omega
      · have atLast := earlierRunning (2 ^ 20 - 1 - first) (by omega)
        omega
    omega
  · rintro ⟨lower, upper⟩
    have running : ∀ earlier, earlier ≤ page - first →
        (mapping.startAddress + earlier * 4096) % wordLimit < endAddress := by
      intro earlier before
      rw [atFirst]
      unfold wordLimit
      omega
    obtain ⟨reached, ran⟩ := runTurns_reaches word fun earlier before =>
      running earlier (Nat.le_of_lt before)
    have address := (runTurns_address word ran).1
    have last := running (page - first) (Nat.le_refl _)
    refine ⟨page - first, reached, ran, by rw [address]; exact last, ?_⟩
    rw [address, atFirst]
    unfold wordLimit
    omega

/-- When the data ends in the last page of the address space, every page is visited. -/
theorem visits_wrapped {first page : Nat} (atFirst : mapping.startAddress = first * 4096)
    (word : mapping.startAddress < wordLimit) (atEnd : 0xfffff000 < endAddress)
    (inSpace : page < 2 ^ 20) : Visits endAddress mapping page := by
  have running : ∀ earlier,
      (mapping.startAddress + earlier * 4096) % wordLimit < endAddress := by
    intro earlier
    rw [atFirst]
    unfold wordLimit
    omega
  obtain ⟨reached, ran⟩ : ∃ reached, runTurns (turn endAddress)
      ((page + 2 ^ 20 - first) % 2 ^ 20) mapping = some reached :=
    runTurns_reaches word fun earlier _ => running earlier
  have address := (runTurns_address word ran).1
  refine ⟨_, reached, ran, by rw [address]; exact running _, ?_⟩
  rw [address, atFirst]
  unfold wordLimit at *
  omega

theorem visits_lt {page : Nat} (word : mapping.startAddress < wordLimit)
    (visits : Visits endAddress mapping page) : page < 2 ^ 20 := by
  obtain ⟨count, reached, ran, running, rfl⟩ := visits
  rw [(runTurns_address word ran).1]
  unfold wordLimit
  omega

end KernelMapping

def kernelMappingStart (address : Nat) (map : PageMap) (physical : PRList) : KernelMapping :=
  { startAddress := address &&& addressMask4KB, map, physical }

theorem kernelMappingStart_address {address : Nat} (word : address < wordLimit) (map : PageMap)
    (physical : PRList) :
    (kernelMappingStart address map physical).startAddress = address / 4096 * 4096 := by
  unfold kernelMappingStart
  simp only [and_addressMask address word]
  omega

/-- The interval in pages, its end rounded as the source rounds it. -/
theorem kernelInterval_eq {address size : Nat} (noWrap : address + size < wordLimit) :
    kernelInterval address size = (address / 4096,
      if address % 4096 < (address + size) % 4096 then (address + size) / 4096 + 1
      else (address + size) / 4096) := by
  unfold kernelInterval
  simp only [shiftRight_pageShift, shiftLeft_pageShift]
  unfold wordLimit at *
  rw [Nat.mod_eq_of_lt noWrap]
  by_cases short : address % 4096 < (address + size) % 4096
  · rw [if_pos (by omega), if_pos short]
  · rw [if_neg (by omega), if_neg short]

def InKernelInterval (address size page : Nat) : Prop :=
  (kernelInterval address size).1 ≤ page ∧ page < (kernelInterval address size).2

def UnreservedPage (address size page : Nat) : Prop :=
  page = (address + size) / 4096 ∧ 0 < (address + size) % 4096 ∧
      (address + size) % 4096 ≤ address % 4096 ∨
    0xfffff000 < address + size ∧ page < address / 4096

/-- The pages that the first half reserves hold all that the second half maps, and none that it
does not visit. -/
structure ReservesMapped (list : VrList) (address size : Nat) (map : PageMap)
    (physical : PRList) : Prop where
  mapped : ∀ page,
    KernelMapping.IdentityMaps (address + size) (kernelMappingStart address map physical) page →
      InKernelInterval address size page ∨ ¬ list.FreePage page
  visited : ∀ page, InKernelInterval address size page →
    KernelMapping.Visits (address + size) (kernelMappingStart address map physical) page

section Rounding

variable {list : VrList} {address size : Nat}

theorem inKernelInterval_or_unreserved (noWrap : address + size < wordLimit) {page : Nat}
    (first : address / 4096 ≤ page) (last : page * 4096 < address + size) :
    InKernelInterval address size page ∨ UnreservedPage address size page := by
  unfold InKernelInterval UnreservedPage
  rw [kernelInterval_eq noWrap]
  simp only
  split_ifs <;> omega

theorem reservesMapped_of_unfree (noWrap : address + size < wordLimit)
    (reserved : ∀ page, list.FreePage page → ¬ UnreservedPage address size page) (map : PageMap)
    (physical : PRList) : ReservesMapped list address size map physical := by
  have addressWord : address < wordLimit := by omega
  have atFirst := kernelMappingStart_address addressWord map physical
  have word : (kernelMappingStart address map physical).startAddress < wordLimit := by
    rw [atFirst]
    omega
  constructor
  · intro page maps
    by_cases free : list.FreePage page
    · have visits := maps.visits
      by_cases below : address + size ≤ 0xfffff000
      · obtain ⟨first, last⟩ := (KernelMapping.visits_iff atFirst word below).mp visits
        rcases inKernelInterval_or_unreserved noWrap first last with inside | unreserved
        · exact .inl inside
        · exact absurd unreserved (reserved page free)
      · have notBelow : ¬ page < address / 4096 := fun lower =>
          reserved page free (.inr ⟨by omega, lower⟩)
        have inSpace := KernelMapping.visits_lt word visits
        rcases inKernelInterval_or_unreserved noWrap (Nat.le_of_not_lt notBelow) (by omega) with
          inside | unreserved
        · exact .inl inside
        · exact absurd unreserved (reserved page free)
    · exact .inr free
  · rintro page ⟨first, last⟩
    rw [kernelInterval_eq noWrap] at first last
    simp only at first last
    have inData : page * 4096 < address + size ∧ page < 2 ^ 20 := by
      unfold wordLimit at noWrap
      split_ifs at last <;> omega
    by_cases below : address + size ≤ 0xfffff000
    · exact (KernelMapping.visits_iff atFirst word below).mpr ⟨first, inData.1⟩
    · exact KernelMapping.visits_wrapped atFirst word (by omega) inData.2

end Rounding

/-! ### A page map in which nothing is mapped yet -/

def emptyTables : PageMap :=
  { cr3 := 0
    mem := fun page entry => if page = 0 then (entry + 1) * 4096 + 512 else 0 }

structure OnlyVisited (first count : Nat) (map : PageMap) : Prop where
  cr3 : map.cr3 = 0
  directory : ∀ entry, entry < 1024 → map.mem 0 entry = (entry + 1) * 4096 + 512
  unused : ∀ page, page < 2 ^ 20 →
    (∀ earlier, earlier < count → (first + earlier) % 2 ^ 20 ≠ page) →
      map.mem ((page / 1024 + 1) * 4096) (page % 1024) = 0

theorem emptyTables_onlyVisited (first : Nat) : OnlyVisited first 0 emptyTables := by
  refine ⟨rfl, fun _ _ => rfl, fun page _ _ => ?_⟩
  unfold emptyTables
  simp only
  rw [if_neg (by omega)]

theorem kernelEntry_of_directory {map : PageMap} {address : Nat} (word : address < wordLimit)
    (cr3 : map.cr3 = 0)
    (directory : ∀ entry, entry < 1024 → map.mem 0 entry = (entry + 1) * 4096 + 512) :
    map.mem map.cr3 (pdirIndex address) &&& addressMask4KB = (address / 4096 / 1024 + 1) * 4096 ∧
      ptableIndex address = address / 4096 % 1024 ∧
      hasFlag (map.mem map.cr3 (pdirIndex address)) pentryFlagUsed := by
  unfold wordLimit at word
  have inDirectory : pdirIndex address = address / 4096 / 1024 := by
    rw [pdirIndex_eq]
    omega
  have entry := directory (pdirIndex address) (by omega)
  rw [cr3, entry, inDirectory]
  refine ⟨?_, ptableIndex_eq address, ?_⟩
  · rw [and_addressMask _ (by omega)]
    omega
  · rw [show pentryFlagUsed = 2 ^ 9 from rfl, hasFlag_two_pow]
    omega

theorem KernelMapping.withTable_of_used (mapping : KernelMapping)
    (used : hasFlag (mapping.map.mem mapping.map.cr3 (pdirIndex mapping.startAddress))
      pentryFlagUsed) : mapping.withTable = (mapping.map, mapping.physical) := by
  unfold withTable PageMap.kernelTable
  rw [if_neg (not_not_intro used)]

/-- One turn uses the page it visits and no other. -/
theorem OnlyVisited.turn {first count endAddress : Nat} {mapping reached : KernelMapping}
    (visited : OnlyVisited first count mapping.map)
    (address : mapping.startAddress = (first + count) % 2 ^ 20 * 4096)
    (ran : mapping.turn endAddress = some reached) :
    OnlyVisited first (count + 1) reached.map := by
  have word : mapping.startAddress < wordLimit := by
    unfold wordLimit
    omega
  obtain ⟨table, place, used⟩ := kernelEntry_of_directory word visited.cr3 visited.directory
  unfold KernelMapping.turn at ran
  split_ifs at ran with more
  rw [Option.some_inj] at ran
  subst ran
  simp only [mapping.withTable_of_used used]
  unfold PageMap.bindKernelEntry
  split_ifs with unused
  · exact ⟨visited.cr3, visited.directory, fun page inSpace notVisited =>
      visited.unused page inSpace fun earlier before => notVisited earlier (by omega)⟩
  · rw [table, place]
    refine ⟨visited.cr3, fun entry inTable => ?_, fun page inSpace notVisited => ?_⟩
    · rw [PageMap.store_mem_of_ne _ _ (.inl (by omega))]
      exact visited.directory entry inTable
    · have notHere := notVisited count (Nat.lt_succ_self _)
      rw [PageMap.store_mem_of_ne _ _ (by omega)]
      exact visited.unused page inSpace fun earlier before => notVisited earlier (by omega)

theorem OnlyVisited.runTurns {first count endAddress : Nat} {mapping reached : KernelMapping}
    (atStart : mapping.startAddress = first * 4096) (word : mapping.startAddress < wordLimit)
    (visited : OnlyVisited first 0 mapping.map)
    (ran : DoggOS.runTurns (KernelMapping.turn endAddress) count mapping = some reached) :
    OnlyVisited first count reached.map := by
  induction count generalizing reached with
  | zero =>
      cases ran
      exact visited
  | succ count ih =>
      rw [DoggOS.runTurns, Option.bind_eq_some_iff] at ran
      obtain ⟨middle, ranBefore, last⟩ := ran
      have address := (KernelMapping.runTurns_address word ranBefore).1
      refine (ih ranBefore).turn ?_ last
      rw [address, atStart]
      unfold wordLimit
      omega

theorem identityMaps_of_visits {address size page : Nat} {physical : PRList}
    (addressWord : address < wordLimit)
    (visits : KernelMapping.Visits (address + size)
      (kernelMappingStart address emptyTables physical) page) :
    KernelMapping.IdentityMaps (address + size) (kernelMappingStart address emptyTables physical)
      page := by
  have atStart := kernelMappingStart_address addressWord emptyTables physical
  have word : (kernelMappingStart address emptyTables physical).startAddress < wordLimit := by
    rw [atStart]
    omega
  obtain ⟨count, reached, ran, running, atPage⟩ := visits
  obtain ⟨addressReached, earlierRunning⟩ := KernelMapping.runTurns_address word ran
  -- The first visit of the page is less than a whole round away.
  obtain ⟨first, ranFirst⟩ : ∃ first, runTurns (KernelMapping.turn (address + size))
      (count % 2 ^ 20) (kernelMappingStart address emptyTables physical) = some first :=
    KernelMapping.runTurns_reaches word fun earlier before =>
      earlierRunning earlier (Nat.lt_of_lt_of_le before (Nat.mod_le _ _))
  have addressFirst := (KernelMapping.runTurns_address word ranFirst).1
  have same : first.startAddress = reached.startAddress := by
    rw [addressFirst, addressReached, atStart]
    unfold wordLimit
    omega
  have visited := OnlyVisited.runTurns atStart word
    (emptyTables_onlyVisited _) ranFirst
  have firstWord : first.startAddress < wordLimit := by
    rw [addressFirst]
    exact Nat.mod_lt _ (by decide)
  obtain ⟨table, place, used⟩ := kernelEntry_of_directory firstWord visited.cr3 visited.directory
  refine ⟨_, first, ranFirst, same ▸ running, same ▸ atPage, ?_⟩
  rw [first.withTable_of_used used]
  unfold PageMap.kernelEntry
  have blank := visited.unused (first.startAddress / 4096) (by unfold wordLimit at firstWord; omega)
    fun earlier before => by
      rw [addressFirst, atStart]
      unfold wordLimit
      omega
  rw [table, place, blank]
  exact not_hasFlag_zero _

/-- A page outside the interval that the mapping loop comes to is mapped, free or not. -/
theorem not_reservesMapped {list : VrList} {address size page : Nat} {physical : PRList}
    (noWrap : address + size < wordLimit) (free : list.FreePage page)
    (unreserved : UnreservedPage address size page) :
    ¬ ReservesMapped list address size emptyTables physical := by
  intro reserves
  have addressWord : address < wordLimit := by omega
  have atStart := kernelMappingStart_address addressWord emptyTables physical
  have word : (kernelMappingStart address emptyTables physical).startAddress < wordLimit := by
    rw [atStart]
    omega
  have outside : ¬ InKernelInterval address size page := by
    unfold InKernelInterval
    unfold UnreservedPage at unreserved
    rw [kernelInterval_eq noWrap]
    simp only
    split_ifs <;> omega
  have visits : KernelMapping.Visits (address + size)
      (kernelMappingStart address emptyTables physical) page := by
    unfold wordLimit at noWrap addressWord
    by_cases below : address + size ≤ 0xfffff000
    · refine (KernelMapping.visits_iff atStart word below).mpr ?_
      rcases unreserved with ⟨atEnd, inside, -⟩ | ⟨wraps, -⟩
      · omega
      · omega
    · refine KernelMapping.visits_wrapped atStart word (by omega) ?_
      rcases unreserved with ⟨atEnd, -, -⟩ | ⟨-, lower⟩
      · omega
      · omega
  rcases reserves.mapped page (identityMaps_of_visits addressWord visits) with inside | notFree
  · exact outside inside
  · exact notFree free

/-- Both halves of `k_mem_MapKernelData` agree on every page map exactly when no free page is left
out by the rounding. -/
theorem reservesMapped_iff (list : VrList) (address size : Nat)
    (noWrap : address + size < wordLimit) :
    (∀ map physical, ReservesMapped list address size map physical) ↔
      ∀ page, list.FreePage page → ¬ UnreservedPage address size page :=
  ⟨fun reserves _ free unreserved =>
      not_reservesMapped noWrap free unreserved (reserves emptyTables ⟨fun _ => 0, []⟩),
    fun reserved map physical => reservesMapped_of_unfree noWrap reserved map physical⟩

theorem reservesMapped_iff_aligned :
    ReservesMapped twoFree 0x10800 0x800 emptyTables ⟨fun _ => 0, []⟩ := by
  refine (reservesMapped_iff twoFree 0x10800 0x800 (by decide)).mpr ?_ _ _
  rintro page - (⟨-, inside, -⟩ | ⟨atEnd, -⟩)
  · omega
  · omega

/-- Data that starts and ends at the same offset in its pages: the last page stays free. -/
theorem mappedPage_stays_free :
    ¬ ∀ (list : VrList) (address size : Nat), 0 < size → address + size < wordLimit →
      ∀ map physical, ReservesMapped list address size map physical := by
  intro reserves
  have free : twoFree.FreePage 17 := ⟨⟨16, 16⟩, by decide, by decide⟩
  exact not_reservesMapped (by decide) free (.inl (by decide))
    (reserves twoFree 0x10800 0x1000 (by decide) (by decide) emptyTables ⟨fun _ => 0, []⟩)

end DoggOS.Mem

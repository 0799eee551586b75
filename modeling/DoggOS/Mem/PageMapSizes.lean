/-
Small and big pages side by side.

A directory entry is a page table or a big page of 4 MiB.  Calls for small pages
respect both, but a call for a big page is only checked against big pages: it
replaces a page table in use.  The lookup of a page in a big page gives the
first physical page of the 4 MiB, whichever page is asked for.
-/

import DoggOS.Library.Machine
import DoggOS.Mem.PageMapInit

namespace DoggOS.Mem

namespace MapRequest

def IsBig (request : MapRequest) : Prop := hasFlag request.flags pentryFlagBigPage

instance (request : MapRequest) : Decidable request.IsBig :=
  inferInstanceAs (Decidable (hasFlag _ _))

/-- A page below the slots of the window; a big page needs 4 MiB of physical memory at a multiple
of 4 MiB. -/
structure Valid (request : MapRequest) : Prop where
  positive : 0 < request.linearAddress
  below : request.linearAddress < 0xff800000
  word : request.physicalAddress < 2 ^ 32
  low : request.flags < 4096
  aligned : request.IsBig → request.physicalAddress % 4194304 = 0

def extent (request : MapRequest) : Extent :=
  if request.IsBig then ⟨request.linearAddress / 4194304 * 1024, 1024⟩
  else ⟨request.linearAddress / 4096, 1⟩

def physicalPage (request : MapRequest) (page : Nat) : Nat :=
  request.physicalAddress - request.physicalAddress % 4096 +
    (page - request.extent.start) * 4096

/-- What a successful call is to do: only unmapped pages of its extent change, and a lookup of each
page of the extent finds its physical page. -/
structure MapsExtent (map after : PageMap) (request : MapRequest) : Prop where
  changes : ∀ page, page < 1022 * 1024 → after.binding page ≠ map.binding page →
    request.extent.Contains page ∧ map.binding page = none
  finds : ∀ address, 0 < address → request.extent.Contains (address / 4096) →
    after.linearAddressPhysicalPage address = some (request.physicalPage (address / 4096))

end MapRequest

namespace PageMap

variable {Pages : Type}

/-- `k_mem_MapLinearAddress` on a page map and the pages its page tables come from. -/
def mapRequest (allocPhysicalPage : Pages → Nat × Pages) (state : PageMap × Pages)
    (request : MapRequest) : Option (Status × PageMap × Pages) :=
  state.1.mapLinearAddress allocPhysicalPage state.2 request.linearAddress request.physicalAddress
    request.flags

def requestMachine (allocPhysicalPage : Pages → Nat × Pages) :
    Machine (PageMap × Pages) MapRequest where
  start state := state.1.Formed
  step before request after := request.Valid ∧ ∃ status,
    PageMap.mapRequest allocPhysicalPage before request = some (status, after)

/-- A call for a big page finds a big page in its slot, so that it is refused; a call for a small
page that needs a page table gets a page that is no page table yet. -/
def RequestSound (allocPhysicalPage : Pages → Nat × Pages) (state : PageMap × Pages)
    (request : MapRequest) : Prop :=
  if request.IsBig then
    hasFlag (state.1.mem state.1.cr3 (pdirIndex request.linearAddress)) pentryFlagBigPage
  else ¬ state.1.TableUsed (pdirIndex request.linearAddress) →
    state.1.SpareTable (allocPhysicalPage state.2).1

variable {allocPhysicalPage : Pages → Nat × Pages} {map after : PageMap} {pages : Pages}
  {request : MapRequest}

theorem Bound.mapsExtent {pageTable : Nat} (valid : request.Valid) (small : ¬ request.IsBig)
    (unmapped : map.binding (request.linearAddress / 4096) = none)
    (bound : map.Bound after request.linearAddress request.physicalAddress request.flags pageTable) :
    request.MapsExtent map after := by
  have extent : request.extent = ⟨request.linearAddress / 4096, 1⟩ := if_neg small
  refine ⟨fun page inRange changed => ?_, fun address positive inside => ?_⟩
  · rw [bound.bindings page inRange] at changed
    by_cases here : page = request.linearAddress / 4096
    · rw [extent, here]
      exact ⟨⟨Nat.le_refl _, Nat.lt_succ_self _⟩, unmapped⟩
    · rw [if_neg here] at changed
      exact absurd rfl changed
  · rw [extent] at inside
    have samePage : address / 4096 = request.linearAddress / 4096 := by
      have first := inside.1
      have last := inside.2
      simp only [Extent.stop_mk] at first last
      omega
    have below := valid.below
    have addressBelow : address < 0xff800000 := by omega
    have sameSlot : pdirIndex address = pdirIndex request.linearAddress := by
      rw [pdirIndex_eq, pdirIndex_eq]
      omega
    obtain ⟨-, -, inRange, -⟩ := indices addressBelow
    rw [bound.formed.linearAddressPhysicalPage positive addressBelow
      (fun _ => by rw [sameSlot]; exact bound.tableAt.2), bound.bindings _ inRange,
      if_pos samePage]
    unfold MapRequest.physicalPage
    rw [extent, samePage, Nat.sub_self, Nat.zero_mul, Nat.add_zero]
    rfl

theorem Formed.mapRequest (formed : map.Formed) (valid : request.Valid)
    (sound : RequestSound allocPhysicalPage (map, pages) request) : ∃ status after left,
      PageMap.mapRequest allocPhysicalPage (map, pages) request = some (status, after, left) ∧
        after.Formed ∧ (status = .ok → request.MapsExtent map after) := by
  obtain ⟨positive, below, word, low, -⟩ := valid
  have refused (skips : map.TableUsed (pdirIndex request.linearAddress) ∨ request.IsBig)
      (big : hasFlag (map.mem map.cr3 (pdirIndex request.linearAddress)) pentryFlagBigPage) :
      ∃ status after left,
        PageMap.mapRequest allocPhysicalPage (map, pages) request = some (status, after, left) ∧
          after.Formed ∧ (status = .ok → request.MapsExtent map after) := by
    have inUse := formed.mapLinearAddress_bigSlot allocPhysicalPage pages positive below
      request.physicalAddress skips big
    refine ⟨.linearAddressInUse, map, pages, inUse, formed, fun ok => ?_⟩
    cases ok
  unfold RequestSound at sound
  by_cases isBig : request.IsBig
  · rw [if_pos isBig] at sound
    exact refused (.inr isBig) sound
  · rw [if_neg isBig] at sound
    by_cases bigSlot : map.TableUsed (pdirIndex request.linearAddress) ∧
        hasFlag (map.mem map.cr3 (pdirIndex request.linearAddress)) pentryFlagBigPage
    · exact refused (.inl bigSlot.1) bigSlot.2
    · rcases formed.mapLinearAddress allocPhysicalPage pages positive below word low isBig sound
        (fun used big => bigSlot ⟨used, big⟩) with ⟨-, inUse⟩ | ⟨free, after, ran, bound⟩
      · refine ⟨.linearAddressInUse, map, pages, inUse, formed, fun ok => ?_⟩
        cases ok
      · exact ⟨.ok, after, _, ran, bound.formed, fun _ => bound.mapsExtent
          ⟨positive, below, word, low, fun big => absurd big isBig⟩ isBig free⟩

/-- A call for a big page that is not refused never does what it is to do: the lookup of the second
page of its extent finds the first physical page. -/
theorem Formed.bigRequest (formed : map.Formed) (valid : request.Valid) (isBig : request.IsBig)
    (notBigSlot : ¬ hasFlag (map.mem map.cr3 (pdirIndex request.linearAddress))
      pentryFlagBigPage) : ∃ after,
      PageMap.mapRequest allocPhysicalPage (map, pages) request = some (.ok, after, pages) ∧
        ¬ request.MapsExtent map after := by
  obtain ⟨positive, below, word, low, -⟩ := valid
  obtain ⟨-, -, -, inDirectory, -⟩ := indices below
  obtain ⟨entry, entryEq⟩ : ∃ entry, entry = request.physicalAddress ||| mapFlags request.flags :=
    ⟨_, rfl⟩
  obtain ⟨after, afterEq⟩ : ∃ after,
    after = map.store map.cr3 (pdirIndex request.linearAddress) entry := ⟨_, rfl⟩
  have readDirectory := formed.window.readPdir (show pdirIndex request.linearAddress < 1024 by omega)
  have written : map.writeEntry (pentryPointer pmapPdirIndex (pdirIndex request.linearAddress))
      entry = some after := by
    rw [afterEq]
    exact writeEntry_window formed.window.selfMapped formed.window.showsPdir (by decide) (by omega) _
  have bound : map.bindEntry request.linearAddress request.physicalAddress
      (mapFlags request.flags) = some (.ok, after) := by
    unfold PageMap.bindEntry
    simp only [readDirectory, Option.bind_eq_bind, Option.bind_some, if_neg notBigSlot,
      if_pos ((hasFlag_mapFlags_bigPage request.flags).mpr isBig), ← entryEq, written]
    rfl
  have ran : PageMap.mapRequest allocPhysicalPage (map, pages) request =
      some (.ok, after, pages) := by
    unfold PageMap.mapRequest
    rw [mapLinearAddress_bind allocPhysicalPage pages (not_forbidden positive below) readDirectory
      (.inr isBig), bound]
    rfl
  have window : after.Window := by
    have atSlot : ∀ place, 1022 ≤ place → place ≠ pdirIndex request.linearAddress := by omega
    rw [afterEq]
    exact formed.window.congr rfl (store_mem_of_ne map entry (.inr (atSlot _ (by decide))))
      (store_mem_of_ne map entry (.inl formed.window.apart))
      (store_mem_of_ne map entry (.inl formed.window.apart))
  refine ⟨after, ran, fun mapsExtent => ?_⟩
  have extent : request.extent = ⟨request.linearAddress / 4194304 * 1024, 1024⟩ := if_pos isBig
  have slotEq := pdirIndex_eq request.linearAddress
  obtain ⟨second, secondEq⟩ : ∃ second,
    second = request.linearAddress / 4194304 * 4194304 + 4096 := ⟨_, rfl⟩
  have secondPage : second / 4096 = request.linearAddress / 4194304 * 1024 + 1 := by omega
  have secondSlot : pdirIndex second = pdirIndex request.linearAddress := by
    rw [pdirIndex_eq]
    omega
  have inside : request.extent.Contains (second / 4096) := by
    rw [extent, secondPage]
    exact ⟨Nat.le_succ _, by simp only [Extent.stop_mk]; omega⟩
  have found := mapsExtent.finds second (by omega) inside
  have readAfter := window.readPdir (show pdirIndex second < 1024 by omega)
  have entryAt : after.mem after.cr3 (pdirIndex second) = entry := by
    rw [secondSlot, afterEq, store_cr3, store_mem_self]
  have looked : after.linearAddressPhysicalPage second =
      some (request.physicalAddress - request.physicalAddress % 4096) := by
    have entryUsed : hasFlag entry pentryFlagUsed := entryEq ▸ hasFlag_mapFlags_used _ _
    have entryBig : hasFlag entry pentryFlagBigPage := by
      rw [entryEq, hasFlag_or, hasFlag_mapFlags_bigPage]
      exact .inr isBig
    unfold PageMap.linearAddressPhysicalPage
    rw [if_neg (not_forbidden (by omega) (by omega)), readAfter, entryAt]
    simp only [Option.bind_eq_bind, Option.bind_some, entryUsed, not_true_eq_false, if_false,
      if_pos entryBig]
    rw [entryEq]
    exact congrArg some (entryPage_or word (mapFlags_lt low))
  rw [looked] at found
  have same := Option.some_inj.mp found
  unfold MapRequest.physicalPage at same
  rw [extent, secondPage] at same
  simp only at same
  omega

end PageMap

/-- In a run whose calls are all sound, a call that returns `K_STATUS_OK` maps its extent, whatever
the sizes of the pages before it. -/
theorem mapsExtent_of_sound {Pages : Type} (allocPhysicalPage : Pages → Nat × Pages)
    (map : PageMap) (pages : Pages)
    (reachable : ((PageMap.requestMachine allocPhysicalPage).restrict
      (PageMap.RequestSound allocPhysicalPage)).Reachable (map, pages))
    (request : MapRequest) (valid : request.Valid)
    (sound : PageMap.RequestSound allocPhysicalPage (map, pages) request) :
    ∃ status after left,
      PageMap.mapRequest allocPhysicalPage (map, pages) request = some (status, after, left) ∧
        (status = .ok → request.MapsExtent map after) := by
  have preserved : ∀ (before : PageMap × Pages) (call : MapRequest) (next : PageMap × Pages),
      before.1.Formed → ((PageMap.requestMachine allocPhysicalPage).restrict
        (PageMap.RequestSound allocPhysicalPage)).step before call next → next.1.Formed := by
    rintro before call next isFormed ⟨callSound, callValid, status, ran⟩
    obtain ⟨sameStatus, after, left, ranSame, afterFormed, -⟩ :=
      isFormed.mapRequest callValid callSound
    have same : next = (after, left) :=
      congrArg Prod.snd (Option.some_inj.mp (ran.symm.trans ranSame))
    rw [same]
    exact afterFormed
  have formed : map.Formed := Machine.invariant _ (fun _ initial => initial) preserved reachable
  obtain ⟨status, after, left, ran, -, mapsExtent⟩ := formed.mapRequest valid sound
  exact ⟨status, after, left, ran, mapsExtent⟩

theorem mapsExtent_of_sound_small : ∃ status after left,
    PageMap.mapRequest (fun pages : PRList => pages.allocPhysicalPage 0) (selfMap, eightPages)
      ⟨0x5000, 0x9000, 0⟩ = some (status, after, left) ∧
    (status = .ok → MapRequest.MapsExtent selfMap after ⟨0x5000, 0x9000, 0⟩) :=
  mapsExtent_of_sound (fun pages : PRList => pages.allocPhysicalPage 0) selfMap eightPages
    (Machine.reachable_start _ selfMap_wellFormed.formed) ⟨0x5000, 0x9000, 0⟩
    ⟨by decide, by decide, by decide, by decide, fun big => absurd big (by decide)⟩
    (fun _ => eightPages_spare)

/-- A big page in an empty slot: the call succeeds, and the lookup of its second page is wrong. -/
theorem bigPage_lookup_wrong : ∃ after,
    PageMap.mapRequest (fun pages : PRList => pages.allocPhysicalPage 0) (selfMap, eightPages)
      ⟨0x400000, 0x800000, pentryFlagBigPage⟩ = some (.ok, after, eightPages) ∧
    ¬ MapRequest.MapsExtent selfMap after ⟨0x400000, 0x800000, pentryFlagBigPage⟩ := by
  have valid : MapRequest.Valid ⟨0x400000, 0x800000, pentryFlagBigPage⟩ :=
    ⟨by decide, by decide, by decide, by decide, fun _ => by decide⟩
  exact selfMap_wellFormed.formed.bigRequest valid (by decide) (by decide)

end DoggOS.Mem

/-
The spinlocks of the runtime library.

A lock is bit 0 of a word; the other bits are the user's.  A thread's registers
and stack are its own, so only the accesses of the lock word interleave: each
function reads the word once and then exchanges it, and the two functions that
spin repeat the exchange until it succeeds.  Abstractly a lock has no owner or
one, and every access of the word takes it, gives it up or leaves it alone.
-/

import DoggOS.Library.Machine
import Mathlib.Logic.Function.Basic

namespace DoggOS.Rt

inductive SpinCall
  | spinLock
  | spinLockCritical
  | trySpinLock
  | spinUnlock
  deriving DecidableEq

inductive SpinPlace
  | idle
  | loads (call : SpinCall)
  | exchanges (call : SpinCall) (eax : BitVec 32)
  deriving DecidableEq

/-- Threads that share a lock word; `answer` is what a thread's last trySpinLock returned. -/
structure SpinThreads (Thread : Type*) where
  word : BitVec 32
  place : Thread → SpinPlace
  holds : Thread → Bool
  answer : Thread → Option (BitVec 32)

inductive SpinTurn (Thread : Type*)
  | call (thread : Thread) (call : SpinCall)
  | access (thread : Thread)

structure Exchanged where
  memory : BitVec 32
  eax : BitVec 32
  zf : Bool

/-- `lock cmpxchg`: a failed one loads the word into `eax`. -/
def cmpxchg (memory eax source : BitVec 32) : Exchanged :=
  if memory = eax then ⟨source, eax, true⟩ else ⟨memory, memory, false⟩

/-- `setz al` and `movzx eax, al`. -/
def setz (zf : Bool) : BitVec 32 := if zf then 1#32 else 0#32

/-- `and eax, 0xfffffffe`. -/
def unlocked (eax : BitVec 32) : BitVec 32 := eax &&& 0xfffffffe#32

namespace SpinThreads

variable {Thread : Type*} [DecidableEq Thread]

def moveTo (state : SpinThreads Thread) (thread : Thread) (place : SpinPlace) :
    SpinThreads Thread :=
  { state with place := Function.update state.place thread place }

/-- The exchange of spinLock and of spinLockCritical, which a failed one jumps back to. -/
def lockExchange (state : SpinThreads Thread) (thread : Thread) (call : SpinCall)
    (eax : BitVec 32) : SpinThreads Thread :=
  let done := cmpxchg state.word eax (eax + 1#32)
  if done.zf then
    { state.moveTo thread .idle with
      word := done.memory
      holds := Function.update state.holds thread true }
  else { state.moveTo thread (.exchanges call (unlocked done.eax)) with word := done.memory }

def tryExchange (state : SpinThreads Thread) (thread : Thread) (eax : BitVec 32) :
    SpinThreads Thread :=
  let done := cmpxchg state.word eax (eax + 1#32)
  let returned := setz done.zf
  { state.moveTo thread .idle with
    word := done.memory
    holds := if returned = 1#32 then Function.update state.holds thread true else state.holds
    answer := Function.update state.answer thread (some returned) }

def unlockExchange (state : SpinThreads Thread) (thread : Thread) (eax : BitVec 32) :
    SpinThreads Thread :=
  { state.moveTo thread .idle with
    word := eax
    holds := Function.update state.holds thread false }

def exchange (state : SpinThreads Thread) (thread : Thread) (call : SpinCall)
    (eax : BitVec 32) : SpinThreads Thread :=
  match call with
  | .spinLock => state.lockExchange thread .spinLock eax
  | .spinLockCritical => state.lockExchange thread .spinLockCritical eax
  | .trySpinLock => state.tryExchange thread eax
  | .spinUnlock => state.unlockExchange thread eax

/-- One turn of a run; threads release only a lock that they hold. -/
def next (state : SpinThreads Thread) : SpinTurn Thread → Option (SpinThreads Thread)
  | .call thread call =>
      if state.place thread = .idle ∧ (call = .spinUnlock → state.holds thread = true) then
        some (state.moveTo thread (.loads call))
      else none
  | .access thread =>
      match state.place thread with
      | .idle => none
      | .loads call => some (state.moveTo thread (.exchanges call (unlocked state.word)))
      | .exchanges call eax => some (state.exchange thread call eax)

def fresh (Thread : Type*) (first : BitVec 32) : SpinThreads Thread where
  word := first
  place := fun _ => .idle
  holds := fun _ => false
  answer := fun _ => none

def machine (Thread : Type*) [DecidableEq Thread] (first : BitVec 32) :
    Machine (SpinThreads Thread) (SpinTurn Thread) :=
  .ofNext (fun state => state = fresh Thread first) next

end SpinThreads

section Words

variable {first : BitVec 32}

theorem getLsbD_unlocked (word : BitVec 32) (bit : Nat) :
    (unlocked word).getLsbD bit = (word.getLsbD bit && !decide (bit = 0)) := by
  have mask : (0xfffffffe#32) = ~~~1#32 := rfl
  unfold unlocked
  rw [mask, BitVec.getLsbD_and, BitVec.getLsbD_not, BitVec.getLsbD_one]
  by_cases inside : bit < 32
  · simp [inside]
  · rw [BitVec.getLsbD_of_ge word bit (by omega)]
    rfl

theorem getLsbD_add_one (clear : first.getLsbD 0 = false) (bit : Nat) :
    (first + 1#32).getLsbD bit = (first.getLsbD bit || decide (bit = 0)) := by
  have disjoint : first &&& 1#32 = 0#32 := by
    apply BitVec.eq_of_getLsbD_eq
    intro place _
    rw [BitVec.getLsbD_and, BitVec.getLsbD_one, BitVec.getLsbD_zero]
    by_cases low : place = 0
    · rw [low, clear]
      rfl
    · simp [low]
  rw [BitVec.add_eq_or_of_and_eq_zero first 1#32 disjoint, BitVec.getLsbD_or, BitVec.getLsbD_one]
  simp

theorem unlocked_eq {word : BitVec 32} (clear : first.getLsbD 0 = false)
    (same : ∀ bit, bit ≠ 0 → word.getLsbD bit = first.getLsbD bit) : unlocked word = first := by
  apply BitVec.eq_of_getLsbD_eq
  intro bit _
  rw [getLsbD_unlocked]
  by_cases low : bit = 0
  · rw [low, clear]
    simp
  · simp [low, same bit low]

theorem add_one_ne (word : BitVec 32) : word + 1#32 ≠ word := by
  intro same
  have zero := BitVec.add_right_eq_self.mp same
  cases zero

theorem setz_eq_one {zf : Bool} : setz zf = 1#32 ↔ zf = true := by
  cases zf <;> decide

theorem setz_eq_zero {zf : Bool} : setz zf = 0#32 ↔ zf = false := by
  cases zf <;> decide

theorem cmpxchg_equal (memory source : BitVec 32) :
    cmpxchg memory memory source = ⟨source, memory, true⟩ := if_pos rfl

theorem cmpxchg_different {memory eax : BitVec 32} (different : memory ≠ eax)
    (source : BitVec 32) : cmpxchg memory eax source = ⟨memory, memory, false⟩ :=
  if_neg different

end Words

def lockWord {Thread : Type*} (first : BitVec 32) : Option Thread → BitVec 32
  | none => first
  | some _ => first + 1#32

inductive OwnerMoves {Thread : Type*} : Option Thread → Option Thread → Prop
  | stays (owner : Option Thread) : OwnerMoves owner owner
  | takes (thread : Thread) : OwnerMoves none (some thread)
  | releases (thread : Thread) : OwnerMoves (some thread) none

namespace SpinPlace

def Expects (first : BitVec 32) : SpinPlace → Prop
  | .exchanges _ eax => eax = first
  | _ => True

def Unlocks : SpinPlace → Prop
  | .loads call => call = .spinUnlock
  | .exchanges call _ => call = .spinUnlock
  | .idle => False

end SpinPlace

namespace SpinThreads

variable {Thread : Type*} {first : BitVec 32}

structure OwnedBy (first : BitVec 32) (state : SpinThreads Thread) (owner : Option Thread) :
    Prop where
  word : state.word = lockWord first owner
  holds : ∀ thread, state.holds thread = true ↔ owner = some thread
  expects : ∀ thread, (state.place thread).Expects first
  unlocks : ∀ thread, (state.place thread).Unlocks → owner = some thread

theorem fresh_owned (first : BitVec 32) : (fresh Thread first).OwnedBy first none where
  word := rfl
  holds := fun _ => ⟨nofun, nofun⟩
  expects := fun _ => trivial
  unlocks := fun _ => False.elim

variable {state after : SpinThreads Thread} {owner : Option Thread} {thread : Thread}

theorem owned_exclusive (owned : state.OwnedBy first owner) {one other : Thread}
    (holdsOne : state.holds one = true) (holdsOther : state.holds other = true) : one = other := by
  have ownsOne := (owned.holds one).mp holdsOne
  have ownsOther := (owned.holds other).mp holdsOther
  exact Option.some.inj (ownsOne.symm.trans ownsOther)

theorem owned_held_iff (owned : state.OwnedBy first owner) (clear : first.getLsbD 0 = false) :
    state.word.getLsbD 0 = true ↔ ∃ thread, state.holds thread = true := by
  rw [owned.word]
  cases owner with
  | none =>
      rw [lockWord, clear]
      simp [owned.holds]
  | some holder =>
      rw [lockWord, getLsbD_add_one clear]
      simp [owned.holds]

theorem owned_otherBits (owned : state.OwnedBy first owner) (clear : first.getLsbD 0 = false)
    {bit : Nat} (other : bit ≠ 0) : state.word.getLsbD bit = first.getLsbD bit := by
  rw [owned.word]
  cases owner with
  | none => rfl
  | some holder =>
      rw [lockWord, getLsbD_add_one clear]
      simp [other]

variable [DecidableEq Thread]

theorem moveTo_place (place : SpinPlace) (other : Thread) :
    (state.moveTo thread place).place other = if other = thread then place else state.place other :=
  Function.update_apply _ _ _ _

theorem moveTo_owned (owned : state.OwnedBy first owner) {place : SpinPlace}
    (expects : place.Expects first) (unlocks : place.Unlocks → owner = some thread) :
    (state.moveTo thread place).OwnedBy first owner := by
  constructor
  · exact owned.word
  · exact owned.holds
  · intro other
    rw [moveTo_place]
    split
    · exact expects
    · exact owned.expects other
  · intro other unlocking
    rw [moveTo_place] at unlocking
    split at unlocking
    · rename_i same
      rw [same]
      exact unlocks unlocking
    · exact owned.unlocks other unlocking

theorem idle_owned (owned : state.OwnedBy first owner) (thread : Thread) :
    (state.moveTo thread .idle).OwnedBy first owner := by
  apply moveTo_owned owned
  · trivial
  · exact False.elim

/-- A free lock that the thread takes with the last access of its call. -/
theorem take_owned (owned : state.OwnedBy first none) (answer : Thread → Option (BitVec 32)) :
    SpinThreads.OwnedBy first
      { state.moveTo thread .idle with
        word := first + 1#32
        holds := Function.update state.holds thread true
        answer := answer } (some thread) := by
  have idle := idle_owned owned thread
  constructor
  · rfl
  · intro other
    change Function.update state.holds thread true other = true ↔ _
    by_cases same : other = thread
    · rw [same, Function.update_self]
      simp
    · rw [Function.update_of_ne same, owned.holds]
      simp [Ne.symm same]
  · exact idle.expects
  · intro other unlocking
    cases idle.unlocks other unlocking

theorem lockExchange_owned (owned : state.OwnedBy first owner) (clear : first.getLsbD 0 = false)
    {call : SpinCall} (locks : call ≠ .spinUnlock) :
    ∃ owner', OwnerMoves owner owner' ∧
      (state.lockExchange thread call first).OwnedBy first owner' := by
  unfold lockExchange
  cases owner with
  | none =>
      rw [show state.word = first from owned.word, cmpxchg_equal]
      exact ⟨some thread, .takes thread, take_owned owned state.answer⟩
  | some holder =>
      have different : state.word ≠ first := by
        rw [show state.word = first + 1#32 from owned.word]
        exact add_one_ne first
      rw [cmpxchg_different different]
      refine ⟨some holder, .stays _, moveTo_owned owned ?_ ?_⟩
      · exact unlocked_eq clear fun bit other => owned_otherBits owned clear other
      · intro unlocking
        exact absurd unlocking locks

theorem tryExchange_owned (owned : state.OwnedBy first owner) :
    ∃ owner', OwnerMoves owner owner' ∧ (state.tryExchange thread first).OwnedBy first owner' := by
  unfold tryExchange
  cases owner with
  | none =>
      rw [show state.word = first from owned.word, cmpxchg_equal]
      exact ⟨some thread, .takes thread, take_owned owned _⟩
  | some holder =>
      have different : state.word ≠ first := by
        rw [show state.word = first + 1#32 from owned.word]
        exact add_one_ne first
      rw [cmpxchg_different different]
      have idle := idle_owned owned thread
      exact ⟨some holder, .stays _, ⟨idle.word, idle.holds, idle.expects, idle.unlocks⟩⟩

theorem unlockExchange_owned (owned : state.OwnedBy first (some thread)) :
    (state.unlockExchange thread first).OwnedBy first none := by
  have idle := idle_owned owned thread
  constructor
  · rfl
  · intro other
    change Function.update state.holds thread false other = true ↔ _
    by_cases same : other = thread
    · rw [same, Function.update_self]
      simp
    · rw [Function.update_of_ne same, owned.holds]
      simp [Ne.symm same]
  · exact idle.expects
  · intro other unlocking
    -- Only the owner unlocks, and its call ends here.
    have holder := Option.some.inj (idle.unlocks other unlocking)
    rw [← holder] at unlocking
    change ((state.moveTo thread .idle).place thread).Unlocks at unlocking
    rw [moveTo_place, if_pos rfl] at unlocking
    exact unlocking.elim

/-- Every turn of the threads is a move of the abstract lock. -/
theorem next_owned (owned : state.OwnedBy first owner) (clear : first.getLsbD 0 = false)
    {turn : SpinTurn Thread} (stepped : state.next turn = some after) :
    ∃ owner', OwnerMoves owner owner' ∧ after.OwnedBy first owner' := by
  cases turn with
  | call thread call =>
      simp only [next] at stepped
      split at stepped
      · rename_i allowed
        cases stepped
        refine ⟨owner, .stays _, moveTo_owned owned trivial ?_⟩
        intro unlocking
        exact (owned.holds thread).mp (allowed.2 unlocking)
      · cases stepped
  | access thread =>
      have expects := owned.expects thread
      have unlocks := owned.unlocks thread
      simp only [next] at stepped
      cases place : state.place thread with
      | idle =>
          rw [place] at stepped
          cases stepped
      | loads call =>
          rw [place] at stepped unlocks
          cases stepped
          refine ⟨owner, .stays _, moveTo_owned owned ?_ unlocks⟩
          exact unlocked_eq clear fun bit other => owned_otherBits owned clear other
      | exchanges call eax =>
          rw [place] at stepped unlocks expects
          cases stepped
          rw [show eax = first from expects]
          cases call with
          | spinLock => exact lockExchange_owned owned clear nofun
          | spinLockCritical => exact lockExchange_owned owned clear nofun
          | trySpinLock => exact tryExchange_owned owned
          | spinUnlock =>
              rw [unlocks rfl] at owned ⊢
              exact ⟨none, .releases thread, unlockExchange_owned owned⟩

theorem reachable_owned (clear : first.getLsbD 0 = false)
    (reachable : (machine Thread first).Reachable state) :
    ∃ owner, state.OwnedBy first owner := by
  apply (machine Thread first).invariant _ _ reachable
  · intro initial start
    rw [show initial = fresh Thread first from start]
    exact ⟨none, fresh_owned first⟩
  · intro before turn after owned step
    obtain ⟨owner, owned⟩ := owned
    obtain ⟨owner', _, owned⟩ := next_owned owned clear step
    exact ⟨owner', owned⟩

theorem tryExchange_answer {eax : BitVec 32}
    (place : state.place thread = .exchanges .trySpinLock eax)
    (stepped : state.next (.access thread) = some after) :
    after.place thread = .idle ∧
      (after.answer thread = some 1#32 ↔ state.word = eax ∧ after.word = eax + 1#32) ∧
      (after.answer thread = some 0#32 ↔ state.word ≠ eax ∧ after.word = state.word) := by
  simp only [next, place] at stepped
  cases stepped
  change Function.update state.place thread .idle thread = .idle ∧
    (Function.update state.answer thread _ thread = _ ↔ _) ∧
    (Function.update state.answer thread _ thread = _ ↔ _)
  rw [Function.update_self, Function.update_self, Option.some.injEq, Option.some.injEq,
    setz_eq_one, setz_eq_zero]
  have stored : (state.exchange thread .trySpinLock eax).word =
      (cmpxchg state.word eax (eax + 1#32)).memory := rfl
  rw [stored]
  by_cases same : state.word = eax
  · rw [same, cmpxchg_equal]
    simp
  · rw [cmpxchg_different same]
    simp [same]

/-- Mutual exclusion of the spinlock, over every interleaving of its word's accesses. -/
theorem spinLock_exclusive {Thread : Type*} [DecidableEq Thread] {first : BitVec 32}
    (clear : first.getLsbD 0 = false) {state : SpinThreads Thread}
    (reachable : (machine Thread first).Reachable state) :
    (∀ one other, state.holds one = true → state.holds other = true → one = other) ∧
      (state.word.getLsbD 0 = true ↔ ∃ thread, state.holds thread = true) ∧
      (∀ thread eax after, state.place thread = .exchanges .trySpinLock eax →
        state.next (.access thread) = some after →
        after.place thread = .idle ∧
          (after.answer thread = some 1#32 ↔ state.word = eax ∧ after.word = eax + 1#32) ∧
          (after.answer thread = some 0#32 ↔ state.word ≠ eax ∧ after.word = state.word)) ∧
      ∀ bit, bit ≠ 0 → state.word.getLsbD bit = first.getLsbD bit := by
  obtain ⟨owner, owned⟩ := reachable_owned clear reachable
  refine ⟨?_, ?_, ?_, ?_⟩
  · intro one other holdsOne holdsOther
    exact owned_exclusive owned holdsOne holdsOther
  · exact owned_held_iff owned clear
  · intro thread eax after place stepped
    exact tryExchange_answer place stepped
  · intro bit other
    exact owned_otherBits owned clear other

section Example

def contended : SpinThreads Nat :=
  let first := (fresh Nat 6#32).moveTo 1 (.loads .trySpinLock)
  let second := first.moveTo 1 (.exchanges .trySpinLock 6#32)
  let third := second.moveTo 0 (.loads .spinLock)
  (third.moveTo 0 (.exchanges .spinLock 6#32)).lockExchange 0 .spinLock 6#32

theorem contended_reachable : (machine Nat 6#32).Reachable contended := by
  have followed : Machine.follow next (fresh Nat 6#32) [.call 1 .trySpinLock, .access 1,
      .call 0 .spinLock, .access 0, .access 0] = some contended := rfl
  exact (machine Nat 6#32).follow_reachable (fun _ _ _ step => step)
    ((machine Nat 6#32).reachable_start rfl) followed

theorem contended_exclusive :
    contended.word = 7#32 ∧ contended.holds 0 = true ∧
      (∀ other, contended.holds other = true → other = 0) ∧
      ∀ after, contended.next (.access 1) = some after →
        after.answer 1 = some 0#32 ∧ after.word = 7#32 := by
  have clear : (6#32).getLsbD 0 = false := rfl
  obtain ⟨exclusive, _, answers, _⟩ := spinLock_exclusive clear contended_reachable
  refine ⟨rfl, rfl, ?_, ?_⟩
  · intro other holds
    exact exclusive other 0 holds rfl
  · intro after stepped
    obtain ⟨_, _, failed⟩ := answers 1 6#32 after rfl stepped
    have returned : after.answer 1 = some 0#32 := by
      cases stepped
      rfl
    exact ⟨returned, (failed.mp returned).2⟩

end Example

end SpinThreads

end DoggOS.Rt

/-
The atomic functions of the runtime library on one shared word.

Registers and stacks belong to the threads, so the steps that interleave are
the accesses of the word: the locked instruction of `k_rt_Xchg32`,
`k_rt_CmpXchg`, `k_rt_Inc32Wrap` and `k_rt_Dec32Wrap`, and the load and the
exchanges of the others.  `k_rt_AtomicOr32` and `k_rt_AtomicAnd32` repeat a
failed exchange with the value it found; the clamped functions try once.
-/

import DoggOS.Library.AtomicObjects
import DoggOS.Rt.SpinLock

namespace DoggOS.Rt

inductive AtomicCall
  | xchg32 (new : BitVec 32)
  | cmpXchg (cmp new : BitVec 32)
  | inc32Wrap
  | dec32Wrap
  | inc32Clamp (max : BitVec 32)
  | dec32Clamp (min : BitVec 32)
  | atomicOr32 (operand : BitVec 32)
  | atomicAnd32 (operand : BitVec 32)
  deriving DecidableEq

/-- The result in `eax` and the word stored through `old`; the functions that wrap pop `eax`. -/
structure AtomicResult where
  eax : Option (BitVec 32)
  old : Option (BitVec 32)
  deriving DecidableEq

inductive AtomicPlace
  | idle
  | accesses (call : AtomicCall)
  | exchanges (call : AtomicCall) (eax : BitVec 32)
  | returns (result : AtomicResult)
  deriving DecidableEq

/-- `changes` counts the stores of another value, `failures` the exchanges that a loop repeats. -/
structure AtomicThreads (Thread : Type*) where
  word : BitVec 32
  place : Thread → AtomicPlace
  failures : Thread → Nat
  changes : Nat

namespace AtomicThreads

variable {Thread : Type*} [DecidableEq Thread]

abbrev AtomicEvent (Thread : Type*) := ObjectEvent Thread AtomicCall AtomicResult

def moveTo (state : AtomicThreads Thread) (thread : Thread) (place : AtomicPlace) :
    AtomicThreads Thread :=
  { state with place := Function.update state.place thread place }

def store (state : AtomicThreads Thread) (word : BitVec 32) : AtomicThreads Thread :=
  { state with
    word
    changes := if word = state.word then state.changes else state.changes + 1 }

def finish (state : AtomicThreads Thread) (thread : Thread) (word : BitVec 32)
    (eax old : Option (BitVec 32)) : AtomicThreads Thread :=
  (state.store word).moveTo thread (.returns ⟨eax, old⟩)

/-- The load of a clamped function; it returns at its limit. -/
def clampAccess (state : AtomicThreads Thread) (thread : Thread) (call : AtomicCall)
    (limit : BitVec 32) : AtomicThreads Thread :=
  if limit ^^^ state.word = 0#32 then
    state.finish thread state.word (some 0#32) (some state.word)
  else state.moveTo thread (.exchanges call state.word)

def firstAccess (state : AtomicThreads Thread) (thread : Thread) (call : AtomicCall) :
    AtomicThreads Thread :=
  match call with
  | .xchg32 new => state.finish thread new none (some state.word)
  | .cmpXchg cmp new =>
      let done := cmpxchg state.word cmp new
      state.finish thread done.memory (some (setz done.zf)) (some done.eax)
  | .inc32Wrap => state.finish thread (state.word + 1#32) none none
  | .dec32Wrap => state.finish thread (state.word + 0xffffffff#32) none none
  | .inc32Clamp limit | .dec32Clamp limit => state.clampAccess thread call limit
  | .atomicOr32 _ | .atomicAnd32 _ => state.moveTo thread (.exchanges call state.word)

def clampExchange (state : AtomicThreads Thread) (thread : Thread) (eax new : BitVec 32) :
    AtomicThreads Thread :=
  let done := cmpxchg state.word eax new
  state.finish thread done.memory (some (setz done.zf)) (some done.eax)

def repeatExchange (state : AtomicThreads Thread) (thread : Thread) (call : AtomicCall)
    (eax : BitVec 32) : AtomicThreads Thread :=
  { state.moveTo thread (.exchanges call eax) with
    failures := Function.update state.failures thread (state.failures thread + 1) }

def loopExchange (state : AtomicThreads Thread) (thread : Thread) (call : AtomicCall)
    (eax new : BitVec 32) : AtomicThreads Thread :=
  let done := cmpxchg state.word eax new
  if done.zf then state.finish thread done.memory (some done.eax) none
  else state.repeatExchange thread call done.eax

def exchange (state : AtomicThreads Thread) (thread : Thread) (call : AtomicCall)
    (eax : BitVec 32) : Option (AtomicThreads Thread) :=
  match call with
  | .inc32Clamp _ => some (state.clampExchange thread eax (eax + 1#32))
  | .dec32Clamp _ => some (state.clampExchange thread eax (eax - 1#32))
  | .atomicOr32 operand => some (state.loopExchange thread call eax (eax ||| operand))
  | .atomicAnd32 operand => some (state.loopExchange thread call eax (eax &&& operand))
  | .xchg32 _ | .cmpXchg _ _ | .inc32Wrap | .dec32Wrap => none

def next (state : AtomicThreads Thread) : AtomicEvent Thread → Option (AtomicThreads Thread)
  | .call thread call =>
      if state.place thread = .idle then some (state.moveTo thread (.accesses call)) else none
  | .access thread =>
      match state.place thread with
      | .accesses call => some (state.firstAccess thread call)
      | .exchanges call eax => state.exchange thread call eax
      | .idle | .returns _ => none
  | .ret thread result =>
      if state.place thread = .returns result then some (state.moveTo thread .idle) else none

def fresh (Thread : Type*) (first : BitVec 32) : AtomicThreads Thread where
  word := first
  place := fun _ => .idle
  failures := fun _ => 0
  changes := 0

def machine (Thread : Type*) [DecidableEq Thread] (first : BitVec 32) :
    Machine (AtomicThreads Thread) (AtomicEvent Thread) :=
  .ofNext (fun state => state = fresh Thread first) next

end AtomicThreads

/-- What the functions mean where nothing else runs; a clamped one may also do nothing. -/
def Applies : AtomicCall → BitVec 32 → AtomicResult → BitVec 32 → Prop
  | .xchg32 new, word, result, after => after = new ∧ result = ⟨none, some word⟩
  | .cmpXchg cmp new, word, result, after =>
      if word = cmp then after = new ∧ result = ⟨some 1#32, some word⟩
      else after = word ∧ result = ⟨some 0#32, some word⟩
  | .inc32Wrap, word, result, after => after = word + 1#32 ∧ result = ⟨none, none⟩
  | .dec32Wrap, word, result, after => after = word - 1#32 ∧ result = ⟨none, none⟩
  | .inc32Clamp max, word, result, after =>
      word ≠ max ∧ after = word + 1#32 ∧ result = ⟨some 1#32, some word⟩ ∨
        after = word ∧ result = ⟨some 0#32, some word⟩
  | .dec32Clamp min, word, result, after =>
      word ≠ min ∧ after = word - 1#32 ∧ result = ⟨some 1#32, some word⟩ ∨
        after = word ∧ result = ⟨some 0#32, some word⟩
  | .atomicOr32 operand, word, result, after =>
      after = word ||| operand ∧ result = ⟨some word, none⟩
  | .atomicAnd32 operand, word, result, after =>
      after = word &&& operand ∧ result = ⟨some word, none⟩

namespace AtomicPlace

def status : AtomicPlace → OpStatus AtomicCall AtomicResult
  | .idle => .idle
  | .accesses call | .exchanges call _ => .pending call
  | .returns result => .finished result

/-- A clamped function exchanges only off its limit. -/
def OffLimit : AtomicPlace → Prop
  | .exchanges (.inc32Clamp limit) eax | .exchanges (.dec32Clamp limit) eax => eax ≠ limit
  | _ => True

end AtomicPlace

namespace AtomicThreads

variable {Thread : Type*}

/-- The threads as an object with effects at single moments. -/
def object (state : AtomicThreads Thread) :
    AtomicObject Thread AtomicCall AtomicResult (BitVec 32) :=
  ⟨state.word, fun thread => (state.place thread).status⟩

structure Paid (state : AtomicThreads Thread) : Prop where
  failures : ∀ thread, state.failures thread ≤ state.changes
  stale : ∀ thread call eax, state.place thread = .exchanges call eax → eax ≠ state.word →
    state.failures thread < state.changes

structure Sound (state : AtomicThreads Thread) : Prop where
  offLimit : ∀ thread, (state.place thread).OffLimit
  paid : state.Paid

/-- A store that changes the word pays for one failure of every thread. -/
theorem Sound.store {state : AtomicThreads Thread} (sound : state.Sound) (word : BitVec 32) :
    (state.store word).Sound := by
  unfold AtomicThreads.store
  by_cases same : word = state.word
  · rw [if_pos same, same]
    exact sound
  · rw [if_neg same]
    refine ⟨sound.offLimit, ⟨fun thread => ?_, fun thread call eax _ _ => ?_⟩⟩
    · exact Nat.le_succ_of_le (sound.paid.failures thread)
    · exact Nat.lt_succ_of_le (sound.paid.failures thread)

variable [DecidableEq Thread] {state after : AtomicThreads Thread} {thread : Thread}

theorem moveTo_status (place : AtomicPlace) :
    (state.moveTo thread place).object =
      ⟨state.word, Function.update state.object.status thread place.status⟩ := by
  unfold object moveTo
  congr 1
  funext other
  by_cases same : other = thread
  · subst same
    simp only [Function.update_self]
  · simp only [Function.update_of_ne same]

theorem Sound.moveTo (sound : state.Sound) {place : AtomicPlace} (offLimit : place.OffLimit)
    (current : ∀ call eax, place = .exchanges call eax → eax = state.word) :
    (state.moveTo thread place).Sound := by
  refine ⟨fun other => ?_, ⟨sound.paid.failures, fun other call eax isPlace stale => ?_⟩⟩
  · unfold AtomicThreads.moveTo
    by_cases same : other = thread
    · subst same
      simpa only [Function.update_self] using offLimit
    · simpa only [Function.update_of_ne same] using sound.offLimit other
  · unfold AtomicThreads.moveTo at isPlace
    by_cases same : other = thread
    · subst same
      simp only [Function.update_self] at isPlace
      exact absurd (current call eax isPlace) stale
    · simp only [Function.update_of_ne same] at isPlace
      exact sound.paid.stale other call eax isPlace stale

theorem Sound.finish (sound : state.Sound) (word : BitVec 32) (eax old : Option (BitVec 32)) :
    (state.finish thread word eax old).Sound :=
  (sound.store word).moveTo trivial nofun

theorem finish_object (word : BitVec 32) (eax old : Option (BitVec 32)) :
    (state.finish thread word eax old).object =
      ⟨word, Function.update state.object.status thread (.finished ⟨eax, old⟩)⟩ := by
  unfold AtomicThreads.finish
  rw [moveTo_status]
  rfl

structure Effects (state : AtomicThreads Thread) (thread : Thread) (call : AtomicCall)
    (after : AtomicThreads Thread) : Prop where
  sound : after.Sound
  effect : after.object = state.object ∨ ∃ result word, Applies call state.word result word ∧
    after.object = ⟨word, Function.update state.object.status thread (.finished result)⟩

variable {call : AtomicCall}

theorem Sound.takesEffect (sound : state.Sound) {word : BitVec 32} {eax old : Option (BitVec 32)}
    (applied : Applies call state.word ⟨eax, old⟩ word) :
    state.Effects thread call (state.finish thread word eax old) :=
  ⟨sound.finish word eax old, Or.inr ⟨_, _, applied, finish_object word eax old⟩⟩

theorem exchanges_object (pending : (state.place thread).status = .pending call)
    (eax : BitVec 32) : (state.moveTo thread (.exchanges call eax)).object = state.object := by
  rw [moveTo_status]
  have same : Function.update state.object.status thread (AtomicPlace.exchanges call eax).status =
      state.object.status := by
    rw [show (AtomicPlace.exchanges call eax).status = state.object.status thread from pending.symm]
    exact Function.update_eq_self _ _
  rw [same]
  rfl

theorem Sound.goesOn (sound : state.Sound) (pending : (state.place thread).status = .pending call)
    (offLimit : (AtomicPlace.exchanges call state.word).OffLimit) :
    state.Effects thread call (state.moveTo thread (.exchanges call state.word)) := by
  refine ⟨sound.moveTo offLimit fun other eax isPlace => ?_, Or.inl (exchanges_object pending _)⟩
  cases isPlace
  rfl

theorem clampAccess_effects (sound : state.Sound) {limit : BitVec 32}
    (pending : (state.place thread).status = .pending call)
    (offLimit : ∀ eax, eax ≠ limit → (AtomicPlace.exchanges call eax).OffLimit)
    (stays : Applies call state.word ⟨some 0#32, some state.word⟩ state.word) :
    state.Effects thread call (state.clampAccess thread call limit) := by
  unfold clampAccess
  by_cases atLimit : limit ^^^ state.word = 0#32
  · rw [if_pos atLimit]
    exact sound.takesEffect stays
  · rw [if_neg atLimit]
    refine sound.goesOn pending (offLimit _ fun same => atLimit ?_)
    rw [same, BitVec.xor_self]

theorem firstAccess_effects (sound : state.Sound)
    (pending : (state.place thread).status = .pending call) :
    state.Effects thread call (state.firstAccess thread call) := by
  cases call with
  | xchg32 new => exact sound.takesEffect ⟨rfl, rfl⟩
  | cmpXchg cmp new =>
      apply sound.takesEffect
      simp only [Applies]
      by_cases equal : state.word = cmp
      · rw [if_pos equal, equal, cmpxchg_equal]
        exact ⟨rfl, rfl⟩
      · rw [if_neg equal, cmpxchg_different equal]
        exact ⟨rfl, rfl⟩
  | inc32Wrap => exact sound.takesEffect ⟨rfl, rfl⟩
  | dec32Wrap =>
      apply sound.takesEffect
      exact ⟨by rw [BitVec.sub_eq_add_neg]; rfl, rfl⟩
  | inc32Clamp limit =>
      exact clampAccess_effects sound pending (fun _ offLimit => offLimit) (Or.inr ⟨rfl, rfl⟩)
  | dec32Clamp limit =>
      exact clampAccess_effects sound pending (fun _ offLimit => offLimit) (Or.inr ⟨rfl, rfl⟩)
  | atomicOr32 operand => exact sound.goesOn pending trivial
  | atomicAnd32 operand => exact sound.goesOn pending trivial

/-- A clamped function that finds the word changed leaves it. -/
theorem clampExchange_effects (sound : state.Sound) {eax new : BitVec 32}
    (moves : state.word = eax → Applies call state.word ⟨some 1#32, some state.word⟩ new)
    (stays : Applies call state.word ⟨some 0#32, some state.word⟩ state.word) :
    state.Effects thread call (state.clampExchange thread eax new) := by
  unfold clampExchange
  apply sound.takesEffect
  by_cases equal : state.word = eax
  · rw [equal, cmpxchg_equal]
    exact equal ▸ moves equal
  · rw [cmpxchg_different equal]
    exact stays

/-- A failed exchange spends the change that it has found. -/
theorem Sound.repeats (sound : state.Sound) (offLimit : (AtomicPlace.exchanges call state.word).OffLimit)
    (pending : (state.place thread).status = .pending call)
    (unpaid : state.failures thread < state.changes) :
    state.Effects thread call (state.repeatExchange thread call state.word) := by
  have went := sound.goesOn pending offLimit
  refine ⟨⟨went.sound.offLimit, ⟨fun other => ?_, fun other otherCall eax isPlace stale => ?_⟩⟩,
    went.effect⟩
  · change Function.update state.failures thread _ other ≤ state.changes
    by_cases same : other = thread
    · rw [same, Function.update_self]
      exact unpaid
    · rw [Function.update_of_ne same]
      exact sound.paid.failures other
  · have before := went.sound.paid.stale other otherCall eax isPlace stale
    change Function.update state.place thread _ other = _ at isPlace
    change Function.update state.failures thread _ other < state.changes
    by_cases same : other = thread
    · rw [same, Function.update_self] at isPlace
      cases isPlace
      exact absurd rfl stale
    · rw [Function.update_of_ne same]
      exact before

theorem loopExchange_effects (sound : state.Sound) {eax new : BitVec 32}
    (isPlace : state.place thread = .exchanges call eax)
    (offLimit : ∀ eax, (AtomicPlace.exchanges call eax).OffLimit)
    (moves : state.word = eax → Applies call state.word ⟨some state.word, none⟩ new) :
    state.Effects thread call (state.loopExchange thread call eax new) := by
  unfold loopExchange
  by_cases equal : state.word = eax
  · rw [equal, cmpxchg_equal]
    exact sound.takesEffect (equal ▸ moves equal)
  · rw [cmpxchg_different equal]
    refine sound.repeats (offLimit _) ?_ ?_
    · rw [isPlace]
      rfl
    · exact sound.paid.stale thread call eax isPlace (Ne.symm equal)

theorem exchange_effects (sound : state.Sound) {eax : BitVec 32}
    (isPlace : state.place thread = .exchanges call eax)
    (ran : state.exchange thread call eax = some after) : state.Effects thread call after := by
  have offLimit := sound.offLimit thread
  rw [isPlace] at offLimit
  cases call with
  | xchg32 | cmpXchg | inc32Wrap | dec32Wrap => cases ran
  | inc32Clamp limit =>
      cases ran
      exact clampExchange_effects sound
        (fun equal => Or.inl ⟨equal ▸ offLimit, by rw [equal], rfl⟩) (Or.inr ⟨rfl, rfl⟩)
  | dec32Clamp limit =>
      cases ran
      exact clampExchange_effects sound
        (fun equal => Or.inl ⟨equal ▸ offLimit, by rw [equal], rfl⟩) (Or.inr ⟨rfl, rfl⟩)
  | atomicOr32 operand =>
      cases ran
      exact loopExchange_effects sound isPlace (fun _ => trivial) fun equal => ⟨by rw [equal], rfl⟩
  | atomicAnd32 operand =>
      cases ran
      exact loopExchange_effects sound isPlace (fun _ => trivial) fun equal => ⟨by rw [equal], rfl⟩

/-- Every turn is a turn of the object whose operations take effect at single moments. -/
theorem refines_object (first : BitVec 32) :
    (machine Thread first).Refines (AtomicObject.machine Applies first)
      fun state object => state.Sound ∧ object = state.object := by
  constructor
  · intro state initial
    rw [show state = fresh Thread first from initial]
    exact ⟨_, rfl, ⟨fun _ => trivial, ⟨fun _ => Nat.le_refl _, nofun⟩⟩, rfl⟩
  · rintro state object event after ⟨sound, rfl⟩ ran
    change state.next event = some after at ran
    cases event with
    | call thread call =>
        unfold next at ran
        obtain ⟨idle, isAfter⟩ := (Option.ite_none_right_eq_some).mp ran
        cases isAfter
        refine ⟨_, ⟨?_, moveTo_status (.accesses call)⟩, sound.moveTo trivial nofun, rfl⟩
        exact congrArg AtomicPlace.status idle
    | access thread =>
        obtain ⟨call, pending, effects⟩ : ∃ call, (state.place thread).status = .pending call ∧
            state.Effects thread call after := by
          unfold next at ran
          cases isPlace : state.place thread with
          | idle => simp [isPlace] at ran
          | returns result => simp [isPlace] at ran
          | accesses call =>
              simp only [isPlace, Option.some_inj] at ran
              have pending : (state.place thread).status = .pending call := congrArg _ isPlace
              exact ⟨call, isPlace ▸ pending, ran ▸ firstAccess_effects sound pending⟩
          | exchanges call eax =>
              simp only [isPlace] at ran
              exact ⟨call, rfl, exchange_effects sound isPlace ran⟩
        rcases effects.effect with stays | ⟨result, word, applied, isAfter⟩
        · exact ⟨_, ⟨call, pending, Or.inl rfl⟩, effects.sound, stays.symm⟩
        · exact ⟨_, ⟨call, pending, Or.inr ⟨result, word, applied, rfl⟩⟩, effects.sound,
            isAfter.symm⟩
    | ret thread result =>
        unfold next at ran
        obtain ⟨returns, isAfter⟩ := (Option.ite_none_right_eq_some).mp ran
        cases isAfter
        refine ⟨_, ⟨?_, moveTo_status .idle⟩, sound.moveTo trivial nofun, rfl⟩
        exact congrArg AtomicPlace.status returns

/-- Every run has an order of its calls that explains it, and a loop repeats its exchange
only after another store has changed the word. -/
theorem atomics_linearizable (first : BitVec 32) (events : List (AtomicEvent Thread))
    (last : AtomicThreads Thread)
    (run : (machine Thread first).Run (fresh Thread first) events last) :
    (∃ order, AtomicObject.Linearizes Applies first last.word events order) ∧
      ∀ thread, last.failures thread ≤ last.changes := by
  have refines : (machine Thread first).Refines _ _ := refines_object first
  obtain ⟨object, initial, related⟩ := refines.start _ rfl
  obtain ⟨last', run', sound, rfl⟩ := refines.run related run
  obtain ⟨order, explains⟩ := AtomicObject.run_explains initial run'
  exact ⟨⟨order, explains.linearizes⟩, sound.paid.failures⟩

def crossedOrs : List (AtomicEvent Bool) :=
  [.call true (.atomicOr32 1#32), .call false (.atomicOr32 2#32), .access true, .access false,
    .access false, .access true, .access true]

/-- The second thread's store fails the first one's exchange once. -/
theorem atomics_linearizable_or : ∃ last : AtomicThreads Bool, last.word = 3#32 ∧
    last.failures true = 1 ∧ ∃ order, AtomicObject.Linearizes Applies 0#32 last.word crossedOrs order := by
  have ends : (Machine.follow next (fresh Bool 0#32) crossedOrs).map
      (fun last => (last.word, last.failures true)) = some (3#32, 1) := by decide
  obtain ⟨last, followed, isLast⟩ := Option.map_eq_some_iff.mp ends
  obtain ⟨word, failures⟩ := Prod.mk.inj isLast
  have run : (machine Bool 0#32).Run (fresh Bool 0#32) crossedOrs last :=
    Machine.run_of_follow followed
  exact ⟨last, word, failures, (atomics_linearizable 0#32 crossedOrs last run).1⟩

end AtomicThreads

end DoggOS.Rt

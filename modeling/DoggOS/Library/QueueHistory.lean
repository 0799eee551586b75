/-
Histories of a queue that several threads push to and pop from.

A push is called, and later its element comes behind the others; a pop takes
the first element, and later has it read.  Elements are pushed once.  Whatever
the threads do in between, no element is popped twice, and when no call is under
way the queue holds what was pushed and not popped, in the order of each thread.
-/

import DoggOS.Library.Machine
import Mathlib.Data.List.Nodup
import Mathlib.Logic.Function.Basic

namespace DoggOS

structure QueueHistory (Thread Element : Type*) where
  called : List (Thread × Element)
  popped : List Element
  content : List Element
  /-- The element of a push that has not put it into the queue yet. -/
  waiting : Thread → Option Element
  /-- The element of a pop that has taken it and not read it yet. -/
  reading : Thread → Option Element

inductive HistoryTurn (Thread Element : Type*) where
  | call (thread : Thread) (element : Element)
  | link (thread : Thread) (element : Element)
  | take (thread : Thread) (element : Element)
  | read (thread : Thread) (element : Element)

namespace QueueHistory

variable {Thread Element : Type*} [DecidableEq Thread]

inductive Step (history : QueueHistory Thread Element) :
    HistoryTurn Thread Element → QueueHistory Thread Element → Prop
  | call {thread : Thread} {element : Element} (idle : history.waiting thread = none)
      (fresh : element ∉ history.called.map Prod.snd) :
      Step history (.call thread element) { history with
        called := history.called ++ [(thread, element)]
        waiting := Function.update history.waiting thread (some element) }
  | link {thread : Thread} {element : Element} (waits : history.waiting thread = some element) :
      Step history (.link thread element) { history with
        content := history.content ++ [element]
        waiting := Function.update history.waiting thread none }
  | take {thread : Thread} {element : Element} {rest : List Element} (first : history.content = element :: rest)
      (idle : history.reading thread = none) :
      Step history (.take thread element) { history with
        content := rest
        reading := Function.update history.reading thread (some element) }
  | read {thread : Thread} {element : Element} (reads : history.reading thread = some element) :
      Step history (.read thread element) { history with
        popped := element :: history.popped
        reading := Function.update history.reading thread none }

variable {history after : QueueHistory Thread Element} {taken inside : List (Thread × Element)}
  {thread : Thread} {element : Element}

structure Empty (history : QueueHistory Thread Element) : Prop where
  called : history.called = []
  popped : history.popped = []
  content : history.content = []
  waiting : ∀ thread, history.waiting thread = none
  reading : ∀ thread, history.reading thread = none

def machine : Machine (QueueHistory Thread Element) (HistoryTurn Thread Element) :=
  ⟨Empty, Step⟩

/-- The elements that were put into the queue, with their threads: those that were taken from it
and those that are inside. -/
structure Accounted (history : QueueHistory Thread Element)
    (taken inside : List (Thread × Element)) : Prop where
  distinct : (history.called.map Prod.snd).Nodup
  content : inside.map Prod.snd = history.content
  order : ∀ thread, history.called.filter (·.1 = thread) =
    (taken ++ inside).filter (·.1 = thread) ++
      ((history.waiting thread).map (Prod.mk thread)).toList
  linked : ((taken ++ inside).map Prod.snd).Nodup
  nodup : history.popped.Nodup
  gone : ∀ element, element ∈ taken.map Prod.snd ↔
    element ∈ history.popped ∨ ∃ thread, history.reading thread = some element
  unread : ∀ thread element, history.reading thread = some element → element ∉ history.popped
  single : ∀ thread other element, history.reading thread = some element →
    history.reading other = some element → thread = other

namespace Accounted

theorem of_empty (empty : Empty history) : Accounted history [] [] := by
  constructor
  · rw [empty.called]
    exact List.nodup_nil
  · exact empty.content.symm
  · intro thread
    rw [empty.called, empty.waiting]
    rfl
  · exact List.nodup_nil
  · rw [empty.popped]
    exact List.nodup_nil
  · intro element
    rw [empty.popped]
    simp [empty.reading]
  · intro thread element reads
    rw [empty.reading] at reads
    cases reads
  · intro thread other element reads
    rw [empty.reading] at reads
    cases reads

theorem linked_called (accounted : Accounted history taken inside)
    (member : (thread, element) ∈ taken ++ inside) : (thread, element) ∈ history.called := by
  have here : (thread, element) ∈ history.called.filter (·.1 = thread) := by
    rw [accounted.order thread]
    exact List.mem_append_left _ (List.mem_filter.mpr ⟨member, decide_eq_true rfl⟩)
  exact (List.mem_filter.mp here).1

theorem waiting_called (accounted : Accounted history taken inside)
    (waits : history.waiting thread = some element) : (thread, element) ∈ history.called := by
  have here : (thread, element) ∈ history.called.filter (·.1 = thread) := by
    rw [accounted.order thread, waits]
    exact List.mem_append_right _ List.mem_cons_self
  exact (List.mem_filter.mp here).1

theorem waiting_unlinked (accounted : Accounted history taken inside)
    (waits : history.waiting thread = some element) :
    element ∉ (taken ++ inside).map Prod.snd := by
  intro member
  obtain ⟨⟨other, same⟩, linked, rfl⟩ := List.mem_map.mp member
  have pairs := List.inj_on_of_nodup_map accounted.distinct (accounted.linked_called linked)
    (accounted.waiting_called waits) rfl
  have isThread : other = thread := congrArg Prod.fst pairs
  have nodup : (history.called.filter (·.1 = thread)).Nodup :=
    (List.Nodup.of_map _ accounted.distinct).filter _
  rw [accounted.order thread, waits] at nodup
  refine (List.nodup_append.mp nodup).2.2 (thread, same) ?_ (thread, same) List.mem_cons_self rfl
  exact List.mem_filter.mpr ⟨isThread ▸ linked, decide_eq_true rfl⟩

theorem call (accounted : Accounted history taken inside) (idle : history.waiting thread = none)
    (fresh : element ∉ history.called.map Prod.snd) :
    Accounted { history with
      called := history.called ++ [(thread, element)]
      waiting := Function.update history.waiting thread (some element) } taken inside := by
  refine ⟨?_, accounted.content, fun other => ?_, accounted.linked, accounted.nodup,
    accounted.gone, accounted.unread, accounted.single⟩
  · rw [List.map_append, List.nodup_append]
    refine ⟨accounted.distinct, List.nodup_singleton _, fun one member two isNew same => ?_⟩
    have isElement : two = element := List.mem_singleton.mp isNew
    exact fresh (isElement ▸ same ▸ member)
  · have before := accounted.order other
    dsimp only
    rw [List.filter_append, before]
    by_cases same : other = thread
    · rw [same, idle, Function.update_self]
      simp
    · rw [Function.update_of_ne same]
      have different : thread ≠ other := Ne.symm same
      simp [different]

theorem link (accounted : Accounted history taken inside)
    (waits : history.waiting thread = some element) :
    Accounted { history with
      content := history.content ++ [element]
      waiting := Function.update history.waiting thread none }
      taken (inside ++ [(thread, element)]) := by
  refine ⟨accounted.distinct, ?_, fun other => ?_, ?_, accounted.nodup, accounted.gone,
    accounted.unread, accounted.single⟩
  · rw [List.map_append, accounted.content]
    rfl
  · have before := accounted.order other
    dsimp only
    rw [before, ← List.append_assoc, List.filter_append _ [(thread, element)]]
    by_cases same : other = thread
    · rw [same, waits, Function.update_self]
      simp
    · rw [Function.update_of_ne same]
      have different : thread ≠ other := Ne.symm same
      simp [different]
  · rw [← List.append_assoc, List.map_append, List.nodup_append]
    refine ⟨accounted.linked, List.nodup_singleton _, fun one member two isNew same => ?_⟩
    have isElement : two = element := List.mem_singleton.mp isNew
    exact accounted.waiting_unlinked waits (isElement ▸ same ▸ member)

theorem taken_notMem (accounted : Accounted history taken inside)
    (member : element ∈ inside.map Prod.snd) : element ∉ taken.map Prod.snd := by
  have linked := accounted.linked
  rw [List.map_append] at linked
  exact fun inTaken => (List.nodup_append.mp linked).2.2 element inTaken element member rfl

theorem take {rest : List Element} (accounted : Accounted history taken inside)
    (first : history.content = element :: rest) (idle : history.reading thread = none) :
    ∃ taken inside, Accounted { history with
      content := rest
      reading := Function.update history.reading thread (some element) } taken inside := by
  have content := accounted.content
  rw [first] at content
  obtain ⟨⟨owner, same⟩, behind, whole, isElement, isRest⟩ := List.map_eq_cons_iff.mp content
  have isFirst : same = element := isElement
  rw [whole, isFirst] at accounted
  have notTaken : element ∉ taken.map Prod.snd := accounted.taken_notMem List.mem_cons_self
  have notGone := fun gone => notTaken ((accounted.gone element).mpr gone)
  have moved : taken ++ [(owner, element)] ++ behind = taken ++ (owner, element) :: behind := by
    rw [List.append_assoc, List.singleton_append]
  have reads : ∀ {other one}, Function.update history.reading thread (some element) other =
      some one → other = thread ∧ one = element ∨
        other ≠ thread ∧ history.reading other = some one := by
    intro other one reads
    by_cases same : other = thread
    · rw [same, Function.update_self] at reads
      exact Or.inl ⟨same, (Option.some.inj reads).symm⟩
    · rw [Function.update_of_ne same] at reads
      exact Or.inr ⟨same, reads⟩
  refine ⟨taken ++ [(owner, element)], behind, accounted.distinct, isRest, fun other => ?_, ?_,
    accounted.nodup, fun one => ?_, fun other one reading => ?_, fun one two shared first second => ?_⟩
  · rw [moved]
    exact accounted.order other
  · rw [moved]
    exact accounted.linked
  · rw [List.map_append, List.mem_append, accounted.gone one]
    constructor
    · rintro ((popped | ⟨other, reading⟩) | isNew)
      · exact Or.inl popped
      · refine Or.inr ⟨other, ?_⟩
        have different : other ≠ thread := by
          rintro rfl
          rw [idle] at reading
          cases reading
        exact (Function.update_of_ne different _ _).trans reading
      · have same : one = element := List.mem_singleton.mp isNew
        exact Or.inr ⟨thread, (Function.update_self _ _ _).trans (congrArg some same.symm)⟩
    · rintro (popped | ⟨other, reading⟩)
      · exact Or.inl (Or.inl popped)
      · rcases reads reading with ⟨-, same⟩ | ⟨-, old⟩
        · exact Or.inr (List.mem_singleton.mpr same)
        · exact Or.inl (Or.inr ⟨other, old⟩)
  · rcases reads reading with ⟨-, same⟩ | ⟨-, old⟩
    · rw [same]
      exact fun popped => notGone (Or.inl popped)
    · exact accounted.unread other one old
  · rcases reads first with ⟨isOne, same⟩ | ⟨-, oldOne⟩
    · rcases reads second with ⟨isTwo, -⟩ | ⟨-, oldTwo⟩
      · exact isOne.trans isTwo.symm
      · exact absurd (Or.inr ⟨two, same ▸ oldTwo⟩) notGone
    · rcases reads second with ⟨-, same⟩ | ⟨-, oldTwo⟩
      · exact absurd (Or.inr ⟨one, same ▸ oldOne⟩) notGone
      · exact accounted.single one two shared oldOne oldTwo

theorem read (accounted : Accounted history taken inside)
    (reads : history.reading thread = some element) :
    Accounted { history with
      popped := element :: history.popped
      reading := Function.update history.reading thread none } taken inside := by
  have others : ∀ {other one}, Function.update history.reading thread none other = some one →
      other ≠ thread ∧ history.reading other = some one := by
    intro other one reading
    by_cases same : other = thread
    · rw [same, Function.update_self] at reading
      cases reading
    · rw [Function.update_of_ne same] at reading
      exact ⟨same, reading⟩
  refine ⟨accounted.distinct, accounted.content, accounted.order, accounted.linked,
    List.nodup_cons.mpr ⟨accounted.unread thread element reads, accounted.nodup⟩, fun one => ?_,
    fun other one reading => ?_, fun one two shared first second =>
      accounted.single one two shared (others first).2 (others second).2⟩
  · rw [accounted.gone one, List.mem_cons]
    constructor
    · rintro (popped | ⟨other, reading⟩)
      · exact Or.inl (Or.inr popped)
      · by_cases same : other = thread
        · rw [same, reads] at reading
          exact Or.inl (Or.inl (Option.some.inj reading).symm)
        · exact Or.inr ⟨other, (Function.update_of_ne same _ _).trans reading⟩
    · rintro ((same | popped) | ⟨other, reading⟩)
      · exact Or.inr ⟨thread, same ▸ reads⟩
      · exact Or.inl popped
      · exact Or.inr ⟨other, (others reading).2⟩
  · obtain ⟨different, old⟩ := others reading
    rw [List.mem_cons, not_or]
    refine ⟨fun same => different ?_, accounted.unread other one old⟩
    exact accounted.single other thread element (same ▸ old) reads

theorem step {turn : HistoryTurn Thread Element} (accounted : Accounted history taken inside)
    (step : Step history turn after) : ∃ taken inside, Accounted after taken inside := by
  cases step with
  | call idle fresh => exact ⟨taken, inside, accounted.call idle fresh⟩
  | link waits => exact ⟨taken, _, accounted.link waits⟩
  | take first idle => exact accounted.take first idle
  | read reads => exact ⟨taken, inside, accounted.read reads⟩

end Accounted

/-- No element is popped twice or popped without being pushed, and between calls the content is
what was pushed and not popped, in the order in which each thread pushed it. -/
def Lossless [DecidableEq Element] (history : QueueHistory Thread Element) : Prop :=
  history.popped.Nodup ∧ (∀ element ∈ history.popped, element ∈ history.called.map Prod.snd) ∧
    ((∀ thread, history.waiting thread = none ∧ history.reading thread = none) →
      ∃ inside : List (Thread × Element), inside.map Prod.snd = history.content ∧
        ∀ thread, inside.filter (·.1 = thread) =
          history.called.filter fun push => push.1 = thread ∧ push.2 ∉ history.popped)

theorem Accounted.lossless [DecidableEq Element] (accounted : Accounted history taken inside) :
    history.Lossless := by
  refine ⟨accounted.nodup, fun element popped => ?_, fun idle => ⟨inside, accounted.content,
    fun thread => ?_⟩⟩
  · have inTaken := (accounted.gone element).mpr (Or.inl popped)
    obtain ⟨⟨thread, same⟩, member, rfl⟩ := List.mem_map.mp inTaken
    exact List.mem_map.mpr ⟨_, accounted.linked_called (List.mem_append_left _ member), rfl⟩
  · have order := accounted.order thread
    rw [(idle thread).1, Option.map_none, Option.toList_none, List.append_nil] at order
    have split : (history.called.filter fun push => push.1 = thread ∧ push.2 ∉ history.popped) =
        (history.called.filter (·.1 = thread)).filter fun push => push.2 ∉ history.popped := by
      rw [List.filter_filter]
      apply List.filter_congr
      intro push _
      simp only [Bool.decide_and]
      exact Bool.and_comm _ _
    have gone : (taken.filter (·.1 = thread)).filter (fun push => push.2 ∉ history.popped) = [] := by
      rw [List.filter_eq_nil_iff]
      intro push member
      have inTaken := List.mem_map_of_mem (f := Prod.snd) (List.mem_filter.mp member).1
      rcases (accounted.gone push.2).mp inTaken with popped | ⟨other, reading⟩
      · simpa using popped
      · rw [(idle other).2] at reading
        cases reading
    have kept : (inside.filter (·.1 = thread)).filter (fun push => push.2 ∉ history.popped) =
        inside.filter (·.1 = thread) := by
      rw [List.filter_eq_self]
      intro push member
      have isInside := List.mem_map_of_mem (f := Prod.snd) (List.mem_filter.mp member).1
      have notPopped : push.2 ∉ history.popped := fun popped =>
        accounted.taken_notMem isInside ((accounted.gone push.2).mpr (Or.inl popped))
      simpa using notPopped
    rw [split, order, List.filter_append, List.filter_append, gone, kept, List.nil_append]

theorem reachable_lossless [DecidableEq Element]
    (reachable : (machine : Machine (QueueHistory Thread Element) _).Reachable history) :
    history.Lossless := by
  have accounted : ∃ taken inside, Accounted history taken inside := by
    apply machine.invariant (fun _ empty => ⟨[], [], Accounted.of_empty empty⟩) _ reachable
    rintro before label after ⟨taken, inside, accounted⟩ step
    exact accounted.step step
  obtain ⟨taken, inside, accounted⟩ := accounted
  exact accounted.lossless

end QueueHistory

end DoggOS

/-
Sequences of acquires and releases of nodes.

An acquire leaves the flags of the node alone, so a release finds no info object
and does nothing: the entry stays referenced and the pointer stays where the size
was.  A balanced sequence restores its nodes only if it has no call.
-/

import DoggOS.Fs.PupNodeInfo
import Mathlib.Data.List.TakeWhile

namespace DoggOS.Fs

open Mem Rt

namespace NodeCall

def isAcquire : NodeCall → Bool
  | .getNodeOnEntry _ _ _ => true
  | .releaseNode _ _ => false

def acquires (link entry : Nat) : NodeCall → Bool
  | .getNodeOnEntry otherLink otherEntry _ => otherLink = link ∧ otherEntry = entry
  | .releaseNode _ _ => false

def releases (link entry : Nat) : NodeCall → Bool
  | .getNodeOnEntry _ _ _ => false
  | .releaseNode otherLink otherEntry => otherLink = link ∧ otherEntry = entry

def entryAcquires (entry : Nat) : NodeCall → Bool
  | .getNodeOnEntry _ otherEntry _ => otherEntry = entry
  | .releaseNode _ _ => false

def entryReleases (entry : Nat) : NodeCall → Bool
  | .getNodeOnEntry _ _ _ => false
  | .releaseNode _ otherEntry => otherEntry = entry

end NodeCall

open NodeCall

/-- Each release follows an acquire of its own, and no acquire is left over. -/
structure Balanced (calls : List NodeCall) : Prop where
  earlier : ∀ before after, calls = before ++ after → ∀ link entry,
    before.countP (releases link entry) ≤ before.countP (acquires link entry)
  total : ∀ link entry, calls.countP (releases link entry) = calls.countP (acquires link entry)

def outstanding (calls : List NodeCall) (link entry : Nat) : Nat :=
  calls.countP (acquires link entry) - calls.countP (releases link entry)

def entryOutstanding (calls : List NodeCall) (entry : Nat) : Nat :=
  calls.countP (entryAcquires entry) - calls.countP (entryReleases entry)

namespace NodeStore

variable {store after reached : NodeStore} {calls : List NodeCall} {link entry page : Nat}

structure Idle (store : NodeStore) (link entry : Nat) : Prop where
  entryNonNull : entry ≠ 0
  linkFits : link < 2 ^ 64
  block : store.firstBlock entry ≤ nodeBlock link ∧ nodeBlock link < store.firstBlock entry + 4
  index : nodeIndex link < 15
  buffer : entryBuffer entry + 4 * 4096 ≤ wordLimit
  refCountFits : store.refCount entry < wordLimit
  noFlag : ¬ store.hasInfo (store.node link entry)
  noInfo : ∀ info ∈ store.pool.objects, store.infoNode info ≠ link

def infos (store : NodeStore) (link : Nat) : List Nat :=
  store.pool.objects.filter fun info => store.infoNode info = link

def Holds (store reached : NodeStore) (link node count : Nat) : Prop :=
  if 0 < count then
    reached.infos link = [reached.info node] ∧
      reached.infoRefCount (reached.info node) = count ∧
      reached.infoSize (reached.info node) = store.size node
  else
    reached.size node = store.size node ∧ reached.flags node = store.flags node ∧
      reached.pool.poolNode node = store.pool.poolNode node ∧ reached.infos link = []

/-- What the claim says of a sequence: after each of its calls the acquired nodes hold what they
should, and the entries count the acquires that are not released. -/
def Inverse (store : NodeStore) (calls : List NodeCall) : Prop :=
  ∀ before after, calls = before ++ after → ∃ reached, store.run before = some reached ∧
    ∀ link entry page, .getNodeOnEntry link entry page ∈ calls →
      store.Holds reached link (store.node link entry) (outstanding before link entry) ∧
      reached.refCount entry = (store.refCount entry + entryOutstanding before entry) % wordLimit

theorem attachInfo_flags {node : Nat} (attached : store.attachInfo link entry node page = some after) :
    after.flags = store.flags ∧ after.firstBlock = store.firstBlock := by
  obtain ⟨taken, -, result⟩ := Option.bind_eq_some_iff.mp attached
  cases result
  exact ⟨rfl, rfl⟩

theorem acquireEntry_flags (store : NodeStore) (entry : Nat) :
    (store.acquireEntry entry).flags = store.flags ∧
      (store.acquireEntry entry).firstBlock = store.firstBlock := by
  unfold acquireEntry
  split
  · exact ⟨rfl, rfl⟩
  · exact ⟨rfl, rfl⟩

/-- An acquire never sets the flag that says that there is an info object. -/
theorem getNodeOnEntry_flags (got : store.getNodeOnEntry link entry page = some after) :
    after.flags = store.flags ∧ after.firstBlock = store.firstBlock := by
  unfold getNodeOnEntry at got
  split at got
  · obtain ⟨middle, attached, result⟩ := Option.map_eq_some_iff.mp got
    have kept : middle.flags = store.flags ∧ middle.firstBlock = store.firstBlock := by
      split at attached
      · cases attached
        exact ⟨rfl, rfl⟩
      · exact attachInfo_flags attached
    obtain ⟨flags, firstBlock⟩ :=
      acquireEntry_flags (middle.countInfo (store.node link entry)) entry
    rw [← result]
    exact ⟨flags.trans kept.1, firstBlock.trans kept.2⟩
  · cases got
    exact ⟨rfl, rfl⟩

theorem run_acquires (all : ∀ call ∈ calls, call.isAcquire) (ran : store.run calls = some after) :
    after.flags = store.flags ∧ after.firstBlock = store.firstBlock := by
  induction calls generalizing store with
  | nil =>
      cases ran
      exact ⟨rfl, rfl⟩
  | cons first rest ih =>
      obtain ⟨middle, called, more⟩ := Option.bind_eq_some_iff.mp ran
      have later := ih (fun call member => all call (List.mem_cons_of_mem _ member)) more
      cases first with
      | releaseNode link entry => exact absurd (all _ List.mem_cons_self) Bool.false_ne_true
      | getNodeOnEntry link entry page =>
          have kept := getNodeOnEntry_flags called
          exact ⟨later.1.trans kept.1, later.2.trans kept.2⟩

theorem run_append (before rest : List NodeCall) (store : NodeStore) :
    store.run (before ++ rest) = (store.run before).bind fun reached => reached.run rest := by
  induction before generalizing store with
  | nil => rfl
  | cons first more ih =>
      rw [List.cons_append, run, run]
      cases store.call first with
      | none => rfl
      | some next => exact ih next

/-- A release of a node without the flag does nothing. -/
theorem releaseNode_noInfo {node : Nat} (noFlag : ¬ store.hasInfo node) :
    store.releaseNode node = some store :=
  if_neg fun both => noFlag both.2

theorem node_congr (same : after.firstBlock = store.firstBlock) :
    after.node link entry = store.node link entry := by
  unfold node contents
  rw [same]

end NodeStore

theorem Balanced.exists_release {calls : List NodeCall} (balanced : Balanced calls)
    (notNil : calls ≠ []) : ∃ before link entry rest,
      calls = before ++ .releaseNode link entry :: rest ∧ ∀ call ∈ before, call.isAcquire := by
  have cut : calls = calls.takeWhile isAcquire ++ calls.dropWhile isAcquire :=
    List.takeWhile_append_dropWhile.symm
  have acquiresOnly : ∀ call ∈ calls.takeWhile isAcquire, call.isAcquire := fun call member =>
    List.mem_takeWhile_imp member
  cases rest : calls.dropWhile isAcquire with
  | nil =>
      rw [rest, List.append_nil] at cut
      rw [← cut] at acquiresOnly
      cases calls with
      | nil => exact absurd rfl notNil
      | cons first more =>
          cases first with
          | releaseNode link entry =>
              exact absurd (acquiresOnly _ List.mem_cons_self) Bool.false_ne_true
          | getNodeOnEntry link entry page =>
              have total := balanced.total link entry
              have none : (NodeCall.getNodeOnEntry link entry page :: more).countP
                  (releases link entry) = 0 := by
                rw [List.countP_eq_zero]
                intro call member
                cases call with
                | releaseNode => exact absurd (acquiresOnly _ member) Bool.false_ne_true
                | getNodeOnEntry => exact Bool.false_ne_true
              have some : 0 < (NodeCall.getNodeOnEntry link entry page :: more).countP
                  (acquires link entry) :=
                List.countP_pos_iff.mpr ⟨_, List.mem_cons_self, by simp [acquires]⟩
              omega
  | cons first more =>
      have isRelease := List.head?_dropWhile_not isAcquire calls
      rw [rest] at isRelease
      cases first with
      | getNodeOnEntry link entry page => exact absurd isRelease (by simp [isAcquire])
      | releaseNode link entry =>
          rw [rest] at cut
          exact ⟨_, link, entry, more, cut, acquiresOnly⟩

namespace NodeStore

variable {store : NodeStore} {calls : List NodeCall}

theorem mod_pred_ne (value : Nat) {count : Nat} (positive : 0 < count) :
    (value + count) % wordLimit ≠ (value + (count - 1)) % wordLimit := by
  unfold wordLimit
  omega

/-- A balanced sequence on idle nodes restores them exactly when it has no call. -/
theorem inverse_iff (balanced : Balanced calls)
    (idle : ∀ link entry page, .getNodeOnEntry link entry page ∈ calls → store.Idle link entry) :
    store.Inverse calls ↔ calls = [] := by
  constructor
  · intro inverse
    by_contra notNil
    obtain ⟨before, link, entry, rest, whole, acquiresOnly⟩ := balanced.exists_release notNil
    have wholeAfter : calls = (before ++ [.releaseNode link entry]) ++ rest := by
      rw [whole, List.append_assoc, List.singleton_append]
    have earlier := balanced.earlier _ rest wholeAfter link entry
    rw [List.countP_append, List.countP_append] at earlier
    have noAcquire : [NodeCall.releaseNode link entry].countP (acquires link entry) = 0 := rfl
    have oneRelease : [NodeCall.releaseNode link entry].countP (releases link entry) = 1 := by
      simp [releases]
    have acquired : 0 < before.countP (acquires link entry) := by omega
    obtain ⟨call, member, isAcquire⟩ := List.countP_pos_iff.mp acquired
    cases call with
    | releaseNode => exact absurd isAcquire Bool.false_ne_true
    | getNodeOnEntry otherLink otherEntry page =>
        obtain ⟨sameLink, sameEntry⟩ : otherLink = link ∧ otherEntry = entry := by
          simpa [acquires] using isAcquire
        rw [sameLink, sameEntry] at member
        have inCalls : NodeCall.getNodeOnEntry link entry page ∈ calls := by
          rw [whole]
          exact List.mem_append_left _ member
        obtain ⟨reached, ran, held⟩ := inverse before _ whole
        obtain ⟨last, ranOn, heldAfter⟩ := inverse _ rest wholeAfter
        obtain ⟨flags, firstBlock⟩ := run_acquires acquiresOnly ran
        have noFlag : ¬ reached.hasInfo (reached.node link entry) := by
          rw [node_congr firstBlock]
          unfold hasInfo
          rw [flags]
          exact (idle link entry page inCalls).noFlag
        have same : last = reached := by
          have released : reached.run [.releaseNode link entry] = some reached := by
            rw [run, call, releaseNode_noInfo noFlag, Option.bind_some, run]
          rw [run_append, ran, Option.bind_some, released] at ranOn
          exact (Option.some.inj ranOn).symm
        have count := (held link entry page inCalls).2
        have countAfter := (heldAfter link entry page inCalls).2
        rw [same, count] at countAfter
        unfold entryOutstanding at countAfter
        rw [List.countP_append, List.countP_append] at countAfter
        have noRelease : before.countP (entryReleases entry) = 0 := by
          rw [List.countP_eq_zero]
          intro call inBefore
          cases call with
          | releaseNode => exact absurd (acquiresOnly _ inBefore) Bool.false_ne_true
          | getNodeOnEntry => exact Bool.false_ne_true
        have entryAcquired : 0 < before.countP (entryAcquires entry) :=
          List.countP_pos_iff.mpr ⟨_, member, by simp [entryAcquires]⟩
        have noMore : [NodeCall.releaseNode link entry].countP (entryAcquires entry) = 0 := rfl
        have oneMore : [NodeCall.releaseNode link entry].countP (entryReleases entry) = 1 := by
          simp [entryReleases]
        rw [noRelease, noMore, oneMore] at countAfter
        rw [Nat.sub_zero, Nat.add_zero, Nat.zero_add] at countAfter
        exact mod_pred_ne _ entryAcquired countAfter
  · rintro rfl before after whole
    obtain ⟨rfl, -⟩ := List.append_eq_nil_iff.mp whole.symm
    refine ⟨store, rfl, ?_⟩
    intro link entry page member
    cases member

theorem balanced_pair (link entry page : Nat) :
    Balanced [.getNodeOnEntry link entry page, .releaseNode link entry] := by
  constructor
  · intro before after whole otherLink otherEntry
    cases before with
    | nil => exact Nat.le_refl _
    | cons first more =>
        obtain ⟨isFirst, whole⟩ := List.cons.inj whole
        cases more with
        | nil =>
            rw [← isFirst]
            exact Nat.zero_le _
        | cons second rest =>
            obtain ⟨isSecond, whole⟩ := List.cons.inj whole
            obtain ⟨noRest, -⟩ := List.append_eq_nil_iff.mp whole.symm
            rw [← isFirst, ← isSecond, noRest]
            simp [acquires, releases, List.countP_cons]
  · intro otherLink otherEntry
    simp [acquires, releases, List.countP_cons]

def freshStore : NodeStore where
  pool := ⟨fun _ => 0, fun _ => 0, fun _ => 0, fun _ => 0, fun _ => 0, fun _ => 0, 0, 0, 0, 0, 0, []⟩
  size _ := 5000
  flags _ := 0
  infoNode _ := 0
  infoSize _ := 0
  infoRefCount _ := 0
  infoEntry _ := 0
  firstBlock _ := 4
  refCount _ := 0

theorem freshStore_idle : freshStore.Idle 1283 8192 :=
  ⟨by decide, by decide, by decide, by decide, by decide, by decide, by decide, fun _ => nofun⟩

theorem inverse_iff_pair :
    freshStore.Inverse [.getNodeOnEntry 1283 8192 65536, .releaseNode 1283 8192] ↔
      [NodeCall.getNodeOnEntry 1283 8192 65536, .releaseNode 1283 8192] = [] := by
  apply inverse_iff (balanced_pair 1283 8192 65536)
  intro link entry page member
  obtain ⟨rfl, rfl, -⟩ : link = 1283 ∧ entry = 8192 ∧ page = 65536 := by simpa using member
  exact freshStore_idle

/-- After one acquire and one release the size of the node is the address of its info object. -/
theorem releasedNode_keepsPointer :
    Balanced [.getNodeOnEntry 1283 8192 65536, .releaseNode 1283 8192] ∧
      freshStore.Idle 1283 8192 ∧
      ¬ freshStore.Inverse [.getNodeOnEntry 1283 8192 65536, .releaseNode 1283 8192] := by
  refine ⟨balanced_pair 1283 8192 65536, freshStore_idle, fun inverse => ?_⟩
  obtain ⟨reached, ran, held⟩ := inverse _ [] (List.append_nil _).symm
  have size : (freshStore.run [.getNodeOnEntry 1283 8192 65536, .releaseNode 1283 8192]).map
      (fun store => store.size (freshStore.node 1283 8192)) = some 65560 := by decide +kernel
  rw [ran] at size
  have restored := (held 1283 8192 65536 List.mem_cons_self).1
  rw [Holds, if_neg (by decide)] at restored
  rw [Option.map_some, restored.1] at size
  exact absurd size (by decide)

end NodeStore

end DoggOS.Fs

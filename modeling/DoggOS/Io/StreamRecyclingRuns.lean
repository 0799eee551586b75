/-
Runs of writes and reads on a stream that clears what was read.

The two lists stay apart as long as a write that takes a buffer finds at most
one on the free list: the link of that one is NULL.  With more of them the
buffer list runs on into the free list.
-/

import DoggOS.Io.StreamRecycling

namespace DoggOS.Io

namespace Recycles

variable {malloc : Nat → Nat} {stream : Stream} {history : Bytes} {written read size : Nat}
  {chain free : List Nat}

theorem of_carries (fresh : Fresh malloc) (carries : Carries malloc stream history 0 0) {flags : Nat}
    (notBlocked : flags &&& flagBlocked = 0) (clearing : flags &&& flagClearRead ≠ 0) :
    Recycles malloc { stream with flags := flags } history 0 0 0 [malloc 0] [] := by
  obtain ⟨buf, present, next, -⟩ := carries.linked 0 (Nat.le_refl 0)
  have nonNull := fresh.nonzero 0
  constructor
  case listed =>
    constructor
    case chained =>
      refine ⟨carries.buffers, nonNull, ?_⟩
      change nextOf stream.bufs (malloc 0) = 0
      rw [nextOf, present]
      exact next
    case freed => exact carries.freeBuffers
    case distinct => exact List.nodup_singleton _
    case present =>
      intro buffer member
      rw [List.mem_singleton.mp member]
      exact Option.isSome_iff_exists.mpr ⟨buf, present⟩
    case made =>
      intro buffer member
      have allocated := carries.allocated
      exact ⟨0, by change 0 < stream.allocated; omega, (List.mem_singleton.mp member).symm⟩
    case last => exact congrArg some carries.lastBuffer.symm
  case writeOffset => exact carries.writeOffset
  case readOffset => exact carries.readOffset
  case ordered => exact Nat.le_refl 0
  case fits => decide
  case behind => exact Nat.le_refl 0
  case count => rfl
  case writeBuffer => exact carries.writeBuffer.trans carries.lastBuffer.symm
  case readBuffer => exact congrArg some carries.readBuffer.symm
  case holds =>
    intro i buffer _ place _ below
    omega
  case notBlocked => exact notBlocked
  case clearing => exact clearing

theorem readStreamData_empty {base : Nat}
    (recycles : Recycles malloc stream history written written base chain free)
    (positive : 0 < size) (data : Bytes) :
    stream.readStreamData (some data) size = some (.emptyStream, some data, stream) := by
  have empty : stream.buffers = 0 ∨ stream.readOffset = stream.writeOffset :=
    .inr (recycles.readOffset.trans recycles.writeOffset.symm)
  unfold Stream.readStreamData
  simp only [recycles.notBlocked, ne_eq, not_true_eq_false, if_false, if_neg (Nat.ne_of_gt positive),
    if_pos empty]

end Recycles

def StreamCall.Sized : StreamCall → Prop
  | .write _ size => 0 < size ∧ size < 2 ^ 32
  | .read _ size => 0 < size ∧ size < 2 ^ 32

instance (call : StreamCall) : Decidable call.Sized :=
  match call with
  | .write _ _ => inferInstanceAs (Decidable (_ ∧ _))
  | .read _ _ => inferInstanceAs (Decidable (_ ∧ _))

namespace Usage

/-- Calls on a stream of `k_io_AllocStream` with other flags. -/
def recycleMachine (malloc : Nat → Nat) (flags : Nat) : Machine Usage StreamCall where
  start usage := ∃ given stream, Stream.allocStream malloc given = some stream ∧
    usage = ⟨{ stream with flags := flags }, [], []⟩
  step before call after := call.Sized ∧ before.after malloc call = some after

/-- A write does not make its offset wrap, and when it takes a buffer at most one is free. -/
def FindsOneFree (before : Usage) : StreamCall → Prop
  | .write _ size => before.stream.writeOffset + size < 2 ^ 32 ∧
      (before.stream.writeOffset % bufDataSize + size < bufDataSize ∨
        before.stream.freeBuffers = 0 ∨ nextOf before.stream.bufs before.stream.freeBuffers = 0)
  | .read _ _ => True

instance (before : Usage) (call : StreamCall) : Decidable (before.FindsOneFree call) :=
  match call with
  | .write _ _ => inferInstanceAs (Decidable (_ ∧ (_ ∨ _ ∨ _)))
  | .read _ _ => inferInstanceAs (Decidable True)

/-- The two lists have no buffer in common or twice, the other pointers are into the first, and what
was read is the front of what was written. -/
def Recycled (usage : Usage) : Prop :=
  ∃ chain free, Chain (nextOf usage.stream.bufs) usage.stream.buffers chain ∧
    Chain (nextOf usage.stream.bufs) usage.stream.freeBuffers free ∧
    (∀ buffer ∈ chain ++ free, (usage.stream.bufs buffer).isSome) ∧ (chain ++ free).Nodup ∧
    usage.stream.lastBuffer = chain.getLastD 0 ∧
    (usage.stream.readBuffer ≠ 0 → usage.stream.readBuffer ∈ chain) ∧
    (usage.stream.writeBuffer ≠ 0 → usage.stream.writeBuffer ∈ chain) ∧
    usage.delivered <+: usage.written

def Recycling (malloc : Nat → Nat) (usage : Usage) : Prop :=
  ∃ history chain free, Recycles malloc usage.stream history usage.written.length
      usage.delivered.length (usage.delivered.length / 4088) chain free ∧
    usage.written = bytesOf history usage.written.length ∧
    usage.delivered = bytesOf history usage.delivered.length ∧
    usage.stream.availableCount = usage.written.length - usage.delivered.length

variable {malloc : Nat → Nat} {usage before after : Usage} {data : Bytes} {size : Nat}

theorem write_recycling (fresh : Fresh malloc) (recycling : usage.Recycling malloc)
    (positive : 0 < size) (finds : usage.FindsOneFree (.write data size)) :
    ∃ after, usage.after malloc (.write data size) = some after ∧ after.Recycling malloc := by
  obtain ⟨history, chain, free, recycles, isWritten, isDelivered, available⟩ := recycling
  obtain ⟨fits, room⟩ := finds
  rw [recycles.writeOffset] at fits room
  have few : usage.written.length % 4088 + size < 4088 ∨ free.length ≤ 1 := by
    have freed := recycles.listed.freed
    refine room.imp_right fun oneFree => ?_
    cases free with
    | nil => exact Nat.zero_le 1
    | cons first others =>
        obtain ⟨isFirst, nonNull, behind⟩ := freed
        rw [isFirst] at oneFree
        rw [behind.eq_nil_iff.mpr (oneFree.resolve_left nonNull)]
        exact Nat.le_refl 1
  obtain ⟨stream, chain', free', wrote, carried, available'⟩ :=
    recycles.writeStreamData_spec fresh available positive fits few data
  refine ⟨⟨stream, usage.written ++ bytesOf data size, usage.delivered⟩, ?_,
    fillBytes history usage.written.length size data, chain', free', ?_⟩
  · rw [Usage.after, wrote]
    rfl
  · have ordered := recycles.ordered
    simp only [List.length_append, bytesOf_length]
    refine ⟨carried, ?_, ?_, available'⟩
    · rw [isWritten, bytesOf_length]
      exact bytesOf_append _ _ _ _
    · refine isDelivered.trans (bytesOf_congr ?_)
      intro place small
      unfold fillBytes
      rw [if_neg (by omega)]

theorem read_recycling (fresh : Fresh malloc) (recycling : usage.Recycling malloc)
    (positive : 0 < size) :
    ∃ after, usage.after malloc (.read data size) = some after ∧ after.Recycling malloc := by
  obtain ⟨history, chain, free, recycles, isWritten, isDelivered, available⟩ := id recycling
  have ordered := recycles.ordered
  by_cases left : usage.delivered.length < usage.written.length
  · obtain ⟨stream, chain', free', read, carried, available'⟩ :=
      recycles.readStreamData_spec fresh available positive left data
    have moved : usage.stream.availableCount - stream.availableCount =
        min size (usage.written.length - usage.delivered.length) := by
      rw [available, available']
      omega
    refine ⟨_, by rw [Usage.after, read]; rfl, history, chain', free', ?_⟩
    rw [moved]
    simp only [List.length_append, bytesOf_length]
    refine ⟨carried, isWritten, ?_, available'⟩
    have passedOn := @bytesOf_congr (fillBytes data 0
      (min size (usage.written.length - usage.delivered.length)) fun place =>
        history (usage.delivered.length + place)) (fun place => history (usage.delivered.length + place))
      (min size (usage.written.length - usage.delivered.length)) (by
        intro place small
        unfold fillBytes
        rw [if_pos (by omega), Nat.sub_zero])
    rw [passedOn, isDelivered, bytesOf_length]
    exact bytesOf_split _ _ _
  · have all : usage.delivered.length = usage.written.length := by omega
    rw [all] at recycles
    refine ⟨usage, ?_, recycling⟩
    rw [Usage.after, recycles.readStreamData_empty positive]
    simp only [Option.bind_some, Option.map_some, Nat.sub_self, bytesOf, List.range_zero, List.map_nil,
      List.append_nil]

theorem start_recycling (fresh : Fresh malloc) {flags : Nat} (notBlocked : flags &&& flagBlocked = 0)
    (clearing : flags &&& flagClearRead ≠ 0) (start : (recycleMachine malloc flags).start usage) :
    usage.Recycling malloc := by
  obtain ⟨given, stream, made, rfl⟩ := start
  obtain ⟨first, made', carries, available, -⟩ := Carries.allocStream_spec fresh given fun _ => 0
  cases made.symm.trans made'
  refine ⟨fun _ => 0, [malloc 0], [], ?_, rfl, rfl, available⟩
  change Recycles malloc _ _ 0 0 (0 / 4088) _ _
  rw [Nat.zero_div]
  exact Recycles.of_carries fresh carries notBlocked clearing

theorem call_recycling (fresh : Fresh malloc) (recycling : before.Recycling malloc) {call : StreamCall}
    (sized : call.Sized) (finds : before.FindsOneFree call) :
    ∃ after, before.after malloc call = some after ∧ after.Recycling malloc := by
  cases call with
  | write data size => exact write_recycling fresh recycling sized.1 finds
  | read data size => exact read_recycling fresh recycling sized.1

theorem Recycling.recycled (recycling : usage.Recycling malloc) :
    usage.Recycled := by
  obtain ⟨history, chain, free, recycles, isWritten, isDelivered, -⟩ := recycling
  have listed := recycles.listed
  have last := listed.last
  refine ⟨chain, free, listed.chained, listed.freed, listed.present, listed.distinct, ?_,
    fun _ => List.mem_of_getElem? recycles.readBuffer, ?_, ?_⟩
  · rw [List.getLastD_eq_getLast?, last]
    rfl
  · intro _
    rw [recycles.writeBuffer]
    exact listed.last_mem
  · have split := bytesOf_split history usage.delivered.length
      (usage.written.length - usage.delivered.length)
    rw [Nat.add_sub_cancel' recycles.ordered, ← isWritten, ← isDelivered] at split
    exact ⟨_, split⟩

/-- In a run whose writes find at most one free buffer the lists stay apart and every call returns. -/
theorem stream_recycling (fresh : Fresh malloc) {flags : Nat}
    (notBlocked : flags &&& flagBlocked = 0) (clearing : flags &&& flagClearRead ≠ 0)
    (reachable : ((recycleMachine malloc flags).restrict FindsOneFree).Reachable usage) :
    usage.Recycled ∧ ∀ call : StreamCall, call.Sized → usage.FindsOneFree call →
      ∃ after, usage.after malloc call = some after := by
  have recycling : usage.Recycling malloc := by
    refine Machine.invariant _ ?_ ?_ reachable
    · exact fun first initial => start_recycling fresh notBlocked clearing initial
    · intro before call after recycling step
      obtain ⟨finds, sized, went⟩ := step
      obtain ⟨next, went', kept⟩ := call_recycling fresh recycling sized finds
      cases went.symm.trans went'
      exact kept
  refine ⟨recycling.recycled, fun call sized finds => ?_⟩
  obtain ⟨after, went, -⟩ := call_recycling fresh recycling sized finds
  exact ⟨after, went⟩

/-- One buffer is written full and read, and the next write takes it. -/
theorem stream_recycling_one_free : ∃ usage,
    ((recycleMachine pageOf flagClearRead).restrict FindsOneFree).Reachable usage ∧
      usage.stream.lastBuffer = 4096 ∧ usage.Recycled := by
  let next (before : Usage) (call : StreamCall) : Option Usage :=
    if before.FindsOneFree call ∧ call.Sized then before.after pageOf call else none
  have links : ((Stream.allocStream pageOf 0).bind fun stream =>
      Machine.follow next ⟨{ stream with flags := flagClearRead }, [], []⟩
        [.write (fun _ => 7) 4088, .read (fun _ => 0) 4088, .write (fun _ => 8) 4088]).map
          (fun usage => usage.stream.lastBuffer) = some 4096 := by
    decide +kernel
  obtain ⟨usage, ran, last⟩ := Option.map_eq_some_iff.mp links
  obtain ⟨stream, made, followed⟩ := Option.bind_eq_some_iff.mp ran
  have initial : ((recycleMachine pageOf flagClearRead).restrict FindsOneFree).start
      ⟨{ stream with flags := flagClearRead }, [], []⟩ := ⟨0, stream, made, rfl⟩
  have reachable : ((recycleMachine pageOf flagClearRead).restrict FindsOneFree).Reachable usage := by
    apply Machine.follow_reachable _ _ (Machine.reachable_start _ initial) followed
    intro before call after went
    obtain ⟨⟨finds, sized⟩, went⟩ := Option.ite_none_right_eq_some.mp went
    exact ⟨finds, sized, went⟩
  exact ⟨usage, reachable, last, (stream_recycling pageOf_fresh (by decide) (by decide) reachable).1⟩

/-- Two buffers are read and the next write takes one of them. -/
theorem stream_recycling_two_free :
    ¬∀ usage, (recycleMachine pageOf flagClearRead).Reachable usage → usage.Recycled := by
  intro always
  let calls : List StreamCall :=
    [.write (fun _ => 7) 8176, .read (fun _ => 0) 8176, .write (fun _ => 8) 4088]
  have links : ((Stream.allocStream pageOf 0).bind fun stream =>
      Machine.follow (Usage.after pageOf) ⟨{ stream with flags := flagClearRead }, [], []⟩ calls).map
        (fun usage => (usage.stream.buffers, usage.stream.freeBuffers,
          [12288, 4096, 8192].map (nextOf usage.stream.bufs))) =
      some (12288, 8192, [4096, 8192, 0]) := by
    decide +kernel
  obtain ⟨usage, ran, linked⟩ := Option.map_eq_some_iff.mp links
  obtain ⟨stream, made, followed⟩ := Option.bind_eq_some_iff.mp ran
  simp only [List.map_cons, List.map_nil, Prod.mk.injEq, List.cons.injEq, and_true] at linked
  obtain ⟨buffers, freeBuffers, second, first, last⟩ := linked
  have sized : ∀ call ∈ calls, call.Sized := by
    intro call member
    simp only [calls, List.mem_cons, List.not_mem_nil, or_false] at member
    rcases member with rfl | rfl | rfl <;> exact ⟨by decide, by decide⟩
  have reachable : (recycleMachine pageOf flagClearRead).Reachable usage := by
    apply Machine.follow_restrict
      (Machine.ofNext (recycleMachine pageOf flagClearRead).start (Usage.after pageOf))
      (fun _ _ _ step => step) (fun call member _ => sized call member) _ followed
    exact Machine.reachable_start _ ⟨0, stream, made, rfl⟩
  obtain ⟨chain, free, chained, freed, -, distinct, -⟩ := always usage reachable
  have chainedToo : Chain (nextOf usage.stream.bufs) usage.stream.buffers [12288, 4096, 8192] :=
    ⟨buffers, by decide, second, by decide, first, by decide, last⟩
  have freedToo : Chain (nextOf usage.stream.bufs) usage.stream.freeBuffers [8192] :=
    ⟨freeBuffers, by decide, last⟩
  rw [chained.unique chainedToo, freed.unique freedToo] at distinct
  exact absurd distinct (by decide)

end Usage

end DoggOS.Io

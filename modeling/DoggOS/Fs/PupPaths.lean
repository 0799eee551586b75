/-
Paths of nodes.

The path of a node is built from the root down, along the parent links that the
blocks of the nodes keep.  `available` is the room that the recursion returns
for the next name; the catenation takes it for the size of the whole buffer.
The counts of the cache entries play no role here.
-/

import DoggOS.Fs.PupMount
import DoggOS.Fs.PupNodeInfo
import DoggOS.Rt.Strings

namespace DoggOS.Fs

open Rt

variable {Medium : Type*}

def slash : Bytes := fun place => if place = 0 then 47 else 0

/-- The offset of a node in its block: 16 bytes of fields, nodes of 256 bytes. -/
def nodeOffset (link : Nat) : Nat := 16 + 256 * nodeIndex link

/-- `node->name`, behind 24 bytes of fields. -/
def nodeName (contents : Bytes) (link : Nat) : Bytes := fun place =>
  contents (nodeOffset link + 24 + place)

/-- `contents->dir.parent` -/
def parentLink (contents : Bytes) : Nat := loadLongAt contents 0

def catName (name : Bytes) (available : Nat) (pathBuffer : Bytes) : Option (Nat × Bytes) :=
  (strLen name).bind fun length =>
    let nameLen := (length + 2) % 2 ^ 32
    if available ≥ nameLen then
      (strCat pathBuffer available name).bind fun named =>
        (strCat named.2 available slash).map fun ended =>
          ((available + 2 ^ 32 - nameLen) % 2 ^ 32, ended.2)
    else some (available, pathBuffer)

namespace PupVolume

variable (partition : Partition Medium) (medium : Medium) (memory : FreshMemory)

/-- `k_fs_PupGetPathToNode_r`, with the depth of the stack that it may use. -/
def getPathToNode_r (volume : PupVolume) (startNode : Nat) (pathBuffer : Bytes)
    (bufferSize : Nat) : Nat → Option (Nat × Bytes × PupVolume)
  | 0 => none
  | depth + 1 =>
      if startNode = volume.root.rootNode then
        (strCpy (Function.update pathBuffer 0 0) bufferSize slash).map fun copied =>
          ((bufferSize + 2 ^ 32 - 1) % 2 ^ 32, copied.2, volume)
      else
        let found := volume.findOrLoadCacheEntry partition medium memory (nodeBlock startNode)
        let contents := found.1.getBlock (nodeBlock startNode)
        (getPathToNode_r found.2 (parentLink contents) pathBuffer bufferSize depth).bind
          fun (available, pathBuffer, volume) =>
            (catName (nodeName contents startNode) available pathBuffer).map
              fun (available, pathBuffer) => (available, pathBuffer, volume)

/-- The names on the path from the root to a node.  The blocks are loaded in the order of the
parent links; a name is shorter than the address space. -/
inductive ParentChain : PupVolume → Nat → List (List UInt8) → Prop
  | root (volume : PupVolume) : ParentChain volume volume.root.rootNode []
  | node {volume : PupVolume} {startNode : Nat} {names : List (List UInt8)} {name : List UInt8}
      (below : startNode ≠ volume.root.rootNode)
      (named : HoldsString (nodeName ((volume.findOrLoadCacheEntry partition medium memory
        (nodeBlock startNode)).1.getBlock (nodeBlock startNode)) startNode) name)
      (short : name.length + 2 < 2 ^ 32)
      (parent : ParentChain
        (volume.findOrLoadCacheEntry partition medium memory (nodeBlock startNode)).2
        (parentLink ((volume.findOrLoadCacheEntry partition medium memory
          (nodeBlock startNode)).1.getBlock (nodeBlock startNode))) names) :
      ParentChain volume startNode (names ++ [name])

end PupVolume

def pathText (names : List (List UInt8)) : List UInt8 :=
  47 :: names.flatMap fun name => name ++ [47]

/-- The call writes inside the buffer, which is a string afterwards, and the path if it fits; it
returns the room that is left. -/
structure RebuildsPath (names : List (List UInt8)) (bufferSize : Nat) (pathBuffer : Bytes)
    (returned : Nat) (after : Bytes) : Prop where
  inside : ∀ place, bufferSize ≤ place → after place = pathBuffer place
  terminated : ∃ place < bufferSize, after place = 0
  path : (pathText names).length + 1 ≤ bufferSize →
    HoldsString after (pathText names) ∧ returned = bufferSize - (pathText names).length

def catNameText (path : List UInt8 × Nat) (name : List UInt8) : List UInt8 × Nat :=
  if name.length + 2 ≤ path.2 then
    (catText (catText path.1 path.2 name) path.2 [47], path.2 - (name.length + 2))
  else path

def writtenPath (bufferSize : Nat) (names : List (List UInt8)) : List UInt8 × Nat :=
  names.foldl catNameText ([47], bufferSize - 1)

structure Written (bufferSize : Nat) (pathBuffer : Bytes) (path : List UInt8 × Nat)
    (after : Bytes) : Prop where
  holds : HoldsString after path.1
  room : path.1.length + path.2 ≤ bufferSize
  positive : 0 < path.1.length
  inside : ∀ place, bufferSize ≤ place → after place = pathBuffer place

variable {bufferSize available : Nat} {pathBuffer name after : Bytes} {text word : List UInt8}
  {names : List (List UInt8)}

theorem slash_holds : HoldsString slash [47] where
  chars index inside := by
    cases index with
    | zero => rfl
    | succ index =>
        have last : index = 0 := Nat.le_zero.mp (Nat.le_of_succ_le_succ inside)
        rw [last]
        rfl
  nonzero := by decide

theorem catText_length (text word : List UInt8) (size : Nat) :
    (catText text size word).length = text.length ∨
      (catText text size word).length = text.length + word.length := by
  unfold catText
  split
  · exact Or.inr List.length_append
  · exact Or.inl rfl

/-- A name takes more room than its text and the slash. -/
theorem catNameText_room (path : List UInt8 × Nat) (word : List UInt8) :
    catNameText path word = path ∨
      (catNameText path word).1.length + (catNameText path word).2 < path.1.length + path.2 ∧
        path.1.length ≤ (catNameText path word).1.length := by
  unfold catNameText
  by_cases fits : word.length + 2 ≤ path.2
  · have named := catText_length path.1 word path.2
    have ended := catText_length (catText path.1 path.2 word) [47] path.2
    rw [List.length_singleton] at ended
    rw [if_pos fits]
    dsimp only
    exact Or.inr ⟨by omega, by omega⟩
  · exact Or.inl (if_neg fits)

theorem catName_spec {path : List UInt8 × Nat} (written : Written bufferSize pathBuffer path after)
    (named : HoldsString name word) (short : word.length + 2 < 2 ^ 32)
    (small : bufferSize < 2 ^ 32) :
    ∃ last, catName name path.2 after = some ((catNameText path word).2, last) ∧
      Written bufferSize pathBuffer (catNameText path word) last := by
  have room := written.room
  have nameLen : (word.length + 2) % 2 ^ 32 = word.length + 2 := Nat.mod_eq_of_lt short
  unfold catName
  rw [strLen_eq named (by omega), Option.bind_some, nameLen]
  unfold catNameText
  by_cases fits : word.length + 2 ≤ path.2
  · have longer := catText_length path.1 word path.2
    obtain ⟨_, first, catFirst, firstHolds, firstInside⟩ :=
      strCat_spec path.2 written.holds named (by omega) (by omega)
    obtain ⟨_, second, catSecond, secondHolds, secondInside⟩ :=
      strCat_spec path.2 firstHolds slash_holds (by omega) (by
        rw [List.length_singleton]
        omega)
    have left : (path.2 + 2 ^ 32 - (word.length + 2)) % 2 ^ 32 = path.2 - (word.length + 2) := by
      omega
    have ended := catText_length (catText path.1 path.2 word) [47] path.2
    rw [List.length_singleton] at ended
    have positive := written.positive
    rw [if_pos fits, if_pos fits, catFirst, Option.bind_some]
    dsimp only
    rw [catSecond, Option.map_some, left]
    refine ⟨second, rfl, secondHolds, ?_, ?_, ?_⟩
    · dsimp only
      omega
    · dsimp only
      omega
    · intro place outside
      rw [secondInside place (by omega), firstInside place (by omega)]
      exact written.inside place outside
  · rw [if_neg fits, if_neg fits]
    exact ⟨after, rfl, written⟩

theorem writtenPath_snoc (bufferSize : Nat) (names : List (List UInt8)) (word : List UInt8) :
    writtenPath bufferSize (names ++ [word]) = catNameText (writtenPath bufferSize names) word := by
  unfold writtenPath
  rw [List.foldl_append]
  rfl

theorem writtenPath_room (small : 1 ≤ bufferSize) (names : List (List UInt8)) :
    writtenPath bufferSize names = ([47], bufferSize - 1) ∨
      (writtenPath bufferSize names).1.length + (writtenPath bufferSize names).2 < bufferSize := by
  induction names using List.reverseRecOn with
  | nil => exact Or.inl rfl
  | append_singleton names word ih =>
      rw [writtenPath_snoc]
      have start : ([47] : List UInt8).length + (bufferSize - 1) = bufferSize := by
        rw [List.length_singleton]
        omega
      cases catNameText_room (writtenPath bufferSize names) word with
      | inl same =>
          rw [same]
          exact ih
      | inr less =>
          apply Or.inr
          cases ih with
          | inl first =>
              rw [first] at less ⊢
              exact less.1.trans_eq start
          | inr room => exact less.1.trans room

section Calls

variable {partition : Partition Medium} {medium : Medium} {memory : FreshMemory}
  {volume : PupVolume} {startNode : Nat}

open PupVolume

/-- A call writes the names of the chain one after the other. -/
theorem getPathToNode_r_written (chain : ParentChain partition medium memory volume startNode names)
    (pathBuffer : Bytes) (room : 2 ≤ bufferSize) (small : bufferSize < 2 ^ 32) {depth : Nat}
    (deep : names.length < depth) :
    ∃ after last, volume.getPathToNode_r partition medium memory startNode pathBuffer bufferSize
        depth = some ((writtenPath bufferSize names).2, after, last) ∧
      Written bufferSize pathBuffer (writtenPath bufferSize names) after := by
  induction chain generalizing depth with
  | root volume =>
      obtain ⟨depth, rfl⟩ := Nat.exists_eq_succ_of_ne_zero (Nat.ne_zero_of_lt deep)
      obtain ⟨after, copied, holds, inside⟩ :=
        strCpy_spec (Function.update pathBuffer 0 0) slash_holds room small
      have left : (bufferSize + 2 ^ 32 - 1) % 2 ^ 32 = bufferSize - 1 := by omega
      rw [getPathToNode_r, if_pos rfl, copied, Option.map_some, left]
      refine ⟨after, volume, rfl, holds, ?_, Nat.one_pos, ?_⟩
      · change 1 + (bufferSize - 1) ≤ bufferSize
        omega
      · intro place outside
        rw [inside place outside, Function.update_of_ne (by omega)]
  | node below named short parent ih =>
      obtain ⟨depth, rfl⟩ := Nat.exists_eq_succ_of_ne_zero (Nat.ne_zero_of_lt deep)
      rw [List.length_append, List.length_singleton] at deep
      obtain ⟨before, last, called, written⟩ := ih (Nat.lt_of_succ_lt_succ deep)
      obtain ⟨after, catted, writtenAfter⟩ := catName_spec written named short small
      rw [writtenPath_snoc, getPathToNode_r, if_neg below]
      dsimp only
      rw [called, Option.bind_some]
      dsimp only
      rw [catted, Option.map_some]
      exact ⟨after, last, rfl, writtenAfter⟩

theorem pathText_length (names : List (List UInt8)) :
    (pathText names).length = 1 ∧ names = [] ∨ 1 < (pathText names).length := by
  cases names with
  | nil => exact Or.inl ⟨rfl, rfl⟩
  | cons name names =>
      apply Or.inr
      unfold pathText
      rw [List.length_cons, List.flatMap_cons, List.length_append, List.length_append,
        List.length_singleton]
      omega

theorem PupVolume.ParentChain.nil_iff
    (chain : ParentChain partition medium memory volume startNode names) :
    names = [] ↔ startNode = volume.root.rootNode := by
  cases chain with
  | root => exact ⟨fun _ => rfl, fun _ => rfl⟩
  | node below _ _ _ =>
      exact ⟨fun none => absurd none (List.append_ne_nil_of_right_ne_nil _ (List.cons_ne_nil _ _)),
        fun root => absurd root below⟩

/-- The call gives the path exactly at the root, and where the path does not fit. -/
theorem getPathToNode_r_rebuilds_iff
    (chain : ParentChain partition medium memory volume startNode names) (pathBuffer : Bytes)
    (room : 2 ≤ bufferSize) (small : bufferSize < 2 ^ 32) {depth : Nat}
    (deep : names.length < depth) :
    (∃ returned after last, volume.getPathToNode_r partition medium memory startNode pathBuffer
        bufferSize depth = some (returned, after, last) ∧
      RebuildsPath names bufferSize pathBuffer returned after) ↔
      startNode = volume.root.rootNode ∨ bufferSize < (pathText names).length + 1 := by
  obtain ⟨after, last, called, written⟩ := getPathToNode_r_written chain pathBuffer room small deep
  have text := written.room
  have empty := chain.nil_iff
  constructor
  · intro result
    obtain ⟨returned, end', last', ran, rebuilds⟩ := result
    rw [called] at ran
    cases ran
    by_contra neither
    obtain ⟨below, fits⟩ := not_or.mp neither
    obtain ⟨holds, left⟩ := rebuilds.path (Nat.le_of_not_lt fits)
    have same := written.holds.length_unique holds (by omega) (by omega)
    cases writtenPath_room (Nat.le_of_succ_le room) names with
    | inl first =>
        rw [first, List.length_singleton] at same
        cases pathText_length names with
        | inl root => exact below (empty.mp root.2)
        | inr longer => omega
    | inr less => omega
  · intro condition
    refine ⟨_, after, last, called, written.inside, ?_, ?_⟩
    · refine ⟨(writtenPath bufferSize names).1.length, ?_, written.holds.nul⟩
      cases writtenPath_room (Nat.le_of_succ_le room) names with
      | inl first =>
          rw [first, List.length_singleton]
          exact room
      | inr less => omega
    · intro fits
      cases condition with
      | inl root =>
          rw [empty.mpr root] at written ⊢
          exact ⟨written.holds, rfl⟩
      | inr long => omega

end Calls

private def sampleTree : Bytes := fun place =>
  match place with
  | 8193 => 1
  | 8232 => 97
  | 8233 => 98
  | 12289 => 2
  | 12328 => 99
  | 12329 => 100
  | _ => 0

private def sampleTreeVolume : PupVolume where
  root := ⟨[], 256, 0, 0, 0, 16⟩
  blockBitmask := fun _ => 0
  cacheEntries := [⟨0, sampleTree⟩]

private def sampleNames : List (List UInt8) := [[97, 98], [99, 100]]

private theorem sample_chain :
    PupVolume.ParentChain (samplePartition .boot) sampleMedium sampleMemory sampleTreeVolume 768
      sampleNames := by
  have inner : HoldsString (nodeName ((CacheEntry.mk 0 sampleTree).getBlock 2) 512) [97, 98] :=
    ⟨by decide, by decide⟩
  have outer : HoldsString (nodeName ((CacheEntry.mk 0 sampleTree).getBlock 3) 768) [99, 100] :=
    ⟨by decide, by decide⟩
  have first : PupVolume.ParentChain (samplePartition .boot) sampleMedium sampleMemory
      sampleTreeVolume 512 ([] ++ [[97, 98]]) :=
    .node (by decide) inner (by decide) (.root sampleTreeVolume)
  have second : PupVolume.ParentChain (samplePartition .boot) sampleMedium sampleMemory
      sampleTreeVolume 768 ([[97, 98]] ++ [[99, 100]]) :=
    .node (by decide) outer (by decide) first
  exact second

theorem getPathToNode_r_rebuilds_short :
    ∃ returned after last, sampleTreeVolume.getPathToNode_r (samplePartition .boot) sampleMedium
        sampleMemory 768 (fun _ => 1) 7 3 = some (returned, after, last) ∧
      RebuildsPath sampleNames 7 (fun _ => 1) returned after :=
  (getPathToNode_r_rebuilds_iff sample_chain (fun _ => 1) (by decide) (by decide)
    (by decide)).mpr (Or.inr (by decide))

/-- The path `/ab/cd/` has room in 12 bytes; the buffer gets `/ab//`, and the call returns 3. -/
theorem getPathToNode_r_not_rebuilds :
    PupVolume.ParentChain (samplePartition .boot) sampleMedium sampleMemory sampleTreeVolume 768
        sampleNames ∧
      (pathText sampleNames).length + 1 ≤ 12 ∧
      ∃ after last, sampleTreeVolume.getPathToNode_r (samplePartition .boot) sampleMedium
          sampleMemory 768 (fun _ => 1) 12 3 = some (3, after, last) ∧
        HoldsString after [47, 97, 98, 47, 47] ∧
        ¬ RebuildsPath sampleNames 12 (fun _ => 1) 3 after := by
  have room : 2 ≤ 12 := by decide
  have deep : sampleNames.length < 3 := by decide
  obtain ⟨after, last, called, written⟩ :=
    getPathToNode_r_written sample_chain (fun _ => 1) room (by decide) deep
  refine ⟨sample_chain, by decide, after, last, called, written.holds, ?_⟩
  intro rebuilds
  have returned := (rebuilds.path (by decide)).2
  exact absurd returned (by decide)

end DoggOS.Fs

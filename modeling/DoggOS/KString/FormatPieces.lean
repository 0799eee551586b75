/-
The loop of `k_vasfmt` over the pieces of its format.
-/

import DoggOS.KString.Formats

namespace DoggOS.KString

variable {fmt : CString} {bufferLength : Nat}

/-- Behind a percent sign the code takes the modifier that the pieces have. -/
theorem readModifier_eq (fmt : CString) {inIndex : Nat} (within : inIndex ≤ fmt.text.length)
    (modifier : Modifier) :
    ∃ letterIndex own, readModifier fmt inIndex modifier = some (letterIndex, own.over modifier) ∧
      inIndex ≤ letterIndex ∧ letterIndex ≤ fmt.text.length ∧
      piecesFrom (some .none) (fmt.text.drop inIndex) =
        match fmt.text.drop letterIndex with
        | [] => [.cut]
        | letter :: rest => .directive own letter :: pieces rest := by
  have reads := fmt.readsText
  unfold readModifier
  rw [reads.drop within]
  cases first : fmt.text.drop inIndex with
  | nil =>
      refine ⟨inIndex, .none, rfl, Nat.le_refl _, within, ?_⟩
      rw [first]
      rfl
  | cons char rest =>
      obtain ⟨inside, further⟩ := CharBuffers.drop_cons first
      rw [List.head?_cons, Option.getD_some, Option.bind_some]
      by_cases long : char = 'l'.toUInt8
      · rw [if_pos long, reads.drop inside, further]
        cases rest with
        | nil =>
            refine ⟨inIndex + 1, .long, rfl, by omega, inside, ?_⟩
            rw [further, piecesFrom, if_pos ⟨long, by decide⟩]
            rfl
        | cons second rest =>
            obtain ⟨insideToo, behind⟩ := CharBuffers.drop_cons further
            rw [List.head?_cons, Option.getD_some, Option.map_some]
            by_cases longer : second = 'l'.toUInt8
            · refine ⟨inIndex + 2, .longLong, congrArg some (if_pos longer), by omega, by omega, ?_⟩
              rw [behind, piecesFrom, if_pos ⟨long, by decide⟩, piecesFrom,
                if_pos ⟨longer, by decide⟩]
              cases rest with
              | nil => rfl
              | cons letter rest => exact if_neg (fun both => both.2 rfl)
            · refine ⟨inIndex + 1, .long, congrArg some (if_neg longer), by omega, inside, ?_⟩
              rw [further, piecesFrom, if_pos ⟨long, by decide⟩, piecesFrom,
                if_neg (fun both => longer both.1)]
              rfl
      · refine ⟨inIndex, .none, if_neg long, Nat.le_refl _, within, ?_⟩
        rw [first, piecesFrom, if_neg (fun both => long both.1)]
        rfl

theorem fmtLoop_beyond (fmt : CString) (bufferLength : Nat) {inIndex : Nat}
    (beyond : fmt.text.length < inIndex) (turns : Nat) (state : FmtState) :
    fmtLoop fmt bufferLength turns inIndex state = none := by
  cases turns with
  | zero => rfl
  | succ turns =>
      rw [fmtLoop, fmt.char_beyond beyond]
      rfl

/-- The loop of the code is the loop over the pieces. -/
theorem fmtLoop_eq_run (fmt : CString) (bufferLength : Nat) {inIndex turns : Nat}
    (within : inIndex ≤ fmt.text.length) (enough : fmt.text.length - inIndex < turns)
    (state : FmtState) :
    fmtLoop fmt bufferLength turns inIndex state =
      Piece.run bufferLength (pieces (fmt.text.drop inIndex)) state := by
  have reads := fmt.readsText
  induction turns generalizing inIndex state with
  | zero => omega
  | succ turns ih =>
      rw [fmtLoop, reads.drop within]
      cases ahead : fmt.text.drop inIndex with
      | nil => rfl
      | cons char rest =>
          obtain ⟨inside, further⟩ := CharBuffers.drop_cons ahead
          have nonzero : char ≠ 0 := reads.drop_ne_zero ahead
          rw [List.head?_cons, Option.getD_some, Option.bind_some]
          by_cases room : state.outIndex < bufferLength
          · rw [if_pos ⟨nonzero, room⟩, fmtTurn]
            by_cases percent : char = '%'.toUInt8
            · obtain ⟨letterIndex, own, read, later, inText, split⟩ :=
                readModifier_eq fmt inside state.modifier
              rw [further] at split
              rw [pieces, piecesFrom, if_pos percent, split]
              cases stored : storeChar state.buffer state.outIndex 0 with
              | none =>
                  cases fmt.text.drop letterIndex <;>
                    rw [Piece.run, if_pos room, Piece.turn, stored] <;> rfl
              | some buffer =>
                  rw [Option.bind_some]
                  dsimp only
                  rw [if_pos percent, read, Option.bind_some, reads.drop inText]
                  cases letters : fmt.text.drop letterIndex with
                  | nil =>
                      have atEnd : fmt.text.length = letterIndex :=
                        Nat.le_antisymm (List.drop_eq_nil_iff.mp letters) inText
                      rw [Piece.run, if_pos room, Piece.turn, stored]
                      exact fmtLoop_beyond fmt bufferLength (Nat.lt_succ_of_le (Nat.le_of_eq atEnd)) turns _
                  | cons letter after =>
                      obtain ⟨insideToo, behind⟩ := CharBuffers.drop_cons letters
                      rw [Piece.run, if_pos room, Piece.turn, stored, List.head?_cons,
                        Option.getD_some, Option.bind_some, Option.bind_some]
                      dsimp only
                      cases FmtState.directive _ bufferLength letter with
                      | none => rfl
                      | some next =>
                          have rest := ih (show letterIndex + 1 ≤ fmt.text.length from insideToo)
                            (by omega) next
                          rw [behind] at rest
                          exact rest
            · rw [pieces, piecesFrom, if_neg percent, Piece.run, if_pos room, Piece.turn]
              cases storeChar state.buffer state.outIndex 0 with
              | none => rfl
              | some buffer =>
                  rw [Option.bind_some, Option.bind_some]
                  dsimp only
                  rw [if_neg percent]
                  cases FmtState.putChar _ char with
                  | none => rfl
                  | some next =>
                      have rest := ih (show inIndex + 1 ≤ fmt.text.length from inside) (by omega) next
                      rw [further] at rest
                      exact rest
          · rw [if_neg (fun both => room both.2)]
            cases pieces (char :: rest) with
            | nil => rfl
            | cons piece others => exact (if_neg room).symm

end DoggOS.KString

-- Where the lexemes of a text stand. A text that is cut into lexemes is a row of pieces, and each
-- lexeme carries the place behind the text in front of its piece. A place is counted from the
-- text alone: the line feeds in it, and the characters since the last of them. Every text is such
-- a row or starts with one in front of something that cannot be cut, and no text is both.
import Acausal.Proofs.CutPieces

namespace Acausal

/-! ## Places -/

/-- The place behind a text: its line feeds, and the characters since the last of them. -/
def placeBehind (text : List Char) : Position :=
  ⟨1 + text.count '\n', 1 + (text.reverse.takeWhile (· != '\n')).length⟩

/-- An earlier line, or an earlier column of the same line. -/
def Position.Before (p q : Position) : Prop :=
  p.line < q.line ∨ (p.line = q.line ∧ p.column < q.column)

theorem next_placeBehind (text : List Char) (c : Char) :
    (placeBehind text).next c = placeBehind (text ++ [c]) := by
  by_cases feed : c = '\n'
  · subst feed
    simp [placeBehind, Position.next, Nat.add_assoc]
  · have counted : [c].count '\n' = 0 := List.count_eq_zero.mpr (by simpa using Ne.symm feed)
    simp [placeBehind, Position.next, feed, counted, Nat.add_assoc, Nat.add_comm 1]

theorem after_placeBehind (before text : List Char) :
    (placeBehind before).after text = placeBehind (before ++ text) := by
  induction text generalizing before with
  | nil => simp [Position.after]
  | cons c text ih =>
    have step : (placeBehind before).after (c :: text) = ((placeBehind before).next c).after text :=
      rfl
    rw [step, next_placeBehind, ih, List.append_assoc, List.singleton_append]

example : placeBehind ['a', '\n', 'b', 'c'] = ⟨2, 3⟩ := by decide

theorem Position.Before.trans {p q r : Position} (hpq : p.Before q) (hqr : q.Before r) :
    p.Before r := by
  unfold Position.Before at *
  omega

theorem Position.before_next (p : Position) (c : Char) : p.Before (p.next c) := by
  unfold Position.Before Position.next
  split
  · exact .inl (Nat.lt_succ_self _)
  · exact .inr ⟨rfl, Nat.lt_succ_self _⟩

theorem Position.before_after (p : Position) (c : Char) (text : List Char) :
    p.Before (p.after (c :: text)) := by
  induction text generalizing p c with
  | nil => exact p.before_next c
  | cons d text ih => exact (p.before_next c).trans (ih (p.next c) d)

/-- A place behind more text is a later one. -/
theorem placeBehind_before {before text : List Char} (some_text : text ≠ []) :
    (placeBehind before).Before (placeBehind (before ++ text)) := by
  obtain ⟨c, text, rfl⟩ := List.exists_cons_of_ne_nil some_text
  rw [← after_placeBehind]
  exact Position.before_after _ c text

/-! ## A text in pieces -/

/-- A piece of a text and the token it stands for, if any. -/
structure Piece where
  text : List Char
  token : Option Token

/-- The text that pieces in a row make up. -/
def rowText (pieces : List Piece) : List Char := pieces.flatMap (·.text)

/-- Pieces in a row in front of a text, each as what is behind it lets it be. -/
inductive Tiled (rest : List Char) : List Piece → Prop
  | nil : Tiled rest []
  | cons {piece : Piece} {pieces : List Piece}
      (cuts : Cuts piece.text piece.token (rowText pieces ++ rest)) (later : Tiled rest pieces) :
      Tiled rest (piece :: pieces)

/-- The lexemes of pieces in a row behind a text, each at the place of its first character. -/
def rowLexemes (before : List Char) : List Piece → List Lexeme
  | [] => []
  | piece :: pieces =>
    piece.token.toList.map (⟨·, placeBehind before⟩) ++ rowLexemes (before ++ piece.text) pieces

/-- The places of the lexemes of a row of pieces, and the place behind the row. -/
def rowPlaces (before : List Char) (pieces : List Piece) : List Position :=
  (rowLexemes before pieces).map (·.position) ++ [placeBehind (before ++ rowText pieces)]

theorem rowPlaces_cons (before : List Char) (piece : Piece) (pieces : List Piece) :
    rowPlaces before (piece :: pieces) =
      piece.token.toList.map (fun _ => placeBehind before) ++
        rowPlaces (before ++ piece.text) pieces := by
  simp [rowPlaces, rowLexemes, rowText, Function.comp_def]

section Order

variable {rest : List Char} {pieces : List Piece}

/-- No place of a row is in front of where the row starts. -/
theorem Tiled.from_start (tiled : Tiled rest pieces) (before : List Char) :
    ∀ q ∈ rowPlaces before pieces, q = placeBehind before ∨ (placeBehind before).Before q := by
  induction tiled generalizing before with
  | nil => simp [rowPlaces, rowLexemes, rowText]
  | @cons piece pieces cuts later ih =>
    intro q hq
    have step : (placeBehind before).Before (placeBehind (before ++ piece.text)) :=
      placeBehind_before cuts.ne_nil
    rw [rowPlaces_cons] at hq
    rcases List.mem_append.mp hq with own | behind
    · obtain ⟨token, -, rfl⟩ := List.mem_map.mp own
      exact .inl rfl
    · rcases ih _ q behind with rfl | further
      · exact .inr step
      · exact .inr (step.trans further)

theorem Tiled.ordered (tiled : Tiled rest pieces) (before : List Char) :
    (rowPlaces before pieces).Pairwise Position.Before := by
  induction tiled generalizing before with
  | nil => simp [rowPlaces, rowLexemes]
  | @cons piece pieces cuts later ih =>
    rw [rowPlaces_cons]
    cases piece.token with
    | none => exact ih _
    | some token =>
      have step : (placeBehind before).Before (placeBehind (before ++ piece.text)) :=
        placeBehind_before cuts.ne_nil
      refine List.Pairwise.cons (fun q hq => ?_) (ih _)
      rcases later.from_start _ q hq with rfl | further
      · exact step
      · exact step.trans further

end Order

/-! ## Cutting a whole text -/

/-- A text that is not cut into lexemes fails at its front or behind the piece there. -/
theorem of_lexemesFrom_cons_error {p : Position} {c : Char} {rest : List Char}
    {failure : LexicalProblem × Position} (h : lexemesFrom p (c :: rest) = .error failure) :
    (∃ problem, cut c rest = .error problem ∧ failure = (problem, p)) ∨
      ∃ piece, cut c rest = .ok piece ∧
        lexemesFrom (p.after (c :: rest.take piece.more)) (rest.drop piece.more) =
          .error failure := by
  rw [lexemesFrom.eq_def] at h
  dsimp only at h
  split at h
  · next problem hproblem =>
    cases h
    exact .inl ⟨problem, hproblem, rfl⟩
  · next piece hpiece =>
    split at h
    · next failure hlater =>
      cases h
      exact .inr ⟨piece, hpiece, hlater⟩
    · split at h <;> cases h

/-- The piece that was cut off the front of a text goes in front of the row behind it. -/
theorem Tiled.behind_cut {c : Char} {rest behind : List Char} {piece : Cut} {pieces : List Piece}
    (h : cut c rest = .ok piece) (tiled : Tiled behind pieces)
    (row : rowText pieces ++ behind = rest.drop piece.more) :
    ∃ first : Piece, first.text = c :: rest.take piece.more ∧ first.token = piece.token ∧
      rowText (first :: pieces) ++ behind = c :: rest ∧ Tiled behind (first :: pieces) := by
  obtain ⟨split, cuts⟩ := front_of_cut h
  refine ⟨⟨c :: rest.take piece.more, piece.token⟩, rfl, rfl, ?_, .cons ?_ tiled⟩
  · rw [split, ← row]
    exact List.append_assoc _ _ _
  · rw [row]
    exact cuts

theorem tiled_of_lexemesFrom (before : List Char) {text : List Char} {found : Lexemes}
    (h : lexemesFrom (placeBehind before) text = .ok found) :
    ∃ pieces, rowText pieces = text ∧ Tiled [] pieces ∧
      found = ⟨rowLexemes before pieces, placeBehind (before ++ text)⟩ := by
  induction hn : text.length using Nat.strongRecOn generalizing before text found with
  | _ n ih =>
    cases text with
    | nil =>
      rw [lexemesFrom.eq_def] at h
      dsimp only at h
      cases h
      exact ⟨[], rfl, .nil, by simp [rowLexemes]⟩
    | cons c rest =>
      obtain ⟨piece, later, hpiece, hlater, rfl⟩ := of_lexemesFrom_cons h
      rw [after_placeBehind] at hlater
      have shorter : (rest.drop piece.more).length < n := by
        rw [← hn, List.length_drop, List.length_cons]
        omega
      obtain ⟨pieces, row, tiled, rfl⟩ := ih _ shorter _ hlater rfl
      obtain ⟨first, text_eq, token_eq, split, tiled⟩ :=
        tiled.behind_cut hpiece (by simpa using row)
      refine ⟨first :: pieces, by simpa using split, tiled, ?_⟩
      have same : before ++ (c :: rest.take piece.more) ++ rest.drop piece.more =
          before ++ c :: rest := by
        rw [List.append_assoc, List.cons_append, List.take_append_drop]
      rw [same, rowLexemes, text_eq, token_eq]

theorem offends_of_lexemesFrom (before : List Char) {text : List Char}
    {problem : LexicalProblem} {place : Position}
    (h : lexemesFrom (placeBehind before) text = .error (problem, place)) :
    ∃ pieces rest, rowText pieces ++ rest = text ∧ Tiled rest pieces ∧ Offends problem rest ∧
      place = placeBehind (before ++ rowText pieces) := by
  induction hn : text.length using Nat.strongRecOn generalizing before text with
  | _ n ih =>
    cases text with
    | nil =>
      rw [lexemesFrom.eq_def] at h
      cases h
    | cons c rest =>
      rcases of_lexemesFrom_cons_error h with ⟨problem, hproblem, same⟩ | ⟨piece, hpiece, hlater⟩
      · cases same
        exact ⟨[], c :: rest, rfl, .nil, offends_of_cut hproblem, by simp [rowText]⟩
      · rw [after_placeBehind] at hlater
        have shorter : (rest.drop piece.more).length < n := by
          rw [← hn, List.length_drop, List.length_cons]
          omega
        obtain ⟨pieces, behind, row, tiled, offends, rfl⟩ := ih _ shorter _ hlater rfl
        obtain ⟨first, text_eq, -, split, tiled⟩ := tiled.behind_cut hpiece row
        refine ⟨first :: pieces, behind, split, tiled, offends, ?_⟩
        have same : rowText (first :: pieces) = c :: rest.take piece.more ++ rowText pieces := by
          rw [rowText, List.flatMap_cons, text_eq, rowText]
        rw [same, List.append_assoc]

/-! ## Rows that are cut -/

/-- A row of pieces is cut piece by piece, and then what is behind it. -/
theorem lexemesFrom_row {rest : List Char} {pieces : List Piece} (tiled : Tiled rest pieces)
    (before : List Char) :
    lexemesFrom (placeBehind before) (rowText pieces ++ rest) =
      (lexemesFrom (placeBehind (before ++ rowText pieces)) rest).map fun later =>
        { later with list := rowLexemes before pieces ++ later.list } := by
  induction tiled generalizing before with
  | nil =>
    rw [rowText, List.flatMap_nil, List.nil_append, List.append_nil]
    cases lexemesFrom (placeBehind before) rest <;> rfl
  | @cons piece pieces cuts later ih =>
    obtain ⟨text, token⟩ := piece
    obtain ⟨c, more, rfl⟩ := List.exists_cons_of_ne_nil cuts.ne_nil
    have split : rowText (⟨c :: more, token⟩ :: pieces) = c :: more ++ rowText pieces := rfl
    have behind := ih (before ++ c :: more)
    rw [lexemesFrom.eq_def]
    simp only [split, List.cons_append, List.append_assoc, cut_of_cuts cuts, List.take_left,
      List.drop_left, after_placeBehind, rowLexemes] at behind ⊢
    rw [behind]
    cases lexemesFrom (placeBehind (before ++ c :: (more ++ rowText pieces))) rest with
    | error failure => rfl
    | ok found => cases token <;> rfl

theorem lexemes_row {rest : List Char} {pieces : List Piece} (tiled : Tiled rest pieces) :
    lexemes (rowText pieces ++ rest) =
      (lexemesFrom (placeBehind (rowText pieces)) rest).map fun later =>
        { later with list := rowLexemes [] pieces ++ later.list } :=
  lexemesFrom_row tiled []

/-- Pieces in a row that make up a text are the pieces that it is cut into. -/
theorem lexemes_of_tiled {pieces : List Piece} (tiled : Tiled [] pieces) :
    lexemes (rowText pieces) = .ok ⟨rowLexemes [] pieces, placeBehind (rowText pieces)⟩ := by
  have row := lexemes_row tiled
  rw [List.append_nil] at row
  rw [row, lexemesFrom.eq_def]
  simp [Except.map]

/-- What cannot be cut behind pieces in a row is what is wrong with the text. -/
theorem lexemes_of_offends {pieces : List Piece} {rest : List Char} {problem : LexicalProblem}
    (tiled : Tiled rest pieces) (offends : Offends problem rest) :
    lexemes (rowText pieces ++ rest) = .error (problem, placeBehind (rowText pieces)) := by
  obtain ⟨c, more, rfl⟩ := List.exists_cons_of_ne_nil offends.ne_nil
  rw [lexemes_row tiled, lexemesFrom.eq_def]
  simp [cut_of_offends offends, Except.map]

/-! ## Every text -/

/-- Every text is cut into lexemes or has a first problem. The lexemes are those of the pieces of
the text, each at the place of its first character, and the places only grow up to the one behind
the text; a problem is at the place of the first character that is in no piece. -/
theorem lexemes_stand_where_written (text : List Char) :
    match lexemes text with
    | .ok found =>
      ∃ pieces, rowText pieces = text ∧ Tiled [] pieces ∧ found.list = rowLexemes [] pieces ∧
        found.stop = placeBehind text ∧
        (found.list.map (·.position) ++ [found.stop]).Pairwise Position.Before
    | .error (problem, place) =>
      ∃ pieces rest, rowText pieces ++ rest = text ∧ Tiled rest pieces ∧ Offends problem rest ∧
        place = placeBehind (rowText pieces) := by
  split
  · next found h =>
    obtain ⟨pieces, rfl, tiled, rfl⟩ := tiled_of_lexemesFrom [] h
    exact ⟨pieces, rfl, tiled, rfl, rfl, tiled.ordered []⟩
  · next problem place h => exact offends_of_lexemesFrom [] h

end Acausal

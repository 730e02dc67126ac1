-- The words among the lexemes of a text start with a letter or an underscore and go on with
-- letters, numerals and underscores, so brackets, dots and blanks never stand in a name.
import Mathlib.Data.List.TakeWhile
import Acausal.Token

namespace Acausal

/-! ## Words -/

/-- A text with the form of an identifier. -/
def IsWord (w : String) : Prop :=
  ∃ c more, w.toList = c :: more ∧ startsWord c = true ∧ ∀ d ∈ more, continuesWord d = true

/-- Lexemes whose words are identifiers. -/
def Lexical (ts : List Lexeme) : Prop :=
  ∀ w place, ⟨.word w, place⟩ ∈ ts → IsWord w

theorem Lexical.of_suffix {ts rest : List Lexeme} (h : Lexical ts) (behind : rest <:+ ts) :
    Lexical rest := by
  intro w place hmem
  exact h w place (behind.subset hmem)

theorem continuesWord_of_startsWord {c : Char} (h : startsWord c = true) :
    continuesWord c = true := by
  unfold startsWord at h
  unfold continuesWord
  rcases (Bool.or_eq_true _ _).mp h with h | h <;> simp [h]

theorem IsWord.continues {w : String} (h : IsWord w) : ∀ d ∈ w.toList, continuesWord d = true := by
  obtain ⟨c, more, hw, hc, hmore⟩ := h
  rw [hw]
  intro d hd
  rcases List.mem_cons.mp hd with rfl | hd
  · exact continuesWord_of_startsWord hc
  · exact hmore d hd

theorem IsWord.not_mem {w : String} (h : IsWord w) {d : Char} (hd : continuesWord d = false) :
    d ∉ w.toList := by
  intro hmem
  simp [h.continues d hmem] at hd

/-! ## Lexemes of a text -/

theorem isWord_of_cutToken {c : Char} {rest : List Char} {piece : Cut} {w : String}
    (h : cutToken c rest = .ok piece) (hw : piece.token = some (.word w)) : IsWord w := by
  unfold cutToken at h
  split at h
  · simp only at h
    split at h
    · cases h
      simp at hw
    · contradiction
  · split at h
    · next hc =>
      cases h
      simp only [Option.some.injEq, Token.word.injEq] at hw
      subst hw
      refine ⟨c, rest.takeWhile continuesWord, by simp, hc, fun d hd => ?_⟩
      exact List.mem_takeWhile_imp hd
    · split at h
      · simp only at h
        split at h
        · cases h
          simp at hw
        · contradiction
      · split at h
        · cases h
          simp at hw
        · contradiction

theorem isWord_of_cut {c : Char} {rest : List Char} {piece : Cut} {w : String}
    (h : cut c rest = .ok piece) (hw : piece.token = some (.word w)) : IsWord w := by
  unfold cut at h
  split at h
  · cases h
    simp at hw
  · split at h
    · cases h
      simp at hw
    · split at h
      · cases h
        simp at hw
      · contradiction
    · exact isWord_of_cutToken h hw

/-- A text that is cut into lexemes is cut once at its front and then behind that piece. -/
theorem of_lexemesFrom_cons {p : Position} {c : Char} {rest : List Char} {found : Lexemes}
    (h : lexemesFrom p (c :: rest) = .ok found) :
    ∃ piece later, cut c rest = .ok piece ∧
      lexemesFrom (p.after (c :: rest.take piece.more)) (rest.drop piece.more) = .ok later ∧
      found = { later with list := piece.token.toList.map (⟨·, p⟩) ++ later.list } := by
  rw [lexemesFrom.eq_def] at h
  dsimp only at h
  split at h
  · contradiction
  · next piece hpiece =>
    split at h
    · contradiction
    · next later hlater =>
      refine ⟨piece, later, hpiece, hlater, ?_⟩
      split at h
      · next token htoken =>
        cases h
        rw [htoken]
        rfl
      · next nothing =>
        cases h
        rw [nothing]
        rfl

theorem lexical_lexemesFrom {p : Position} {text : List Char} {found : Lexemes}
    (h : lexemesFrom p text = .ok found) : Lexical found.list := by
  induction hn : text.length using Nat.strongRecOn generalizing p text found with
  | _ n ih =>
    cases text with
    | nil =>
      rw [lexemesFrom.eq_def] at h
      dsimp only at h
      cases h
      simp [Lexical]
    | cons c rest =>
      obtain ⟨piece, later, hpiece, hlater, rfl⟩ := of_lexemesFrom_cons h
      have hshort : (rest.drop piece.more).length < n := by
        rw [← hn, List.length_drop, List.length_cons]
        omega
      intro w place hmem
      rcases List.mem_append.mp hmem with hmem | hmem
      · obtain ⟨token, htoken, heq⟩ := List.mem_map.mp hmem
        cases heq
        exact isWord_of_cut hpiece (Option.mem_toList.mp htoken)
      · exact ih _ hshort hlater rfl w place hmem

theorem lexical_lexemes {text : List Char} {found : Lexemes} (h : lexemes text = .ok found) :
    Lexical found.list :=
  lexical_lexemesFrom h

end Acausal

-- How a text is cut from its front, positions aside. A word or a number ends where a character
-- follows that cannot belong to it, so texts put together from words, numbers, symbols and blanks
-- give their lexemes back one by one.
import Mathlib.Data.List.Basic
import Acausal.Proofs.Lexemes

namespace Acausal

variable {c : Char} {rest : List Char} {ts : List Token}

/-! ## Lexemes without their places -/

/-- A text is cut into lexemes with the given tokens, wherever it starts. -/
def Lexes (text : List Char) (tokens : List Token) : Prop :=
  ∀ p, ∃ found, lexemesFrom p text = .ok found ∧ found.list.map (·.token) = tokens

/-- No character follows that could belong to a word in front of it. -/
def WordEnds (rest : List Char) : Prop := ∀ c ∈ rest.head?, continuesWord c = false

/-- No character follows that could belong to a word or a number in front of it. -/
def Delimited (rest : List Char) : Prop := WordEnds rest ∧ ∀ c ∈ rest.head?, c ≠ '.'

theorem lexes_nil : Lexes [] [] := by
  intro p
  exact ⟨⟨[], p⟩, by rw [lexemesFrom.eq_def], rfl⟩

theorem Lexes.cons {piece : Cut} (h : cut c rest = .ok piece)
    (later : Lexes (rest.drop piece.more) ts) : Lexes (c :: rest) (piece.token.toList ++ ts) := by
  intro p
  obtain ⟨found, hfound, htokens⟩ := later (p.after (c :: rest.take piece.more))
  rw [lexemesFrom.eq_def]
  simp only [h, hfound]
  cases ht : piece.token with
  | none => exact ⟨found, rfl, by simpa using htokens⟩
  | some token => exact ⟨_, rfl, by simpa using htokens⟩

/-! ## Characters that start a piece -/

/-- The blanks among the characters. -/
def blanks : List Nat :=
  [9, 10, 11, 12, 13, 0x20, 0x85, 0xA0, 0x1680, 0x2000, 0x2001, 0x2002, 0x2003, 0x2004, 0x2005,
    0x2006, 0x2007, 0x2008, 0x2009, 0x200A, 0x2028, 0x2029, 0x202F, 0x205F, 0x3000]

theorem mem_blanks (h : isBlank c = true) : c.toNat ∈ blanks := by
  unfold isBlank at h
  simp only [Bool.or_eq_true, Bool.and_eq_true, decide_eq_true_eq, beq_iff_eq] at h
  simp only [blanks, List.mem_cons, List.not_mem_nil, or_false]
  omega

theorem not_isBlank_of_startsWord (h : startsWord c = true) : isBlank c = false := by
  have apart : ∀ n ∈ blanks, startsWord (Char.ofNat n) = false := by decide +kernel
  by_contra blank
  have starts := apart c.toNat (mem_blanks (by simpa using blank))
  rw [Char.ofNat_toNat, h] at starts
  cases starts

theorem toNat_of_isDigit (h : c.isDigit = true) : 48 ≤ c.toNat ∧ c.toNat ≤ 57 := by
  simp only [Char.isDigit, Bool.and_eq_true, decide_eq_true_eq] at h
  exact h

theorem not_isDigit_of_startsWord (h : startsWord c = true) : c.isDigit = false := by
  have apart : ∀ n ∈ List.range' 48 10, startsWord (Char.ofNat n) = false := by decide +kernel
  by_contra digit
  have range := toNat_of_isDigit (by simpa using digit)
  have starts := apart c.toNat (List.mem_range'_1.mpr (by omega))
  rw [Char.ofNat_toNat, h] at starts
  cases starts

theorem continuesWord_of_isDigit (h : c.isDigit = true) : continuesWord c = true := by
  have small : c.toNat < 128 := by
    have := toNat_of_isDigit h
    omega
  unfold continuesWord isNumeral
  simp [small, h]

theorem not_isBlank_of_isDigit (h : c.isDigit = true) : isBlank c = false := by
  have := toNat_of_isDigit h
  by_contra blank
  have listed := mem_blanks (by simpa using blank)
  simp only [blanks, List.mem_cons, List.not_mem_nil, or_false] at listed
  omega

theorem ne_of_startsWord (h : startsWord c = true) {d : Char} (hd : startsWord d = false) :
    c ≠ d := by
  rintro rfl
  rw [h] at hd
  cases hd

/-- A text that starts with neither a blank nor a comment. -/
theorem cut_eq_cutToken_of_head (blank : isBlank c = false)
    (opens : c = '/' → ∀ d ∈ rest.head?, d ≠ '/' ∧ d ≠ '*') : cut c rest = cutToken c rest := by
  unfold cut
  rw [if_neg (by simp [blank])]
  split
  · exact absurd rfl (opens rfl '/' rfl).1
  · exact absurd rfl (opens rfl '*' rfl).2
  · rfl

theorem cut_eq_cutToken (blank : isBlank c = false) (slash : c ≠ '/') :
    cut c rest = cutToken c rest :=
  cut_eq_cutToken_of_head blank fun h => absurd h slash

/-! ## Pieces -/

theorem lexes_blank (later : Lexes rest ts) : Lexes (' ' :: rest) ts :=
  Lexes.cons (rfl : cut ' ' rest = .ok ⟨none, 0⟩) later

theorem takeWhile_append_of_stop {p : Char → Bool} (front : List Char)
    (stop : ∀ d ∈ rest.head?, p d = false) :
    (front ++ rest).takeWhile p = front.takeWhile p := by
  induction front with
  | nil =>
    cases rest with
    | nil => rfl
    | cons d more => simp [stop d rfl]
  | cons c front ih =>
    rw [List.cons_append, List.takeWhile_cons, List.takeWhile_cons, ih]

theorem takeWhile_append_of_all {p : Char → Bool} {front : List Char}
    (all : ∀ d ∈ front, p d = true) (stop : ∀ d ∈ rest.head?, p d = false) :
    (front ++ rest).takeWhile p = front := by
  rw [takeWhile_append_of_stop front stop]
  exact List.takeWhile_eq_self_iff.mpr all

theorem cut_word {more : List Char} (starts : startsWord c = true)
    (all : ∀ d ∈ more, continuesWord d = true) (ends : WordEnds rest) :
    cut c (more ++ rest) = .ok ⟨some (.word (String.ofList (c :: more))), more.length⟩ := by
  rw [cut_eq_cutToken (not_isBlank_of_startsWord starts) (ne_of_startsWord starts (by decide))]
  unfold cutToken
  have point : c ≠ '.' := ne_of_startsWord starts (by decide)
  rw [if_neg (by simp [not_isDigit_of_startsWord starts, point]), if_pos starts]
  simp only [takeWhile_append_of_all all ends]

theorem lexes_word {w : String} (word : IsWord w) (ends : WordEnds rest) (later : Lexes rest ts) :
    Lexes (w.toList ++ rest) (.word w :: ts) := by
  obtain ⟨c, more, hw, hc, hmore⟩ := word
  have piece := cut_word hc hmore ends
  rw [← hw, String.ofList_toList] at piece
  rw [hw]
  exact Lexes.cons piece (by simpa using later)

theorem numberText_append {digits : List Char} (all : ∀ d ∈ digits, (d.isDigit || d == '.') = true)
    (ends : Delimited rest) : numberText (digits ++ rest) = digits := by
  have stop : ∀ d ∈ rest.head?, (d.isDigit || d == '.') = false := by
    intro d hd
    have point := ends.2 d hd
    have word := ends.1 d hd
    by_cases digit : d.isDigit = true
    · simp [continuesWord_of_isDigit digit] at word
    · simp [digit, point]
  unfold numberText
  simp only [takeWhile_append_of_all all stop, List.drop_left]
  cases rest with
  | nil => rfl
  | cons e more =>
    have word := ends.1 e rfl
    apply if_neg
    rintro (rfl | rfl)
    · exact absurd word (by decide)
    · exact absurd word (by decide)

theorem lexes_number {digits : List Char} {x : Float}
    (first : ∃ c more, digits = c :: more ∧ c.isDigit = true)
    (all : ∀ d ∈ digits, (d.isDigit || d == '.') = true) (value : readUnsigned? digits = some x)
    (ends : Delimited rest) (later : Lexes rest ts) :
    Lexes (digits ++ rest) (.number x :: ts) := by
  have taken := numberText_append all ends
  obtain ⟨c, more, rfl, hc⟩ := first
  have piece : cut c (more ++ rest) = .ok ⟨some (.number x), more.length⟩ := by
    have slash : c ≠ '/' := by
      rintro rfl
      exact absurd hc (by decide)
    rw [cut_eq_cutToken (not_isBlank_of_isDigit hc) slash]
    unfold cutToken
    rw [if_pos (by simp [hc]), ← List.cons_append]
    simp only [taken, value, List.length_cons, Nat.add_sub_cancel]
  exact Lexes.cons piece (by simpa using later)

theorem cut_symbol (symbol : c ∈ symbols)
    (comment : c = '/' → ∀ d ∈ rest.head?, d ≠ '/' ∧ d ≠ '*')
    (point : c = '.' → ∀ d ∈ rest.head?, d.isDigit = false) :
    cut c rest = .ok ⟨some (.symbol c), 0⟩ := by
  have plain : ∀ d ∈ symbols, isBlank d = false ∧ d.isDigit = false ∧ startsWord d = false ∧
      d ≠ '"' :=
    List.forall_iff_forall_mem.mp (by decide)
  obtain ⟨blank, digit, word, quote⟩ := plain c symbol
  rw [cut_eq_cutToken_of_head blank comment]
  unfold cutToken
  have number : ¬ (c.isDigit || (c == '.' && rest.head?.any Char.isDigit)) = true := by
    by_cases dot : c = '.'
    · cases rest with
      | nil => simp [digit]
      | cons d more => simp [digit, point dot d rfl]
    · simp [digit, dot]
  rw [if_neg number, if_neg (by simp [word]), if_neg quote,
    if_pos (List.contains_iff_mem.mpr symbol)]

/-- A symbol that starts no comment and, if it is a point, no number. -/
theorem lexes_symbol (symbol : c ∈ symbols) (slash : c ≠ '/')
    (point : c = '.' → ∀ d ∈ rest.head?, d.isDigit = false) (later : Lexes rest ts) :
    Lexes (c :: rest) (.symbol c :: ts) :=
  Lexes.cons (cut_symbol symbol (fun h => absurd h slash) point) later

theorem lexes_mark (mark : c ∈ symbols ∧ c ≠ '/' ∧ c ≠ '.') (later : Lexes rest ts) :
    Lexes (c :: rest) (.symbol c :: ts) :=
  lexes_symbol mark.1 mark.2.1 (fun point => absurd point mark.2.2) later

/-- A slash in front of a blank. -/
theorem lexes_slash (later : Lexes rest ts) :
    Lexes ('/' :: ' ' :: rest) (.symbol '/' :: ts) :=
  Lexes.cons (rfl : cut '/' (' ' :: rest) = .ok ⟨some (.symbol '/'), 0⟩) (lexes_blank later)

end Acausal

-- The pieces that a text is cut into: blanks, comments, numbers, words, quoted texts and symbols.
-- What each of them looks like, and how far it goes, is said without the functions that cut; a cut
-- takes such a piece, and where nothing can be cut, no piece starts.
import Mathlib.Data.List.TakeWhile
import Acausal.Proofs.Lexing

namespace Acausal

/-! ## Pieces -/

/-- A character of the digits and points that a number starts with. -/
def inMantissa (c : Char) : Bool := c.isDigit || c == '.'

/-- A number and what is behind it: digits and points, then at most one exponent, each as long
as it can be. -/
inductive NumberSpan : List Char → List Char → Prop
  | plain {mantissa rest : List Char} (all : ∀ d ∈ mantissa, inMantissa d = true)
      (ends : ∀ d ∈ rest.head?, inMantissa d = false ∧ d ≠ 'e' ∧ d ≠ 'E') :
      NumberSpan mantissa rest
  | scaled {mantissa sign digits rest : List Char} {e : Char}
      (all : ∀ d ∈ mantissa, inMantissa d = true) (mark : e = 'e' ∨ e = 'E')
      (signed : sign = [] ∨ sign = ['+'] ∨ sign = ['-'])
      (unsigned : sign = [] → ∀ d ∈ (digits ++ rest).head?, d ≠ '+' ∧ d ≠ '-')
      (exponent : ∀ d ∈ digits, d.isDigit = true) (ends : ∀ d ∈ rest.head?, d.isDigit = false) :
      NumberSpan (mantissa ++ e :: (sign ++ digits)) rest

/-- A number starts with a digit, or with a point in front of one. -/
def StartsNumber (text : List Char) : Prop :=
  (∃ d ∈ text.head?, d.isDigit = true) ∨ ∃ d more, text = '.' :: d :: more ∧ d.isDigit = true

/-- The text of a piece, the token it stands for, if any, and the text behind it. -/
inductive Cuts : List Char → Option Token → List Char → Prop
  | blank {c : Char} {rest : List Char} (blank : isBlank c = true) : Cuts [c] none rest
  | lineComment {inner rest : List Char} (oneLine : '\n' ∉ inner)
      (ends : ∀ d ∈ rest.head?, d = '\n') : Cuts ('/' :: '/' :: inner) none rest
  | blockComment {inner rest : List Char} (first : ¬ ['*', '/'] <:+: inner) :
      Cuts ('/' :: '*' :: (inner ++ ['*', '/'])) none rest
  | number {text rest : List Char} {value : Float} (starts : StartsNumber (text ++ rest))
      (span : NumberSpan text rest) (value_eq : readUnsigned? text = some value) :
      Cuts text (some (.number value)) rest
  | word {w : String} {rest : List Char} (word : IsWord w) (ends : WordEnds rest) :
      Cuts w.toList (some (.word w)) rest
  | quoted {body rest : List Char} (open_body : '"' ∉ body) :
      Cuts ('"' :: (body ++ ['"'])) (some (.quoted (String.ofList body))) rest
  | symbol {c : Char} {rest : List Char} (symbol : c ∈ symbols)
      (comment : c = '/' → ∀ d ∈ rest.head?, d ≠ '/' ∧ d ≠ '*')
      (point : c = '.' → ∀ d ∈ rest.head?, d.isDigit = false) : Cuts [c] (some (.symbol c)) rest

/-- What is wrong with a text at its first character. -/
inductive Offends : LexicalProblem → List Char → Prop
  | openComment {inner : List Char} (never : ¬ ['*', '/'] <:+: inner) :
      Offends .openComment ('/' :: '*' :: inner)
  | openQuote {inner : List Char} (never : '"' ∉ inner) : Offends .openQuote ('"' :: inner)
  | malformedNumber {text rest : List Char} (starts : StartsNumber (text ++ rest))
      (span : NumberSpan text rest) (no_value : readUnsigned? text = none) :
      Offends (.malformedNumber (String.ofList (text.map fun d => if d = 'E' then 'e' else d)))
        (text ++ rest)
  | strayCharacter {c : Char} {rest : List Char} (blank : isBlank c = false)
      (number : ¬ StartsNumber (c :: rest)) (word : startsWord c = false) (quote : c ≠ '"')
      (symbol : c ∉ symbols) : Offends (.strayCharacter c) (c :: rest)

theorem NumberSpan.ne_nil {text rest : List Char} (span : NumberSpan text rest)
    (starts : StartsNumber (text ++ rest)) : text ≠ [] := by
  cases span with
  | scaled => simp
  | plain all ends =>
    rintro rfl
    rw [List.nil_append] at starts
    rcases starts with ⟨d, hd, digit⟩ | ⟨d, more, rfl, digit⟩
    · have no_digit := (ends d hd).1
      simp [inMantissa, digit] at no_digit
    · exact absurd (ends '.' rfl).1 (by decide)

theorem Cuts.ne_nil {text rest : List Char} {token : Option Token} (cuts : Cuts text token rest) :
    text ≠ [] := by
  cases cuts with
  | number starts span => exact span.ne_nil starts
  | word word =>
    obtain ⟨c, more, hw, -⟩ := word
    simp [hw]
  | _ => simp

theorem Offends.ne_nil {problem : LexicalProblem} {text : List Char}
    (offends : Offends problem text) : text ≠ [] := by
  cases offends with
  | malformedNumber starts span =>
    exact fun nothing => span.ne_nil starts (List.append_eq_nil_iff.mp nothing).1
  | _ => simp

/-! ## What one cut takes -/

theorem commentLength?_cons {c : Char} {rest : List Char}
    (goes_on : ¬ ['*', '/'] <+: c :: rest) :
    commentLength? (c :: rest) = (commentLength? rest).map (· + 1) := by
  rw [commentLength?]
  rintro more rfl rfl
  exact goes_on ⟨more, rfl⟩

theorem commentLength?_eq_some {text : List Char} {n : Nat} (h : commentLength? text = some n) :
    ∃ inner rest, text = inner ++ '*' :: '/' :: rest ∧ n = inner.length + 2 ∧
      ¬ ['*', '/'] <:+: inner := by
  induction text generalizing n with
  | nil => cases h
  | cons c text ih =>
    by_cases closes : ['*', '/'] <+: c :: text
    · obtain ⟨rest, same⟩ := closes
      rw [← same] at h ⊢
      cases h
      exact ⟨[], rest, rfl, rfl, by simp⟩
    · rw [commentLength?_cons closes] at h
      obtain ⟨m, hm, rfl⟩ := Option.map_eq_some_iff.mp h
      obtain ⟨inner, rest, rfl, rfl, first⟩ := ih hm
      refine ⟨c :: inner, rest, rfl, rfl, fun close => ?_⟩
      rcases List.infix_cons_iff.mp close with front | later
      · exact closes (front.trans (List.prefix_append (c :: inner) _))
      · exact first later

theorem commentLength?_eq_none {text : List Char} :
    commentLength? text = none ↔ ¬ ['*', '/'] <:+: text := by
  induction text with
  | nil => simp [commentLength?]
  | cons c text ih =>
    by_cases closes : ['*', '/'] <+: c :: text
    · obtain ⟨rest, same⟩ := closes
      rw [← same]
      exact ⟨nofun, fun never => absurd ⟨[], rest, rfl⟩ never⟩
    · rw [commentLength?_cons closes, Option.map_eq_none_iff, ih, List.infix_cons_iff]
      simp [closes]

/-- The longest front of a text with a property, and what is behind it. -/
theorem takeWhile_splits (p : Char → Bool) (text : List Char) :
    ∃ front rest, text = front ++ rest ∧ text.takeWhile p = front ∧ (∀ d ∈ front, p d = true) ∧
      ∀ d ∈ rest.head?, p d = false := by
  refine ⟨_, _, List.takeWhile_append_dropWhile.symm, rfl, fun d => List.mem_takeWhile_imp, ?_⟩
  intro d hd
  have stop := List.head?_dropWhile_not p text
  rw [Option.mem_def.mp hd] at stop
  simpa using stop

theorem exponentText_spans (text : List Char) :
    ∃ sign digits rest, exponentText text = sign ++ digits ∧ text = sign ++ (digits ++ rest) ∧
      (sign = [] ∨ sign = ['+'] ∨ sign = ['-']) ∧
      (sign = [] → ∀ d ∈ text.head?, d ≠ '+' ∧ d ≠ '-') ∧
      (∀ d ∈ digits, d.isDigit = true) ∧ ∀ d ∈ rest.head?, d.isDigit = false := by
  cases text with
  | nil => exact ⟨[], [], [], rfl, rfl, .inl rfl, by simp, by simp, by simp⟩
  | cons c text =>
    by_cases sign : c = '+' ∨ c = '-'
    · obtain ⟨digits, rest, rfl, taken, all, stop⟩ := takeWhile_splits Char.isDigit text
      refine ⟨[c], digits, rest, ?_, rfl, ?_, by simp, all, stop⟩
      · rw [exponentText, if_pos sign, taken, List.singleton_append]
      · rcases sign with rfl | rfl
        · exact .inr (.inl rfl)
        · exact .inr (.inr rfl)
    · obtain ⟨digits, rest, split, taken, all, stop⟩ := takeWhile_splits Char.isDigit (c :: text)
      refine ⟨[], digits, rest, ?_, split, .inl rfl, ?_, all, stop⟩
      · rw [exponentText, if_neg sign, taken, List.nil_append]
      · rintro - d hd
        obtain rfl : c = d := by simpa using hd
        exact not_or.mp sign

theorem numberText_spans (text : List Char) :
    ∃ rest, text = numberText text ++ rest ∧ NumberSpan (numberText text) rest := by
  obtain ⟨mantissa, behind, rfl, taken, all, stop⟩ := takeWhile_splits inMantissa text
  unfold numberText
  rw [show (fun c : Char => c.isDigit || c == '.') = inMantissa from rfl, taken]
  simp only [List.drop_left]
  cases behind with
  | nil => exact ⟨[], rfl, .plain all (by simp)⟩
  | cons e behind =>
    by_cases mark : e = 'e' ∨ e = 'E'
    · obtain ⟨sign, digits, rest, exponent, rfl, signed, unsigned, all_digits, ends⟩ :=
        exponentText_spans behind
      simp only [if_pos mark, exponent]
      refine ⟨rest, by simp, .scaled all mark signed (fun none_written => ?_) all_digits ends⟩
      simpa [none_written] using unsigned none_written
    · simp only [if_neg mark]
      refine ⟨e :: behind, rfl, .plain all ?_⟩
      intro d hd
      obtain rfl : e = d := by simpa using hd
      exact ⟨stop e rfl, not_or.mp mark⟩

theorem startsNumber_iff {c : Char} {rest : List Char} :
    StartsNumber (c :: rest) ↔ (c.isDigit || (c == '.' && rest.head?.any Char.isDigit)) = true := by
  cases rest with
  | nil => simp [StartsNumber]
  | cons d rest => simp [StartsNumber]

/-- A number, word, quoted text or symbol that was cut is one, as long as it can be. -/
theorem cuts_of_cutToken {c : Char} {rest : List Char} {piece : Cut}
    (h : cutToken c rest = .ok piece)
    (comment : c = '/' → ∀ d ∈ rest.head?, d ≠ '/' ∧ d ≠ '*') :
    ∃ text behind, c :: rest = text ++ behind ∧ text.length = piece.more + 1 ∧
      Cuts text piece.token behind := by
  unfold cutToken at h
  split at h
  · next starts =>
    obtain ⟨behind, split, span⟩ := numberText_spans (c :: rest)
    have starts := startsNumber_iff.mpr starts
    rw [split] at starts
    simp only at h
    split at h
    · next value value_eq =>
      cases h
      refine ⟨_, behind, split, ?_, .number starts span value_eq⟩
      have := List.length_pos_of_ne_nil (span.ne_nil starts)
      dsimp only
      omega
    · cases h
  · next no_number =>
    split at h
    · next starts =>
      cases h
      obtain ⟨more, behind, rfl, taken, all, ends⟩ := takeWhile_splits continuesWord rest
      refine ⟨c :: more, behind, rfl, by simp [taken], ?_⟩
      have word : IsWord (String.ofList (c :: more)) :=
        ⟨c, more, String.toList_ofList, starts, all⟩
      simpa [taken] using Cuts.word word ends
    · split at h
      · next quote =>
        subst quote
        obtain ⟨body, behind, rfl, taken, all, ends⟩ := takeWhile_splits (· != '"') rest
        simp only [taken] at h
        split at h
        · next closed =>
          cases h
          cases behind with
          | nil => simp at closed
          | cons d behind =>
            obtain rfl : d = '"' := by simpa using ends d rfl
            refine ⟨'"' :: (body ++ ['"']), behind, by simp, by simp, .quoted fun inside => ?_⟩
            exact absurd (all _ inside) (by decide)
        · cases h
      · split at h
        · next symbol =>
          cases h
          refine ⟨[c], rest, rfl, rfl, .symbol (List.contains_iff_mem.mp symbol) comment ?_⟩
          rintro rfl d hd
          have none_starts := mt startsNumber_iff.mp no_number
          by_contra digit
          cases rest with
          | nil => cases hd
          | cons e rest =>
            obtain rfl : e = d := by simpa using hd
            exact none_starts (.inr ⟨e, rest, rfl, by simpa using digit⟩)
        · cases h

/-- A piece that was cut is one, as long as it can be. -/
theorem cuts_of_cut {c : Char} {rest : List Char} {piece : Cut} (h : cut c rest = .ok piece) :
    ∃ text behind, c :: rest = text ++ behind ∧ text.length = piece.more + 1 ∧
      Cuts text piece.token behind := by
  unfold cut at h
  split at h
  · next blank =>
    cases h
    exact ⟨[c], rest, rfl, rfl, .blank blank⟩
  · split at h
    · next more _ =>
      cases h
      obtain ⟨inner, behind, rfl, taken, all, ends⟩ := takeWhile_splits (· != '\n') more
      refine ⟨'/' :: '/' :: inner, behind, rfl, by simp [taken, Nat.add_comm], ?_⟩
      refine .lineComment (fun inside => ?_) fun d hd => ?_
      · exact absurd (all _ inside) (by decide)
      · simpa using ends d hd
    · next more _ =>
      split at h
      · next n closes =>
        cases h
        obtain ⟨inner, behind, rfl, length, first⟩ := commentLength?_eq_some closes
        refine ⟨'/' :: '*' :: (inner ++ ['*', '/']), behind, by simp, by simp; omega, ?_⟩
        exact .blockComment first
      · cases h
    · next no_line no_block =>
      refine cuts_of_cutToken h ?_
      rintro rfl d hd
      cases rest with
      | nil => cases hd
      | cons e rest =>
        obtain rfl : e = d := by simpa using hd
        exact ⟨fun slash => no_line rest rfl (by rw [slash]),
          fun star => no_block rest rfl (by rw [star])⟩

theorem offends_of_cutToken {c : Char} {rest : List Char} {problem : LexicalProblem}
    (h : cutToken c rest = .error problem) (blank : isBlank c = false) :
    Offends problem (c :: rest) := by
  unfold cutToken at h
  split at h
  · next starts =>
    obtain ⟨behind, split, span⟩ := numberText_spans (c :: rest)
    have starts := startsNumber_iff.mpr starts
    simp only at h
    split at h
    · cases h
    · next no_value =>
      cases h
      rw [split] at starts
      have offends := Offends.malformedNumber starts span no_value
      rwa [← split] at offends
  · next no_number =>
    split at h
    · cases h
    · next no_word =>
      split at h
      · next quote =>
        subst quote
        obtain ⟨body, behind, rfl, taken, all, ends⟩ := takeWhile_splits (· != '"') rest
        simp only [taken] at h
        split at h
        · cases h
        · next closed =>
          cases h
          have ended : behind = [] := List.eq_nil_of_length_eq_zero (by simpa using closed)
          rw [ended, List.append_nil]
          exact .openQuote fun inside => absurd (all _ inside) (by decide)
      · next no_quote =>
        split at h
        · cases h
        · next no_symbol =>
          cases h
          exact .strayCharacter blank (mt startsNumber_iff.mp no_number) (by simpa using no_word)
            no_quote (mt List.contains_iff_mem.mpr no_symbol)

theorem offends_of_cut {c : Char} {rest : List Char} {problem : LexicalProblem}
    (h : cut c rest = .error problem) : Offends problem (c :: rest) := by
  unfold cut at h
  split at h
  · cases h
  · next visible =>
    split at h
    · cases h
    · split at h
      · cases h
      · next never =>
        cases h
        exact .openComment (commentLength?_eq_none.mp never)
    · exact offends_of_cutToken h (by simpa using visible)

/-- The piece at the front of a text, and the text behind it, as the cut has them. -/
theorem front_of_cut {c : Char} {rest : List Char} {piece : Cut} (h : cut c rest = .ok piece) :
    c :: rest = (c :: rest.take piece.more) ++ rest.drop piece.more ∧
      Cuts (c :: rest.take piece.more) piece.token (rest.drop piece.more) := by
  obtain ⟨text, behind, split, length, cuts⟩ := cuts_of_cut h
  have front : c :: rest.take piece.more = text := by
    rw [← List.take_succ_cons, split, ← length, List.take_left]
  have back : rest.drop piece.more = behind := by
    rw [← List.drop_succ_cons, split, ← length, List.drop_left]
  rw [front, back]
  exact ⟨split, cuts⟩

/-! ## What is cut -/

theorem commentLength?_inside {inner rest : List Char} (first : ¬ ['*', '/'] <:+: inner) :
    commentLength? (inner ++ '*' :: '/' :: rest) = some (inner.length + 2) := by
  induction inner with
  | nil => rfl
  | cons c inner ih =>
    have goes_on : ¬ ['*', '/'] <+: c :: (inner ++ '*' :: '/' :: rest) := by
      rintro ⟨more, hmore⟩
      simp only [List.cons_append, List.nil_append, List.cons.injEq] at hmore
      obtain ⟨rfl, hmore⟩ := hmore
      cases inner with
      | nil => simp at hmore
      | cons d inner =>
        obtain ⟨rfl, -⟩ := List.cons.inj hmore
        exact first ⟨[], inner, rfl⟩
    rw [List.cons_append, commentLength?_cons goes_on,
      ih fun close => first (List.infix_cons close)]
    rfl

theorem exponentText_of_span {sign digits rest : List Char}
    (signed : sign = [] ∨ sign = ['+'] ∨ sign = ['-'])
    (unsigned : sign = [] → ∀ d ∈ (digits ++ rest).head?, d ≠ '+' ∧ d ≠ '-')
    (exponent : ∀ d ∈ digits, d.isDigit = true) (ends : ∀ d ∈ rest.head?, d.isDigit = false) :
    exponentText (sign ++ digits ++ rest) = sign ++ digits := by
  have taken := takeWhile_append_of_all exponent ends
  rcases signed with rfl | rfl | rfl
  · rw [List.nil_append]
    cases whole : digits ++ rest with
    | nil => rw [(List.append_eq_nil_iff.mp whole).1]; rfl
    | cons c more =>
      have bare := unsigned rfl c (by rw [whole]; rfl)
      rw [exponentText, if_neg (not_or.mpr bare), ← whole, taken]
  · simp [exponentText, taken]
  · simp [exponentText, taken]

theorem numberText_of_span {text rest : List Char} (span : NumberSpan text rest) :
    numberText (text ++ rest) = text := by
  unfold numberText
  rw [show (fun c : Char => c.isDigit || c == '.') = inMantissa from rfl]
  cases span with
  | plain all ends =>
    rw [takeWhile_append_of_all all fun d hd => (ends d hd).1]
    simp only [List.drop_left]
    cases rest with
    | nil => rfl
    | cons e rest => exact if_neg (not_or.mpr (ends e rfl).2)
  | @scaled mantissa sign digits _ e all mark signed unsigned exponent ends =>
    have stop : inMantissa e = false := by
      rcases mark with rfl | rfl <;> decide
    rw [List.append_assoc, takeWhile_append_of_all all (by simpa using stop)]
    simp only [List.drop_left, List.cons_append, if_pos mark]
    rw [exponentText_of_span signed unsigned exponent ends]

theorem cut_number_eq {c : Char} {rest : List Char} (starts : StartsNumber (c :: rest)) :
    cut c rest = cutToken c rest := by
  rcases starts with ⟨d, hd, digit⟩ | ⟨d, more, same, -⟩
  · obtain rfl : c = d := by simpa using hd
    refine cut_eq_cutToken (not_isBlank_of_isDigit digit) ?_
    rintro rfl
    exact absurd digit (by decide)
  · obtain ⟨rfl, -⟩ := List.cons.inj same
    exact cut_eq_cutToken (by decide) (by decide)

/-- A piece that stands in front of a text is what is cut there. -/
theorem cut_of_cuts {c : Char} {more rest : List Char} {token : Option Token}
    (h : Cuts (c :: more) token rest) : cut c (more ++ rest) = .ok ⟨token, more.length⟩ := by
  generalize htext : c :: more = text at h
  cases h with
  | blank blank =>
    obtain ⟨rfl, rfl⟩ := List.cons.inj htext
    unfold cut
    exact if_pos blank
  | @lineComment inner _ oneLine ends =>
    obtain ⟨rfl, rfl⟩ := List.cons.inj htext
    have inside : ∀ d ∈ inner, (d != '\n') = true := fun d hd =>
      bne_iff_ne.mpr fun feed => oneLine (feed ▸ hd)
    have stop : ∀ d ∈ rest.head?, (d != '\n') = false := fun d hd => by simp [ends d hd]
    have taken := takeWhile_append_of_all inside stop
    unfold cut
    rw [if_neg (by decide)]
    simp only [List.cons_append, taken, List.length_cons, Nat.add_comm]
  | @blockComment inner _ first =>
    obtain ⟨rfl, rfl⟩ := List.cons.inj htext
    unfold cut
    rw [if_neg (by decide)]
    simp only [List.cons_append, List.append_assoc, List.nil_append, commentLength?_inside first,
      List.length_cons, List.length_append, List.length_nil, Nat.add_comm]
  | number starts span value_eq =>
    subst htext
    have taken := numberText_of_span span
    rw [List.cons_append] at starts taken
    rw [cut_number_eq starts]
    unfold cutToken
    rw [if_pos (startsNumber_iff.mp starts)]
    simp only [taken, value_eq, List.length_cons, Nat.add_sub_cancel]
  | word word ends =>
    obtain ⟨d, more, hw, starts, all⟩ := word
    rw [hw] at htext
    obtain ⟨rfl, rfl⟩ := List.cons.inj htext
    rw [cut_word starts all ends, ← hw, String.ofList_toList]
  | @quoted body _ open_body =>
    obtain ⟨rfl, rfl⟩ := List.cons.inj htext
    have inside : ∀ d ∈ body, (d != '"') = true := fun d hd =>
      bne_iff_ne.mpr fun quote => open_body (quote ▸ hd)
    have stop : ∀ d ∈ ('"' :: rest).head?, (d != '"') = false := by simp
    have taken := takeWhile_append_of_all inside stop
    rw [cut_eq_cutToken (by decide) (by decide)]
    unfold cutToken
    rw [if_neg (by simp), if_neg (by decide), if_pos rfl]
    simp only [List.append_assoc, List.cons_append, List.nil_append, taken]
    rw [if_pos (by simp)]
    simp
  | symbol symbol comment point =>
    obtain ⟨rfl, rfl⟩ := List.cons.inj htext
    exact cut_symbol symbol comment point

theorem cut_of_offends {c : Char} {rest : List Char} {problem : LexicalProblem}
    (h : Offends problem (c :: rest)) : cut c rest = .error problem := by
  generalize htext : c :: rest = text at h
  cases h with
  | openComment never =>
    obtain ⟨rfl, rfl⟩ := List.cons.inj htext
    unfold cut
    rw [if_neg (by decide)]
    simp only [commentLength?_eq_none.mpr never]
  | openQuote never =>
    obtain ⟨rfl, rfl⟩ := List.cons.inj htext
    have inside : ∀ d ∈ rest, (d != '"') = true := fun d hd =>
      bne_iff_ne.mpr fun quote => never (quote ▸ hd)
    rw [cut_eq_cutToken (by decide) (by decide)]
    unfold cutToken
    rw [if_neg (by simp), if_neg (by decide), if_pos rfl]
    simp only [List.takeWhile_eq_self_iff.mpr inside]
    exact if_neg (Nat.lt_irrefl _)
  | malformedNumber starts span no_value =>
    have taken := numberText_of_span span
    rw [← htext] at starts taken
    rw [cut_number_eq starts]
    unfold cutToken
    rw [if_pos (startsNumber_iff.mp starts)]
    simp only [taken, no_value]
  | strayCharacter blank number word quote symbol =>
    obtain ⟨rfl, rfl⟩ := List.cons.inj htext
    have slash : c ≠ '/' := by
      rintro rfl
      exact symbol (by decide)
    rw [cut_eq_cutToken blank slash]
    unfold cutToken
    rw [if_neg (mt startsNumber_iff.mpr number), if_neg (by simp [word]), if_neg quote,
      if_neg (mt List.contains_iff_mem.mp symbol)]

end Acausal

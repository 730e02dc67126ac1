-- Two source texts one behind the other, with a line feed between them. However the first one
-- ends, the line feed closes its last piece, so the lexemes of the whole are those of both parts,
-- and so are the classes read from them.
import Acausal.Proofs.LastingReadings
import Acausal.Proofs.Lexing
import Acausal.Proofs.Success

namespace Acausal

variable {c : Char} {rest tail : List Char}

/-! ## Pieces of a longer text -/

/-- What follows starts on a new line, if anything does. -/
def LineEnds (tail : List Char) : Prop := ∀ c ∈ tail.head?, c = '\n'

theorem LineEnds.head (ends : LineEnds tail) {p : Char → Bool} (stop : p '\n' = false) :
    ∀ c ∈ tail.head?, p c = false := by
  intro c hc
  rw [ends c hc]
  exact stop

/-- A prefix that ends before the text does is the same in front of more text. -/
theorem takeWhile_append_of_short {p : Char → Bool} {front : List Char}
    (short : (front.takeWhile p).length < front.length) (tail : List Char) :
    (front ++ tail).takeWhile p = front.takeWhile p := by
  rw [List.takeWhile_append, if_neg (Nat.ne_of_lt short)]

theorem commentLength?_append {n : Nat} (h : commentLength? rest = some n) (tail : List Char) :
    commentLength? (rest ++ tail) = some n ∧ n ≤ rest.length := by
  fun_induction commentLength? rest generalizing n with
  | case1 => contradiction
  | case2 more =>
    cases h
    exact ⟨rfl, by simp⟩
  | case3 c more other ih =>
    obtain ⟨k, hk, rfl⟩ := Option.map_eq_some_iff.mp h
    obtain ⟨found, short⟩ := ih hk
    refine ⟨?_, Nat.succ_le_succ short⟩
    rw [List.cons_append, commentLength?, found]
    · rfl
    -- The closing cannot lie across the end: behind its star the comment goes on.
    · intro later hc hmore
      cases more with
      | nil => simp [commentLength?] at hk
      | cons d more =>
        obtain ⟨rfl, -⟩ := List.cons.inj hmore
        exact other more hc rfl

theorem exponentText_append (ends : LineEnds tail) (rest : List Char) :
    exponentText (rest ++ tail) = exponentText rest := by
  have digits (text : List Char) :
      (text ++ tail).takeWhile Char.isDigit = text.takeWhile Char.isDigit :=
    takeWhile_append_of_stop text (ends.head (by decide))
  cases rest with
  | cons c more =>
    simp only [exponentText, List.cons_append, digits]
    rw [← List.cons_append, digits]
  | nil =>
    cases tail with
    | nil => rfl
    | cons d more =>
      obtain rfl := ends d rfl
      rfl

theorem prefix_exponentText (rest : List Char) : exponentText rest <+: rest := by
  cases rest with
  | nil => exact List.prefix_refl _
  | cons c more =>
    unfold exponentText
    dsimp only
    split
    · exact List.cons_prefix_cons.mpr ⟨rfl, List.takeWhile_prefix _⟩
    · exact List.takeWhile_prefix _

theorem numberText_append_line (ends : LineEnds tail) (text : List Char) :
    numberText (text ++ tail) = numberText text := by
  have mantissa : (text ++ tail).takeWhile (fun c => c.isDigit || c == '.') =
      text.takeWhile fun c => c.isDigit || c == '.' :=
    takeWhile_append_of_stop text (ends.head (by decide))
  have inside := (List.takeWhile_prefix (fun c => c.isDigit || c == '.') (l := text)).length_le
  unfold numberText
  simp only [mantissa, List.drop_append_of_le_length inside]
  cases text.drop (text.takeWhile fun c => c.isDigit || c == '.').length with
  | cons e more => simp only [List.cons_append, exponentText_append ends]
  | nil =>
    cases tail with
    | nil => rfl
    | cons d more =>
      obtain rfl := ends d rfl
      simp

theorem prefix_numberText (text : List Char) : numberText text <+: text := by
  have front := List.takeWhile_prefix (fun c => c.isDigit || c == '.') (l := text)
  unfold numberText
  dsimp only
  generalize text.takeWhile (fun c => c.isDigit || c == '.') = mantissa at front ⊢
  have whole := List.prefix_iff_eq_append.mp front
  split
  · exact front
  · next e more hmore =>
    split
    · rw [hmore] at whole
      have exponent : e :: exponentText more <+: e :: more :=
        List.cons_prefix_cons.mpr ⟨rfl, prefix_exponentText more⟩
      have longer := (List.prefix_append_right_inj mantissa).mpr exponent
      rw [whole] at longer
      exact longer
    · exact front

theorem cutToken_append (ends : LineEnds tail) {piece : Cut} (h : cutToken c rest = .ok piece) :
    cutToken c (rest ++ tail) = .ok piece ∧ piece.more ≤ rest.length := by
  have digit : (rest ++ tail).head?.any Char.isDigit = rest.head?.any Char.isDigit := by
    cases rest with
    | cons d more => rfl
    | nil =>
      cases tail with
      | nil => rfl
      | cons d more =>
        obtain rfl := ends d rfl
        rfl
  unfold cutToken at h ⊢
  rw [digit]
  split at h
  · next number =>
    rw [if_pos number, ← List.cons_append, numberText_append_line ends]
    dsimp only at h ⊢
    split at h
    · next value hvalue =>
      cases h
      have short := (prefix_numberText (c :: rest)).length_le
      rw [List.length_cons] at short
      exact ⟨rfl, Nat.sub_le_of_le_add short⟩
    · contradiction
  · next other =>
    rw [if_neg other]
    split at h
    · next word =>
      cases h
      have same := takeWhile_append_of_stop rest
        (ends.head (show continuesWord '\n' = false by decide))
      rw [if_pos word, same]
      exact ⟨rfl, (List.takeWhile_prefix _).length_le⟩
    · next plain =>
      rw [if_neg plain]
      split at h
      · next quote =>
        rw [if_pos quote]
        dsimp only at h ⊢
        split at h
        · next short =>
          cases h
          have same := takeWhile_append_of_short short tail
          rw [same, if_pos (by rw [List.length_append]; omega)]
          exact ⟨rfl, short⟩
        · contradiction
      · next bare =>
        rw [if_neg bare]
        split at h
        · next symbol =>
          cases h
          rw [if_pos symbol]
          exact ⟨rfl, Nat.zero_le _⟩
        · contradiction

theorem cut_blank (blank : isBlank c = true) : cut c rest = .ok ⟨none, 0⟩ := if_pos blank

theorem cut_lineComment (rest : List Char) :
    cut '/' ('/' :: rest) = .ok ⟨none, 1 + (rest.takeWhile (· != '\n')).length⟩ := rfl

theorem cut_comment {n : Nat} (h : commentLength? rest = some n) :
    cut '/' ('*' :: rest) = .ok ⟨none, 1 + n⟩ := by
  unfold cut
  rw [if_neg (by decide)]
  simp only [h]

/-- A piece at the front of a text is cut the same way where another line follows. -/
theorem cut_append (ends : LineEnds tail) {piece : Cut} (h : cut c rest = .ok piece) :
    cut c (rest ++ tail) = .ok piece ∧ piece.more ≤ rest.length := by
  unfold cut at h
  split at h
  · next blank =>
    cases h
    exact ⟨cut_blank blank, Nat.zero_le _⟩
  · next solid =>
    split at h
    · next more =>
      cases h
      have same : (more ++ tail).takeWhile (· != '\n') = more.takeWhile (· != '\n') :=
        takeWhile_append_of_stop more (ends.head (by decide))
      have short := (List.takeWhile_prefix (· != '\n') (l := more)).length_le
      rw [List.cons_append, cut_lineComment, same, List.length_cons, Nat.add_comm more.length]
      exact ⟨rfl, Nat.add_le_add_left short 1⟩
    · next more =>
      split at h
      · next n hn =>
        cases h
        obtain ⟨found, short⟩ := commentLength?_append hn tail
        rw [List.cons_append, cut_comment found, List.length_cons, Nat.add_comm more.length]
        exact ⟨rfl, Nat.add_le_add_left short 1⟩
      · contradiction
    · next noLine noComment =>
      have opens : c = '/' → ∀ d ∈ (rest ++ tail).head?, d ≠ '/' ∧ d ≠ '*' := by
        intro slash d hd
        cases rest with
        | nil =>
          rw [ends d hd]
          decide
        | cons e more =>
          cases hd
          exact ⟨fun same => noLine more slash (by rw [same]),
            fun same => noComment more slash (by rw [same])⟩
      rw [cut_eq_cutToken_of_head (by simpa using solid) opens]
      exact cutToken_append ends h

/-! ## Lexemes of a longer text -/

/-- The tokens of a text with another one on the lines behind it. -/
theorem lexes_append {us : List Token} (ends : LineEnds tail) (behind : Lexes tail us)
    {p : Position} {text : List Char} {found : Lexemes} (h : lexemesFrom p text = .ok found) :
    Lexes (text ++ tail) (found.list.map (·.token) ++ us) := by
  induction hn : text.length using Nat.strongRecOn generalizing p text found with
  | _ n ih =>
    cases text with
    | nil =>
      rw [lexemesFrom.eq_def] at h
      dsimp only at h
      cases h
      exact behind
    | cons c rest =>
      obtain ⟨piece, later, hpiece, hlater, rfl⟩ := of_lexemesFrom_cons h
      obtain ⟨first, inside⟩ := cut_append ends hpiece
      have short : (rest.drop piece.more).length < n := by
        rw [← hn, List.length_drop, List.length_cons]
        omega
      have others := ih _ short hlater rfl
      rw [← List.drop_append_of_le_length inside] at others
      have front : (piece.token.toList.map (Lexeme.mk · p)).map (·.token) =
          piece.token.toList := by
        cases piece.token <;> rfl
      rw [List.map_append, front, List.append_assoc]
      exact Lexes.cons first others

theorem lexes_of_lexemesFrom {p : Position} {text : List Char} {found : Lexemes}
    (h : lexemesFrom p text = .ok found) : Lexes text (found.list.map (·.token)) := by
  have whole : Lexes (text ++ []) (found.list.map (·.token) ++ []) :=
    lexes_append (by simp [LineEnds]) lexes_nil h
  rw [List.append_nil, List.append_nil] at whole
  exact whole

theorem lexes_join {text more : List Char} {p q : Position} {found others : Lexemes}
    (h : lexemesFrom p text = .ok found) (later : lexemesFrom q more = .ok others) :
    Lexes (text ++ '\n' :: more) (found.list.map (·.token) ++ others.list.map (·.token)) := by
  have feed : cut '\n' more = .ok ⟨none, 0⟩ := cut_blank (by decide)
  have behind : Lexes ('\n' :: more) (others.list.map (·.token)) :=
    Lexes.cons feed (lexes_of_lexemesFrom later)
  exact lexes_append (by simp [LineEnds]) behind h

/-! ## Classes of both texts -/

theorem sourceClasses_join {ts bs js : List Lexeme} {cs ds : List (ClassDecl Float)}
    (first : sourceClasses ts = .ok cs) (second : classes bs = .ok ds)
    (plain : afterWord? "within" bs = none) (longer : Prolongs (bs.map (·.token)) ts js) :
    sourceClasses js = .ok (cs ++ ds) := by
  rw [sourceClasses_eq_ok] at first ⊢
  rcases first with ⟨bare, first⟩ | ⟨place, more, mid, rfl, hclause, first⟩
  · have opening : afterWord? "within" js = none := by
      rw [afterWord?_eq_none] at bare plain ⊢
      rw [longer.front?_eq_or]
      cases hfront : front? ts with
      | none => exact plain
      | some t =>
        rw [hfront] at bare
        exact bare
    obtain ⟨rest', last, whole⟩ := exists_classes_behind first longer
    exact .inl ⟨opening, whole (classes_of_tokens second last)⟩
  · obtain ⟨place', more', rfl, afterWord⟩ := longer.of_cons
    obtain ⟨mid', between, hclause'⟩ := lasts_withinClause hclause afterWord
    obtain ⟨rest', last, whole⟩ := exists_classes_behind first between
    exact .inr ⟨place', more', mid', rfl, hclause', whole (classes_of_tokens second last)⟩

/-- Whether the first lexeme of a text is the word `within`. -/
def startsWithin (text : String) : Bool :=
  match lexemes text.toList with
  | .error _ => false
  | .ok found => (afterWord? "within" found.list).isSome

/-- Two texts with a line feed between them are read as the classes of both, so putting the
program of the first in front of the second's is reading the whole as one text. -/
theorem joined_texts_are_merged {path path' joint a b : String} {first second : SourceFile Float}
    (ha : parseSource path a = .ok first) (hb : parseSource path' b = .ok second)
    (plain : startsWithin b = false) :
    ∃ whole, parseSource joint (a ++ "\n" ++ b) = .ok whole ∧
      whole.classes = first.classes ++ second.classes ∧
      (Program.ofSource first).prepend (.ofSource second) = .ofSource whole := by
  obtain ⟨found, hfound, hfirst, -⟩ := parseSource_eq_ok.mp ha
  obtain ⟨others, hothers, hsecond, -⟩ := parseSource_eq_ok.mp hb
  unfold startsWithin at plain
  rw [hothers] at plain
  have bare : afterWord? "within" others.list = none := by simpa using plain
  have later : classes others.list = .ok second.classes := by
    rcases sourceClasses_eq_ok.mp hsecond with ⟨-, later⟩ | ⟨place, more, mid, starts, -⟩
    · exact later
    · rw [starts, afterWord?_self] at bare
      contradiction
  have text : (a ++ "\n" ++ b).toList = a.toList ++ '\n' :: b.toList := by
    simp [String.toList_append]
  obtain ⟨all, hall, tokens⟩ := lexes_join hfound hothers {}
  rw [← text] at hall
  have classes := sourceClasses_join hfirst later bare tokens
  refine ⟨⟨joint, first.classes ++ second.classes⟩,
    parseSource_eq_ok.mpr ⟨all, hall, classes, rfl⟩, rfl, ?_⟩
  simp only [Program.prepend, Program.ofSource, List.map_append]

/-- A spring in a package, with a remark that no line feed ends. -/
def coilText : String :=
  "within Parts; model Coil Real x; Real v; equation der(x) = v; der(v) = -x; end Coil; // free"

def railText : String := "/* two coils */ model Rail Coil a; Coil b; end Rail;"

theorem coil_and_rail_are_merged :
    ∃ coil rail whole, parseSource "Coil.mo" coilText = .ok coil ∧
      parseSource "Rail.mo" railText = .ok rail ∧ startsWithin railText = false ∧
      parseSource "Both.mo" (coilText ++ "\n" ++ railText) = .ok whole ∧
      whole.classes = coil.classes ++ rail.classes ∧
      (Program.ofSource coil).prepend (.ofSource rail) = .ofSource whole := by
  have coilRead : (parseSource "Coil.mo" coilText).toOption.isSome := by decide +kernel
  have railRead : (parseSource "Rail.mo" railText).toOption.isSome := by decide +kernel
  have plain : startsWithin railText = false := by decide +kernel
  obtain ⟨coil, hcoil⟩ := Option.isSome_iff_exists.1 coilRead
  obtain ⟨rail, hrail⟩ := Option.isSome_iff_exists.1 railRead
  rw [toOption_eq_some] at hcoil hrail
  obtain ⟨whole, hwhole, merged⟩ := joined_texts_are_merged hcoil hrail plain
  exact ⟨coil, rail, whole, hcoil, hrail, plain, hwhole, merged⟩

end Acausal

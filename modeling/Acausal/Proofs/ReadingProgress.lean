-- Readings make progress. Whatever a reader of a part of a program takes, it takes at least one
-- lexeme off the front, and it never goes behind the last one; so the loops over classes,
-- sections, equations, modifiers, operators and arguments end, and the reader of a program is
-- done only when nothing is left.
import Acausal.Proofs.FailedReadings

namespace Acausal

variable {β : Type} {ts rest : List Lexeme}

/-! ## Parts of a program -/

/-- A reading comes to an end in one of two ways. It takes some lexemes, at least one, off the
front and leaves the others, or it fails where some of them or none are left. -/
def Advances (ts : List Lexeme) (r : Reading β ts.length) : Prop :=
  (∃ v used rest, Reads r v rest ∧ used ≠ [] ∧ ts = used ++ rest) ∨
    ∃ e passed, r = .error e ∧ ts = passed ++ e.rest

theorem advances_of_suffix {r : Reading β ts.length} (fails : FailsWithin ts r)
    (takes : ∀ v rest, Reads r v rest → rest <:+ ts) : Advances ts r := by
  cases hr : r with
  | error e =>
    obtain ⟨passed, hpassed⟩ := fails e hr
    exact .inr ⟨e, passed, rfl, hpassed.symm⟩
  | ok p =>
    obtain ⟨used, hused⟩ := takes p.value p.rest ⟨p, hr, rfl, rfl⟩
    refine .inl ⟨p.value, used, p.rest, ⟨p, rfl, rfl, rfl⟩, ?_, hused.symm⟩
    rintro rfl
    exact absurd (congrArg List.length hused) (Nat.ne_of_lt p.shorter)

/-! ## Programs -/

/-- Lexemes as the classes that are read from them, one behind the other and up to the end. -/
inductive CutInto : List Lexeme → List (ClassDecl Float) → Prop
  | done : CutInto [] []
  | next {part rest c cs} (filled : part ≠ []) (read : Reads (classDecl (part ++ rest)) c rest)
    (later : CutInto rest cs) : CutInto (part ++ rest) (c :: cs)

theorem classes_eq_ok_iff_cutInto {cs : List (ClassDecl Float)} :
    classes ts = .ok cs ↔ CutInto ts cs := by
  constructor
  · intro h
    induction cs generalizing ts with
    | nil =>
      rcases classes_eq_ok.mp h with ⟨rfl, -⟩ | ⟨_, _, _, _, _, heq⟩
      · exact .done
      · cases heq
    | cons c cs ih =>
      rcases classes_eq_ok.mp h with ⟨-, heq⟩ | ⟨_, rest, _, read, later, heq⟩
      · cases heq
      · cases heq
        obtain ⟨part, rfl⟩ := (faithful_classDecl read).behind
        refine .next ?_ read (ih later)
        rintro rfl
        exact absurd read.shorter (Nat.lt_irrefl _)
  · intro h
    induction h with
    | done => exact classes_eq_ok.mpr (.inl ⟨rfl, rfl⟩)
    | next _ read _ ih => exact classes_eq_ok.mpr (.inr ⟨_, _, _, read, ih, rfl⟩)

/-- What may stand in front of the classes of a text: nothing, or the clause that `within` opens. -/
inductive Opens : List Lexeme → List Lexeme → Prop
  | bare {rest : List Lexeme} (plain : front? rest ≠ some (.word "within")) : Opens [] rest
  | within {place : Position} {clause rest : List Lexeme}
    (read : Reads (withinClause (clause ++ rest)) () rest) :
    Opens (⟨.word "within", place⟩ :: clause) rest

theorem sourceClasses_eq_ok_iff_cutInto {cs : List (ClassDecl Float)} :
    sourceClasses ts = .ok cs ↔
      ∃ header rest, ts = header ++ rest ∧ Opens header rest ∧ CutInto rest cs := by
  rw [sourceClasses_eq_ok]
  constructor
  · rintro (⟨plain, h⟩ | ⟨place, more, rest, rfl, read, h⟩)
    · exact ⟨[], ts, rfl, .bare (afterWord?_eq_none.mp plain), classes_eq_ok_iff_cutInto.mp h⟩
    · obtain ⟨clause, rfl⟩ := suffix_of_withinClause read
      exact ⟨_, rest, rfl, .within read, classes_eq_ok_iff_cutInto.mp h⟩
  · rintro ⟨header, rest, rfl, opens, cut⟩
    have h := classes_eq_ok_iff_cutInto.mpr cut
    cases opens with
    | bare plain => exact .inl ⟨afterWord?_eq_none.mpr plain, h⟩
    | within read => exact .inr ⟨_, _, rest, rfl, read, h⟩

/-- Reading ends for all lexemes, and makes progress. The reader of a class, an element, an
equation, a modifier, a modification, an expression or a name takes at least one lexeme where it
succeeds, all off the front, and stands within the lexemes where it fails. The reader of a program
either takes all of them, a clause in front and then classes of at least one lexeme each, or it
too stands within the lexemes where it fails. -/
theorem readings_advance (ts : List Lexeme) :
    (Advances ts (classDecl ts) ∧ Advances ts (element ts) ∧ Advances ts (equation ts) ∧
      Advances ts (modifier ts) ∧ Advances ts (modification ts) ∧ Advances ts (expression ts) ∧
      Advances ts (path ts)) ∧
    (∀ cs, sourceClasses ts = .ok cs ↔
      ∃ header rest, ts = header ++ rest ∧ Opens header rest ∧ CutInto rest cs) ∧
    ((∃ cs, sourceClasses ts = .ok cs) ∨
      ∃ e passed, sourceClasses ts = .error e ∧ ts = passed ++ e.rest) := by
  refine ⟨⟨?_, ?_, ?_, ?_, ?_, ?_, ?_⟩, fun cs => sourceClasses_eq_ok_iff_cutInto, ?_⟩
  · exact advances_of_suffix (failsWithin_classDecl ts) fun _ _ h => (faithful_classDecl h).behind
  · exact advances_of_suffix (failsWithin_element ts) fun _ _ h => (faithful_element h).behind
  · exact advances_of_suffix (failsWithin_equation ts) fun _ _ => suffix_of_equation
  · exact advances_of_suffix (failsWithin_modifier ts) fun _ _ => suffix_of_modifier
  · exact advances_of_suffix (failsWithin_modification ts) fun _ _ => suffix_of_modification
  · exact advances_of_suffix (failsWithin_expression ts) fun _ _ => suffix_of_expression
  · exact advances_of_suffix (failsWithin_path ts) fun _ _ => suffix_of_path
  · cases h : sourceClasses ts with
    | ok cs => exact .inl ⟨cs, rfl⟩
    | error e =>
      obtain ⟨passed, hpassed⟩ := suffix_of_sourceClasses_error h
      exact .inr ⟨e, passed, rfl, hpassed.symm⟩

end Acausal

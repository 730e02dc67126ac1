-- Where a reading that fails stands: at some of the lexemes it was given or at their end, never
-- behind it. One law for each reader, from the laws of the readers that it asks.
import Acausal.Proofs.ParsedClasses

namespace Acausal

variable {β γ : Type} {n k : Nat} {ts mid : List Lexeme}

/-- If a reading of some lexemes fails, it stands at some of them or at their end. -/
def FailsWithin (ts : List Lexeme) (r : Reading β n) : Prop :=
  ∀ e, r = .error e → e.rest <:+ ts

@[simp]
theorem failsWithin_ok {p : Parsed β n} : FailsWithin ts (.ok p) := nofun

@[simp]
theorem failsWithin_error {e : Failure} :
    FailsWithin ts (.error e : Reading β n) ↔ e.rest <:+ ts := by
  constructor
  · intro h
    exact h e rfl
  · rintro h _ ⟨⟩
    exact h

/-- A reader that asks another one about what is left fails as that one does. -/
theorem FailsWithin.asked {r : Reading β n} {e : Failure} (h : FailsWithin mid r)
    (failed : r = .error e) (behind : mid <:+ ts) :
    FailsWithin ts (.error e : Reading γ k) :=
  failsWithin_error.mpr ((h e failed).trans behind)

/-! ## Single lexemes and names -/

theorem failsWithin_expectSymbol (c : Char) (ts : List Lexeme) :
    FailsWithin ts (expectSymbol c ts) := by
  unfold expectSymbol
  split <;> simp

theorem failsWithin_expectWord (ts : List Lexeme) : FailsWithin ts (expectWord ts) := by
  unfold expectWord
  split <;> simp

theorem suffix_of_expectSymbol {c : Char} {p : Parsed Unit ts.length}
    (h : expectSymbol c ts = .ok p) : p.rest <:+ ts := by
  obtain ⟨place, hts⟩ := reads_expectSymbol.mp ⟨p, h, rfl, rfl⟩
  exact ⟨[_], hts.symm⟩

theorem suffix_of_expectWord {p : Parsed String ts.length} (h : expectWord ts = .ok p) :
    p.rest <:+ ts := by
  obtain ⟨place, hts⟩ := reads_expectWord.mp ⟨p, h, rfl, rfl⟩
  exact ⟨[_], hts.symm⟩

theorem suffix_of_afterSymbol? {c : Char} {p : Parsed Unit ts.length}
    (h : afterSymbol? c ts = some p) : p.rest <:+ ts := by
  obtain ⟨place, hts⟩ := of_afterSymbol?_eq_some h
  exact ⟨[_], hts.symm⟩

theorem suffix_of_operator? {choice : Char → Option Operator} {p : Parsed Operator ts.length}
    (h : operator? choice ts = some p) : p.rest <:+ ts := by
  obtain ⟨c, place, hts, -⟩ := of_operator?_eq_some h
  exact ⟨[_], hts.symm⟩

theorem failsWithin_path (ts : List Lexeme) : FailsWithin ts (path ts) := by
  unfold path
  split
  · next e he => exact (failsWithin_expectWord ts).asked he (List.suffix_refl ts)
  · simp

/-- A wrong lexeme in the place of a number is passed over, the end of the lexemes is not. -/
theorem failsWithin_bracketed (problem : GrammarProblem) (ts : List Lexeme) :
    FailsWithin ts (bracketed problem ts) := by
  unfold bracketed
  split
  · split
    · simp
    · split
      · next e he =>
        exact (failsWithin_expectSymbol ']' _).asked he (List.suffix_cons _ _)
      · simp
  · simp
  · simp

theorem failsWithin_reference (ts : List Lexeme) : FailsWithin ts (reference ts) := by
  unfold reference
  split
  · next e he => exact (failsWithin_path ts).asked he (List.suffix_refl ts)
  · next p hp =>
    have named := suffix_of_path ⟨p, hp, rfl, rfl⟩
    split
    · simp
    · next q hq =>
      split
      · next e he =>
        exact (failsWithin_bracketed _ _).asked he ((suffix_of_afterSymbol? hq).trans named)
      · simp

theorem suffix_of_reference {r : Ref} {rest : List Lexeme} (h : Reads (reference ts) r rest) :
    rest <:+ ts := by
  obtain ⟨_, _, -, passes⟩ := passes_reference h
  exact passes.behind

theorem failsWithin_derivative (ts : List Lexeme) : FailsWithin ts (derivative ts) := by
  unfold derivative
  split
  · next e he => exact (failsWithin_expectSymbol '(' ts).asked he (List.suffix_refl ts)
  · next p hp =>
    have opened := suffix_of_expectSymbol hp
    split
    · next e he => exact (failsWithin_reference _).asked he opened
    · next q hq =>
      have named := (suffix_of_reference ⟨q, hq, rfl, rfl⟩).trans opened
      split
      · next e he => exact (failsWithin_expectSymbol ')' _).asked he named
      · simp

/-! ## Expressions -/

mutual
theorem failsWithin_expression (ts : List Lexeme) : FailsWithin ts (expression ts) := by
  rw [expression]
  split
  · next e he => exact (failsWithin_product ts).asked he (List.suffix_refl ts)
  · next p hp =>
    have short := p.shorter
    have first := (passes_product ⟨p, hp, rfl, rfl⟩).behind
    split
    · next e he => exact (failsWithin_sumTail _ p.rest).asked he first
    · simp
termination_by ts.length * 8 + 5

theorem failsWithin_sumTail (left : Expr Float) (ts : List Lexeme) :
    FailsWithin ts (sumTail left ts) := by
  rw [sumTail]
  split
  · simp
  · next op hop =>
    have joined := suffix_of_operator? hop
    have shorter := op.shorter
    split
    · next e he => exact (failsWithin_product op.rest).asked he joined
    · next p hp =>
      have short := p.shorter
      have term := (passes_product ⟨p, hp, rfl, rfl⟩).behind.trans joined
      split
      · next e he => exact (failsWithin_sumTail _ p.rest).asked he term
      · simp
termination_by ts.length * 8 + 7

theorem failsWithin_product (ts : List Lexeme) : FailsWithin ts (product ts) := by
  rw [product]
  split
  · next e he => exact (failsWithin_signed ts).asked he (List.suffix_refl ts)
  · next p hp =>
    have short := p.shorter
    have first := (passes_signed ⟨p, hp, rfl, rfl⟩).behind
    split
    · next e he => exact (failsWithin_productTail _ p.rest).asked he first
    · simp
termination_by ts.length * 8 + 4

theorem failsWithin_productTail (left : Expr Float) (ts : List Lexeme) :
    FailsWithin ts (productTail left ts) := by
  rw [productTail]
  split
  · simp
  · next op hop =>
    have joined := suffix_of_operator? hop
    have shorter := op.shorter
    split
    · next e he => exact (failsWithin_signed op.rest).asked he joined
    · next p hp =>
      have short := p.shorter
      have factor := (passes_signed ⟨p, hp, rfl, rfl⟩).behind.trans joined
      split
      · next e he => exact (failsWithin_productTail _ p.rest).asked he factor
      · simp
termination_by ts.length * 8 + 7

theorem failsWithin_signed (ts : List Lexeme) : FailsWithin ts (signed ts) := by
  rw [signed]
  split
  · next sign hs =>
    have short := sign.shorter
    split
    · next e he => exact (failsWithin_signed sign.rest).asked he (suffix_of_afterSymbol? hs)
    · simp
  · split
    · next sign hs =>
      have short := sign.shorter
      split
      · next e he => exact (failsWithin_signed sign.rest).asked he (suffix_of_afterSymbol? hs)
      · simp
    · exact failsWithin_power ts
termination_by ts.length * 8 + 3

theorem failsWithin_power (ts : List Lexeme) : FailsWithin ts (power ts) := by
  rw [power]
  split
  · next e he => exact (failsWithin_operand ts).asked he (List.suffix_refl ts)
  · next p hp =>
    have short := p.shorter
    have base := (passes_operand ⟨p, hp, rfl, rfl⟩).behind
    split
    · simp
    · next caret hc =>
      have shorter := caret.shorter
      split
      · next e he =>
        exact (failsWithin_signed caret.rest).asked he ((suffix_of_afterSymbol? hc).trans base)
      · simp
termination_by ts.length * 8 + 2

theorem failsWithin_operand (ts : List Lexeme) : FailsWithin ts (operand ts) := by
  rw [operand.eq_def]
  split
  · simp
  · next rest =>
    split
    · next e he => exact (failsWithin_expression rest).asked he (List.suffix_cons _ _)
    · next p hp =>
      have inner := suffix_of_expression ⟨p, hp, rfl, rfl⟩
      split
      · next e he =>
        exact (failsWithin_expectSymbol ')' _).asked he (inner.trans (List.suffix_cons _ _))
      · simp
  · simp
  · simp
  · simp
  · split
    · next e he => exact (failsWithin_derivative _).asked he (List.suffix_cons _ _)
    · simp
  · split
    · next e he => exact (failsWithin_reference _).asked he (List.suffix_refl _)
    · next p hp =>
      have short := p.shorter
      have named := suffix_of_reference ⟨p, hp, rfl, rfl⟩
      split
      · next opening _ ho =>
        have shorter := opening.shorter
        split
        · next e he =>
          exact (failsWithin_callArguments opening.rest).asked he
            ((suffix_of_afterSymbol? ho).trans named)
        · simp
      · simp
  · simp
termination_by ts.length * 8 + 1

theorem failsWithin_callArguments (ts : List Lexeme) : FailsWithin ts (callArguments ts) := by
  rw [callArguments]
  split
  · simp
  · exact failsWithin_arguments ts
termination_by ts.length * 8 + 7

theorem failsWithin_arguments (ts : List Lexeme) : FailsWithin ts (arguments ts) := by
  rw [arguments]
  split
  · next e he => exact (failsWithin_expression ts).asked he (List.suffix_refl ts)
  · next p hp =>
    have short := p.shorter
    have first := suffix_of_expression ⟨p, hp, rfl, rfl⟩
    split
    · simp
    · split
      · next e he => exact (failsWithin_expectSymbol ',' _).asked he first
      · next comma hc =>
        have shorter := comma.shorter
        split
        · next e he =>
          have passed := (suffix_of_expectSymbol hc).trans first
          exact (failsWithin_arguments comma.rest).asked he passed
        · simp
termination_by ts.length * 8 + 6
end

/-! ## Modifications -/

theorem failsWithin_modifierValue (ts : List Lexeme) : FailsWithin ts (modifierValue ts) := by
  unfold modifierValue
  split
  · simp
  · next sign hs =>
    split
    · simp
    · split
      · next e he => exact (failsWithin_expression _).asked he (suffix_of_afterSymbol? hs)
      · simp

mutual
theorem failsWithin_modification (ts : List Lexeme) : FailsWithin ts (modification ts) := by
  rw [modification]
  split
  · next e he => exact (failsWithin_expectSymbol '(' ts).asked he (List.suffix_refl ts)
  · next opening ho =>
    have short := opening.shorter
    split
    · simp
    · split
      · next e he =>
        exact (failsWithin_modifiers opening.rest).asked he (suffix_of_expectSymbol ho)
      · simp
termination_by ts.length * 4

theorem failsWithin_modifiers (ts : List Lexeme) : FailsWithin ts (modifiers ts) := by
  rw [modifiers]
  split
  · next e he => exact (failsWithin_modifier ts).asked he (List.suffix_refl ts)
  · next p hp =>
    have short := p.shorter
    have first := suffix_of_modifier ⟨p, hp, rfl, rfl⟩
    split
    · simp
    · split
      · next e he => exact (failsWithin_expectSymbol ',' _).asked he first
      · next comma hc =>
        have shorter := comma.shorter
        split
        · next e he =>
          have passed := (suffix_of_expectSymbol hc).trans first
          exact (failsWithin_modifiers comma.rest).asked he passed
        · simp
termination_by ts.length * 4 + 2

theorem failsWithin_modifier (ts : List Lexeme) : FailsWithin ts (modifier ts) := by
  have marked := (optionalWord_rest "final" _).trans (optionalWord_rest "each" ts)
  rw [modifier]
  split
  · next e he => exact (failsWithin_expectWord _).asked he marked
  · next name hn =>
    have named := (suffix_of_expectWord hn).trans marked
    have short := name.shorter.trans_le marked.length_le
    split
    · next e he => exact (failsWithin_optionalModification name.rest).asked he named
    · next children hc =>
      have nested := (suffix_of_optionalModification ⟨children, hc, rfl, rfl⟩).trans named
      split
      · next e he => exact (failsWithin_modifierValue _).asked he nested
      · next value hv =>
        have valued := (suffix_of_modifierValue ⟨value, hv, rfl, rfl⟩).trans nested
        split
        · simpa using valued
        · simp
termination_by ts.length * 4 + 1

theorem failsWithin_optionalModification (ts : List Lexeme) :
    FailsWithin ts (optionalModification ts) := by
  rw [optionalModification]
  split
  · simp
  · split
    · next e he => exact (failsWithin_modification ts).asked he (List.suffix_refl ts)
    · simp
termination_by ts.length * 4 + 1
end

/-! ## Declarations -/

theorem failsWithin_optionalSize (ts : List Lexeme) : FailsWithin ts (optionalSize ts) := by
  unfold optionalSize
  split
  · simp
  · next opening ho =>
    split
    · next e he => exact (failsWithin_bracketed _ _).asked he (suffix_of_afterSymbol? ho)
    · simp

theorem failsWithin_optionalBinding (ts : List Lexeme) : FailsWithin ts (optionalBinding ts) := by
  unfold optionalBinding
  split
  · simp
  · next sign hs =>
    split
    · next e he => exact (failsWithin_expression _).asked he (suffix_of_afterSymbol? hs)
    · simp

theorem failsWithin_component (ts : List Lexeme) : FailsWithin ts (component ts) := by
  have before := (direction_rest _).trans (variability_rest ts)
  unfold component
  simp only
  split
  · next e he => exact (failsWithin_path _).asked he before
  · next type ht =>
    have typed := (suffix_of_path ⟨type, ht, rfl, rfl⟩).trans before
    split
    · next e he => exact (failsWithin_expectWord _).asked he typed
    · next name hn =>
      have named := (suffix_of_expectWord hn).trans typed
      split
      · next e he => exact (failsWithin_optionalSize _).asked he named
      · next size hs =>
        have sized := (suffix_of_optionalSize ⟨size, hs, rfl, rfl⟩).trans named
        split
        · next e he => exact (failsWithin_optionalModification _).asked he sized
        · next ms hm =>
          have modified := (suffix_of_optionalModification ⟨ms, hm, rfl, rfl⟩).trans sized
          split
          · next e he => exact (failsWithin_optionalBinding _).asked he modified
          · next binding hb =>
            have bound := (suffix_of_optionalBinding ⟨binding, hb, rfl, rfl⟩).trans modified
            have described := (optionalDescription_rest binding.rest).trans bound
            split
            · next e he => exact (failsWithin_expectSymbol ';' _).asked he described
            · simp

theorem failsWithin_extendsClause (ts : List Lexeme) : FailsWithin ts (extendsClause ts) := by
  unfold extendsClause
  split
  · next e he => exact (failsWithin_path ts).asked he (List.suffix_refl ts)
  · next base hb =>
    have named := suffix_of_path ⟨base, hb, rfl, rfl⟩
    split
    · next e he => exact (failsWithin_optionalModification _).asked he named
    · next ms hm =>
      have modified := (suffix_of_optionalModification ⟨ms, hm, rfl, rfl⟩).trans named
      split
      · next e he => exact (failsWithin_expectSymbol ';' _).asked he modified
      · simp

theorem failsWithin_equation (ts : List Lexeme) : FailsWithin ts (equation ts) := by
  unfold equation
  split
  · next e he => exact (failsWithin_expression ts).asked he (List.suffix_refl ts)
  · next lhs hl =>
    have left := suffix_of_expression ⟨lhs, hl, rfl, rfl⟩
    split
    · next e he => exact (failsWithin_expectSymbol '=' _).asked he left
    · next sign hs =>
      have middle := (suffix_of_expectSymbol hs).trans left
      split
      · next e he => exact (failsWithin_expression _).asked he middle
      · next rhs hr =>
        have right := (suffix_of_expression ⟨rhs, hr, rfl, rfl⟩).trans middle
        split
        · next e he => exact (failsWithin_expectSymbol ';' _).asked he right
        · simp

theorem failsWithin_equations (ts : List Lexeme) : FailsWithin ts (equations ts) := by
  rw [equations]
  split
  · simp
  · split
    · next e he => exact (failsWithin_equation ts).asked he (List.suffix_refl ts)
    · next p hp =>
      have short := p.shorter
      have first := suffix_of_equation ⟨p, hp, rfl, rfl⟩
      split
      · next e he => exact (failsWithin_equations p.rest).asked he first
      · simp
termination_by ts.length

/-! ## Classes -/

theorem failsWithin_classKind (ts : List Lexeme) : FailsWithin ts (classKind ts) := by
  unfold classKind
  split
  · split <;> simp
  · simp

theorem failsWithin_closing (name : String) (ts : List Lexeme) :
    FailsWithin ts (closing name ts) := by
  unfold closing
  split
  · next e he => exact (failsWithin_expectWord ts).asked he (List.suffix_refl ts)
  · next word hw =>
    have named := suffix_of_expectWord hw
    split
    · split
      · next e he => exact (failsWithin_expectSymbol ';' _).asked he named
      · simp
    · simpa using named

theorem suffix_of_visibility? {p : Parsed Unit ts.length} (h : visibility? ts = some p) :
    p.rest <:+ ts := by
  obtain ⟨w, place, -, hts⟩ := of_visibility?_eq_some h
  exact ⟨[_], hts.symm⟩

mutual
theorem failsWithin_classDecl (ts : List Lexeme) : FailsWithin ts (classDecl ts) := by
  have marked := optionalWord_rest "partial" ts
  rw [classDecl]
  split
  · next e he => exact (failsWithin_classKind _).asked he marked
  · next kind hk =>
    have introduced := (suffix_of_classKind ⟨kind, hk, rfl, rfl⟩).trans marked
    split
    · next e he => exact (failsWithin_expectWord _).asked he introduced
    · next name hn =>
      have named := (suffix_of_expectWord hn).trans introduced
      have described := (optionalDescription_rest name.rest).trans named
      have short := name.shorter.trans_le introduced.length_le
      have shorter := (optionalDescription_rest name.rest).length_le
      simp only
      split
      · next e he =>
        exact (failsWithin_body _ (optionalDescription name.rest).rest).asked he described
      · next inner hi =>
        have filled := (faithful_body ⟨inner, hi, rfl, rfl⟩).behind.trans described
        split
        · next e he => exact (failsWithin_closing _ _).asked he filled
        · simp
termination_by ts.length * 4 + 1

theorem failsWithin_body (name : String) (ts : List Lexeme) : FailsWithin ts (body name ts) := by
  rw [body]
  split
  · simp
  · split
    · simp
    · split
      · next word hw =>
        have short := word.shorter
        split
        · next e he => exact (failsWithin_body name word.rest).asked he (suffix_of_visibility? hw)
        · simp
      · split
        · next word hw =>
          have short := word.shorter
          have entered := suffix_of_afterWord? hw
          split
          · next e he => exact (failsWithin_equations word.rest).asked he entered
          · next p hp =>
            have shorter := p.shorter
            have passed := (suffix_of_equations ⟨p, hp, rfl, rfl⟩).trans entered
            split
            · next e he => exact (failsWithin_body name p.rest).asked he passed
            · simp
        · split
          · next e he => exact (failsWithin_element ts).asked he (List.suffix_refl ts)
          · next p hp =>
            have short := p.shorter
            have first := (faithful_element ⟨p, hp, rfl, rfl⟩).behind
            split
            · next e he => exact (failsWithin_body name p.rest).asked he first
            · simp
termination_by ts.length * 4 + 3

theorem failsWithin_element (ts : List Lexeme) : FailsWithin ts (element ts) := by
  rw [element]
  split
  · next word hw =>
    split
    · next e he => exact (failsWithin_extendsClause _).asked he (suffix_of_afterWord? hw)
    · simp
  · split
    · split
      · next e he => exact (failsWithin_classDecl ts).asked he (List.suffix_refl ts)
      · simp
    · split
      · next e he => exact (failsWithin_component ts).asked he (List.suffix_refl ts)
      · simp
termination_by ts.length * 4 + 2
end

/-! ## Source texts -/

theorem failsWithin_withinClause (ts : List Lexeme) : FailsWithin ts (withinClause ts) := by
  unfold withinClause
  split
  · simp
  · split
    · next e he => exact (failsWithin_path ts).asked he (List.suffix_refl ts)
    · next p hp =>
      split
      · next e he =>
        exact (failsWithin_expectSymbol ';' _).asked he (suffix_of_path ⟨p, hp, rfl, rfl⟩)
      · simp

theorem suffix_of_classes_error {ts : List Lexeme} {e : Failure} (h : classes ts = .error e) :
    e.rest <:+ ts := by
  rw [classes] at h
  split at h
  · cases h
  · split at h
    · next e' he =>
      cases h
      exact failsWithin_classDecl ts e he
    · next p hp =>
      have short := p.shorter
      have first := (faithful_classDecl ⟨p, hp, rfl, rfl⟩).behind
      split at h
      · next e' he =>
        cases h
        exact (suffix_of_classes_error he).trans first
      · cases h
termination_by ts.length

theorem suffix_of_sourceClasses_error {e : Failure} (h : sourceClasses ts = .error e) :
    e.rest <:+ ts := by
  unfold sourceClasses at h
  split at h
  · exact suffix_of_classes_error h
  · next word hw =>
    have marked := suffix_of_afterWord? hw
    split at h
    · next e' he =>
      cases h
      exact (failsWithin_withinClause _ e he).trans marked
    · next p hp =>
      have headed := (suffix_of_withinClause ⟨p, hp, rfl, rfl⟩).trans marked
      exact (suffix_of_classes_error h).trans headed

end Acausal

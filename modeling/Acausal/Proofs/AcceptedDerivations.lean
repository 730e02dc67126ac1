-- Derived tokens that are read. What a rule derives is read at the level of that rule, whatever
-- ends an expression behind it, as the expression of the derivation. So the reader of expressions
-- accepts exactly what the grammar derives, and no tokens have two derivations that differ in what
-- they stand for.
import Acausal.Proofs.ReadingLevels

namespace Acausal

variable {first name : String} {us : List Token} {e : Expr Float} {r : Ref}

/-! ## Names and components -/

theorem DerivesPath.isPath (h : DerivesPath first us name) : IsPath first name us := by
  obtain ⟨more, rfl, rfl⟩ := h.exists_segments
  exact isPath_dottedFrom first more

theorem DerivesReference.isReference (h : DerivesReference first us r) :
    IsReference first r us := by
  cases h with
  | whole path => exact path.isPath.whole
  | element path subscript => exact path.isPath.element (count?_eq_some_iff.mpr subscript)

/-! ## Expressions -/

/-- Tokens that are read at the level of a rule. -/
def Rule.Accepts : Rule → Expr Float → List Token → Prop
  | sum => IsSum
  | product => IsProduct
  | signed => IsSigned
  | power => IsPower
  | operand => IsOperand

theorem Derives.accepts {rule : Rule} (h : Derives rule us e) : rule.Accepts e us := by
  induction h with
  | term _ ih => exact ih.isSum
  | sum joins _ _ terms term => exact terms.binary (mem_sumSymbols.mp joins) term
  | factor _ ih => exact ih.isProduct
  | product joins _ _ factors factor => exact factors.binary (mem_productSymbols.mp joins) factor
  | minusLiteral _ ih => exact ih.negated
  | minus _ compound ih =>
    rw [← negated_of_ne_number compound]
    exact ih.negated
  | plus _ ih => exact ih.plus
  | bare _ ih => exact ih.isSigned
  | base _ ih => exact ih.isPower
  | raised _ _ base exponent => exact base.raised exponent
  | number x => exact isOperand_token (by simp) (by simp) (.number x)
  | enclosed _ ih => exact ih.enclosed
  | time => exact isOperand_token (by simp) (by simp) .time
  | yes => exact isOperand_token (by simp) (by simp) .yes
  | no => exact isOperand_token (by simp) (by simp) .no
  | derivative component => exact component.isReference.derivative
  | reference own component => exact component.isReference.isOperand own
  | call own function _ ih => exact function.isPath.call own ih

/-! ## The reader and the grammar -/

/-- What ends an expression: nothing more, a quoted text, or one of four symbols. -/
def Ends (rest : List Lexeme) : Prop :=
  ∀ t, front? rest = some t →
    (∃ text, t = .quoted text) ∨ ∃ c ∈ [';', ',', ')', '='], t = .symbol c

theorem Ends.pull_eq {rest : List Lexeme} (h : Ends rest) : pull rest = 0 := by
  cases rest with
  | nil => rfl
  | cons lexeme more =>
    rcases h lexeme.token rfl with ⟨text, same⟩ | ⟨c, hc, same⟩
    · rw [pull_cons, same]
      rfl
    · rw [pull_cons, same]
      fin_cases hc <;> rfl

theorem reads_of_derives {used rest : List Lexeme} (h : Derives .sum (used.map (·.token)) e)
    (ends : Ends rest) : Reads (expression (used ++ rest)) e rest :=
  h.accepts.reads rfl (by rw [ends.pull_eq]; exact Nat.one_pos)

/-- The reader of expressions accepts exactly the grammar. Whatever it reads, the lexemes that it
takes derive what it makes of them; and whatever derives an expression is read as that expression,
and taken to its last lexeme, in front of anything that ends one. -/
theorem reader_accepts_grammar :
    (∀ ts e rest, Reads (expression ts) e rest →
      ∃ used, ts = used ++ rest ∧ Derives .sum (used.map (·.token)) e) ∧
    ∀ used rest e, Derives .sum (used.map (·.token)) e → Ends rest →
      Reads (expression (used ++ rest)) e rest :=
  ⟨fun _ _ _ => passes_expression, fun _ _ _ => reads_of_derives⟩

/-- Tokens as lexemes that all stand in one place. -/
def placed (ts : List Token) : List Lexeme := ts.map fun t => ⟨t, {}⟩

theorem tokens_placed (ts : List Token) : (placed ts).map (·.token) = ts := by
  rw [placed, List.map_map]
  exact List.map_id ts

/-- A square with a sign in front, less the larger of a level and minus one. -/
def cappedSquare : Expr Float :=
  .binary (.neg (.binary (.ref ⟨"x", none⟩) .pow (.number 2))) .sub
    (.call "max" [.ref ⟨"tank.level", some 3⟩, .number (-1)])

/-- The tokens of `-x ^ 2 - max(tank.level[3], -1)`. -/
def cappedTokens : List Token :=
  [.symbol '-', .word "x", .symbol '^', .number 2, .symbol '-', .word "max", .symbol '(',
    .word "tank", .symbol '.', .word "level", .symbol '[', .number 3, .symbol ']', .symbol ',',
    .symbol '-', .number 1, .symbol ')']

theorem derives_cappedSquare : Derives .sum cappedTokens cappedSquare := by
  have square : Derives .power [.word "x", .symbol '^', .number 2]
      (.binary (.ref ⟨"x", none⟩) .pow (.number 2)) :=
    .raised (.reference (by decide) (.whole .word)) (.bare (.base (.number 2)))
  have third : IsSubscript 3 3 := count?_eq_some_iff.mp (by decide +kernel)
  have level : Derives .operand
      [.word "tank", .symbol '.', .word "level", .symbol '[', .number 3, .symbol ']']
      (.ref ⟨"tank.level", some 3⟩) :=
    .reference (by decide) (.element (.dotted .word "level") third)
  have one : Derives .signed [.symbol '-', .number 1] (.number (-1)) :=
    .minusLiteral (.bare (.base (.number 1)))
  have args := DerivesArguments.cons (.term (.factor (.bare (.base level))))
    (.single (.term (.factor one))) (by simp)
  have call := args.call (by decide) (DerivesPath.word : DerivesPath "max" _ _)
  exact .sum (by simp [sumSymbols]) (.term (.factor (.minus (.bare square) nofun)))
    (.factor (.bare (.base call)))

theorem cappedSquare_is_read :
    Derives .sum ((placed cappedTokens).map (·.token)) cappedSquare ∧
      Ends (placed [.symbol ';']) ∧
      Reads (expression (placed cappedTokens ++ placed [.symbol ';'])) cappedSquare
        (placed [.symbol ';']) := by
  have derived : Derives .sum ((placed cappedTokens).map (·.token)) cappedSquare := by
    rw [tokens_placed]
    exact derives_cappedSquare
  have ends : Ends (placed [.symbol ';']) := by
    rintro t ⟨⟩
    exact .inr ⟨';', by decide, rfl⟩
  exact ⟨derived, ends, reader_accepts_grammar.2 _ _ _ derived ends⟩

/-- No tokens stand for two expressions. -/
theorem derives_unique {a b : Expr Float} (h : Derives .sum us a) (h' : Derives .sum us b) :
    a = b := by
  have read := h.accepts.reads_all (tokens_placed us)
  exact (read.unique (h'.accepts.reads_all (tokens_placed us))).1

end Acausal

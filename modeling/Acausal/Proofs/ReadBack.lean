-- Printed expressions read back. The printer encloses every operand that binds more loosely than
-- its place, on the left as on the right of a power, while powers group to the right; so the text
-- of a parsed expression is read as that expression exactly when the base of each of its powers
-- is neither a power nor a literal with a sign.
import Acausal.Proofs.Counts
import Acausal.Proofs.PrintedGroups

namespace Acausal

variable {ls tail rest ts : List Lexeme} {a b e v : Expr Float} {us vs : List Token}

/-! ## Names and components -/

theorem isPath_nameTokens {first name : String} (spelled : SpelledFrom first name) :
    IsPath first name (nameTokens name) := by
  obtain ⟨word, segments, words, rfl⟩ := spelled
  rw [nameTokens_dottedFrom word words]
  exact isPath_dottedFrom first segments

/-- A printed component is read as it was written. -/
theorem isReference_refTokens {first : String} {r : Ref} (spelled : WrittenRef first r) :
    IsReference first r (refTokens r) := by
  have path := isPath_nameTokens spelled.name
  obtain ⟨name, index⟩ := r
  cases index with
  | none =>
    rw [refTokens, indexTokens, List.append_nil]
    exact path.whole
  | some k =>
    obtain ⟨x, hx⟩ := spelled.index k rfl
    exact path.element (count?_nearestDouble hx)

/-! ## Calls -/

/-- The tokens of an argument, and what they are read as. -/
def printedArgument (e : Expr Float) : List Token × Expr Float := (e.tokens, regrouped e none)

theorem tokensAll_eq (args : List (Expr Float)) :
    Expr.tokensAll args = (args.map printedArgument).map Prod.fst := by
  induction args with
  | nil => rfl
  | cons arg args ih => rw [Expr.tokensAll, ih, List.map_cons, List.map_cons, printedArgument]

theorem regroupedAll_eq (args : List (Expr Float)) :
    regroupedAll args = (args.map printedArgument).map Prod.snd := by
  induction args with
  | nil => rfl
  | cons arg args ih => rw [regroupedAll, ih, List.map_cons, List.map_cons, printedArgument]

theorem isOperand_call {first name : String} {args : List (Expr Float)}
    (own : first ∉ operandKeywords) (spelled : SpelledFrom first name)
    (groups : ∀ e ∈ args, Groups e e.tokens) :
    IsOperand (.call name (regroupedAll args)) (Expr.call name args).tokens := by
  rw [Expr.tokens, tokensAll_eq, regroupedAll_eq]
  refine (isPath_nameTokens spelled).call own fun p hp => ?_
  obtain ⟨arg, harg, rfl⟩ := List.mem_map.mp hp
  exact (groups arg harg).sum

/-! ## Operators -/

/-- A power passes the exponent that follows it on to its own. -/
theorem IsBase.power {read : Option (Expr Float) → Expr Float} (base : IsBase read us)
    (exponent : IsBase (attached b) vs) :
    IsBase (fun later => read (some (attached b later))) (us ++ .symbol '^' :: vs) := by
  intro later ls tail rest hls next
  obtain ⟨before, behind, rfl, hbefore, hbehind⟩ := exists_of_tokens_append hls
  obtain ⟨i, last, rfl, hlast⟩ := exists_of_tokens_cons hbehind
  rw [List.append_assoc]
  exact base hbefore ⟨i, last ++ tail, rfl, exponent hlast next⟩

/-! ## Expressions -/

theorem Groups.of_operand (h : IsOperand (regrouped e none) us)
    (plain : Unsigned (regrouped e none)) (simple : e.NotPower) : Groups e us := by
  apply Groups.of_base
  have same : regrouped e = attached (regrouped e none) := funext (regrouped_of_notPower simple)
  rw [same]
  exact h.isBase plain

/-- The tokens of a literal. -/
theorem groups_number {x : Float} (finite : Finite x) :
    Groups (.number x) (Expr.number x).tokens := by
  rw [Expr.tokens]
  by_cases sign : signBit x = true
  · rw [if_pos sign]
    exact .of_base (isBase_of_signBit finite sign)
  · rw [if_neg sign]
    have literal := isOperand_token (by simp) (by simp) (OperandForm.number x)
    refine .of_operand literal ?_ (by simp [Expr.NotPower])
    rintro _ ⟨⟩
    simpa using sign

/-- The tokens of operands joined by an operator. -/
theorem Groups.binary {op : Operator} (lhs : Groups a us) (rhs : Groups b vs) (left : Written a)
    (right : Written b) :
    Groups (.binary a op b) (enclosedTokens a.strength op.strength us ++
      .symbol op.character :: enclosedTokens b.strength (op.strength + 1) vs) := by
  cases op with
  | add => exact .of_sum (Nat.lt_succ_self 1) (lhs.placed_sum.binary rfl (rhs.placed_product right))
  | sub => exact .of_sum (Nat.lt_succ_self 1) (lhs.placed_sum.binary rfl (rhs.placed_product right))
  | mul =>
    have factors := lhs.placed_product left
    exact .of_product (Nat.lt_succ_self 2) (factors.binary rfl (rhs.placed_factor right))
  | div =>
    have factors := lhs.placed_product left
    exact .of_product (Nat.lt_succ_self 2) (factors.binary rfl (rhs.placed_factor right))
  | pow => exact .of_base ((lhs.placed_base left).power (rhs.placed_exponent right))

/-- The tokens of an expression are read as the expression is grouped by its text. -/
theorem groups_tokens (written : Written e) (readable : e.Readable) : Groups e e.tokens := by
  induction written with
  | number x =>
    obtain ⟨finite, -⟩ := readable x (by simp [Expr.parts])
    exact groups_number finite
  | ref own spelled =>
    have component := (isReference_refTokens spelled).isOperand own
    exact .of_operand component (by rintro _ ⟨⟩) (by simp [Expr.NotPower])
  | time =>
    have word := isOperand_token (by simp) (by simp) OperandForm.time
    exact .of_operand word (by rintro _ ⟨⟩) (by simp [Expr.NotPower])
  | binary left right ihl ihr =>
    rw [Expr.tokens]
    exact (ihl readable.binary.1).binary (ihr readable.binary.2) left right
  | neg inner _ ih =>
    rw [Expr.tokens]
    exact .of_signed (Nat.lt_succ_self 3) ((ih readable.neg).placed_base inner).isSigned.negated
  | call own spelled _ ih =>
    have groups := fun arg harg => ih arg harg (readable.call arg harg)
    exact .of_operand (isOperand_call own spelled groups) (by rintro _ ⟨⟩) (by simp [Expr.NotPower])
  | der spelled =>
    have derivative := (isReference_refTokens spelled).derivative
    exact .of_operand derivative (by rintro _ ⟨⟩) (by simp [Expr.NotPower])

/-- The text of an expression is cut into its tokens, and they are read to the end as the
expression is grouped by its text. -/
theorem reads_text (written : Written e) (readable : e.Readable) :
    ∃ found, lexemes e.text.toList = .ok found ∧
      Reads (expression found.list) (regrouped e none) [] := by
  have spelled := spells_text written readable delimited_nil lexes_nil
  rw [List.append_nil, List.append_nil] at spelled
  obtain ⟨found, hfound, htokens⟩ := spelled ⟨1, 1⟩
  exact ⟨found, hfound, (groups_tokens written readable).sum.reads_all htokens⟩

/-- With its base in parentheses a power is read back, whatever binds more loosely than a
literal stands there. -/
theorem reads_power_enclosed {lhs rhs : Expr Float} (left : Written lhs) (right : Written rhs)
    (readable : (Expr.binary lhs .pow rhs).Readable) (loose : lhs.strength < 5)
    (based : lhs.WellBased ∧ rhs.WellBased) :
    ∃ found, lexemes (Expr.enclosed lhs.strength 5 lhs.text ++ " ^ " ++
        Expr.enclosed rhs.strength 5 rhs.text).toList = .ok found ∧
      Reads (expression found.list) (.binary lhs .pow rhs) [] := by
  obtain ⟨hl, hr⟩ := readable.binary
  have exponent := (spells_text right hr).enclosed rhs.strength 5 delimited_nil lexes_nil
  have spelled := (spells_text left hl).enclosed lhs.strength 5
    (delimited_cons (by decide) (by decide)) (lexes_operator .pow exponent)
  obtain ⟨found, hfound, htokens⟩ := spelled ⟨1, 1⟩
  refine ⟨found, by simpa [lexemes, Operator.symbol] using hfound, ?_⟩
  have base : IsBase (attached (regrouped lhs none))
      (enclosedTokens lhs.strength 5 lhs.tokens) := by
    unfold enclosedTokens
    rw [if_pos loose]
    exact (groups_tokens left hl).enclosed left loose
  have power := base.power ((groups_tokens right hr).placed_exponent right)
  rw [List.append_nil] at htokens
  have whole := power.isSigned.isProduct.isSum.reads_all htokens
  rw [attached, (regrouped_eq_iff right).mpr based.2,
    attached_of_unsigned (unsigned_regrouped left loose), (regrouped_eq_iff left).mpr based.1]
    at whole
  exact whole

/-! ## Reading back -/

theorem isWord_letter {c : Char} (letter : startsWord c = true) : IsWord (String.ofList [c]) :=
  ⟨c, [], by simp, letter, by simp⟩

theorem written_variable {w : String} (word : IsWord w) (own : w ∉ operandKeywords) :
    Written (.ref ⟨w, none⟩) :=
  .ref own ⟨⟨word, [], by simp, rfl⟩, by simp⟩

/-- A difference whose second term is a difference. -/
def difference : Expr Float :=
  .binary (.ref ⟨"a", none⟩) .sub (.binary (.ref ⟨"b", none⟩) .sub (.number 2.0))

theorem written_difference : Written difference :=
  .binary (written_variable (isWord_letter (by decide)) (by decide))
    (.binary (written_variable (isWord_letter (by decide)) (by decide)) (.number _))

theorem readable_difference : difference.Readable := by
  intro x hx
  obtain rfl : x = 2.0 := by simpa [difference, Expr.parts] using hx
  refine ⟨⟨2 ^ 52, -51, by decide +kernel⟩, ?_⟩
  unfold ReadsBack
  decide +kernel

/-- A power of two variables. -/
def square : Expr Float := .binary (.ref ⟨"x", none⟩) .pow (.ref ⟨"y", none⟩)

/-- A power whose base is a power. -/
def tower : Expr Float := .binary square .pow (.ref ⟨"z", none⟩)

theorem written_z : Written (.ref ⟨"z", none⟩) :=
  written_variable (isWord_letter (by decide)) (by decide)

theorem written_square : Written square :=
  .binary (written_variable (isWord_letter (by decide)) (by decide))
    (written_variable (isWord_letter (by decide)) (by decide))

theorem written_tower : Written tower := .binary written_square written_z

theorem readable_tower : tower.Readable := by
  intro x hx
  simp [tower, square, Expr.parts] at hx

/-- The text of a parsed expression whose literals read back is read to the end, and as that very
expression exactly when no power has a power or a literal with a sign as its base. -/
theorem reads_back_iff_wellBased {source : String} {found : Lexemes}
    (lexed : lexemes source.toList = .ok found) (part : ts <:+ found.list)
    (parsed : Reads (expression ts) e rest) (readable : e.Readable) :
    ∃ again, lexemes e.text.toList = .ok again ∧
      (∃ v, Reads (expression again.list) v []) ∧
      (Reads (expression again.list) e [] ↔ e.WellBased) := by
  have written := (faithful_expression parsed).written ((lexical_lexemes lexed).of_suffix part)
  obtain ⟨again, hagain, whole⟩ := reads_text written readable
  refine ⟨again, hagain, ⟨_, whole⟩, ?_⟩
  -- Only one value can be read, so it is the expression when regrouping changes nothing.
  rw [← regrouped_eq_iff written]
  constructor
  · intro same
    exact (whole.unique same).1
  · intro same
    rwa [same] at whole

theorem differences_are_read_back :
    ∃ found again, lexemes "a - (b - 2.0)".toList = .ok found ∧
      Reads (expression found.list) difference [] ∧ difference.Readable ∧
      lexemes difference.text.toList = .ok again ∧ Reads (expression again.list) difference [] := by
  have based : difference.WellBased := by
    simp [Expr.WellBased, difference, Expr.parts, Expr.basedWell]
  have printed : difference.text = "a - (b - 2.0)" := by decide +kernel
  obtain ⟨found, lexed, parsed⟩ := reads_text written_difference readable_difference
  rw [(regrouped_eq_iff written_difference).mpr based] at parsed
  obtain ⟨again, hagain, -, back⟩ :=
    reads_back_iff_wellBased lexed (List.suffix_refl _) parsed readable_difference
  rw [printed] at lexed
  exact ⟨found, again, lexed, parsed, readable_difference, hagain, back.mpr based⟩

theorem towers_are_not_read_back :
    ∃ found again, lexemes "(x ^ y) ^ z".toList = .ok found ∧
      Reads (expression found.list) tower [] ∧ tower.Readable ∧
      lexemes tower.text.toList = .ok again ∧ ¬ Reads (expression again.list) tower [] := by
  obtain ⟨found, lexed, parsed⟩ := reads_power_enclosed written_square written_z readable_tower
    (by decide) (by simp [Expr.WellBased, square, Expr.parts, Expr.basedWell, Expr.standsAsBase])
  obtain ⟨again, hagain, whole⟩ := reads_text written_tower readable_tower
  have text : (Expr.enclosed square.strength 5 square.text ++ " ^ " ++
      Expr.enclosed (Expr.ref ⟨"z", none⟩ : Expr Float).strength 5
        (Expr.ref ⟨"z", none⟩ : Expr Float).text) = "(x ^ y) ^ z" := by
    decide +kernel
  rw [text] at lexed
  refine ⟨found, again, lexed, parsed, readable_tower, hagain, fun same => ?_⟩
  have based := (regrouped_eq_iff written_tower).mp (whole.unique same).1
  simp [Expr.WellBased, tower, square, Expr.parts, Expr.basedWell, Expr.standsAsBase] at based

end Acausal

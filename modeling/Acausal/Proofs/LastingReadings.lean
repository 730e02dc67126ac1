-- What a reading is made from. A reader looks at the tokens it passes over and at a few in front
-- of the lexemes it leaves, never at places, so a reading lasts when more text is put behind it:
-- an open one as long as a semicolon is still to come, a closed one always.
import Acausal.Proofs.DeclarationGrammar
import Acausal.Proofs.ParsedClasses

namespace Acausal

variable {ts ts' rest : List Lexeme} {us : List Token}

/-! ## Longer lists of lexemes -/

/-- Lexemes with the tokens of others and some tokens more, wherever they stand. -/
def Prolongs (us : List Token) (ts ts' : List Lexeme) : Prop :=
  ts'.map (·.token) = ts.map (·.token) ++ us

theorem Prolongs.of_cons {t : Token} {place : Position} {more : List Lexeme}
    (longer : Prolongs us (⟨t, place⟩ :: more) ts') :
    ∃ place' more', ts' = ⟨t, place'⟩ :: more' ∧ Prolongs us more more' := by
  unfold Prolongs at longer
  rw [List.map_cons, List.cons_append] at longer
  obtain ⟨⟨t', place'⟩, more', rfl, rfl, later⟩ := List.map_eq_cons_iff.mp longer
  exact ⟨place', more', rfl, later⟩

/-- A semicolon is still to come. -/
def Pending (ts : List Lexeme) : Prop := Token.symbol ';' ∈ ts.map (·.token)

theorem Pending.of_suffix (pending : Pending rest) (behind : rest <:+ ts) : Pending ts :=
  (behind.map _).subset pending

theorem Pending.cons {lexeme : Lexeme} (pending : Pending ts) : Pending (lexeme :: ts) :=
  pending.of_suffix (List.suffix_cons _ _)

theorem Pending.of_cons {t : Token} {place : Position} (pending : Pending (⟨t, place⟩ :: ts))
    (other : t ≠ .symbol ';') : Pending ts := by
  unfold Pending at pending
  rw [List.map_cons, List.mem_cons] at pending
  exact pending.resolve_left other.symm

theorem pending_semicolon (place : Position) (ts : List Lexeme) :
    Pending (⟨.symbol ';', place⟩ :: ts) := by
  simp [Pending]

theorem Prolongs.to_cons {t : Token} {place' : Position} {more' : List Lexeme}
    (longer : Prolongs us ts (⟨t, place'⟩ :: more')) (pending : Pending ts) :
    ∃ place more, ts = ⟨t, place⟩ :: more ∧ Prolongs us more more' := by
  cases ts with
  | nil => simp [Pending] at pending
  | cons lexeme more =>
    obtain ⟨_, _, heq, later⟩ := longer.of_cons
    cases heq
    exact ⟨lexeme.position, more, rfl, later⟩

/-! ## The token in front -/

theorem Prolongs.front?_eq_or (longer : Prolongs us ts ts') :
    front? ts' = (front? ts).or us.head? := by
  unfold front?
  rw [longer, List.head?_append]

theorem Prolongs.front? (longer : Prolongs us ts ts') (pending : Pending ts) :
    front? ts' = front? ts := by
  rw [longer.front?_eq_or]
  cases ts with
  | nil => simp [Pending] at pending
  | cons lexeme more => rfl

section
variable (longer : Prolongs us ts ts') (pending : Pending ts)
include longer pending

theorem Prolongs.afterSymbol? {c : Char} (h : afterSymbol? c ts = none) :
    afterSymbol? c ts' = none := by
  rw [afterSymbol?_eq_none, longer.front? pending]
  exact afterSymbol?_eq_none.mp h

theorem Prolongs.afterWord? {w : String} (h : afterWord? w ts = none) :
    afterWord? w ts' = none := by
  rw [afterWord?_eq_none, longer.front? pending]
  exact afterWord?_eq_none.mp h

theorem Prolongs.quotedText? (h : quotedText? ts = none) : quotedText? ts' = none := by
  rw [quotedText?_eq_none, longer.front? pending]
  exact quotedText?_eq_none.mp h

theorem Prolongs.operator? {choice : Char → Option Operator} (h : operator? choice ts = none) :
    operator? choice ts' = none := by
  rw [operator?_eq_none, longer.front? pending]
  exact operator?_eq_none.mp h

theorem Prolongs.visibility? (h : visibility? ts = none) : visibility? ts' = none := by
  obtain ⟨notPublic, notProtected⟩ := visibility?_eq_none.mp h
  exact visibility?_eq_none.mpr
    ⟨longer.afterWord? pending notPublic, longer.afterWord? pending notProtected⟩

theorem Prolongs.startsClass : startsClass ts' = startsClass ts := by
  cases ts with
  | nil => simp [Pending] at pending
  | cons lexeme more =>
    obtain ⟨place', more', rfl, -⟩ := longer.of_cons
    obtain ⟨t, place⟩ := lexeme
    cases t <;> rfl

theorem Prolongs.endsSection : endsSection ts' = endsSection ts := by
  cases ts with
  | nil => simp [Pending] at pending
  | cons lexeme more =>
    obtain ⟨place', more', rfl, -⟩ := longer.of_cons
    obtain ⟨t, place⟩ := lexeme
    unfold Acausal.endsSection
    refine congrArg₂ _ rfl (congrArg (List.any _) (funext fun word => ?_))
    cases t with
    | word w =>
      by_cases same : w = word
      · subst same
        simp
      · simp [afterWord?_of_ne same]
    | _ => rfl

end

/-! ## Parts that may be missing -/

/-- Two readings have one value, and what the second leaves prolongs what the first does. -/
def Agree {β : Type} {m n : Nat} (us : List Token) (p : Parsed β m) (q : Parsed β n) : Prop :=
  q.value = p.value ∧ Prolongs us p.rest q.rest

theorem Prolongs.passesWord {w : String} {p : Parsed Unit ts.length} (longer : Prolongs us ts ts')
    (h : Acausal.afterWord? w ts = some p) :
    ∃ q, Acausal.afterWord? w ts' = some q ∧ Prolongs us p.rest q.rest := by
  obtain ⟨place, hts⟩ := of_afterWord?_eq_some h
  rw [hts] at longer
  obtain ⟨place', more', rfl, later⟩ := longer.of_cons
  exact ⟨_, afterWord?_self w place', later⟩

theorem optionalWord_agree (longer : Prolongs us ts ts') (pending : Pending ts) (w : String) :
    Agree us (optionalWord w ts) (optionalWord w ts') := by
  unfold optionalWord
  cases h : afterWord? w ts with
  | none =>
    rw [longer.afterWord? pending h]
    exact ⟨rfl, longer⟩
  | some p =>
    obtain ⟨q, hq, later⟩ := longer.passesWord h
    rw [hq]
    exact ⟨rfl, later⟩

theorem optionalDescription_agree (longer : Prolongs us ts ts') (pending : Pending ts) :
    Agree us (optionalDescription ts) (optionalDescription ts') := by
  unfold optionalDescription
  cases h : quotedText? ts with
  | none =>
    rw [longer.quotedText? pending h]
    exact ⟨rfl, longer⟩
  | some p =>
    obtain ⟨place, hts⟩ := of_quotedText?_eq_some h
    rw [hts] at longer
    obtain ⟨place', more', rfl, later⟩ := longer.of_cons
    exact ⟨rfl, later⟩

theorem variability_agree (longer : Prolongs us ts ts') (pending : Pending ts) :
    Agree us (variability ts) (variability ts') := by
  unfold variability
  cases h : afterWord? "parameter" ts with
  | some p =>
    obtain ⟨q, hq, later⟩ := longer.passesWord h
    rw [hq]
    exact ⟨rfl, later⟩
  | none =>
    rw [longer.afterWord? pending h]
    cases k : afterWord? "constant" ts with
    | some p =>
      obtain ⟨q, hq, later⟩ := longer.passesWord k
      rw [hq]
      exact ⟨rfl, later⟩
    | none =>
      rw [longer.afterWord? pending k]
      exact ⟨rfl, longer⟩

theorem direction_agree (longer : Prolongs us ts ts') (pending : Pending ts) :
    Agree us (direction ts) (direction ts') := by
  unfold direction
  cases h : afterWord? "input" ts with
  | some p =>
    obtain ⟨q, hq, later⟩ := longer.passesWord h
    rw [hq]
    exact ⟨rfl, later⟩
  | none =>
    rw [longer.afterWord? pending h]
    exact optionalWord_agree longer pending "output"

/-- A dotted name ends where a dot and a word do not follow; the lexeme behind a dot decides. -/
theorem pathTail_agree {name : String} (longer : Prolongs us ts ts')
    (pending : Pending (pathTail name ts).rest) :
    Agree us (pathTail name ts) (pathTail name ts') := by
  fun_induction pathTail name ts generalizing ts' with
  | case1 name i w j more ih =>
    obtain ⟨i', more', rfl, later⟩ := longer.of_cons
    obtain ⟨j', more'', rfl, last⟩ := later.of_cons
    exact ih last pending
  | case2 name ts other =>
    have stops : pathTail name ts' = .leaving name ts' := by
      unfold pathTail
      split
      · obtain ⟨i, more, rfl, later⟩ := longer.to_cons pending
        obtain ⟨j, more', rfl, -⟩ := later.to_cons (pending.of_cons (by simp))
        exact (other _ _ _ _ rfl).elim
      · rfl
    rw [stops]
    exact ⟨rfl, longer⟩

/-! ## Lasting readings -/

/-- A reading lasts: lexemes with the same tokens and more behind them give its value, and what
they leave has the same behind it. -/
def Lasts {β : Type} {size : List Lexeme → Nat} (read : (ts : List Lexeme) → Reading β (size ts))
    (ts : List Lexeme) (v : β) (rest : List Lexeme) : Prop :=
  ∀ ⦃us ts'⦄, Prolongs us ts ts' → ∃ rest', Prolongs us rest rest' ∧ Reads (read ts') v rest'

theorem lasts_expectWord {w : String} (h : Reads (expectWord ts) w rest) :
    Lasts expectWord ts w rest := by
  intro us ts' longer
  obtain ⟨place, rfl⟩ := reads_expectWord.mp h
  obtain ⟨place', rest', rfl, later⟩ := longer.of_cons
  exact ⟨rest', later, reads_expectWord.mpr ⟨place', rfl⟩⟩

theorem lasts_bracketed {problem : GrammarProblem} {k : Nat}
    (h : Reads (bracketed problem ts) k rest) : Lasts (bracketed problem) ts k rest := by
  intro us ts' longer
  obtain ⟨x, i, j, rfl, hx⟩ := reads_bracketed.mp h
  obtain ⟨i', more', rfl, later⟩ := longer.of_cons
  obtain ⟨j', rest', rfl, last⟩ := later.of_cons
  exact ⟨rest', last, reads_bracketed.mpr ⟨x, i', j', rfl, hx⟩⟩

theorem lasts_path {name : String} (h : Reads (path ts) name rest) (pending : Pending rest) :
    Lasts path ts name rest := by
  intro us ts' longer
  obtain ⟨w, place, more, rfl, rfl, rfl⟩ := reads_path.mp h
  obtain ⟨place', more', rfl, later⟩ := longer.of_cons
  obtain ⟨same, last⟩ := pathTail_agree later pending
  exact ⟨_, last, reads_path.mpr ⟨w, place', more', rfl, same, rfl⟩⟩

theorem lasts_reference {r : Ref} (h : Reads (reference ts) r rest) (pending : Pending rest) :
    Lasts reference ts r rest := by
  intro us ts' longer
  obtain ⟨mid, hname, ending⟩ := reads_reference.mp h
  rcases ending with ⟨hnone, bare, rfl⟩ | ⟨place, more, k, rfl, hk, hsome⟩
  · obtain ⟨mid', between, hname'⟩ := lasts_path hname pending longer
    have bare' := between.afterSymbol? pending bare
    exact ⟨mid', between, reads_reference.mpr ⟨mid', hname', .inl ⟨hnone, bare', rfl⟩⟩⟩
  · have inner := lasts_bracketed hk
    have part := suffix_of_bracketed hk
    obtain ⟨mid', between, hname'⟩ := lasts_path hname (pending.of_suffix part).cons longer
    obtain ⟨place', more', rfl, later⟩ := between.of_cons
    obtain ⟨rest', last, hk'⟩ := inner later
    exact ⟨rest', last, reads_reference.mpr ⟨_, hname', .inr ⟨place', more', k, rfl, hk', hsome⟩⟩⟩

theorem lasts_derivative {v : Expr Float} (h : Reads (derivative ts) v rest)
    (pending : Pending rest) : Lasts derivative ts v rest := by
  intro us ts' longer
  obtain ⟨place, more, r, stop, rfl, hr, hv⟩ := reads_derivative.mp h
  obtain ⟨place', more', rfl, later⟩ := longer.of_cons
  obtain ⟨mid', between, hr'⟩ := lasts_reference hr pending.cons later
  obtain ⟨stop', rest', rfl, last⟩ := between.of_cons
  exact ⟨rest', last, reads_derivative.mpr ⟨place', more', r, stop', rfl, hr', hv⟩⟩

/-! ## Expressions -/

/-- An operand lasts when the expressions and arguments inside it do. -/
theorem OperandForm.lasts {v : Expr Float} (h : OperandForm ts v rest) (pending : Pending rest)
    (expressions : ∀ {more left : List Lexeme} {e : Expr Float}, more.length < ts.length →
      Reads (expression more) e left → Pending left → Lasts expression more e left)
    (arguments : ∀ {more left : List Lexeme} {args : List (Expr Float)},
      more.length < ts.length → Reads (callArguments more) args left → Pending left →
        Lasts callArguments more args left) :
    Lasts operand ts v rest := by
  intro us ts' longer
  simp only [reads_operand]
  cases h with
  | number x =>
    obtain ⟨place', rest', rfl, later⟩ := longer.of_cons
    exact ⟨rest', later, .number x place' rest'⟩
  | enclosed inner =>
    obtain ⟨place', more', rfl, later⟩ := longer.of_cons
    obtain ⟨mid', between, inner'⟩ := expressions (Nat.lt_succ_self _) inner pending.cons later
    obtain ⟨stop', rest', rfl, last⟩ := between.of_cons
    exact ⟨rest', last, .enclosed inner'⟩
  | time =>
    obtain ⟨place', rest', rfl, later⟩ := longer.of_cons
    exact ⟨rest', later, .time place' rest'⟩
  | yes =>
    obtain ⟨place', rest', rfl, later⟩ := longer.of_cons
    exact ⟨rest', later, .yes place' rest'⟩
  | no =>
    obtain ⟨place', rest', rfl, later⟩ := longer.of_cons
    exact ⟨rest', later, .no place' rest'⟩
  | derivative inner =>
    obtain ⟨place', more', rfl, later⟩ := longer.of_cons
    obtain ⟨rest', last, inner'⟩ := lasts_derivative inner pending later
    exact ⟨rest', last, .derivative inner'⟩
  | reference word inner alone =>
    obtain ⟨rest', last, inner'⟩ := lasts_reference inner pending longer
    obtain ⟨place', more', rfl, -⟩ := longer.of_cons
    exact ⟨rest', last, .reference word inner' fun hnone => last.afterSymbol? pending (alone hnone)⟩
  | call word function inner =>
    have opened := arguments (Nat.lt_of_succ_lt function.shorter) inner pending
    have part := (passes_callArguments inner).behind
    obtain ⟨mid', between, function'⟩ :=
      lasts_reference function (pending.of_suffix part).cons longer
    obtain ⟨place', more', rfl, -⟩ := longer.of_cons
    obtain ⟨opening', inner', rfl, later⟩ := between.of_cons
    obtain ⟨rest', last, arguments'⟩ := opened later
    exact ⟨rest', last, .call word function' arguments'⟩

mutual
theorem lasts_expression {ts rest : List Lexeme} {v : Expr Float}
    (h : Reads (expression ts) v rest) (pending : Pending rest) :
    Lasts expression ts v rest := by
  intro us ts' longer
  obtain ⟨a, mid, ha, hv⟩ := reads_expression.mp h
  have part := (passes_sumTail hv).behind
  obtain ⟨mid', between, ha'⟩ := lasts_product ha (pending.of_suffix part) longer
  obtain ⟨rest', last, hv'⟩ := lasts_sumTail hv pending between
  exact ⟨rest', last, reads_expression.mpr ⟨a, mid', ha', hv'⟩⟩
termination_by ts.length * 8 + 5
decreasing_by all_goals (try have := ha.shorter); omega

theorem lasts_sumTail {ts rest : List Lexeme} {left v : Expr Float}
    (h : Reads (sumTail left ts) v rest) (pending : Pending rest) :
    Lasts (sumTail left) ts v rest := by
  intro us ts' longer
  rcases reads_sumTail.mp h with ⟨none, rfl, rfl⟩ | ⟨c, place, more, op, a, mid, hts, hop, ha, hv⟩
  · exact ⟨ts', longer, reads_sumTail.mpr (.inl ⟨longer.operator? pending none, rfl, rfl⟩)⟩
  · have part := (passes_sumTail hv).behind
    rw [hts] at longer
    obtain ⟨place', more', rfl, later⟩ := longer.of_cons
    obtain ⟨mid', between, ha'⟩ := lasts_product ha (pending.of_suffix part) later
    obtain ⟨rest', last, hv'⟩ := lasts_sumTail hv pending between
    exact ⟨rest', last, reads_sumTail.mpr
      (.inr ⟨c, place', more', op, a, mid', rfl, hop, ha', hv'⟩)⟩
termination_by ts.length * 8 + 7
decreasing_by
  all_goals
    have short := ha.shorter
    have long := congrArg List.length hts
    rw [List.length_cons] at long
    omega

theorem lasts_product {ts rest : List Lexeme} {v : Expr Float}
    (h : Reads (product ts) v rest) (pending : Pending rest) : Lasts product ts v rest := by
  intro us ts' longer
  obtain ⟨a, mid, ha, hv⟩ := reads_product.mp h
  have part := (passes_productTail hv).behind
  obtain ⟨mid', between, ha'⟩ := lasts_signed ha (pending.of_suffix part) longer
  obtain ⟨rest', last, hv'⟩ := lasts_productTail hv pending between
  exact ⟨rest', last, reads_product.mpr ⟨a, mid', ha', hv'⟩⟩
termination_by ts.length * 8 + 4
decreasing_by all_goals (try have := ha.shorter); omega

theorem lasts_productTail {ts rest : List Lexeme} {left v : Expr Float}
    (h : Reads (productTail left ts) v rest) (pending : Pending rest) :
    Lasts (productTail left) ts v rest := by
  intro us ts' longer
  rcases reads_productTail.mp h with
    ⟨none, rfl, rfl⟩ | ⟨c, place, more, op, a, mid, hts, hop, ha, hv⟩
  · exact ⟨ts', longer, reads_productTail.mpr (.inl ⟨longer.operator? pending none, rfl, rfl⟩)⟩
  · have part := (passes_productTail hv).behind
    rw [hts] at longer
    obtain ⟨place', more', rfl, later⟩ := longer.of_cons
    obtain ⟨mid', between, ha'⟩ := lasts_signed ha (pending.of_suffix part) later
    obtain ⟨rest', last, hv'⟩ := lasts_productTail hv pending between
    exact ⟨rest', last, reads_productTail.mpr
      (.inr ⟨c, place', more', op, a, mid', rfl, hop, ha', hv'⟩)⟩
termination_by ts.length * 8 + 7
decreasing_by
  all_goals
    have short := ha.shorter
    have long := congrArg List.length hts
    rw [List.length_cons] at long
    omega

theorem lasts_signed {ts rest : List Lexeme} {v : Expr Float}
    (h : Reads (signed ts) v rest) (pending : Pending rest) : Lasts signed ts v rest := by
  intro us ts' longer
  rcases reads_signed.mp h with
    ⟨place, more, a, hts, ha, hv⟩ | ⟨place, more, hts, ha⟩ | ⟨minus, plus, ha⟩
  · have inner := lasts_signed ha pending
    rw [hts] at longer
    obtain ⟨place', more', rfl, later⟩ := longer.of_cons
    obtain ⟨rest', last, ha'⟩ := inner later
    exact ⟨rest', last, reads_signed.mpr (.inl ⟨place', more', a, rfl, ha', hv⟩)⟩
  · have inner := lasts_signed ha pending
    rw [hts] at longer
    obtain ⟨place', more', rfl, later⟩ := longer.of_cons
    obtain ⟨rest', last, ha'⟩ := inner later
    exact ⟨rest', last, reads_signed.mpr (.inr (.inl ⟨place', more', rfl, ha'⟩))⟩
  · have before := pending.of_suffix (passes_power ha).behind
    obtain ⟨rest', last, ha'⟩ := lasts_power ha pending longer
    exact ⟨rest', last, reads_signed.mpr
      (.inr (.inr ⟨longer.afterSymbol? before minus, longer.afterSymbol? before plus, ha'⟩))⟩
termination_by ts.length * 8 + 3
decreasing_by
  all_goals
    try
      have long := congrArg List.length hts
      rw [List.length_cons] at long
    omega

theorem lasts_power {ts rest : List Lexeme} {v : Expr Float}
    (h : Reads (power ts) v rest) (pending : Pending rest) : Lasts power ts v rest := by
  intro us ts' longer
  obtain ⟨a, mid, ha, ending⟩ := reads_power.mp h
  rcases ending with ⟨none, rfl, rfl⟩ | ⟨place, more, b, rfl, hb, hv⟩
  · obtain ⟨rest', last, ha'⟩ := lasts_operand ha pending longer
    exact ⟨rest', last, reads_power.mpr
      ⟨a, rest', ha', .inl ⟨last.afterSymbol? pending none, rfl, rfl⟩⟩⟩
  · have exponent := lasts_signed hb pending
    have part := (passes_signed hb).behind
    obtain ⟨mid', between, ha'⟩ := lasts_operand ha (pending.of_suffix part).cons longer
    obtain ⟨place', more', rfl, later⟩ := between.of_cons
    obtain ⟨rest', last, hb'⟩ := exponent later
    exact ⟨rest', last, reads_power.mpr ⟨a, _, ha', .inr ⟨place', more', b, rfl, hb', hv⟩⟩⟩
termination_by ts.length * 8 + 2
decreasing_by all_goals (try have := ha.shorter; simp only [List.length_cons] at this); omega

theorem lasts_operand {ts rest : List Lexeme} {v : Expr Float}
    (h : Reads (operand ts) v rest) (pending : Pending rest) : Lasts operand ts v rest :=
  (reads_operand.mp h).lasts pending (fun _ h => lasts_expression h)
    fun _ h => lasts_callArguments h
termination_by ts.length * 8 + 1
decreasing_by all_goals omega

theorem lasts_callArguments {ts rest : List Lexeme} {args : List (Expr Float)}
    (h : Reads (callArguments ts) args rest) (pending : Pending rest) :
    Lasts callArguments ts args rest := by
  intro us ts' longer
  rcases reads_callArguments.mp h with ⟨place, rfl, hargs⟩ | ⟨filled, h⟩
  · obtain ⟨place', rest', rfl, later⟩ := longer.of_cons
    exact ⟨rest', later, reads_callArguments.mpr (.inl ⟨place', rfl, hargs⟩)⟩
  · have before := pending.of_suffix (passes_arguments h).1.behind
    obtain ⟨rest', last, h'⟩ := lasts_arguments h pending longer
    exact ⟨rest', last, reads_callArguments.mpr (.inr ⟨longer.afterSymbol? before filled, h'⟩)⟩
termination_by ts.length * 8 + 7

theorem lasts_arguments {ts rest : List Lexeme} {args : List (Expr Float)}
    (h : Reads (arguments ts) args rest) (pending : Pending rest) :
    Lasts arguments ts args rest := by
  intro us ts' longer
  obtain ⟨a, mid, ha, ending⟩ := reads_arguments.mp h
  rcases ending with ⟨place, rfl, hargs⟩ | ⟨place, more, as, rfl, has, hargs⟩
  · obtain ⟨mid', between, ha'⟩ := lasts_expression ha pending.cons longer
    obtain ⟨place', rest', rfl, last⟩ := between.of_cons
    exact ⟨rest', last, reads_arguments.mpr ⟨a, _, ha', .inl ⟨place', rfl, hargs⟩⟩⟩
  · have others := lasts_arguments has pending
    have part := (passes_arguments has).1.behind
    obtain ⟨mid', between, ha'⟩ := lasts_expression ha (pending.of_suffix part).cons longer
    obtain ⟨place', more', rfl, later⟩ := between.of_cons
    obtain ⟨rest', last, has'⟩ := others later
    exact ⟨rest', last, reads_arguments.mpr
      ⟨a, _, ha', .inr ⟨place', more', as, rfl, has', hargs⟩⟩⟩
termination_by ts.length * 8 + 6
decreasing_by all_goals (try have := ha.shorter; simp only [List.length_cons] at this); omega
end

/-! ## Modifications -/

theorem lasts_modifierValue {value : ModifierValue} (h : Reads (modifierValue ts) value rest)
    (pending : Pending rest) : Lasts modifierValue ts value rest := by
  intro us ts' longer
  simp only [reads_modifierValue]
  cases reads_modifierValue.mp h with
  | absent bare => exact ⟨ts', longer, .absent (longer.afterSymbol? pending bare)⟩
  | quoted place text =>
    obtain ⟨place', more', rfl, later⟩ := longer.of_cons
    obtain ⟨i', rest', rfl, last⟩ := later.of_cons
    exact ⟨rest', last, .quoted place' text i' rest'⟩
  | number plain inner =>
    obtain ⟨place', more', rfl, later⟩ := longer.of_cons
    obtain ⟨rest', last, inner'⟩ := lasts_expression inner pending later
    have before := pending.of_suffix (suffix_of_expression inner)
    exact ⟨rest', last, .number (later.quotedText? before plain) inner'⟩

mutual
theorem lasts_modification {ts rest : List Lexeme} {ms : List (Modifier Float)}
    (h : Reads (modification ts) ms rest) (pending : Pending rest) :
    Lasts modification ts ms rest := by
  intro us ts' longer
  obtain ⟨place, more, hts, ending⟩ := reads_modification.mp h
  rw [hts] at longer
  obtain ⟨place', more', rfl, later⟩ := longer.of_cons
  rcases ending with ⟨stop, rfl, hms⟩ | ⟨filled, hms⟩
  · obtain ⟨stop', rest', rfl, last⟩ := later.of_cons
    exact ⟨rest', last, reads_modification.mpr ⟨place', _, rfl, .inl ⟨stop', rfl, hms⟩⟩⟩
  · have before := pending.of_suffix (suffix_of_modifiers hms)
    obtain ⟨rest', last, hms'⟩ := lasts_modifiers hms pending later
    exact ⟨rest', last, reads_modification.mpr
      ⟨place', more', rfl, .inr ⟨later.afterSymbol? before filled, hms'⟩⟩⟩
termination_by ts.length * 4
decreasing_by
  have long := congrArg List.length hts
  rw [List.length_cons] at long
  omega

theorem lasts_modifiers {ts rest : List Lexeme} {ms : List (Modifier Float)}
    (h : Reads (modifiers ts) ms rest) (pending : Pending rest) :
    Lasts modifiers ts ms rest := by
  intro us ts' longer
  obtain ⟨m, mid, hm, ending⟩ := reads_modifiers.mp h
  have short := hm.shorter
  rcases ending with ⟨place, rfl, hms⟩ | ⟨place, more, others, rfl, hothers, hms⟩
  · obtain ⟨mid', between, hm'⟩ := lasts_modifier hm pending.cons longer
    obtain ⟨place', rest', rfl, last⟩ := between.of_cons
    exact ⟨rest', last, reads_modifiers.mpr ⟨m, _, hm', .inl ⟨place', rfl, hms⟩⟩⟩
  · have before := pending.of_suffix (suffix_of_modifiers hothers)
    obtain ⟨mid', between, hm'⟩ := lasts_modifier hm before.cons longer
    obtain ⟨place', more', rfl, later⟩ := between.of_cons
    obtain ⟨rest', last, hothers'⟩ := lasts_modifiers hothers pending later
    exact ⟨rest', last, reads_modifiers.mpr
      ⟨m, _, hm', .inr ⟨place', more', others, rfl, hothers', hms⟩⟩⟩
termination_by ts.length * 4 + 2
decreasing_by all_goals (try simp only [List.length_cons] at short); omega

theorem lasts_modifier {ts rest : List Lexeme} {m : Option (Modifier Float)}
    (h : Reads (modifier ts) m rest) (pending : Pending rest) : Lasts modifier ts m rest := by
  intro us ts' longer
  obtain ⟨name, children, value, a, b, hname, hchildren, hvalue, hm⟩ := reads_modifier.mp h
  have valued := pending.of_suffix (suffix_of_modifierValue hvalue)
  have nested := valued.of_suffix (suffix_of_optionalModification hchildren)
  have named := nested.of_suffix (faithful_expectWord hname).behind
  have marked := named.of_suffix (optionalWord_rest "final" _)
  have behind := (optionalWord_rest "final" _).trans (optionalWord_rest "each" ts)
  have short := hname.shorter.trans_le behind.length_le
  obtain ⟨each, afterEach⟩ :=
    optionalWord_agree longer (marked.of_suffix (optionalWord_rest "each" ts)) "each"
  obtain ⟨-, afterFinal⟩ := optionalWord_agree afterEach marked "final"
  obtain ⟨a', afterName, hname'⟩ := lasts_expectWord hname afterFinal
  obtain ⟨b', afterChildren, hchildren'⟩ := lasts_optionalModification hchildren valued afterName
  obtain ⟨rest', last, hvalue'⟩ := lasts_modifierValue hvalue pending afterChildren
  refine ⟨rest', last, reads_modifier.mpr
    ⟨name, children, value, a', b', hname', hchildren', hvalue', ?_⟩⟩
  rw [each]
  exact hm
termination_by ts.length * 4 + 1

theorem lasts_optionalModification {ts rest : List Lexeme} {ms : List (Modifier Float)}
    (h : Reads (optionalModification ts) ms rest) (pending : Pending rest) :
    Lasts optionalModification ts ms rest := by
  intro us ts' longer
  rcases reads_optionalModification.mp h with ⟨bare, hms, rfl⟩ | h
  · exact ⟨ts', longer, reads_optionalModification.mpr
      (.inl ⟨longer.afterSymbol? pending bare, hms, rfl⟩)⟩
  · obtain ⟨rest', last, h'⟩ := lasts_modification h pending longer
    exact ⟨rest', last, reads_optionalModification.mpr (.inr h')⟩
termination_by ts.length * 4 + 1
end

/-! ## Declarations -/

theorem lasts_optionalSize {size : Option Nat} (h : Reads (optionalSize ts) size rest)
    (pending : Pending rest) : Lasts optionalSize ts size rest := by
  intro us ts' longer
  rcases reads_optionalSize.mp h with ⟨bare, hsize, rfl⟩ | ⟨place, more, k, rfl, hk, hsize⟩
  · exact ⟨ts', longer, reads_optionalSize.mpr
      (.inl ⟨longer.afterSymbol? pending bare, hsize, rfl⟩)⟩
  · obtain ⟨place', more', rfl, later⟩ := longer.of_cons
    obtain ⟨rest', last, hk'⟩ := lasts_bracketed hk later
    exact ⟨rest', last, reads_optionalSize.mpr (.inr ⟨place', more', k, rfl, hk', hsize⟩)⟩

theorem lasts_optionalBinding {binding : Option (Expr Float)}
    (h : Reads (optionalBinding ts) binding rest) (pending : Pending rest) :
    Lasts optionalBinding ts binding rest := by
  intro us ts' longer
  rcases reads_optionalBinding.mp h with ⟨bare, hnone, rfl⟩ | ⟨place, more, e, rfl, he, hsome⟩
  · exact ⟨ts', longer, reads_optionalBinding.mpr
      (.inl ⟨longer.afterSymbol? pending bare, hnone, rfl⟩)⟩
  · obtain ⟨place', more', rfl, later⟩ := longer.of_cons
    obtain ⟨rest', last, he'⟩ := lasts_expression he pending later
    exact ⟨rest', last, reads_optionalBinding.mpr (.inr ⟨place', more', e, rfl, he', hsome⟩)⟩

theorem lasts_component {c : Component Float} (h : Reads (component ts) c rest) :
    Lasts component ts c rest := by
  intro us ts' longer
  obtain ⟨a, b, d, e, f, stop, hchange, htype, hname, hsize, hms, hbinding, hdescription, hend⟩ :=
    reads_component.mp h
  have bound : Pending f := by
    have closed := pending_semicolon stop rest
    rw [← hend] at closed
    exact closed.of_suffix (optionalDescription_rest f)
  have modified := bound.of_suffix (suffix_of_optionalBinding hbinding)
  have sized := modified.of_suffix (suffix_of_optionalModification hms)
  have named := sized.of_suffix (suffix_of_optionalSize hsize)
  have typed := named.of_suffix (faithful_expectWord hname).behind
  have directed := (typed.of_suffix (suffix_of_path htype)).of_suffix (direction_rest _)
  obtain ⟨change, afterChange⟩ :=
    variability_agree longer (directed.of_suffix (variability_rest ts))
  obtain ⟨-, afterWay⟩ := direction_agree afterChange directed
  obtain ⟨a', afterType, htype'⟩ := lasts_path htype typed afterWay
  obtain ⟨b', afterName, hname'⟩ := lasts_expectWord hname afterType
  obtain ⟨d', afterSize, hsize'⟩ := lasts_optionalSize hsize sized afterName
  obtain ⟨e', afterModifiers, hms'⟩ := lasts_optionalModification hms modified afterSize
  obtain ⟨f', afterBinding, hbinding'⟩ := lasts_optionalBinding hbinding bound afterModifiers
  obtain ⟨description, afterDescription⟩ := optionalDescription_agree afterBinding bound
  rw [hend] at afterDescription
  obtain ⟨stop', rest', hend', last⟩ := afterDescription.of_cons
  refine ⟨rest', last, reads_component.mpr ⟨a', b', d', e', f', stop', ?_, htype', hname', hsize',
    hms', hbinding', ?_, hend'⟩⟩
  · rw [hchange, change]
  · rw [hdescription, description]

theorem lasts_extendsClause {clause : Extends Float} (h : Reads (extendsClause ts) clause rest) :
    Lasts extendsClause ts clause rest := by
  intro us ts' longer
  obtain ⟨a, stop, hbase, hms⟩ := reads_extendsClause.mp h
  have closed := pending_semicolon stop rest
  have before := closed.of_suffix (suffix_of_optionalModification hms)
  obtain ⟨a', afterBase, hbase'⟩ := lasts_path hbase before longer
  obtain ⟨mid', afterModifiers, hms'⟩ := lasts_optionalModification hms closed afterBase
  obtain ⟨stop', rest', rfl, last⟩ := afterModifiers.of_cons
  exact ⟨rest', last, reads_extendsClause.mpr ⟨a', stop', hbase', hms'⟩⟩

theorem lasts_equation {e : Equation Float} (h : Reads (equation ts) e rest) :
    Lasts equation ts e rest := by
  intro us ts' longer
  obtain ⟨sign, more, stop, hlhs, hrhs⟩ := reads_equation.mp h
  have closed := pending_semicolon stop rest
  have before := closed.of_suffix (suffix_of_expression hrhs)
  obtain ⟨mid', between, hlhs'⟩ := lasts_expression hlhs before.cons longer
  obtain ⟨sign', more', rfl, later⟩ := between.of_cons
  obtain ⟨end', after, hrhs'⟩ := lasts_expression hrhs closed later
  obtain ⟨stop', rest', rfl, last⟩ := after.of_cons
  exact ⟨rest', last, reads_equation.mpr ⟨sign', more', stop', hlhs', hrhs'⟩⟩

theorem lasts_equations {ts rest : List Lexeme} {es : List (Equation Float)}
    (h : Reads (equations ts) es rest) (pending : Pending rest) : Lasts equations ts es rest := by
  intro us ts' longer
  have before := pending.of_suffix (suffix_of_equations h)
  rcases reads_equations.mp h with ⟨ends, hes, rfl⟩ | ⟨goes, e, mid, others, he, hothers, hes⟩
  · refine ⟨ts', longer, reads_equations.mpr (.inl ⟨?_, hes, rfl⟩)⟩
    rw [longer.endsSection before]
    exact ends
  · have short := he.shorter
    obtain ⟨mid', between, he'⟩ := lasts_equation he longer
    obtain ⟨rest', last, hothers'⟩ := lasts_equations hothers pending between
    refine ⟨rest', last, reads_equations.mpr (.inr ⟨?_, e, mid', others, he', hothers', hes⟩)⟩
    rw [longer.endsSection before]
    exact goes
termination_by ts.length

/-! ## Classes -/

theorem lasts_classKind {kind : ClassKind} (h : Reads (classKind ts) kind rest) :
    Lasts classKind ts kind rest := by
  intro us ts' longer
  obtain ⟨w, place, rfl, hkind⟩ := reads_classKind.mp h
  obtain ⟨place', rest', rfl, last⟩ := longer.of_cons
  exact ⟨rest', last, reads_classKind.mpr ⟨w, place', rfl, hkind⟩⟩

theorem lasts_closing {name : String} {u : Unit} (h : Reads (closing name ts) u rest) :
    Lasts (closing name) ts u rest := by
  intro us ts' longer
  obtain ⟨place, stop, rfl⟩ := reads_closing.mp h
  obtain ⟨place', more', rfl, later⟩ := longer.of_cons
  obtain ⟨stop', rest', rfl, last⟩ := later.of_cons
  exact ⟨rest', last, reads_closing.mpr ⟨place', stop', rfl⟩⟩

theorem pending_of_closing {name : String} {u : Unit} (h : Reads (closing name ts) u rest) :
    Pending ts := by
  obtain ⟨place, stop, rfl⟩ := reads_closing.mp h
  exact (pending_semicolon stop rest).cons

mutual
theorem lasts_classDecl {ts rest : List Lexeme} {c : ClassDecl Float}
    (h : Reads (classDecl ts) c rest) : Lasts classDecl ts c rest := by
  intro us ts' longer
  obtain ⟨a, b, d, hpartial, hkind, hname, hdescription, hbody, hclosing⟩ := reads_classDecl.mp h
  have closed := pending_of_closing hclosing
  have described := closed.of_suffix (faithful_body hbody).behind
  have named := described.of_suffix (optionalDescription_rest b)
  have introduced := named.of_suffix (faithful_expectWord hname).behind
  have marked := introduced.of_suffix (suffix_of_classKind hkind)
  have shortest := (optionalDescription_rest b).length_le
  have shorter := hname.shorter
  have short := hkind.shorter.trans_le (optionalWord_rest "partial" ts).length_le
  obtain ⟨isPartial, afterPartial⟩ :=
    optionalWord_agree longer (marked.of_suffix (optionalWord_rest "partial" ts)) "partial"
  obtain ⟨a', afterKind, hkind'⟩ := lasts_classKind hkind afterPartial
  obtain ⟨b', afterName, hname'⟩ := lasts_expectWord hname afterKind
  obtain ⟨description, afterDescription⟩ := optionalDescription_agree afterName named
  obtain ⟨d', afterBody, hbody'⟩ := lasts_body hbody closed afterDescription
  obtain ⟨rest', last, hclosing'⟩ := lasts_closing hclosing afterBody
  refine ⟨rest', last, reads_classDecl.mpr
    ⟨a', b', d', ?_, hkind', hname', ?_, hbody', hclosing'⟩⟩
  · rw [hpartial, isPartial]
  · rw [hdescription, description]
termination_by ts.length * 4 + 1

theorem lasts_body {ts rest : List Lexeme} {name : String} {b : Body}
    (h : Reads (body name ts) b rest) (pending : Pending rest) :
    Lasts (body name) ts b rest := by
  intro us ts' longer
  have before := pending.of_suffix (faithful_body h).behind
  have form := reads_body.mp h
  simp only [reads_body]
  generalize hts : ts = all at form
  have long := congrArg List.length hts
  cases form with
  | ended place =>
    rw [hts] at longer
    obtain ⟨place', rest', rfl, last⟩ := longer.of_cons
    exact ⟨rest', last, .ended place' rest'⟩
  | visibility word later =>
    rw [hts] at longer
    obtain ⟨place', more', rfl, afterWord⟩ := longer.of_cons
    obtain ⟨rest', last, later'⟩ := lasts_body later pending afterWord
    exact ⟨rest', last, .visibility word later'⟩
  | equations inner later =>
    rw [hts] at longer
    have short := inner.shorter
    have between := pending.of_suffix (faithful_body later).behind
    obtain ⟨place', more', rfl, afterWord⟩ := longer.of_cons
    obtain ⟨mid', afterEquations, inner'⟩ := lasts_equations inner between afterWord
    obtain ⟨rest', last, later'⟩ := lasts_body later pending afterEquations
    exact ⟨rest', last, .equations inner' later'⟩
  | element goes bare other first later =>
    subst hts
    have short := first.shorter
    have between := pending.of_suffix (faithful_body later).behind
    obtain ⟨mid', afterElement, first'⟩ := lasts_element first between longer
    obtain ⟨rest', last, later'⟩ := lasts_body later pending afterElement
    exact ⟨rest', last, .element (longer.afterWord? before goes) (longer.visibility? before bare)
      (longer.afterWord? before other) first' later'⟩
termination_by ts.length * 4 + 3
decreasing_by all_goals (try simp only [List.length_cons] at long); omega

theorem lasts_element {ts rest : List Lexeme} {e : Element Float}
    (h : Reads (element ts) e rest) (pending : Pending rest) : Lasts element ts e rest := by
  intro us ts' longer
  have before := pending.of_suffix (faithful_element h).behind
  simp only [reads_element]
  cases reads_element.mp h with
  | inherit inner =>
    obtain ⟨place', more', rfl, later⟩ := longer.of_cons
    obtain ⟨rest', last, inner'⟩ := lasts_extendsClause inner later
    exact ⟨rest', last, .inherit inner'⟩
  | nested other starts inner =>
    obtain ⟨rest', last, inner'⟩ := lasts_classDecl inner longer
    rw [← longer.startsClass before] at starts
    exact ⟨rest', last, .nested (longer.afterWord? before other) starts inner'⟩
  | component other plain inner =>
    obtain ⟨rest', last, inner'⟩ := lasts_component inner longer
    rw [← longer.startsClass before] at plain
    exact ⟨rest', last, .component (longer.afterWord? before other) plain inner'⟩
termination_by ts.length * 4 + 2
end

/-! ## Source texts -/

/-- What classes are read from a text's lexemes does not change with what is put behind them. -/
theorem exists_classes_behind {ts ts' : List Lexeme} {us : List Token}
    {cs : List (ClassDecl Float)} (h : classes ts = .ok cs) (longer : Prolongs us ts ts') :
    ∃ rest', Prolongs us [] rest' ∧
      ∀ {ds}, classes rest' = .ok ds → classes ts' = .ok (cs ++ ds) := by
  rcases classes_eq_ok.mp h with ⟨rfl, rfl⟩ | ⟨c, mid, more, hc, hmore, rfl⟩
  · exact ⟨ts', longer, fun hds => hds⟩
  · have short := hc.shorter
    obtain ⟨mid', between, hc'⟩ := lasts_classDecl hc longer
    obtain ⟨rest', last, others⟩ := exists_classes_behind hmore between
    exact ⟨rest', last, fun hds => classes_eq_ok.mpr (.inr ⟨c, mid', _, hc', others hds, rfl⟩)⟩
termination_by ts.length

/-- Classes are read from tokens alone, wherever the lexemes stand. -/
theorem classes_of_tokens {cs : List (ClassDecl Float)} (h : classes ts = .ok cs)
    (same : ts'.map (·.token) = ts.map (·.token)) : classes ts' = .ok cs := by
  have longer : Prolongs [] ts ts' := by
    unfold Prolongs
    rw [same, List.append_nil]
  obtain ⟨rest', last, others⟩ := exists_classes_behind h longer
  have none : rest' = [] := List.map_eq_nil_iff.mp last
  subst none
  have whole := others (classes_eq_ok.mpr (.inl ⟨rfl, rfl⟩))
  rw [List.append_nil] at whole
  exact whole

theorem lasts_withinClause {u : Unit} (h : Reads (withinClause ts) u rest) :
    Lasts withinClause ts u rest := by
  intro us ts' longer
  rcases reads_withinClause.mp h with ⟨place, rfl⟩ | ⟨bare, name, stop, hname⟩
  · obtain ⟨place', rest', rfl, last⟩ := longer.of_cons
    exact ⟨rest', last, reads_withinClause.mpr (.inl ⟨place', rfl⟩)⟩
  · have closed := pending_semicolon stop rest
    have before := closed.of_suffix (suffix_of_path hname)
    obtain ⟨mid', between, hname'⟩ := lasts_path hname closed longer
    obtain ⟨stop', rest', rfl, last⟩ := between.of_cons
    exact ⟨rest', last, reads_withinClause.mpr
      (.inr ⟨longer.afterSymbol? before bare, name, stop', hname'⟩)⟩

end Acausal

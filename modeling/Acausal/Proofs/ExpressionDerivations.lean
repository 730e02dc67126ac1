-- The grammar of expressions by its rules. A derivation lays out tokens and builds the expression
-- that they stand for, apart from any reader and from what follows. Whatever is read has a
-- derivation from exactly the lexemes that the reading passes over.
import Acausal.Proofs.Counts
import Acausal.Proofs.ExpressionGrammar

namespace Acausal

/-! ## The grammar -/

/-- A number that may stand in brackets, and the subscript that it is: a positive whole number, or
the largest count in place of a larger one. -/
def IsSubscript (x : Float) (k : Nat) : Prop :=
  x.isFinite = true ∧ ∃ w : Nat, 1 ≤ w ∧ place x = w ∧ k = min w largestCount

/-- Words with dots between them, and the name that they make up. -/
inductive DerivesPath (first : String) : List Token → String → Prop
  | word : DerivesPath first [.word first] first
  | dotted {ts name} (path : DerivesPath first ts name) (w : String) :
    DerivesPath first (ts ++ [.symbol '.', .word w]) (name ++ "." ++ w)

/-- A path, with a subscript in brackets or without. -/
inductive DerivesReference (first : String) : List Token → Ref → Prop
  | whole {ts name} (path : DerivesPath first ts name) : DerivesReference first ts ⟨name, none⟩
  | element {ts name x k} (path : DerivesPath first ts name) (subscript : IsSubscript x k) :
    DerivesReference first (ts ++ [.symbol '[', .number x, .symbol ']']) ⟨name, some k⟩

/-- The rules of the grammar, from the loosest to the tightest. -/
inductive Rule where
  | sum
  | product
  | signed
  | power
  | operand

/-- The symbols between the terms of a sum. -/
def sumSymbols : List (Char × Operator) := [('+', .add), ('-', .sub)]

/-- The symbols between the factors of a product. -/
def productSymbols : List (Char × Operator) := [('*', .mul), ('/', .div)]

/-- Tokens derived by a rule, and the expression that they stand for. -/
inductive Derives : Rule → List Token → Expr Float → Prop
  | term {ts e} (factors : Derives .product ts e) : Derives .sum ts e
  | sum {us vs a b c op} (joins : (c, op) ∈ sumSymbols) (terms : Derives .sum us a)
    (term : Derives .product vs b) : Derives .sum (us ++ .symbol c :: vs) (.binary a op b)
  | factor {ts e} (factor : Derives .signed ts e) : Derives .product ts e
  | product {us vs a b c op} (joins : (c, op) ∈ productSymbols) (factors : Derives .product us a)
    (factor : Derives .signed vs b) : Derives .product (us ++ .symbol c :: vs) (.binary a op b)
  | minusLiteral {ts x} (literal : Derives .signed ts (.number x)) :
    Derives .signed (.symbol '-' :: ts) (.number (-x))
  | minus {ts e} (operand : Derives .signed ts e) (compound : ∀ x, e ≠ .number x) :
    Derives .signed (.symbol '-' :: ts) (.neg e)
  | plus {ts e} (operand : Derives .signed ts e) : Derives .signed (.symbol '+' :: ts) e
  | bare {ts e} (power : Derives .power ts e) : Derives .signed ts e
  | base {ts e} (operand : Derives .operand ts e) : Derives .power ts e
  | raised {us vs a b} (base : Derives .operand us a) (exponent : Derives .signed vs b) :
    Derives .power (us ++ .symbol '^' :: vs) (.binary a .pow b)
  | number (x) : Derives .operand [.number x] (.number x)
  | enclosed {ts e} (inner : Derives .sum ts e) :
    Derives .operand (.symbol '(' :: (ts ++ [.symbol ')'])) e
  | time : Derives .operand [.word "time"] .time
  | yes : Derives .operand [.word "true"] (.number 1.0)
  | no : Derives .operand [.word "false"] (.number 0.0)
  | derivative {first ts r} (component : DerivesReference first ts r) :
    Derives .operand (.word "der" :: .symbol '(' :: (ts ++ [.symbol ')'])) (.der r)
  | reference {first ts r} (own : first ∉ operandKeywords)
    (component : DerivesReference first ts r) : Derives .operand ts (.ref r)
  | call {first ts name} (own : first ∉ operandKeywords) (function : DerivesPath first ts name)
    {args : List (List Token × Expr Float)} (inner : ∀ p ∈ args, Derives .sum p.1 p.2) :
    Derives .operand
      (ts ++ .symbol '(' :: ([.symbol ','].intercalate (args.map Prod.fst) ++ [.symbol ')']))
      (.call name (args.map Prod.snd))

variable {us vs : List Token} {a b e : Expr Float}

theorem mem_sumSymbols {c : Char} {op : Operator} :
    (c, op) ∈ sumSymbols ↔ sumOperator? c = some op := by
  unfold sumSymbols sumOperator?
  split <;> simp_all [eq_comm]

theorem mem_productSymbols {c : Char} {op : Operator} :
    (c, op) ∈ productSymbols ↔ productOperator? c = some op := by
  unfold productSymbols productOperator?
  split <;> simp_all [eq_comm]

theorem Derives.negated (h : Derives .signed us a) :
    Derives .signed (.symbol '-' :: us) (negated a) := by
  cases a with
  | number x => exact .minusLiteral h
  | _ => exact .minus h nofun

/-! ## Lexemes passed over -/

variable {ts mid rest : List Lexeme}

/-- Lexemes are passed over whose tokens are derived. -/
def Passes (derived : List Token → Prop) (ts rest : List Lexeme) : Prop :=
  ∃ used, ts = used ++ rest ∧ derived (used.map (·.token))

theorem Passes.nil {derived : List Token → Prop} (h : derived []) : Passes derived rest rest :=
  ⟨[], rfl, h⟩

theorem Passes.cons {derived : List Token → Prop} {t : Token} {place : Position}
    (h : Passes (fun vs => derived (t :: vs)) ts rest) :
    Passes derived (⟨t, place⟩ :: ts) rest := by
  obtain ⟨used, rfl, later⟩ := h
  exact ⟨⟨t, place⟩ :: used, rfl, later⟩

theorem Passes.imp {derived whole : List Token → Prop} (h : Passes derived ts rest)
    (step : ∀ us, derived us → whole us) : Passes whole ts rest := by
  obtain ⟨used, rfl, held⟩ := h
  exact ⟨used, rfl, step _ held⟩

/-- What is passed over first, and what is passed over behind it. -/
theorem Passes.bind {derived whole : List Token → Prop} (first : Passes derived ts mid)
    (later : ∀ us, derived us → Passes (fun vs => whole (us ++ vs)) mid rest) :
    Passes whole ts rest := by
  obtain ⟨used, rfl, front⟩ := first
  obtain ⟨more, rfl, all⟩ := later _ front
  refine ⟨used ++ more, by rw [List.append_assoc], ?_⟩
  rwa [List.map_append]

theorem Passes.behind {derived : List Token → Prop} (h : Passes derived ts rest) : rest <:+ ts := by
  obtain ⟨used, rfl, -⟩ := h
  exact List.suffix_append used rest

/-! ## Names and components -/

theorem passes_pathTail {first name : String} (path : DerivesPath first us name)
    (ts : List Lexeme) :
    Passes (fun vs => DerivesPath first (us ++ vs) (pathTail name ts).value) ts
      (pathTail name ts).rest := by
  fun_induction pathTail name ts generalizing us with
  | case1 name i w j rest ih =>
    refine .cons (.cons ((ih (path.dotted w)).imp fun vs whole => ?_))
    rwa [List.append_assoc] at whole
  | case2 name ts => exact .nil (by rwa [List.append_nil])

theorem passes_path {name : String} (h : Reads (path ts) name rest) :
    ∃ w place, ⟨.word w, place⟩ ∈ ts.head? ∧ Passes (DerivesPath w · name) ts rest := by
  obtain ⟨w, place, more, rfl, rfl, rfl⟩ := reads_path.mp h
  exact ⟨w, place, rfl, .cons (passes_pathTail .word more)⟩

theorem passes_reference {r : Ref} (h : Reads (reference ts) r rest) :
    ∃ w place, ⟨.word w, place⟩ ∈ ts.head? ∧ Passes (DerivesReference w · r) ts rest := by
  obtain ⟨mid, hname, ending⟩ := reads_reference.mp h
  obtain ⟨w, place, head, path⟩ := passes_path hname
  refine ⟨w, place, head, ?_⟩
  obtain ⟨name, index⟩ := r
  rcases ending with ⟨rfl, -, rfl⟩ | ⟨q, more, k, rfl, hk, rfl⟩
  · exact path.imp fun us => .whole
  · obtain ⟨x, i, j, rfl, hx⟩ := reads_bracketed.mp hk
    refine path.bind fun us path => .cons (.cons (.cons (.nil ?_)))
    exact .element path (count?_eq_some_iff.mp hx)

theorem passes_derivative (h : Reads (derivative ts) e rest) :
    Passes (fun us => Derives .operand (.word "der" :: us) e) ts rest := by
  obtain ⟨p, more, r, q, rfl, hr, rfl⟩ := reads_derivative.mp h
  obtain ⟨w, place, -, component⟩ := passes_reference hr
  exact .cons (component.bind fun us component => .cons (.nil (.derivative component)))

/-! ## Expressions -/

/-- Tokens of arguments up to the closing parenthesis. -/
def DerivesArguments (us : List Token) (args : List (Expr Float)) : Prop :=
  ∃ parts : List (List Token × Expr Float), (∀ p ∈ parts, Derives .sum p.1 p.2) ∧
    us = [.symbol ','].intercalate (parts.map Prod.fst) ++ [.symbol ')'] ∧
    args = parts.map Prod.snd

theorem DerivesArguments.single (h : Derives .sum us a) :
    DerivesArguments (us ++ [.symbol ')']) [a] :=
  ⟨[(us, a)], by simpa using h, by simp, rfl⟩

theorem DerivesArguments.cons {args : List (Expr Float)} (h : Derives .sum us a)
    (later : DerivesArguments vs args) (more : args ≠ []) :
    DerivesArguments (us ++ .symbol ',' :: vs) (a :: args) := by
  obtain ⟨parts, sums, rfl, rfl⟩ := later
  cases parts with
  | nil => exact absurd rfl more
  | cons part parts =>
    refine ⟨(us, a) :: part :: parts, ?_, ?_, rfl⟩
    · exact List.forall_mem_cons.mpr ⟨h, sums⟩
    · simp [List.intercalate_cons_cons]

theorem DerivesArguments.call {args : List (Expr Float)} (inner : DerivesArguments vs args)
    {first name : String} (own : first ∉ operandKeywords) (function : DerivesPath first us name) :
    Derives .operand (us ++ .symbol '(' :: vs) (.call name args) := by
  obtain ⟨parts, sums, rfl, rfl⟩ := inner
  exact .call own function sums

/-- An operand is derived when the expressions and arguments inside it are. -/
theorem OperandForm.passes (h : OperandForm ts e rest)
    (expressions : ∀ {more left : List Lexeme} {v : Expr Float}, more.length < ts.length →
      Reads (expression more) v left → Passes (Derives .sum · v) more left)
    (arguments : ∀ {more left : List Lexeme} {args : List (Expr Float)},
      more.length < ts.length → Reads (callArguments more) args left →
        Passes (DerivesArguments · args) more left) :
    Passes (Derives .operand · e) ts rest := by
  cases h with
  | number x => exact .cons (.nil (.number x))
  | enclosed inner =>
    have whole := expressions (Nat.lt_succ_self _) inner
    exact .cons (whole.bind fun us inner => .cons (.nil (.enclosed inner)))
  | time => exact .cons (.nil .time)
  | yes => exact .cons (.nil .yes)
  | no => exact .cons (.nil .no)
  | derivative inner => exact .cons (passes_derivative inner)
  | reference own inner =>
    obtain ⟨w, place, head, component⟩ := passes_reference inner
    cases head
    exact component.imp fun us => .reference own
  | call own function inner =>
    have args := arguments (Nat.lt_of_succ_lt function.shorter) inner
    obtain ⟨mid, hname, ending⟩ := reads_reference.mp function
    obtain ⟨w, place, head, path⟩ := passes_path hname
    cases head
    rcases ending with ⟨-, -, rfl⟩ | ⟨_, _, _, _, _, indexed⟩
    · exact path.bind fun us path => .cons (args.imp fun vs inner => inner.call own path)
    · cases indexed

mutual
theorem passes_expression {ts rest : List Lexeme} {v : Expr Float}
    (h : Reads (expression ts) v rest) : Passes (Derives .sum · v) ts rest := by
  obtain ⟨a, mid, ha, hv⟩ := reads_expression.mp h
  refine (passes_product ha).bind fun us factors => ?_
  exact (passes_sumTail hv).imp fun vs joined => joined us (.term factors)
termination_by ts.length * 8 + 5
decreasing_by all_goals (try have := ha.shorter); omega

theorem passes_sumTail {ts rest : List Lexeme} {left v : Expr Float}
    (h : Reads (sumTail left ts) v rest) :
    Passes (fun vs => ∀ us, Derives .sum us left → Derives .sum (us ++ vs) v) ts rest := by
  rcases reads_sumTail.mp h with ⟨-, rfl, rfl⟩ | ⟨c, place, more, op, a, mid, hts, hc, ha, hv⟩
  · exact .nil fun us terms => by rwa [List.append_nil]
  · rw [hts]
    refine .cons ((passes_product ha).bind fun vs term => ?_)
    refine (passes_sumTail hv).imp fun ws joined us terms => ?_
    have whole := joined _ (.sum (mem_sumSymbols.mpr hc) terms term)
    rwa [List.append_assoc] at whole
termination_by ts.length * 8 + 7
decreasing_by
  all_goals
    have short := ha.shorter
    have long := congrArg List.length hts
    rw [List.length_cons] at long
    omega

theorem passes_product {ts rest : List Lexeme} {v : Expr Float}
    (h : Reads (product ts) v rest) : Passes (Derives .product · v) ts rest := by
  obtain ⟨a, mid, ha, hv⟩ := reads_product.mp h
  refine (passes_signed ha).bind fun us factor => ?_
  exact (passes_productTail hv).imp fun vs joined => joined us (.factor factor)
termination_by ts.length * 8 + 4
decreasing_by all_goals (try have := ha.shorter); omega

theorem passes_productTail {ts rest : List Lexeme} {left v : Expr Float}
    (h : Reads (productTail left ts) v rest) :
    Passes (fun vs => ∀ us, Derives .product us left → Derives .product (us ++ vs) v) ts rest := by
  rcases reads_productTail.mp h with ⟨-, rfl, rfl⟩ | ⟨c, place, more, op, a, mid, hts, hc, ha, hv⟩
  · exact .nil fun us factors => by rwa [List.append_nil]
  · rw [hts]
    refine .cons ((passes_signed ha).bind fun vs factor => ?_)
    refine (passes_productTail hv).imp fun ws joined us factors => ?_
    have whole := joined _ (.product (mem_productSymbols.mpr hc) factors factor)
    rwa [List.append_assoc] at whole
termination_by ts.length * 8 + 7
decreasing_by
  all_goals
    have short := ha.shorter
    have long := congrArg List.length hts
    rw [List.length_cons] at long
    omega

theorem passes_signed {ts rest : List Lexeme} {v : Expr Float}
    (h : Reads (signed ts) v rest) : Passes (Derives .signed · v) ts rest := by
  rcases reads_signed.mp h with
    ⟨place, more, a, hts, ha, rfl⟩ | ⟨place, more, hts, ha⟩ | ⟨-, -, ha⟩
  · rw [hts]
    exact .cons ((passes_signed ha).imp fun us => .negated)
  · rw [hts]
    exact .cons ((passes_signed ha).imp fun us => .plus)
  · exact (passes_power ha).imp fun us => .bare
termination_by ts.length * 8 + 3
decreasing_by
  all_goals
    try
      have long := congrArg List.length hts
      rw [List.length_cons] at long
    omega

theorem passes_power {ts rest : List Lexeme} {v : Expr Float}
    (h : Reads (power ts) v rest) : Passes (Derives .power · v) ts rest := by
  obtain ⟨a, mid, ha, ending⟩ := reads_power.mp h
  rcases ending with ⟨-, rfl, rfl⟩ | ⟨place, more, b, rfl, hb, rfl⟩
  · exact (passes_operand ha).imp fun us => .base
  · refine (passes_operand ha).bind fun us base => .cons ?_
    exact (passes_signed hb).imp fun vs => .raised base
termination_by ts.length * 8 + 2
decreasing_by all_goals (try have := ha.shorter; simp only [List.length_cons] at this); omega

theorem passes_operand {ts rest : List Lexeme} {v : Expr Float}
    (h : Reads (operand ts) v rest) : Passes (Derives .operand · v) ts rest :=
  (reads_operand.mp h).passes (fun _ h => passes_expression h) fun _ h => passes_callArguments h
termination_by ts.length * 8 + 1
decreasing_by all_goals omega

theorem passes_callArguments {ts rest : List Lexeme} {args : List (Expr Float)}
    (h : Reads (callArguments ts) args rest) : Passes (DerivesArguments · args) ts rest := by
  rcases reads_callArguments.mp h with ⟨place, rfl, rfl⟩ | ⟨-, h⟩
  · exact .cons (.nil ⟨[], nofun, rfl, rfl⟩)
  · exact (passes_arguments h).1
termination_by ts.length * 8 + 7

theorem passes_arguments {ts rest : List Lexeme} {args : List (Expr Float)}
    (h : Reads (arguments ts) args rest) :
    Passes (DerivesArguments · args) ts rest ∧ args ≠ [] := by
  obtain ⟨a, mid, ha, ending⟩ := reads_arguments.mp h
  rcases ending with ⟨place, rfl, rfl⟩ | ⟨place, more, as, rfl, has, rfl⟩
  · exact ⟨(passes_expression ha).bind fun us arg => .cons (.nil (.single arg)), nofun⟩
  · obtain ⟨later, some⟩ := passes_arguments has
    refine ⟨(passes_expression ha).bind fun us arg => .cons ?_, nofun⟩
    exact later.imp fun vs args => .cons arg args some
termination_by ts.length * 8 + 6
decreasing_by all_goals (try have := ha.shorter; simp only [List.length_cons] at this); omega
end

end Acausal

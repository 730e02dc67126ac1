-- Tokens that are read as a whole. Each level of the grammar reads its tokens to their end when
-- what follows pulls less at an operand than the level does, and what joins such tokens is read as
-- a whole again.
import Acausal.Proofs.ParsedExpressions

namespace Acausal

/-! ## What follows an operand -/

/-- How strongly a token pulls at the operand in front of it. -/
def Token.pull : Token → Nat
  | .quoted _ => 0
  | .symbol ')' => 0
  | .symbol ',' => 0
  | .symbol ';' => 0
  | .symbol '=' => 0
  | .symbol '+' => 1
  | .symbol '-' => 1
  | .symbol '*' => 2
  | .symbol '/' => 2
  | .symbol '^' => 4
  | _ => 5

/-- How strongly some lexemes pull at the operand in front of them. -/
def pull : List Lexeme → Nat
  | [] => 0
  | lexeme :: _ => lexeme.token.pull

variable {ls tail rest ts : List Lexeme}

@[simp]
theorem pull_nil : pull [] = 0 := rfl

@[simp]
theorem pull_cons (lexeme : Lexeme) (more : List Lexeme) :
    pull (lexeme :: more) = lexeme.token.pull := rfl

theorem pull_of_sumOperator {c : Char} {op : Operator} (h : sumOperator? c = some op) :
    (Token.symbol c).pull = 1 := by
  unfold sumOperator? at h
  split at h
  · rfl
  · rfl
  · contradiction

theorem pull_of_productOperator {c : Char} {op : Operator} (h : productOperator? c = some op) :
    (Token.symbol c).pull = 2 := by
  unfold productOperator? at h
  split at h
  · rfl
  · rfl
  · contradiction

/-- An operator stands in front of lexemes only if they pull as strongly as it does. -/
theorem operator?_of_pull {choice : Char → Option Operator} {k : Nat}
    (pulls : ∀ c op, choice c = some op → (Token.symbol c).pull = k) (h : pull tail < k) :
    operator? choice tail = none := by
  cases ho : operator? choice tail with
  | none => rfl
  | some p =>
    obtain ⟨c, place, htail, hc⟩ := of_operator?_eq_some ho
    rw [htail, pull_cons, pulls c p.value hc] at h
    exact absurd h (Nat.lt_irrefl k)

theorem afterSymbol?_of_pull {c : Char} (h : pull tail < (Token.symbol c).pull) :
    afterSymbol? c tail = none := by
  cases hs : afterSymbol? c tail with
  | none => rfl
  | some p =>
    obtain ⟨place, htail⟩ := of_afterSymbol?_eq_some hs
    rw [htail] at h
    exact absurd h (Nat.lt_irrefl _)

theorem exists_of_tokens_cons {t : Token} {ts : List Token} (h : ls.map (·.token) = t :: ts) :
    ∃ place more, ls = ⟨t, place⟩ :: more ∧ more.map (·.token) = ts := by
  cases ls with
  | nil => cases h
  | cons lexeme more =>
    obtain ⟨rfl, hmore⟩ := List.cons.inj h
    exact ⟨lexeme.position, more, rfl, hmore⟩

theorem exists_of_tokens_single {t : Token} (h : ls.map (·.token) = [t]) :
    ∃ place, ls = [⟨t, place⟩] := by
  obtain ⟨place, more, rfl, hmore⟩ := exists_of_tokens_cons h
  rw [List.map_eq_nil_iff] at hmore
  exact ⟨place, by rw [hmore]⟩

theorem exists_of_tokens_append {front back : List Token}
    (h : ls.map (·.token) = front ++ back) :
    ∃ before behind, ls = before ++ behind ∧ before.map (·.token) = front ∧
      behind.map (·.token) = back :=
  List.map_eq_append_iff.mp h

/-! ## Levels of the grammar -/

variable {a b : Expr Float} {us vs : List Token}

/-- Tokens that are read as an operand when nothing follows that belongs to it. -/
structure IsOperand (a : Expr Float) (ts : List Token) : Prop where
  reads : ∀ {ls tail : List Lexeme}, ls.map (·.token) = ts → pull tail < 5 →
    Reads (operand (ls ++ tail)) a tail
  bare : ∃ t more, ts = t :: more ∧ t ≠ .symbol '-' ∧ t ≠ .symbol '+'

/-- Tokens that are read as a power without a sign. -/
structure IsPower (a : Expr Float) (ts : List Token) : Prop where
  reads : ∀ {ls tail : List Lexeme}, ls.map (·.token) = ts → pull tail < 4 →
    Reads (power (ls ++ tail)) a tail
  bare : ∃ t more, ts = t :: more ∧ t ≠ .symbol '-' ∧ t ≠ .symbol '+'

/-- Tokens that are read as a whole where a sign may stand. -/
def IsSigned (a : Expr Float) (ts : List Token) : Prop :=
  ∀ ⦃ls tail⦄, ls.map Lexeme.token = ts → pull tail < 4 → Reads (signed (ls ++ tail)) a tail

/-- Tokens that are read as the first factors of a product. -/
def IsProduct (a : Expr Float) (ts : List Token) : Prop :=
  ∀ ⦃ls tail v rest⦄, ls.map Lexeme.token = ts → pull tail < 4 →
    Reads (productTail a tail) v rest → Reads (product (ls ++ tail)) v rest

/-- Tokens that are read as the first terms of a sum. -/
def IsSum (a : Expr Float) (ts : List Token) : Prop :=
  ∀ ⦃ls tail v rest⦄, ls.map Lexeme.token = ts → pull tail < 2 →
    Reads (sumTail a tail) v rest → Reads (expression (ls ++ tail)) v rest

theorem IsOperand.isPower (h : IsOperand a us) : IsPower a us := by
  constructor
  · intro ls tail hls next
    have alone := afterSymbol?_of_pull (c := '^') next
    exact reads_power.mpr ⟨a, tail, h.reads hls (by omega), .inl ⟨alone, rfl, rfl⟩⟩
  · exact h.bare

theorem IsPower.isSigned (h : IsPower a us) : IsSigned a us := by
  intro ls tail hls next
  obtain ⟨t, more, rfl, minus, plus⟩ := h.bare
  have whole := h.reads hls next
  obtain ⟨place, behind, rfl, -⟩ := exists_of_tokens_cons hls
  exact reads_signed.mpr (.inr (.inr
    ⟨afterSymbol?_of_token_ne minus place, afterSymbol?_of_token_ne plus place, whole⟩))

theorem IsSigned.isProduct (h : IsSigned a us) : IsProduct a us := by
  intro ls tail v rest hls next later
  exact reads_product.mpr ⟨a, tail, h hls next, later⟩

theorem reads_productTail_nil (next : pull tail < 2) : Reads (productTail a tail) a tail := by
  have none := operator?_of_pull (fun _ _ => pull_of_productOperator) next
  exact reads_productTail.mpr (.inl ⟨none, rfl, rfl⟩)

theorem reads_sumTail_nil (next : pull tail < 1) : Reads (sumTail a tail) a tail := by
  have none := operator?_of_pull (fun _ _ => pull_of_sumOperator) next
  exact reads_sumTail.mpr (.inl ⟨none, rfl, rfl⟩)

theorem IsProduct.isSum (h : IsProduct a us) : IsSum a us := by
  intro ls tail v rest hls next later
  have factors := h hls (by omega) (reads_productTail_nil next)
  exact reads_expression.mpr ⟨a, tail, factors, later⟩

theorem IsSum.reads (h : IsSum a us) (hls : ls.map (·.token) = us) (next : pull tail < 1) :
    Reads (expression (ls ++ tail)) a tail :=
  h hls (by omega) (reads_sumTail_nil next)

theorem IsSum.reads_all (h : IsSum a us) (hls : ls.map (·.token) = us) :
    Reads (expression ls) a [] := by
  have whole := h.reads hls (show pull [] < 1 from Nat.zero_lt_one)
  rwa [List.append_nil] at whole

/-! ## Operators -/

theorem IsSum.binary {c : Char} {op : Operator} (h : sumOperator? c = some op) (terms : IsSum a us)
    (term : IsProduct b vs) : IsSum (.binary a op b) (us ++ .symbol c :: vs) := by
  intro ls tail v rest hls next later
  obtain ⟨before, behind, rfl, hbefore, hbehind⟩ := exists_of_tokens_append hls
  obtain ⟨i, last, rfl, hlast⟩ := exists_of_tokens_cons hbehind
  have second := term hlast (by omega) (reads_productTail_nil next)
  have joint : pull (⟨.symbol c, i⟩ :: (last ++ tail)) < 2 := by
    simp [pull_of_sumOperator h]
  rw [List.append_assoc]
  exact terms hbefore joint (reads_sumTail.mpr (.inr ⟨c, i, _, op, b, tail, rfl, h, second, later⟩))

theorem IsProduct.binary {c : Char} {op : Operator} (h : productOperator? c = some op)
    (factors : IsProduct a us) (factor : IsSigned b vs) :
    IsProduct (.binary a op b) (us ++ .symbol c :: vs) := by
  intro ls tail v rest hls next later
  obtain ⟨before, behind, rfl, hbefore, hbehind⟩ := exists_of_tokens_append hls
  obtain ⟨i, last, rfl, hlast⟩ := exists_of_tokens_cons hbehind
  have second := factor hlast next
  have joint : pull (⟨.symbol c, i⟩ :: (last ++ tail)) < 4 := by
    simp [pull_of_productOperator h]
  rw [List.append_assoc]
  exact factors hbefore joint
    (reads_productTail.mpr (.inr ⟨c, i, _, op, b, tail, rfl, h, second, later⟩))

theorem IsSigned.negated (h : IsSigned a us) : IsSigned (negated a) (.symbol '-' :: us) := by
  intro ls tail hls next
  obtain ⟨i, more, rfl, hmore⟩ := exists_of_tokens_cons hls
  exact reads_signed.mpr (.inl ⟨i, more ++ tail, a, rfl, h hmore next, rfl⟩)

theorem IsSigned.plus (h : IsSigned a us) : IsSigned a (.symbol '+' :: us) := by
  intro ls tail hls next
  obtain ⟨i, more, rfl, hmore⟩ := exists_of_tokens_cons hls
  exact reads_signed.mpr (.inr (.inl ⟨i, more ++ tail, rfl, h hmore next⟩))

theorem IsOperand.raised (base : IsOperand a us) (exponent : IsSigned b vs) :
    IsPower (.binary a .pow b) (us ++ .symbol '^' :: vs) := by
  constructor
  · intro ls tail hls loose
    obtain ⟨before, behind, rfl, hbefore, hbehind⟩ := exists_of_tokens_append hls
    obtain ⟨i, last, rfl, hlast⟩ := exists_of_tokens_cons hbehind
    have next : pull (⟨.symbol '^', i⟩ :: (last ++ tail)) < 5 := by simp [Token.pull]
    have first := base.reads hbefore next
    rw [List.append_assoc]
    exact reads_power.mpr ⟨a, _, first, .inr ⟨i, last ++ tail, b, rfl, exponent hlast loose, rfl⟩⟩
  · obtain ⟨t, more, rfl, signs⟩ := base.bare
    exact ⟨t, _, rfl, signs⟩

/-! ## Names and components -/

/-- Tokens that are read as a dotted name with a given first segment. -/
structure IsPath (first name : String) (ts : List Token) : Prop where
  reads : ∀ {ls tail : List Lexeme}, ls.map (·.token) = ts → afterSymbol? '.' tail = none →
    Reads (path (ls ++ tail)) name tail
  head : ∃ more, ts = .word first :: more

/-- Tokens that are read as a component when nothing follows that belongs to it. -/
structure IsReference (first : String) (r : Ref) (ts : List Token) : Prop where
  reads : ∀ {ls tail : List Lexeme}, ls.map (·.token) = ts → pull tail < 5 →
    Reads (reference (ls ++ tail)) r tail
  head : ∃ more, ts = .word first :: more

theorem pathTail_stops (name : String) (stop : afterSymbol? '.' tail = none) :
    (pathTail name tail).value = name ∧ (pathTail name tail).rest = tail := by
  unfold pathTail
  split
  · simp at stop
  · exact ⟨rfl, rfl⟩

theorem pathTail_dotted (name : String) {more : List String}
    (hls : ls.map (·.token) = more.flatMap fun w => [.symbol '.', .word w])
    (stop : afterSymbol? '.' tail = none) :
    (pathTail name (ls ++ tail)).value = dottedFrom name more ∧
      (pathTail name (ls ++ tail)).rest = tail := by
  induction more generalizing name ls with
  | nil =>
    obtain rfl := List.map_eq_nil_iff.mp hls
    exact pathTail_stops name stop
  | cons w more ih =>
    obtain ⟨i, behind, rfl, hbehind⟩ := exists_of_tokens_cons hls
    obtain ⟨j, last, rfl, hlast⟩ := exists_of_tokens_cons hbehind
    rw [List.cons_append, List.cons_append, pathTail]
    exact ih _ hlast

theorem isPath_dottedFrom (first : String) (more : List String) :
    IsPath first (dottedFrom first more)
      (.word first :: more.flatMap fun w => [.symbol '.', .word w]) := by
  constructor
  · intro ls tail hls stop
    obtain ⟨place, behind, rfl, hbehind⟩ := exists_of_tokens_cons hls
    exact reads_path.mpr ⟨first, place, behind ++ tail, rfl, pathTail_dotted first hbehind stop⟩
  · exact ⟨_, rfl⟩

variable {first name : String} {r : Ref}

theorem IsPath.whole (h : IsPath first name us) : IsReference first ⟨name, none⟩ us := by
  constructor
  · intro ls tail hls next
    have stop := afterSymbol?_of_pull (c := '.') next
    have plain := afterSymbol?_of_pull (c := '[') next
    exact reads_reference.mpr ⟨tail, h.reads hls stop, .inl ⟨rfl, plain, rfl⟩⟩
  · exact h.head

theorem IsPath.element (h : IsPath first name us) {x : Float} {k : Nat} (hk : count? x = some k) :
    IsReference first ⟨name, some k⟩ (us ++ [.symbol '[', .number x, .symbol ']']) := by
  constructor
  · intro ls tail hls _
    obtain ⟨before, behind, rfl, hbefore, hbehind⟩ := exists_of_tokens_append hls
    obtain ⟨i, inner, rfl, hinner⟩ := exists_of_tokens_cons hbehind
    obtain ⟨j, last, rfl, hlast⟩ := exists_of_tokens_cons hinner
    obtain ⟨l, rfl⟩ := exists_of_tokens_single hlast
    have stop : afterSymbol? '.'
        (⟨.symbol '[', i⟩ :: ⟨.number x, j⟩ :: ⟨.symbol ']', l⟩ :: tail) = none :=
      afterSymbol?_of_ne (by decide) i
    have name := h.reads hbefore stop
    rw [List.append_assoc]
    refine reads_reference.mpr ⟨_, name, .inr ⟨i, _, k, rfl, ?_, rfl⟩⟩
    exact reads_bracketed.mpr ⟨x, j, l, rfl, hk⟩
  · obtain ⟨more, rfl⟩ := h.head
    exact ⟨_, rfl⟩

/-! ## Operands -/

theorem isOperand_token {t : Token} (minus : t ≠ .symbol '-') (plus : t ≠ .symbol '+')
    (form : ∀ place tail, OperandForm (⟨t, place⟩ :: tail) a tail) : IsOperand a [t] := by
  constructor
  · intro ls tail hls _
    obtain ⟨place, rfl⟩ := exists_of_tokens_single hls
    exact reads_operand.mpr (form place tail)
  · exact ⟨t, [], rfl, minus, plus⟩

theorem IsSum.enclosed (h : IsSum a us) :
    IsOperand a (.symbol '(' :: (us ++ [.symbol ')'])) := by
  constructor
  · intro ls tail hls _
    obtain ⟨i, more, rfl, hmore⟩ := exists_of_tokens_cons hls
    obtain ⟨before, behind, rfl, hbefore, hbehind⟩ := exists_of_tokens_append hmore
    obtain ⟨j, rfl⟩ := exists_of_tokens_single hbehind
    rw [List.cons_append, List.append_assoc]
    exact reads_operand.mpr (.enclosed (h.reads hbefore (by simp [Token.pull])))
  · exact ⟨_, _, rfl, by simp, by simp⟩

theorem IsReference.isOperand (h : IsReference first r us) (own : first ∉ operandKeywords) :
    IsOperand (.ref r) us := by
  obtain ⟨more, rfl⟩ := h.head
  constructor
  · intro ls tail hls next
    have component := h.reads hls next
    obtain ⟨place, behind, rfl, -⟩ := exists_of_tokens_cons hls
    refine reads_operand.mpr (.reference own component fun _ => ?_)
    exact afterSymbol?_of_pull next
  · exact ⟨_, _, rfl, by simp, by simp⟩

theorem IsReference.derivative (h : IsReference first r us) :
    IsOperand (.der r) (.word "der" :: .symbol '(' :: (us ++ [.symbol ')'])) := by
  constructor
  · intro ls tail hls _
    obtain ⟨i, inner, rfl, hinner⟩ := exists_of_tokens_cons hls
    obtain ⟨j, more, rfl, hmore⟩ := exists_of_tokens_cons hinner
    obtain ⟨before, behind, rfl, hbefore, hbehind⟩ := exists_of_tokens_append hmore
    obtain ⟨l, rfl⟩ := exists_of_tokens_single hbehind
    have next : pull (⟨.symbol ')', l⟩ :: tail) < 5 := by simp [Token.pull]
    have component := h.reads hbefore next
    rw [List.cons_append, List.cons_append, List.append_assoc]
    exact reads_operand.mpr (.derivative (reads_derivative.mpr ⟨j, _, r, l, rfl, component, rfl⟩))
  · exact ⟨_, _, rfl, by simp, by simp⟩

/-! ## Calls -/

/-- No expression starts with a closing parenthesis or a quoted text. -/
theorem front_of_reads {v : Expr Float} (h : Reads (expression ts) v rest) :
    front? ts ≠ some (.symbol ')') ∧ ∀ text, front? ts ≠ some (.quoted text) := by
  obtain ⟨_, _, factors, -⟩ := reads_expression.mp h
  obtain ⟨_, _, factor, -⟩ := reads_product.mp factors
  rcases reads_signed.mp factor with ⟨_, _, _, rfl, -⟩ | ⟨_, _, rfl, -⟩ | ⟨-, -, bare⟩
  · simp [front?]
  · simp [front?]
  · obtain ⟨_, _, base, -⟩ := reads_power.mp bare
    cases reads_operand.mp base <;> simp [front?]

theorem not_closed_of_reads {v : Expr Float} (h : Reads (expression ts) v rest) :
    afterSymbol? ')' ts = none :=
  afterSymbol?_eq_none.mpr (front_of_reads h).1

theorem not_quoted_of_reads {v : Expr Float} (h : Reads (expression ts) v rest) :
    quotedText? ts = none :=
  quotedText?_eq_none.mpr (front_of_reads h).2

/-- Sums with commas between them and a closing parenthesis behind are read as arguments. -/
theorem reads_arguments_of_sums {arg : List Token × Expr Float}
    {args : List (List Token × Expr Float)} (sums : ∀ p ∈ arg :: args, IsSum p.2 p.1)
    (hls : ls.map (·.token) =
      [.symbol ','].intercalate ((arg :: args).map Prod.fst) ++ [.symbol ')']) :
    Reads (arguments (ls ++ tail)) ((arg :: args).map Prod.snd) tail := by
  have first := sums arg (by simp)
  induction args generalizing arg ls with
  | nil =>
    rw [List.map_singleton, List.intercalate_singleton] at hls
    obtain ⟨before, behind, rfl, hbefore, hbehind⟩ := exists_of_tokens_append hls
    obtain ⟨i, rfl⟩ := exists_of_tokens_single hbehind
    rw [List.append_assoc]
    have next : pull (⟨.symbol ')', i⟩ :: tail) < 1 := by simp [Token.pull]
    exact reads_arguments.mpr ⟨_, _, first.reads hbefore next, .inl ⟨i, rfl, rfl⟩⟩
  | cons next args ih =>
    rw [List.map_cons, List.map_cons, List.intercalate_cons_cons, List.append_assoc,
      List.append_assoc, ← List.map_cons] at hls
    obtain ⟨before, behind, rfl, hbefore, hbehind⟩ := exists_of_tokens_append hls
    obtain ⟨i, more, rfl, hmore⟩ := exists_of_tokens_cons hbehind
    have later := ih (fun p hp => sums p (List.mem_cons_of_mem _ hp)) hmore (sums next (by simp))
    rw [List.append_assoc]
    have next : pull (⟨.symbol ',', i⟩ :: (more ++ tail)) < 1 := by simp [Token.pull]
    have whole := first.reads hbefore next
    exact reads_arguments.mpr ⟨_, _, whole, .inr ⟨i, _, _, rfl, later, rfl⟩⟩

theorem IsPath.call (h : IsPath first name us) (own : first ∉ operandKeywords)
    {args : List (List Token × Expr Float)} (sums : ∀ p ∈ args, IsSum p.2 p.1) :
    IsOperand (.call name (args.map Prod.snd))
      (us ++ .symbol '(' :: ([.symbol ','].intercalate (args.map Prod.fst) ++ [.symbol ')'])) := by
  obtain ⟨more, rfl⟩ := h.head
  constructor
  · intro ls tail hls _
    obtain ⟨before, behind, rfl, hbefore, hbehind⟩ := exists_of_tokens_append hls
    obtain ⟨i, inner, rfl, hinner⟩ := exists_of_tokens_cons hbehind
    have stop : afterSymbol? '.' (⟨.symbol '(', i⟩ :: (inner ++ tail)) = none :=
      afterSymbol?_of_ne (by decide) i
    have function := h.reads hbefore stop
    obtain ⟨place, names, rfl, -⟩ := exists_of_tokens_cons hbefore
    rw [List.append_assoc]
    refine reads_operand.mpr (.call own (reads_reference.mpr ⟨_, function, .inl ⟨rfl, ?_, rfl⟩⟩) ?_)
    · exact afterSymbol?_of_ne (by decide) i
    · cases args with
      | nil =>
        obtain ⟨j, rfl⟩ := exists_of_tokens_single hinner
        exact reads_callArguments.mpr (.inl ⟨j, rfl, rfl⟩)
      | cons arg args =>
        have inside : Reads (arguments (inner ++ tail)) ((arg :: args).map Prod.snd) tail :=
          reads_arguments_of_sums sums hinner
        obtain ⟨_, _, whole, -⟩ := reads_arguments.mp inside
        exact reads_callArguments.mpr (.inr ⟨not_closed_of_reads whole, inside⟩)
  · exact ⟨_, _, rfl, by simp, by simp⟩

end Acausal

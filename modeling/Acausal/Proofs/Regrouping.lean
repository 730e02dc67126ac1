-- How the text of an expression is grouped when it is read. A power groups to the right and a
-- sign in front binds more loosely, so a base that is printed bare although it is a power or a
-- literal with a sign loses its exponent to what stands last in it, or its sign to the power.
import Acausal.Expr.Text
import Acausal.Proofs.Expressions
import Acausal.Proofs.ParsedExpressions

namespace Acausal

/-! ## What is read for a text -/

/-- A base with the exponent that follows its text, if one does. The sign of a literal goes in
front of the power. -/
def attached (base : Expr Float) : Option (Expr Float) → Expr Float
  | none => base
  | some exponent =>
    match base with
    | .number x =>
      if signBit x then .neg (.binary (.number (-x)) .pow exponent)
      else .binary base .pow exponent
    | _ => .binary base .pow exponent

mutual
/-- What the text of an expression is read as, with the exponent that follows it, if one does. -/
def regrouped : Expr Float → Option (Expr Float) → Expr Float
  | .binary lhs .pow rhs, exponent =>
    regrouped lhs (some (attached (regrouped rhs none) exponent))
  | .binary lhs op rhs, exponent =>
    attached (.binary (regrouped lhs none) op (regrouped rhs none)) exponent
  | .neg operand, exponent => attached (negated (regrouped operand none)) exponent
  | .call function args, exponent => attached (.call function (regroupedAll args)) exponent
  | e, exponent => attached e exponent

/-- What the texts of a list of expressions are read as. -/
def regroupedAll : List (Expr Float) → List (Expr Float)
  | [] => []
  | e :: es => regrouped e none :: regroupedAll es
end

/-! ## Bases that may be printed bare -/

namespace Expr

mutual
/-- An expression and all expressions inside it. -/
def parts {α : Type} : Expr α → List (Expr α)
  | number x => [number x]
  | ref r => [ref r]
  | time => [time]
  | binary lhs op rhs => binary lhs op rhs :: (parts lhs ++ parts rhs)
  | neg operand => neg operand :: parts operand
  | call function args => call function args :: partsAll args
  | der r => [der r]

/-- The expressions of a list and all expressions inside them. -/
def partsAll {α : Type} : List (Expr α) → List (Expr α)
  | [] => []
  | e :: es => parts e ++ partsAll es
end

/-- Whether an expression is neither a power nor a literal with a sign. -/
def standsAsBase : Expr Float → Bool
  | number x => !signBit x
  | binary _ .pow _ => false
  | _ => true

/-- Whether the base of a power may stand as it is. -/
def basedWell : Expr Float → Bool
  | binary lhs .pow _ => lhs.standsAsBase
  | _ => true

/-- No power has a power or a literal with a sign as its base. -/
def WellBased (e : Expr Float) : Prop := ∀ p ∈ e.parts, p.basedWell = true

theorem mem_partsAll {α : Type} {es : List (Expr α)} {p : Expr α} :
    p ∈ partsAll es ↔ ∃ e ∈ es, p ∈ e.parts := by
  induction es with
  | nil => simp [partsAll]
  | cons e es ih => simp [partsAll, ih]

theorem wellBased_binary {lhs rhs : Expr Float} {op : Operator} :
    (binary lhs op rhs).WellBased ↔
      (binary lhs op rhs).basedWell = true ∧ lhs.WellBased ∧ rhs.WellBased := by
  simp only [WellBased, parts, List.forall_mem_cons, List.forall_mem_append]

theorem wellBased_neg {operand : Expr Float} :
    (neg operand).WellBased ↔ operand.WellBased := by
  simp only [WellBased, parts, List.forall_mem_cons, basedWell, true_and]

theorem wellBased_call {function : String} {args : List (Expr Float)} :
    (call function args).WellBased ↔ ∀ arg ∈ args, arg.WellBased := by
  simp only [WellBased, parts, List.forall_mem_cons, basedWell, true_and, mem_partsAll]
  constructor
  · intro h arg harg p hp
    exact h p ⟨arg, harg, hp⟩
  · rintro h p ⟨arg, harg, hp⟩
    exact h arg harg p hp

end Expr

/-! ## When the text is read as the expression -/

/-- An expression whose outermost operator is no power. -/
def Expr.NotPower (e : Expr Float) : Prop := ∀ lhs rhs, e ≠ .binary lhs .pow rhs

theorem regrouped_of_notPower {e : Expr Float} (h : e.NotPower) (exponent : Option (Expr Float)) :
    regrouped e exponent = attached (regrouped e none) exponent := by
  cases e with
  | binary lhs op rhs =>
    cases op with
    | pow => exact absurd rfl (h lhs rhs)
    | _ => rfl
  | _ => rfl

theorem notPower_regrouped {e : Expr Float} (h : e.NotPower) : (regrouped e none).NotPower := by
  cases e with
  | binary lhs op rhs =>
    cases op with
    | pow => exact absurd rfl (h lhs rhs)
    | _ =>
      intro l r
      simp [regrouped, attached]
  | neg operand =>
    intro l r
    rw [regrouped, attached]
    unfold negated
    split <;> simp
  | _ =>
    intro l r
    simp [regrouped, attached]

/-- An exponent makes a negative or a power whose base is no power. -/
theorem attached_some {base : Expr Float} (h : base.NotPower) (exponent : Expr Float) :
    (∃ a, attached base (some exponent) = .neg a) ∨
      ∃ b y, attached base (some exponent) = .binary b .pow y ∧ b.NotPower := by
  unfold attached
  cases base with
  | number x =>
    simp only
    split
    · exact .inl ⟨_, rfl⟩
    · exact .inr ⟨_, _, rfl, h⟩
  | _ => exact .inr ⟨_, _, rfl, h⟩

theorem regrouped_some (e exponent : Expr Float) :
    (∃ a, regrouped e (some exponent) = .neg a) ∨
      ∃ b y, regrouped e (some exponent) = .binary b .pow y ∧ b.NotPower := by
  induction e generalizing exponent with
  | binary lhs op rhs hl hr =>
    by_cases hop : op = .pow
    · subst hop
      rw [regrouped]
      exact hl _
    · have h : (Expr.binary lhs op rhs).NotPower := by
        rintro l r ⟨⟩
        exact hop rfl
      rw [regrouped_of_notPower h]
      exact attached_some (notPower_regrouped h) exponent
  | _ =>
    rw [regrouped_of_notPower (by simp [Expr.NotPower])]
    exact attached_some (notPower_regrouped (by simp [Expr.NotPower])) exponent

/-- Only a literal is read as a literal. -/
theorem regrouped_ne_number {e : Expr Float} (written : Written e) (h : ∀ x, e ≠ .number x) :
    ∀ x, regrouped e none ≠ .number x := by
  induction written with
  | number x => exact absurd rfl (h x)
  | @binary lhs op rhs _ _ _ _ =>
    intro x
    by_cases hop : op = .pow
    · subst hop
      rw [regrouped]
      rcases regrouped_some lhs (attached (regrouped rhs none) none) with ⟨a, ha⟩ | ⟨b, y, hb, -⟩
      · simp [ha]
      · simp [hb]
    · cases op with
      | pow => exact absurd rfl hop
      | _ => simp [regrouped, attached]
  | neg _ compound ih =>
    intro x
    rw [regrouped, attached]
    unfold negated
    split
    · next y hy => exact absurd hy (ih compound y)
    · simp
  | _ =>
    intro x
    simp [regrouped, attached]

theorem attached_of_ne_number {base : Expr Float} (h : ∀ x, base ≠ .number x)
    (exponent : Expr Float) : attached base (some exponent) = .binary base .pow exponent := by
  cases base with
  | number x => exact absurd rfl (h x)
  | _ => rfl

theorem regroupedAll_eq_iff {es : List (Expr Float)} :
    regroupedAll es = es ↔ ∀ e ∈ es, regrouped e none = e := by
  induction es with
  | nil => simp [regroupedAll]
  | cons e es ih => simp [regroupedAll, ih]

/-- A power is read as itself when its base may stand bare and both operands are. -/
theorem regrouped_power_eq_iff {lhs rhs : Expr Float} (written : Written lhs) :
    regrouped (.binary lhs .pow rhs) none = .binary lhs .pow rhs ↔
      lhs.standsAsBase = true ∧ regrouped lhs none = lhs ∧ regrouped rhs none = rhs := by
  rw [regrouped, attached]
  by_cases hp : lhs.NotPower
  · rw [regrouped_of_notPower hp]
    by_cases hn : ∃ x, lhs = .number x
    · obtain ⟨x, rfl⟩ := hn
      cases hs : signBit x <;> simp [regrouped, attached, Expr.standsAsBase, hs]
    · have hn : ∀ x, lhs ≠ .number x := fun x hx => hn ⟨x, hx⟩
      have stands : lhs.standsAsBase = true := by
        cases lhs with
        | number x => exact absurd rfl (hn x)
        | binary l op r =>
          cases op with
          | pow => exact absurd rfl (hp l r)
          | _ => rfl
        | _ => rfl
      rw [attached_of_ne_number (regrouped_ne_number written hn)]
      simp [stands]
  · obtain ⟨l, r, rfl⟩ : ∃ l r, lhs = .binary l .pow r := by
      simpa [Expr.NotPower] using hp
    simp only [Expr.standsAsBase, Bool.false_eq_true, false_and, iff_false]
    intro same
    -- The exponents went to the right, so the base of what is read is no power.
    rcases regrouped_some (.binary l .pow r) (regrouped rhs none) with
      ⟨a, ha⟩ | ⟨b, y, hb, bare⟩
    · simp [ha] at same
    · rw [hb] at same
      cases same
      exact bare l r rfl

/-- The text of an expression is read as that expression exactly when no power has a power or
a literal with a sign as its base. -/
theorem regrouped_eq_iff {e : Expr Float} (written : Written e) :
    regrouped e none = e ↔ e.WellBased := by
  induction written with
  | @binary lhs op rhs hl hr ihl ihr =>
    rw [Expr.wellBased_binary, ← ihl, ← ihr]
    by_cases hop : op = .pow
    · subst hop
      rw [regrouped_power_eq_iff hl]
      rfl
    · cases op with
      | pow => exact absurd rfl hop
      | _ => simp [regrouped, attached, Expr.basedWell]
  | @neg operand hw compound ih =>
    rw [Expr.wellBased_neg, ← ih, regrouped, attached,
      negated_of_ne_number (regrouped_ne_number hw compound), Expr.neg.injEq]
  | @call first function args _ _ _ ih =>
    rw [Expr.wellBased_call, regrouped, attached, Expr.call.injEq, regroupedAll_eq_iff]
    simp only [true_and]
    exact forall₂_congr ih
  | _ => simp [regrouped, attached, Expr.WellBased, Expr.parts, Expr.basedWell]

end Acausal

-- The models whose arrays can be expanded. The whole arrays of an equation have to be of one
-- size, and what has a subscript has to be an array with at least so many elements. Subscripts
-- are looked at element by element: where the whole arrays of an equation have no element,
-- nothing is asked of its subscripts, and nowhere is a subscript asked to be one at least.
import Acausal.Proofs.ArrayEquations

namespace Acausal

variable {α : Type}

/-! ## Expressions -/

/-- The references of an expression can be replaced where each of them can. -/
theorem Expr.exists_mapRefs_iff {ε : Type} {f : Ref → Except ε Ref} {e : Expr α} :
    (∃ e', e.mapRefs f = .ok e') ↔ ∀ r ∈ e.refs, ∃ r', f r = .ok r' := by
  have kept {β γ : Type} {x : Except ε β} {g : β → γ} :
      (∃ c, (do return g (← x)) = Except.ok c) ↔ ∃ b, x = .ok b := by
    simp only [bind_eq_ok, pure_eq_ok]
    constructor
    · rintro ⟨_, b, hb, -⟩
      exact ⟨b, hb⟩
    · rintro ⟨b, hb⟩
      exact ⟨_, b, hb, rfl⟩
  induction e with
  | number value => simp [mapRefs, refs]
  | time => simp [mapRefs, refs]
  | ref r =>
    rw [mapRefs, kept, refs, List.forall_mem_singleton]
  | der r =>
    rw [mapRefs, kept, refs, List.forall_mem_singleton]
  | neg operand ih =>
    rw [mapRefs, refs]
    exact kept.trans ih
  | binary lhs op rhs ihl ihr =>
    rw [refs, List.forall_mem_append, mapRefs]
    simp only [bind_eq_ok, pure_eq_ok]
    constructor
    · rintro ⟨_, left, hleft, right, hright, -⟩
      exact ⟨ihl.1 ⟨left, hleft⟩, ihr.1 ⟨right, hright⟩⟩
    · rintro ⟨allLeft, allRight⟩
      obtain ⟨left, hleft⟩ := ihl.2 allLeft
      obtain ⟨right, hright⟩ := ihr.2 allRight
      exact ⟨_, left, hleft, right, hright, rfl⟩
  | call function args ih =>
    rw [mapRefs, kept, mapRefsAll_eq_mapM, exists_mapM_iff, refs]
    simp only [mem_refsAll]
    constructor
    · rintro each r ⟨arg, harg, hr⟩
      exact (ih arg harg).1 (each arg harg) r hr
    · intro each arg harg
      exact (ih arg harg).2 fun r hr => each r ⟨arg, harg, hr⟩

namespace FlatModel

/-! ## Shapes -/

/-- A variable of a name is declared as an array of a size. -/
def HasArray (m : FlatModel α) (name : String) (n : Nat) : Prop :=
  ∃ v ∈ m.unknowns, v.name = name ∧ v.size = some n

/-- An equation mentions a whole array of a size. -/
def MentionsWhole (m : FlatModel α) (e : Equation α) (n : Nat) : Prop :=
  ∃ r ∈ e.lhs.refs ++ e.rhs.refs, r.index = none ∧ m.HasArray r.name n

/-- All whole arrays that an equation mentions have one size. -/
def SizesMeet (m : FlatModel α) (e : Equation α) : Prop :=
  ∀ n k, m.MentionsWhole e n → m.MentionsWhole e k → n = k

/-- A subscripted reference is to an array that has at least so many elements. -/
def Reaches (m : FlatModel α) (r : Ref) : Prop :=
  ∀ i, r.index = some i → ∃ n, m.HasArray r.name n ∧ i ≤ n

/-- A subscripted reference is to one of the elements of an array, counted from one. -/
def Selects (m : FlatModel α) (r : Ref) : Prop :=
  ∀ i, r.index = some i → ∃ n, m.HasArray r.name n ∧ 1 ≤ i ∧ i ≤ n

/-- An equation over arrays of one size, whose subscripts select elements. -/
structure WellShaped (m : FlatModel α) (e : Equation α) : Prop where
  sizes : m.SizesMeet e
  subscripts : ∀ r ∈ e.lhs.refs ++ e.rhs.refs, m.Selects r

variable {m : FlatModel α} {size? : String → Option Nat} {e : Equation α}

theorem arraySize?_eq_some (distinct : m.declared.Nodup) {name : String} {n : Nat} :
    m.arraySize? name = some n ↔ m.HasArray name n := by
  constructor
  · exact exists_of_arraySize?
  · rintro ⟨v, hv, rfl, size⟩
    rw [arraySize?_eq distinct hv, size]

/-! ## Equations -/

/-- The subscripts of an equation are at most the sizes of the arrays they are applied to. -/
def Within (size? : String → Option Nat) (e : Equation α) : Prop :=
  ∀ r ∈ e.lhs.refs ++ e.rhs.refs, ∀ i, r.index = some i → ∃ n, size? r.name = some n ∧ i ≤ n

/-- Whether a reference stands for a scalar does not depend on the element. -/
theorem exists_scalarRef_iff {element : Option Nat} {r : Ref} :
    (∃ r', (scalarRef size? element r : Except (ShapeError α) Ref) = .ok r') ↔
      ∀ i, r.index = some i → ∃ n, size? r.name = some n ∧ i ≤ n := by
  unfold scalarRef
  cases r.index with
  | none => cases size? r.name <;> simp
  | some i =>
    cases size? r.name with
    | none => simp
    | some n =>
      by_cases beyond : n < i
      · simp [beyond]
      · simp [beyond, Nat.le_of_not_lt beyond]

theorem exists_scalarEquation_iff {element : Option Nat} :
    (∃ e', scalarEquation size? element e = .ok e') ↔ Within size? e := by
  unfold Within
  rw [List.forall_mem_append]
  simp only [← @exists_scalarRef_iff α size? element, ← Expr.exists_mapRefs_iff]
  constructor
  · rintro ⟨e', made⟩
    obtain ⟨_, rfl, left, right⟩ := scalarEquation_eq_ok.1 made
    exact ⟨⟨_, left⟩, ⟨_, right⟩⟩
  · rintro ⟨⟨lhs, left⟩, ⟨rhs, right⟩⟩
    exact ⟨⟨lhs, rhs⟩, scalarEquation_eq_ok.2 ⟨_, rfl, left, right⟩⟩

/-- At no element at all, nothing is asked of an equation. -/
theorem exists_mapM_scalarEquation_iff {n : Nat} :
    (∃ es, (List.range' 1 n).mapM (fun i => scalarEquation size? (some i) e) = .ok es) ↔
      n = 0 ∨ Within size? e := by
  simp only [exists_mapM_iff, exists_scalarEquation_iff, List.mem_range'_1]
  constructor
  · intro each
    rcases Nat.eq_zero_or_pos n with empty | positive
    · exact .inl empty
    · exact .inr (each 1 ⟨Nat.le_refl 1, by omega⟩)
  · rintro (rfl | within) i inside
    · omega
    · exact within

/-- The width of an equation is the size of all its whole arrays, if it mentions any. -/
theorem width?_eq_ok {width : Option Nat} :
    width? size? e = .ok width ↔
      (∀ n ∈ wholeSizes size? e, width = some n) ∧ (wholeSizes size? e = [] → width = none) := by
  unfold width?
  cases wholeSizes size? e with
  | nil => simp [eq_comm]
  | cons n more =>
    simp only
    split
    · next same =>
      have same : ∀ k ∈ more, k = n := by simpa using same
      simp only [Except.ok.injEq, List.forall_mem_cons, reduceCtorEq, false_implies, and_true]
      constructor
      · rintro rfl
        exact ⟨rfl, fun k hk => congrArg some (same k hk).symm⟩
      · rintro ⟨rfl, -⟩
        rfl
    · next other differs =>
      have found := List.find?_some differs
      have listed := List.mem_reverse.1 (List.mem_of_find?_eq_some differs)
      simp only [reduceCtorEq, false_iff, not_and]
      intro all
      have first := all n List.mem_cons_self
      have second := all other (List.mem_cons_of_mem n listed)
      rw [first] at second
      simp [Option.some.inj second] at found

/-- An equation can be expanded when its whole arrays are of one size and its subscripts are
within their arrays, which is not looked at where the whole arrays are empty. -/
theorem exists_scalarEquations_iff :
    (∃ es, scalarEquations size? e = .ok es) ↔
      (∀ n ∈ wholeSizes size? e, ∀ k ∈ wholeSizes size? e, n = k) ∧
        (0 ∈ wholeSizes size? e ∨ Within size? e) := by
  unfold scalarEquations
  simp only [bind_eq_ok, width?_eq_ok]
  constructor
  · rintro ⟨es, width, ⟨whole, none_of_nil⟩, made⟩
    refine ⟨fun n hn k hk => Option.some.inj ((whole n hn).symm.trans (whole k hk)), ?_⟩
    cases width with
    | none =>
      obtain ⟨e', made, -⟩ := bind_eq_ok.1 made
      exact .inr (exists_scalarEquation_iff.1 ⟨e', made⟩)
    | some n =>
      obtain ⟨k, hk⟩ := List.exists_mem_of_ne_nil _ fun nil =>
        Option.some_ne_none n (none_of_nil nil)
      obtain rfl : n = k := Option.some.inj (whole k hk)
      exact (exists_mapM_scalarEquation_iff.1 ⟨es, made⟩).imp_left fun (empty : n = 0) => empty ▸ hk
  · rintro ⟨same, asked⟩
    cases sizes : wholeSizes size? e with
    | nil =>
      rw [sizes] at asked
      obtain ⟨e', made⟩ := exists_scalarEquation_iff.2 (asked.resolve_left List.not_mem_nil)
      exact ⟨[e'], none, by simp, bind_eq_ok.2 ⟨e', made, rfl⟩⟩
    | cons n more =>
      rw [sizes] at same asked
      have listed : n ∈ n :: more := List.mem_cons_self
      obtain ⟨es, made⟩ := exists_mapM_scalarEquation_iff.2
        (asked.imp_left fun empty => same n listed 0 empty)
      exact ⟨es, some n, ⟨fun k hk => congrArg some (same n listed k hk), by simp⟩, made⟩

/-! ## Models -/

/-- All whole arrays that an equation mentions have one size and, unless they are empty, every
subscript in it is at most the size of its array. -/
structure Expandable (m : FlatModel α) (e : Equation α) : Prop where
  sizes : m.SizesMeet e
  subscripts : m.MentionsWhole e 0 ∨ ∀ r ∈ e.lhs.refs ++ e.rhs.refs, m.Reaches r

theorem mem_wholeSizes_iff (distinct : m.declared.Nodup) {n : Nat} :
    n ∈ wholeSizes m.arraySize? e ↔ m.MentionsWhole e n := by
  simp only [mem_wholeSizes, MentionsWhole, arraySize?_eq_some distinct]

theorem expandable_iff (distinct : m.declared.Nodup) :
    m.Expandable e ↔ ∃ es, scalarEquations m.arraySize? e = .ok es := by
  rw [exists_scalarEquations_iff]
  simp only [mem_wholeSizes_iff distinct, Within, arraySize?_eq_some distinct]
  constructor
  · rintro ⟨sizes, subscripts⟩
    exact ⟨fun n hn k hk => sizes n k hn hk, subscripts⟩
  · rintro ⟨sizes, subscripts⟩
    exact ⟨fun n k hn hk => sizes n hn k hk, subscripts⟩

theorem WellShaped.expandable (h : m.WellShaped e) : m.Expandable e where
  sizes := h.sizes
  subscripts := by
    refine .inr fun r hr i subscripted => ?_
    obtain ⟨n, array, -, high⟩ := h.subscripts r hr i subscripted
    exact ⟨n, array, high⟩

/-- An equation that is looked at, and has no subscript zero, can only be expanded if it is well
shaped. -/
theorem Expandable.wellShaped (h : m.Expandable e) (some_element : ¬ m.MentionsWhole e 0)
    (counted : ∀ r ∈ e.lhs.refs ++ e.rhs.refs, r.index ≠ some 0) : m.WellShaped e where
  sizes := h.sizes
  subscripts := by
    intro r hr i subscripted
    obtain ⟨n, array, high⟩ := h.subscripts.resolve_left some_element r hr i subscripted
    have positive : i ≠ 0 := by
      rintro rfl
      exact counted r hr subscripted
    exact ⟨n, array, Nat.one_le_iff_ne_zero.2 positive, high⟩

/-- The arrays of a model with distinct names can be expanded when all its equations are
expandable, and so whenever they are all well shaped. The converse of the latter holds where no
equation mentions an empty array whole and none has a subscript zero. -/
theorem scalarizes_iff_expandable (distinct : m.declared.Nodup) :
    ((∃ s, m.scalarize = .ok s) ↔ ∀ e ∈ m.equations, m.Expandable e) ∧
      ((∀ e ∈ m.equations, m.WellShaped e) → ∃ s, m.scalarize = .ok s) ∧
      ((∀ e ∈ m.equations, ¬ m.MentionsWhole e 0 ∧
          ∀ r ∈ e.lhs.refs ++ e.rhs.refs, r.index ≠ some 0) →
        ((∃ s, m.scalarize = .ok s) ↔ ∀ e ∈ m.equations, m.WellShaped e)) := by
  have expands : (∃ s, m.scalarize = .ok s) ↔ ∀ e ∈ m.equations, m.Expandable e := by
    simp only [expandable_iff distinct, ← exists_mapM_iff]
    unfold scalarize
    simp only [bind_eq_ok, pure_eq_ok]
    constructor
    · rintro ⟨s, groups, made, -⟩
      exact ⟨groups, made⟩
    · rintro ⟨groups, made⟩
      exact ⟨_, groups, made, rfl⟩
  have shaped (h : ∀ e ∈ m.equations, m.WellShaped e) : ∃ s, m.scalarize = .ok s :=
    expands.2 fun e he => (h e he).expandable
  refine ⟨expands, shaped, fun asked => ⟨fun made e he => ?_, shaped⟩⟩
  exact (expands.1 made e he).wellShaped (asked e he).1 (asked e he).2

/-- Two basins, the lower one fed by the upper. -/
def basins : FlatModel Float where
  name := "Basins"
  parameters := [⟨"rain", .number 1, false⟩]
  unknowns := [⟨"level", some 2, none⟩, ⟨"inflow", some 2, none⟩]
  equations := [⟨.der ⟨"level", none⟩, .binary (.ref ⟨"inflow", none⟩) .sub (.ref ⟨"level", none⟩)⟩,
    ⟨.ref ⟨"inflow", some 1⟩, .ref ⟨"rain", none⟩⟩,
    ⟨.ref ⟨"inflow", some 2⟩, .ref ⟨"level", some 1⟩⟩]

theorem basins_wellShaped : ∀ e ∈ basins.equations, basins.WellShaped e := by
  intro e he
  simp only [basins, List.mem_cons, List.not_mem_nil, or_false] at he
  rcases he with rfl | rfl | rfl <;> constructor <;>
    simp [SizesMeet, Selects, MentionsWhole, HasArray, basins, Expr.refs]

/-- Two basins of which the upper one is fed by a third. -/
def overflowing : FlatModel Float :=
  { basins with equations := [⟨.ref ⟨"inflow", some 1⟩, .ref ⟨"level", some 3⟩⟩] }

/-- The basins can be expanded, and cannot be if there is one too few. -/
theorem basins_are_expanded :
    basins.declared.Nodup ∧ (∃ s, basins.scalarize = .ok s) ∧
      overflowing.declared.Nodup ∧ ¬ ∃ s, overflowing.scalarize = .ok s := by
  have distinct : basins.declared.Nodup := by decide
  have same : overflowing.declared.Nodup := by decide
  refine ⟨distinct, (scalarizes_iff_expandable distinct).2.1 basins_wellShaped, same, ?_⟩
  rw [(scalarizes_iff_expandable same).1]
  intro expandable
  have missing := (expandable _ List.mem_cons_self).subscripts
  simp [MentionsWhole, Reaches, HasArray, overflowing, basins, Expr.refs] at missing

/-- A basin that is fed by one before the first. -/
def grounded : FlatModel Float :=
  { basins with equations := [⟨.der ⟨"level", none⟩, .ref ⟨"inflow", some 0⟩⟩] }

/-- Drains of which there are none, each fed by a third of two basins. -/
def drained : FlatModel Float where
  name := "Drained"
  parameters := []
  unknowns := [⟨"level", some 2, none⟩, ⟨"drain", some 0, none⟩]
  equations := [⟨.ref ⟨"drain", none⟩, .ref ⟨"level", some 3⟩⟩]

/-- A subscript zero is let through, and so is one too large where no element is looked at. -/
theorem stray_subscripts_are_let_through :
    (grounded.declared.Nodup ∧ (∃ s, grounded.scalarize = .ok s) ∧
        ¬ ∀ e ∈ grounded.equations, grounded.WellShaped e) ∧
      drained.declared.Nodup ∧ (∃ s, drained.scalarize = .ok s) ∧
        ¬ ∀ e ∈ drained.equations, drained.WellShaped e := by
  have expands {m : FlatModel Float} (h : m.scalarize.toOption.isSome = true) :
      ∃ s, m.scalarize = .ok s := by
    obtain ⟨s, h⟩ := Option.isSome_iff_exists.1 h
    exact ⟨s, toOption_eq_some.1 h⟩
  refine ⟨⟨by decide, expands (by decide +kernel), fun shaped => ?_⟩,
    by decide, expands (by decide +kernel), fun shaped => ?_⟩
  · have zero := (shaped _ List.mem_cons_self).subscripts
    simp [Selects, HasArray, grounded, basins, Expr.refs] at zero
  · have large := (shaped _ List.mem_cons_self).subscripts
    simp [Selects, HasArray, drained, Expr.refs] at large

end FlatModel

end Acausal

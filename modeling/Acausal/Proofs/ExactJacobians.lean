-- Jacobians over exact fractions. A dual number is tangent to a function at a place when it holds
-- the value of the function there and its derivative, and the four operations keep tangents. So
-- the entries of a Jacobian are the partial derivatives of the rates, each with all definitions
-- put in place of the names that they define.
import Acausal.Proofs.DualValues
import Acausal.Proofs.SubstitutedDefinitions
import Mathlib

namespace Acausal

/-! ## Tangents -/

/-- The value of a function at a place, and its derivative there. -/
structure Dual.TangentTo (d : Dual ℚ) (f : ℚ → ℚ) (place : ℚ) : Prop where
  value : d.value = f place
  slope : HasDerivAt f d.slope place

namespace Dual.TangentTo

variable {d e : Dual ℚ} {f g : ℚ → ℚ} {place : ℚ}

theorem constant (a place : ℚ) : (Dual.constant a).TangentTo (fun _ => a) place :=
  ⟨rfl, hasDerivAt_const place a⟩

theorem neg (h : d.TangentTo f place) : (-d).TangentTo (fun q => -f q) place where
  value := congrArg (- ·) h.value
  slope := h.slope.neg

theorem mul (hd : d.TangentTo f place) (he : e.TangentTo g place) :
    (d * e).TangentTo (fun q => f q * g q) place where
  value := congrArg₂ (· * ·) hd.value he.value
  slope := by
    apply (hd.slope.mul he.slope).congr_deriv
    change d.slope * g place + f place * e.slope = d.value * e.slope + d.slope * e.value
    rw [hd.value, he.value]
    ring

theorem div (hd : d.TangentTo f place) (he : e.TangentTo g place) (divides : g place ≠ 0) :
    (d / e).TangentTo (fun q => f q / g q) place where
  value := congrArg₂ (· / ·) hd.value he.value
  slope := by
    apply (hd.slope.div he.slope divides).congr_deriv
    change _ = (d.slope * e.value - d.value * e.slope) / (e.value * e.value)
    rw [hd.value, he.value, pow_two]

/-- Every operation but the power keeps tangents, a quotient where its divisor is not zero. -/
theorem operate [Elementary ℚ] (hd : d.TangentTo f place) (he : e.TangentTo g place)
    {op : Operator} (rational : op ≠ .pow) (divides : op = .div → g place ≠ 0) :
    (op.apply d e).TangentTo (fun q => op.apply (f q) (g q)) place := by
  cases op with
  | add => exact ⟨congrArg₂ (· + ·) hd.value he.value, hd.slope.add he.slope⟩
  | sub => exact ⟨congrArg₂ (· - ·) hd.value he.value, hd.slope.sub he.slope⟩
  | mul => exact hd.mul he
  | div => exact hd.div he (divides rfl)
  | pow => exact absurd rfl rational

end Dual.TangentTo

/-- A dual result that is there and tangent, at a place, to plain results that are all there. -/
def Follows (dual : Option (Dual ℚ)) (plain : ℚ → Option ℚ) (place : ℚ) : Prop :=
  ∃ d f, dual = some d ∧ (∀ q, plain q = some (f q)) ∧ d.TangentTo f place

/-! ## Expressions -/

/-- The dual value of a rational expression is tangent to its plain values, if that holds of all
that it reads and it does not divide by zero. -/
theorem Expr.Rational.follows [Elementary ℚ] {e : Expr ℚ} (rational : e.Rational)
    {dualRead : String → Option (Dual ℚ)} {read : ℚ → String → Option ℚ} {t place : ℚ}
    (reads : ∀ r ∈ e.refs, Follows (dualRead r.flatName) (fun q => read q r.flatName) place)
    (divides : ∀ b ∈ e.divisors, b.value? (read place) id t ≠ some 0) :
    Follows (e.value? dualRead Dual.constant (Dual.constant t)) (fun q => e.value? (read q) id t)
      place := by
  induction e with
  | number value => exact ⟨_, _, rfl, fun _ => rfl, .constant value place⟩
  | time => exact ⟨_, _, rfl, fun _ => rfl, .constant t place⟩
  | ref r => exact reads r (by simp [refs])
  | neg operand ih =>
    obtain ⟨d, f, dual, plain, tangent⟩ := ih rational reads divides
    exact ⟨-d, _, by simp [value?, dual], fun q => by simp [value?, plain], tangent.neg⟩
  | binary lhs op rhs ihl ihr =>
    simp only [refs, List.mem_append] at reads
    simp only [divisors, List.mem_append] at divides
    obtain ⟨d, f, dual, plain, tangent⟩ := ihl rational.2.1 (fun r hr => reads r (.inl hr))
      fun b hb => divides b (.inl (.inl hb))
    obtain ⟨d', g, dual', plain', tangent'⟩ := ihr rational.2.2 (fun r hr => reads r (.inr hr))
      fun b hb => divides b (.inl (.inr hb))
    have divisor (quotient : op = .div) : g place ≠ 0 := by
      intro zero
      have meets := divides rhs (.inr (by simp [quotient]))
      exact meets ((plain' place).trans (congrArg some zero))
    exact ⟨op.apply d d', _, by simp [value?, dual, dual'],
      fun q => by simp [value?, plain, plain'], tangent.operate tangent' rational.1 divisor⟩
  | call function args => exact rational.elim
  | der r => exact rational.elim

/-! ## Compiled models -/

/-- What a name reads as from a seeded state is tangent to what it reads as from states in which
the seeded number varies. -/
theorem CompiledModel.reading_follows (c : CompiledModel ℚ) (x : Vector ℚ c.dimension)
    (j : Fin c.dimension) {name : String} (known : (c.reading id x.toArray name).isSome) :
    Follows (c.reading Dual.constant (seeded x j).toArray name)
      (fun q => c.reading id (x.set j q).toArray name) (x.get j) := by
  simp only [reading_toArray] at known ⊢
  cases place : slotOf? c.stateNames name with
  | none =>
    cases found : c.parameters.lookup name with
    | none => simp [place, found] at known
    | some a =>
      exact ⟨.constant a, fun _ => a, by simp, fun _ => by simp, .constant a _⟩
  | some slot =>
    have inside : slot < c.dimension := by
      have bound := (List.getElem?_eq_some_iff.1 (getElem?_of_slotOf? place)).1
      simpa [stateNames] using bound
    by_cases seed : slot = j
    · subst seed
      refine ⟨⟨x.get j, 1⟩, fun q => q, ?_, fun q => ?_, rfl, hasDerivAt_id _⟩
      · simp [seeded, get_eq_getElem]
      · simp
    · refine ⟨.constant x[slot], fun _ => x[slot], ?_, fun q => ?_, .constant _ _⟩
      · simp [seeded, get_eq_getElem, inside, Fin.ext_iff, seed, Dual.constant]
      · simp [inside, Ne.symm seed]

/-- In a model of rational expressions that compiles, the entry of the Jacobian in the row of a state
and the column of another is the partial derivative, with respect to the other, of the expression
for the rate of the first in which no algebraic variable is left, wherever nothing is divided by
zero. It does not depend on the matrix that is written over. -/
theorem jacobians_are_exact [Elementary ℚ] {m s : FlatModel ℚ} {name : String} {c : CompiledModel ℚ}
    (scalar : m.scalarize = .ok s) (compiled : m.compile name = .ok c) (rates : s.rates.Rational)
    (values : s.values.Rational) {t : ℚ} {x : Vector ℚ c.dimension}
    (divides : ∀ definition ∈ s.rates ++ s.values, ∀ b ∈ definition.2.divisors,
      b.value? (c.reading id (c.slots id t x)) id t ≠ some 0)
    (buffer : Matrix ℚ c.dimension) (i j : Fin c.dimension) :
    ∃ e, s.rates.lookup (c.states.get i).name = some e ∧
      let unfolded := s.values.unfolded c.algebraics.length e
      (∀ r ∈ unfolded.refs, s.values.lookup r.flatName = none) ∧
      ∃ f : ℚ → ℚ, (∀ q, unfolded.value? (c.reading id (x.set j q).toArray) id t = some (f q)) ∧
        HasDerivAt f ((c.flow.jacobian t x buffer).entry i j) (x.get j) := by
  obtain ⟨s', known, scalar', assembled⟩ := FlatModel.assembled_of_compile compiled
  rw [scalar] at scalar'
  cases scalar'
  obtain ⟨e, -, found, -, -⟩ := assembled.rate_value_at id t x
    (show c.stateNames[i.val]? = some (c.states.get i).name by simp [CompiledModel.stateNames])
  have rational := values.unfolded c.algebraics.length (rates.lookup found)
  have value := assembled.value?_unfolded_rate rates values found id t x
  have read : ∀ r ∈ (s.values.unfolded c.algebraics.length e).refs,
      (c.reading id x.toArray r.flatName).isSome :=
    ((Expr.value?_isSome_iff _).1 (Option.isSome_of_eq_some value)).reads
  have here : x.set j (x.get j) = x := Vector.set_getElem_self j.isLt
  have divisors : ∀ b ∈ (s.values.unfolded c.algebraics.length e).divisors,
      b.value? (c.reading id (x.set j (x.get j)).toArray) id t ≠ some 0 := by
    rw [here]
    exact assembled.divisors_unfolded_rate rates values found divides
  obtain ⟨d, f, dual, plain, tangent⟩ := rational.follows
    (fun r hr => c.reading_follows x j (read r hr)) divisors
  rw [assembled.value?_unfolded_rate rates values found] at dual
  cases dual
  refine ⟨e, found, assembled.lookup_of_unfolded_rate rates values found, f, plain, ?_⟩
  exact (entry_dualJacobian _ t x buffer i j).symm ▸ tangent.slope

/-- Exact fractions with functions that no rational expression calls. -/
@[reducible] def uncalled : Elementary ℚ where
  pow _ _ := 0
  sin _ := 0
  cos _ := 0
  tan _ := 0
  exp _ := 0
  log _ := 0
  sqrt _ := 0
  abs a := |a|

/-- Water that drains from one basin into another, the slower the less there is. -/
def basins : FlatModel ℚ where
  name := "Basins"
  parameters := [⟨"k", .number 4, false⟩]
  unknowns := [⟨"upper", none, some (.number 1)⟩, ⟨"lower", none, none⟩, ⟨"drain", none, none⟩]
  equations :=
    [⟨.der ⟨"upper", none⟩, .neg (.ref ⟨"drain", none⟩)⟩,
      ⟨.der ⟨"lower", none⟩, .ref ⟨"drain", none⟩⟩,
      ⟨.ref ⟨"drain", none⟩, .binary (.binary (.ref ⟨"k", none⟩) .mul (.ref ⟨"upper", none⟩)) .div
        (.binary (.number 1) .add (.ref ⟨"upper", none⟩))⟩]

def compiledBasins : CompiledModel ℚ where
  name := "Basins"
  states := [⟨"upper", 1, [.load 2, .neg]⟩, ⟨"lower", 0, [.load 2]⟩]
  algebraics := [⟨"drain",
    [.const 4, .load 0, .operate .mul, .const 1, .load 0, .operate .add, .operate .div]⟩]
  parameters := [("k", 4)]

/-- The lower basin fills at a rate that depends on how full the upper one is. -/
theorem lower_basin_follows_upper :
    letI := uncalled
    basins.scalarize = .ok basins ∧ basins.compile "Basins" = .ok compiledBasins ∧
      HasDerivAt (fun q => 4 * q / (1 + q)) ((compiledBasins.flow.jacobian 0 #v[1, 0]
        (.replicate 2 (.replicate 2 5))).entry ⟨1, by decide⟩ ⟨0, by decide⟩) 1 := by
  let := uncalled
  have scalar : basins.scalarize = .ok basins := by with_unfolding_all rfl
  have compiled : basins.compile "Basins" = .ok compiledBasins := by with_unfolding_all rfl
  obtain ⟨e, found, -, f, value, derivative⟩ := jacobians_are_exact scalar compiled (by decide)
    (by decide) (t := 0) (x := #v[1, 0]) (by decide +kernel) (.replicate 2 (.replicate 2 5))
    ⟨1, by decide⟩ ⟨0, by decide⟩
  have drains : some (Expr.ref ⟨"drain", none⟩) = some e := Eq.trans rfl found
  cases drains
  have same : f = fun q => 4 * q / (1 + q) := by
    funext q
    exact Option.some.inj ((value q).symm.trans rfl)
  exact ⟨scalar, compiled, same ▸ derivative⟩

end Acausal

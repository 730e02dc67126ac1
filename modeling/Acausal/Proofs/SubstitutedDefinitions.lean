-- Definitions put in place of the names that they define. Where every defined name reads as the
-- value of its definition, an expression keeps its value; and as definitions in an order with
-- layers read only earlier ones, as many passes as there are definitions leave no defined name.
import Acausal.Proofs.EquationsHold

namespace Acausal

variable {α β : Type}

namespace Expr

/-! ## Rational expressions -/

/-- An expression of numbers, names, the time, the four operations and negation. -/
def Rational : Expr α → Prop
  | number _ => True
  | ref _ => True
  | time => True
  | binary lhs op rhs => op ≠ .pow ∧ lhs.Rational ∧ rhs.Rational
  | neg operand => operand.Rational
  | call _ _ => False
  | der _ => False

instance decidableRational : (e : Expr α) → Decidable e.Rational
  | number _ => .isTrue trivial
  | ref _ => .isTrue trivial
  | time => .isTrue trivial
  | binary lhs op rhs =>
    have := decidableRational lhs
    have := decidableRational rhs
    inferInstanceAs (Decidable (op ≠ .pow ∧ lhs.Rational ∧ rhs.Rational))
  | neg operand => decidableRational operand
  | call _ _ => .isFalse id
  | der _ => .isFalse id

mutual
/-- What an expression divides by. -/
def divisors : Expr α → List (Expr α)
  | number _ => []
  | ref _ => []
  | time => []
  | binary lhs op rhs => divisors lhs ++ divisors rhs ++ if op = .div then [rhs] else []
  | neg operand => divisors operand
  | call _ args => divisorsAll args
  | der _ => []

/-- What a list of expressions divides by. -/
def divisorsAll : List (Expr α) → List (Expr α)
  | [] => []
  | e :: es => divisors e ++ divisorsAll es
end

/-! ## Substitution -/

mutual
/-- An expression with the definition of each name in its place, where it has one. -/
def substitute (definition? : String → Option (Expr α)) : Expr α → Expr α
  | number value => number value
  | ref r => (definition? r.flatName).getD (ref r)
  | time => time
  | binary lhs op rhs => binary (substitute definition? lhs) op (substitute definition? rhs)
  | neg operand => neg (substitute definition? operand)
  | call function args => call function (substituteAll definition? args)
  | der r => der r

/-- A list of expressions with the definition of each name in its place. -/
def substituteAll (definition? : String → Option (Expr α)) : List (Expr α) → List (Expr α)
  | [] => []
  | e :: es => substitute definition? e :: substituteAll definition? es
end

section
variable {definition? : String → Option (Expr α)}

/-- Names that read as the values of their definitions can be replaced by these. -/
theorem value?_substitute [Add β] [Sub β] [Mul β] [Div β] [Neg β] [Elementary β]
    {read : String → Option β} {lift : α → β} {t : β}
    (agree : ∀ name d, definition? name = some d → read name = d.value? read lift t)
    (e : Expr α) : (e.substitute definition?).value? read lift t = e.value? read lift t := by
  induction e with
  | number value => rfl
  | ref r =>
    unfold substitute
    cases hd : definition? r.flatName with
    | none => rfl
    | some d => exact (agree _ d hd).symm
  | time => rfl
  | binary lhs op rhs ihl ihr => simp only [substitute, value?, ihl, ihr]
  | neg operand ih => simp only [substitute, value?, ih]
  | call function args ih =>
    rcases args with _ | ⟨arg, _ | ⟨second, rest⟩⟩
    · rfl
    · simp only [substitute, substituteAll, value?, ih arg (by simp)]
    · simp only [substitute, substituteAll, value?]
  | der r => rfl

theorem Rational.substitute (rational : ∀ name d, definition? name = some d → d.Rational)
    {e : Expr α} (h : e.Rational) : (e.substitute definition?).Rational := by
  induction e with
  | ref r =>
    unfold Expr.substitute
    cases hd : definition? r.flatName with
    | none => trivial
    | some d => exact rational _ d hd
  | number _ => trivial
  | time => trivial
  | binary lhs op rhs ihl ihr => exact ⟨h.1, ihl h.2.1, ihr h.2.2⟩
  | neg operand ih => exact ih h
  | call function args => exact h.elim
  | der r => exact h.elim

/-- What is read after a substitution has no definition, or is read by one that was put in. -/
theorem Rational.mem_refs_substitute {e : Expr α} (h : e.Rational) {r : Ref}
    (read : r ∈ (e.substitute definition?).refs) :
    (r ∈ e.refs ∧ definition? r.flatName = none) ∨
      ∃ s ∈ e.refs, ∃ d, definition? s.flatName = some d ∧ r ∈ d.refs := by
  induction e with
  | number _ => cases read
  | time => cases read
  | ref s =>
    unfold Expr.substitute at read
    cases hd : definition? s.flatName with
    | none =>
      rw [hd, Option.getD_none, refs, List.mem_singleton] at read
      subst read
      exact .inl ⟨by simp [refs], hd⟩
    | some d =>
      rw [hd, Option.getD_some] at read
      exact .inr ⟨s, by simp [refs], d, hd, read⟩
  | binary lhs op rhs ihl ihr =>
    rw [Expr.substitute, refs, List.mem_append] at read
    simp only [refs, List.mem_append]
    rcases read with read | read
    · rcases ihl h.2.1 read with ⟨kept, free⟩ | ⟨s, hs, put⟩
      · exact .inl ⟨.inl kept, free⟩
      · exact .inr ⟨s, .inl hs, put⟩
    · rcases ihr h.2.2 read with ⟨kept, free⟩ | ⟨s, hs, put⟩
      · exact .inl ⟨.inr kept, free⟩
      · exact .inr ⟨s, .inr hs, put⟩
  | neg operand ih => exact ih h read
  | call function args => exact h.elim
  | der s => exact h.elim

/-- What is divided by after a substitution was divided by before it, or is divided by in a
definition that was put in. -/
theorem Rational.mem_divisors_substitute {e : Expr α} (h : e.Rational) {b : Expr α}
    (divided : b ∈ (e.substitute definition?).divisors) :
    (∃ b' ∈ e.divisors, b = b'.substitute definition?) ∨
      ∃ name d, definition? name = some d ∧ b ∈ d.divisors := by
  induction e with
  | number _ => cases divided
  | time => cases divided
  | ref s =>
    unfold Expr.substitute at divided
    cases hd : definition? s.flatName with
    | none =>
      rw [hd] at divided
      cases divided
    | some d =>
      rw [hd] at divided
      exact .inr ⟨_, d, hd, divided⟩
  | binary lhs op rhs ihl ihr =>
    simp only [Expr.substitute, divisors, List.mem_append] at divided ⊢
    rcases divided with (divided | divided) | divided
    · rcases ihl h.2.1 divided with ⟨b', hb', same⟩ | put
      · exact .inl ⟨b', .inl (.inl hb'), same⟩
      · exact .inr put
    · rcases ihr h.2.2 divided with ⟨b', hb', same⟩ | put
      · exact .inl ⟨b', .inl (.inr hb'), same⟩
      · exact .inr put
    · split at divided
      · next quotient =>
        rw [List.mem_singleton] at divided
        exact .inl ⟨rhs, .inr (by simp [quotient]), divided⟩
      · cases divided
  | neg operand ih => exact ih h divided
  | call function args => exact h.elim
  | der s => exact h.elim

end

/-- What a divisor reads, the expression reads. -/
theorem Rational.refs_of_divisor {e : Expr α} (h : e.Rational) {b : Expr α}
    (divided : b ∈ e.divisors) : b.refs ⊆ e.refs := by
  induction e with
  | number _ => cases divided
  | time => cases divided
  | ref s => cases divided
  | binary lhs op rhs ihl ihr =>
    simp only [divisors, List.mem_append] at divided
    rw [refs]
    rcases divided with (divided | divided) | divided
    · exact List.Subset.trans (ihl h.2.1 divided) (List.subset_append_left _ _)
    · exact List.Subset.trans (ihr h.2.2 divided) (List.subset_append_right _ _)
    · split at divided
      · rw [List.mem_singleton.1 divided]
        exact List.subset_append_right _ _
      · cases divided
  | neg operand ih => exact ih h divided
  | call function args => exact h.elim
  | der s => exact h.elim

end Expr

namespace Definitions

/-! ## Passes -/

/-- An expression after a number of passes, each of which puts every definition in place of the
name that it defines. -/
def unfolded (d : Definitions α) : Nat → Expr α → Expr α
  | 0, e => e
  | passes + 1, e => unfolded d passes (e.substitute fun name => d.lookup name)

/-- Names read as the values of their definitions. -/
def Agrees [Add β] [Sub β] [Mul β] [Div β] [Neg β] [Elementary β] (d : Definitions α)
    (read : String → Option β) (lift : α → β) (t : β) : Prop :=
  ∀ name value, d.lookup name = some value → read name = value.value? read lift t

/-- Every definition is a rational expression. -/
def Rational (d : Definitions α) : Prop := ∀ definition ∈ d, definition.2.Rational

instance (d : Definitions α) : Decidable d.Rational :=
  inferInstanceAs (Decidable (∀ definition ∈ d, definition.2.Rational))

section
variable {d : Definitions α}

theorem Rational.lookup (h : d.Rational) {name : String} {value : Expr α}
    (found : d.lookup name = some value) : value.Rational :=
  h (name, value) (mem_of_lookup found)

theorem Rational.unfolded (h : d.Rational) (passes : Nat) {e : Expr α} (he : e.Rational) :
    (d.unfolded passes e).Rational := by
  induction passes generalizing e with
  | zero => exact he
  | succ passes ih => exact ih (he.substitute fun _ _ found => h.lookup found)

/-- After a pass for each layer, no name with a definition is left. -/
theorem Layered.lookup_of_unfolded {order : List String} (h : d.Layered order) (rational : d.Rational)
    {e : Expr α} (he : e.Rational)
    (inside : ∀ r ∈ e.refs, d.defines r.flatName → r.flatName ∈ order) :
    ∀ r ∈ (d.unfolded order.length e).refs, d.lookup r.flatName = none := by
  induction h generalizing e with
  | nil =>
    intro r hr
    rw [← Option.not_isSome_iff_eq_none]
    exact fun defined => nomatch inside r hr defined
  | @snoc order name earlier new behind ih =>
    rw [List.length_append, List.length_singleton, Definitions.unfolded]
    refine ih (he.substitute fun _ _ found => rational.lookup found) fun r hr defined => ?_
    rcases he.mem_refs_substitute hr with ⟨-, free⟩ | ⟨s, hs, value, found, read⟩
    · rw [defines, free] at defined
      cases defined
    · have reads : r.flatName ∈ d.reads s.flatName := mem_reads.2 ⟨value, found, ⟨r, read, rfl⟩, defined⟩
      have placed := inside s hs (by rw [defines, found]; rfl)
      rcases List.mem_append.1 placed with placed | placed
      · exact earlier.reads_mem placed _ reads
      · rw [List.mem_singleton.1 placed] at reads
        exact behind _ reads

end

section
variable [Add β] [Sub β] [Mul β] [Div β] [Neg β] [Elementary β] {d : Definitions α}
  {read : String → Option β} {lift : α → β} {t : β}

theorem Agrees.value?_unfolded (h : d.Agrees read lift t) (passes : Nat) (e : Expr α) :
    (d.unfolded passes e).value? read lift t = e.value? read lift t := by
  induction passes generalizing e with
  | zero => rfl
  | succ passes ih => exact (ih _).trans (Expr.value?_substitute h e)

/-- A value that no divisor in an expression and in the definitions has is the value of none in the
unfolded expression. -/
theorem Agrees.divisors_unfolded (h : d.Agrees read lift t) (rational : d.Rational)
    {avoided : Option β}
    (defined : ∀ definition ∈ d, ∀ b ∈ definition.2.divisors, b.value? read lift t ≠ avoided)
    (passes : Nat) {e : Expr α} (he : e.Rational)
    (own : ∀ b ∈ e.divisors, b.value? read lift t ≠ avoided) :
    ∀ b ∈ (d.unfolded passes e).divisors, b.value? read lift t ≠ avoided := by
  induction passes generalizing e with
  | zero => exact own
  | succ passes ih =>
    refine ih (he.substitute fun _ _ found => rational.lookup found) fun b hb => ?_
    rcases he.mem_divisors_substitute hb with ⟨b', hb', rfl⟩ | ⟨name, value, found, hb⟩
    · rw [Expr.value?_substitute h]
      exact own b' hb'
    · exact defined _ (mem_of_lookup found) b hb

end

end Definitions

/-! ## Models that compile -/

/-- What a name reads as from the state alone. -/
theorem CompiledModel.reading_toArray (c : CompiledModel α) (lift : α → β)
    (x : Vector β c.dimension) (name : String) :
    c.reading lift x.toArray name =
      ((slotOf? c.stateNames name).bind (x.toList[·]?)).or ((c.parameters.lookup name).map lift) := by
  have states : c.stateNames.length = x.toList.length := by simp [stateNames]
  have cut : c.recorded.zip (x.toList ++ []) = c.stateNames.zip x.toList ++ c.algebraicNames.zip [] :=
    List.zip_append states
  rw [List.append_nil, List.zip_nil_right, List.append_nil] at cut
  change ((c.recorded.zip x.toList).reverse.lookup name).or _ = _
  rw [cut, lookup_reverse_zip states]

namespace FlatModel.Assembled

variable [Zero α] [Add α] [Sub α] [Mul α] [Div α] [Neg α] [Elementary α]
  [Zero β] [Add β] [Sub β] [Mul β] [Div β] [Neg β] [Elementary β]
  {m : FlatModel α} {known : Valuation α} {c : CompiledModel α}

/-- Over the slots, each algebraic variable reads as the value of its definition. -/
theorem agrees (h : m.Assembled known c) (lift : α → β) (t : β) (x : Vector β c.dimension) :
    m.values.Agrees (c.reading lift (c.slots lift t x)) lift t := by
  intro name value found
  obtain ⟨e, he, hd⟩ := mem_valueDefinitions.1 (mem_of_lookup found)
  obtain ⟨v, reads, hv⟩ := h.reading_of_algebraic lift t x he hd
  exact reads.trans hv.symm

theorem algebraic_of_defines (h : m.Assembled known c) {name : String}
    (defined : m.values.defines name) : name ∈ c.algebraicNames :=
  (Definitions.sorted_eq_ok h.ordered).2.2 name (declared_of_value defined) defined

/-- A name that no algebraic variable has reads as it does from the state alone. -/
theorem reading_of_state (h : m.Assembled known c) (lift : α → β) (t : β)
    (x : Vector β c.dimension) {name : String} (free : m.values.lookup name = none) :
    c.reading lift (c.slots lift t x) name = c.reading lift x.toArray name := by
  have other : name ∉ c.algebraicNames := by
    intro inside
    have defined := (Definitions.sorted_eq_ok h.ordered).2.1 name inside
    rw [Definitions.defines, free] at defined
    cases defined
  have behind : (c.algebraicNames.zip ((c.slots lift t x).toList.drop c.dimension)).reverse.lookup
      name = none := by
    rw [List.lookup_eq_none_iff]
    intro p hp
    rw [List.mem_reverse] at hp
    simpa using fun same : name = p.1 => other (same ▸ (List.of_mem_zip hp).1)
  have states : c.stateNames.length = x.toList.length := by simp [CompiledModel.stateNames]
  have slots := List.take_append_drop c.dimension (c.slots lift t x).toList
  rw [CompiledModel.slots_state] at slots
  rw [CompiledModel.reading_toArray, CompiledModel.reading, CompiledModel.recorded, ← slots,
    List.zip_append states, List.reverse_append, List.lookup_append, behind, Option.none_or,
    lookup_reverse_zip states]

/-! ## Unfolded rates -/

section
variable {i : Fin c.dimension} {e : Expr α}

/-- No algebraic variable is left in the unfolded expression of a rate. -/
theorem lookup_of_unfolded_rate (h : m.Assembled known c) (rates : m.rates.Rational)
    (values : m.values.Rational) (found : m.rates.lookup (c.states.get i).name = some e) :
    ∀ r ∈ (m.values.unfolded c.algebraics.length e).refs, m.values.lookup r.flatName = none := by
  have passes : c.algebraicNames.length = c.algebraics.length := List.length_map _
  rw [← passes]
  exact h.layered.lookup_of_unfolded values (rates.lookup found)
    fun r _ defined => h.algebraic_of_defines defined

/-- From the state alone, the unfolded expression of a rate has the rate as its value. -/
theorem value?_unfolded_rate (h : m.Assembled known c) (rates : m.rates.Rational)
    (values : m.values.Rational) (found : m.rates.lookup (c.states.get i).name = some e)
    (lift : α → β) (t : β) (x : Vector β c.dimension) :
    (m.values.unfolded c.algebraics.length e).value? (c.reading lift x.toArray) lift t =
      some ((c.rates lift t x).get i) := by
  have named : c.stateNames[i.val]? = some (c.states.get i).name := by
    simp [CompiledModel.stateNames]
  obtain ⟨e', v, found', value, rate⟩ := h.rate_value_at lift t x named
  rw [found] at found'
  cases found'
  have same : (c.rates lift t x).get i = v := by
    rw [Vector.getElem?_eq_getElem i.isLt] at rate
    exact Option.some.inj rate
  rw [same, ← value, ← (h.agrees lift t x).value?_unfolded c.algebraics.length e]
  refine Expr.value?_congr _ fun r hr => (h.reading_of_state lift t x ?_).symm
  exact h.lookup_of_unfolded_rate rates values found r hr

/-- A value that no divisor has while the slots are filled and the rates are found is the value of
none in the unfolded expression of a rate. -/
theorem divisors_unfolded_rate (h : m.Assembled known c) (rates : m.rates.Rational)
    (values : m.values.Rational) (found : m.rates.lookup (c.states.get i).name = some e)
    {lift : α → β} {t : β} {x : Vector β c.dimension} {avoided : Option β}
    (met : ∀ definition ∈ m.rates ++ m.values, ∀ b ∈ definition.2.divisors,
      b.value? (c.reading lift (c.slots lift t x)) lift t ≠ avoided) :
    ∀ b ∈ (m.values.unfolded c.algebraics.length e).divisors,
      b.value? (c.reading lift x.toArray) lift t ≠ avoided := by
  intro b hb
  have rational := values.unfolded c.algebraics.length (rates.lookup found)
  have plain : b.value? (c.reading lift (c.slots lift t x)) lift t =
      b.value? (c.reading lift x.toArray) lift t := by
    refine Expr.value?_congr b fun r hr => h.reading_of_state lift t x ?_
    exact h.lookup_of_unfolded_rate rates values found r (rational.refs_of_divisor hb hr)
  rw [← plain]
  exact (h.agrees lift t x).divisors_unfolded values
    (fun definition hd => met definition (List.mem_append_right _ hd)) _ (rates.lookup found)
    (met _ (List.mem_append_left _ (mem_of_lookup found))) b hb

end

end FlatModel.Assembled

end Acausal

-- A compiled model solves its equations. At every time and state, the slots hold the state and
-- then each algebraic variable with the value of its defining expression, the rates are the
-- values of theirs, and so both sides of every equation of the scalar form agree.
import Acausal.Proofs.CompiledModels

namespace Acausal

variable {α β : Type}

namespace CompiledModel

/-! ## What names read as -/

/-- What a name reads as where the slots are filled: the variable of that name, and otherwise
the parameter. -/
def reading (c : CompiledModel α) (lift : α → β) (slots : Array β) (name : String) : Option β :=
  ((c.recorded.zip slots.toList).reverse.lookup name).or ((c.parameters.lookup name).map lift)

/-- The rate of the state of a name. -/
def rateReading (c : CompiledModel α) (rates : Vector β c.dimension) (name : String) : Option β :=
  (c.stateNames.zip rates.toList).reverse.lookup name

/-- The reading of a name is what compiled code reads for it. -/
theorem reading_eq {c : CompiledModel α} {known : Valuation α} {lift : α → β} {slots : Array β}
    (full : slots.size = c.recorded.length)
    (parameters : ∀ name, c.parameters.lookup name = known.lookup name) :
    c.reading lift slots = placeValue? (slotOf? c.recorded) known lift slots := by
  rw [← slotReading_eq full]
  funext name
  rw [reading, slotReading, parameters]

/-! ## Filling the slots -/

section
variable [Zero β] [Add β] [Sub β] [Mul β] [Div β] [Neg β] [Elementary β] {lift : α → β} {t : β}

/-- The slots after some algebraic variables are filled in behind those there are. -/
def fill (lift : α → β) (t : β) (algebraics : List (AlgebraicVariable α)) (slots : Array β) :
    Array β :=
  algebraics.foldl (fun slots a => slots.push (a.code.value lift slots t)) slots

theorem size_fill (algebraics : List (AlgebraicVariable α)) (slots : Array β) :
    (fill lift t algebraics slots).size = slots.size + algebraics.length := by
  induction algebraics generalizing slots with
  | nil => rfl
  | cons a algebraics ih =>
    have := ih (slots.push (a.code.value lift slots t))
    rw [Array.size_push] at this
    rw [List.length_cons]
    exact this.trans (by omega)

/-- Filling in more variables leaves the slots before them as they are. -/
theorem getElem?_fill {algebraics : List (AlgebraicVariable α)} {slots : Array β} {i : Nat}
    (h : i < slots.size) : (fill lift t algebraics slots)[i]? = slots[i]? := by
  induction algebraics generalizing slots with
  | nil => rfl
  | cons a algebraics ih =>
    have room : i < (slots.push (a.code.value lift slots t)).size := by
      rw [Array.size_push]
      omega
    refine (ih room).trans ?_
    rw [Array.getElem?_push_lt h, ← Array.getElem?_eq_getElem h]

variable {c : CompiledModel α} (x : Vector β c.dimension)

theorem slots_eq_fill : c.slots lift t x = fill lift t c.algebraics x.toArray := rfl

theorem size_slots : (c.slots lift t x).size = c.recorded.length := by
  rw [slots_eq_fill, size_fill]
  simp [recorded, stateNames, algebraicNames]

/-- The slots start with the state. -/
theorem slots_state : (c.slots lift t x).toList.take c.dimension = x.toList := by
  apply List.ext_getElem?
  intro i
  rw [List.getElem?_take]
  split
  · rename_i h
    rw [Array.getElem?_toList, slots_eq_fill, getElem?_fill (by simpa using h)]
    simp
  · rename_i h
    rw [List.getElem?_eq_none (by simpa using h)]

/-- The slot of an algebraic variable holds what its code gives over the slots before it. -/
theorem getElem?_slots {before after : List (AlgebraicVariable α)} {a : AlgebraicVariable α}
    (cut : c.algebraics = before ++ a :: after) :
    (c.slots lift t x)[c.dimension + before.length]? =
      some (a.code.value lift (fill lift t before x.toArray) t) := by
  have size : (fill lift t before x.toArray).size = c.dimension + before.length := by
    simp [size_fill]
  rw [slots_eq_fill, cut, fill, List.foldl_append, List.foldl_cons]
  change (fill lift t after _)[_]? = _
  rw [getElem?_fill (by simp [← size, fill]), ← size]
  exact Array.getElem?_push_size

/-- The slots before an algebraic variable are those it is computed from. -/
theorem getElem?_slots_before {before after : List (AlgebraicVariable α)} {i : Nat}
    (cut : c.algebraics = before ++ after) (h : i < c.dimension + before.length) :
    (c.slots lift t x)[i]? = (fill lift t before x.toArray)[i]? := by
  rw [slots_eq_fill, cut, fill, List.foldl_append]
  apply getElem?_fill
  change i < (fill lift t before x.toArray).size
  simpa [size_fill] using h

end

end CompiledModel

/-! ## Values and rates -/

namespace FlatModel.Assembled

variable [Zero α] [Add α] [Sub α] [Mul α] [Div α] [Neg α] [Elementary α]
  [Zero β] [Add β] [Sub β] [Mul β] [Div β] [Neg β] [Elementary β]
  {m : FlatModel α} {known : Valuation α} {c : CompiledModel α} {lift : α → β} {t : β}

theorem lookup_parameters (h : m.Assembled known c) (name : String) :
    c.parameters.lookup name = known.lookup name := by
  rw [h.parameters]
  exact lookup_parameterValues (fun _ => (known_iff_of_evaluateParameters h.evaluated).1) name

theorem layered (h : m.Assembled known c) : m.values.Layered c.algebraicNames :=
  (Definitions.sorted_eq_ok h.ordered).1

/-- An algebraic variable reads only slots before its own. -/
theorem slot_before (h : m.Assembled known c) {before after : List (AlgebraicVariable α)}
    {a : AlgebraicVariable α} (cut : c.algebraics = before ++ a :: after) {e : Expr α}
    (he : m.values.lookup a.name = some e) {r : Ref} (hr : r ∈ e.refs) {slot : Nat}
    (hslot : slotOf? c.recorded r.flatName = some slot) : slot < c.dimension + before.length := by
  by_cases state : slot < c.dimension
  · omega
  · have states : c.stateNames.length = c.dimension := List.length_map _
    have place := getElem?_of_slotOf? hslot
    rw [CompiledModel.recorded, List.getElem?_append_right (by omega), states] at place
    have inside := List.mem_of_getElem? place
    have defined := (Definitions.sorted_eq_ok h.ordered).2.1 _ inside
    have read : r.flatName ∈ m.values.reads a.name :=
      Definitions.mem_reads.2 ⟨e, he, ⟨r, hr, rfl⟩, defined⟩
    have names : c.algebraicNames = before.map (·.name) ++ a.name :: after.map (·.name) := by
      rw [CompiledModel.algebraicNames, cut, List.map_append, List.map_cons]
    obtain ⟨j, hj⟩ := List.getElem?_of_mem (h.layered.reads_before names _ read)
    have bound := (List.getElem?_eq_some_iff.1 hj).1
    rw [List.length_map] at bound
    have place' : c.algebraicNames[j]? = some r.flatName := by
      rw [names, List.getElem?_append_left (by simpa using bound), hj]
    have same : slot - c.dimension = j :=
      (List.getElem?_inj (List.getElem?_eq_some_iff.1 place).1 h.layered.nodup).1
        (place.trans place'.symm)
    omega

/-- The slot of an algebraic variable holds the value of the expression that defines it. -/
theorem algebraic_value (h : m.Assembled known c) (lift : α → β) (t : β) (x : Vector β c.dimension)
    {before after : List (AlgebraicVariable α)} {a : AlgebraicVariable α}
    (cut : c.algebraics = before ++ a :: after) :
    ∃ e v, m.values.lookup a.name = some e ∧
      e.value? (c.reading lift (c.slots lift t x)) lift t = some v ∧
      (c.slots lift t x)[c.dimension + before.length]? = some v := by
  obtain ⟨e, he, hcode⟩ := compile_eq_ok.1 (h.values a (by simp [cut]))
  refine ⟨e, _, he, ?_, CompiledModel.getElem?_slots x cut⟩
  have size : (CompiledModel.fill lift t before x.toArray).size = c.dimension + before.length := by
    simp [CompiledModel.size_fill]
  rw [← value_compile hcode fun r hr slot hslot => size ▸ h.slot_before cut he hr hslot]
  refine Expr.value?_congr e fun r hr => ?_
  rw [CompiledModel.reading_eq (CompiledModel.size_slots x) h.lookup_parameters]
  unfold placeValue?
  cases hslot : slotOf? c.recorded r.flatName with
  | none => rfl
  | some slot =>
    exact CompiledModel.getElem?_slots_before x cut (h.slot_before cut he hr hslot)

theorem algebraic_value_at (h : m.Assembled known c) (lift : α → β) (t : β)
    (x : Vector β c.dimension) {i : Nat}
    {name : String} (place : c.algebraicNames[i]? = some name) :
    ∃ e v, m.values.lookup name = some e ∧
      e.value? (c.reading lift (c.slots lift t x)) lift t = some v ∧
      (c.slots lift t x)[c.dimension + i]? = some v := by
  rw [CompiledModel.algebraicNames, List.getElem?_map] at place
  obtain ⟨a, ha, rfl⟩ := Option.map_eq_some_iff.1 place
  obtain ⟨bound, rfl⟩ := List.getElem?_eq_some_iff.1 ha
  have cut :
      c.algebraics = c.algebraics.take i ++ c.algebraics[i] :: c.algebraics.drop (i + 1) := by
    rw [← List.drop_eq_getElem_cons, List.take_append_drop]
  have value := h.algebraic_value lift t x cut
  rwa [List.length_take_of_le (Nat.le_of_lt bound)] at value

/-- The rate of a state is the value of the expression that defines it. -/
theorem rate_value_at (h : m.Assembled known c) (lift : α → β) (t : β)
    (x : Vector β c.dimension) {i : Nat}
    {name : String} (place : c.stateNames[i]? = some name) :
    ∃ e v, m.rates.lookup name = some e ∧
      e.value? (c.reading lift (c.slots lift t x)) lift t = some v ∧
      (c.rates lift t x)[i]? = some v := by
  rw [CompiledModel.stateNames, List.getElem?_map] at place
  obtain ⟨s, hs, rfl⟩ := Option.map_eq_some_iff.1 place
  obtain ⟨bound, rfl⟩ := List.getElem?_eq_some_iff.1 hs
  obtain ⟨e, he, hcode⟩ := compile_eq_ok.1 (h.rates c.states[i] (List.getElem_mem bound))
  refine ⟨e, _, he, ?_, Vector.getElem?_eq_getElem bound⟩
  rw [CompiledModel.reading_eq (CompiledModel.size_slots x) h.lookup_parameters,
    value_compile hcode]
  · simp [CompiledModel.rates]
  · intro r _ slot hslot
    rw [CompiledModel.size_slots]
    exact (List.getElem?_eq_some_iff.1 (getElem?_of_slotOf? hslot)).1

/-- A variable that an equation gives a value reads as the value of the other side. -/
theorem reading_of_algebraic (h : m.Assembled known c) (lift : α → β) (t : β)
    (x : Vector β c.dimension) {e : Equation α} (he : e ∈ m.equations) {name : String} {value : Expr α}
    (hd : e.definition? m.declared = some (.algebraic name value)) :
    ∃ v, c.reading lift (c.slots lift t x) name = some v ∧
      value.value? (c.reading lift (c.slots lift t x)) lift t = some v := by
  obtain ⟨defined, ordered⟩ := h.value_of_equation he hd
  obtain ⟨slot, hslot⟩ := Option.isSome_iff_exists.1 <|
    slotOf?_isSome_iff.2 (List.mem_append_right c.stateNames ordered)
  have place := getElem?_of_slotOf? hslot
  have states : c.stateNames.length = c.dimension := List.length_map _
  -- The name is not that of a state, so its slot is behind those of the states.
  have behind : c.dimension ≤ slot := by
    by_contra before
    rw [List.getElem?_append_left (by omega)] at place
    have state := List.mem_of_getElem? place
    rw [h.stateNames, FlatModel.stateNames, List.mem_filter] at state
    have hasValue := (Definitions.sorted_eq_ok h.ordered).2.1 name ordered
    exact h.determinate.rate_xor_value state.1 (state.2.trans hasValue.symm)
  rw [List.getElem?_append_right (by omega), states] at place
  obtain ⟨e', v, he', hv, slots⟩ := h.algebraic_value_at lift t x place
  rw [defined] at he'
  cases he'
  refine ⟨v, ?_, hv⟩
  rw [CompiledModel.reading_eq (CompiledModel.size_slots x) h.lookup_parameters, placeValue?,
    CompiledModel.recorded, hslot]
  rwa [Nat.add_sub_cancel' behind] at slots

/-- A rate that an equation gives is the value of the other side. -/
theorem rateReading_of_derivative (h : m.Assembled known c) (lift : α → β) (t : β)
    (x : Vector β c.dimension) {e : Equation α} (he : e ∈ m.equations) {name : String} {value : Expr α}
    (hd : e.definition? m.declared = some (.derivative name value)) :
    ∃ v, c.rateReading (c.rates lift t x) name = some v ∧
      value.value? (c.reading lift (c.slots lift t x)) lift t = some v := by
  obtain ⟨defined, state⟩ := h.rate_of_equation he hd
  obtain ⟨slot, hslot⟩ := Option.isSome_iff_exists.1 (slotOf?_isSome_iff.2 state)
  obtain ⟨e', v, he', hv, rate⟩ :=
    h.rate_value_at lift t x (getElem?_of_slotOf? hslot)
  rw [defined] at he'
  cases he'
  refine ⟨v, ?_, hv⟩
  rw [CompiledModel.rateReading, lookup_reverse_zip (by simp [CompiledModel.stateNames]), hslot]
  simpa using rate

end FlatModel.Assembled

/-! ## Solutions -/

section
variable [Zero β] [Add β] [Sub β] [Mul β] [Div β] [Neg β] [Elementary β]

/-- Both sides of an equation have a value, and the same, where the slots and the rates of a
compiled model give those of variables and derivatives. -/
def Equation.HoldsAt (e : Equation α) (c : CompiledModel α) (lift : α → β) (t : β)
    (slots : Array β) (rates : Vector β c.dimension) : Prop :=
  let side (s : Expr α) :=
    s.meaning? (fun r => c.reading lift slots r.flatName)
      (fun r => c.rateReading rates r.flatName) lift t
  ∃ v, side e.lhs = some v ∧ side e.rhs = some v

/-- At a time and a state, a compiled model solves a model in scalar form: the slots start with
the state, each algebraic variable and each rate has the value of the expression that an equation
gives for it, and every equation holds. -/
structure CompiledModel.Solves (c : CompiledModel α) (m : FlatModel α) (lift : α → β) (t : β)
    (x : Vector β c.dimension) : Prop where
  size : (c.slots lift t x).size = c.recorded.length
  state : (c.slots lift t x).toList.take c.dimension = x.toList
  algebraics : ∀ (i : Nat) name, c.algebraicNames[i]? = some name → ∃ e ∈ m.equations, ∃ value v,
    e.definition? m.declared = some (.algebraic name value) ∧
      value.value? (c.reading lift (c.slots lift t x)) lift t = some v ∧
      (c.slots lift t x)[c.dimension + i]? = some v
  rates : ∀ (i : Nat) name, c.stateNames[i]? = some name → ∃ e ∈ m.equations, ∃ value v,
    e.definition? m.declared = some (.derivative name value) ∧
      value.value? (c.reading lift (c.slots lift t x)) lift t = some v ∧
      (c.rates lift t x)[i]? = some v
  equations : ∀ e ∈ m.equations, e.HoldsAt c lift t (c.slots lift t x) (c.rates lift t x)

end

/-- What an equation defines is one side of it, by the other. -/
theorem sides_of_definition {declared : List String} {e : Equation α} {d : Definition α}
    (h : e.definition? declared = some d) :
    definition? declared e.lhs e.rhs = some d ∨ definition? declared e.rhs e.lhs = some d := by
  unfold Equation.definition? at h
  cases hl : definition? declared e.lhs e.rhs with
  | none => exact .inr (by simpa [hl] using h)
  | some d' => exact .inl (by simpa [hl] using h)

namespace FlatModel.Assembled

variable [Zero α] [Add α] [Sub α] [Mul α] [Div α] [Neg α] [Elementary α]
  [Zero β] [Add β] [Sub β] [Mul β] [Div β] [Neg β] [Elementary β]
  {m : FlatModel α} {known : Valuation α} {c : CompiledModel α} {lift : α → β} {t : β}

/-- The side that is defined has the value of the other side. -/
theorem side_value (h : m.Assembled known c) (lift : α → β) (t : β)
    (x : Vector β c.dimension) {e : Equation α}
    (he : e ∈ m.equations) {d : Definition α} (hd : e.definition? m.declared = some d)
    {side other : Expr α} (turned : definition? m.declared side other = some d) :
    ∃ v, side.meaning? (fun r => c.reading lift (c.slots lift t x) r.flatName)
        (fun r => c.rateReading (c.rates lift t x) r.flatName) lift t = some v ∧
      other.meaning? (fun r => c.reading lift (c.slots lift t x) r.flatName)
        (fun r => c.rateReading (c.rates lift t x) r.flatName) lift t = some v := by
  unfold definition? at turned
  split at turned
  · cases turned
    obtain ⟨v, rate, value⟩ := h.rateReading_of_derivative lift t x he hd
    exact ⟨v, rate, Expr.meaning?_of_value? value⟩
  · split at turned
    · cases turned
      obtain ⟨v, reading, value⟩ := h.reading_of_algebraic lift t x he hd
      exact ⟨v, reading, Expr.meaning?_of_value? value⟩
    · cases turned
  · cases turned

theorem solves (h : m.Assembled known c) (x : Vector β c.dimension) : c.Solves m lift t x where
  size := CompiledModel.size_slots x
  state := CompiledModel.slots_state x
  algebraics i name place := by
    obtain ⟨value, v, defined, hv, slot⟩ := h.algebraic_value_at lift t x place
    obtain ⟨e, he, hd⟩ := mem_valueDefinitions.1 (mem_of_lookup defined)
    exact ⟨e, he, value, v, hd, hv, slot⟩
  rates i name place := by
    obtain ⟨value, v, defined, hv, rate⟩ := h.rate_value_at lift t x place
    obtain ⟨e, he, hd⟩ := mem_rateDefinitions.1 (mem_of_lookup defined)
    exact ⟨e, he, value, v, hd, hv, rate⟩
  equations e he := by
    obtain ⟨d, hd, _⟩ := h.determinate.orientable e he
    rcases sides_of_definition hd with turned | turned
    · exact h.side_value lift t x he hd turned
    · obtain ⟨v, right, left⟩ := h.side_value lift t x he hd turned
      exact ⟨v, left, right⟩

/-- Each parameter has the value of its binding under the values of all parameters. -/
theorem parameter_value (h : m.Assembled known c) (distinct : (m.parameters.map (·.name)).Nodup)
    {p : FlatParameter α} (hp : p ∈ m.parameters) :
    ∃ v, c.parameters.lookup p.name = some v ∧
      p.binding.value? (fun name => c.parameters.lookup name) id 0 = some v := by
  have found := (known_iff_of_evaluateParameters h.evaluated).2
    (List.mem_map_of_mem hp)
  obtain ⟨v, hv⟩ := Option.isSome_iff_exists.1 found
  refine ⟨v, (h.lookup_parameters p.name).trans hv, ?_⟩
  rw [funext h.lookup_parameters, value_of_evaluateParameters h.evaluated distinct hp, hv]

end FlatModel.Assembled

/-! ## The law -/

section
variable [Zero α] [Add α] [Sub α] [Mul α] [Div α] [Neg α] [Elementary α]
  [Zero β] [Add β] [Sub β] [Mul β] [Div β] [Neg β] [Elementary β]

/-- A model that compiles has a scalar form of which every equation holds at every time and
every state, over any numbers that its constants lift to. -/
theorem every_equation_holds_at_every_point {m : FlatModel α} (distinct : m.names.Nodup)
    {name : String} {c : CompiledModel α} (h : m.compile name = .ok c) (lift : α → β) (t : β)
    (x : Vector β c.dimension) :
    ∃ s, m.scalarize = .ok s ∧ c.Solves s lift t x ∧
      ∀ p ∈ s.parameters, ∃ v, c.parameters.lookup p.name = some v ∧
        p.binding.value? (fun name => c.parameters.lookup name) id 0 = some v := by
  unfold FlatModel.compile at h
  simp only [bind_eq_ok, mapError_eq_ok] at h
  obtain ⟨s, hs, compiled⟩ := h
  obtain ⟨known, assembled⟩ := FlatModel.assembled_of_compileScalar compiled
  refine ⟨s, hs, assembled.solves x, fun p hp => assembled.parameter_value ?_ hp⟩
  -- Expanding arrays leaves the parameters as they are.
  obtain ⟨_, _, rfl⟩ := FlatModel.scalarize_eq_ok.1 hs
  exact (List.nodup_append.1 distinct).1

end

/-- A weight on a spring: its place, and the force that pulls it back. -/
def spring : FlatModel Float where
  name := "Spring"
  parameters := [⟨"k", .number 2, false⟩]
  unknowns := [⟨"x", none, some (.ref ⟨"k", none⟩)⟩, ⟨"f", none, none⟩]
  equations :=
    [⟨.der ⟨"x", none⟩, .ref ⟨"f", none⟩⟩,
      ⟨.neg (.binary (.ref ⟨"k", none⟩) .mul (.ref ⟨"x", none⟩)), .ref ⟨"f", none⟩⟩]

/-- The weight compiled: its place has the first slot and the force the second one. -/
def compiledSpring : CompiledModel Float where
  name := "Spring"
  states := [⟨"x", 2, [.load 1]⟩]
  algebraics := [⟨"f", [.const 2, .load 0, .operate .mul, .neg]⟩]
  parameters := [("k", 2)]

theorem spring_equations_hold :
    spring.compile "Spring" = .ok compiledSpring ∧
      ∃ s, spring.scalarize = .ok s ∧
        compiledSpring.Solves s Dual.constant (Dual.constant 0) #v[⟨3, 1⟩] ∧
        ∀ p ∈ s.parameters, ∃ v, compiledSpring.parameters.lookup p.name = some v ∧
          p.binding.value? (fun name => compiledSpring.parameters.lookup name) id 0 = some v := by
  have compiled : spring.compile "Spring" = .ok compiledSpring := by with_unfolding_all rfl
  exact ⟨compiled,
    every_equation_holds_at_every_point (by decide) compiled Dual.constant (Dual.constant 0) _⟩

end Acausal

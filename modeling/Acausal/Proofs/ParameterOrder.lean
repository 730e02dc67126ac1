-- The order of parameters. The values of parameters are the only ones that satisfy all bindings,
-- so they do not depend on the order in which the parameters are declared: in another order the
-- same values are found, or none as before.
import Acausal.Proofs.EquationOrder
import Acausal.Proofs.ParameterValues

namespace Acausal

variable {α : Type}

namespace FlatModel

open FlatParameter

variable {m : FlatModel α} {ps : List (FlatParameter α)} {known known' : Valuation α}

/-! ## Bindings in another order -/

theorem bindings_alike (distinct : (m.parameters.map (·.name)).Nodup)
    (same : m.parameters.Perm ps) :
    m.bindings.Alike ({ m with parameters := ps } : FlatModel α).bindings :=
  lookup_eq_of_perm (same.map _) (bindings_names ▸ distinct)

theorem bindingsComputable_of_perm (computable : m.BindingsComputable)
    (same : m.parameters.Perm ps) :
    ({ m with parameters := ps } : FlatModel α).BindingsComputable := fun p listed =>
  (computable p (same.mem_iff.2 listed)).mono fun _ _ => (same.map (·.name)).mem_iff.1

/-- Bindings can be computed from the parameters if they read nothing else and can be compiled
when the parameters are known, whatever their values are. -/
theorem bindingsComputable_iff [Zero α] : m.BindingsComputable ↔
    (∀ p ∈ m.parameters, ∀ r ∈ p.binding.refs, r.flatName ∈ m.parameters.map (·.name)) ∧
      ∀ given : Valuation α, (given.map (·.1)).Perm (m.parameters.map (·.name)) →
        ∀ p ∈ m.parameters, ∃ code, p.binding.compile (fun _ => none) given = .ok code := by
  constructor
  · intro computable
    refine ⟨fun p hp => (computable p hp).reads, fun given named p hp => ?_⟩
    rw [exists_compile_eq_ok]
    refine (computable p hp).mono fun r _ listed => .inr ?_
    rw [Known, lookup_isSome_iff_mem]
    exact named.mem_iff.2 listed
  · rintro ⟨within, compiles⟩ p hp
    have zeros : ((m.parameters.map fun q => (q.name, (0 : α))).map (·.1)).Perm
        (m.parameters.map (·.name)) := by
      rw [List.map_map]
      exact .refl _
    obtain ⟨plain, applied, -⟩ := (exists_compile_eq_ok _).1 (compiles _ zeros p hp)
    exact ⟨plain, applied, within p hp⟩

/-! ## Values in another order -/

variable [Zero α] [Add α] [Sub α] [Mul α] [Div α] [Neg α] [Elementary α]

theorem names_of_evaluateParameters (h : m.evaluateParameters = .ok known) :
    (known.map (·.1)).Perm (m.parameters.map (·.name)) := by
  simpa using (passes_keeps h .start).names

/-- Whatever satisfies the bindings has the values found. -/
theorem agrees_of_evaluateParameters (h : m.evaluateParameters = .ok known)
    {other : String → Option α}
    (solves : ∀ p ∈ m.parameters, p.binding.value? other id 0 = other p.name)
    {p : FlatParameter α} (hp : p ∈ m.parameters) : other p.name = known.lookup p.name := by
  have stands := passes_keeps h .start
  exact stands.solved.agrees solves (stands.known_iff.2 (List.mem_map_of_mem hp))

theorem lookup_eq_of_evaluateParameters (distinct : (m.parameters.map (·.name)).Nodup)
    (same : m.parameters.Perm ps) (h : m.evaluateParameters = .ok known)
    (h' : ({ m with parameters := ps } : FlatModel α).evaluateParameters = .ok known')
    (name : String) : known.lookup name = known'.lookup name := by
  have distinct' : (ps.map (·.name)).Nodup := (same.map _).nodup_iff.1 distinct
  by_cases listed : name ∈ m.parameters.map (·.name)
  · obtain ⟨p, hp, rfl⟩ := List.mem_map.1 listed
    have solves (q : FlatParameter α) (hq : q ∈ m.parameters) :
        q.binding.value? (fun name => known'.lookup name) id 0 = known'.lookup q.name :=
      value_of_evaluateParameters h' distinct' (same.mem_iff.1 hq)
    exact (agrees_of_evaluateParameters h solves hp).symm
  · have unknown : ¬ Known known name := mt (known_iff_of_evaluateParameters h).1 listed
    have unknown' : ¬ Known known' name := by
      rw [known_iff_of_evaluateParameters h']
      exact mt (same.map _).mem_iff.2 listed
    rw [Known, Option.not_isSome_iff_eq_none] at unknown unknown'
    rw [unknown, unknown']

/-- Parameters have values in one order if they do in another. -/
theorem exists_evaluateParameters_of_perm (distinct : (m.parameters.map (·.name)).Nodup)
    (same : m.parameters.Perm ps) (h : m.evaluateParameters = .ok known) :
    ∃ known', ({ m with parameters := ps } : FlatModel α).evaluateParameters = .ok known' := by
  obtain ⟨computable, acyclic⟩ := (exists_evaluateParameters_eq_ok distinct).1 ⟨known, h⟩
  rw [exists_evaluateParameters_eq_ok ((same.map _).nodup_iff.1 distinct)]
  exact ⟨bindingsComputable_of_perm computable same,
    (bindings_alike distinct same).acyclic_iff.1 acyclic⟩

/-- In another order the parameters have the same values, or none again. -/
theorem evaluateParameters_of_perm (distinct : (m.parameters.map (·.name)).Nodup)
    (same : m.parameters.Perm ps) :
    Option.Rel (fun known known' => ∀ name, known.lookup name = known'.lookup name)
      m.evaluateParameters.toOption
      ({ m with parameters := ps } : FlatModel α).evaluateParameters.toOption := by
  cases h : m.evaluateParameters with
  | ok known =>
    obtain ⟨known', h'⟩ := exists_evaluateParameters_of_perm distinct same h
    rw [h']
    exact .some (lookup_eq_of_evaluateParameters distinct same h h')
  | error e =>
    cases h' : ({ m with parameters := ps } : FlatModel α).evaluateParameters with
    | error e' => exact .none
    | ok known' =>
      obtain ⟨known, found⟩ := exists_evaluateParameters_of_perm
        (m := { m with parameters := ps }) ((same.map _).nodup_iff.1 distinct) same.symm h'
      cases h.symm.trans found

/-- Passes over the bindings end. All parameters get a value exactly when no binding reads itself
through others, none reads what is no parameter, and each can be compiled when the parameters are
known. The values then belong to the parameters and to nothing else, each is that of its binding
under all of them, and no other values are. Parameters declared in another order have the same
values, or none again. -/
theorem parameters_have_one_solution (m : FlatModel α)
    (distinct : (m.parameters.map (·.name)).Nodup) :
    ((∀ (known : Valuation α) (pending : List (FlatParameter α)), passes known pending =
        if pending.isEmpty then .ok known
        else pass known pending >>= fun after =>
          if after.2.length = pending.length then .error (.unresolved (after.2.map (·.name)))
          else passes after.1 after.2) ∧
      WellFounded (PassesOn (α := α))) ∧
    ((∃ known, m.evaluateParameters = .ok known) ↔
      m.bindings.Acyclic ∧
        (∀ p ∈ m.parameters, ∀ r ∈ p.binding.refs, r.flatName ∈ m.parameters.map (·.name)) ∧
        ∀ given : Valuation α, (given.map (·.1)).Perm (m.parameters.map (·.name)) →
          ∀ p ∈ m.parameters, ∃ code, p.binding.compile (fun _ => none) given = .ok code) ∧
    (∀ known, m.evaluateParameters = .ok known →
      (known.map (·.1)).Perm (m.parameters.map (·.name)) ∧
        (∀ p ∈ m.parameters,
          p.binding.value? (fun name => known.lookup name) id 0 = known.lookup p.name) ∧
        ∀ other : String → Option α,
          (∀ p ∈ m.parameters, p.binding.value? other id 0 = other p.name) →
          ∀ p ∈ m.parameters, other p.name = known.lookup p.name) ∧
    ∀ ps, m.parameters.Perm ps →
      Option.Rel (fun known known' => ∀ name, known.lookup name = known'.lookup name)
        m.evaluateParameters.toOption
        ({ m with parameters := ps } : FlatModel α).evaluateParameters.toOption := by
  refine ⟨⟨passes_eq, passesOn_wellFounded⟩, ?_, fun known h => ?_, fun ps same => ?_⟩
  · rw [exists_evaluateParameters_eq_ok distinct, ← bindingsComputable_iff]
    exact and_comm
  · exact ⟨names_of_evaluateParameters h, fun p hp => value_of_evaluateParameters h distinct hp,
      fun other solves p hp => agrees_of_evaluateParameters h solves hp⟩
  · exact evaluateParameters_of_perm distinct same

/-- A gain in three factors, declared before them and they in no order. -/
def gains : FlatModel Float where
  name := "Gains"
  parameters :=
    [⟨"gain", .binary (.ref ⟨"second", none⟩) .mul (.ref ⟨"third", none⟩), false⟩,
      ⟨"third", .binary (.ref ⟨"first", none⟩) .sub (.ref ⟨"second", none⟩), false⟩,
      ⟨"first", .number 2, false⟩, ⟨"second", .call "sin" [.ref ⟨"first", none⟩], false⟩]
  unknowns := []
  equations := []

theorem gains_have_one_solution :
    (gains.parameters.map (·.name)).Nodup ∧
      ∃ known, gains.evaluateParameters = .ok known ∧
        (known.map (·.1)).Perm ["gain", "third", "first", "second"] ∧
        known.lookup "first" = some 2 ∧
        Option.Rel (fun known known' => ∀ name, known.lookup name = known'.lookup name)
          gains.evaluateParameters.toOption
          ({ gains with parameters := gains.parameters.reverse } :
            FlatModel Float).evaluateParameters.toOption := by
  have distinct : (gains.parameters.map (·.name)).Nodup := by decide
  obtain ⟨-, -, only, anyOrder⟩ := parameters_have_one_solution gains distinct
  obtain ⟨known, found⟩ : ∃ known, gains.evaluateParameters = .ok known := by
    with_unfolding_all exact ⟨_, rfl⟩
  obtain ⟨names, values, -⟩ := only known found
  have first : ⟨"first", .number 2, false⟩ ∈ gains.parameters := by simp [gains]
  exact ⟨distinct, known, found, names, (values _ first).symm,
    anyOrder _ (List.reverse_perm _).symm⟩

end FlatModel

end Acausal

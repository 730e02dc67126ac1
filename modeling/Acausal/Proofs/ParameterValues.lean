-- The values of parameters. Passes over the bindings come to an end with all values known
-- exactly when every binding can be computed from the parameters and none reads itself through
-- others; each value is then that of its binding under all of them.
import Acausal.System.Parameters
import Acausal.Proofs.DefinitionOrder
import Acausal.Proofs.StackCode
import Mathlib.Data.List.Perm.Basic

namespace Acausal

variable {α : Type}

namespace FlatParameter

/-- Bindings as definitions of the parameters. -/
def bindings (ps : List (FlatParameter α)) : Definitions α := ps.map fun p => (p.name, p.binding)

variable {ps : List (FlatParameter α)}

theorem bindings_names : (bindings ps).map (·.1) = ps.map (·.name) := by
  simp [bindings]

theorem lookup_bindings (distinct : (ps.map (·.name)).Nodup) {p : FlatParameter α} (hp : p ∈ ps) :
    (bindings ps).lookup p.name = some p.binding :=
  lookup_of_mem (bindings_names ▸ distinct) (List.mem_map_of_mem hp)

variable {p : FlatParameter α} {known known' : Valuation α}
  {pending pending' waiting : List (FlatParameter α)}

theorem isReady_iff : p.isReady known ↔ ∀ r ∈ p.binding.refs, Known known r.flatName := by
  simp [isReady, Known]

/-! ## What passes keep -/

section
variable [Zero α] [Add α] [Sub α] [Mul α] [Div α] [Neg α] [Elementary α]

/-- Values found one after another, each by evaluating a binding under those before it. -/
inductive Solved (ps : List (FlatParameter α)) : Valuation α → Prop where
  | nil : Solved ps []
  | cons {known : Valuation α} {p : FlatParameter α} {v : α} (earlier : Solved ps known)
      (mem : p ∈ ps) (ready : p.isReady known) (value : p.binding.evaluate known = .ok v) :
      Solved ps ((p.name, v) :: known)

/-- Where the passes stand: some values are found, and the other parameters are left. -/
structure Progress (ps : List (FlatParameter α)) (known : Valuation α)
    (pending : List (FlatParameter α)) : Prop where
  solved : Solved ps known
  left : pending ⊆ ps
  names : (known.map (·.1) ++ pending.map (·.name)).Perm (ps.map (·.name))

namespace Progress

theorem start : Progress ps [] ps := ⟨.nil, List.Subset.refl ps, .refl _⟩

theorem perm (h : Progress ps known pending) (same : pending.Perm pending') :
    Progress ps known pending' where
  solved := h.solved
  left _ hp := h.left (same.mem_iff.2 hp)
  names := ((same.map _).symm.append_left _).trans h.names

/-- A ready binding is evaluated. -/
theorem step {v : α} (h : Progress ps known (p :: pending)) (ready : p.isReady known)
    (value : p.binding.evaluate known = .ok v) : Progress ps ((p.name, v) :: known) pending where
  solved := .cons h.solved (h.left List.mem_cons_self) ready value
  left _ hq := h.left (List.mem_cons_of_mem _ hq)
  names := List.perm_middle.symm.trans h.names

/-- A name is known or is left. -/
theorem known_or_left (h : Progress ps known pending) {name : String}
    (hname : name ∈ ps.map (·.name)) : Known known name ∨ name ∈ pending.map (·.name) := by
  rw [Known, lookup_isSome_iff_mem, ← List.mem_append]
  exact h.names.mem_iff.2 hname

theorem known_iff (h : Progress ps known []) {name : String} :
    Known known name ↔ name ∈ ps.map (·.name) := by
  rw [Known, lookup_isSome_iff_mem]
  simpa using h.names.mem_iff

end Progress

/-- A pass keeps what stands, whatever parameters are held back from it. -/
theorem pass_keeps (held : List (FlatParameter α))
    (h : pass known pending = .ok (known', waiting))
    (stands : Progress ps known (pending ++ held)) : Progress ps known' (waiting ++ held) := by
  induction pending generalizing known held waiting with
  | nil =>
    cases h
    exact stands
  | cons p rest ih =>
    unfold pass at h
    split at h
    · rename_i ready
      cases value : p.binding.evaluate known with
      | error e => simp [value] at h
      | ok v =>
        simp only [value] at h
        exact ih held h (stands.step ready value)
    · cases later : pass known rest with
      | error e => simp [later] at h
      | ok result =>
        obtain ⟨known₁, waiting₁⟩ := result
        simp only [later, Except.ok.injEq, Prod.mk.injEq] at h
        obtain ⟨rfl, rfl⟩ := h
        exact (ih (p :: held) later (stands.perm List.perm_middle.symm)).perm List.perm_middle

/-- Passes that come to an end leave nothing out. -/
theorem passes_keeps (h : passes known pending = .ok known') (stands : Progress ps known pending) :
    Progress ps known' [] := by
  induction known, pending using passes.induct generalizing known' with
  | case1 known pending empty =>
    rw [passes, if_pos empty] at h
    cases h
    rwa [List.isEmpty_iff.1 empty] at stands
  | case2 known pending more e failed =>
    rw [passes, if_neg more, failed] at h
    cases h
  | case3 known pending more known₁ waiting passed fewer ih =>
    rw [passes, if_neg more] at h
    simp only [passed, dif_pos fewer] at h
    refine ih h ?_
    have kept := pass_keeps [] passed (by simpa using stands)
    simpa using kept
  | case4 known pending more known₁ waiting passed stuck =>
    rw [passes, if_neg more] at h
    simp only [passed, dif_neg stuck] at h
    cases h

/-! ## The values found -/

namespace Solved

/-- Everything that the binding of a known parameter reads is known. -/
theorem reads_known (h : Solved ps known) (distinct : (ps.map (·.name)).Nodup) (hp : p ∈ ps)
    (found : Known known p.name) : ∀ r ∈ p.binding.refs, Known known r.flatName := by
  induction h with
  | nil => simp [Known] at found
  | @cons known q v earlier mem ready value ih =>
    intro r hr
    have older : Known known r.flatName := by
      by_cases same : p.name = q.name
      · have : p = q := List.inj_on_of_nodup_map distinct hp mem same
        exact isReady_iff.1 (this ▸ ready) r hr
      · refine ih ?_ r hr
        simpa [Known, lookup_isSome_iff_mem, same] using found
    rw [Known, lookup_isSome_iff_mem] at older ⊢
    exact List.mem_cons_of_mem _ older

/-- In the order in which they were found, each parameter stands behind what it reads. -/
theorem layered (h : Solved ps known) (distinct : (ps.map (·.name)).Nodup)
    (once : (known.map (·.1)).Nodup) : (bindings ps).Layered (known.map (·.1)).reverse := by
  induction h with
  | nil => exact .nil
  | @cons known p v earlier mem ready value ih =>
    rw [List.map_cons, List.nodup_cons] at once
    rw [List.map_cons, List.reverse_cons]
    refine .snoc (ih once.2) (by simpa using once.1) fun n hn => ?_
    obtain ⟨e, he, ⟨r, hr, rfl⟩, _⟩ := Definitions.mem_reads.1 hn
    rw [lookup_bindings distinct mem] at he
    cases he
    rw [List.mem_reverse, ← lookup_isSome_iff_mem]
    exact isReady_iff.1 ready r hr

/-- A known value is that of its binding under all known values. -/
theorem value_eq (h : Solved ps known) (distinct : (ps.map (·.name)).Nodup)
    (once : (known.map (·.1)).Nodup) (hp : p ∈ ps) (found : Known known p.name) :
    p.binding.value? (fun name => known.lookup name) id 0 = known.lookup p.name := by
  induction h with
  | nil => simp [Known] at found
  | @cons known q v earlier mem ready value ih =>
    rw [List.map_cons, List.nodup_cons] at once
    -- What is read was known before the newest name, so it reads the same under it.
    have unchanged (hreads : ∀ r ∈ p.binding.refs, Known known r.flatName) :
        p.binding.value? (fun name => List.lookup name ((q.name, v) :: known)) id 0 =
          p.binding.value? (fun name => known.lookup name) id 0 := by
      refine Expr.value?_congr _ fun r hr => ?_
      have older := hreads r hr
      rw [Known, lookup_isSome_iff_mem] at older
      have differs : r.flatName ≠ q.name := fun same => once.1 (same ▸ older)
      simp [List.lookup_cons, beq_eq_false_iff_ne.2 differs]
    by_cases same : p.name = q.name
    · have : p = q := List.inj_on_of_nodup_map distinct hp mem same
      subst this
      rw [unchanged (isReady_iff.1 ready), value?_of_evaluate value, List.lookup_cons_self]
    · have older : Known known p.name := by
        simpa [Known, lookup_isSome_iff_mem, same] using found
      rw [unchanged (earlier.reads_known distinct hp older), ih once.2 older, List.lookup_cons,
        beq_eq_false_iff_ne.2 same]

/-- No other values satisfy the bindings: whatever does agrees with each value found. -/
theorem agrees (h : Solved ps known) {other : String → Option α}
    (solves : ∀ p ∈ ps, p.binding.value? other id 0 = other p.name) {name : String}
    (found : Known known name) : other name = known.lookup name := by
  induction h generalizing name with
  | nil => simp [Known] at found
  | @cons known p v earlier mem ready value ih =>
    by_cases same : name = p.name
    · -- What the binding reads was found before, where the two agree.
      have here : p.binding.value? other id 0 = some v := by
        rw [← value?_of_evaluate value]
        exact Expr.value?_congr _ fun r hr => ih (isReady_iff.1 ready r hr)
      rw [same, List.lookup_cons_self, ← here, solves p mem]
    · have older : Known known name := by
        simpa [Known, lookup_isSome_iff_mem, same] using found
      rw [ih older, List.lookup_cons, beq_eq_false_iff_ne.2 same]

end Solved

/-! ## When passes come to an end -/

theorem pass_length (h : pass known pending = .ok (known', waiting)) :
    waiting.length ≤ pending.length ∧
      ((∃ p ∈ pending, p.isReady known) → waiting.length < pending.length) := by
  induction pending generalizing known waiting with
  | nil =>
    cases h
    simp
  | cons p rest ih =>
    unfold pass at h
    split at h
    · cases value : p.binding.evaluate known with
      | error e => simp [value] at h
      | ok v =>
        simp only [value] at h
        have := (ih h).1
        exact ⟨by simp; omega, fun _ => by simp; omega⟩
    · rename_i notReady
      cases later : pass known rest with
      | error e => simp [later] at h
      | ok result =>
        obtain ⟨known₁, waiting₁⟩ := result
        simp only [later, Except.ok.injEq, Prod.mk.injEq] at h
        obtain ⟨rfl, rfl⟩ := h
        obtain ⟨le, lt⟩ := ih later
        refine ⟨by simpa using le, ?_⟩
        rintro ⟨q, hq, ready⟩
        rcases List.mem_cons.1 hq with rfl | hq
        · exact absurd ready notReady
        · simpa using lt ⟨q, hq, ready⟩

/-- Passes are made one after another until none is left or one gets no further. -/
theorem passes_eq (known : Valuation α) (pending : List (FlatParameter α)) :
    passes known pending =
      if pending.isEmpty then .ok known
      else pass known pending >>= fun after =>
        if after.2.length = pending.length then .error (.unresolved (after.2.map (·.name)))
        else passes after.1 after.2 := by
  rw [passes]
  split
  · rfl
  · cases passed : pass known pending with
    | error e => rfl
    | ok after =>
      obtain ⟨known', waiting⟩ := after
      by_cases stuck : waiting.length = pending.length
      · simp only [dif_neg stuck.not_lt]
        exact (if_pos stuck).symm
      · simp only [dif_pos (Nat.lt_of_le_of_ne (pass_length passed).1 stuck)]
        exact (if_neg stuck).symm

/-- One pass is made after another that got further. A pass is given by the values known before it
and the parameters left to it. -/
def PassesOn (next here : Valuation α × List (FlatParameter α)) : Prop :=
  pass here.1 here.2 = .ok next ∧ next.2.length ≠ here.2.length

theorem passesOn_wellFounded : WellFounded (PassesOn (α := α)) := by
  refine Subrelation.wf ?_ (measure fun here : Valuation α × List (FlatParameter α) =>
    here.2.length).wf
  intro next here ⟨passed, further⟩
  exact Nat.lt_of_le_of_ne (pass_length passed).1 further

/-- Where every binding can be computed from something, no pass fails. -/
theorem exists_pass_eq_ok (known : Valuation α) {some_names : String → Prop}
    (computable : ∀ p ∈ pending, p.binding.ComputableFrom some_names) :
    ∃ known' waiting, pass known pending = .ok (known', waiting) := by
  induction pending generalizing known with
  | nil => exact ⟨known, [], rfl⟩
  | cons p rest ih =>
    have later := fun q hq => computable q (List.mem_cons_of_mem _ hq)
    unfold pass
    split
    · rename_i ready
      have here := computable p List.mem_cons_self
      obtain ⟨v, value⟩ :=
        (exists_evaluate_eq_ok p.binding).2 ⟨here.plain, here.applied, isReady_iff.1 ready⟩
      simp only [value]
      exact ih _ later
    · obtain ⟨known', waiting, passed⟩ := ih known later
      exact ⟨known', p :: waiting, by simp [passed]⟩

/-- Passes come to an end where every binding can be computed from the parameters and none
reads itself through others. -/
theorem exists_passes_eq_ok (distinct : (ps.map (·.name)).Nodup)
    (computable : ∀ p ∈ ps, p.binding.ComputableFrom (· ∈ ps.map (·.name)))
    (acyclic : (bindings ps).Acyclic) (stands : Progress ps known pending) :
    ∃ known', passes known pending = .ok known' := by
  induction known, pending using passes.induct with
  | case1 known pending empty => exact ⟨known, by rw [passes, if_pos empty]⟩
  | case2 known pending more e failed =>
    obtain ⟨_, _, passed⟩ := exists_pass_eq_ok known
      fun p hp => computable p (stands.left hp)
    simp [failed] at passed
  | case3 known pending more known₁ waiting passed fewer ih =>
    have kept := pass_keeps [] passed (by simpa using stands)
    obtain ⟨known', done⟩ := ih (by simpa using kept)
    refine ⟨known', ?_⟩
    rw [passes, if_neg more]
    simp only [passed, dif_pos fewer, done]
  | case4 known pending more known₁ waiting passed stuck =>
    refine absurd ((pass_length passed).2 ?_) stuck
    -- Some parameter that is left waits for no other one, so it is ready.
    obtain ⟨name, inside, free⟩ := acyclic.exists_reads_none (pending.map (·.name))
      (by simpa using more)
    obtain ⟨p, hp, rfl⟩ := List.mem_map.1 inside
    refine ⟨p, hp, isReady_iff.2 fun r hr => ?_⟩
    have declared := (computable p (stands.left hp)).reads r hr
    refine (stands.known_or_left declared).resolve_right fun waits => free _ waits ?_
    refine Definitions.mem_reads.2
      ⟨p.binding, lookup_bindings distinct (stands.left hp), ⟨r, hr, rfl⟩, ?_⟩
    rw [Definitions.defines_iff, bindings_names]
    exact declared

end

end FlatParameter

/-! ## The parameters of a model -/

namespace FlatModel

open FlatParameter

/-- The bindings of a model as definitions of its parameters. -/
def bindings (m : FlatModel α) : Definitions α := FlatParameter.bindings m.parameters

/-- Every binding can be computed from the parameters. -/
def BindingsComputable (m : FlatModel α) : Prop :=
  ∀ p ∈ m.parameters, p.binding.ComputableFrom (· ∈ m.parameters.map (·.name))

variable [Zero α] [Add α] [Sub α] [Mul α] [Div α] [Neg α] [Elementary α]
variable {m : FlatModel α} {known : Valuation α}

theorem known_iff_of_evaluateParameters (h : m.evaluateParameters = .ok known) {name : String} :
    Known known name ↔ name ∈ m.parameters.map (·.name) :=
  (passes_keeps h .start).known_iff

/-- The value of a parameter is that of its binding under the values of all parameters. -/
theorem value_of_evaluateParameters (h : m.evaluateParameters = .ok known)
    (distinct : (m.parameters.map (·.name)).Nodup) {p : FlatParameter α} (hp : p ∈ m.parameters) :
    p.binding.value? (fun name => known.lookup name) id 0 = known.lookup p.name := by
  have stands := passes_keeps h .start
  have once : (known.map (·.1)).Nodup := by
    simpa using stands.names.nodup_iff.2 distinct
  exact stands.solved.value_eq distinct once hp (stands.known_iff.2 (List.mem_map_of_mem hp))

/-- Parameters have values exactly when their bindings can be computed from the parameters and
none reads itself through others. -/
theorem exists_evaluateParameters_eq_ok (distinct : (m.parameters.map (·.name)).Nodup) :
    (∃ known, m.evaluateParameters = .ok known) ↔ m.BindingsComputable ∧ m.bindings.Acyclic := by
  constructor
  · rintro ⟨known, h⟩
    have stands := passes_keeps h .start
    have once : (known.map (·.1)).Nodup := by
      simpa using stands.names.nodup_iff.2 distinct
    refine ⟨fun p hp => ?_, fun name loop => ?_⟩
    · have found := stands.known_iff.2 (List.mem_map_of_mem hp)
      have value := stands.solved.value_eq distinct once hp found
      rw [Known, ← value, Expr.value?_isSome_iff] at found
      exact found.mono fun r _ => stands.known_iff.1
    · have layers := stands.solved.layered distinct once
      refine layers.no_loop name ?_ loop
      have defined := Definitions.defines_of_loop loop
      rw [Definitions.defines_iff, bindings, bindings_names, ← stands.known_iff, Known,
        lookup_isSome_iff_mem] at defined
      exact List.mem_reverse.2 defined
  · rintro ⟨computable, acyclic⟩
    exact exists_passes_eq_ok distinct computable acyclic .start

end FlatModel

end Acausal

-- Components declared twice in one instance. An instance of a class has the components that the
-- class and the classes it extends declare, and a number has the full name of the components it
-- is in. Only numbers are told apart by name: an instance is refused when two components lead to
-- numbers of one full name, and a component of a class is not refused for its own name alone.
import Acausal.Proofs.ClassCycles
import Acausal.Proofs.InstanceInvariant
import Acausal.Proofs.ModifiedDeclarations

namespace Acausal

variable {α : Type}

/-! ## The components of an instance -/

/-- A component in an instance of a class, with the class that declares it. -/
structure Member (α : Type) where
  owner : Located α
  decl : Component α

namespace Program

variable {p : Program α} {c used root : Located α} {element : Element α} {a b : Member α}
  {name stem : String}

/-- The components that an element gives to an instance of its class: the one that it declares,
or those of the class that it extends. -/
inductive Brings (p : Program α) : Located α → Element α → Member α → Prop
  | own {c decl} : Brings p c (.component decl) ⟨c, decl⟩
  | inherited {c clause base element a}
      (found : p.resolve? c.path (segments clause.base) = some base)
      (listed : element ∈ base.decl.elements) (inner : Brings p base element a) :
      Brings p c (.inherit clause) a

/-- Two components of one instance of a class, declared at two places: two elements of the class
bring them, or they stand at two places in one class that it extends. -/
inductive Repeats (p : Program α) : Located α → Member α → Member α → Prop
  | apart {c first second a b} (order : [first, second].Sublist c.decl.elements)
      (early : p.Brings c first a) (late : p.Brings c second b) : Repeats p c a b
  | inherited {c clause base a b} (listed : .inherit clause ∈ c.decl.elements)
      (found : p.resolve? c.path (segments clause.base) = some base)
      (inner : Repeats p base a b) : Repeats p c a b

/-! ## The numbers of an instance -/

/-- The numbers that an element lays out, by their names in an instance of its class: the one that
it declares, and those of the class that it brings in. -/
inductive LaysOut (p : Program α) : Located α → Element α → String → Prop
  | number {c decl} (number : decl.isBuiltin = true) : LaysOut p c (.component decl) decl.name
  | inner {c used element inside name} (brings : p.usedBy? c element = some used)
      (listed : inside ∈ used.decl.elements) (laid : LaysOut p used inside name) :
      LaysOut p c element (element.place ++ name)

/-- An instance of a class has a number of a name. -/
def HasNumber (p : Program α) (c : Located α) (name : String) : Prop :=
  ∃ element ∈ c.decl.elements, p.LaysOut c element name

/-- A component lays out a number of a name. -/
def Member.LaysOut (p : Program α) (a : Member α) (name : String) : Prop :=
  p.LaysOut a.owner (.component a.decl) name

/-- Two components lay out numbers of one name. -/
def Clash (p : Program α) (a b : Member α) : Prop :=
  ∃ name, Member.LaysOut p a name ∧ Member.LaysOut p b name

/-- An extends clause lays out the numbers of the class that it extends. -/
theorem LaysOut.of_base {clause : Extends α} {base : Located α}
    (found : p.resolve? c.path (segments clause.base) = some base) (has : p.HasNumber base name) :
    p.LaysOut c (.inherit clause) name := by
  obtain ⟨inside, listed, laid⟩ := has
  have brings : p.usedBy? c (.inherit clause) = some base := found
  have inner := LaysOut.inner brings listed laid
  rwa [Element.place, String.empty_append] at inner

/-- A component of a class lays out the numbers of the class under its own name. -/
theorem LaysOut.of_part {decl : Component α} {type : Located α} (part : decl.isBuiltin = false)
    (found : p.resolve? c.path (segments decl.typeName) = some type)
    (has : p.HasNumber type name) : p.LaysOut c (.component decl) (decl.name ++ "." ++ name) := by
  obtain ⟨inside, listed, laid⟩ := has
  have brings : p.usedBy? c (.component decl) = some type := by
    rw [usedBy?, part, if_neg (by simp), found]
  exact .inner brings listed laid

/-- An element lays out what its components do. -/
theorem Brings.laysOut (h : p.Brings c element a) (laid : Member.LaysOut p a name) :
    p.LaysOut c element name := by
  induction h with
  | own => exact laid
  | inherited found listed _ ih => exact .of_base found ⟨_, listed, ih laid⟩

/-- What an element lays out one of its components does. -/
theorem LaysOut.exists_brings (h : p.LaysOut c element name) :
    ∃ a, p.Brings c element a ∧ Member.LaysOut p a name := by
  induction h with
  | number number => exact ⟨_, .own, .number number⟩
  | @inner c used element inside name brings listed laid ih =>
    cases element with
    | nested decl => cases brings
    | component decl => exact ⟨_, .own, .inner brings listed laid⟩
    | inherit clause =>
      obtain ⟨a, brought, inner⟩ := ih
      refine ⟨a, .inherited brings listed brought, ?_⟩
      rwa [Element.place, String.empty_append]

/-- A component of a builtin type lays out itself, and one of a class the numbers of the class. -/
theorem laysOut_component_iff {decl : Component α} :
    p.LaysOut c (.component decl) name ↔
      decl.isBuiltin = true ∧ name = decl.name ∨
        decl.isBuiltin = false ∧ ∃ type, p.resolve? c.path (segments decl.typeName) = some type ∧
          ∃ inside, p.HasNumber type inside ∧ name = decl.name ++ "." ++ inside := by
  constructor
  · rintro (number | ⟨brings, listed, laid⟩)
    · exact .inl ⟨number, rfl⟩
    · rw [usedBy?] at brings
      split at brings
      · cases brings
      · next part => exact .inr ⟨by simpa using part, _, brings, _, ⟨_, listed, laid⟩, rfl⟩
  · rintro (⟨number, rfl⟩ | ⟨part, type, found, inside, has, rfl⟩)
    · exact .number number
    · exact .of_part part found has

/-- Of two components of one name both are of builtin types if they lay out numbers of one name,
or both are of classes that have numbers of one name. -/
theorem clash_iff_of_same_name (same : a.decl.name = b.decl.name) :
    p.Clash a b ↔
      a.decl.isBuiltin = true ∧ b.decl.isBuiltin = true ∨
        a.decl.isBuiltin = false ∧ b.decl.isBuiltin = false ∧ ∃ type type' inside,
          p.resolve? a.owner.path (segments a.decl.typeName) = some type ∧
          p.resolve? b.owner.path (segments b.decl.typeName) = some type' ∧
          p.HasNumber type inside ∧ p.HasNumber type' inside := by
  -- A number inside a component of a class has a longer name than the component.
  have longer (inside : String) : b.decl.name ≠ b.decl.name ++ "." ++ inside := by
    intro equal
    have := congrArg String.length equal
    simp only [String.length_append] at this
    have : ".".length = 1 := rfl
    omega
  simp only [Clash, Member.LaysOut, laysOut_component_iff, same]
  constructor
  · rintro ⟨name, ⟨number, rfl⟩ | ⟨part, type, found, inside, has, rfl⟩,
      ⟨number', equal⟩ | ⟨part', type', found', inside', has', equal⟩⟩
    · exact .inl ⟨number, number'⟩
    · exact absurd equal (longer inside')
    · exact absurd equal.symm (longer inside)
    · rw [String.append_right_inj] at equal
      subst equal
      exact .inr ⟨part, part', type, type', inside, found, found', has, has'⟩
  · rintro (⟨number, number'⟩ | ⟨part, part', type, type', inside, found, found', has, has'⟩)
    · exact ⟨b.decl.name, .inl ⟨number, rfl⟩, .inl ⟨number', rfl⟩⟩
    · exact ⟨_, .inr ⟨part, type, found, inside, has, rfl⟩,
        .inr ⟨part', type', found', inside, has', rfl⟩⟩

/-- What an element of a class that is reached brings in is reached. -/
theorem Reaches.uses {said : List (Adjustment α)} (h : p.Reaches root said c stem)
    (listed : element ∈ c.decl.elements) (brings : p.usedBy? c element = some used) :
    ∃ said', p.Reaches root said' used (stem ++ element.place) := by
  cases element with
  | nested decl => cases brings
  | inherit clause =>
    rw [Element.place, String.append_empty]
    exact ⟨_, h.inherit listed brings⟩
  | component decl =>
    rw [usedBy?] at brings
    split at brings
    · cases brings
    · next part =>
      rw [Element.place, ← String.append_assoc]
      exact ⟨_, h.part listed (by simpa using part) brings⟩

end Program

/-! ## What a layout declares -/

namespace Instance

variable {p : Program α} {root c : Located α} {element : Element α} {stem name full : String}
  {m : Modification α} {i i' : Instance α} {free : List ClassPath} {e : InstanceError α}

/-- A declaration adds its name, which is new. -/
theorem names_declare {decl : Component α} (h : i.declare name decl m = .ok i') :
    name ∉ i.model.names ∧ ∀ n, n ∈ i'.model.names ↔ n = name ∨ n ∈ i.model.names := by
  obtain ⟨fresh, declared⟩ := declare_eq_ok.1 h
  constructor
  · rw [← FlatModel.declared?_isSome_iff, fresh]
    simp
  · intro n
    obtain ⟨-, ⟨-, rfl⟩ | ⟨_, -, rfl⟩⟩ | ⟨-, -, _, -, rfl⟩ := declared <;>
      simp [FlatModel.names, FlatModel.declared, addVariable, addEquation, addParameter] <;>
      grind

theorem stable_mem_names (name : String) :
    Stable fun i : Instance α => name ∈ i.model.names where
  addClass _ _ listed := listed
  addCalls _ _ listed := listed
  addEquation _ _ listed := listed
  declare _ _ _ _ _ listed h := ((names_declare h).2 name).2 (.inr listed)

/-- A number that an element lays out is new when the element is added, and declared then. -/
theorem names_of_addElement (laid : p.LaysOut c element name)
    (h : addElement p (layout p free) c stem m i element = .ok i') :
    stem ++ name ∉ i.model.names ∧ stem ++ name ∈ i'.model.names := by
  induction laid generalizing free stem m i i' with
  | number number =>
    obtain ⟨_, same, -⟩ | ⟨_, _, t, same, -, before, declared⟩ | ⟨_, _, _, brings, -⟩ :=
      addElement_cases h
    · cases same
    · cases same
      obtain ⟨new, names⟩ := names_declare declared
      exact ⟨before ▸ new, (names _).2 (.inl rfl)⟩
    · rw [Program.usedBy?, if_pos number] at brings
      cases brings
  | inner brings listed _ ih =>
    obtain ⟨m', t, before, inside⟩ := exists_inner_of_addElement brings h
    obtain ⟨s, s', earlier, added, later⟩ := exists_step_of_layout inside listed
    obtain ⟨new, declared⟩ := ih added
    rw [String.append_assoc] at new declared
    refine ⟨fun taken => new ?_, later _ (stable_mem_names _) declared⟩
    exact earlier _ (stable_mem_names _) (show _ ∈ t.model.names from before ▸ taken)

/-- Where two components of an instance lay out numbers of one name there is no layout. -/
theorem layout_ne_ok_of_repeats {a b : Member α} (repeated : p.Repeats c a b)
    (clash : p.Clash a b) : layout p free c stem m i ≠ .ok i' := by
  induction repeated generalizing free stem m i i' with
  | apart order early late =>
    intro h
    obtain ⟨name, first, second⟩ := clash
    obtain ⟨s, s', t, t', added, between, added'⟩ := exists_steps_of_layout h order
    have declared := (names_of_addElement (early.laysOut first) added).2
    have new := (names_of_addElement (late.laysOut second) added').1
    exact new (between _ (stable_mem_names _) declared)
  | inherited listed found _ ih =>
    intro h
    obtain ⟨_, _, -, added, -⟩ := exists_step_of_layout h listed
    obtain ⟨_, _, found', -, inside⟩ := addBase_eq_ok.1 added
    rw [found] at found'
    cases found'
    exact ih clash inside

/-! ## Names that are taken -/

/-- A layout adds only names of numbers that its class has. -/
theorem kept_names (p : Program α) (i : Instance α) (Given : String → Prop) :
    Kept p (fun c stem _ => ∀ name, p.HasNumber c name → Given (stem ++ name))
      fun i' : Instance α => ∀ n ∈ i'.model.names, n ∈ i.model.names ∨ Given n where
  base _ _ _ _ _ _ given listed found _ name has := given name ⟨_, listed, .of_base found has⟩
  part _ _ _ _ _ _ _ given listed part found _ name has := by
    have full := given _ ⟨_, listed, .of_part part found has⟩
    rwa [← String.append_assoc, ← String.append_assoc] at full
  addClass _ _ _ _ _ names := names
  addCalls _ _ names := names
  addEquation _ _ names := names
  declare c stem _ decl _ _ _ i' given listed number _ _ names h n declared := by
    rcases ((names_declare h).2 n).1 declared with rfl | before
    · exact .inr (given _ ⟨_, listed, .number number⟩)
    · exact names n before

theorem names_of_layout (h : layout p free c stem m i = .ok i') :
    ∀ n ∈ i'.model.names, n ∈ i.model.names ∨ ∃ name, p.HasNumber c name ∧ n = stem ++ name :=
  (kept_names p i fun n => ∃ name, p.HasNumber c name ∧ n = stem ++ name).layout free
    (fun name has => ⟨name, has, rfl⟩) (fun _ => .inl) h

/-- Adding an element adds only names of numbers that it lays out. -/
theorem laysOut_of_addElement (h : addElement p (layout p free) c stem m i element = .ok i') :
    ∀ n ∈ i'.model.names, n ∈ i.model.names ∨
      ∃ name, p.LaysOut c element name ∧ n = stem ++ name := by
  intro n declared
  obtain ⟨_, -, rfl⟩ | ⟨_, _, t, rfl, number, same, added⟩ | ⟨_, _, t, brings, same, laid⟩ :=
    addElement_cases h
  · exact .inl declared
  · rw [(names_declare added).2 n, same] at declared
    exact declared.symm.imp_right fun new => ⟨_, .number number, new⟩
  · refine (names_of_layout laid n declared).imp (fun before => same ▸ before) ?_
    rintro ⟨name, ⟨inside, listed, inner⟩, rfl⟩
    exact ⟨_, .inner brings listed inner, String.append_assoc⟩

/-- Adding elements one after another adds only names of numbers that they lay out. -/
theorem names_of_elements {elements : List (Element α)}
    (h : elements.foldlM (addElement p (layout p free) c stem m) i = .ok i') :
    ∀ n ∈ i'.model.names, n ∈ i.model.names ∨
      ∃ first ∈ elements, ∃ name, p.LaysOut c first name ∧ n = stem ++ name := by
  refine foldlM_keeps (P := fun t : Instance α => ∀ n ∈ t.model.names, n ∈ i.model.names ∨
    ∃ first ∈ elements, ∃ name, p.LaysOut c first name ∧ n = stem ++ name) ?_ (fun _ => .inl) h
  intro s first listed s' names added n declared
  rcases laysOut_of_addElement added n declared with old | new
  · exact names n old
  · exact .inr ⟨first, listed, new⟩

/-- An element that cannot be added for a name that is taken declares a number of the name, or
the class that it brings in cannot be laid out for it. -/
theorem ElementFails.duplicate_cases (h : ElementFails p (layout p free) c stem i element e)
    (found : e.origin = .duplicate full) :
    (full ∈ i.model.names ∧ ∃ name, p.LaysOut c element name ∧ full = stem ++ name) ∨
      ∃ used m', ∃ t : Instance α, ∃ cause, p.usedBy? c element = some used ∧
        t.model = i.model ∧ layout p free used (stem ++ element.place) m' t = .error cause ∧
        cause.origin = .duplicate full := by
  cases h with
  | unresolved | baseNotFound | arrayParameter | parameterWithoutValue | arrayOfComponents
  | typeNotFound | unsuitableType => cases found
  | duplicate number taken =>
    cases found
    exact .inl ⟨FlatModel.declared?_isSome_iff.1 taken, _, .number number, rfl⟩
  | @inBase _ base m' t _ resolved same fails =>
    refine .inr ⟨base, m', t, e, resolved, same, ?_, found⟩
    rwa [Element.place, String.append_empty]
  | @inPart _ type m' t cause part resolved same fails =>
    refine .inr ⟨type, m', t, cause, ?_, same, ?_, found⟩
    · rw [Program.usedBy?, part, if_neg (by simp), resolved]
    · rwa [Element.place, ← String.append_assoc]

/-- Two elements of a class that is reached lay out numbers of one full name. -/
def Taken (p : Program α) (root : Located α) (full : String) : Prop :=
  ∃ said c stem first second name, p.Reaches root said c stem ∧
    [first, second].Sublist c.decl.elements ∧ p.LaysOut c first name ∧
    p.LaysOut c second name ∧ full = stem ++ name

/-- A name was taken before the layout that fails for it, or is taken in it. -/
theorem taken_of_layout {said : List (Adjustment α)} (reached : p.Reaches root said c stem)
    (h : layout p free c stem m i = .error e) (found : e.origin = .duplicate full) :
    Taken p root full ∨
      full ∈ i.model.names ∧ ∃ name, p.HasNumber c name ∧ full = stem ++ name := by
  induction hn : free.length using Nat.strongRecOn generalizing free said c stem m i e with
  | ind n ih =>
    obtain ⟨-, rfl⟩ | ⟨entered, ⟨before, element, after, t, cut, earlier, fails⟩ | ⟨_, rfl⟩⟩ :=
      layout_error h
    · cases found
    · have listed : element ∈ c.decl.elements := by simp [cut]
      have here : Taken p root full ∨
          full ∈ t.model.names ∧ ∃ name, p.LaysOut c element name ∧ full = stem ++ name := by
        obtain taken | ⟨used, m', s, cause, brings, same, laid, origin⟩ :=
          fails.duplicate_cases found
        · exact .inr taken
        · obtain ⟨said', reached'⟩ := reached.uses listed brings
          refine (ih _ (hn ▸ length_without_lt entered) reached' laid origin rfl).imp_right ?_
          rintro ⟨taken, name, ⟨inside, within, inner⟩, rfl⟩
          exact ⟨same ▸ taken, _, .inner brings within inner, String.append_assoc⟩
      obtain taken | ⟨taken, name, laid, rfl⟩ := here
      · exact .inl taken
      -- What took the name was there before, or is one of the elements before this one.
      · obtain old | ⟨first, first_mem, name', laid', same⟩ := names_of_elements earlier _ taken
        · exact .inr ⟨old, name, ⟨element, listed, laid⟩, rfl⟩
        · rw [String.append_right_inj] at same
          subst same
          refine .inl ⟨said, c, stem, first, element, name, reached, ?_, laid', laid, rfl⟩
          rw [cut, List.cons_sublist_iff]
          exact ⟨before, element :: after, rfl, first_mem, by simp⟩
    · cases found

end Instance

/-! ## Instances -/

namespace Program

variable {p : Program α} {name : String} {scalar : Bool}

/-- Where a class that is reached repeats components that lay out numbers of one name, there is no
instance. -/
theorem exists_error_of_repeats {decl : ClassDecl α} (root : p.find? (segments name) = some decl)
    {said : List (Adjustment α)} {c : Located α} {stem : String} {a b : Member α}
    (reached : p.Reaches ⟨segments name, decl⟩ said c stem) (repeated : p.Repeats c a b)
    (clash : p.Clash a b) : ∃ e, p.instantiate name scalar = .error e := by
  cases made : p.instantiate name scalar with
  | error e => exact ⟨e, rfl⟩
  | ok i =>
    obtain ⟨decl', j, root', -, -, laid, -⟩ := instantiate_eq_ok.1 made
    rw [root] at root'
    cases root'
    obtain ⟨_, _, _, _, inside, -⟩ := Instance.exists_layout_of_reached laid reached
    exact absurd inside (Instance.layout_ne_ok_of_repeats repeated clash)

/-- A name is refused only where a class that is reached repeats components that lay out numbers
of this full name. -/
theorem exists_repeats_of_duplicate {e : InstanceError α} {full : String}
    (failed : p.instantiate name scalar = .error e) (found : e.origin = .duplicate full) :
    ∃ decl said c stem a b inside, p.find? (segments name) = some decl ∧
      p.Reaches ⟨segments name, decl⟩ said c stem ∧ p.Repeats c a b ∧
      Member.LaysOut p a inside ∧ Member.LaysOut p b inside ∧ full = stem ++ inside := by
  obtain (rfl | rfl | rfl) | ⟨decl, root, failed⟩ | ⟨_, rfl | ⟨_, rfl | rfl⟩⟩ | ⟨-, _, rfl⟩ :=
    instantiate_error failed
  case inr.inl =>
    obtain ⟨said, c, stem, first, second, inside, reached, order, early, late, rfl⟩ |
      ⟨taken, -⟩ := Instance.taken_of_layout .root failed found
    · obtain ⟨a, bringsFirst, laid⟩ := early.exists_brings
      obtain ⟨b, bringsSecond, laid'⟩ := late.exists_brings
      exact ⟨decl, said, c, stem, a, b, inside, root, reached,
        .apart order bringsFirst bringsSecond, laid, laid', rfl⟩
    · simp [Instance.empty, FlatModel.names, FlatModel.declared] at taken
  all_goals cases found

/-- There is no instance where two components of a class with its base classes, reached from the
model, lay out numbers of one name. Two components of one name do so if both are of builtin types,
or if both are of classes that have numbers of one name; and this is the only reason for which a
name is refused as a duplicate. -/
theorem clashing_components_are_refused (p : Program α) (name : String) (scalar : Bool) :
    (∀ decl said c stem a b, p.find? (segments name) = some decl →
      p.Reaches ⟨segments name, decl⟩ said c stem → p.Repeats c a b → p.Clash a b →
      ∃ e, p.instantiate name scalar = .error e) ∧
    (∀ a b : Member α, a.decl.name = b.decl.name →
      (p.Clash a b ↔
        a.decl.isBuiltin = true ∧ b.decl.isBuiltin = true ∨
          a.decl.isBuiltin = false ∧ b.decl.isBuiltin = false ∧ ∃ type type' inside,
            p.resolve? a.owner.path (segments a.decl.typeName) = some type ∧
            p.resolve? b.owner.path (segments b.decl.typeName) = some type' ∧
            p.HasNumber type inside ∧ p.HasNumber type' inside)) ∧
    ∀ e full, p.instantiate name scalar = .error e → e.origin = .duplicate full →
      ∃ decl said c stem a b inside, p.find? (segments name) = some decl ∧
        p.Reaches ⟨segments name, decl⟩ said c stem ∧ p.Repeats c a b ∧
        Member.LaysOut p a inside ∧ Member.LaysOut p b inside ∧ full = stem ++ inside :=
  ⟨fun _ _ _ _ _ _ root reached repeated clash =>
      exists_error_of_repeats root reached repeated clash,
    fun _ _ same => clash_iff_of_same_name same,
    fun _ _ failed found => exists_repeats_of_duplicate failed found⟩

/-- A vessel with a level, a tank that extends it and declares a level again, and a plant with
such a tank. -/
def plants : Program Int :=
  let level : Element Int := .component ⟨"level", "Real", .continuous, none, [], none, none⟩
  ⟨[⟨"Vessel", .model, false, none, [level], []⟩,
    ⟨"Tank", .model, false, none, [.inherit ⟨"Vessel", []⟩, level],
      [⟨.der ⟨"level", none⟩, .number 1⟩]⟩,
    ⟨"Plant", .model, false, none,
      [.component ⟨"tank", "Tank", .continuous, none, [], none, none⟩], []⟩]⟩

/-- A plant is refused for the levels of its tank. -/
theorem plants_are_refused :
    ∃ decl said c stem a b, plants.find? (segments "Plant") = some decl ∧
      plants.Reaches ⟨segments "Plant", decl⟩ said c stem ∧ plants.Repeats c a b ∧
      plants.Clash a b ∧ ∃ e, plants.instantiate "Plant" true = .error e := by
  let level : Component Int := ⟨"level", "Real", .continuous, none, [], none, none⟩
  let part : Component Int := ⟨"tank", "Tank", .continuous, none, [], none, none⟩
  have number : level.isBuiltin = true := by decide
  obtain ⟨plant, root, parts⟩ : ∃ decl, plants.find? (segments "Plant") = some decl ∧
      decl.elements = [.component part] := by
    cbv
    exact ⟨_, rfl, rfl⟩
  obtain ⟨tank, isTank, inTank, levels⟩ : ∃ c,
      plants.resolve? (segments "Plant") (segments "Tank") = some c ∧ c.path = ["Tank"] ∧
        c.decl.elements = [.inherit ⟨"Vessel", []⟩, .component level] := by
    cbv
    exact ⟨_, rfl, rfl, rfl⟩
  obtain ⟨vessel, isVessel, level'⟩ : ∃ c,
      plants.resolve? ["Tank"] (segments "Vessel") = some c ∧
        c.decl.elements = [.component level] := by
    cbv
    exact ⟨_, rfl, rfl⟩
  have listed : .component part ∈ plant.elements := parts ▸ List.mem_singleton_self _
  have start : plants.Reaches ⟨segments "Plant", plant⟩ [] ⟨segments "Plant", plant⟩ "" := .root
  have reached := start.part listed (by decide) isTank
  have order : [.inherit ⟨"Vessel", []⟩, .component level].Sublist tank.decl.elements :=
    levels ▸ .refl _
  have repeated : plants.Repeats tank ⟨vessel, level⟩ ⟨tank, level⟩ :=
    .apart order (.inherited (inTank ▸ isVessel) (level' ▸ List.mem_singleton_self _) .own) .own
  have clash : plants.Clash ⟨vessel, level⟩ ⟨tank, level⟩ :=
    ⟨"level", .number number, .number number⟩
  exact ⟨plant, _, tank, _, _, _, root, reached, repeated, clash,
    (clashing_components_are_refused plants "Plant" true).1 _ _ _ _ _ _ root reached repeated
      clash⟩

/-- A gauge with a level, and a tank with a number and a part of one name. -/
def gauges : Program Int :=
  let level : Component Int := ⟨"level", "Real", .continuous, none, [], none, none⟩
  ⟨[⟨"Gauge", .model, false, none, [.component level], [⟨.ref ⟨"level", none⟩, .number 1⟩]⟩,
    ⟨"Tank", .model, false, none,
      [.component { level with name := "gauge" },
        .component { level with name := "gauge", typeName := "Gauge" }],
      [⟨.ref ⟨"gauge", none⟩, .number 2⟩]⟩]⟩

/-- A number and a part of one class may share their name: the part is no number itself. -/
theorem numbers_and_parts_share_names :
    ∃ decl a b i, gauges.find? (segments "Tank") = some decl ∧
      gauges.Repeats ⟨segments "Tank", decl⟩ a b ∧ a.decl.name = b.decl.name ∧
      gauges.instantiate "Tank" true = .ok i ∧ i.model.names = ["gauge", "gauge.level"] := by
  have accepted : (gauges.instantiate "Tank" true).toOption.map (·.model.names) =
      some ["gauge", "gauge.level"] := by
    cbv
  obtain ⟨i, made, names⟩ := Option.map_eq_some_iff.1 accepted
  rw [toOption_eq_some] at made
  obtain ⟨tank, root, number, part, parts, same⟩ : ∃ decl,
      gauges.find? (segments "Tank") = some decl ∧ ∃ a b,
        decl.elements = [.component a, .component b] ∧ a.name = b.name := by
    cbv
    exact ⟨_, rfl, _, _, rfl, rfl⟩
  refine ⟨tank, ⟨⟨segments "Tank", tank⟩, number⟩, ⟨⟨segments "Tank", tank⟩, part⟩, i, root, ?_,
    same, made, names⟩
  exact .apart (parts ▸ .refl _) .own .own

end Program

end Acausal

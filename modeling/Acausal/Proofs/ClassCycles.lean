-- Classes that use each other. A class uses the classes that it extends and those of its
-- components. Laying out a class enters all it uses and none that is being laid out already, so
-- it ends; it succeeds only where no class uses itself, and it then records just the classes
-- that the model uses.
import Acausal.Proofs.LargerPrograms
import Acausal.Proofs.LayoutSteps
import Acausal.Proofs.Tables
import Mathlib.Logic.Relation

namespace Acausal

open Relation

variable {α : Type}

/-! ## Uses -/

/-- What an element adds to the stem of its class for the class that it brings in: nothing for a
base class, and the name of the component otherwise. -/
def Element.place : Element α → String
  | .nested _ => ""
  | .inherit _ => ""
  | .component decl => decl.name ++ "."

namespace Program

/-- The class that an element brings in: the one that it extends, or the one that it is a
component of, if this is no builtin type. -/
def usedBy? (p : Program α) (c : Located α) : Element α → Option (Located α)
  | .nested _ => none
  | .inherit clause => p.resolve? c.path (segments clause.base)
  | .component decl =>
    if decl.isBuiltin then none else p.resolve? c.path (segments decl.typeName)

/-- A class uses another one if one of its elements brings it in. -/
def Uses (p : Program α) (c used : Located α) : Prop :=
  ∃ element ∈ c.decl.elements, p.usedBy? c element = some used

variable {p : Program α} {c used : Located α}

theorem Uses.places (h : p.Uses c used) : p.Places used := by
  obtain ⟨element, -, found⟩ := h
  cases element with
  | nested decl => cases found
  | inherit clause => exact places_of_resolve? found
  | component decl =>
    rw [usedBy?] at found
    split at found
    · cases found
    · exact places_of_resolve? found

/-- A class from which every way along its uses ends is on no cycle of uses. -/
theorem not_uses_of_acc (h : Acc (fun used c => p.Uses c used) c) : ¬ TransGen p.Uses c c := by
  induction h with
  | intro c _ ih =>
    intro cycle
    obtain ⟨next, first, rest⟩ := TransGen.head'_iff.1 cycle
    exact ih next first (TransGen.tail' rest first)

end Program

/-! ## What a layout enters -/

namespace Instance

variable {p : Program α} {inner : Layout α} {c used root : Located α} {stem : String}
  {m : Modification α} {i i' : Instance α} {free : List ClassPath}

/-- Adding an element adds nothing for a class inside the class, declares a number, or lays out
the class that it brings in. -/
theorem addElement_cases {element : Element α}
    (h : addElement p inner c stem m i element = .ok i') :
    (∃ decl, element = .nested decl ∧ i' = i) ∨
      (∃ decl m', ∃ t : Instance α, element = .component decl ∧ decl.isBuiltin = true ∧
        t.model = i.model ∧ t.declare (stem ++ decl.name) decl m' = .ok i') ∨
      ∃ used m', ∃ t : Instance α, p.usedBy? c element = some used ∧ t.model = i.model ∧
        inner used (stem ++ element.place) m' t = .ok i' := by
  cases element with
  | nested decl =>
    cases h
    exact .inl ⟨decl, rfl, rfl⟩
  | inherit clause =>
    obtain ⟨base, modifiers, found, -, laid⟩ := addBase_eq_ok.1 h
    rw [Element.place, String.append_empty]
    refine .inr (.inr ⟨base, _, _, found, ?_, laid⟩)
    rfl
  | component decl =>
    obtain ⟨binding, modifiers, -, -, ⟨number, declared⟩ | ⟨part, added⟩⟩ :=
      addComponent_eq_ok.1 h
    · refine .inr (.inl ⟨decl, _, _, rfl, number, ?_, declared⟩)
      rfl
    · obtain ⟨-, type, found, -, -, laid⟩ := addPart_eq_ok.1 added
      rw [String.append_assoc] at laid
      refine .inr (.inr ⟨type, _, _, ?_, ?_, laid⟩)
      · rw [Program.usedBy?, part, if_neg (by simp), found]
      · rfl

/-- Adding an element lays out the class that it brings in. -/
theorem exists_inner_of_addElement {element : Element α} (brings : p.usedBy? c element = some used)
    (h : addElement p inner c stem m i element = .ok i') :
    ∃ m', ∃ t : Instance α, t.model = i.model ∧
      inner used (stem ++ element.place) m' t = .ok i' := by
  obtain ⟨decl, rfl, -⟩ | ⟨decl, _, _, rfl, number, -⟩ | ⟨_, m', t, brings', same, laid⟩ :=
    addElement_cases h
  · cases brings
  · rw [Program.usedBy?, if_pos number] at brings
    cases brings
  · rw [brings] at brings'
    cases brings'
    exact ⟨m', t, same, laid⟩

/-- Laying out a class lays out what it uses, without entering it again. -/
theorem exists_layout_of_uses (h : layout p free c stem m i = .ok i') (uses : p.Uses c used) :
    ∃ stem' m' t t', layout p (without c.path free) used stem' m' t = .ok t' ∧
      Precedes t' i' := by
  obtain ⟨element, listed, brings⟩ := uses
  obtain ⟨t, t', -, added, precedes⟩ := exists_step_of_layout h listed
  obtain ⟨m', s, -, laid⟩ := exists_inner_of_addElement brings added
  exact ⟨_, m', s, t', laid, precedes⟩

theorem exists_layout_of_reaches (h : layout p free root stem m i = .ok i')
    (reaches : ReflTransGen p.Uses root c) :
    ∃ free' stem' m' t t', layout p free' c stem' m' t = .ok t' ∧ Precedes t' i' := by
  induction reaches with
  | refl => exact ⟨free, stem, m, i, i', h, .refl i'⟩
  | tail _ last ih =>
    obtain ⟨free', stem', m', t, t', laid, precedes⟩ := ih
    obtain ⟨stem'', m'', s, s', deeper, before⟩ := exists_layout_of_uses laid last
    exact ⟨_, stem'', m'', s, s', deeper, before.trans precedes⟩

/-- From a class that can be laid out, every way along its uses ends. -/
theorem acc_of_layout (h : layout p free c stem m i = .ok i') :
    Acc (fun used c => p.Uses c used) c := by
  induction hn : free.length using Nat.strongRecOn generalizing free c stem m i i' with
  | ind n ih =>
    have entered := (layout_eq_ok.1 h).1
    refine .intro c fun used uses => ?_
    obtain ⟨stem', m', t, t', laid, -⟩ := exists_layout_of_uses h uses
    exact ih _ (hn ▸ length_without_lt entered) laid rfl

/-! ## Recorded classes -/

/-- The names of the classes that an instance has come across. -/
def classNames (i : Instance α) : List String := i.cache.classes.names

theorem mem_classNames_addClass {path : ClassPath} {name : String} :
    name ∈ (i.addClass path).classNames ↔ name = dotted path ∨ name ∈ i.classNames := by
  unfold classNames addClass FunctionCache.addClass
  rw [Table.mem_names_iff, Table.mem_names_iff]
  by_cases same : name = dotted path
  · simp [same]
  · simp [same, Table.get?_insert_ne]

/-- A declaration brings in no class. -/
theorem classNames_declare {name : String} {decl : Component α}
    (h : i.declare name decl m = .ok i') : i'.classNames = i.classNames := by
  obtain ⟨-, ⟨-, ⟨-, rfl⟩ | ⟨_, -, rfl⟩⟩ | ⟨-, -, _, -, rfl⟩⟩ := declare_eq_ok.1 h <;> rfl

theorem stable_mem_classNames (name : String) :
    Stable fun i : Instance α => name ∈ i.classNames where
  addClass _ _ recorded := mem_classNames_addClass.2 (.inr recorded)
  addCalls _ _ recorded := recorded
  addEquation _ _ recorded := recorded
  declare _ _ _ _ _ recorded h := by rwa [classNames_declare h]

/-- Only classes that are used are recorded. -/
theorem kept_classNames (p : Program α) (root : Located α) :
    Kept p (fun c _ _ => ReflTransGen p.Uses root c)
      fun i : Instance α => ∀ name ∈ i.classNames,
        ∃ c, ReflTransGen p.Uses root c ∧ dotted c.path = name where
  base c _ _ clause base _ here listed found _ := here.tail ⟨.inherit clause, listed, found⟩
  part c _ _ decl type _ _ here listed part found _ :=
    here.tail ⟨.component decl, listed, by simp [Program.usedBy?, part, found]⟩
  addClass c _ _ i here recorded name h := by
    rcases mem_classNames_addClass.1 h with rfl | h
    · exact ⟨c, here, rfl⟩
    · exact recorded name h
  addCalls _ _ recorded := recorded
  addEquation _ _ recorded := recorded
  declare _ _ _ _ _ _ _ _ _ _ _ _ _ recorded h := by rwa [classNames_declare h]

/-- The classes that a layout records are those that the class uses. -/
theorem mem_classNames_of_layout (h : layout p free root stem m i = .ok i')
    (empty : i.classNames = []) (name : String) :
    name ∈ i'.classNames ↔ ∃ c, ReflTransGen p.Uses root c ∧ dotted c.path = name := by
  constructor
  · exact (kept_classNames p root).layout free .refl (by simp [empty]) h name
  · rintro ⟨c, reaches, rfl⟩
    obtain ⟨free', stem', m', t, t', laid, precedes⟩ := exists_layout_of_reaches h reaches
    apply precedes _ (stable_mem_classNames _)
    apply precedes_of_layout laid _ (stable_mem_classNames _)
    exact mem_classNames_addClass.2 (.inl rfl)

end Instance

/-! ## Recursion -/

/-- An error without the components it was passed through. -/
def InstanceError.origin : InstanceError α → InstanceError α
  | .inComponent _ cause => cause.origin
  | e => e

namespace Instance

variable {p : Program α} {inner : Layout α} {c used root : Located α} {stem : String}
  {m : Modification α} {i i' : Instance α} {free : List ClassPath} {e : InstanceError α}
  {name : String}

/-- Where adding an element finds a class inside itself, laying out what it brings in does. -/
theorem ElementFails.recursive {element : Element α}
    (h : ElementFails p inner c stem i element e) (found : e.origin = .recursive name) :
    ∃ used stem' m' t cause, p.usedBy? c element = some used ∧
      inner used stem' m' t = .error cause ∧ cause.origin = .recursive name := by
  cases h with
  | unresolved | baseNotFound | duplicate | arrayParameter | parameterWithoutValue
  | arrayOfComponents | typeNotFound | unsuitableType => cases found
  | inBase resolved _ fails => exact ⟨_, _, _, _, e, resolved, fails, found⟩
  | inPart whole resolved _ fails =>
    refine ⟨_, _, _, _, _, ?_, fails, found⟩
    rw [Program.usedBy?, whole, if_neg (by simp), resolved]

/-- A class that may not be entered uses the class at hand, so if that one uses it in turn there
is a cycle. All classes that are being laid out are such, and no others that there are. -/
theorem layout_recursive (placed : p.Places c)
    (around : ∀ outer, p.Places outer → outer.path ∉ free → TransGen p.Uses outer c)
    (h : layout p free c stem m i = .error e) (found : e.origin = .recursive name) :
    ∃ again, ReflTransGen p.Uses c again ∧ dotted again.path = name ∧
      TransGen p.Uses again again := by
  induction hn : free.length using Nat.strongRecOn generalizing free c stem m i e with
  | ind n ih =>
    obtain ⟨barred, rfl⟩ | ⟨entered, ⟨_, element, _, t, cut, -, fails⟩ | ⟨_, rfl⟩⟩ :=
      layout_error h
    · cases found
      exact ⟨c, .refl, rfl, around c placed barred⟩
    · obtain ⟨used, stem', m', s, cause, brings, laid, origin⟩ := fails.recursive found
      have uses : p.Uses c used := ⟨element, by simp [cut], brings⟩
      have deeper (outer : Located α) (there : p.Places outer)
          (barred : outer.path ∉ without c.path free) : TransGen p.Uses outer used := by
        rw [mem_without, not_and_or, not_not] at barred
        rcases barred with barred | same
        · exact (around outer there barred).tail uses
        · cases there.eq_of_path placed same
          exact .single uses
      obtain ⟨again, reaches, named, cycle⟩ :=
        ih _ (hn ▸ length_without_lt entered) uses.places deeper laid origin rfl
      exact ⟨again, .head uses reaches, named, cycle⟩
    · cases found

/-! ## Classes entered one inside another -/

/-- The layout of a class inside some others that have been entered: it may enter every class of
the program but these. -/
def layoutInside (p : Program α) (entered : List ClassPath) : Layout α :=
  layout p (entered.foldr without p.paths)

/-- A class of the program is refused inside itself and only there. -/
theorem layoutInside_eq (placed : p.Places c) (entered : List ClassPath) :
    layoutInside p entered c stem m i =
      if c.path ∈ entered then .error (.recursive (dotted c.path))
      else
        c.decl.elements.foldlM (addElement p (layoutInside p (c.path :: entered)) c stem m)
          (i.addClass c.path) >>= c.decl.equations.foldlM (addResolved p c stem) := by
  unfold layoutInside
  rw [layout]
  by_cases again : c.path ∈ entered
  · rw [if_pos again, dif_neg]
    rw [mem_foldr_without]
    exact fun free => free.2 again
  · rw [if_neg again, dif_pos]
    · rfl
    · exact mem_foldr_without.2 ⟨Program.mem_paths_of_holds placed.holds, again⟩

end Instance

namespace Program

variable {p : Program α}

/-- One class is entered from another one inside those entered before: the other one uses it and
is none of them. -/
def Enters (p : Program α) (next here : List ClassPath × Located α) : Prop :=
  here.2.path ∉ here.1 ∧ next.1 = here.2.path :: here.1 ∧ p.Uses here.2 next.2

/-- Each class that is entered is one fewer that may be, so entering ends. -/
theorem enters_wellFounded (p : Program α) : WellFounded p.Enters :=
  entering_wellFounded (fun c : Located α => c.path) p.paths p.Uses fun _ _ uses =>
    mem_paths_of_holds uses.places.holds

/-! ## Instances -/

/-- Only where a class that the model uses uses itself does making an instance fail for it. -/
theorem cycle_of_instantiate {name again : String} {scalar : Bool} {e : InstanceError α}
    (failed : p.instantiate name scalar = .error e) (found : e.origin = .recursive again) :
    ∃ decl c, p.find? (segments name) = some decl ∧
      ReflTransGen p.Uses ⟨segments name, decl⟩ c ∧ dotted c.path = again ∧
      TransGen p.Uses c c := by
  obtain (rfl | rfl | rfl) | ⟨decl, root, failed⟩ | ⟨_, rfl | ⟨_, rfl | rfl⟩⟩ | ⟨-, _, rfl⟩ :=
    instantiate_error failed
  case inr.inl =>
    have placed : p.Places ⟨segments name, decl⟩ := root
    obtain ⟨c, reaches, named, cycle⟩ :=
      Instance.layout_recursive placed (fun outer there barred =>
        absurd (mem_paths_of_holds there.holds) barred) failed found
    exact ⟨decl, c, root, reaches, named, cycle⟩
  all_goals cases found

/-- Making an instance ends for every program: a class is refused inside itself, and entering one
class from another cannot go on for ever. Where it succeeds no class that the model uses uses
itself, and these are the classes recorded; and it fails for recursion only where one does. -/
theorem recursion_is_detected (p : Program α) (name : String) (scalar : Bool) :
    ((∀ entered c stem m i, p.Places c →
        Instance.layoutInside p entered c stem m i =
          if c.path ∈ entered then .error (.recursive (dotted c.path))
          else
            c.decl.elements.foldlM
              (Instance.addElement p (Instance.layoutInside p (c.path :: entered)) c stem m)
              (i.addClass c.path) >>= c.decl.equations.foldlM (Instance.addResolved p c stem)) ∧
      WellFounded p.Enters) ∧
    (∀ i, p.instantiate name scalar = .ok i →
      ∃ decl, p.find? (segments name) = some decl ∧
        (∀ c, ReflTransGen p.Uses ⟨segments name, decl⟩ c → ¬ TransGen p.Uses c c) ∧
        ∀ recorded, recorded ∈ i.cache.classes.names ↔
          ∃ c, ReflTransGen p.Uses ⟨segments name, decl⟩ c ∧ dotted c.path = recorded) ∧
    ∀ e again, p.instantiate name scalar = .error e → e.origin = .recursive again →
      ∃ decl c, p.find? (segments name) = some decl ∧
        ReflTransGen p.Uses ⟨segments name, decl⟩ c ∧ dotted c.path = again ∧
        TransGen p.Uses c c := by
  refine ⟨⟨fun entered c stem m i placed => Instance.layoutInside_eq placed entered,
    enters_wellFounded p⟩, fun i made => ?_, fun e again failed found => ?_⟩
  · obtain ⟨decl, j, root, -, -, laid, -, expanded⟩ := instantiate_eq_ok.1 made
    refine ⟨decl, root, fun c reaches => ?_, fun recorded => ?_⟩
    · obtain ⟨_, _, _, _, _, deeper, -⟩ := Instance.exists_layout_of_reaches laid reaches
      exact not_uses_of_acc (Instance.acc_of_layout deeper)
    · rw [← Instance.mem_classNames_of_layout laid rfl]
      rcases expanded with ⟨-, rfl⟩ | ⟨-, model, -, rfl⟩ <;> rfl
  · exact cycle_of_instantiate failed found

end Program

end Acausal

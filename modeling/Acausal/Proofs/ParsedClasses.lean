-- The names in a parsed program. Each reader of declarations leaves a part of the lexemes it was
-- given, so the name of a component or of a class is a word of the text, and no word has a
-- bracket or a dot.
import Acausal.Proofs.ClassNames
import Acausal.Proofs.DeclarationGrammar
import Acausal.Proofs.LargerPrograms
import Acausal.Proofs.ParsedExpressions

namespace Acausal

variable {ts rest : List Lexeme}

/-! ## Small readers -/

theorem suffix_of_afterWord? {w : String} {p : Parsed Unit ts.length}
    (h : afterWord? w ts = some p) : p.rest <:+ ts := by
  obtain ⟨place, hts⟩ := of_afterWord?_eq_some h
  exact ⟨[_], hts.symm⟩

theorem suffix_of_quotedText? {p : Parsed String ts.length} (h : quotedText? ts = some p) :
    p.rest <:+ ts := by
  obtain ⟨place, hts⟩ := of_quotedText?_eq_some h
  exact ⟨[_], hts.symm⟩

theorem faithful_expectWord {w : String} (h : Reads (expectWord ts) w rest) :
    Faithful IsWord ts w rest := by
  obtain ⟨place, rfl⟩ := reads_expectWord.mp h
  exact ⟨List.suffix_cons _ rest, fun words => words w place (by simp)⟩

theorem suffix_of_bracketed {problem : GrammarProblem} {k : Nat}
    (h : Reads (bracketed problem ts) k rest) : rest <:+ ts := by
  obtain ⟨x, place, stop, rfl, -⟩ := reads_bracketed.mp h
  exact ⟨[_, _], rfl⟩

theorem suffix_of_path {name : String} (h : Reads (path ts) name rest) : rest <:+ ts := by
  obtain ⟨_, _, -, passes⟩ := passes_path h
  exact passes.behind

theorem suffix_of_expression {e : Expr Float} (h : Reads (expression ts) e rest) : rest <:+ ts :=
  (passes_expression h).behind

theorem optionalWord_rest (word : String) (ts : List Lexeme) :
    (optionalWord word ts).rest <:+ ts := by
  unfold optionalWord
  split
  · next p hp => exact suffix_of_afterWord? hp
  · exact List.suffix_refl _

theorem optionalDescription_rest (ts : List Lexeme) : (optionalDescription ts).rest <:+ ts := by
  unfold optionalDescription
  split
  · next p hp => exact suffix_of_quotedText? hp
  · exact List.suffix_refl _

theorem variability_rest (ts : List Lexeme) : (variability ts).rest <:+ ts := by
  unfold variability
  split
  · next p hp => exact suffix_of_afterWord? hp
  · split
    · next p hp => exact suffix_of_afterWord? hp
    · exact List.suffix_refl _

theorem direction_rest (ts : List Lexeme) : (direction ts).rest <:+ ts := by
  unfold direction
  split
  · next p hp => exact suffix_of_afterWord? hp
  · exact optionalWord_rest _ _

/-! ## Modifications -/

theorem suffix_of_modifierValue {v : ModifierValue} (h : Reads (modifierValue ts) v rest) :
    rest <:+ ts := by
  cases reads_modifierValue.mp h with
  | absent => exact List.suffix_refl _
  | quoted => exact ⟨[_, _], rfl⟩
  | number _ inner => exact (suffix_of_expression inner).trans (List.suffix_cons _ _)

mutual
theorem suffix_of_modification {ts rest : List Lexeme} {ms : List (Modifier Float)}
    (h : Reads (modification ts) ms rest) : rest <:+ ts := by
  obtain ⟨place, more, hts, inner⟩ := reads_modification.mp h
  have opened : more <:+ ts := ⟨[_], hts.symm⟩
  rcases inner with ⟨stop, hmore, -⟩ | ⟨-, inner⟩
  · exact List.IsSuffix.trans ⟨[_], hmore.symm⟩ opened
  · exact (suffix_of_modifiers inner).trans opened
termination_by ts.length * 4
decreasing_by
  have long := congrArg List.length hts
  rw [List.length_cons] at long
  omega

theorem suffix_of_modifiers {ts rest : List Lexeme} {ms : List (Modifier Float)}
    (h : Reads (modifiers ts) ms rest) : rest <:+ ts := by
  obtain ⟨m, mid, hm, ending⟩ := reads_modifiers.mp h
  have first := suffix_of_modifier hm
  have short := hm.shorter
  rcases ending with ⟨place, rfl, -⟩ | ⟨place, more, later, rfl, hlater, -⟩
  · exact (List.suffix_cons _ _).trans first
  · exact (suffix_of_modifiers hlater).trans ((List.suffix_cons _ _).trans first)
termination_by ts.length * 4 + 2
decreasing_by all_goals (try simp only [List.length_cons] at short); omega

theorem suffix_of_modifier {ts rest : List Lexeme} {m : Option (Modifier Float)}
    (h : Reads (modifier ts) m rest) : rest <:+ ts := by
  obtain ⟨name, children, value, a, b, hname, hchildren, hvalue, -⟩ := reads_modifier.mp h
  have before := (optionalWord_rest "final" _).trans (optionalWord_rest "each" ts)
  have named := (faithful_expectWord hname).behind.trans before
  have short := hname.shorter.trans_le before.length_le
  have nested := (suffix_of_optionalModification hchildren).trans named
  exact (suffix_of_modifierValue hvalue).trans nested
termination_by ts.length * 4 + 1

theorem suffix_of_optionalModification {ts rest : List Lexeme} {ms : List (Modifier Float)}
    (h : Reads (optionalModification ts) ms rest) : rest <:+ ts := by
  rcases reads_optionalModification.mp h with ⟨-, -, rfl⟩ | h
  · exact List.suffix_refl _
  · exact suffix_of_modification h
termination_by ts.length * 4 + 1
end

/-! ## Declarations -/

theorem suffix_of_optionalSize {size : Option Nat} (h : Reads (optionalSize ts) size rest) :
    rest <:+ ts := by
  rcases reads_optionalSize.mp h with ⟨-, -, rfl⟩ | ⟨place, more, k, rfl, hk, -⟩
  · exact List.suffix_refl _
  · exact (suffix_of_bracketed hk).trans (List.suffix_cons _ _)

theorem suffix_of_optionalBinding {binding : Option (Expr Float)}
    (h : Reads (optionalBinding ts) binding rest) : rest <:+ ts := by
  rcases reads_optionalBinding.mp h with ⟨-, -, rfl⟩ | ⟨place, more, e, rfl, he, -⟩
  · exact List.suffix_refl _
  · exact (suffix_of_expression he).trans (List.suffix_cons _ _)

theorem faithful_component {c : Component Float} (h : Reads (component ts) c rest) :
    Faithful (fun c => IsWord c.name) ts c rest := by
  obtain ⟨a, b, d, e, f, stop, -, htype, hname, hsize, hms, hbinding, -, hend⟩ :=
    reads_component.mp h
  have before := (direction_rest _).trans (variability_rest ts)
  have typed := (suffix_of_path htype).trans before
  have word := faithful_expectWord hname
  have sized := (suffix_of_optionalSize hsize).trans (word.behind.trans typed)
  have modified := (suffix_of_optionalModification hms).trans sized
  have bound := (suffix_of_optionalBinding hbinding).trans modified
  have described := (optionalDescription_rest f).trans bound
  exact ⟨List.IsSuffix.trans ⟨[_], hend.symm⟩ described,
    fun words => word.written (words.of_suffix typed)⟩

theorem suffix_of_extendsClause {clause : Extends Float}
    (h : Reads (extendsClause ts) clause rest) : rest <:+ ts := by
  obtain ⟨a, stop, hbase, hms⟩ := reads_extendsClause.mp h
  have modified := (suffix_of_optionalModification hms).trans (suffix_of_path hbase)
  exact (List.suffix_cons _ _).trans modified

theorem suffix_of_equation {e : Equation Float} (h : Reads (equation ts) e rest) :
    rest <:+ ts := by
  obtain ⟨sign, more, stop, hlhs, hrhs⟩ := reads_equation.mp h
  have middle := (List.suffix_cons _ more).trans (suffix_of_expression hlhs)
  exact (List.suffix_cons _ rest).trans ((suffix_of_expression hrhs).trans middle)

theorem suffix_of_equations {ts rest : List Lexeme} {es : List (Equation Float)}
    (h : Reads (equations ts) es rest) : rest <:+ ts := by
  rcases reads_equations.mp h with ⟨-, -, rfl⟩ | ⟨-, e, mid, later, he, hlater, -⟩
  · exact List.suffix_refl _
  · have short := he.shorter
    exact (suffix_of_equations hlater).trans (suffix_of_equation he)
termination_by ts.length

/-! ## Classes -/

theorem suffix_of_classKind {kind : ClassKind} (h : Reads (classKind ts) kind rest) :
    rest <:+ ts := by
  obtain ⟨w, place, rfl, -⟩ := reads_classKind.mp h
  exact List.suffix_cons _ _

theorem suffix_of_closing {name : String} {u : Unit} (h : Reads (closing name ts) u rest) :
    rest <:+ ts := by
  obtain ⟨place, stop, rfl⟩ := reads_closing.mp h
  exact ⟨[_, _], rfl⟩

/-- All names of the components among some elements are identifiers. -/
def NamesAreWords (elements : List (Element Float)) : Prop :=
  ∀ name ∈ ClassDecl.componentNamesAll elements, IsWord name

/-- Elements in which each component and each class is named by an identifier, at every depth. -/
inductive NamedByWords : List (Element Float) → Prop
  | nil : NamedByWords []
  | inherit (clause : Extends Float) {rest} (later : NamedByWords rest) :
    NamedByWords (.inherit clause :: rest)
  | component {decl : Component Float} {rest} (word : IsWord decl.name)
    (later : NamedByWords rest) : NamedByWords (.component decl :: rest)
  | nested {decl : ClassDecl Float} {rest} (word : IsWord decl.name)
    (inside : NamedByWords decl.elements) (later : NamedByWords rest) :
    NamedByWords (.nested decl :: rest)

namespace NamedByWords

variable {element : Element Float} {elements : List (Element Float)}

theorem cons (first : NamedByWords [element]) (later : NamedByWords elements) :
    NamedByWords (element :: elements) := by
  cases first with
  | inherit clause _ => exact .inherit clause later
  | component word _ => exact .component word later
  | nested word inside _ => exact .nested word inside later

theorem namesAreWords (h : NamedByWords elements) : NamesAreWords elements := by
  induction h with
  | nil => simp [NamesAreWords, ClassDecl.componentNamesAll]
  | inherit clause _ ih => exact ih
  | component word _ ih => exact List.forall_mem_cons.mpr ⟨word, ih⟩
  | nested word _ _ inside later =>
    intro name hname
    rw [ClassDecl.componentNamesAll, List.mem_append, ClassDecl.componentNames_eq] at hname
    exact hname.elim (inside name) (later name)

/-- The paths of the classes go on with identifiers. -/
theorem paths (h : NamedByWords elements) {outer path : ClassPath}
    (listed : path ∈ ClassDecl.pathsAll outer elements) :
    path ≠ [] ∧ ∀ step ∈ path, step ∈ outer ∨ IsWord step := by
  induction h generalizing outer with
  | nil => simp [ClassDecl.pathsAll] at listed
  | inherit clause _ ih => exact ih listed
  | component word _ ih => exact ih listed
  | @nested decl rest word _ _ inside later =>
    rw [ClassDecl.pathsAll, List.mem_append, ClassDecl.paths_eq, List.mem_cons] at listed
    rcases listed with (rfl | deeper) | behind
    · refine ⟨by simp, fun step hstep => ?_⟩
      rcases List.mem_append.mp hstep with around | last
      · exact .inl around
      · exact .inr (List.mem_singleton.mp last ▸ word)
    · refine ⟨(inside deeper).1, fun step hstep => ?_⟩
      have known := (inside deeper).2 step hstep
      simp only [List.mem_append, List.mem_singleton] at known
      rcases known with (around | rfl) | found
      · exact .inl around
      · exact .inr word
      · exact .inr found
    · exact later behind

end NamedByWords

mutual
theorem faithful_classDecl {ts rest : List Lexeme} {c : ClassDecl Float}
    (h : Reads (classDecl ts) c rest) : Faithful (NamedByWords [.nested ·]) ts c rest := by
  obtain ⟨a, b, d, -, hkind, hname, -, hbody, hclosing⟩ := reads_classDecl.mp h
  have before := optionalWord_rest "partial" ts
  have introduced := (suffix_of_classKind hkind).trans before
  have named := (faithful_expectWord hname).behind.trans introduced
  have described := (optionalDescription_rest b).trans named
  have short := hname.shorter.trans_le introduced.length_le
  have shorter := (optionalDescription_rest b).length_le
  have filled := faithful_body hbody
  exact ⟨(suffix_of_closing hclosing).trans (filled.behind.trans described), fun words =>
    .nested ((faithful_expectWord hname).written (words.of_suffix introduced))
      (filled.written (words.of_suffix described)) .nil⟩
termination_by ts.length * 4 + 1

theorem faithful_body {ts rest : List Lexeme} {name : String} {b : Body}
    (h : Reads (body name ts) b rest) : Faithful (NamedByWords ·.elements) ts b rest := by
  have form := reads_body.mp h
  generalize hts : ts = all at form
  have long := congrArg List.length hts
  cases form with
  | ended place => exact ⟨List.suffix_cons _ _, fun _ => .nil⟩
  | visibility _ later => exact (faithful_body later).from_part (List.suffix_cons _ _) id
  | equations inner later =>
    have short := inner.shorter
    exact (faithful_body later).from_part
      ((suffix_of_equations inner).trans (List.suffix_cons _ _)) id
  | element _ _ _ first later =>
    have short := first.shorter
    have front := faithful_element first
    have behind := faithful_body later
    exact ⟨behind.behind.trans front.behind, fun words =>
      (front.written words).cons (behind.written (words.of_suffix front.behind))⟩
termination_by ts.length * 4 + 3
decreasing_by all_goals (try simp only [List.length_cons] at long); omega

theorem faithful_element {ts rest : List Lexeme} {e : Element Float}
    (h : Reads (element ts) e rest) : Faithful (NamedByWords [·]) ts e rest := by
  cases reads_element.mp h with
  | inherit inner =>
    exact ⟨(suffix_of_extendsClause inner).trans (List.suffix_cons _ _), fun _ => .inherit _ .nil⟩
  | nested _ _ inner => exact (faithful_classDecl inner).from_part (List.suffix_refl _) id
  | component _ _ inner =>
    exact (faithful_component inner).from_part (List.suffix_refl _) fun word =>
      .component word .nil
termination_by ts.length * 4 + 2
end

/-! ## Source texts and programs -/

theorem words_of_classes {ts : List Lexeme} {cs : List (ClassDecl Float)}
    (h : classes ts = .ok cs) (words : Lexical ts) : ∀ c ∈ cs, NamedByWords [.nested c] := by
  rcases classes_eq_ok.mp h with ⟨-, rfl⟩ | ⟨c, mid, more, hc, hmore, rfl⟩
  · simp
  · have short := hc.shorter
    have first := faithful_classDecl hc
    exact List.forall_mem_cons.mpr ⟨first.written words,
      words_of_classes hmore (words.of_suffix first.behind)⟩
termination_by ts.length

theorem suffix_of_withinClause {u : Unit} (h : Reads (withinClause ts) u rest) : rest <:+ ts := by
  rcases reads_withinClause.mp h with ⟨place, rfl⟩ | ⟨-, name, stop, hname⟩
  · exact List.suffix_cons _ _
  · exact (List.suffix_cons _ _).trans (suffix_of_path hname)

theorem words_of_parseSource {path text : String} {file : SourceFile Float}
    (h : parseSource path text = .ok file) : ∀ c ∈ file.classes, NamedByWords [.nested c] := by
  obtain ⟨found, hfound, hclasses, -⟩ := parseSource_eq_ok.mp h
  have words := lexical_lexemes hfound
  rcases sourceClasses_eq_ok.mp hclasses with ⟨-, h⟩ | ⟨place, more, mid, hfront, hclause, h⟩
  · exact words_of_classes h words
  · have part : more <:+ found.list := ⟨[_], hfront.symm⟩
    exact words_of_classes h (words.of_suffix ((suffix_of_withinClause hclause).trans part))

/-- The programs that come from source texts: the declarations of one text, or those of a
library in front of others. -/
inductive Program.Parsed : Program Float → Prop
  | source {path text : String} {file : SourceFile Float} (h : parseSource path text = .ok file) :
    Parsed (.ofSource file)
  | prepend {library model : Program Float} (first : Parsed library) (later : Parsed model) :
    Parsed (library.prepend model)

/-- A component of a parsed program is named by an identifier. -/
theorem Program.Parsed.isWord {p : Program Float} (h : p.Parsed) :
    ∀ name ∈ p.componentNames, IsWord name := by
  induction h with
  | source h =>
    intro name hname
    simp only [componentNames, ofSource, List.flatMap_map, List.mem_flatMap] at hname
    obtain ⟨c, hc, hname⟩ := hname
    rw [ClassDecl.componentNames_undescribed] at hname
    refine (words_of_parseSource h c hc).namesAreWords name ?_
    simpa [ClassDecl.componentNamesAll] using hname
  | prepend _ _ first later =>
    intro name hname
    unfold componentNames Program.prepend at hname
    rw [List.flatMap_append, List.mem_append] at hname
    rcases hname with hname | hname
    · exact first name hname
    · exact later name hname

/-- The paths of the classes of a parsed program consist of identifiers. -/
theorem Program.Parsed.paths {p : Program Float} (h : p.Parsed) :
    ∀ path ∈ p.paths, path ≠ [] ∧ ∀ step ∈ path, IsWord step := by
  induction h with
  | source h =>
    intro path listed
    simp only [Program.paths, ofSource, List.flatMap_map, List.mem_flatMap] at listed
    obtain ⟨c, hc, listed⟩ := listed
    rw [ClassDecl.paths_undescribed] at listed
    have inside : path ∈ ClassDecl.pathsAll [] [.nested c] := by
      simpa [ClassDecl.pathsAll] using listed
    simpa using (words_of_parseSource h c hc).paths inside
  | prepend _ _ first later =>
    intro path listed
    unfold Program.paths Program.prepend at listed
    rw [List.flatMap_append, List.mem_append] at listed
    exact listed.elim (first path) (later path)

end Acausal

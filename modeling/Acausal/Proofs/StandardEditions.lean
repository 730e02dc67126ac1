-- The standard library behind its memo. Every edition can be read, so asking for a standard
-- library fails for a version that there is no edition of and for nothing else. An edition has
-- one text, so a frontend whose memo holds what that text declares gives the same answers as
-- one that reads it again each time.
import Acausal.Proofs.Actions
import Acausal.Proofs.FrontendInvariants
import Acausal.Proofs.Success
import Acausal.SourceFrontend

namespace Acausal

/-! ## Versions -/

theorem isPrefixOf_tagged (v : String) :
    "MSL:".toList.isPrefixOf ("MSL:" ++ v).toList = true := by
  rw [String.toList_append]
  exact List.isPrefixOf_iff_prefix.2 (List.prefix_append _ _)

theorem taggedVersion_tagged (v : String) : taggedVersion ("MSL:" ++ v) = "MSL:" ++ v := by
  unfold taggedVersion
  rw [if_pos (isPrefixOf_tagged v)]

/-- What stands behind the tag of a version that there is an edition of asks for it as well. -/
theorem taggedVersion_of_edition {v : String} {e : Edition}
    (h : edition ("MSL:" ++ v) = .ok e) : taggedVersion v = "MSL:" ++ v := by
  unfold edition at h
  rw [taggedVersion_tagged] at h
  split at h
  · next found search =>
    cases h
    have version : e.version = "MSL:" ++ v := by simpa using List.find?_some search
    have number : e.number = v := String.append_right_inj "MSL:" |>.1 version
    have plain : ∀ e ∈ Edition.all, taggedVersion e.number = "MSL:" ++ e.number := by decide
    exact number ▸ plain e (List.mem_of_find?_eq_some search)
  · cases h

/-! ## Editions are read -/

/-- Whether a text is read to its end. -/
def readable (text : List Char) : Bool :=
  match lexemes text with
  | .ok found => (sourceClasses found.list).toOption.isSome
  | .error _ => false

theorem parseSource_of_readable {text : String} (h : readable text.toList = true)
    (path : String) : ∃ source, parseSource path text = .ok source := by
  unfold readable at h
  unfold parseSource
  split at h
  · next found scanned =>
    cases read : sourceClasses found.list with
    | ok classes =>
      refine ⟨⟨path, classes⟩, ?_⟩
      simp only [scanned, read]
    | error failure =>
      rw [read] at h
      cases h
  · cases h

theorem toList_of_eq {s : String} {cs : List Char} (h : s = String.ofList cs) : s.toList = cs :=
  h ▸ String.toList_ofList

theorem Edition.toList_text (e : Edition) :
    e.text.toList = e.lines.flatMap fun line => line.toList ++ ['\n'] := by
  rw [Edition.text, String.toList_join, List.flatMap_map]
  refine congrArg (List.flatMap · _) (funext fun line => ?_)
  rw [String.toList_append, @toList_of_eq "\n" _ rfl]

theorem Edition.readable_text (e : Edition) (h : e ∈ Edition.all) :
    readable e.text.toList = true := by
  -- The text is brought into a list of characters line by line, for evaluating the joined string
  -- in the kernel takes more memory than there is.
  rw [Edition.toList_text]
  simp only [Edition.lines, List.flatMap_cons, List.flatMap_nil, String.toList_append]
  simp (disch := exact rfl) only [toList_of_eq]
  rcases List.mem_cons.1 h with rfl | h
  · simp (disch := exact rfl) only [toList_of_eq]
    decide +kernel
  · cases List.mem_singleton.1 h
    simp (disch := exact rfl) only [toList_of_eq]
    decide +kernel

namespace SourceFrontend

theorem editionProgram_of_edition {version : String} {e : Edition}
    (h : edition version = .ok e) : ∃ program, editionProgram version = .ok program := by
  have listed : e ∈ Edition.all := by
    unfold edition at h
    split at h
    · next search =>
      cases h
      exact List.mem_of_find?_eq_some search
    · cases h
  obtain ⟨source, read⟩ := parseSource_of_readable (e.readable_text listed) e.fileName
  refine ⟨.ofSource source, bind_eq_ok.2 ⟨e, mapError_eq_ok.2 h, ?_⟩⟩
  exact bind_eq_ok.2 ⟨source, mapError_eq_ok.2 read, rfl⟩

/-- A version has a program exactly if there is an edition of it. -/
theorem edition_of_editionProgram {version : String} {program : Program Float}
    (h : editionProgram version = .ok program) : ∃ e, edition version = .ok e := by
  obtain ⟨e, found, -⟩ := bind_eq_ok.1 h
  exact ⟨e, mapError_eq_ok.1 found⟩

/-! ## The memo -/

/-- Nothing is kept but what the editions declare. -/
def Faithful (f : SourceFrontend) : Prop :=
  ∀ tag program, f.standard.get? tag = some program → editionProgram tag = .ok program

/-- What asking for a standard library comes to: what its edition declares, with nothing changed
but what is kept. -/
structure Supplies (f : SourceFrontend) (version : String)
    (o : Outcome SourceFrontend SourceFailure (Program Float)) : Prop where
  result_eq : o.result = editionProgram (taggedVersion version)
  state_eq : ∃ standard, o.state = { f with standard }
  faithful : o.state.Faithful

theorem Faithful.supplies {f : SourceFrontend} (h : f.Faithful) (version : String) :
    f.Supplies version ((standardProgram version).run f) := by
  unfold standardProgram
  rw [Action.run_get_bind]
  cases kept : f.standard.get? (taggedVersion version) with
  | some program => exact ⟨(h _ _ kept).symm, ⟨f.standard, rfl⟩, h⟩
  | none =>
    simp only
    cases read : editionProgram (taggedVersion version) with
    | error cause => exact ⟨read.symm, ⟨f.standard, rfl⟩, h⟩
    | ok program =>
      rw [Action.run_bind_ok _ (by rw [Action.run_ofExcept]), Action.run_ofExcept,
        Action.run_bind_ok _ (by rw [Action.run_writeIf]), Action.run_writeIf]
      refine ⟨read.symm, ⟨_, rfl⟩, fun tag other held => ?_⟩
      by_cases same : tag = taggedVersion version
      · subst same
        cases (Table.get?_insert_self ..).symm.trans held
        exact read
      · exact h tag other ((Table.get?_insert_ne _ same program).symm.trans held)

/-! ## Actions of the frontend -/

theorem run_parse (path : String) (f : SourceFrontend) :
    (parse path).run f = ⟨f.parsed path, f, []⟩ := by
  unfold parse
  rw [Action.run_get_bind, Action.run_ofExcept]

theorem isParseFailure_of_parsed {f : SourceFrontend} {path : String} {cause : SourceFailure}
    (h : f.parsed path = .error cause) : cause.isParseFailure = true := by
  unfold parsed at h
  split at h
  · cases h
    rfl
  · next text _ =>
    cases read : parseSource path text with
    | error syntaxError =>
      rw [read] at h
      cases h
      rfl
    | ok source =>
      rw [read] at h
      cases h

/-- What instantiating a model of a program gives, whatever the frontend holds. -/
def instantiated (model : String) (program : Program Float) (scalar : Bool) :
    Except SourceFailure (FlatModel Float × FunctionCache) :=
  match program.instantiate model scalar with
  | .error cause => .error (.instantiation cause)
  | .ok made => .ok (made.model, made.cache)

theorem result_instantiate (model : String) (program : Program Float) (scalar : Bool)
    (f : SourceFrontend) : ((instantiate model program scalar).run f).result =
      instantiated model program scalar := by
  unfold instantiate instantiated
  rw [Action.run_get_bind]
  cases program.instantiate model scalar with
  | error cause => rfl
  | ok made => cases verbose : f.verbose <;> rfl

/-- What flattening with a standard library in front gives, with the library read or kept. -/
theorem Faithful.result_flatten {f : SourceFrontend} (h : f.Faithful) {version : String}
    {library : Program Float} (read : editionProgram (taggedVersion version) = .ok library)
    (model path : String) (scalar : Bool) :
    ((flattenWithStandardLibrary model path version scalar).run f).result =
      (f.parsed path).bind fun source =>
        instantiated model (library.prepend (.ofSource source)) scalar := by
  obtain ⟨result, ⟨standard, state⟩, -⟩ := h.supplies version
  have reads : ((parse path).run ((standardProgram version).run f).state).result =
      f.parsed path := by
    rw [run_parse, state]
    rfl
  unfold flattenWithStandardLibrary
  rw [Action.run_bind_ok _ (result.trans read)]
  cases parsed : f.parsed path with
  | error cause =>
    rw [Action.run_bind_error _ (reads.trans parsed)]
    rfl
  | ok source =>
    rw [Action.run_bind_ok _ (reads.trans parsed)]
    exact result_instantiate ..

/-- All that the actions of a frontend change is what asking for standard libraries changes. -/
theorem keeps_of_standardProgram {inv : SourceFrontend → Prop}
    (h : ∀ version, (standardProgram version).Maintains inv)
    (verbose : ∀ f : SourceFrontend, inv f → inv { f with verbose := true }) :
    Frontend.Keeps inv where
  parse path := .bind .get fun _ => .ofExcept _
  instantiate model program scalar :=
    .bind .get fun _ => .bind (.ofExcept _) fun _ => .bind (.writeIf _ _ _) fun _ => .done _
  loadLibrary id := by
    refine .bind .get fun f => ?_
    split
    · exact .bind (.bind .get fun _ => .ofExcept _) fun _ => .done _
    · split
      · exact h id
      · exact .fail _
  loadStandardLibrary version := .bind (h version) fun _ => .done _
  flattenWithStandardLibrary model path version scalar := by
    refine .bind (h version) fun _ => .bind (.bind .get fun _ => .ofExcept _) fun _ => ?_
    exact .bind .get fun _ => .bind (.ofExcept _) fun _ => .bind (.writeIf _ _ _) fun _ => .done _
  setVerbose := verbose

end SourceFrontend

end Acausal

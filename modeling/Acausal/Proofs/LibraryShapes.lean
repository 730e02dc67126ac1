-- The shapes in which a standard library comes with a model: loaded before under its id, or asked
-- for by its version with the tag or without. The first is kept by the session, the others are
-- kept in the memo of the frontend. As long as no other library is registered under the id, both
-- hold what the edition declares, and so all shapes give one answer.
import Acausal.Proofs.StandardEditions
import Acausal.Session.Numeric

namespace Acausal

/-! ## Frontends -/

namespace SourceFrontend

/-- A change of a frontend that registers no library under an id. -/
inductive Spares (id : String) : (SourceFrontend → SourceFrontend) → Prop
  | addSource (path text : String) : Spares id (·.addSource path text)
  | registerLibrary {other : String} (apart : other ≠ id) (path : String) :
      Spares id (·.registerLibrary other path)
  | setVerbose : Spares id Frontend.setVerbose
  /-- Files may change while a session goes on. -/
  | readFiles (files : Files) : Spares id ({ · with files })
  | loadLibrary (asked : String) : Spares id fun f => ((loadLibrary asked).run f).state
  | loadStandardLibrary (version : String) :
      Spares id fun f => ((loadStandardLibrary version).run f).state
  | flattenWithStandardLibrary (model path version : String) (scalar : Bool) :
      Spares id fun f => ((flattenWithStandardLibrary model path version scalar).run f).state

/-- A frontend that is set up without a library under an id. -/
inductive Built (id : String) : SourceFrontend → Prop
  | fresh (files : Files) : Built id (.fresh files)
  | change {f : SourceFrontend} {change : SourceFrontend → SourceFrontend} (built : Built id f)
      (spares : Spares id change) : Built id (change f)

/-- A frontend with no library registered under an id and a faithful memo. -/
structure Sound (id : String) (f : SourceFrontend) : Prop where
  faithful : f.Faithful
  unregistered : f.libraries.get? id = none

variable {id : String} {f : SourceFrontend}

theorem keeps_sound (id : String) : Frontend.Keeps (Sound id) := by
  refine keeps_of_standardProgram (fun version f h => ?_) fun f h => ⟨h.faithful, h.unregistered⟩
  obtain ⟨-, ⟨standard, state⟩, faithful⟩ := h.faithful.supplies version
  exact ⟨faithful, state ▸ h.unregistered⟩

theorem Spares.sound {change : SourceFrontend → SourceFrontend} (spares : Spares id change)
    (f : SourceFrontend) (h : f.Sound id) : (change f).Sound id := by
  cases spares with
  | addSource path text => exact ⟨h.faithful, h.unregistered⟩
  | registerLibrary apart path =>
    exact ⟨h.faithful, (Table.get?_insert_ne _ apart.symm path).trans h.unregistered⟩
  | setVerbose => exact ⟨h.faithful, h.unregistered⟩
  | readFiles files => exact ⟨h.faithful, h.unregistered⟩
  | loadLibrary asked => exact (keeps_sound id).loadLibrary asked f h
  | loadStandardLibrary version => exact (keeps_sound id).loadStandardLibrary version f h
  | flattenWithStandardLibrary model path version scalar =>
    exact (keeps_sound id).flattenWithStandardLibrary model path version scalar f h

theorem Built.sound (built : Built id f) : f.Sound id := by
  induction built with
  | fresh files => exact ⟨fun tag program held => (nomatch held), rfl⟩
  | change built spares ih => exact spares.sound _ ih

/-- The frontend with those standard libraries kept that are asked for, in this order. -/
def remembering (f : SourceFrontend) (versions : List String) : SourceFrontend :=
  versions.foldl (fun f version => ((loadStandardLibrary version).run f).state)
    { f with standard := .empty }

theorem run_loadStandardLibrary (version : String) (f : SourceFrontend) :
    ((loadStandardLibrary version).run f).result =
        ((standardProgram version).run f).result.map (fun _ => ()) ∧
      ((loadStandardLibrary version).run f).state = ((standardProgram version).run f).state := by
  unfold loadStandardLibrary
  rcases Action.run_bind_cases (standardProgram version) (fun _ => (pure () : Act Unit)) f with
    ⟨cause, result, run⟩ | ⟨program, result, run⟩
  · rw [run, result]
    exact ⟨rfl, rfl⟩
  · rw [run, result]
    exact ⟨rfl, rfl⟩

/-- Whatever is asked for and in whatever order, the memo stays faithful and nothing else
changes. -/
theorem remembering_spec (f : SourceFrontend) (versions : List String) :
    (f.remembering versions).Faithful ∧ ∃ standard, f.remembering versions = { f with standard } := by
  have loads : ∀ g : SourceFrontend, g.Faithful →
      (versions.foldl (fun f version => ((loadStandardLibrary version).run f).state) g).Faithful ∧
        ∃ standard, versions.foldl (fun f version => ((loadStandardLibrary version).run f).state) g
          = { g with standard } := by
    induction versions with
    | nil => exact fun g h => ⟨h, g.standard, rfl⟩
    | cons version versions ih =>
      intro g h
      obtain ⟨-, ⟨standard, state⟩, faithful⟩ := h.supplies version
      rw [List.foldl_cons, (run_loadStandardLibrary version g).2]
      obtain ⟨stays, ⟨last, rest⟩⟩ := ih _ faithful
      exact ⟨stays, last, by rw [rest, state]⟩
  exact loads { f with standard := .empty } fun tag program held => nomatch held

/-- Loading a standard library by its id, with no other library registered there. -/
theorem Sound.result_loadLibrary {v : String} (h : f.Sound ("MSL:" ++ v)) :
    ((loadLibrary ("MSL:" ++ v)).run f).result = editionProgram ("MSL:" ++ v) := by
  unfold loadLibrary
  rw [Action.run_get_bind]
  simp only [h.unregistered]
  rw [if_pos (isPrefixOf_tagged v), (h.faithful.supplies _).result_eq, taggedVersion_tagged]

end SourceFrontend

/-! ## Sessions -/

namespace Session

variable {B : Type} [Backend B (Frontend.Flat SourceFrontend)]

/-- A session that keeps under an id what its edition declares, if it keeps anything there. -/
structure Sound (id : String) (s : Session SourceFrontend B) : Prop where
  frontend : s.frontend.Sound id
  library : ∀ program, s.libraries.get? id = some program →
    SourceFrontend.editionProgram id = .ok program

/-- No call registers a library under an id. -/
abbrev SparedBy (id : String) (calls : List (Call SourceFrontend)) : Prop :=
  ∀ c ∈ calls, c.Changes (SourceFrontend.Spares id)

/-- What a library that is loaded under an id declares. -/
theorem editionProgram_of_library? {v : String} {s : Session SourceFrontend B}
    (h : s.Sound ("MSL:" ++ v)) {c : Call SourceFrontend} {program : Program Float}
    (loads : c.library? s = some ("MSL:" ++ v, program)) :
    SourceFrontend.editionProgram ("MSL:" ++ v) = .ok program := by
  cases c with
  | loadLibrary id =>
    obtain ⟨found, result, same⟩ := Option.map_eq_some_iff.1 loads
    cases same
    rw [toOption_eq_some, fetched, run_onFrontend, mapError_eq_ok] at result
    exact h.frontend.result_loadLibrary.symm.trans result
  | _ => cases loads

theorem perform_sound {v : String} {c : Call SourceFrontend}
    (spared : c.Changes (SourceFrontend.Spares ("MSL:" ++ v))) :
    Action.Maintains (Sound ("MSL:" ++ v)) (c.perform : Operation SourceFrontend B Unit) := by
  intro s h
  refine ⟨Call.upholds_perform (SourceFrontend.keeps_sound _) (fun _ => (·.sound)) spared s
    h.frontend, fun program held => ?_⟩
  rw [(c.stores s).libraries_eq, Table.get?_insertAll] at held
  cases loads : c.library? s with
  | none =>
    rw [loads] at held
    exact h.library program held
  | some entry =>
    obtain ⟨other, found⟩ := entry
    rw [loads, Option.toList_some] at held
    by_cases same : other = "MSL:" ++ v
    · subst same
      rw [latest?_singleton, Option.some_or] at held
      cases held
      exact editionProgram_of_library? h loads
    · have apart : ∀ e ∈ [(other, found)], e.1 ≠ "MSL:" ++ v :=
        fun e he => List.mem_singleton.1 he ▸ same
      rw [latest?_eq_none apart, Option.none_or] at held
      exact h.library program held

/-- A library that is loaded under an id stays loaded, though it may be another one later. -/
theorem loaded_stays {id : String} {s : Session SourceFrontend B}
    {earlier later : List (Call SourceFrontend)}
    (loads : ((loadLibrary id).run (after s earlier)).result = .ok ()) :
    ∃ program, (after s (earlier ++ .loadLibrary id :: later)).libraries.get? id =
      some program := by
  obtain ⟨entry, fetches⟩ := Option.isSome_iff_exists.1 ((loadLibrary_ok_iff id _).1 loads)
  obtain ⟨found, -, rfl⟩ := Option.map_eq_some_iff.1 fetches
  have stored : ((loadLibrary id).run (after s earlier)).state.libraries.get? id = some found := by
    rw [(stores_loadLibrary id _).libraries_eq, fetches, Table.get?_insertAll, Option.toList_some,
      latest?_singleton, Option.some_or]
  rw [after_append]
  change ∃ program, (after ((loadLibrary id).run (after s earlier)).state later).libraries.get? id =
    some program
  rw [(tables_after _ later).1, Table.get?_insertAll, stored]
  cases latest? _ id with
  | none => exact ⟨found, rfl⟩
  | some newer => exact ⟨newer, rfl⟩

/-! ## Answers -/

/-- What flattening a model of the text at a path gives with a library in front of it. -/
def answerWith (f : SourceFrontend) (library : Program Float) (model path : String)
    (scalar : Bool) : Except (Failure SourceFrontend B) (FlatModel Float × FunctionCache) :=
  match f.parsed path with
  | .error cause => .error (.parse path cause)
  | .ok source =>
    (SourceFrontend.instantiated model (library.prepend (.ofSource source)) scalar).mapError
      (.instantiation model)

theorem run_intermediate (path : String) (s : Session SourceFrontend B) :
    ((intermediate path).run s : Outcome _ (Failure SourceFrontend B) _) =
      ⟨((s.frontend.parsed path).mapError (.parse path)).map .ofSource, s, []⟩ := by
  have parse : ((onFrontend (.parse path) (Frontend.parse path) : Operation SourceFrontend B _).run s)
      = ⟨(s.frontend.parsed path).mapError (.parse path), s, []⟩ := by
    change (onFrontend (.parse path) (SourceFrontend.parse path)).run s = _
    rw [run_onFrontend, SourceFrontend.run_parse]
  unfold intermediate
  cases read : s.frontend.parsed path with
  | error cause =>
    rw [read] at parse
    rw [Action.run_bind_error _ (congrArg Outcome.result parse), parse]
    rfl
  | ok source =>
    rw [read] at parse
    rw [Action.run_bind_ok _ (congrArg Outcome.result parse), parse]
    rfl

/-- With a library that was loaded before. -/
theorem result_flatten_cached {id : String} {s : Session SourceFrontend B}
    {library : Program Float} (held : s.libraries.get? id = some library) (model path : String)
    (scalar : Bool) : ((flatten ⟨model, path, .cached id, scalar⟩).run s).result =
      answerWith s.frontend library model path scalar := by
  have found : ((Session.library id).run s : Outcome _ (Failure SourceFrontend B) _) =
      ⟨.ok library, s, []⟩ := by
    change (Action.ofExcept (s.libraries.library id)).run s = _
    rw [Action.run_ofExcept, Table.library, held]
  have read := run_intermediate path s
  unfold flatten answerWith
  cases parsed : s.frontend.parsed path with
  | error cause =>
    rw [parsed] at read
    rw [Action.run_bind_error _ (congrArg Outcome.result read)]
  | ok source =>
    rw [parsed] at read
    rw [Action.run_bind_ok _ (congrArg Outcome.result read), read]
    simp only
    rw [Action.run_bind_ok _ (congrArg Outcome.result found), found]
    exact congrArg (Except.mapError _) (SourceFrontend.result_instantiate ..)

/-- With a standard library that is asked for by its version. -/
theorem result_flatten_standard {version : String} {s : Session SourceFrontend B}
    {library : Program Float} (faithful : s.frontend.Faithful)
    (read : SourceFrontend.editionProgram (taggedVersion version) = .ok library)
    (model path : String) (scalar : Bool) :
    ((flatten ⟨model, path, .standard version, scalar⟩).run s).result =
      answerWith s.frontend library model path scalar := by
  obtain ⟨result, ⟨standard, state⟩, stays⟩ := faithful.supplies version
  have loads := SourceFrontend.run_loadStandardLibrary version s.frontend
  rw [result, read, state] at loads
  have loaded : ((onFrontend (.libraryLoad version) (Frontend.loadStandardLibrary version)).run s :
      Outcome _ (Failure SourceFrontend B) _).result = .ok () :=
    congrArg (Except.mapError _) loads.1
  have flattened : ((SourceFrontend.flattenWithStandardLibrary model path version scalar).run
      { s.frontend with standard }).result = (s.frontend.parsed path).bind fun source =>
        SourceFrontend.instantiated model (library.prepend (.ofSource source)) scalar :=
    (state ▸ stays).result_flatten read model path scalar
  unfold flatten
  simp only
  rw [Action.run_bind_ok _ loaded, run_onFrontend, run_onFrontend]
  change ((SourceFrontend.flattenWithStandardLibrary model path version scalar).run
    ((SourceFrontend.loadStandardLibrary version).run s.frontend).state).result.mapError _ = _
  rw [loads.2, flattened]
  unfold answerWith
  cases parsed : s.frontend.parsed path with
  | error cause =>
    exact congrArg Except.error (if_pos (SourceFrontend.isParseFailure_of_parsed parsed))
  | ok source =>
    -- A failure to instantiate is no parse failure, so it is told as what it is.
    change (SourceFrontend.instantiated model _ scalar).mapError _ =
      (SourceFrontend.instantiated model _ scalar).mapError _
    unfold SourceFrontend.instantiated
    cases (library.prepend (.ofSource source)).instantiate model scalar <;> rfl

/-! ## The law of library shapes -/

/-- With one edition of the standard library in front, all shapes in which it can be asked for
give what the declarations of the edition give, whichever standard libraries the frontend keeps. -/
def ShapesAgree (v : String) (s : Session SourceFrontend B) : Prop :=
  ∃ library, SourceFrontend.editionProgram ("MSL:" ++ v) = .ok library ∧
    ∀ source ∈ [.cached ("MSL:" ++ v), .standard ("MSL:" ++ v), .standard v],
      ∀ model path scalar,
        ((flatten ⟨model, path, source, scalar⟩).run s).result =
          answerWith s.frontend library model path scalar ∧
        ∀ versions, ((flatten ⟨model, path, source, scalar⟩).run
            { s with frontend := s.frontend.remembering versions }).result =
          answerWith s.frontend library model path scalar

/-- A new session is sound if the frontend is set up without a library under the id. -/
theorem start_sound {id : String} {f : SourceFrontend} (built : SourceFrontend.Built id f)
    (backend : B) (configuration : Configuration) : Sound id (start f backend configuration) := by
  refine ⟨start_upholds (SourceFrontend.keeps_sound _) built.sound backend configuration,
    fun program held => ?_⟩
  rw [(start_tables f backend configuration).1] at held
  cases held

theorem Sound.after {v : String} {s : Session SourceFrontend B} (h : s.Sound ("MSL:" ++ v))
    {calls : List (Call SourceFrontend)} (spared : SparedBy ("MSL:" ++ v) calls) :
    (after s calls).Sound ("MSL:" ++ v) :=
  after_maintains (fun c mem => perform_sound (spared c mem)) h

/-- A standard library can be loaded in every sound session. -/
theorem Sound.loads {v : String} {s : Session SourceFrontend B} (h : s.Sound ("MSL:" ++ v))
    {e : Edition} (found : edition ("MSL:" ++ v) = .ok e) :
    ((loadLibrary ("MSL:" ++ v)).run s).result = .ok () := by
  obtain ⟨program, read⟩ := SourceFrontend.editionProgram_of_edition found
  have fetches : ((fetched ("MSL:" ++ v)).run s : Outcome _ (Failure SourceFrontend B) _).result =
      .ok program := by
    rw [fetched, run_onFrontend, mapError_eq_ok]
    exact h.frontend.result_loadLibrary.trans read
  rw [loadLibrary_ok_iff, loaded?, fetches]
  rfl

/-- After any calls on a session, none of which registers a library under the id of a version
and one of which loads the standard library of this version, all shapes agree. -/
theorem library_shapes_agree (v : String) {f : SourceFrontend}
    (built : SourceFrontend.Built ("MSL:" ++ v) f) (backend : B) (configuration : Configuration)
    {earlier later : List (Call SourceFrontend)}
    (spared : SparedBy ("MSL:" ++ v) (earlier ++ .loadLibrary ("MSL:" ++ v) :: later))
    (loads : ((loadLibrary ("MSL:" ++ v)).run
      (after (start f backend configuration) earlier)).result = .ok ()) :
    ShapesAgree v (after (start f backend configuration)
      (earlier ++ .loadLibrary ("MSL:" ++ v) :: later)) := by
  have sound := (start_sound built backend configuration).after spared
  obtain ⟨library, held⟩ := loaded_stays loads
  have read := sound.library library held
  obtain ⟨e, found⟩ := SourceFrontend.edition_of_editionProgram read
  have tagged : SourceFrontend.editionProgram (taggedVersion ("MSL:" ++ v)) = .ok library := by
    rw [taggedVersion_tagged]
    exact read
  have plain : SourceFrontend.editionProgram (taggedVersion v) = .ok library := by
    rw [taggedVersion_of_edition found]
    exact read
  generalize after (start f backend configuration) _ = s at sound held ⊢
  refine ⟨library, read, fun source listed model path scalar => ?_⟩
  -- All that is asked of a frontend is a faithful memo, and any memo that comes about is one.
  have answers : ∀ g : SourceFrontend, g.Faithful →
      ((flatten ⟨model, path, source, scalar⟩).run { s with frontend := g }).result =
        answerWith g library model path scalar := by
    intro g faithful
    simp only [List.mem_cons, List.not_mem_nil, or_false] at listed
    rcases listed with rfl | rfl | rfl
    · exact result_flatten_cached (s := { s with frontend := g }) held model path scalar
    · exact result_flatten_standard faithful tagged model path scalar
    · exact result_flatten_standard faithful plain model path scalar
  refine ⟨answers s.frontend sound.frontend.faithful, fun versions => ?_⟩
  obtain ⟨faithful, standard, same⟩ := s.frontend.remembering_spec versions
  rw [answers _ faithful, same]
  rfl

end Session

/-- A frontend that knows the text of a model that decays. -/
def decayFrontend : SourceFrontend :=
  (SourceFrontend.fresh fun _ => .error .notFound).addSource "decay.mo"
    ("model Decay parameter Real k = 1; Real x(start = 1);" ++
      " equation der(x) = -k * x; end Decay;")

open Session in
/-- A session on this frontend that loads one edition of the standard library and then another. -/
theorem decay_shapes_agree : ShapesAgree "3.2.3"
    (after (.start decayFrontend (.quiet {}) {} : NumericSession)
      [.loadLibrary "MSL:4.0.0", .loadLibrary ("MSL:" ++ "3.2.3")]) := by
  have built : SourceFrontend.Built ("MSL:" ++ "3.2.3") decayFrontend :=
    .change (.fresh _) (.addSource _ _)
  have spared : ∀ id, SparedBy ("MSL:" ++ "3.2.3") [.loadLibrary id] := by
    intro id c listed
    cases List.mem_singleton.1 listed
    trivial
  have found : edition ("MSL:" ++ "3.2.3") = .ok ⟨"3.2.3", "3.14159265358979", "6.6742e-11"⟩ := by
    rfl
  have sound := (start_sound built (NumericBackend.quiet {}) {}).after (spared "MSL:4.0.0")
  refine @library_shapes_agree NumericBackend _ "3.2.3" decayFrontend built (.quiet {}) {}
    [.loadLibrary "MSL:4.0.0"] [] (fun c listed => ?_) (sound.loads found)
  rcases List.mem_append.1 listed with listed | listed
  · exact spared _ c listed
  · exact spared _ c listed

end Acausal

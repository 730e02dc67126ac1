-- What diagnostics change. Two sessions that differ in their diagnostics only give the same answers
-- to the same calls and hold the same libraries and compiled models, whenever debug records are
-- asked for. Their logs differ in debug records only, of which the session that is asked for more
-- has all that the other one has.
import Acausal.Proofs.FrontendInvariants
import Acausal.Proofs.SessionHistory
import Acausal.Proofs.TwinSessions

namespace Acausal

/-! ## What is seen of calls -/

namespace Session

variable {F B : Type} [Frontend F] [Backend B (Frontend.Flat F)]

variable (F B) in
/-- What a call gives. -/
inductive Answer where
  | nothing
  | program (p : Frontend.Program F)
  | flat (m : Frontend.Flat F) (functions : Frontend.Functions F)
  | artifact (a : Backend.Artifact B)
  | trajectory (t : Trajectory)
  | rerun (r : Rerun)

namespace Call

/-- The operation that a call makes, with its result. -/
def ask : Call F → Operation F B (Answer F B)
  | changeFrontend change =>
    Action.modify (fun s => { s with frontend := change s.frontend }) >>= fun _ => pure .nothing
  | enableFrontendDiagnostics =>
    Action.modify Session.enableFrontendDiagnostics >>= fun _ => pure .nothing
  | enableBackendDiagnostics =>
    Action.modify Session.enableBackendDiagnostics >>= fun _ => pure .nothing
  | loadLibrary id => Session.loadLibrary id >>= fun _ => pure .nothing
  | library id => Session.library id >>= fun p => pure (.program p)
  | intermediate path => Session.intermediate path >>= fun p => pure (.program p)
  | flatten request => Session.flatten request >>= fun made => pure (.flat made.1 made.2)
  | compile model path source => Session.compile model path source >>= fun _ => pure .nothing
  | compiled model => Session.compiled model >>= fun a => pure (.artifact a)
  | simulate request => Session.simulate request >>= fun t => pure (.trajectory t)
  | resimulate model span solver =>
    Session.resimulate model span solver >>= fun r => pure (.rerun r)

theorem perform_eq (c : Call F) : (c.perform : Operation F B Unit) = ignoring c.ask := by
  unfold ignoring
  cases c <;> simp only [perform, ask, ignoring, bind_assoc, pure_bind, bind_pure_unit]

theorem run_perform (c : Call F) (s : Session F B) :
    (c.perform.run s).state = (c.ask.run s).state ∧ (c.perform.run s).log = (c.ask.run s).log := by
  rw [perform_eq]
  rcases Action.run_bind_cases c.ask (fun _ => (pure () : Operation F B Unit)) s with
    ⟨e, -, run⟩ | ⟨b, -, run⟩
  · exact ⟨congrArg Outcome.state run, congrArg Outcome.log run⟩
  · exact ⟨congrArg Outcome.state run,
      (congrArg Outcome.log run).trans (List.append_nil _)⟩

/-- Whether a call asks for debug records. -/
def enables : Call F → Bool
  | enableFrontendDiagnostics => true
  | enableBackendDiagnostics => true
  | _ => false

end Call

variable (F B) in
/-- What is seen of a call: the flags in force when it is made, what it gives, which libraries and
compiled models there are after it, and what it writes. -/
structure Sight where
  flags : Diagnostics
  result : Except (Failure F B) (Answer F B)
  libraries : Table (Frontend.Program F)
  registry : Table (Backend.Artifact B)
  log : List Record

/-- What is seen of a call, unless it asks for debug records. -/
def sight? (s : Session F B) (c : Call F) : Option (Sight F B) :=
  if c.enables then none
  else
    let o := c.ask.run s
    some ⟨s.diagnostics, o.result, o.state.libraries, o.state.registry, o.log⟩

/-- What is seen of calls made one after the other. -/
abbrev sights (s : Session F B) (calls : List (Call F)) : List (Sight F B) :=
  gathered sight? s calls

theorem sights_of_enables {c : Call F} (asks : c.enables = true) (s : Session F B)
    (calls : List (Call F)) : sights s (c :: calls) = sights (c.perform.run s).state calls := by
  have unseen : sight? s c = none := if_pos asks
  unfold sights
  rw [gathered, unseen]
  rfl

theorem sights_of_sight? {c : Call F} {s : Session F B} {a : Sight F B}
    (seen : sight? s c = some a) (calls : List (Call F)) :
    sights s (c :: calls) = a :: sights (c.perform.run s).state calls := by
  unfold sights
  rw [gathered, seen]
  rfl

/-- What calls write, all together. -/
def written (s : Session F B) (calls : List (Call F)) : List Record :=
  (gathered (fun s c => some (c.perform.run s).log) s calls).flatten

/-- Asking for debug records writes nothing. -/
theorem written_eq (s : Session F B) (calls : List (Call F)) :
    written s calls = (sights s calls).flatMap (·.log) := by
  unfold written sights
  induction calls generalizing s with
  | nil => rfl
  | cons c calls ih =>
    have same := (c.run_perform s).2
    rw [gathered, gathered, List.flatten_append, ih, List.flatMap_append]
    unfold sight?
    cases asks : c.enables with
    | true =>
      have silent : (c.perform.run s).log = [] := by
        unfold Call.enables at asks
        split at asks
        · rfl
        · rfl
        · cases asks
      simp [silent]
    | false => simp [same]

/-- Two sights that differ in debug records only, of which there are more where the flags ask for
more. -/
structure Sight.Agrees (a b : Sight F B) : Prop where
  result_eq : a.result = b.result
  libraries_eq : a.libraries = b.libraries
  registry_eq : a.registry = b.registry
  log_adds : Adds a.flags b.flags a.log b.log

end Session

namespace NumericSession

open Session Action

/-! ## Calls -/

section
variable {given d d' : Diagnostics} {s t : NumericSession}

theorem steady_ask {c : Call SourceFrontend} (blind : c.Changes SourceFrontend.Blind)
    (silent : c.enables = false) : Steady given d d' c.ask := by
  cases c with
  | changeFrontend change =>
    refine Steady.bind (.modify (compositional_adds d d') ?_) fun _ => steady_done _
    intro s t twins
    have change_blind : SourceFrontend.Blind change := blind
    exact ⟨change_blind.twins twins.frontend, twins.backend, twins.libraries, twins.registry,
      twins.configuration, twins.first, twins.second⟩
  | enableFrontendDiagnostics => cases silent
  | enableBackendDiagnostics => cases silent
  | loadLibrary id => exact (steady_loadLibrary id).bind fun _ => steady_done _
  | library id => exact (steady_library id).bind fun _ => steady_done _
  | intermediate path => exact (steady_intermediate path).bind fun _ => steady_done _
  | flatten request => exact (steady_flatten request).bind fun _ => steady_done _
  | compile model path source =>
    exact (steady_compile model path source).bind fun _ => steady_done _
  | compiled model => exact (steady_compiled model).bind fun _ => steady_done _
  | simulate request => exact (steady_simulate request).bind fun _ => steady_done _
  | resimulate model span solver =>
    exact (steady_resimulate model span solver).bind fun _ => steady_done _

/-- The flags after a call. -/
def flagsAfter (d : Diagnostics) : Call SourceFrontend → Diagnostics
  | .enableFrontendDiagnostics => { d with frontend := true }
  | .enableBackendDiagnostics => { d with backend := true }
  | _ => d

/-- A session stays a twin of another one when it is asked for debug records. -/
theorem Twins.enable_first {c : Call SourceFrontend} (twins : Twins given d d' s t)
    (asks : c.enables = true) : Twins given (flagsAfter d c) d' (c.perform.run s).state t := by
  obtain ⟨⟨heard, frontend⟩, ⟨heard', backend⟩, libraries, registry, configuration, rfl, second⟩ :=
    twins
  cases c with
  | enableFrontendDiagnostics =>
    exact ⟨⟨(Bool.or_true _).symm, frontend⟩, ⟨heard', backend⟩, libraries, registry,
      configuration, rfl, second⟩
  | enableBackendDiagnostics =>
    exact ⟨⟨heard, frontend⟩, ⟨(Bool.or_true _).symm, backend⟩, libraries, registry,
      configuration, rfl, second⟩
  | _ => cases asks

theorem Twins.enable_second {c : Call SourceFrontend} (twins : Twins given d d' s t)
    (asks : c.enables = true) : Twins given d (flagsAfter d' c) s (c.perform.run t).state := by
  obtain ⟨⟨heard, frontend⟩, ⟨heard', backend⟩, libraries, registry, configuration, first, rfl⟩ :=
    twins
  cases c with
  | enableFrontendDiagnostics =>
    refine ⟨⟨heard, ?_⟩, ⟨heard', backend⟩, libraries, registry, configuration, first, rfl⟩
    change { t.frontend with verbose := true } =
      { s.frontend with verbose := given.frontend || true }
    rw [frontend, Bool.or_true]
  | enableBackendDiagnostics =>
    refine ⟨⟨heard, frontend⟩, ⟨heard', ?_⟩, libraries, registry, configuration, first, rfl⟩
    change { t.backend with verbose := true } =
      { s.backend with verbose := given.backend || true }
    rw [backend, Bool.or_true]
  | _ => cases asks

/-- Twins stay twins when they are asked the same. -/
theorem Twins.ask {c : Call SourceFrontend} (twins : Twins given d d' s t)
    (blind : c.Changes SourceFrontend.Blind) (silent : c.enables = false) :
    Twins given d d' (c.perform.run s).state (c.perform.run t).state := by
  rw [(c.run_perform s).1, (c.run_perform t).1]
  exact (steady_ask blind silent).states_of s t twins

/-- Twins that are asked the same answer and write the same, apart from debug records. -/
theorem Twins.sight_agrees {c : Call SourceFrontend} (twins : Twins given d d' s t)
    (blind : c.Changes SourceFrontend.Blind) (silent : c.enables = false) :
    ∃ a b, sight? s c = some a ∧ sight? t c = some b ∧ a.flags = d ∧ b.flags = d' ∧
      a.Agrees b := by
  have steady : Steady given d d' c.ask := steady_ask blind silent
  have come := steady.states_of s t twins
  have apart : ¬ c.enables = true := by
    rw [silent]
    exact Bool.false_ne_true
  unfold sight?
  rw [if_neg apart, if_neg apart]
  refine ⟨_, _, rfl, rfl, twins.first, twins.second, ?_⟩
  refine ⟨steady.result_eq s t twins, come.libraries, come.registry, ?_⟩
  rw [twins.first, twins.second]
  exact steady.logs_of s t twins

end

/-! ## Histories -/

/-- Histories that are the same but for calls that ask for debug records. -/
inductive SameBut : List (Call SourceFrontend) → List (Call SourceFrontend) → Prop
  | nil : SameBut [] []
  | both {c : Call SourceFrontend} {calls calls' : List (Call SourceFrontend)}
      (silent : c.enables = false) (rest : SameBut calls calls') :
      SameBut (c :: calls) (c :: calls')
  | first {c : Call SourceFrontend} {calls calls' : List (Call SourceFrontend)}
      (asks : c.enables = true) (rest : SameBut calls calls') : SameBut (c :: calls) calls'
  | second {c : Call SourceFrontend} {calls calls' : List (Call SourceFrontend)}
      (asks : c.enables = true) (rest : SameBut calls calls') : SameBut calls (c :: calls')

/-- The calls of a history that ask for no debug records. -/
def requests (calls : List (Call SourceFrontend)) : List (Call SourceFrontend) :=
  calls.filter (!·.enables)

theorem requests_cons_of_enables {c : Call SourceFrontend} (asks : c.enables = true)
    (calls : List (Call SourceFrontend)) : requests (c :: calls) = requests calls := by
  unfold requests
  rw [List.filter_cons_of_neg (by simp [asks])]

theorem requests_cons_of_silent {c : Call SourceFrontend} (silent : c.enables = false)
    (calls : List (Call SourceFrontend)) : requests (c :: calls) = c :: requests calls := by
  unfold requests
  rw [List.filter_cons_of_pos (by simp [silent])]

theorem sameBut_of_requests {calls calls' : List (Call SourceFrontend)}
    (same : requests calls = requests calls') : SameBut calls calls' := by
  induction calls generalizing calls' with
  | nil =>
    induction calls' with
    | nil => exact .nil
    | cons c calls' ih =>
      cases asks : c.enables with
      | true => exact .second asks (ih (same.trans (requests_cons_of_enables asks calls')))
      | false =>
        rw [requests_cons_of_silent asks] at same
        cases same
  | cons c calls ih =>
    cases asks : c.enables with
    | true =>
      rw [requests_cons_of_enables asks] at same
      exact .first asks (ih same)
    | false =>
      rw [requests_cons_of_silent asks] at same
      induction calls' with
      | nil => cases same
      | cons c' calls' ih' =>
        cases asks' : c'.enables with
        | true => exact .second asks' (ih' (same.trans (requests_cons_of_enables asks' calls')))
        | false =>
          rw [requests_cons_of_silent asks'] at same
          obtain ⟨rfl, rest⟩ := List.cons.inj same
          exact .both asks (ih rest)

section
variable {given d d' : Diagnostics} {s t : NumericSession}
  {calls calls' : List (Call SourceFrontend)}

theorem sights_agree (same : SameBut calls calls')
    (blind : ∀ c ∈ calls, c.Changes SourceFrontend.Blind) (twins : Twins given d d' s t) :
    List.Forall₂ Sight.Agrees (sights s calls) (sights t calls') := by
  induction same generalizing d d' s t with
  | nil => exact .nil
  | both silent rest ih =>
    rw [List.forall_mem_cons] at blind
    obtain ⟨a, b, first, second, -, -, agrees⟩ := twins.sight_agrees blind.1 silent
    rw [sights_of_sight? first, sights_of_sight? second]
    exact .cons agrees (ih blind.2 (twins.ask blind.1 silent))
  | first asks rest ih =>
    rw [List.forall_mem_cons] at blind
    rw [sights_of_enables asks]
    exact ih blind.2 (twins.enable_first asks)
  | second asks rest ih =>
    rw [sights_of_enables asks]
    exact ih blind (twins.enable_second asks)

theorem flagsAfter_within (within : d.Within d') (c : Call SourceFrontend) :
    (flagsAfter d c).Within (flagsAfter d' c) := by
  cases c with
  | enableFrontendDiagnostics => exact ⟨fun _ => rfl, within.backend⟩
  | enableBackendDiagnostics => exact ⟨within.frontend, fun _ => rfl⟩
  | _ => exact within

theorem within_flagsAfter (within : d.Within d') (c : Call SourceFrontend) :
    d.Within (flagsAfter d' c) := by
  cases c with
  | enableFrontendDiagnostics => exact ⟨fun _ => rfl, within.backend⟩
  | enableBackendDiagnostics => exact ⟨within.frontend, fun _ => rfl⟩
  | _ => exact within

/-- Where debug records are asked for more often, more flags are in force at every call. -/
theorem flags_within (more : calls.Sublist calls') (same : requests calls = requests calls')
    (blind : ∀ c ∈ calls, c.Changes SourceFrontend.Blind) (within : d.Within d')
    (twins : Twins given d d' s t) :
    List.Forall₂ (fun a b => a.flags.Within b.flags) (sights s calls) (sights t calls') := by
  induction more generalizing d d' s t with
  | slnil => exact .nil
  | @cons calls calls' c more ih =>
    cases asks : c.enables with
    | true =>
      rw [requests_cons_of_enables asks] at same
      rw [sights_of_enables asks]
      exact ih same blind (within_flagsAfter within c) (twins.enable_second asks)
    | false =>
      -- A request that one history makes and the other does not is no request of both.
      rw [requests_cons_of_silent asks] at same
      have fewer := (more.filter (!·.enables)).length_le
      have longer := congrArg List.length same
      rw [List.length_cons] at longer
      unfold requests at longer
      omega
  | @cons_cons calls calls' c more ih =>
    rw [List.forall_mem_cons] at blind
    cases asks : c.enables with
    | true =>
      rw [requests_cons_of_enables asks, requests_cons_of_enables asks] at same
      rw [sights_of_enables asks, sights_of_enables asks]
      exact ih same blind.2 (flagsAfter_within within c)
        ((twins.enable_first asks).enable_second asks)
    | false =>
      rw [requests_cons_of_silent asks, requests_cons_of_silent asks] at same
      obtain ⟨a, b, first, second, heard, heard', -⟩ := twins.sight_agrees blind.1 asks
      rw [sights_of_sight? first, sights_of_sight? second]
      refine .cons ?_ (ih (List.cons.inj same).2 blind.2 within (twins.ask blind.1 asks))
      rwa [heard, heard']

end

/-! ## The law -/

/-- A new session holds nothing, and its collaborators write debug records where they did before or
where it is configured. -/
theorem start_eq (frontend : SourceFrontend) (backend : NumericBackend)
    (configuration : Configuration) : (start frontend backend configuration : NumericSession) =
      ⟨{ frontend with verbose := frontend.verbose || configuration.diagnostics.frontend },
        { backend with verbose := backend.verbose || configuration.diagnostics.backend },
        .empty, .empty, configuration.diagnostics, configuration⟩ := by
  unfold start enableFrontendDiagnostics enableBackendDiagnostics
  obtain ⟨front, back⟩ := configuration.diagnostics
  cases front <;> cases back <;> simp [Frontend.setVerbose, Backend.setVerbose]

theorem start_twins (frontend : SourceFrontend) (backend : NumericBackend)
    (configuration : Configuration) (flags flags' : Diagnostics) :
    Twins ⟨frontend.verbose, backend.verbose⟩ flags flags'
      (start frontend backend { configuration with diagnostics := flags })
      (start frontend backend { configuration with diagnostics := flags' }) := by
  rw [start_eq, start_eq]
  exact ⟨⟨rfl, rfl⟩, ⟨rfl, rfl⟩, rfl, rfl, ⟨flags', rfl⟩, rfl, rfl⟩

/-- What agrees call by call agrees as a whole. -/
theorem written_agree {sights sights' : List (Sight SourceFrontend NumericBackend)}
    (agree : List.Forall₂ Sight.Agrees sights sights') :
    notable (sights.flatMap (·.log)) = notable (sights'.flatMap (·.log)) ∧
      (List.Forall₂ (fun a b => a.flags.Within b.flags) sights sights' →
        (sights.flatMap (·.log)).Sublist (sights'.flatMap (·.log))) := by
  induction agree with
  | nil => exact ⟨rfl, fun _ => .refl _⟩
  | cons first _ ih =>
    rw [List.flatMap_cons, List.flatMap_cons, notable_append, notable_append,
      first.log_adds.notable_eq, ih.1]
    refine ⟨rfl, fun within => ?_⟩
    obtain ⟨here, later⟩ := List.forall₂_cons.1 within
    exact (first.log_adds.sublist here).append (ih.2 later)

/-- A source text, of which a model is compiled. -/
def decayCalls : List (Call SourceFrontend) :=
  [.changeFrontend (·.addSource "decay.mo"
      "model Decay Real x(start = 1); equation der(x) = -x; end Decay;"),
    .compile "Decay" "decay.mo" .none]

/-- The same with debug records of the backend. -/
def heardDecayCalls : List (Call SourceFrontend) := .enableBackendDiagnostics :: decayCalls

end NumericSession

end Acausal

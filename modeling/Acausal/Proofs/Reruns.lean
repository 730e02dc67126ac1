-- Running a compiled model again. A rerun does what a run of the compiled model does and differs
-- from it in one place: a failure that the configured policy recovers from is logged together
-- with the models there are, and then it is no failure of the rerun.
import Acausal.Proofs.FailedOperations
import Acausal.Proofs.SessionHistory
import Acausal.Proofs.Success

namespace Acausal

/-- The failures of runs that a policy recovers from, told by whether there is a compiled model
to run. -/
def RecoveryPolicy.Covers (policy : RecoveryPolicy) (compiled : Prop) : Prop :=
  policy = .anyFailure ∨ (policy = .notCompiled ∧ ¬ compiled)

instance (policy : RecoveryPolicy) (compiled : Prop) [Decidable compiled] :
    Decidable (policy.Covers compiled) :=
  inferInstanceAs (Decidable (_ ∨ _))

namespace Session

variable {F B : Type} [Frontend F] [Backend B (Frontend.Flat F)]
variable {s : Session F B} {model : String} {span : TimeSpan} {solver : String}

/-! ## Runs of compiled models -/

/-- A run of the compiled model with nothing left to the configuration. -/
abbrev registryRun (model : String) (span : TimeSpan) (solver : String) :
    Operation F B Trajectory :=
  simulate ⟨model, .registry, some span, some solver⟩

/-- A run leaves the compiled models and the configuration as they are. -/
theorem registryRun_keeps (model : String) (span : TimeSpan) (solver : String) :
    Action.Respects (fun s : Session F B => (s.compiledModels, s.configuration))
      (fun _ => True) (fun _ => True) (registryRun (F := F) (B := B) model span solver) := by
  refine .bind .get fun _ => .bind (.bind .get fun _ => .ofExcept fun _ _ => trivial) fun _ => ?_
  refine .bind (.write trivial) fun _ => ?_
  exact .onPart (fun _ _ => rfl) (fun _ => trivial) fun _ _ _ => trivial

/-- A run fails for want of a compiled model exactly when there is none. -/
theorem isNotCompiled_iff {e : Failure F B}
    (failed : ((registryRun model span solver).run s).result = .error e) :
    e.isNotCompiled = true ↔ model ∉ s.compiledModels := by
  rw [compiledModels, Table.mem_names_iff]
  cases held : s.registry.get? model with
  | none =>
    have missing : ((compiled model).run s : Outcome _ (Failure F B) _).result =
        .error (.modelNotCompiled model) := by
      rw [result_compiled, held]
      rfl
    have stopped := Action.run_bind_error (integrated model span solver) missing
    have same : ((registryRun model span solver).run s).result =
        .error (.modelNotCompiled model) := congrArg Outcome.result stopped
    rw [same] at failed
    cases failed
    simp [SessionError.isNotCompiled]
  | some artifact =>
    obtain ⟨cause, rfl⟩ := failure_of_compiled held failed
    simp [SessionError.isNotCompiled]

/-- The configured policy recovers from the failure of a run if it covers it. -/
theorem recovers_iff {e : Failure F B}
    (failed : ((registryRun model span solver).run s).result = .error e) :
    s.configuration.recovery.recovers e = true ↔
      s.configuration.recovery.Covers (model ∈ s.compiledModels) := by
  unfold RecoveryPolicy.Covers
  cases s.configuration.recovery with
  | notCompiled => simpa [RecoveryPolicy.recovers] using isNotCompiled_iff failed
  | anyFailure => simp [RecoveryPolicy.recovers]
  | strict => simp [RecoveryPolicy.recovers]

/-! ## Reruns -/

/-- The record that a rerun failed. -/
def regret (model : String) (e : Failure F B) : Record :=
  ⟨.error, "cannot resimulate " ++ model ++ ": " ++ e.summary ++
    ". Translate the model before resimulating it."⟩

/-- The record of the compiled models there are. -/
def listing (names : List String) : Record :=
  ⟨.info, "compiled models: [" ++ ", ".intercalate names ++ "]"⟩

/-- What a rerun does once the run is over. -/
def settle (model : String) : Except (Failure F B) Trajectory → Operation F B Rerun
  | .ok trajectory => return .simulated trajectory
  | .error failure => do
    let s ← Action.get
    if s.configuration.recovery.recovers failure then
      Action.write .error ("cannot resimulate " ++ model ++ ": " ++ failure.summary ++
        ". Translate the model before resimulating it.")
      Action.write .info ("compiled models: [" ++ ", ".intercalate s.compiledModels ++ "]")
      return .recovered model s.compiledModels
    else Action.fail failure

/-- A rerun makes the run and then settles it. -/
theorem run_resimulate (model : String) (span : TimeSpan) (solver : String) (s : Session F B) :
    (resimulate model span solver).run s =
      let run := (registryRun model span solver).run s
      let settled := (settle model run.result).run run.state
      ⟨settled.result, settled.state, run.log ++ settled.log⟩ := by
  change (Action.attempt (registryRun model span solver) >>= settle model).run s = _
  rw [Action.run_attempt_bind]

theorem run_settle_error (model : String) (e : Failure F B) (s : Session F B) :
    (settle model (.error e)).run s =
      if s.configuration.recovery.recovers e then
        ⟨.ok (.recovered model s.compiledModels), s,
          [regret model e, listing s.compiledModels]⟩
      else ⟨.error e, s, []⟩ := by
  unfold settle
  rw [Action.run_get_bind]
  split <;> rfl

/-- A run that succeeds is what the rerun gives. -/
theorem resimulate_of_ok {v : Trajectory}
    (ran : ((registryRun model span solver).run s).result = .ok v) :
    ((resimulate model span solver).run s).result = .ok (.simulated v) ∧
      ((resimulate model span solver).run s).log = ((registryRun model span solver).run s).log := by
  rw [run_resimulate]
  simp only [ran]
  exact ⟨rfl, List.append_nil _⟩

/-- A run that fails is settled by the policy and the models from before it. -/
theorem resimulate_of_error {e : Failure F B}
    (failed : ((registryRun model span solver).run s).result = .error e) :
    if s.configuration.recovery.Covers (model ∈ s.compiledModels) then
      ((resimulate model span solver).run s).result = .ok (.recovered model s.compiledModels) ∧
        ((resimulate model span solver).run s).log =
          ((registryRun model span solver).run s).log ++
            [regret model e, listing s.compiledModels]
    else
      ((resimulate model span solver).run s).result = .error e ∧
        ((resimulate model span solver).run s).log =
          ((registryRun model span solver).run s).log := by
  have kept := (registryRun_keeps model span solver).view_eq s
  simp only [Prod.mk.injEq] at kept
  rw [run_resimulate]
  simp only [failed, run_settle_error, kept, recovers_iff failed]
  split
  · exact ⟨rfl, rfl⟩
  · exact ⟨rfl, List.append_nil _⟩

/-! ## The law of reruns -/

/-- How a rerun compares with a run of the compiled model, both from the same state. -/
structure FollowsRun (s : Session F B) (model : String)
    (run : Outcome (Session F B) (Failure F B) Trajectory)
    (rerun : Outcome (Session F B) (Failure F B) Rerun) : Prop where
  simulated : ∀ v, rerun.result = .ok (.simulated v) ↔ run.result = .ok v
  recovered : ∀ e, run.result = .error e →
    ((∃ named available, rerun.result = .ok (.recovered named available)) ↔
      s.configuration.recovery.Covers (model ∈ s.compiledModels))
  failed : ∀ e, run.result = .error e →
    ¬ s.configuration.recovery.Covers (model ∈ s.compiledModels) → rerun.result = .error e
  /-- A strict policy recovers from nothing. -/
  strict : s.configuration.recovery = .strict →
    ∀ named available, rerun.result ≠ .ok (.recovered named available)
  /-- A policy for any failure leaves none. -/
  anyFailure : s.configuration.recovery = .anyFailure → ∀ e, rerun.result ≠ .error e
  /-- What is recovered names the model and lists the models compiled, each once, in order. -/
  lists : ∀ named available, rerun.result = .ok (.recovered named available) →
    named = model ∧ available.Pairwise (· < ·) ∧
      ∀ name, name ∈ available ↔ (s.registry.get? name).isSome
  logged : ∀ named available, rerun.result = .ok (.recovered named available) →
    ∃ e, run.result = .error e ∧ rerun.log = run.log ++ [regret model e, listing available]
  quiet : (∀ named available, rerun.result ≠ .ok (.recovered named available)) →
    rerun.log = run.log

/-- Running a compiled model again agrees with running it but for the failures that the policy
covers, from which it recovers with the models there are. -/
theorem reruns_follow_runs (s : Session F B) (model : String) (span : TimeSpan)
    (solver : String) :
    FollowsRun s model ((simulate ⟨model, .registry, some span, some solver⟩).run s)
      ((resimulate model span solver).run s) := by
  cases ran : ((registryRun model span solver).run s).result with
  | ok v =>
    obtain ⟨result, log⟩ := resimulate_of_ok ran
    refine ⟨fun w => ?_, ?_, ?_, ?_, ?_, ?_, ?_, fun _ => log⟩
    · rw [result, ran]
      simp
    all_goals simp [result, ran]
  | error e =>
    have settled := resimulate_of_error ran
    by_cases covered : s.configuration.recovery.Covers (model ∈ s.compiledModels)
    · rw [if_pos covered] at settled
      obtain ⟨result, log⟩ := settled
      refine ⟨?_, ?_, ?_, fun strict => ?_, ?_, ?_, ?_, fun none => ?_⟩
      · simp [result, ran]
      · intro e' _
        exact ⟨fun _ => covered, fun _ => ⟨_, _, result⟩⟩
      · intro e' _ uncovered
        exact absurd covered uncovered
      · rcases covered with any | ⟨missing, -⟩
        · cases strict.symm.trans any
        · cases strict.symm.trans missing
      · simp [result]
      · intro named available recovered
        cases result.symm.trans recovered
        exact ⟨rfl, Table.names_ordered _, fun name => Table.mem_names_iff⟩
      · intro named available recovered
        cases result.symm.trans recovered
        exact ⟨e, ran, log⟩
      · exact absurd result (none _ _)
    · rw [if_neg covered] at settled
      obtain ⟨result, log⟩ := settled
      refine ⟨?_, ?_, ?_, ?_, fun any => ?_, ?_, ?_, fun _ => log⟩
      · simp [result, ran]
      · intro e' _
        simp [result, covered]
      · intro e' failed _
        cases ran.symm.trans failed
        exact result
      · simp [result]
      · exact absurd (.inl any) covered
      · simp [result]
      · simp [result]

end Session

/-- The session that knows the text of a decay, once the decay is compiled. -/
def compiledDecaySession : NumericSession :=
  ((Session.compile "Decay" "decay.mo" .none).run decaySession).state

/-- The model that a rerun missed, and the models there are. -/
def Rerun.missed? : Rerun → Option (String × List String)
  | .simulated _ => none
  | .recovered model available => some (model, available)

/-- Asked to run another model again, that session says which one it has. -/
theorem decay_is_what_there_is :
    ((Session.resimulate "Rise" ⟨0.0, 1.0⟩ "ros2").run compiledDecaySession).result =
        .ok (.recovered "Rise" ["Decay"]) ∧
      Session.FollowsRun compiledDecaySession "Rise"
        ((Session.simulate ⟨"Rise", .registry, some ⟨0.0, 1.0⟩, some "ros2"⟩).run
          compiledDecaySession)
        ((Session.resimulate "Rise" ⟨0.0, 1.0⟩ "ros2").run compiledDecaySession) := by
  refine ⟨?_, Session.reruns_follow_runs ..⟩
  have recovered : ((Session.resimulate "Rise" ⟨0.0, 1.0⟩ "ros2").run
      compiledDecaySession).result.toOption.bind Rerun.missed? = some ("Rise", ["Decay"]) := by
    decide +kernel
  obtain ⟨rerun, ran, missed⟩ := Option.bind_eq_some_iff.1 recovered
  rw [toOption_eq_some] at ran
  cases rerun with
  | simulated trajectory => cases missed
  | recovered model available =>
    cases missed
    exact ran

end Acausal

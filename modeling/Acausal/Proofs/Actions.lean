-- What the parts of an action say about the whole. An action respects a view of the state, a
-- kind of failure and a kind of record if it leaves the view as it was, fails in no other way
-- and writes no other records. A sequence respects what both of its parts respect, so for a
-- long operation only its single steps have to be looked at.
import Acausal.Session.Action

namespace Acausal.Action

variable {σ τ ε δ β γ ν : Type}

/-! ## Runs of sequences -/

@[simp] theorem run_write (level : Level) (text : String) (s : σ) :
    (write level text : Action σ ε Unit).run s = ⟨.ok (), s, [⟨level, text⟩]⟩ := rfl

theorem run_writeIf (flag : Bool) (level : Level) (text : String) (s : σ) :
    (writeIf flag level text : Action σ ε Unit).run s =
      ⟨.ok (), s, if flag then [⟨level, text⟩] else []⟩ := by
  cases flag <;> rfl

@[simp] theorem run_get_bind (next : σ → Action σ ε β) (s : σ) :
    (get >>= next).run s = (next s).run s := rfl

@[simp] theorem run_ofExcept (result : Except ε β) (s : σ) :
    (ofExcept result : Action σ ε β).run s = ⟨result, s, []⟩ := by
  cases result <;> rfl

/-- A sequence stops where its first part fails. -/
theorem run_bind_error {a : Action σ ε β} {s : σ} {e : ε} (next : β → Action σ ε γ)
    (h : (a.run s).result = .error e) :
    (a >>= next).run s = ⟨.error e, (a.run s).state, (a.run s).log⟩ := by
  change (a.andThen next) s = _
  unfold andThen
  simp only [show (a s).result = .error e from h]
  rfl

/-- The second part of a sequence starts where the first one came to. -/
theorem run_bind_ok {a : Action σ ε β} {s : σ} {b : β} (next : β → Action σ ε γ)
    (h : (a.run s).result = .ok b) :
    (a >>= next).run s = ⟨((next b).run (a.run s).state).result,
      ((next b).run (a.run s).state).state,
      (a.run s).log ++ ((next b).run (a.run s).state).log⟩ := by
  change (a.andThen next) s = _
  unfold andThen
  simp only [show (a s).result = .ok b from h]
  rfl

/-- A sequence stops in its first part or goes on to the second. -/
theorem run_bind_cases (a : Action σ ε β) (next : β → Action σ ε γ) (s : σ) :
    (∃ e, (a.run s).result = .error e ∧
      (a >>= next).run s = ⟨.error e, (a.run s).state, (a.run s).log⟩) ∨
    (∃ b, (a.run s).result = .ok b ∧
      (a >>= next).run s = ⟨((next b).run (a.run s).state).result,
        ((next b).run (a.run s).state).state,
        (a.run s).log ++ ((next b).run (a.run s).state).log⟩) := by
  cases result : (a.run s).result with
  | error e => exact .inl ⟨e, rfl, run_bind_error next result⟩
  | ok b => exact .inr ⟨b, rfl, run_bind_ok next result⟩

/-- What follows an attempt sees its outcome, whatever it is. -/
theorem run_attempt_bind (a : Action σ ε β) (next : Except ε β → Action σ ε γ) (s : σ) :
    (attempt a >>= next).run s = ⟨((next (a.run s).result).run (a.run s).state).result,
      ((next (a.run s).result).run (a.run s).state).state,
      (a.run s).log ++ ((next (a.run s).result).run (a.run s).state).log⟩ := rfl

/-- It does not matter how a longer sequence is cut into parts. -/
theorem run_bind_assoc (a : Action σ ε β) (next : β → Action σ ε γ) (last : γ → Action σ ε δ)
    (s : σ) : (a >>= next >>= last).run s = (a >>= fun b => next b >>= last).run s := by
  cases first : (a.run s).result with
  | error e =>
    have stopped := run_bind_error next first
    rw [run_bind_error _ (congrArg Outcome.result stopped), stopped, run_bind_error _ first]
  | ok b =>
    have on := run_bind_ok next first
    rw [run_bind_ok _ first]
    cases second : ((next b).run (a.run s).state).result with
    | error e =>
      rw [run_bind_error last ((congrArg Outcome.result on).trans second), on,
        run_bind_error last second]
    | ok c =>
      rw [run_bind_ok last ((congrArg Outcome.result on).trans second), on,
        run_bind_ok last second]
      simp only [List.append_assoc]

instance : LawfulMonad (Action σ ε) := .mk' _
  (fun a => funext fun s => by
    change (a >>= fun b => pure b).run s = a.run s
    rcases run_bind_cases a (fun b => pure b) s with ⟨e, result, run⟩ | ⟨b, result, run⟩
    · rw [run, ← result]
    · rw [run, show ((pure b : Action σ ε _).run (a.run s).state) = ⟨.ok b, _, []⟩ from rfl,
        ← result, List.append_nil])
  (fun _ _ => rfl)
  (fun a next last => funext fun s => run_bind_assoc a next last s)

/-! ## Respectful actions -/

/-- What an action keeps to in every state. -/
structure Respects (view : σ → ν) (failure : ε → Prop) (record : Record → Prop)
    (a : Action σ ε β) : Prop where
  view_eq : ∀ s, view (a.run s).state = view s
  failure_of : ∀ s e, (a.run s).result = .error e → failure e
  record_of : ∀ s r, r ∈ (a.run s).log → record r

namespace Respects

variable {view : σ → ν} {failure : ε → Prop} {record : Record → Prop}

theorem done (b : β) : Respects view failure record (pure b) where
  view_eq _ := rfl
  failure_of _ _ h := nomatch h
  record_of _ _ h := nomatch h

theorem fail {e : ε} (h : failure e) :
    Respects view failure record (Action.fail e : Action σ ε β) where
  view_eq _ := rfl
  failure_of s e' h' := by
    cases h'
    exact h
  record_of _ _ h := nomatch h

theorem get : Respects view failure record (Action.get : Action σ ε σ) where
  view_eq _ := rfl
  failure_of _ _ h := nomatch h
  record_of _ _ h := nomatch h

theorem write {level : Level} {text : String} (h : record ⟨level, text⟩) :
    Respects view failure record (Action.write level text : Action σ ε Unit) where
  view_eq _ := rfl
  failure_of _ _ h := nomatch h
  record_of s r hr := by
    rw [run_write, List.mem_singleton] at hr
    exact hr ▸ h

theorem ofExcept {result : Except ε β} (h : ∀ e, result = .error e → failure e) :
    Respects view failure record (Action.ofExcept result : Action σ ε β) := by
  cases result with
  | error e => exact fail (h e rfl)
  | ok b => exact done b

theorem bind {a : Action σ ε β} {next : β → Action σ ε γ} (first : Respects view failure record a)
    (second : ∀ b, Respects view failure record (next b)) :
    Respects view failure record (a >>= next) := by
  refine ⟨fun s => ?_, fun s e h => ?_, fun s r h => ?_⟩
  all_goals rcases run_bind_cases a next s with ⟨e', result, run⟩ | ⟨b, result, run⟩
  · rw [run]
    exact first.view_eq s
  · rw [run]
    exact ((second b).view_eq _).trans (first.view_eq s)
  · rw [run] at h
    cases h
    exact first.failure_of s _ result
  · rw [run] at h
    exact (second b).failure_of _ e h
  · rw [run] at h
    exact first.record_of s r h
  · rw [run] at h
    rcases List.mem_append.1 h with h | h
    · exact first.record_of s r h
    · exact (second b).record_of _ r h

/-- An attempt does not fail, whatever the action does that it makes. -/
theorem attempt {possible : ε → Prop} {a : Action σ ε β}
    (h : Respects view possible record a) :
    Respects view failure record (Action.attempt a) where
  view_eq s := h.view_eq s
  failure_of _ _ h := nomatch h
  record_of s r hr := h.record_of s r hr

/-- An action on a part of the state that is out of view. -/
theorem onPart {part : σ → τ} {replace : σ → τ → σ} {wrap : δ → ε} {a : Action τ δ β}
    (out_of_view : ∀ s t, view (replace s t) = view s) (failures : ∀ d, failure (wrap d))
    (records : ∀ t r, r ∈ (a.run t).log → record r) :
    Respects view failure record (Action.onPart part replace wrap a) where
  view_eq s := out_of_view s _
  failure_of s e h := by
    change ((a.run (part s)).result).mapError wrap = _ at h
    cases result : (a.run (part s)).result with
    | error d =>
      rw [result] at h
      cases h
      exact failures d
    | ok b =>
      rw [result] at h
      cases h
  record_of s r h := records (part s) r h

/-- What an action respects it respects all the more where more is allowed. -/
theorem weaken {failure' : ε → Prop} {record' : Record → Prop} {a : Action σ ε β}
    (h : Respects view failure record a) (failures : ∀ e, failure e → failure' e)
    (records : ∀ r, record r → record' r) : Respects view failure' record' a where
  view_eq := h.view_eq
  failure_of s e he := failures e (h.failure_of s e he)
  record_of s r hr := records r (h.record_of s r hr)

end Respects

/-! ## What actions maintain -/

/-- An action after which something holds of the state if it held before, whether the action
fails or not. -/
def Maintains (inv : σ → Prop) (a : Action σ ε β) : Prop := ∀ s, inv s → inv (a.run s).state

namespace Maintains

variable {inv : σ → Prop}

theorem done (b : β) : Maintains inv (pure b : Action σ ε β) := fun _ h => h

theorem fail (e : ε) : Maintains inv (Action.fail e : Action σ ε β) := fun _ h => h

theorem get : Maintains inv (Action.get : Action σ ε σ) := fun _ h => h

theorem write (level : Level) (text : String) :
    Maintains inv (Action.write level text : Action σ ε Unit) := fun _ h => h

theorem writeIf (flag : Bool) (level : Level) (text : String) :
    Maintains inv (Action.writeIf flag level text : Action σ ε Unit) := by
  cases flag with
  | false => exact done ()
  | true => exact write level text

theorem ofExcept (result : Except ε β) :
    Maintains inv (Action.ofExcept result : Action σ ε β) := by
  cases result with
  | error e => exact fail e
  | ok b => exact done b

theorem modify {change : σ → σ} (h : ∀ s, inv s → inv (change s)) :
    Maintains inv (Action.modify change : Action σ ε Unit) := h

theorem bind {a : Action σ ε β} {next : β → Action σ ε γ} (first : Maintains inv a)
    (second : ∀ b, Maintains inv (next b)) : Maintains inv (a >>= next) := by
  intro s h
  rcases run_bind_cases a next s with ⟨e, -, run⟩ | ⟨b, -, run⟩
  · rw [run]
    exact first s h
  · rw [run]
    exact second b _ (first s h)

theorem attempt {a : Action σ ε β} (h : Maintains inv a) :
    Maintains inv (Action.attempt a : Action σ ε (Except ε β)) := h

/-- An action on a part of the state maintains of the whole what it maintains of the part. -/
theorem onPart {inner : τ → Prop} {part : σ → τ} {replace : σ → τ → σ} {wrap : δ → ε}
    {a : Action τ δ β} (h : Maintains inner a) (back : ∀ s t, part (replace s t) = t) :
    Maintains (fun s => inner (part s)) (Action.onPart part replace wrap a) := by
  intro s holds
  change inner (part (replace s (a.run (part s)).state))
  rw [back]
  exact h _ holds

end Maintains

end Acausal.Action

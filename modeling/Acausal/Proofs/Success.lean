-- When a computation that may fail succeeds. A chain of steps succeeds exactly when each step
-- does on what the one before it gave, and a walk over a list when every item goes through.
import Mathlib.Data.List.Forall2

namespace Acausal

variable {ε ε' α β σ : Type}

/-! ## Steps -/

theorem bind_eq_ok {x : Except ε α} {f : α → Except ε β} {b : β} :
    (x >>= f) = .ok b ↔ ∃ a, x = .ok a ∧ f a = .ok b := by
  cases x <;> simp [bind, Except.bind]

theorem bind_unit_eq_ok {x : Except ε Unit} {f : Unit → Except ε β} {b : β} :
    (x >>= f) = .ok b ↔ x = .ok () ∧ f () = .ok b := by
  rw [bind_eq_ok]
  exact ⟨fun ⟨_, first, rest⟩ => ⟨first, rest⟩, fun ⟨first, rest⟩ => ⟨(), first, rest⟩⟩

theorem pure_eq_ok {a b : α} : (pure a : Except ε α) = .ok b ↔ a = b := by
  simp [pure, Except.pure]

theorem mapError_eq_ok {f : ε → ε'} {x : Except ε α} {a : α} :
    x.mapError f = .ok a ↔ x = .ok a := by
  cases x <;> simp [Except.mapError]

theorem bind_eq_error {x : Except ε α} {f : α → Except ε β} {e : ε} :
    (x >>= f) = .error e ↔ x = .error e ∨ ∃ a, x = .ok a ∧ f a = .error e := by
  cases x <;> simp [bind, Except.bind]

theorem mapError_eq_error {f : ε → ε'} {x : Except ε α} {e : ε'} :
    x.mapError f = .error e ↔ ∃ cause, x = .error cause ∧ f cause = e := by
  cases x <;> simp [Except.mapError]

theorem toOption_eq_some {x : Except ε α} {a : α} : x.toOption = some a ↔ x = .ok a := by
  cases x <;> simp [Except.toOption]

/-! ## Walks over a list -/

/-- A list is mapped when every item is, each to the value in its place. -/
theorem mapM_eq_ok {f : α → Except ε β} {l : List α} {out : List β} :
    l.mapM f = .ok out ↔ List.Forall₂ (fun a b => f a = .ok b) l out := by
  induction l generalizing out with
  | nil =>
    rw [List.mapM_nil, pure_eq_ok, List.forall₂_nil_left_iff]
    exact eq_comm
  | cons a l ih =>
    rw [List.mapM_cons, bind_eq_ok]
    constructor
    · rintro ⟨b, hb, rest⟩
      obtain ⟨bs, hbs, done⟩ := bind_eq_ok.1 rest
      rw [← pure_eq_ok.1 done]
      exact .cons hb (ih.1 hbs)
    · rintro (_ | ⟨hb, hbs⟩)
      exact ⟨_, hb, bind_eq_ok.2 ⟨_, ih.2 hbs, rfl⟩⟩

/-- A walk that fails does so at one of the items. -/
theorem mapM_error {f : α → Except ε β} {l : List α} {e : ε} (h : l.mapM f = .error e) :
    ∃ a ∈ l, f a = .error e := by
  induction l with
  | nil => cases h
  | cons a l ih =>
    rw [List.mapM_cons, bind_eq_error] at h
    rcases h with here | ⟨b, -, later⟩
    · exact ⟨a, List.mem_cons_self, here⟩
    · rw [bind_eq_error] at later
      rcases later with later | ⟨_, -, done⟩
      · obtain ⟨a', listed, fails⟩ := ih later
        exact ⟨a', List.mem_cons_of_mem a listed, fails⟩
      · cases done

theorem exists_forall₂ {R : α → β → Prop} {l : List α} (h : ∀ a ∈ l, ∃ b, R a b) :
    ∃ out, List.Forall₂ R l out := by
  induction l with
  | nil => exact ⟨[], .nil⟩
  | cons a l ih =>
    rw [List.forall_mem_cons] at h
    obtain ⟨b, hb⟩ := h.1
    obtain ⟨bs, hbs⟩ := ih h.2
    exact ⟨b :: bs, .cons hb hbs⟩

/-- A list can be mapped when every item can. -/
theorem exists_mapM_iff {f : α → Except ε β} {l : List α} :
    (∃ out, l.mapM f = .ok out) ↔ ∀ a ∈ l, ∃ b, f a = .ok b := by
  simp only [mapM_eq_ok]
  constructor
  · rintro ⟨out, paired⟩ a ha
    induction paired with
    | nil => cases ha
    | cons first _ ih =>
      rcases List.mem_cons.1 ha with rfl | later
      · exact ⟨_, first⟩
      · exact ih later
  · exact exists_forall₂

/-- What pairs items keeps what both sides agree on. -/
theorem map_eq_of_forall₂ {R : α → β → Prop} {f : α → σ} {g : β → σ} {l : List α} {out : List β}
    (h : List.Forall₂ R l out) (agree : ∀ a b, R a b → g b = f a) : out.map g = l.map f := by
  induction h with
  | nil => rfl
  | cons first _ ih => rw [List.map_cons, List.map_cons, agree _ _ first, ih]

/-- What pairs items may be weakened for the items that there are. -/
theorem forall₂_imp_of_mem {R S : α → β → Prop} {l : List α} {out : List β}
    (h : List.Forall₂ R l out) (imp : ∀ a ∈ l, ∀ b, R a b → S a b) : List.Forall₂ S l out := by
  induction h with
  | nil => exact .nil
  | cons first _ ih =>
    rw [List.forall_mem_cons] at imp
    exact .cons (imp.1 _ first) (ih imp.2)

theorem exists_of_forall₂_right {R : α → β → Prop} {l : List α} {out : List β}
    (h : List.Forall₂ R l out) : ∀ b ∈ out, ∃ a ∈ l, R a b := by
  induction h with
  | nil => simp
  | cons first _ ih =>
    rw [List.forall_mem_cons]
    refine ⟨⟨_, List.mem_cons_self, first⟩, fun b hb => ?_⟩
    obtain ⟨a, ha, paired⟩ := ih b hb
    exact ⟨a, List.mem_cons_of_mem _ ha, paired⟩

theorem forM_eq_ok {f : α → Except ε Unit} {l : List α} :
    l.forM f = .ok () ↔ ∀ a ∈ l, f a = .ok () := by
  induction l with
  | nil => simp [pure, Except.pure]
  | cons a l ih =>
    rw [List.forall_mem_cons]
    change (f a >>= fun _ => l.forM f) = .ok () ↔ _
    rw [bind_eq_ok]
    constructor
    · rintro ⟨_, ha, hl⟩
      exact ⟨ha, ih.1 hl⟩
    · rintro ⟨ha, hl⟩
      exact ⟨(), ha, ih.2 hl⟩

/-- A check of all items that fails does so at one of them. -/
theorem forM_error {f : α → Except ε Unit} {l : List α} {e : ε} (h : l.forM f = .error e) :
    ∃ a ∈ l, f a = .error e := by
  induction l with
  | nil => cases h
  | cons a l ih =>
    change (f a >>= fun _ => l.forM f) = .error e at h
    rcases bind_eq_error.1 h with here | ⟨_, -, later⟩
    · exact ⟨a, List.mem_cons_self, here⟩
    · obtain ⟨a', listed, fails⟩ := ih later
      exact ⟨a', List.mem_cons_of_mem a listed, fails⟩

/-- What every step of a fold keeps holds at its end. -/
theorem foldlM_keeps {f : σ → α → Except ε σ} {l : List α} {P : σ → Prop} {s s' : σ}
    (step : ∀ s, ∀ a ∈ l, ∀ s', P s → f s a = .ok s' → P s') (start : P s)
    (h : l.foldlM f s = .ok s') : P s' := by
  induction l generalizing s with
  | nil =>
    rw [List.foldlM_nil, pure_eq_ok] at h
    exact h ▸ start
  | cons a l ih =>
    rw [List.foldlM_cons, bind_eq_ok] at h
    obtain ⟨s₁, ha, h⟩ := h
    exact ih (fun s a ha => step s a (List.mem_cons_of_mem _ ha))
      (step s a List.mem_cons_self s₁ start ha) h

/-- A fold follows another one of the same list if each of its steps does. -/
theorem foldlM_map {τ : Type} {f : σ → α → Except ε σ} {g : τ → α → Except ε τ} {l : List α}
    {s s' : σ} (φ : σ → τ)
    (step : ∀ s, ∀ a ∈ l, ∀ s', f s a = .ok s' → g (φ s) a = .ok (φ s'))
    (h : l.foldlM f s = .ok s') : l.foldlM g (φ s) = .ok (φ s') := by
  induction l generalizing s with
  | nil =>
    rw [List.foldlM_nil, pure_eq_ok] at h ⊢
    rw [h]
  | cons a l ih =>
    rw [List.foldlM_cons, bind_eq_ok] at h ⊢
    obtain ⟨s₁, ha, h⟩ := h
    exact ⟨φ s₁, step s a List.mem_cons_self s₁ ha,
      ih (fun s a ha => step s a (List.mem_cons_of_mem _ ha)) h⟩

/-- A fold takes every step that a fold of the same list takes with as much success. -/
theorem foldlM_mono {f g : σ → α → Except ε σ} {l : List α} {s s' : σ}
    (step : ∀ s, ∀ a ∈ l, ∀ s', f s a = .ok s' → g s a = .ok s') (h : l.foldlM f s = .ok s') :
    l.foldlM g s = .ok s' := foldlM_map id step h

/-- A fold that fails takes some steps and then fails at the next one. -/
theorem exists_cut_of_foldlM_error {f : σ → α → Except ε σ} {l : List α} {s : σ} {e : ε}
    (h : l.foldlM f s = .error e) :
    ∃ before a after s', l = before ++ a :: after ∧ before.foldlM f s = .ok s' ∧
      f s' a = .error e := by
  induction l generalizing s with
  | nil => cases h
  | cons a l ih =>
    rw [List.foldlM_cons] at h
    cases ha : f s a with
    | error e' =>
      rw [ha] at h
      cases h
      exact ⟨[], a, l, s, rfl, rfl, ha⟩
    | ok s₁ =>
      rw [ha] at h
      obtain ⟨before, b, after, s', cut, taken, fails⟩ := ih h
      refine ⟨a :: before, b, after, s', by rw [cut, List.cons_append], ?_, fails⟩
      rw [List.foldlM_cons, ha]
      exact taken

/-- A fold that fails does so at one of its steps. -/
theorem foldlM_error {f : σ → α → Except ε σ} {l : List α} {s : σ} {e : ε}
    (h : l.foldlM f s = .error e) : ∃ s', ∃ a ∈ l, f s' a = .error e := by
  obtain ⟨before, a, after, s', rfl, -, fails⟩ := exists_cut_of_foldlM_error h
  exact ⟨s', a, by simp, fails⟩

end Acausal

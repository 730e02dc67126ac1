-- Pools. A walk that may enter each thing only once along its way carries the pool of things
-- that it may still enter; entering one takes it out, so the pool shrinks and the walk ends.

namespace Acausal

/-- A pool with every copy of one thing taken out. -/
def without {β : Type} [DecidableEq β] (x : β) (pool : List β) : List β :=
  pool.filter fun y => decide (y ≠ x)

section
variable {β : Type} [DecidableEq β] {x y : β} {pool : List β}

@[simp] theorem mem_without : y ∈ without x pool ↔ y ∈ pool ∧ y ≠ x := by
  simp [without]

theorem length_without_lt (h : x ∈ pool) : (without x pool).length < pool.length :=
  List.length_filter_lt_length_iff_exists.2 ⟨x, h, by simp⟩

/-- What may still be entered after some things have been. -/
theorem mem_foldr_without {entered : List β} :
    y ∈ entered.foldr without pool ↔ y ∈ pool ∧ y ∉ entered := by
  induction entered with
  | nil => simp
  | cons first entered ih =>
    rw [List.foldr_cons, mem_without, ih, List.mem_cons, not_or, and_assoc]
    exact and_congr_right fun _ => and_comm

/-- Where all that is led to has its key in a pool and nothing is entered inside another thing of
its key, entering one thing from another cannot go on for ever. -/
theorem entering_wellFounded {γ : Type} (key : γ → β) (pool : List β) (leads : γ → γ → Prop)
    (inside : ∀ here next, leads here next → key next ∈ pool) :
    WellFounded fun next here : List β × γ =>
      key here.2 ∉ here.1 ∧ next.1 = key here.2 :: here.1 ∧ leads here.2 next.2 := by
  -- Each key that is entered is one fewer of the pool that may be.
  have ends (n : Nat) : ∀ here : List β × γ, key here.2 ∈ pool →
      (here.1.foldr without pool).length = n → Acc (fun next here : List β × γ =>
        key here.2 ∉ here.1 ∧ next.1 = key here.2 :: here.1 ∧ leads here.2 next.2) here := by
    induction n using Nat.strongRecOn with
    | ind n ih =>
      intro here listed hn
      refine .intro here fun next ⟨fresh, entered, led⟩ => ih _ ?_ next (inside _ _ led) rfl
      rw [entered, List.foldr_cons, ← hn]
      exact length_without_lt (mem_foldr_without.2 ⟨listed, fresh⟩)
  exact ⟨fun here => .intro here fun next ⟨_, _, led⟩ => ends _ next (inside _ _ led) rfl⟩

end

end Acausal

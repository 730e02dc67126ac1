-- What the grammar makes of words. An expression that tokens derive is built from the words among
-- them: names are words with dots between them, subscripts are counts, and no literal stands behind
-- a sign of its own.
import Acausal.Proofs.ExpressionDerivations
import Acausal.Proofs.Lexemes

namespace Acausal

variable {ts rest : List Lexeme} {v : Expr Float}

/-! ## Written expressions -/

/-- A dotted name, given by its first segment and the ones behind it. -/
def dottedFrom (first : String) (more : List String) : String :=
  more.foldl (fun name w => name ++ "." ++ w) first

/-- A dotted name of identifiers with a given first segment. -/
def SpelledFrom (first name : String) : Prop :=
  IsWord first ∧ ∃ more, (∀ w ∈ more, IsWord w) ∧ dottedFrom first more = name

/-- A reference with a given first segment and a subscript that a literal can give. -/
structure WrittenRef (first : String) (r : Ref) : Prop where
  name : SpelledFrom first r.name
  index : ∀ k, r.index = some k → ∃ x, count? x = some k

/-- An expression that a source text can be read as. -/
inductive Written : Expr Float → Prop
  | number (x) : Written (.number x)
  | ref {first r} (own : first ∉ operandKeywords) (spelled : WrittenRef first r) : Written (.ref r)
  | time : Written .time
  | binary {a op b} (lhs : Written a) (rhs : Written b) : Written (.binary a op b)
  | neg {a} (operand : Written a) (compound : ∀ x, a ≠ .number x) : Written (.neg a)
  | call {first name args} (own : first ∉ operandKeywords) (spelled : SpelledFrom first name)
    (inner : ∀ a ∈ args, Written a) : Written (.call name args)
  | der {first r} (spelled : WrittenRef first r) : Written (.der r)

theorem negated_of_ne_number {e : Expr Float} (h : ∀ x, e ≠ .number x) : negated e = .neg e := by
  cases e with
  | number x => exact absurd rfl (h x)
  | _ => rfl

/-! ## Words of a derivation -/

/-- Tokens whose words are identifiers. -/
def Worded (us : List Token) : Prop := ∀ w, .word w ∈ us → IsWord w

theorem Worded.of_subset {us vs : List Token} (h : Worded us) (part : vs ⊆ us) : Worded vs :=
  fun w hw => h w (part hw)

theorem Lexical.worded (h : Lexical ts) : Worded (ts.map (·.token)) := by
  intro w hw
  obtain ⟨⟨t, place⟩, mem, rfl⟩ := List.mem_map.mp hw
  exact h w place mem

theorem subset_intercalate {β : Type} {separator part : List β} {parts : List (List β)}
    (h : part ∈ parts) : part ⊆ separator.intercalate parts := by
  induction parts with
  | nil => cases h
  | cons first parts ih =>
    cases parts with
    | nil =>
      obtain rfl := List.mem_singleton.mp h
      rw [List.intercalate_singleton]
      exact List.Subset.refl _
    | cons second parts =>
      rw [List.intercalate_cons_cons]
      rcases List.mem_cons.mp h with rfl | later
      · simp
      · exact fun t ht => List.mem_append_right _ (ih later ht)

variable {first name : String} {us : List Token}

theorem DerivesPath.exists_segments (h : DerivesPath first us name) :
    ∃ more, us = .word first :: more.flatMap (fun w => [.symbol '.', .word w]) ∧
      name = dottedFrom first more := by
  induction h with
  | word => exact ⟨[], rfl, rfl⟩
  | dotted _ w ih =>
    obtain ⟨more, rfl, rfl⟩ := ih
    exact ⟨more ++ [w], by simp, by simp [dottedFrom]⟩

theorem DerivesPath.spelled (h : DerivesPath first us name) (words : Worded us) :
    SpelledFrom first name := by
  obtain ⟨more, rfl, rfl⟩ := h.exists_segments
  exact ⟨words first (by simp), more, fun w hw => words w (by simp [hw]), rfl⟩

theorem DerivesReference.written {r : Ref} (h : DerivesReference first us r) (words : Worded us) :
    WrittenRef first r := by
  cases h with
  | whole path => exact ⟨path.spelled words, nofun⟩
  | @element ts name x k path subscript =>
    refine ⟨path.spelled (words.of_subset (by simp)), ?_⟩
    rintro _ ⟨⟩
    exact ⟨x, count?_eq_some_iff.mpr subscript⟩

/-- What words derive can be written with them. -/
theorem Derives.written {rule : Rule} {e : Expr Float} (h : Derives rule us e)
    (words : Worded us) : Written e := by
  induction h with
  | term _ ih => exact ih words
  | sum _ _ _ terms term =>
    exact .binary (terms (words.of_subset (by simp))) (term (words.of_subset (by simp)))
  | factor _ ih => exact ih words
  | product _ _ _ factors factor =>
    exact .binary (factors (words.of_subset (by simp))) (factor (words.of_subset (by simp)))
  | minusLiteral => exact .number _
  | minus _ compound ih => exact .neg (ih (words.of_subset (by simp))) compound
  | plus _ ih => exact ih (words.of_subset (by simp))
  | bare _ ih => exact ih words
  | base _ ih => exact ih words
  | raised _ _ base exponent =>
    exact .binary (base (words.of_subset (by simp))) (exponent (words.of_subset (by simp)))
  | number x => exact .number x
  | enclosed _ ih => exact ih (words.of_subset (by simp))
  | time => exact .time
  | yes => exact .number _
  | no => exact .number _
  | derivative component =>
    exact .der (component.written (words.of_subset fun t ht => by simp [ht]))
  | reference own component => exact .ref own (component.written words)
  | @call _ _ _ own function args _ ih =>
    have spelled := function.spelled (words.of_subset (List.subset_append_left _ _))
    refine .call own spelled fun a ha => ?_
    obtain ⟨p, hp, rfl⟩ := List.mem_map.mp ha
    have part : p.1 ⊆ [.symbol ','].intercalate (args.map Prod.fst) :=
      subset_intercalate (List.mem_map_of_mem hp)
    exact ih p hp (words.of_subset fun t ht => by simp [part ht])

/-! ## Faithful readings -/

/-- A reading leaves a part of its lexemes and, when their words are identifiers, has a value
of a given form. -/
structure Faithful {β : Type} (form : β → Prop) (ts : List Lexeme) (v : β)
    (rest : List Lexeme) : Prop where
  behind : rest <:+ ts
  written : Lexical ts → form v

/-- What is read from a part of the lexemes is faithful to all of them. -/
theorem Faithful.from_part {β γ : Type} {form : β → Prop} {form' : γ → Prop}
    {more : List Lexeme} {b : β} {c : γ} (h : Faithful form more b rest) (part : more <:+ ts)
    (step : form b → form' c) : Faithful form' ts c rest :=
  ⟨h.behind.trans part, fun words => step (h.written (words.of_suffix part))⟩

theorem faithful_expression (h : Reads (expression ts) v rest) : Faithful Written ts v rest := by
  have passes := passes_expression h
  refine ⟨passes.behind, fun words => ?_⟩
  obtain ⟨used, rfl, derived⟩ := passes
  have front : Worded (used.map (·.token)) := words.worded.of_subset (by simp)
  exact derived.written front

end Acausal

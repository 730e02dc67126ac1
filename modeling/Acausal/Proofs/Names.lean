-- Lists by name. What is stored under a name is found again when the names are distinct, and
-- the slot of a name is its last place in the list of names.
import Acausal.Code.Compile
import Mathlib.Data.List.Induction
import Mathlib.Data.List.Nodup

namespace Acausal

variable {β : Type} {names : List String} {name : String}

/-! ## Lookups -/

theorem lookup_isSome_iff_mem {l : List (String × β)} :
    (l.lookup name).isSome ↔ name ∈ l.map (·.1) := by
  rw [List.lookup_isSome_iff, List.mem_map]
  simp only [beq_iff_eq]
  exact ⟨fun ⟨p, hp, h⟩ => ⟨p, hp, h.symm⟩, fun ⟨p, hp, h⟩ => ⟨p, hp, h.symm⟩⟩

/-- What is stored under one of several distinct names is found under it. -/
theorem lookup_of_mem {l : List (String × β)} {v : β} (distinct : (l.map (·.1)).Nodup)
    (h : (name, v) ∈ l) : l.lookup name = some v := by
  obtain ⟨before, after, rfl⟩ := List.append_of_mem h
  rw [List.lookup_eq_some_iff]
  refine ⟨before, after, rfl, fun p hp => ?_⟩
  rw [List.map_append, List.nodup_append] at distinct
  have differs := distinct.2.2 p.1 (List.mem_map_of_mem hp) name (by simp)
  simpa using differs.symm

theorem mem_of_lookup {l : List (String × β)} {v : β} (h : l.lookup name = some v) :
    (name, v) ∈ l := by
  obtain ⟨before, after, rfl, _⟩ := List.lookup_eq_some_iff.1 h
  simp

/-! ## Slots -/

@[simp] theorem slotOf?_nil : slotOf? [] name = none := rfl

theorem slotOf?_snoc {last : String} :
    slotOf? (names ++ [last]) name =
      if last = name then some names.length else slotOf? names name := by
  unfold slotOf?
  by_cases h : last = name
  · simp [h, List.findIdx?_cons]
  · simp only [List.reverse_append, List.reverse_cons, List.reverse_nil, List.nil_append,
      List.singleton_append, List.findIdx?_cons, beq_eq_false_iff_ne.2 h, if_neg h,
      List.length_append, List.length_singleton, Option.map_map, Bool.false_eq_true, if_false]
    congr 1
    funext i
    simp only [Function.comp_apply]
    omega

/-- The slot of a name holds it. -/
theorem getElem?_of_slotOf? {slot : Nat} (h : slotOf? names name = some slot) :
    names[slot]? = some name := by
  induction names using List.reverseRecOn with
  | nil => simp at h
  | append_singleton names last ih =>
    rw [slotOf?_snoc] at h
    split at h
    · rename_i same
      cases h
      simp [same]
    · have inside := ih h
      rw [List.getElem?_append_left (List.getElem?_eq_some_iff.1 inside).1, inside]

theorem slotOf?_isSome_iff : (slotOf? names name).isSome ↔ name ∈ names := by
  induction names using List.reverseRecOn with
  | nil => simp
  | append_singleton names last ih =>
    rw [slotOf?_snoc]
    split
    · rename_i same
      simp [same]
    · rename_i differs
      simp [ih, Ne.symm differs]

/-- What stands in the slot of a name is found under the name in the list of slots, of which
the last one counts. -/
theorem lookup_reverse_zip {values : List β} (same : names.length = values.length) :
    (names.zip values).reverse.lookup name = (slotOf? names name).bind (values[·]?) := by
  induction names using List.reverseRecOn generalizing values with
  | nil => simp
  | append_singleton names last ih =>
    obtain ⟨values, v, rfl⟩ : ∃ before v, values = before ++ [v] := by
      rcases List.eq_nil_or_concat values with rfl | ⟨before, v, rfl⟩
      · simp at same
      · exact ⟨before, v, List.concat_eq_append⟩
    have shorter : names.length = values.length := by simpa using same
    rw [List.zip_append shorter, slotOf?_snoc, List.zip_cons_cons, List.zip_nil_left,
      List.reverse_append, List.reverse_singleton, List.singleton_append, List.lookup_cons,
      ih shorter]
    by_cases h : last = name
    · simp [h, shorter]
    · rw [beq_eq_false_iff_ne.2 (Ne.symm h), if_neg h]
      cases hs : slotOf? names name with
      | none => rfl
      | some slot =>
        have inside := (List.getElem?_eq_some_iff.1 (getElem?_of_slotOf? hs)).1
        simp only [Option.bind_some]
        rw [List.getElem?_append_left (shorter ▸ inside)]

end Acausal

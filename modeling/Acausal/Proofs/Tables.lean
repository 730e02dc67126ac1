-- Tables that are written entry by entry. Under a name a table has the value of the last entry
-- of that name, and without such an entry what it had before.
import Acausal.Proofs.Names
import Acausal.Table

namespace Acausal

variable {β : Type}

/-! ## The last entry of a name -/

/-- The value of the last entry of a name. -/
def latest? (entries : List (String × β)) (name : String) : Option β :=
  entries.reverse.lookup name

theorem latest?_eq_some_iff {entries : List (String × β)} {name : String} {value : β} :
    latest? entries name = some value ↔
      ∃ before after, entries = before ++ (name, value) :: after ∧ ∀ e ∈ after, e.1 ≠ name := by
  unfold latest?
  rw [List.lookup_eq_some_iff]
  constructor
  · rintro ⟨after, before, reversed, apart⟩
    refine ⟨before.reverse, after.reverse, ?_, fun e he => ?_⟩
    · rw [← List.reverse_reverse entries, reversed]
      simp
    · simpa using (bne_iff_ne.1 (apart e (List.mem_reverse.1 he))).symm
  · rintro ⟨before, after, rfl, apart⟩
    refine ⟨after.reverse, before.reverse, by simp, fun e he => ?_⟩
    exact bne_iff_ne.2 (apart e (List.mem_reverse.1 he)).symm

theorem latest?_append (earlier later : List (String × β)) (name : String) :
    latest? (earlier ++ later) name = (latest? later name).or (latest? earlier name) := by
  unfold latest?
  rw [List.reverse_append, List.lookup_append]

theorem latest?_eq_none {entries : List (String × β)} {name : String}
    (h : ∀ e ∈ entries, e.1 ≠ name) : latest? entries name = none := by
  unfold latest?
  rw [List.lookup_eq_none_iff]
  intro e he
  exact bne_iff_ne.2 (h e (List.mem_reverse.1 he)).symm

theorem latest?_singleton (name : String) (value : β) :
    latest? [(name, value)] name = some value :=
  latest?_eq_some_iff.2 ⟨[], [], rfl, nofun⟩

theorem latest?_isSome_iff {entries : List (String × β)} {name : String} :
    (latest? entries name).isSome ↔ ∃ value, (name, value) ∈ entries := by
  unfold latest?
  rw [lookup_isSome_iff_mem, List.map_reverse, List.mem_reverse, List.mem_map]
  constructor
  · rintro ⟨⟨_, value⟩, mem, rfl⟩
    exact ⟨value, mem⟩
  · rintro ⟨value, mem⟩
    exact ⟨(name, value), mem, rfl⟩

namespace Table

/-! ## Entry by entry -/

@[simp] theorem get?_empty (name : String) : (empty : Table β).get? name = none := rfl

/-- A table with more entries stored in it, one after the other. -/
def insertAll (t : Table β) (entries : List (String × β)) : Table β :=
  entries.foldl (fun t e => t.insert e.1 e.2) t

theorem insertAll_append (t : Table β) (earlier later : List (String × β)) :
    t.insertAll (earlier ++ later) = (t.insertAll earlier).insertAll later :=
  List.foldl_append

theorem get?_insertAll (t : Table β) (entries : List (String × β)) (name : String) :
    (t.insertAll entries).get? name = (latest? entries name).or (t.get? name) := by
  induction entries using List.reverseRecOn with
  | nil => rfl
  | append_singleton entries last ih =>
    obtain ⟨key, value⟩ := last
    rw [insertAll_append, latest?_append]
    change ((t.insertAll entries).insert key value).get? name = _
    by_cases same : name = key
    · subst same
      rw [get?_insert_self, latest?_singleton, Option.some_or, Option.some_or]
    · have absent : latest? [(key, value)] name = none :=
        latest?_eq_none fun e he => List.mem_singleton.1 he ▸ Ne.symm same
      rw [get?_insert_ne _ same, ih, absent, Option.none_or]

theorem mem_names_iff {t : Table β} {name : String} : name ∈ t.names ↔ (t.get? name).isSome :=
  lookup_isSome_iff_mem.symm

/-- The names of a table written from nothing are those of its entries. -/
theorem mem_names_insertAll {entries : List (String × β)} {name : String} :
    name ∈ (empty.insertAll entries).names ↔ ∃ value, (name, value) ∈ entries := by
  rw [mem_names_iff, get?_insertAll, get?_empty, Option.or_none, latest?_isSome_iff]

/-! ## Contents -/

theorem mem_entries_iff {t : Table β} {name : String} {value : β} :
    (name, value) ∈ t.entries ↔ t.get? name = some value := by
  refine ⟨lookup_of_mem ?_, mem_of_lookup⟩
  exact t.names_ordered.imp fun lt => Std.ne_of_lt lt

/-- Tables with the same contents are the same table. -/
theorem ext_get? {t t' : Table β} (same : ∀ name, t.get? name = t'.get? name) : t = t' := by
  have distinct (t : Table β) : t.entries.Nodup :=
    t.ordered.imp fun lt eq => Std.ne_of_lt lt (congrArg Prod.fst eq)
  have contents : t.entries.Perm t'.entries := by
    refine (List.perm_ext_iff_of_nodup (distinct t) (distinct t')).2 fun ⟨name, value⟩ => ?_
    rw [mem_entries_iff, mem_entries_iff, same]
  obtain ⟨entries, ordered⟩ := t
  obtain ⟨entries', ordered'⟩ := t'
  cases contents.eq_of_pairwise (fun a b _ _ lt gt => absurd gt (Std.not_gt_of_lt lt)) ordered
    ordered'
  rfl

/-- Two entries may be stored in either order, unless one replaces the other. -/
theorem insert_comm (t : Table β) {a b : String} {x y : β} (h : a = b → x = y) :
    (t.insert a x).insert b y = (t.insert b y).insert a x := by
  apply ext_get?
  intro name
  by_cases ha : name = a
  · by_cases hb : name = b
    · subst ha hb
      simp [h]
    · subst ha
      rw [get?_insert_ne _ hb, get?_insert_self, get?_insert_self]
  · by_cases hb : name = b
    · subst hb
      rw [get?_insert_self, get?_insert_ne _ ha, get?_insert_self]
    · rw [get?_insert_ne _ hb, get?_insert_ne _ ha, get?_insert_ne _ ha, get?_insert_ne _ hb]

end Table

end Acausal

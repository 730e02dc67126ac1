-- Tables by name. A table keeps its entries in the strict order of their names, so a name is
-- there at most once, the listing of names needs no sorting, and two tables with the same
-- contents are the same table.

namespace Acausal

/-- Values by name, in the order of the names. -/
structure Table (β : Type) where
  entries : List (String × β)
  ordered : entries.Pairwise fun a b => a.1 < b.1

namespace Table

variable {β : Type}

/-! ## Insertion in order -/

/-- Puts an entry at its place, over the one of the same name if there is one. -/
def place (name : String) (value : β) : List (String × β) → List (String × β)
  | [] => [(name, value)]
  | entry :: rest =>
    if name < entry.1 then (name, value) :: entry :: rest
    else if name = entry.1 then (name, value) :: rest
    else entry :: place name value rest

theorem mem_place {name : String} {value : β} {entries : List (String × β)} {e : String × β}
    (h : e ∈ place name value entries) : e = (name, value) ∨ e ∈ entries := by
  induction entries with
  | nil => simpa [place] using h
  | cons entry rest ih =>
    unfold place at h
    split at h
    · simpa using h
    · split at h
      · rcases List.mem_cons.1 h with h | h
        · exact .inl h
        · exact .inr (List.mem_cons_of_mem _ h)
      · rcases List.mem_cons.1 h with h | h
        · exact .inr (h ▸ List.mem_cons_self)
        · exact (ih h).imp id (List.mem_cons_of_mem _)

theorem place_ordered {name : String} {value : β} {entries : List (String × β)}
    (h : entries.Pairwise fun a b => a.1 < b.1) :
    (place name value entries).Pairwise fun a b => a.1 < b.1 := by
  induction entries with
  | nil => simp [place]
  | cons entry rest ih =>
    obtain ⟨first, later⟩ := List.pairwise_cons.1 h
    unfold place
    split
    · next lt =>
      refine List.pairwise_cons.2 ⟨fun e he => ?_, h⟩
      rcases List.mem_cons.1 he with rfl | he
      · exact lt
      · exact String.lt_trans lt (first e he)
    · next not_lt =>
      split
      · next eq => exact List.pairwise_cons.2 ⟨fun e he => eq ▸ first e he, later⟩
      · next ne =>
        refine List.pairwise_cons.2 ⟨fun e he => ?_, ih later⟩
        rcases mem_place he with rfl | he
        · exact Std.lt_of_le_of_ne (String.not_lt.1 not_lt) (Ne.symm ne)
        · exact first e he

/-! ## Tables -/

/-- The table with nothing in it. -/
def empty : Table β := ⟨[], .nil⟩

/-- Stores a value under a name, replacing an earlier one. -/
def insert (t : Table β) (name : String) (value : β) : Table β :=
  ⟨place name value t.entries, place_ordered t.ordered⟩

/-- The value stored under a name. -/
def get? (t : Table β) (name : String) : Option β := t.entries.lookup name

def contains (t : Table β) (name : String) : Bool := (t.get? name).isSome

/-- The names of a table in their order. -/
def names (t : Table β) : List String := t.entries.map (·.1)

def size (t : Table β) : Nat := t.entries.length

/-- A table from entries, of which the last of a name counts. -/
def ofList (entries : List (String × β)) : Table β :=
  entries.foldl (fun t e => t.insert e.1 e.2) empty

/-! ## Lookup after insertion -/

theorem lookup_place_self (name : String) (value : β) (entries : List (String × β)) :
    (place name value entries).lookup name = some value := by
  induction entries with
  | nil => simp [place]
  | cons entry rest ih =>
    unfold place
    split
    · simp
    · split
      · simp
      · next ne =>
        obtain ⟨key, old⟩ := entry
        have differs : (name == key) = false := beq_eq_false_iff_ne.2 ne
        rw [List.lookup_cons, differs]
        exact ih

theorem lookup_place_ne {name other : String} (h : other ≠ name) (value : β)
    (entries : List (String × β)) :
    (place name value entries).lookup other = entries.lookup other := by
  have differs : (other == name) = false := by simpa using h
  induction entries with
  | nil => simp [place, List.lookup_cons, differs]
  | cons entry rest ih =>
    obtain ⟨key, old⟩ := entry
    unfold place
    split
    · simp [List.lookup_cons, differs]
    · split
      · next eq =>
        have same : name = key := eq
        subst same
        simp [List.lookup_cons, differs]
      · simp only [List.lookup_cons, ih]

@[simp] theorem get?_insert_self (t : Table β) (name : String) (value : β) :
    (t.insert name value).get? name = some value := lookup_place_self name value t.entries

theorem get?_insert_ne (t : Table β) {name other : String} (h : other ≠ name) (value : β) :
    (t.insert name value).get? other = t.get? other := lookup_place_ne h value t.entries

/-- Names are listed in strictly ascending order. -/
theorem names_ordered (t : Table β) : t.names.Pairwise (· < ·) := by
  simpa [names, List.pairwise_map] using t.ordered

end Table

end Acausal

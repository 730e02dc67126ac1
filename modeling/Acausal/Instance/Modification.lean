-- Modifications. A modification says for some name paths inside a component which value holds
-- there. Of two modifications the outer one comes first, and the first entry for a path counts,
-- so putting one in front of the other lets the outer one win.
import Acausal.Syntax

namespace Acausal

/-- Values for name paths, of which the first for a path counts; the empty path is the
component itself. -/
structure Modification (α : Type) where
  settings : List (List String × Expr α)

namespace Modification

variable {α : Type}

/-- The modification that sets nothing. -/
def none : Modification α := ⟨[]⟩

/-- The value that holds at a name path. -/
def valueAt? (m : Modification α) (path : List String) : Option (Expr α) :=
  m.settings.lookup path

/-- The value that holds for the component itself. -/
def value? (m : Modification α) : Option (Expr α) := m.valueAt? []

/-- What a modification says about one part of the component. -/
def child (m : Modification α) (name : String) : Modification α :=
  ⟨m.settings.filterMap fun
    | (first :: rest, value) => if first = name then some (rest, value) else Option.none
    | ([], _) => Option.none⟩

/-- Two modifications together; the outer one wins where both set a value. -/
def merge (outer inner : Modification α) : Modification α :=
  ⟨outer.settings ++ inner.settings⟩

/-- A modification seen from the component around it. -/
def under (name : String) (m : Modification α) : Modification α :=
  ⟨m.settings.map fun (path, value) => (name :: path, value)⟩

/-- The value of a component itself, if it has one. -/
def ofValue (value : Option (Expr α)) : Modification α :=
  ⟨value.toList.map fun e => ([], e)⟩

mutual
/-- What a modifier says about the component it names. -/
def ofModifier : Modifier α → Modification α
  | ⟨_, _, value, children⟩ => merge (ofValue value) (ofModifiers children)

/-- What a list of modifiers says; a later modifier of a name replaces an earlier one
altogether. -/
def ofModifiers : List (Modifier α) → Modification α
  | [] => none
  | m :: rest =>
    let later := ofModifiers rest
    if rest.any (·.name == m.name) then later else merge (under m.name (ofModifier m)) later
end

/-! ## Laws -/

theorem merge_assoc (a b c : Modification α) : merge (merge a b) c = merge a (merge b c) := by
  simp [merge]

theorem merge_none (m : Modification α) : merge m none = m := by
  simp [merge, none]

theorem none_merge (m : Modification α) : merge none m = m := by
  simp [merge, none]

/-- At every path the outer modification decides if it says anything there. -/
theorem valueAt?_merge (outer inner : Modification α) (path : List String) :
    (merge outer inner).valueAt? path = (outer.valueAt? path).or (inner.valueAt? path) := by
  simp [merge, valueAt?, List.lookup_append]

theorem child_merge (outer inner : Modification α) (name : String) :
    (merge outer inner).child name = merge (outer.child name) (inner.child name) := by
  simp [merge, child]

end Modification

end Acausal

-- Settings as TOML has them. A document is a table of entries, put together from the statements
-- of its text; each name is given once, and how a table came to be decides which later
-- statements may still add to it.

namespace Acausal

/-! ## Values -/

/-- How a table came to be. -/
inductive TableForm where
  /-- Written out between braces, which is all of it. -/
  | inline
  /-- Opened by a header of its own. -/
  | header
  /-- One of a run of tables, each opened by a header. -/
  | row
  /-- On the way to the table of a header, without one of its own. -/
  | passage
  /-- On the way to an entry with a dotted key. -/
  | dotted
  deriving DecidableEq, Repr

inductive Toml where
  | string (s : String)
  | integer (n : Int)
  | float (x : Float)
  | flag (b : Bool)
  /-- A date, a time of day, or both, in its standard spelling. -/
  | moment (spelling : String)
  | array (items : List Toml)
  | table (form : TableForm) (entries : List (String × Toml))
  /-- A run of tables with the last of them apart, to which later statements add. -/
  | rows (earlier : List (List (String × Toml))) (last : List (String × Toml))

namespace Toml

/-- The entries of a table in the order they were given. -/
abbrev Entries := List (String × Toml)

/-- A name, and the names of the tables it stands in from the outermost on. -/
structure Key where
  path : List String
  name : String
  deriving DecidableEq, Repr

/-! ## Changes to a table -/

/-- Puts a value in the place of a name, or at the end for a new name. -/
def put (name : String) (value : Toml) : Entries → Entries
  | [] => [(name, value)]
  | entry :: rest => if entry.1 = name then (name, value) :: rest else entry :: put name value rest

/-- Changes the entries of a table of one of the forms admitted; of a run of tables, those of
the last. -/
def change (admits : TableForm → Bool) (f : Entries → Option Entries) : Toml → Option Toml
  | table form entries => if admits form then (f entries).map (table form) else none
  | rows earlier last => if admits .row then (f last).map (rows earlier) else none
  | _ => none

/-- Adds an entry to the tables on its path. Only tables that dotted keys made take entries
from the outside; on the way to them there may be tables that headers passed by. -/
def addEntry (name : String) (value : Toml) : (path : List String) → Entries → Option Entries
  | [], entries =>
    if (entries.lookup name).isSome then none else some (entries ++ [(name, value)])
  | step :: path, entries => do
    let admits := fun (form : TableForm) =>
      form == .dotted || (!path.isEmpty && (form == .passage || form == .row))
    let inner := (entries.lookup step).getD (table .dotted [])
    return put step (← inner.change admits (addEntry name value path)) entries

/-- Changes the table that a path of headers leads to, making those that are not there yet. -/
def changeAt (f : Entries → Option Entries) : (path : List String) → Entries → Option Entries
  | [], entries => f entries
  | step :: path, entries => do
    let inner := (entries.lookup step).getD (table .passage [])
    return put step (← inner.change (· != .inline) (changeAt f path)) entries

/-- Opens the table of a header, which has not been opened or filled before. -/
def openTable (name : String) (entries : Entries) : Option Entries :=
  match entries.lookup name with
  | none => some (put name (table .header []) entries)
  | some (table .passage inner) => some (put name (table .header inner) entries)
  | some _ => none

/-- Opens the next table of a run. -/
def openRow (name : String) (entries : Entries) : Option Entries :=
  match entries.lookup name with
  | none => some (put name (rows [] []) entries)
  | some (rows earlier last) => some (put name (rows (earlier ++ [last]) []) entries)
  | some _ => none

/-! ## Documents -/

inductive Statement where
  | entry (key : Key) (value : Toml)
  | header (key : Key)
  | rowHeader (key : Key)

/-- A document put together so far, and the path of the header that entries come under. -/
structure Draft where
  root : Entries
  place : List String

/-- Carries out a statement, unless it is at odds with an earlier one. -/
def Draft.add (draft : Draft) : Statement → Option Draft
  | .entry key value => do
    let root ← changeAt (addEntry key.name value key.path) draft.place draft.root
    return { draft with root }
  | .header key => do
    return ⟨← changeAt (openTable key.name) key.path draft.root, key.path ++ [key.name]⟩
  | .rowHeader key => do
    return ⟨← changeAt (openRow key.name) key.path draft.root, key.path ++ [key.name]⟩

/-- The document of some statements. -/
def ofStatements? (statements : List Statement) : Option Toml :=
  (statements.foldlM Draft.add ⟨[], []⟩).map fun draft => table .header draft.root

/-- A table between braces, its entries as if they stood in a document of their own. -/
def ofPairs? (pairs : List (Key × Toml)) : Option Toml :=
  (pairs.foldlM (fun entries pair => addEntry pair.1.name pair.2 pair.1.path entries) []).map
    (table .inline)

end Toml

end Acausal

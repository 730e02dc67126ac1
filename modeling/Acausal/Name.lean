-- Dotted names. A name such as `Lib.Springs.Stiff` is the path of its segments; cutting a name
-- at its dots and joining the segments again gives the name back.

namespace Acausal

/-! ## Paths -/

/-- The segments of a dotted name, outermost first. -/
abbrev ClassPath := List String

/-- The pieces of a text between separators; a text without one is a single piece. -/
def cutAt (separator : Char) : List Char → List (List Char)
  | [] => [[]]
  | c :: rest =>
    if c = separator then [] :: cutAt separator rest
    else match cutAt separator rest with
      | [] => [[c]]
      | piece :: pieces => (c :: piece) :: pieces

/-- The segments of a dotted name. -/
def segments (name : String) : ClassPath := (cutAt '.' name.toList).map String.ofList

/-- The dotted name of a path. -/
def dotted (path : ClassPath) : String := ".".intercalate path

/-- The first segment of a dotted name. -/
def firstSegment (name : String) : String := String.ofList (name.toList.takeWhile (· != '.'))

theorem cutAt_ne_nil (separator : Char) (text : List Char) : cutAt separator text ≠ [] := by
  cases text with
  | nil => simp [cutAt]
  | cons c rest =>
    unfold cutAt
    split
    · simp
    · split <;> simp

theorem cutAt_of_not_mem {separator : Char} {text : List Char} (h : separator ∉ text) :
    cutAt separator text = [text] := by
  induction text with
  | nil => rfl
  | cons c rest ih =>
    rw [List.mem_cons, not_or] at h
    rw [cutAt, if_neg (Ne.symm h.1), ih h.2]

theorem cutAt_append {separator : Char} {text : List Char} (h : separator ∉ text)
    (more : List Char) :
    cutAt separator (text ++ separator :: more) = text :: cutAt separator more := by
  induction text with
  | nil => rw [List.nil_append, cutAt, if_pos rfl]
  | cons c rest ih =>
    rw [List.mem_cons, not_or] at h
    rw [List.cons_append, cutAt, if_neg (Ne.symm h.1), ih h.2]

/-- A name without a dot is its only segment. -/
theorem segments_of_simple {name : String} (simple : '.' ∉ name.toList) : segments name = [name] := by
  rw [segments, cutAt_of_not_mem simple]
  simp

theorem cutAt_intercalate {separator : Char} {pieces : List (List Char)} (some_piece : pieces ≠ [])
    (apart : ∀ piece ∈ pieces, separator ∉ piece) :
    cutAt separator ([separator].intercalate pieces) = pieces := by
  match pieces with
  | [] => exact absurd rfl some_piece
  | [piece] =>
    rw [List.intercalate_singleton]
    exact cutAt_of_not_mem (apart piece List.mem_cons_self)
  | piece :: next :: more =>
    rw [List.intercalate_cons_cons, List.append_assoc, List.singleton_append,
      cutAt_append (apart piece List.mem_cons_self),
      cutAt_intercalate (List.cons_ne_nil next more) fun later listed =>
        apart later (List.mem_cons_of_mem piece listed)]

/-- Segments without dots are those of the name that they are joined to. -/
theorem segments_dotted {path : ClassPath} (some_segment : path ≠ [])
    (simple : ∀ name ∈ path, '.' ∉ name.toList) : segments (dotted path) = path := by
  rw [segments, dotted, String.toList_intercalate]
  have cut : cutAt '.' (['.'].intercalate (path.map String.toList)) = path.map String.toList := by
    refine cutAt_intercalate (by simpa using some_segment) fun piece listed => ?_
    obtain ⟨name, hname, rfl⟩ := List.mem_map.1 listed
    exact simple name hname
  rw [show ".".toList = ['.'] from rfl, cut, List.map_map]
  simp [Function.comp_def]

end Acausal

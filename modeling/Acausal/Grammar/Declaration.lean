-- The grammar of declarations. A class holds components, extends clauses and further classes,
-- with sections of equations among them, and is closed by its own name.
import Acausal.Grammar.Modification

namespace Acausal

/-! ## Parts of a declaration -/

/-- A quoted text, if it comes next. -/
def optionalDescription (ts : List Lexeme) : Parsed (Option String) (ts.length + 1) :=
  match quotedText? ts with
  | some p => (p.map some).widen
  | none => .leaving none ts

/-- The variability of a component; one that is not given means change with time. -/
def variability (ts : List Lexeme) : Parsed Variability (ts.length + 1) :=
  match afterWord? "parameter" ts with
  | some p => (p.map fun _ => .parameter).widen
  | none =>
    match afterWord? "constant" ts with
    | some p => (p.map fun _ => .constant).widen
    | none => .leaving .continuous ts

/-- One of the words `input` and `output`, which change nothing. -/
def direction (ts : List Lexeme) : Parsed Bool (ts.length + 1) :=
  match afterWord? "input" ts with
  | some p => (p.map fun _ => true).widen
  | none => optionalWord "output" ts

/-- An array size in brackets, if a bracket comes next. -/
def optionalSize (ts : List Lexeme) : Reading (Option Nat) (ts.length + 1) :=
  match afterSymbol? '[' ts with
  | none => .ok (.leaving none ts)
  | some opening =>
    match bracketed .badSize opening.rest with
    | .error e => .error e
    | .ok p => .ok (opening.andThen (p.map some)).widen

/-- A binding behind an equals sign, if one comes next. -/
def optionalBinding (ts : List Lexeme) : Reading (Option (Expr Float)) (ts.length + 1) :=
  match afterSymbol? '=' ts with
  | none => .ok (.leaving none ts)
  | some sign =>
    match expression sign.rest with
    | .error e => .error e
    | .ok p => .ok (sign.andThen (p.map some)).widen

/-! ## Elements and equations -/

/-- A component declaration up to its semicolon. -/
def component (ts : List Lexeme) : Reading (Component Float) ts.length :=
  let change := variability ts
  let way := direction change.rest
  match path way.rest with
  | .error e => .error e
  | .ok type =>
    match expectWord type.rest with
    | .error e => .error e
    | .ok name =>
      match optionalSize name.rest with
      | .error e => .error e
      | .ok size =>
        match optionalModification size.rest with
        | .error e => .error e
        | .ok modifiers =>
          match optionalBinding modifiers.rest with
          | .error e => .error e
          | .ok binding =>
            let description := optionalDescription binding.rest
            match expectSymbol ';' description.rest with
            | .error e => .error e
            | .ok stop =>
              let found : Component Float :=
                { name := name.value
                  typeName := type.value
                  variability := change.value
                  size := size.value
                  modifiers := modifiers.value
                  binding := binding.value
                  description := description.value }
              .ok (change.maybeThen (way.maybeThen (type.andThen (name.andThen
                (size.maybeThen (modifiers.maybeThen (binding.maybeThen
                  (description.maybeThen (stop.map fun _ => found)))))))))

/-- An extends clause behind its keyword. -/
def extendsClause (ts : List Lexeme) : Reading (Extends Float) ts.length :=
  match path ts with
  | .error e => .error e
  | .ok base =>
    match optionalModification base.rest with
    | .error e => .error e
    | .ok modifiers =>
      match expectSymbol ';' modifiers.rest with
      | .error e => .error e
      | .ok stop =>
        .ok (base.andThen (modifiers.maybeThen (stop.map fun _ =>
          ⟨base.value, modifiers.value⟩)))

/-- An equation up to its semicolon. -/
def equation (ts : List Lexeme) : Reading (Equation Float) ts.length :=
  match expression ts with
  | .error e => .error e
  | .ok lhs =>
    match expectSymbol '=' lhs.rest with
    | .error e => .error e
    | .ok sign =>
      match expression sign.rest with
      | .error e => .error e
      | .ok rhs =>
        match expectSymbol ';' rhs.rest with
        | .error e => .error e
        | .ok stop =>
          .ok (lhs.andThen (sign.andThen (rhs.andThen (stop.map fun _ =>
            ⟨lhs.value, rhs.value⟩))))

/-- Whether a section of equations ends here. -/
def endsSection (ts : List Lexeme) : Bool :=
  ts.isEmpty ||
    ["end", "equation", "public", "protected"].any fun word => (afterWord? word ts).isSome

/-- The equations of a section. -/
def equations (ts : List Lexeme) : Reading (List (Equation Float)) (ts.length + 1) :=
  if endsSection ts then .ok (.leaving [] ts)
  else
    match equation ts with
    | .error e => .error e
    | .ok p =>
      match equations p.rest with
      | .error e => .error e
      | .ok q => .ok (p.andMaybe (q.map (p.value :: ·))).widen
termination_by ts.length
decreasing_by exact p.shorter

/-! ## Classes -/

/-- What stands between the name of a class and its end. -/
structure Body where
  elements : List (Element Float)
  equations : List (Equation Float)

/-- The keyword of a class. -/
def classKind : (ts : List Lexeme) → Reading ClassKind ts.length
  | ⟨.word w, place⟩ :: rest =>
    match ClassKind.ofKeyword? w with
    | some kind => .ok (.leaving kind rest)
    | none => .error ⟨.expectedClass, ⟨.word w, place⟩ :: rest⟩
  | ts => .error ⟨.expectedClass, ts⟩

/-- Whether a class declaration starts here. -/
def startsClass : List Lexeme → Bool
  | ⟨.word w, _⟩ :: _ => w == "partial" || (ClassKind.ofKeyword? w).isSome
  | _ => false

/-- The end of a class behind the word `end`: its name again and a semicolon. -/
def closing (name : String) (ts : List Lexeme) : Reading Unit ts.length :=
  match expectWord ts with
  | .error e => .error e
  | .ok word =>
    if word.value = name then
      match expectSymbol ';' word.rest with
      | .error e => .error e
      | .ok stop => .ok (word.andThen stop)
    else .error ⟨.mismatchedEnd word.value name, word.rest⟩

/-- One of the words `public` and `protected`, which change nothing. -/
def visibility? (ts : List Lexeme) : Option (Parsed Unit ts.length) :=
  (afterWord? "public" ts).orElse fun _ => afterWord? "protected" ts

mutual
/-- A class declaration up to its semicolon. -/
def classDecl (ts : List Lexeme) : Reading (ClassDecl Float) ts.length :=
  let isPartial := optionalWord "partial" ts
  match classKind isPartial.rest with
  | .error e => .error e
  | .ok kind =>
    match expectWord kind.rest with
    | .error e => .error e
    | .ok name =>
      let description := optionalDescription name.rest
      match body name.value description.rest with
      | .error e => .error e
      | .ok inner =>
        match closing name.value inner.rest with
        | .error e => .error e
        | .ok stop =>
          let found : ClassDecl Float :=
            { name := name.value
              kind := kind.value
              isPartial := isPartial.value
              description := description.value
              elements := inner.value.elements
              equations := inner.value.equations }
          .ok (isPartial.maybeThen (kind.andThen (name.andThen (description.maybeThen
            (inner.andThen (stop.map fun _ => found))))))
termination_by ts.length * 4 + 1
decreasing_by
  have := isPartial.shorter; have := kind.shorter; have := name.shorter
  have := (optionalDescription name.rest).shorter
  omega

/-- The elements and equations of a class up to the word `end`. -/
def body (name : String) (ts : List Lexeme) : Reading Body ts.length :=
  match afterWord? "end" ts with
  | some stop => .ok (stop.map fun _ => ⟨[], []⟩)
  | none =>
    if ts.isEmpty then .error ⟨.missingEnd name, ts⟩
    else match visibility? ts with
    | some word =>
      match body name word.rest with
      | .error e => .error e
      | .ok p => .ok (word.andThen p)
    | none =>
      match afterWord? "equation" ts with
      | some word =>
        match equations word.rest with
        | .error e => .error e
        | .ok p =>
          match body name p.rest with
          | .error e => .error e
          | .ok q =>
            .ok (word.andThen (p.maybeThen (q.map fun b =>
              { b with equations := p.value ++ b.equations })))
      | none =>
        match element ts with
        | .error e => .error e
        | .ok p =>
          match body name p.rest with
          | .error e => .error e
          | .ok q =>
            .ok (p.andThen (q.map fun b => { b with elements := p.value :: b.elements }))
termination_by ts.length * 4 + 3
decreasing_by
  · have := word.shorter; omega
  · have := word.shorter; have := p.shorter; omega
  · omega
  · have := p.shorter; omega

/-- An extends clause, a class or a component. -/
def element (ts : List Lexeme) : Reading (Element Float) ts.length :=
  match afterWord? "extends" ts with
  | some word =>
    match extendsClause word.rest with
    | .error e => .error e
    | .ok p => .ok (word.andThen (p.map .inherit))
  | none =>
    if startsClass ts then
      match classDecl ts with
      | .error e => .error e
      | .ok p => .ok (p.map .nested)
    else
      match component ts with
      | .error e => .error e
      | .ok p => .ok (p.map .component)
termination_by ts.length * 4 + 2
end

end Acausal

-- Modifiers that are set to a quoted text, such as a unit, and what becomes of the modifiers
-- around them. A quoted one is dropped wherever it is written; but a modifier without a value of
-- its own, all of whose modifiers are dropped, is hollow, and a hollow modifier is refused.
import Acausal.Proofs.AcceptedDerivations
import Acausal.Proofs.DeclarationGrammar

namespace Acausal

/-! ## Attributes as they are written -/

/-- The words `each` and `final`, if they are written, and the name that a modifier is for. -/
structure Heading where
  each : Bool
  final : Bool
  name : String
  /-- A name that is one of the two words stands behind that word. -/
  own : (final = false → name ≠ "final") ∧ (each = false → final = false → name ≠ "each")

/-- The tokens of an expression, and the expression that the grammar derives from them. -/
structure Amount where
  tokens : List Token
  value : Expr Float
  derived : Derives .sum tokens value

/-- What a modifier is set to. -/
inductive Setting where
  | quoted (text : String)
  | expression (amount : Amount)

/-- A modifier as it is written: set to something, with others in parentheses or without, or not
set, with at least one other in parentheses. -/
inductive Attribute where
  | leaf (heading : Heading) (setting : Setting)
  | set (heading : Heading) (children : List Attribute) (setting : Setting)
  | group (heading : Heading) (first : Attribute) (more : List Attribute)

def Heading.tokens (h : Heading) : List Token :=
  (if h.each then [.word "each"] else []) ++ (if h.final then [.word "final"] else []) ++
    [.word h.name]

def Setting.tokens : Setting → List Token
  | .quoted text => [.symbol '=', .quoted text]
  | .expression amount => .symbol '=' :: amount.tokens

mutual
def Attribute.tokens : Attribute → List Token
  | .leaf h s => h.tokens ++ s.tokens
  | .set h children s => h.tokens ++ .symbol '(' :: (tokensInside children ++ s.tokens)
  | .group h first more => h.tokens ++ .symbol '(' :: (first.tokens ++ tokensBehind more)

/-- What stands inside parentheses, the closing one included. -/
def tokensInside : List Attribute → List Token
  | [] => [.symbol ')']
  | a :: as => a.tokens ++ tokensBehind as

/-- What stands behind an attribute inside parentheses, the closing one included. -/
def tokensBehind : List Attribute → List Token
  | [] => [.symbol ')']
  | a :: as => .symbol ',' :: (a.tokens ++ tokensBehind as)
end

/-! ## What is left of them -/

def Setting.value? : Setting → Option (Expr Float)
  | .quoted _ => none
  | .expression amount => some amount.value

mutual
/-- What is left of an attribute without the quoted ones, if anything. -/
def Attribute.kept? : Attribute → Option (Modifier Float)
  | .leaf h s => s.value?.map fun v => ⟨h.name, h.each, some v, []⟩
  | .set h children s => s.value?.map fun v => ⟨h.name, h.each, some v, keptAmong children⟩
  | .group h first more =>
    let kept := first.kept?.toList ++ keptAmong more
    if kept.isEmpty then none else some ⟨h.name, h.each, none, kept⟩

/-- What is left of a list of attributes without the quoted ones. -/
def keptAmong : List Attribute → List (Modifier Float)
  | [] => []
  | a :: as => a.kept?.toList ++ keptAmong as
end

mutual
/-- The first attribute, as they are closed, that is not set and has nothing left inside it. -/
def Attribute.hollow? : Attribute → Option String
  | .leaf _ _ => none
  | .set _ children _ => hollowAmong? children
  | .group h first more =>
    (first.hollow?.or (hollowAmong? more)).or
      (if (first.kept?.toList ++ keptAmong more).isEmpty then some h.name else none)

/-- The first hollow attribute of a list. -/
def hollowAmong? : List Attribute → Option String
  | [] => none
  | a :: as => a.hollow?.or (hollowAmong? as)
end

/-- An attribute that is set to a quoted text. -/
def Attribute.Quoted : Attribute → Prop
  | .leaf _ s => s.value? = none
  | .set _ _ s => s.value? = none
  | .group _ _ _ => False

/-- An attribute that has, wherever something in it is not set, a modifier there that is not
quoted. -/
inductive Attribute.Filled : Attribute → Prop
  | leaf (h : Heading) (s : Setting) : Filled (.leaf h s)
  | set {children : List Attribute} (h : Heading) (s : Setting)
      (inner : ∀ c ∈ children, c.Filled) : Filled (.set h children s)
  | group {first : Attribute} {more : List Attribute} (h : Heading)
      (inner : ∀ c ∈ first :: more, c.Filled) (plain : ∃ c ∈ first :: more, ¬ c.Quoted) :
      Filled (.group h first more)

theorem keptAmong_eq_nil {as : List Attribute} :
    keptAmong as = [] ↔ ∀ a ∈ as, a.kept? = none := by
  induction as with
  | nil => simp [keptAmong]
  | cons a as ih => simp [keptAmong, ih]

theorem hollowAmong?_eq_none {as : List Attribute} :
    hollowAmong? as = none ↔ ∀ a ∈ as, a.hollow? = none := by
  induction as with
  | nil => simp [hollowAmong?]
  | cons a as ih => simp [hollowAmong?, ih]

theorem hollow?_group {h : Heading} {first : Attribute} {more : List Attribute} :
    (Attribute.group h first more).hollow? = none ↔
      (∀ c ∈ first :: more, c.hollow? = none) ∧ ∃ c ∈ first :: more, c.kept? ≠ none := by
  have unfolded : (Attribute.group h first more).hollow? =
      (hollowAmong? (first :: more)).or
        (if (keptAmong (first :: more)).isEmpty then some h.name else none) := rfl
  have some_left : keptAmong (first :: more) ≠ [] ↔ ∃ c ∈ first :: more, c.kept? ≠ none := by
    rw [ne_eq, keptAmong_eq_nil]
    push Not
    rfl
  rw [unfolded, Option.or_eq_none_iff, hollowAmong?_eq_none, ← some_left]
  simp

/-- Only the quoted ones among filled attributes leave nothing. -/
theorem Attribute.Filled.kept?_eq_none {a : Attribute} (filled : a.Filled) :
    a.kept? = none ↔ a.Quoted := by
  induction filled with
  | leaf h s => simp [Attribute.kept?, Attribute.Quoted]
  | set h s inner ih => simp [Attribute.kept?, Attribute.Quoted]
  | @group first more h inner plain ih =>
    -- The modifier that is not quoted is filled itself, so it leaves something.
    obtain ⟨c, hc, unquoted⟩ := plain
    have left : keptAmong (first :: more) ≠ [] := fun nothing =>
      unquoted ((ih c hc).mp (keptAmong_eq_nil.mp nothing c hc))
    rw [keptAmong] at left
    simpa [Attribute.kept?, Attribute.Quoted] using left

theorem Attribute.Filled.hollow?_eq_none {a : Attribute} (filled : a.Filled) :
    a.hollow? = none := by
  induction filled with
  | leaf h s => rfl
  | set h s inner ih => exact hollowAmong?_eq_none.mpr ih
  | group h inner plain ih =>
    obtain ⟨c, hc, unquoted⟩ := plain
    exact hollow?_group.mpr ⟨ih, c, hc, mt (inner c hc).kept?_eq_none.mp unquoted⟩

mutual
theorem Attribute.filled_of_hollow? : (a : Attribute) → a.hollow? = none → a.Filled
  | .leaf h s, _ => .leaf h s
  | .set h children s, sound =>
    .set h s (filled_of_hollowAmong? children (hollowAmong?_eq_none.mp sound))
  | .group h first more, sound => by
    obtain ⟨inner, c, hc, left⟩ := hollow?_group.mp sound
    obtain ⟨sound, others⟩ := List.forall_mem_cons.mp inner
    have filled : ∀ b ∈ first :: more, b.Filled :=
      List.forall_mem_cons.mpr ⟨first.filled_of_hollow? sound, filled_of_hollowAmong? more others⟩
    exact .group h filled ⟨c, hc, mt (filled c hc).kept?_eq_none.mpr left⟩

theorem filled_of_hollowAmong? : (as : List Attribute) → (∀ a ∈ as, a.hollow? = none) →
    ∀ a ∈ as, a.Filled
  | [], _ => by simp
  | a :: as, sound =>
    List.forall_mem_cons.mpr ⟨a.filled_of_hollow? (List.forall_mem_cons.mp sound).1,
      filled_of_hollowAmong? as (List.forall_mem_cons.mp sound).2⟩
end

/-- Attributes are filled exactly where none of them is hollow. -/
theorem filled_iff {as : List Attribute} : (∀ a ∈ as, a.Filled) ↔ hollowAmong? as = none := by
  rw [hollowAmong?_eq_none]
  exact ⟨fun filled a ha => (filled a ha).hollow?_eq_none, filled_of_hollowAmong? as⟩

variable {β : Type} {n : Nat} {ls ts mid rest tail : List Lexeme}

/-! ## Reading the parts -/

/-- A comma or a closing parenthesis comes next. -/
def Closes (rest : List Lexeme) : Prop :=
  ∃ c ∈ [',', ')'], front? rest = some (.symbol c)

theorem Closes.ends (h : Closes rest) : Ends rest := by
  obtain ⟨c, hc, front⟩ := h
  intro t ht
  rw [front] at ht
  cases ht
  refine .inr ⟨c, ?_, rfl⟩
  fin_cases hc <;> decide

theorem closes_cons {c : Char} (h : c ∈ [',', ')']) (place : Position) (rest : List Lexeme) :
    Closes (⟨.symbol c, place⟩ :: rest) :=
  ⟨c, h, rfl⟩

theorem Closes.afterSymbol? {c : Char} (h : Closes rest) (other : c ∉ [',', ')']) :
    afterSymbol? c rest = none := by
  obtain ⟨d, hd, front⟩ := h
  rw [afterSymbol?_eq_none, front]
  rintro ⟨⟩
  exact other hd

/-- A word that may be missing is passed over exactly if it is written. -/
theorem optionalWord_spelled {w : String} {b : Bool} {u : Token} {us : List Token}
    (hls : ls.map (·.token) = (if b then [.word w] else []) ++ u :: us)
    (bare : b = false → u ≠ .word w) (rest : List Lexeme) :
    ∃ behind, behind.map (·.token) = u :: us ∧ (optionalWord w (ls ++ rest)).value = b ∧
      (optionalWord w (ls ++ rest)).rest = behind ++ rest := by
  unfold optionalWord
  cases b with
  | true =>
    obtain ⟨place, behind, rfl, spelled⟩ := exists_of_tokens_cons hls
    refine ⟨behind, spelled, ?_⟩
    simp only [List.cons_append, afterWord?_self]
    exact ⟨rfl, rfl⟩
  | false =>
    have missing : afterWord? w (ls ++ rest) = none := by
      obtain ⟨place, behind, rfl, -⟩ := exists_of_tokens_cons hls
      rw [afterWord?_eq_none]
      simpa [front?] using bare rfl
    refine ⟨ls, hls, ?_⟩
    rw [missing]
    exact ⟨rfl, rfl⟩

/-- A heading is read up to its name. -/
theorem reads_heading {h : Heading} (hls : ls.map (·.token) = h.tokens) (rest : List Lexeme) :
    (optionalWord "each" (ls ++ rest)).value = h.each ∧
      Reads (expectWord (optionalWord "final" (optionalWord "each" (ls ++ rest)).rest).rest)
        h.name rest := by
  obtain ⟨u, us, spelled, bare⟩ : ∃ (u : Token) (us : List Token),
      (if h.final then [.word "final"] else []) ++ [.word h.name] = u :: us ∧
        (h.each = false → u ≠ .word "each") := by
    cases hf : h.final with
    | true => exact ⟨_, _, rfl, fun _ => by simp⟩
    | false => exact ⟨_, _, rfl, fun he => by simpa using h.own.2 he hf⟩
  rw [Heading.tokens, List.append_assoc, spelled] at hls
  obtain ⟨behind, hbehind, each, rest_eq⟩ := optionalWord_spelled hls bare rest
  rw [← spelled] at hbehind
  obtain ⟨last, hlast, -, last_eq⟩ :=
    optionalWord_spelled hbehind (fun hf => by simpa using h.own.1 hf) rest
  obtain ⟨place, rfl⟩ := exists_of_tokens_single hlast
  refine ⟨each, ?_⟩
  rw [rest_eq, last_eq, reads_expectWord]
  exact ⟨place, rfl⟩

def Setting.modifierValue : Setting → ModifierValue
  | .quoted _ => .quoted
  | .expression amount => .number amount.value

theorem reads_setting {s : Setting} (hls : ls.map (·.token) = s.tokens) (closes : Closes rest) :
    Reads (modifierValue (ls ++ rest)) s.modifierValue rest := by
  rw [reads_modifierValue]
  cases s with
  | quoted text =>
    obtain ⟨place, behind, rfl, hbehind⟩ := exists_of_tokens_cons hls
    obtain ⟨place', rfl⟩ := exists_of_tokens_single hbehind
    exact .quoted place text place' rest
  | expression amount =>
    obtain ⟨place, used, rfl, hused⟩ := exists_of_tokens_cons hls
    have inner : Reads (expression (used ++ rest)) amount.value rest :=
      reads_of_derives (hused ▸ amount.derived) closes.ends
    exact .number (not_quoted_of_reads inner) inner

/-! ## Outcomes -/

/-- A reading gives a value and leaves some lexemes, or it fails at a hollow modifier. -/
def Settles (r : Reading β n) (hollow : Option String) (v : β) (rest : List Lexeme) : Prop :=
  match hollow with
  | none => Reads r v rest
  | some name => ∃ left, r = .error ⟨.emptyModifier name, left⟩

theorem settles_modifiers_last {hollow : Option String} {m : Option (Modifier Float)}
    {place : Position} (h : Settles (modifier ts) hollow m (⟨.symbol ')', place⟩ :: tail)) :
    Settles (modifiers ts) hollow m.toList tail := by
  cases hollow with
  | none => exact reads_modifiers.mpr ⟨m, _, h, .inl ⟨place, rfl, rfl⟩⟩
  | some name =>
    obtain ⟨left, h⟩ := h
    refine ⟨left, ?_⟩
    rw [modifiers, h]

theorem settles_modifiers_comma {hollow others : Option String} {m : Option (Modifier Float)}
    {ms : List (Modifier Float)} {place : Position} {more : List Lexeme}
    (h : Settles (modifier ts) hollow m (⟨.symbol ',', place⟩ :: more))
    (later : Settles (modifiers more) others ms tail) :
    Settles (modifiers ts) (hollow.or others) (m.toList ++ ms) tail := by
  cases hollow with
  | some name =>
    obtain ⟨left, h⟩ := h
    refine ⟨left, ?_⟩
    rw [modifiers, h]
  | none =>
    cases others with
    | none => exact reads_modifiers.mpr ⟨m, _, h, .inr ⟨place, more, ms, rfl, later, rfl⟩⟩
    | some name =>
      obtain ⟨short, h⟩ := h.eq_ok
      obtain ⟨left, later⟩ := later
      refine ⟨left, ?_⟩
      rw [modifiers, h]
      simp only [afterSymbol?_of_ne (show ',' ≠ ')' by decide), expectSymbol_self,
        Taken.leaving, later]

theorem settles_modification {hollow : Option String} {ms : List (Modifier Float)}
    {place : Position} (h : Settles (modifiers ts) hollow ms tail)
    (filled : afterSymbol? ')' ts = none) :
    Settles (modification (⟨.symbol '(', place⟩ :: ts)) hollow ms tail := by
  cases hollow with
  | none => exact reads_modification.mpr ⟨place, ts, rfl, .inr ⟨filled, h⟩⟩
  | some name =>
    obtain ⟨left, h⟩ := h
    refine ⟨left, ?_⟩
    rw [modification]
    simp only [expectSymbol_self, Taken.leaving, filled, h]

theorem settles_optionalModification {hollow : Option String} {ms : List (Modifier Float)}
    {place : Position} (h : Settles (modification (⟨.symbol '(', place⟩ :: ts)) hollow ms tail) :
    Settles (optionalModification (⟨.symbol '(', place⟩ :: ts)) hollow ms tail := by
  cases hollow with
  | none => exact reads_optionalModification.mpr (.inr h)
  | some name =>
    obtain ⟨left, h⟩ := h
    refine ⟨left, ?_⟩
    rw [optionalModification]
    simp only [afterSymbol?_self, h]

/-- A heading with nothing wrong behind it is read as what its parts amount to. -/
theorem reads_modifier_of_parts {h : Heading} {children : List (Modifier Float)}
    {value : ModifierValue} {m : Option (Modifier Float)} {behind : List Lexeme}
    (hls : ls.map (·.token) = h.tokens) (inner : Reads (optionalModification mid) children behind)
    (set : Reads (modifierValue behind) value rest)
    (whole : combineModifier h.name h.each children value = .ok m) :
    Reads (modifier (ls ++ mid)) m rest := by
  obtain ⟨each, name⟩ := reads_heading hls mid
  exact reads_modifier.mpr ⟨h.name, children, value, mid, behind, name, inner, set, each ▸ whole⟩

/-- A heading with nothing behind it but dropped modifiers is refused. -/
theorem modifier_hollow {h : Heading} {behind : List Lexeme}
    (hls : ls.map (·.token) = h.tokens) (inner : Reads (optionalModification mid) [] behind)
    (set : Reads (modifierValue behind) .absent rest) :
    modifier (ls ++ mid) = .error ⟨.emptyModifier h.name, rest⟩ := by
  obtain ⟨_, name⟩ := (reads_heading hls mid).2.eq_ok
  obtain ⟨_, inner⟩ := inner.eq_ok
  obtain ⟨_, set⟩ := set.eq_ok
  rw [modifier]
  simp only [name, inner, set, combineModifier, List.isEmpty_nil, if_true]

/-- Modifiers in parentheses are read or refused before the heading in front of them is. -/
theorem settles_behind_heading {h : Heading} {hollow own : Option String}
    {children : List (Modifier Float)} {m : Option (Modifier Float)} {behind : List Lexeme}
    (hls : ls.map (·.token) = h.tokens)
    (inner : Settles (optionalModification mid) hollow children behind)
    (outer : Reads (optionalModification mid) children behind →
      Settles (modifier (ls ++ mid)) own m rest) :
    Settles (modifier (ls ++ mid)) (hollow.or own) m rest := by
  cases hollow with
  | none => exact outer inner
  | some name =>
    obtain ⟨left, inner⟩ := inner
    obtain ⟨_, heading⟩ := (reads_heading hls mid).2.eq_ok
    refine ⟨left, ?_⟩
    rw [modifier]
    simp only [heading, inner]

/-! ## Attributes that are read -/

/-- An attribute is read as what is left of it, or refused for the first hollow one in it. -/
def Attribute.Settled (a : Attribute) : Prop :=
  ∀ {ls rest : List Lexeme}, ls.map (·.token) = a.tokens → Closes rest →
    Settles (modifier (ls ++ rest)) a.hollow? a.kept? rest

theorem settles_attributes {a : Attribute} {as : List Attribute} (first : a.Settled)
    (more : ∀ b ∈ as, b.Settled) (hls : ls.map (·.token) = a.tokens ++ tokensBehind as) :
    Settles (modifiers (ls ++ tail)) (hollowAmong? (a :: as)) (keptAmong (a :: as)) tail := by
  induction as generalizing a ls with
  | nil =>
    obtain ⟨own, behind, rfl, hown, hbehind⟩ := exists_of_tokens_append hls
    obtain ⟨place, rfl⟩ := exists_of_tokens_single hbehind
    have read := settles_modifiers_last (first hown (closes_cons (by simp) place tail))
    rw [List.append_assoc]
    simpa [hollowAmong?, keptAmong] using read
  | cons b bs ih =>
    obtain ⟨own, behind, rfl, hown, hbehind⟩ := exists_of_tokens_append hls
    obtain ⟨place, others, rfl, hothers⟩ := exists_of_tokens_cons hbehind
    obtain ⟨settled, more⟩ := List.forall_mem_cons.mp more
    have read := settles_modifiers_comma
      (first hown (closes_cons (by simp) place (others ++ tail))) (ih settled more hothers)
    rw [List.append_assoc]
    simpa [hollowAmong?, keptAmong] using read

theorem Attribute.tokens_eq_word (a : Attribute) : ∃ w us, a.tokens = .word w :: us := by
  have heading (h : Heading) (vs : List Token) : ∃ w us, h.tokens ++ vs = .word w :: us := by
    obtain ⟨each, final, name, own⟩ := h
    cases each with
    | true => exact ⟨_, _, rfl⟩
    | false => cases final <;> exact ⟨_, _, rfl⟩
  cases a with
  | leaf h s => exact heading h _
  | set h children s => exact heading h _
  | group h first more => exact heading h _

theorem settles_inside {as : List Attribute} (all : ∀ a ∈ as, a.Settled)
    (hls : ls.map (·.token) = tokensInside as) (place : Position) (tail : List Lexeme) :
    Settles (modification (⟨.symbol '(', place⟩ :: ls ++ tail)) (hollowAmong? as) (keptAmong as)
      tail := by
  cases as with
  | nil =>
    obtain ⟨stop, rfl⟩ := exists_of_tokens_single hls
    exact reads_modification.mpr ⟨place, _, rfl, .inl ⟨stop, rfl, rfl⟩⟩
  | cons a as =>
    obtain ⟨settled, more⟩ := List.forall_mem_cons.mp all
    have filled : afterSymbol? ')' (ls ++ tail) = none := by
      obtain ⟨w, us, starts⟩ := a.tokens_eq_word
      rw [tokensInside, starts] at hls
      obtain ⟨place, more, rfl, -⟩ := exists_of_tokens_cons hls
      rfl
    exact settles_modification (settles_attributes settled more hls) filled

theorem combineModifier_setting (name : String) (each : Bool) (children : List (Modifier Float))
    (s : Setting) : combineModifier name each children s.modifierValue =
      .ok (s.value?.map fun v => ⟨name, each, some v, children⟩) := by
  cases s <;> rfl

theorem settled_leaf (h : Heading) (s : Setting) : (Attribute.leaf h s).Settled := by
  intro ls rest hls closes
  obtain ⟨heading, setting, rfl, hheading, hsetting⟩ := exists_of_tokens_append hls
  have bare : afterSymbol? '(' (setting ++ rest) = none := by
    cases s with
    | quoted text =>
      obtain ⟨place, more, rfl, -⟩ := exists_of_tokens_cons hsetting
      rfl
    | expression amount =>
      obtain ⟨place, more, rfl, -⟩ := exists_of_tokens_cons hsetting
      rfl
  rw [List.append_assoc]
  exact reads_modifier_of_parts hheading (reads_optionalModification.mpr (.inl ⟨bare, rfl, rfl⟩))
    (reads_setting hsetting closes) (combineModifier_setting _ _ _ s)

theorem settled_set (h : Heading) (s : Setting) {as : List Attribute}
    (all : ∀ a ∈ as, a.Settled) : (Attribute.set h as s).Settled := by
  intro ls rest hls closes
  obtain ⟨heading, behind, rfl, hheading, hbehind⟩ := exists_of_tokens_append hls
  obtain ⟨place, parts, rfl, hparts⟩ := exists_of_tokens_cons hbehind
  obtain ⟨inside, setting, rfl, hinside, hsetting⟩ := exists_of_tokens_append hparts
  have inner := settles_optionalModification (settles_inside all hinside place (setting ++ rest))
  rw [List.append_assoc, List.cons_append, List.append_assoc, Attribute.hollow?,
    ← (hollowAmong? as).or_none]
  refine settles_behind_heading hheading inner fun children => ?_
  exact reads_modifier_of_parts hheading children (reads_setting hsetting closes)
    (combineModifier_setting _ _ _ s)

theorem settled_group (h : Heading) {a : Attribute} {as : List Attribute} (first : a.Settled)
    (more : ∀ b ∈ as, b.Settled) : (Attribute.group h a as).Settled := by
  intro ls rest hls closes
  obtain ⟨heading, behind, rfl, hheading, hbehind⟩ := exists_of_tokens_append hls
  obtain ⟨place, inside, rfl, hinside⟩ := exists_of_tokens_cons hbehind
  have all : ∀ b ∈ a :: as, b.Settled := List.forall_mem_cons.mpr ⟨first, more⟩
  have inner := settles_optionalModification (settles_inside all hinside place rest)
  have unset : Reads (modifierValue rest) .absent rest :=
    reads_modifierValue.mpr (.absent (closes.afterSymbol? (by decide)))
  rw [List.append_assoc]
  refine settles_behind_heading hheading inner fun children => ?_
  -- Without a value it counts what the reading inside has left, not what is written there.
  rw [Attribute.kept?]
  cases hkept : a.kept?.toList ++ keptAmong as with
  | nil =>
    rw [keptAmong, hkept] at children
    exact ⟨rest, modifier_hollow hheading children unset⟩
  | cons m ms =>
    rw [keptAmong, hkept] at children
    exact reads_modifier_of_parts hheading children unset rfl

mutual
theorem Attribute.settled : (a : Attribute) → a.Settled
  | .leaf h s => settled_leaf h s
  | .set h children s => settled_set h s (all_settled children)
  | .group h first more => settled_group h first.settled (all_settled more)

theorem all_settled : (as : List Attribute) → ∀ a ∈ as, a.Settled
  | [] => by simp
  | a :: as => List.forall_mem_cons.mpr ⟨a.settled, all_settled as⟩
end

/-- Attributes in parentheses, to any depth, are read as what is left of them without the quoted
ones if they are filled. If they are not, the first hollow one is refused. -/
theorem attributes_are_kept_where_filled (as : List Attribute) {ls tail : List Lexeme}
    (spelled : ls.map (·.token) = .symbol '(' :: tokensInside as) :
    ((∀ a ∈ as, a.Filled) → Reads (modification (ls ++ tail)) (keptAmong as) tail) ∧
      ((¬ ∀ a ∈ as, a.Filled) → ∃ name left, hollowAmong? as = some name ∧
        modification (ls ++ tail) = .error ⟨.emptyModifier name, left⟩) := by
  obtain ⟨place, inner, rfl, hinner⟩ := exists_of_tokens_cons spelled
  have settled := settles_inside (all_settled as) hinner place tail
  rw [filled_iff]
  cases hollow : hollowAmong? as with
  | none =>
    rw [hollow] at settled
    exact ⟨fun _ => settled, fun some_hollow => absurd rfl some_hollow⟩
  | some name =>
    rw [hollow] at settled
    obtain ⟨left, refused⟩ := settled
    exact ⟨nofun, fun _ => ⟨name, left, rfl, refused⟩⟩

/-- A heading of a name alone. -/
def Heading.plain (name : String) (own : name ≠ "final" ∧ name ≠ "each") : Heading :=
  ⟨false, false, name, fun _ => own.1, fun _ _ => own.2⟩

/-- The amount that a single number is. -/
def Amount.ofNumber (x : Float) : Amount :=
  ⟨[.number x], .number x, .term (.factor (.bare (.base (.number x))))⟩

/-- The attribute `unit = "N/m"`. -/
def newtonPerMeter : Attribute := .leaf (.plain "unit" (by decide)) (.quoted "N/m")

/-- The attributes `(stiffness(unit = "N/m", start = 5), length = 2)`. -/
def springAttributes : List Attribute :=
  [.group (.plain "stiffness" (by decide)) newtonPerMeter
      [.leaf (.plain "start" (by decide)) (.expression (.ofNumber 5))],
    .leaf (.plain "length" (by decide)) (.expression (.ofNumber 2))]

theorem spring_keeps_its_start :
    (placed (.symbol '(' :: tokensInside springAttributes)).map (·.token) =
        .symbol '(' :: tokensInside springAttributes ∧
      (∀ a ∈ springAttributes, a.Filled) ∧
      Reads (modification (placed (.symbol '(' :: tokensInside springAttributes) ++ []))
        [⟨"stiffness", false, none, [⟨"start", false, some (.number 5), []⟩]⟩,
          ⟨"length", false, some (.number 2), []⟩] [] := by
  have spelled := tokens_placed (.symbol '(' :: tokensInside springAttributes)
  have filled : ∀ a ∈ springAttributes, a.Filled := filled_iff.mpr rfl
  exact ⟨spelled, filled, (attributes_are_kept_where_filled springAttributes spelled).1 filled⟩

/-- The attributes `(stiffness(unit = "N/m"), length = 2)`. -/
def unitAttributes : List Attribute :=
  [.group (.plain "stiffness" (by decide)) newtonPerMeter [],
    .leaf (.plain "length" (by decide)) (.expression (.ofNumber 2))]

/-- A unit alone in parentheses is not dropped with the modifier around it: that is refused. -/
theorem lone_units_are_refused :
    ¬ ∀ (as : List Attribute) (ls tail : List Lexeme),
      ls.map (·.token) = .symbol '(' :: tokensInside as →
        Reads (modification (ls ++ tail)) (keptAmong as) tail := by
  intro dropped
  have inner : (placed (tokensInside unitAttributes)).map (·.token) =
      tokensInside unitAttributes := tokens_placed _
  obtain ⟨left, refused⟩ : ∃ left, modification
      (⟨.symbol '(', {}⟩ :: placed (tokensInside unitAttributes) ++ []) =
        .error ⟨.emptyModifier "stiffness", left⟩ :=
    settles_inside (all_settled unitAttributes) inner {} []
  have read := dropped unitAttributes (placed (.symbol '(' :: tokensInside unitAttributes)) []
    (tokens_placed _)
  rw [show placed (.symbol '(' :: tokensInside unitAttributes) =
    ⟨.symbol '(', {}⟩ :: placed (tokensInside unitAttributes) from rfl, refused] at read
  exact not_reads_error read

end Acausal

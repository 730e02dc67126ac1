-- Readings as relations between the lexemes at hand, a value and the lexemes left. Each reader
-- has one law that says when it reads what; later proofs use these laws and open no reader.
import Acausal.Grammar.Expression

namespace Acausal

variable {β : Type} {n : Nat} {ts rest : List Lexeme}

/-! ## Successful readings -/

/-- A reading succeeds with a value and leaves some lexemes. -/
def Reads (r : Reading β n) (v : β) (rest : List Lexeme) : Prop :=
  ∃ p, r = .ok p ∧ p.value = v ∧ p.rest = rest

@[simp]
theorem reads_ok {p : Parsed β n} {v : β} :
    Reads (.ok p) v rest ↔ p.value = v ∧ p.rest = rest := by
  simp [Reads]

@[simp]
theorem not_reads_error {e : Failure} {v : β} : ¬ Reads (.error e : Reading β n) v rest := by
  simp [Reads]

theorem Reads.shorter {r : Reading β n} {v : β} (h : Reads r v rest) : rest.length < n := by
  obtain ⟨p, -, -, rfl⟩ := h
  exact p.shorter

theorem Reads.unique {r : Reading β n} {v w : β} {left : List Lexeme} (h : Reads r v rest)
    (h' : Reads r w left) : v = w ∧ rest = left := by
  obtain ⟨p, hp, rfl, rfl⟩ := h
  rw [hp] at h'
  exact reads_ok.mp h'

theorem Reads.eq_ok {r : Reading β n} {v : β} (h : Reads r v rest) :
    ∃ short, r = .ok ⟨v, rest, short⟩ := by
  obtain ⟨p, hp, rfl, rfl⟩ := h
  exact ⟨p.shorter, hp⟩

/-! ## Single lexemes -/

@[simp]
theorem afterSymbol?_self (c : Char) (place : Position) :
    afterSymbol? c (⟨.symbol c, place⟩ :: ts) = some (.leaving () ts) :=
  if_pos rfl

@[simp]
theorem expectSymbol_self (c : Char) (place : Position) :
    expectSymbol c (⟨.symbol c, place⟩ :: ts) = .ok (.leaving () ts) := by
  simp only [expectSymbol, afterSymbol?_self]

theorem afterSymbol?_of_ne {c d : Char} (h : d ≠ c) (place : Position) :
    afterSymbol? c (⟨.symbol d, place⟩ :: ts) = none :=
  if_neg h

theorem of_afterSymbol?_eq_some {c : Char} {p : Parsed Unit ts.length}
    (h : afterSymbol? c ts = some p) : ∃ place, ts = ⟨.symbol c, place⟩ :: p.rest := by
  unfold afterSymbol? at h
  split at h
  · split at h
    · next heq =>
      cases h
      exact ⟨_, by rw [heq]; rfl⟩
    · contradiction
  · contradiction

theorem afterSymbol?_of_token_ne {c : Char} {t : Token} (h : t ≠ .symbol c) (place : Position) :
    afterSymbol? c (⟨t, place⟩ :: ts) = none := by
  cases hs : afterSymbol? c (⟨t, place⟩ :: ts) with
  | none => rfl
  | some p =>
    obtain ⟨_, heq⟩ := of_afterSymbol?_eq_some hs
    exact absurd (congrArg Lexeme.token (List.cons.inj heq).1) h

@[simp]
theorem afterWord?_self (w : String) (place : Position) :
    afterWord? w (⟨.word w, place⟩ :: ts) = some (.leaving () ts) :=
  if_pos rfl

theorem afterWord?_of_ne {w u : String} (h : u ≠ w) (place : Position) :
    afterWord? w (⟨.word u, place⟩ :: ts) = none :=
  if_neg h

theorem of_afterWord?_eq_some {w : String} {p : Parsed Unit ts.length}
    (h : afterWord? w ts = some p) : ∃ place, ts = ⟨.word w, place⟩ :: p.rest := by
  unfold afterWord? at h
  split at h
  · split at h
    · next heq =>
      cases h
      exact ⟨_, by rw [heq]; rfl⟩
    · contradiction
  · contradiction

theorem of_quotedText?_eq_some {p : Parsed String ts.length} (h : quotedText? ts = some p) :
    ∃ place, ts = ⟨.quoted p.value, place⟩ :: p.rest := by
  unfold quotedText? at h
  split at h
  · cases h
    exact ⟨_, rfl⟩
  · contradiction

theorem of_operator?_eq_some {choice : Char → Option Operator} {p : Parsed Operator ts.length}
    (h : operator? choice ts = some p) :
    ∃ c place, ts = ⟨.symbol c, place⟩ :: p.rest ∧ choice c = some p.value := by
  unfold operator? at h
  split at h
  · obtain ⟨op, hop, rfl⟩ := Option.map_eq_some_iff.mp h
    exact ⟨_, _, rfl, hop⟩
  · contradiction

theorem reads_expectSymbol {c : Char} {u : Unit} :
    Reads (expectSymbol c ts) u rest ↔ ∃ place, ts = ⟨.symbol c, place⟩ :: rest := by
  unfold expectSymbol
  constructor
  · intro h
    split at h
    · next p hp =>
      obtain ⟨-, rfl⟩ := reads_ok.mp h
      exact of_afterSymbol?_eq_some hp
    · simp at h
  · rintro ⟨place, rfl⟩
    simp only [afterSymbol?_self]
    exact reads_ok.mpr ⟨rfl, rfl⟩

theorem reads_expectWord {w : String} :
    Reads (expectWord ts) w rest ↔ ∃ place, ts = ⟨.word w, place⟩ :: rest := by
  constructor
  · intro h
    unfold expectWord at h
    split at h
    · obtain ⟨rfl, rfl⟩ := reads_ok.mp h
      exact ⟨_, rfl⟩
    · simp at h
  · rintro ⟨place, rfl⟩
    exact reads_ok.mpr ⟨rfl, rfl⟩

theorem reads_bracketed {problem : GrammarProblem} {k : Nat} :
    Reads (bracketed problem ts) k rest ↔
      ∃ x place stop, ts = ⟨.number x, place⟩ :: ⟨.symbol ']', stop⟩ :: rest ∧
        count? x = some k := by
  constructor
  · intro h
    unfold bracketed at h
    split at h
    · split at h
      · simp at h
      · next hk =>
        split at h
        · simp at h
        · next p hp =>
          obtain ⟨rfl, rfl⟩ := reads_ok.mp h
          obtain ⟨stop, hstop⟩ := reads_expectSymbol.mp ⟨p, hp, rfl, rfl⟩
          exact ⟨_, _, stop, congrArg _ hstop, hk⟩
    · simp at h
    · simp at h
  · rintro ⟨x, place, stop, rfl, hk⟩
    unfold bracketed
    simp only [hk, expectSymbol_self]
    exact reads_ok.mpr ⟨rfl, rfl⟩

/-! ## The token in front -/

/-- The first token, if there is one. -/
def front? (ts : List Lexeme) : Option Token := (ts.map (·.token)).head?

theorem afterSymbol?_eq_none {c : Char} :
    afterSymbol? c ts = none ↔ front? ts ≠ some (.symbol c) := by
  cases ts with
  | nil => simp [afterSymbol?, front?]
  | cons lexeme more =>
    obtain ⟨t, place⟩ := lexeme
    cases t <;> simp [afterSymbol?, front?]

theorem afterWord?_eq_none {w : String} :
    afterWord? w ts = none ↔ front? ts ≠ some (.word w) := by
  cases ts with
  | nil => simp [afterWord?, front?]
  | cons lexeme more =>
    obtain ⟨t, place⟩ := lexeme
    cases t <;> simp [afterWord?, front?]

theorem quotedText?_eq_none : quotedText? ts = none ↔ ∀ text, front? ts ≠ some (.quoted text) := by
  cases ts with
  | nil => simp [quotedText?, front?]
  | cons lexeme more =>
    obtain ⟨t, place⟩ := lexeme
    cases t <;> simp [quotedText?, front?]

theorem operator?_eq_none {choice : Char → Option Operator} :
    operator? choice ts = none ↔ ∀ c, front? ts = some (.symbol c) → choice c = none := by
  cases ts with
  | nil => simp [operator?, front?]
  | cons lexeme more =>
    obtain ⟨t, place⟩ := lexeme
    cases t <;> simp [operator?, front?]

/-! ## References -/

theorem reads_path {name : String} :
    Reads (path ts) name rest ↔
      ∃ w place more, ts = ⟨.word w, place⟩ :: more ∧
        (pathTail w more).value = name ∧ (pathTail w more).rest = rest := by
  unfold path
  constructor
  · intro h
    split at h
    · simp at h
    · next p hp =>
      obtain ⟨rfl, rfl⟩ := reads_ok.mp h
      obtain ⟨place, hts⟩ := reads_expectWord.mp ⟨p, hp, rfl, rfl⟩
      exact ⟨_, place, _, hts, rfl, rfl⟩
  · rintro ⟨w, place, more, rfl, hv, hr⟩
    exact reads_ok.mpr ⟨hv, hr⟩

theorem reads_reference {r : Ref} :
    Reads (reference ts) r rest ↔
      ∃ mid, Reads (path ts) r.name mid ∧
        ((r.index = none ∧ afterSymbol? '[' mid = none ∧ mid = rest) ∨
          ∃ place more k, mid = ⟨.symbol '[', place⟩ :: more ∧
            Reads (bracketed .badSubscript more) k rest ∧ r.index = some k) := by
  unfold reference
  constructor
  · intro h
    split at h
    · simp at h
    · next p hp =>
      split at h
      · next hs =>
        obtain ⟨rfl, rfl⟩ := reads_ok.mp h
        exact ⟨p.rest, ⟨p, hp, rfl, rfl⟩, .inl ⟨rfl, hs, rfl⟩⟩
      · next q hs =>
        obtain ⟨place, hq⟩ := of_afterSymbol?_eq_some hs
        split at h
        · simp at h
        · next k hk =>
          obtain ⟨rfl, rfl⟩ := reads_ok.mp h
          exact ⟨p.rest, ⟨p, hp, rfl, rfl⟩,
            .inr ⟨place, q.rest, k.value, hq, ⟨k, hk, rfl, rfl⟩, rfl⟩⟩
  · obtain ⟨name, index⟩ := r
    rintro ⟨mid, hname, ⟨rfl, hs, rfl⟩ | ⟨place, more, k, rfl, hk, rfl⟩⟩
    · obtain ⟨short, hp⟩ := hname.eq_ok
      simp only [hp, hs]
      exact reads_ok.mpr ⟨rfl, rfl⟩
    · obtain ⟨short, hp⟩ := hname.eq_ok
      obtain ⟨_, hk⟩ := hk.eq_ok
      simp only [hp, afterSymbol?_self, Taken.leaving, hk]
      exact reads_ok.mpr ⟨rfl, rfl⟩

end Acausal

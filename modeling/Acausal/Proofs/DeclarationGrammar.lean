-- The laws of the grammar of modifications, declarations and classes, one for each reader: what
-- it reads is made of what its parts read. The readers of parts that may be missing and never
-- fail, such as descriptions, stand in the laws as they are.
import Acausal.Grammar.Source
import Acausal.Proofs.ExpressionGrammar

namespace Acausal

variable {ts rest : List Lexeme}

/-! ## Modifications -/

/-- The forms of what stands behind the name and the children of a modifier. -/
inductive ModifierValueForm : List Lexeme → ModifierValue → List Lexeme → Prop
  | absent {more} (bare : afterSymbol? '=' more = none) : ModifierValueForm more .absent more
  | quoted (place text place' rest) :
    ModifierValueForm (⟨.symbol '=', place⟩ :: ⟨.quoted text, place'⟩ :: rest) .quoted rest
  | number {place more value rest} (plain : quotedText? more = none)
    (inner : Reads (expression more) value rest) :
    ModifierValueForm (⟨.symbol '=', place⟩ :: more) (.number value) rest

theorem reads_modifierValue {value : ModifierValue} :
    Reads (modifierValue ts) value rest ↔ ModifierValueForm ts value rest := by
  unfold modifierValue
  constructor
  · intro h
    split at h
    · next hs =>
      obtain ⟨rfl, rfl⟩ := reads_ok.mp h
      exact .absent hs
    · next sign hs =>
      obtain ⟨place, hts⟩ := of_afterSymbol?_eq_some hs
      split at h
      · next p hp =>
        obtain ⟨rfl, rfl⟩ := reads_ok.mp h
        obtain ⟨place', hrest⟩ := of_quotedText?_eq_some hp
        have form := ModifierValueForm.quoted place p.value place' p.rest
        rw [← hrest, ← hts] at form
        exact form
      · next hq =>
        split at h
        · simp at h
        · next p hp =>
          obtain ⟨rfl, rfl⟩ := reads_ok.mp h
          have form : ModifierValueForm (⟨.symbol '=', place⟩ :: sign.rest) (.number p.value)
              p.rest := .number hq ⟨p, hp, rfl, rfl⟩
          rw [← hts] at form
          exact form
  · intro h
    cases h with
    | absent bare =>
      simp only [bare]
      exact reads_ok.mpr ⟨rfl, rfl⟩
    | quoted place text place' =>
      simp only [afterSymbol?_self, Taken.leaving, quotedText?]
      exact reads_ok.mpr ⟨rfl, rfl⟩
    | number plain inner =>
      obtain ⟨_, inner⟩ := inner.eq_ok
      simp only [afterSymbol?_self, Taken.leaving, plain, inner]
      exact reads_ok.mpr ⟨rfl, rfl⟩

theorem reads_modification {ms : List (Modifier Float)} :
    Reads (modification ts) ms rest ↔
      ∃ place more, ts = ⟨.symbol '(', place⟩ :: more ∧
        ((∃ stop, more = ⟨.symbol ')', stop⟩ :: rest ∧ ms = []) ∨
          (afterSymbol? ')' more = none ∧ Reads (modifiers more) ms rest)) := by
  rw [modification]
  constructor
  · intro h
    split at h
    · simp at h
    · next opening ho =>
      obtain ⟨place, hts⟩ := reads_expectSymbol.mp ⟨opening, ho, rfl, rfl⟩
      refine ⟨place, opening.rest, hts, ?_⟩
      split at h
      · next closing hc =>
        obtain ⟨rfl, rfl⟩ := reads_ok.mp h
        obtain ⟨stop, hmore⟩ := of_afterSymbol?_eq_some hc
        exact .inl ⟨stop, hmore, rfl⟩
      · next hc =>
        split at h
        · simp at h
        · next p hp =>
          obtain ⟨rfl, rfl⟩ := reads_ok.mp h
          exact .inr ⟨hc, p, hp, rfl, rfl⟩
  · rintro ⟨place, more, rfl, ⟨stop, rfl, rfl⟩ | ⟨hc, hms⟩⟩
    · simp only [expectSymbol_self, Taken.leaving, afterSymbol?_self]
      exact reads_ok.mpr ⟨rfl, rfl⟩
    · obtain ⟨_, hms⟩ := hms.eq_ok
      simp only [expectSymbol_self, Taken.leaving, hc, hms]
      exact reads_ok.mpr ⟨rfl, rfl⟩

theorem reads_modifiers {ms : List (Modifier Float)} :
    Reads (modifiers ts) ms rest ↔
      ∃ m mid, Reads (modifier ts) m mid ∧
        ((∃ place, mid = ⟨.symbol ')', place⟩ :: rest ∧ ms = m.toList) ∨
          ∃ place more later, mid = ⟨.symbol ',', place⟩ :: more ∧
            Reads (modifiers more) later rest ∧ ms = m.toList ++ later) := by
  rw [modifiers]
  constructor
  · intro h
    split at h
    · simp at h
    · next p hp =>
      refine ⟨p.value, p.rest, ⟨p, hp, rfl, rfl⟩, ?_⟩
      split at h
      · next closing hs =>
        obtain ⟨place, hmid⟩ := of_afterSymbol?_eq_some hs
        obtain ⟨rfl, rfl⟩ := reads_ok.mp h
        exact .inl ⟨place, hmid, rfl⟩
      · split at h
        · simp at h
        · next comma hc =>
          obtain ⟨place, hmid⟩ := reads_expectSymbol.mp ⟨comma, hc, rfl, rfl⟩
          split at h
          · simp at h
          · next q hq =>
            obtain ⟨rfl, rfl⟩ := reads_ok.mp h
            exact .inr ⟨place, comma.rest, q.value, hmid, ⟨q, hq, rfl, rfl⟩, rfl⟩
  · rintro ⟨m, mid, hm, ⟨place, rfl, rfl⟩ | ⟨place, more, later, rfl, hlater, rfl⟩⟩
    · obtain ⟨_, hm⟩ := hm.eq_ok
      simp only [hm, afterSymbol?_self]
      exact reads_ok.mpr ⟨rfl, rfl⟩
    · obtain ⟨_, hm⟩ := hm.eq_ok
      obtain ⟨_, hlater⟩ := hlater.eq_ok
      simp only [hm, afterSymbol?_of_ne (show ',' ≠ ')' by decide), expectSymbol_self,
        Taken.leaving, hlater]
      exact reads_ok.mpr ⟨rfl, rfl⟩

theorem reads_modifier {m : Option (Modifier Float)} :
    Reads (modifier ts) m rest ↔
      ∃ name children value a b,
        Reads (expectWord (optionalWord "final" (optionalWord "each" ts).rest).rest) name a ∧
          Reads (optionalModification a) children b ∧ Reads (modifierValue b) value rest ∧
            combineModifier name (optionalWord "each" ts).value children value = .ok m := by
  rw [modifier]
  constructor
  · intro h
    split at h
    · simp at h
    · next name hn =>
      split at h
      · simp at h
      · next children hc =>
        split at h
        · simp at h
        · next value hv =>
          split at h
          · simp at h
          · next result hr =>
            obtain ⟨rfl, rfl⟩ := reads_ok.mp h
            exact ⟨name.value, children.value, value.value, name.rest, children.rest,
              ⟨name, hn, rfl, rfl⟩, ⟨children, hc, rfl, rfl⟩, ⟨value, hv, rfl, rfl⟩, hr⟩
  · rintro ⟨name, children, value, a, b, hname, hchildren, hvalue, hm⟩
    obtain ⟨_, hname⟩ := hname.eq_ok
    obtain ⟨_, hchildren⟩ := hchildren.eq_ok
    obtain ⟨_, hvalue⟩ := hvalue.eq_ok
    simp only [hname, hchildren, hvalue, hm]
    exact reads_ok.mpr ⟨rfl, rfl⟩

theorem reads_optionalModification {ms : List (Modifier Float)} :
    Reads (optionalModification ts) ms rest ↔
      (afterSymbol? '(' ts = none ∧ ms = [] ∧ ts = rest) ∨ Reads (modification ts) ms rest := by
  rw [optionalModification]
  constructor
  · intro h
    split at h
    · next hs =>
      obtain ⟨rfl, rfl⟩ := reads_ok.mp h
      exact .inl ⟨hs, rfl, rfl⟩
    · split at h
      · simp at h
      · next p hp =>
        obtain ⟨rfl, rfl⟩ := reads_ok.mp h
        exact .inr ⟨p, hp, rfl, rfl⟩
  · rintro (⟨hs, rfl, rfl⟩ | h)
    · simp only [hs]
      exact reads_ok.mpr ⟨rfl, rfl⟩
    · obtain ⟨place, more, rfl, -⟩ := reads_modification.mp h
      obtain ⟨_, h⟩ := h.eq_ok
      simp only [afterSymbol?_self, h]
      exact reads_ok.mpr ⟨rfl, rfl⟩

/-! ## Parts of a declaration -/

theorem reads_optionalSize {size : Option Nat} :
    Reads (optionalSize ts) size rest ↔
      (afterSymbol? '[' ts = none ∧ size = none ∧ ts = rest) ∨
        ∃ place more k, ts = ⟨.symbol '[', place⟩ :: more ∧
          Reads (bracketed .badSize more) k rest ∧ size = some k := by
  unfold optionalSize
  constructor
  · intro h
    split at h
    · next hs =>
      obtain ⟨rfl, rfl⟩ := reads_ok.mp h
      exact .inl ⟨hs, rfl, rfl⟩
    · next opening hs =>
      obtain ⟨place, hts⟩ := of_afterSymbol?_eq_some hs
      split at h
      · simp at h
      · next p hp =>
        obtain ⟨rfl, rfl⟩ := reads_ok.mp h
        exact .inr ⟨place, opening.rest, p.value, hts, ⟨p, hp, rfl, rfl⟩, rfl⟩
  · rintro (⟨hs, rfl, rfl⟩ | ⟨place, more, k, rfl, hk, rfl⟩)
    · simp only [hs]
      exact reads_ok.mpr ⟨rfl, rfl⟩
    · obtain ⟨_, hk⟩ := hk.eq_ok
      simp only [afterSymbol?_self, Taken.leaving, hk]
      exact reads_ok.mpr ⟨rfl, rfl⟩

theorem reads_optionalBinding {binding : Option (Expr Float)} :
    Reads (optionalBinding ts) binding rest ↔
      (afterSymbol? '=' ts = none ∧ binding = none ∧ ts = rest) ∨
        ∃ place more e, ts = ⟨.symbol '=', place⟩ :: more ∧ Reads (expression more) e rest ∧
          binding = some e := by
  unfold optionalBinding
  constructor
  · intro h
    split at h
    · next hs =>
      obtain ⟨rfl, rfl⟩ := reads_ok.mp h
      exact .inl ⟨hs, rfl, rfl⟩
    · next sign hs =>
      obtain ⟨place, hts⟩ := of_afterSymbol?_eq_some hs
      split at h
      · simp at h
      · next p hp =>
        obtain ⟨rfl, rfl⟩ := reads_ok.mp h
        exact .inr ⟨place, sign.rest, p.value, hts, ⟨p, hp, rfl, rfl⟩, rfl⟩
  · rintro (⟨hs, rfl, rfl⟩ | ⟨place, more, e, rfl, he, rfl⟩)
    · simp only [hs]
      exact reads_ok.mpr ⟨rfl, rfl⟩
    · obtain ⟨_, he⟩ := he.eq_ok
      simp only [afterSymbol?_self, Taken.leaving, he]
      exact reads_ok.mpr ⟨rfl, rfl⟩

/-! ## Elements and equations -/

theorem reads_component {c : Component Float} :
    Reads (component ts) c rest ↔
      ∃ a b d e f stop, c.variability = (variability ts).value ∧
        Reads (path (direction (variability ts).rest).rest) c.typeName a ∧
        Reads (expectWord a) c.name b ∧ Reads (optionalSize b) c.size d ∧
        Reads (optionalModification d) c.modifiers e ∧ Reads (optionalBinding e) c.binding f ∧
        c.description = (optionalDescription f).value ∧
        (optionalDescription f).rest = ⟨.symbol ';', stop⟩ :: rest := by
  unfold component
  constructor
  · intro h
    simp only at h
    split at h
    · simp at h
    · next type ht =>
      split at h
      · simp at h
      · next name hn =>
        split at h
        · simp at h
        · next size hsize =>
          split at h
          · simp at h
          · next ms hm =>
            split at h
            · simp at h
            · next binding hb =>
              split at h
              · simp at h
              · next stop hstop =>
                obtain ⟨rfl, rfl⟩ := reads_ok.mp h
                obtain ⟨place, hend⟩ := reads_expectSymbol.mp ⟨stop, hstop, rfl, rfl⟩
                exact ⟨type.rest, name.rest, size.rest, ms.rest, binding.rest, place, rfl,
                  ⟨type, ht, rfl, rfl⟩, ⟨name, hn, rfl, rfl⟩, ⟨size, hsize, rfl, rfl⟩,
                  ⟨ms, hm, rfl, rfl⟩, ⟨binding, hb, rfl, rfl⟩, rfl, hend⟩
  · obtain ⟨name, type, change, size, ms, binding, description⟩ := c
    rintro ⟨a, b, d, e, f, stop, rfl, htype, hname, hsize, hms, hbinding, rfl, hend⟩
    obtain ⟨_, htype⟩ := htype.eq_ok
    obtain ⟨_, hname⟩ := hname.eq_ok
    obtain ⟨_, hsize⟩ := hsize.eq_ok
    obtain ⟨_, hms⟩ := hms.eq_ok
    obtain ⟨_, hbinding⟩ := hbinding.eq_ok
    obtain ⟨_, hstop⟩ := (reads_expectSymbol (u := ()).mpr ⟨stop, hend⟩).eq_ok
    simp only [htype, hname, hsize, hms, hbinding, hstop]
    exact reads_ok.mpr ⟨rfl, rfl⟩

theorem reads_extendsClause {clause : Extends Float} :
    Reads (extendsClause ts) clause rest ↔
      ∃ a stop, Reads (path ts) clause.base a ∧
        Reads (optionalModification a) clause.modifiers (⟨.symbol ';', stop⟩ :: rest) := by
  unfold extendsClause
  constructor
  · intro h
    split at h
    · simp at h
    · next base hb =>
      split at h
      · simp at h
      · next ms hm =>
        split at h
        · simp at h
        · next stop hs =>
          obtain ⟨rfl, rfl⟩ := reads_ok.mp h
          obtain ⟨place, hend⟩ := reads_expectSymbol.mp ⟨stop, hs, rfl, rfl⟩
          exact ⟨base.rest, place, ⟨base, hb, rfl, rfl⟩, ms, hm, rfl, hend⟩
  · obtain ⟨base, ms⟩ := clause
    rintro ⟨a, stop, hbase, hms⟩
    obtain ⟨_, hbase⟩ := hbase.eq_ok
    obtain ⟨_, hms⟩ := hms.eq_ok
    simp only [hbase, hms, expectSymbol_self]
    exact reads_ok.mpr ⟨rfl, rfl⟩

theorem reads_equation {e : Equation Float} :
    Reads (equation ts) e rest ↔
      ∃ sign more stop, Reads (expression ts) e.lhs (⟨.symbol '=', sign⟩ :: more) ∧
        Reads (expression more) e.rhs (⟨.symbol ';', stop⟩ :: rest) := by
  unfold equation
  constructor
  · intro h
    split at h
    · simp at h
    · next lhs hl =>
      split at h
      · simp at h
      · next sign hs =>
        obtain ⟨place, hmore⟩ := reads_expectSymbol.mp ⟨sign, hs, rfl, rfl⟩
        split at h
        · simp at h
        · next rhs hr =>
          split at h
          · simp at h
          · next stop hstop =>
            obtain ⟨rfl, rfl⟩ := reads_ok.mp h
            obtain ⟨place', hend⟩ := reads_expectSymbol.mp ⟨stop, hstop, rfl, rfl⟩
            exact ⟨place, sign.rest, place', ⟨lhs, hl, rfl, hmore⟩, rhs, hr, rfl, hend⟩
  · obtain ⟨lhs, rhs⟩ := e
    rintro ⟨sign, more, stop, hlhs, hrhs⟩
    obtain ⟨_, hlhs⟩ := hlhs.eq_ok
    obtain ⟨_, hrhs⟩ := hrhs.eq_ok
    simp only [hlhs, expectSymbol_self, Taken.leaving, hrhs]
    exact reads_ok.mpr ⟨rfl, rfl⟩

theorem reads_equations {es : List (Equation Float)} :
    Reads (equations ts) es rest ↔
      (endsSection ts = true ∧ es = [] ∧ ts = rest) ∨
        (endsSection ts = false ∧ ∃ e mid later, Reads (equation ts) e mid ∧
          Reads (equations mid) later rest ∧ es = e :: later) := by
  rw [equations]
  constructor
  · intro h
    split at h
    · next ends =>
      obtain ⟨rfl, rfl⟩ := reads_ok.mp h
      exact .inl ⟨ends, rfl, rfl⟩
    · next goes =>
      split at h
      · simp at h
      · next p hp =>
        split at h
        · simp at h
        · next q hq =>
          obtain ⟨rfl, rfl⟩ := reads_ok.mp h
          exact .inr ⟨by simpa using goes, p.value, p.rest, q.value, ⟨p, hp, rfl, rfl⟩,
            ⟨q, hq, rfl, rfl⟩, rfl⟩
  · rintro (⟨ends, rfl, rfl⟩ | ⟨goes, e, mid, later, he, hlater, rfl⟩)
    · rw [if_pos ends]
      exact reads_ok.mpr ⟨rfl, rfl⟩
    · obtain ⟨_, he⟩ := he.eq_ok
      obtain ⟨_, hlater⟩ := hlater.eq_ok
      simp only [goes, Bool.false_eq_true, if_false, he, hlater]
      exact reads_ok.mpr ⟨rfl, rfl⟩

/-! ## Classes -/

theorem reads_classKind {kind : ClassKind} :
    Reads (classKind ts) kind rest ↔
      ∃ w place, ts = ⟨.word w, place⟩ :: rest ∧ ClassKind.ofKeyword? w = some kind := by
  constructor
  · intro h
    unfold classKind at h
    split at h
    · split at h
      · next hk =>
        obtain ⟨rfl, rfl⟩ := reads_ok.mp h
        exact ⟨_, _, rfl, hk⟩
      · simp at h
    · simp at h
  · rintro ⟨w, place, rfl, hk⟩
    unfold classKind
    simp only [hk]
    exact reads_ok.mpr ⟨rfl, rfl⟩

theorem reads_closing {name : String} {u : Unit} :
    Reads (closing name ts) u rest ↔
      ∃ place stop, ts = ⟨.word name, place⟩ :: ⟨.symbol ';', stop⟩ :: rest := by
  unfold closing
  constructor
  · intro h
    split at h
    · simp at h
    · next word hw =>
      obtain ⟨place, hts⟩ := reads_expectWord.mp ⟨word, hw, rfl, rfl⟩
      split at h
      · next same =>
        split at h
        · simp at h
        · next stop hs =>
          obtain ⟨-, rfl⟩ := reads_ok.mp h
          obtain ⟨place', hend⟩ := reads_expectSymbol.mp ⟨stop, hs, rfl, rfl⟩
          rw [same, hend] at hts
          exact ⟨place, place', hts⟩
      · simp at h
  · rintro ⟨place, stop, rfl⟩
    simp only [expectWord, Taken.leaving, if_true, expectSymbol_self]
    exact reads_ok.mpr ⟨rfl, rfl⟩

theorem of_visibility?_eq_some {p : Parsed Unit ts.length} (h : visibility? ts = some p) :
    ∃ w place, w ∈ ["public", "protected"] ∧ ts = ⟨.word w, place⟩ :: p.rest := by
  unfold visibility? at h
  rcases Option.or_eq_some_iff.mp (Option.orElse_eq_or ▸ h) with h | ⟨-, h⟩
  · obtain ⟨place, hts⟩ := of_afterWord?_eq_some h
    exact ⟨_, place, by simp, hts⟩
  · obtain ⟨place, hts⟩ := of_afterWord?_eq_some h
    exact ⟨_, place, by simp, hts⟩

theorem visibility?_self {w : String} (h : w ∈ ["public", "protected"]) (place : Position) :
    visibility? (⟨.word w, place⟩ :: ts) = some (.leaving () ts) := by
  unfold visibility?
  simp only [List.mem_cons, List.not_mem_nil, or_false] at h
  rcases h with rfl | rfl
  · rw [afterWord?_self]
    rfl
  · rw [afterWord?_of_ne (by decide), afterWord?_self]
    rfl

theorem visibility?_eq_none :
    visibility? ts = none ↔ afterWord? "public" ts = none ∧ afterWord? "protected" ts = none := by
  unfold visibility?
  rw [Option.orElse_eq_or, Option.or_eq_none_iff]

theorem reads_classDecl {c : ClassDecl Float} :
    Reads (classDecl ts) c rest ↔
      ∃ a b d, c.isPartial = (optionalWord "partial" ts).value ∧
        Reads (classKind (optionalWord "partial" ts).rest) c.kind a ∧
        Reads (expectWord a) c.name b ∧ c.description = (optionalDescription b).value ∧
        Reads (body c.name (optionalDescription b).rest) ⟨c.elements, c.equations⟩ d ∧
        Reads (closing c.name d) () rest := by
  rw [classDecl]
  constructor
  · intro h
    split at h
    · simp at h
    · next kind hk =>
      split at h
      · simp at h
      · next name hn =>
        simp only at h
        split at h
        · simp at h
        · next inner hi =>
          split at h
          · simp at h
          · next stop hs =>
            obtain ⟨rfl, rfl⟩ := reads_ok.mp h
            exact ⟨kind.rest, name.rest, inner.rest, rfl, ⟨kind, hk, rfl, rfl⟩,
              ⟨name, hn, rfl, rfl⟩, rfl, ⟨inner, hi, rfl, rfl⟩, stop, hs, rfl, rfl⟩
  · obtain ⟨name, kind, isPartial, description, elements, es⟩ := c
    rintro ⟨a, b, d, rfl, hkind, hname, rfl, hbody, hclosing⟩
    obtain ⟨_, hkind⟩ := hkind.eq_ok
    obtain ⟨_, hname⟩ := hname.eq_ok
    obtain ⟨_, hbody⟩ := hbody.eq_ok
    obtain ⟨_, hclosing⟩ := hclosing.eq_ok
    simp only [hkind, hname, hbody, hclosing]
    exact reads_ok.mpr ⟨rfl, rfl⟩

/-- The forms of the rest of a class, each with what it holds and what it leaves. -/
inductive BodyForm (name : String) : List Lexeme → Body → List Lexeme → Prop
  | ended (place rest) : BodyForm name (⟨.word "end", place⟩ :: rest) ⟨[], []⟩ rest
  | visibility {w place more b rest} (word : w ∈ ["public", "protected"])
    (later : Reads (body name more) b rest) : BodyForm name (⟨.word w, place⟩ :: more) b rest
  | equations {place more es mid b rest} (inner : Reads (equations more) es mid)
    (later : Reads (body name mid) b rest) :
    BodyForm name (⟨.word "equation", place⟩ :: more) { b with equations := es ++ b.equations }
      rest
  | element {ts e mid b rest} (goes : afterWord? "end" ts = none) (bare : visibility? ts = none)
    (other : afterWord? "equation" ts = none) (first : Reads (element ts) e mid)
    (later : Reads (body name mid) b rest) :
    BodyForm name ts { b with elements := e :: b.elements } rest

theorem reads_body {name : String} {b : Body} :
    Reads (body name ts) b rest ↔ BodyForm name ts b rest := by
  rw [body]
  constructor
  · intro h
    split at h
    · next stop hs =>
      obtain ⟨rfl, rfl⟩ := reads_ok.mp h
      obtain ⟨place, hts⟩ := of_afterWord?_eq_some hs
      have form : BodyForm name (⟨.word "end", place⟩ :: stop.rest) ⟨[], []⟩ stop.rest :=
        .ended _ _
      rw [← hts] at form
      exact form
    · next goes =>
      split at h
      · simp at h
      · split at h
        · next word hw =>
          obtain ⟨w, place, hmem, hts⟩ := of_visibility?_eq_some hw
          split at h
          · simp at h
          · next p hp =>
            obtain ⟨rfl, rfl⟩ := reads_ok.mp h
            have form : BodyForm name (⟨.word w, place⟩ :: word.rest) p.value p.rest :=
              .visibility hmem ⟨p, hp, rfl, rfl⟩
            rw [← hts] at form
            exact form
        · next bare =>
          split at h
          · next word hw =>
            obtain ⟨place, hts⟩ := of_afterWord?_eq_some hw
            split at h
            · simp at h
            · next p hp =>
              split at h
              · simp at h
              · next q hq =>
                obtain ⟨rfl, rfl⟩ := reads_ok.mp h
                have form : BodyForm name (⟨.word "equation", place⟩ :: word.rest)
                    { q.value with equations := p.value ++ q.value.equations } q.rest :=
                  .equations ⟨p, hp, rfl, rfl⟩ ⟨q, hq, rfl, rfl⟩
                rw [← hts] at form
                exact form
          · next other =>
            split at h
            · simp at h
            · next p hp =>
              split at h
              · simp at h
              · next q hq =>
                obtain ⟨rfl, rfl⟩ := reads_ok.mp h
                exact .element goes bare other ⟨p, hp, rfl, rfl⟩ ⟨q, hq, rfl, rfl⟩
  · intro h
    cases h with
    | ended place =>
      simp only [afterWord?_self]
      exact reads_ok.mpr ⟨rfl, rfl⟩
    | visibility word later =>
      obtain ⟨_, later⟩ := later.eq_ok
      have goes : "end" ∉ ["public", "protected"] := by decide
      simp only [afterWord?_of_ne (ne_of_mem_of_not_mem word goes), List.isEmpty_cons,
        Bool.false_eq_true, if_false, visibility?_self word, Taken.leaving, later]
      exact reads_ok.mpr ⟨rfl, rfl⟩
    | equations inner later =>
      obtain ⟨_, inner⟩ := inner.eq_ok
      obtain ⟨_, later⟩ := later.eq_ok
      have bare (place : Position) (more : List Lexeme) :
          visibility? (⟨.word "equation", place⟩ :: more) = none := by
        unfold visibility?
        rw [afterWord?_of_ne (by decide), afterWord?_of_ne (by decide)]
        rfl
      simp only [afterWord?_of_ne (show "equation" ≠ "end" by decide), List.isEmpty_cons,
        Bool.false_eq_true, if_false, bare, afterWord?_self, Taken.leaving, inner, later]
      exact reads_ok.mpr ⟨rfl, rfl⟩
    | element goes bare other first later =>
      have filled : ts.isEmpty = false := by
        have := first.shorter
        cases ts with
        | nil => simp at this
        | cons => rfl
      obtain ⟨_, first⟩ := first.eq_ok
      obtain ⟨_, later⟩ := later.eq_ok
      simp only [goes, filled, Bool.false_eq_true, if_false, bare, other, first, later]
      exact reads_ok.mpr ⟨rfl, rfl⟩

/-- The forms of an element. -/
inductive ElementForm : List Lexeme → Element Float → List Lexeme → Prop
  | inherit {place more clause rest} (inner : Reads (extendsClause more) clause rest) :
    ElementForm (⟨.word "extends", place⟩ :: more) (.inherit clause) rest
  | nested {ts decl rest} (other : afterWord? "extends" ts = none) (starts : startsClass ts = true)
    (inner : Reads (classDecl ts) decl rest) : ElementForm ts (.nested decl) rest
  | component {ts decl rest} (other : afterWord? "extends" ts = none)
    (plain : startsClass ts = false) (inner : Reads (component ts) decl rest) :
    ElementForm ts (.component decl) rest

theorem reads_element {e : Element Float} :
    Reads (element ts) e rest ↔ ElementForm ts e rest := by
  rw [element]
  constructor
  · intro h
    split at h
    · next word hw =>
      obtain ⟨place, hts⟩ := of_afterWord?_eq_some hw
      split at h
      · simp at h
      · next p hp =>
        obtain ⟨rfl, rfl⟩ := reads_ok.mp h
        have form : ElementForm (⟨.word "extends", place⟩ :: word.rest) (.inherit p.value)
            p.rest := .inherit ⟨p, hp, rfl, rfl⟩
        rw [← hts] at form
        exact form
    · next other =>
      split at h
      · next starts =>
        split at h
        · simp at h
        · next p hp =>
          obtain ⟨rfl, rfl⟩ := reads_ok.mp h
          exact .nested other starts ⟨p, hp, rfl, rfl⟩
      · next plain =>
        split at h
        · simp at h
        · next p hp =>
          obtain ⟨rfl, rfl⟩ := reads_ok.mp h
          exact .component other (by simpa using plain) ⟨p, hp, rfl, rfl⟩
  · intro h
    cases h with
    | inherit inner =>
      obtain ⟨_, inner⟩ := inner.eq_ok
      simp only [afterWord?_self, Taken.leaving, inner]
      exact reads_ok.mpr ⟨rfl, rfl⟩
    | nested other starts inner =>
      obtain ⟨_, inner⟩ := inner.eq_ok
      simp only [other, starts, if_true, inner]
      exact reads_ok.mpr ⟨rfl, rfl⟩
    | component other plain inner =>
      obtain ⟨_, inner⟩ := inner.eq_ok
      simp only [other, plain, Bool.false_eq_true, if_false, inner]
      exact reads_ok.mpr ⟨rfl, rfl⟩

/-! ## Source texts -/

theorem classes_eq_ok {cs : List (ClassDecl Float)} :
    classes ts = .ok cs ↔
      (ts = [] ∧ cs = []) ∨ ∃ c mid more, Reads (classDecl ts) c mid ∧ classes mid = .ok more ∧
        cs = c :: more := by
  rw [classes]
  constructor
  · intro h
    split at h
    · next none =>
      cases h
      exact .inl ⟨List.isEmpty_iff.mp none, rfl⟩
    · split at h
      · contradiction
      · next p hp =>
        split at h
        · contradiction
        · next more hmore =>
          cases h
          exact .inr ⟨p.value, p.rest, more, ⟨p, hp, rfl, rfl⟩, hmore, rfl⟩
  · rintro (⟨rfl, rfl⟩ | ⟨c, mid, more, hc, hmore, rfl⟩)
    · rfl
    · have filled : ts.isEmpty = false := by
        have := hc.shorter
        cases ts with
        | nil => simp at this
        | cons => rfl
      obtain ⟨_, hc⟩ := hc.eq_ok
      simp only [filled, Bool.false_eq_true, if_false, hc, hmore]

theorem reads_withinClause {u : Unit} :
    Reads (withinClause ts) u rest ↔
      (∃ place, ts = ⟨.symbol ';', place⟩ :: rest) ∨
        (afterSymbol? ';' ts = none ∧
          ∃ name stop, Reads (path ts) name (⟨.symbol ';', stop⟩ :: rest)) := by
  unfold withinClause
  constructor
  · intro h
    split at h
    · next stop hs =>
      obtain ⟨-, rfl⟩ := reads_ok.mp h
      exact .inl (of_afterSymbol?_eq_some hs)
    · next bare =>
      split at h
      · simp at h
      · next p hp =>
        split at h
        · simp at h
        · next stop hs =>
          obtain ⟨-, rfl⟩ := reads_ok.mp h
          obtain ⟨place, hend⟩ := reads_expectSymbol.mp ⟨stop, hs, rfl, rfl⟩
          exact .inr ⟨bare, p.value, place, p, hp, rfl, hend⟩
  · rintro (⟨place, rfl⟩ | ⟨bare, name, stop, hname⟩)
    · simp only [afterSymbol?_self]
      exact reads_ok.mpr ⟨rfl, rfl⟩
    · obtain ⟨_, hname⟩ := hname.eq_ok
      simp only [bare, hname, expectSymbol_self]
      exact reads_ok.mpr ⟨rfl, rfl⟩

theorem sourceClasses_eq_ok {cs : List (ClassDecl Float)} :
    sourceClasses ts = .ok cs ↔
      (afterWord? "within" ts = none ∧ classes ts = .ok cs) ∨
        ∃ place more mid, ts = ⟨.word "within", place⟩ :: more ∧
          Reads (withinClause more) () mid ∧ classes mid = .ok cs := by
  unfold sourceClasses
  constructor
  · intro h
    split at h
    · next bare => exact .inl ⟨bare, h⟩
    · next word hword =>
      obtain ⟨place, hts⟩ := of_afterWord?_eq_some hword
      split at h
      · contradiction
      · next p hp => exact .inr ⟨place, word.rest, p.rest, hts, ⟨p, hp, rfl, rfl⟩, h⟩
  · rintro (⟨bare, h⟩ | ⟨place, more, mid, rfl, hclause, h⟩)
    · rw [bare]
      exact h
    · obtain ⟨_, hclause⟩ := hclause.eq_ok
      simp only [afterWord?_self, Taken.leaving, hclause]
      exact h

theorem parseSource_eq_ok {path text : String} {file : SourceFile Float} :
    parseSource path text = .ok file ↔
      ∃ found, lexemes text.toList = .ok found ∧ sourceClasses found.list = .ok file.classes ∧
        file.path = path := by
  unfold parseSource
  constructor
  · intro h
    split at h
    · contradiction
    · next found hfound =>
      split at h
      · contradiction
      · next cs hcs =>
        cases h
        exact ⟨found, hfound, hcs, rfl⟩
  · obtain ⟨path', cs⟩ := file
    rintro ⟨found, hfound, hcs, rfl⟩
    simp only [hfound, hcs]

end Acausal

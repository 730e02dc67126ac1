-- The laws of the grammar of expressions, one for each reader: what it reads is made of what its
-- parts read. Together they are the grammar as a relation, with grouping and signs written out.
import Acausal.Proofs.Readings

namespace Acausal

variable {ts rest : List Lexeme} {v left : Expr Float}

theorem reads_derivative :
    Reads (derivative ts) v rest ↔
      ∃ p more r q, ts = ⟨.symbol '(', p⟩ :: more ∧
        Reads (reference more) r (⟨.symbol ')', q⟩ :: rest) ∧ .der r = v := by
  unfold derivative
  constructor
  · intro h
    split at h
    · simp at h
    · next p hp =>
      split at h
      · simp at h
      · next r hr =>
        split at h
        · simp at h
        · next q hq =>
          obtain ⟨rfl, rfl⟩ := reads_ok.mp h
          obtain ⟨i, hi⟩ := reads_expectSymbol.mp ⟨p, hp, rfl, rfl⟩
          obtain ⟨j, hj⟩ := reads_expectSymbol.mp ⟨q, hq, rfl, rfl⟩
          exact ⟨i, p.rest, r.value, j, hi, ⟨r, hr, rfl, hj⟩, rfl⟩
  · rintro ⟨i, more, r, j, rfl, hr, rfl⟩
    obtain ⟨_, hr⟩ := hr.eq_ok
    simp only [expectSymbol_self, Taken.leaving, hr]
    exact reads_ok.mpr ⟨rfl, rfl⟩

/-! ## Sums and products -/

theorem reads_expression :
    Reads (expression ts) v rest ↔
      ∃ a mid, Reads (product ts) a mid ∧ Reads (sumTail a mid) v rest := by
  rw [expression]
  constructor
  · intro h
    split at h
    · simp at h
    · next p hp =>
      split at h
      · simp at h
      · next q hq =>
        obtain ⟨rfl, rfl⟩ := reads_ok.mp h
        exact ⟨p.value, p.rest, ⟨p, hp, rfl, rfl⟩, q, hq, rfl, rfl⟩
  · rintro ⟨a, mid, ⟨p, hp, rfl, rfl⟩, q, hq, rfl, rfl⟩
    simp only [hp, hq]
    exact reads_ok.mpr ⟨rfl, rfl⟩

theorem reads_sumTail :
    Reads (sumTail left ts) v rest ↔
      (operator? sumOperator? ts = none ∧ left = v ∧ ts = rest) ∨
        ∃ c place more op a mid, ts = ⟨.symbol c, place⟩ :: more ∧ sumOperator? c = some op ∧
          Reads (product more) a mid ∧ Reads (sumTail (.binary left op a) mid) v rest := by
  rw [sumTail]
  constructor
  · intro h
    split at h
    · next hop => exact .inl ⟨hop, reads_ok.mp h⟩
    · next op hop =>
      obtain ⟨c, place, hts, hc⟩ := of_operator?_eq_some hop
      split at h
      · simp at h
      · next p hp =>
        split at h
        · simp at h
        · next q hq =>
          obtain ⟨rfl, rfl⟩ := reads_ok.mp h
          exact .inr ⟨c, place, op.rest, op.value, p.value, p.rest, hts, hc, ⟨p, hp, rfl, rfl⟩,
            q, hq, rfl, rfl⟩
  · rintro (⟨hop, rfl, rfl⟩ | ⟨c, place, more, op, a, mid, rfl, hc, hp, hq⟩)
    · simp only [hop]
      exact reads_ok.mpr ⟨rfl, rfl⟩
    · obtain ⟨_, hp⟩ := hp.eq_ok
      obtain ⟨_, hq⟩ := hq.eq_ok
      simp only [operator?, hc, Option.map_some, Taken.leaving, hp, hq]
      exact reads_ok.mpr ⟨rfl, rfl⟩

theorem reads_product :
    Reads (product ts) v rest ↔
      ∃ a mid, Reads (signed ts) a mid ∧ Reads (productTail a mid) v rest := by
  rw [product]
  constructor
  · intro h
    split at h
    · simp at h
    · next p hp =>
      split at h
      · simp at h
      · next q hq =>
        obtain ⟨rfl, rfl⟩ := reads_ok.mp h
        exact ⟨p.value, p.rest, ⟨p, hp, rfl, rfl⟩, q, hq, rfl, rfl⟩
  · rintro ⟨a, mid, ⟨p, hp, rfl, rfl⟩, q, hq, rfl, rfl⟩
    simp only [hp, hq]
    exact reads_ok.mpr ⟨rfl, rfl⟩

theorem reads_productTail :
    Reads (productTail left ts) v rest ↔
      (operator? productOperator? ts = none ∧ left = v ∧ ts = rest) ∨
        ∃ c place more op a mid, ts = ⟨.symbol c, place⟩ :: more ∧
          productOperator? c = some op ∧ Reads (signed more) a mid ∧
          Reads (productTail (.binary left op a) mid) v rest := by
  rw [productTail]
  constructor
  · intro h
    split at h
    · next hop => exact .inl ⟨hop, reads_ok.mp h⟩
    · next op hop =>
      obtain ⟨c, place, hts, hc⟩ := of_operator?_eq_some hop
      split at h
      · simp at h
      · next p hp =>
        split at h
        · simp at h
        · next q hq =>
          obtain ⟨rfl, rfl⟩ := reads_ok.mp h
          exact .inr ⟨c, place, op.rest, op.value, p.value, p.rest, hts, hc, ⟨p, hp, rfl, rfl⟩,
            q, hq, rfl, rfl⟩
  · rintro (⟨hop, rfl, rfl⟩ | ⟨c, place, more, op, a, mid, rfl, hc, hp, hq⟩)
    · simp only [hop]
      exact reads_ok.mpr ⟨rfl, rfl⟩
    · obtain ⟨_, hp⟩ := hp.eq_ok
      obtain ⟨_, hq⟩ := hq.eq_ok
      simp only [operator?, hc, Option.map_some, Taken.leaving, hp, hq]
      exact reads_ok.mpr ⟨rfl, rfl⟩

/-! ## Signs and powers -/

theorem reads_signed :
    Reads (signed ts) v rest ↔
      (∃ place more a, ts = ⟨.symbol '-', place⟩ :: more ∧ Reads (signed more) a rest ∧
        negated a = v) ∨
      (∃ place more, ts = ⟨.symbol '+', place⟩ :: more ∧ Reads (signed more) v rest) ∨
      (afterSymbol? '-' ts = none ∧ afterSymbol? '+' ts = none ∧ Reads (power ts) v rest) := by
  rw [signed]
  constructor
  · intro h
    split at h
    · next sign hs =>
      obtain ⟨place, hts⟩ := of_afterSymbol?_eq_some hs
      split at h
      · simp at h
      · next p hp =>
        obtain ⟨rfl, rfl⟩ := reads_ok.mp h
        exact .inl ⟨place, sign.rest, p.value, hts, ⟨p, hp, rfl, rfl⟩, rfl⟩
    · next hm =>
      split at h
      · next sign hs =>
        obtain ⟨place, hts⟩ := of_afterSymbol?_eq_some hs
        split at h
        · simp at h
        · next p hp =>
          obtain ⟨rfl, rfl⟩ := reads_ok.mp h
          exact .inr (.inl ⟨place, sign.rest, hts, p, hp, rfl, rfl⟩)
      · next hp => exact .inr (.inr ⟨hm, hp, h⟩)
  · rintro (⟨place, more, a, rfl, hp, rfl⟩ | ⟨place, more, rfl, hp⟩ | ⟨hm, hp, h⟩)
    · obtain ⟨_, hp⟩ := hp.eq_ok
      simp only [afterSymbol?_self, Taken.leaving, hp]
      exact reads_ok.mpr ⟨rfl, rfl⟩
    · obtain ⟨_, hp⟩ := hp.eq_ok
      simp only [afterSymbol?_of_ne (show '+' ≠ '-' by decide), afterSymbol?_self, Taken.leaving,
        hp]
      exact reads_ok.mpr ⟨rfl, rfl⟩
    · simp only [hm, hp]
      exact h

theorem reads_power :
    Reads (power ts) v rest ↔
      ∃ a mid, Reads (operand ts) a mid ∧
        ((afterSymbol? '^' mid = none ∧ a = v ∧ mid = rest) ∨
          ∃ place more b, mid = ⟨.symbol '^', place⟩ :: more ∧ Reads (signed more) b rest ∧
            .binary a .pow b = v) := by
  rw [power]
  constructor
  · intro h
    split at h
    · simp at h
    · next p hp =>
      split at h
      · next hs => exact ⟨p.value, p.rest, ⟨p, hp, rfl, rfl⟩, .inl ⟨hs, reads_ok.mp h⟩⟩
      · next caret hs =>
        obtain ⟨place, hmid⟩ := of_afterSymbol?_eq_some hs
        split at h
        · simp at h
        · next q hq =>
          obtain ⟨rfl, rfl⟩ := reads_ok.mp h
          exact ⟨p.value, p.rest, ⟨p, hp, rfl, rfl⟩,
            .inr ⟨place, caret.rest, q.value, hmid, ⟨q, hq, rfl, rfl⟩, rfl⟩⟩
  · rintro ⟨a, mid, ha, ⟨hs, rfl, rfl⟩ | ⟨place, more, b, rfl, hb, rfl⟩⟩
    · obtain ⟨_, ha⟩ := ha.eq_ok
      simp only [ha, hs]
      exact reads_ok.mpr ⟨rfl, rfl⟩
    · obtain ⟨_, ha⟩ := ha.eq_ok
      obtain ⟨_, hb⟩ := hb.eq_ok
      simp only [ha, afterSymbol?_self, Taken.leaving, hb]
      exact reads_ok.mpr ⟨rfl, rfl⟩

/-! ## Operands -/

/-- The words that are operands by themselves or start one of their own form. -/
def operandKeywords : List String := ["time", "true", "false", "der"]

/-- The forms of an operand, each with what it stands for and what it leaves. -/
inductive OperandForm : List Lexeme → Expr Float → List Lexeme → Prop
  | number (x place rest) : OperandForm (⟨.number x, place⟩ :: rest) (.number x) rest
  | enclosed {place more v q rest} (inner : Reads (expression more) v (⟨.symbol ')', q⟩ :: rest)) :
    OperandForm (⟨.symbol '(', place⟩ :: more) v rest
  | time (place rest) : OperandForm (⟨.word "time", place⟩ :: rest) .time rest
  | yes (place rest) : OperandForm (⟨.word "true", place⟩ :: rest) (.number 1.0) rest
  | no (place rest) : OperandForm (⟨.word "false", place⟩ :: rest) (.number 0.0) rest
  | derivative {place more v rest} (inner : Reads (derivative more) v rest) :
    OperandForm (⟨.word "der", place⟩ :: more) v rest
  | reference {w place more r rest} (word : w ∉ operandKeywords)
    (inner : Reads (reference (⟨.word w, place⟩ :: more)) r rest)
    (alone : r.index = none → afterSymbol? '(' rest = none) :
    OperandForm (⟨.word w, place⟩ :: more) (.ref r) rest
  | call {w place more name p inner args rest} (word : w ∉ operandKeywords)
    (function : Reads (reference (⟨.word w, place⟩ :: more)) ⟨name, none⟩
      (⟨.symbol '(', p⟩ :: inner))
    (arguments : Reads (callArguments inner) args rest) :
    OperandForm (⟨.word w, place⟩ :: more) (.call name args) rest

theorem operandForm_of_reads (h : Reads (operand ts) v rest) : OperandForm ts v rest := by
  rw [operand.eq_def] at h
  split at h
  · obtain ⟨rfl, rfl⟩ := reads_ok.mp h
    exact .number _ _ _
  · split at h
    · simp at h
    · next p hp =>
      split at h
      · simp at h
      · next q hq =>
        obtain ⟨rfl, rfl⟩ := reads_ok.mp h
        obtain ⟨j, hj⟩ := reads_expectSymbol.mp ⟨q, hq, rfl, rfl⟩
        exact .enclosed ⟨p, hp, rfl, hj⟩
  · obtain ⟨rfl, rfl⟩ := reads_ok.mp h
    exact .time _ _
  · obtain ⟨rfl, rfl⟩ := reads_ok.mp h
    exact .yes _ _
  · obtain ⟨rfl, rfl⟩ := reads_ok.mp h
    exact .no _ _
  · split at h
    · simp at h
    · next p hp =>
      obtain ⟨rfl, rfl⟩ := reads_ok.mp h
      exact .derivative ⟨p, hp, rfl, rfl⟩
  · next w place more _ _ _ _ =>
    have hw : w ∉ operandKeywords := by simp_all [operandKeywords]
    split at h
    · simp at h
    · next p hp =>
      split at h
      · next opening hindex hopen =>
        obtain ⟨j, hj⟩ := of_afterSymbol?_eq_some hopen
        split at h
        · simp at h
        · next q hq =>
          obtain ⟨rfl, rfl⟩ := reads_ok.mp h
          refine .call (p := j) hw ⟨p, hp, ?_, hj⟩ ⟨q, hq, rfl, rfl⟩
          rw [← hindex]
      · next halone =>
        obtain ⟨rfl, rfl⟩ := reads_ok.mp h
        refine .reference hw ⟨p, hp, rfl, rfl⟩ fun hnone => ?_
        cases hopen : afterSymbol? '(' p.rest with
        | none => exact hopen
        | some opening => exact absurd hopen (halone opening hnone)
  · simp at h

theorem reads_of_operandForm (h : OperandForm ts v rest) : Reads (operand ts) v rest := by
  cases h with
  | number x place =>
    rw [operand]
    exact reads_ok.mpr ⟨rfl, rfl⟩
  | enclosed inner =>
    obtain ⟨_, hp⟩ := inner.eq_ok
    rw [operand]
    simp only [hp, expectSymbol_self]
    exact reads_ok.mpr ⟨rfl, rfl⟩
  | time place =>
    rw [operand]
    exact reads_ok.mpr ⟨rfl, rfl⟩
  | yes place =>
    rw [operand]
    exact reads_ok.mpr ⟨rfl, rfl⟩
  | no place =>
    rw [operand]
    exact reads_ok.mpr ⟨rfl, rfl⟩
  | derivative inner =>
    obtain ⟨_, hp⟩ := inner.eq_ok
    rw [operand]
    simp only [hp]
    exact reads_ok.mpr ⟨rfl, rfl⟩
  | reference word inner alone =>
    obtain ⟨_, hp⟩ := inner.eq_ok
    simp only [operandKeywords, List.mem_cons, List.not_mem_nil, not_or] at word
    rw [operand]
    · simp only [hp]
      split
      · next opening hindex hopen => simp [alone hindex] at hopen
      · exact reads_ok.mpr ⟨rfl, rfl⟩
    all_goals simp_all
  | call word function arguments =>
    obtain ⟨_, hp⟩ := function.eq_ok
    obtain ⟨_, hq⟩ := arguments.eq_ok
    simp only [operandKeywords, List.mem_cons, List.not_mem_nil, not_or] at word
    rw [operand]
    · simp only [hp, afterSymbol?_self, Taken.leaving, hq]
      exact reads_ok.mpr ⟨rfl, rfl⟩
    all_goals simp_all

theorem reads_operand : Reads (operand ts) v rest ↔ OperandForm ts v rest :=
  ⟨operandForm_of_reads, reads_of_operandForm⟩

/-! ## Arguments -/

variable {args : List (Expr Float)}

theorem reads_callArguments :
    Reads (callArguments ts) args rest ↔
      (∃ place, ts = ⟨.symbol ')', place⟩ :: rest ∧ args = []) ∨
        (afterSymbol? ')' ts = none ∧ Reads (arguments ts) args rest) := by
  rw [callArguments]
  constructor
  · intro h
    split at h
    · next closing hs =>
      obtain ⟨place, hts⟩ := of_afterSymbol?_eq_some hs
      obtain ⟨rfl, rfl⟩ := reads_ok.mp h
      exact .inl ⟨place, hts, rfl⟩
    · next hs => exact .inr ⟨hs, h⟩
  · rintro (⟨place, rfl, rfl⟩ | ⟨hs, h⟩)
    · simp only [afterSymbol?_self]
      exact reads_ok.mpr ⟨rfl, rfl⟩
    · simp only [hs]
      exact h

theorem reads_arguments :
    Reads (arguments ts) args rest ↔
      ∃ a mid, Reads (expression ts) a mid ∧
        ((∃ place, mid = ⟨.symbol ')', place⟩ :: rest ∧ args = [a]) ∨
          ∃ place more as, mid = ⟨.symbol ',', place⟩ :: more ∧ Reads (arguments more) as rest ∧
            args = a :: as) := by
  rw [arguments]
  constructor
  · intro h
    split at h
    · simp at h
    · next p hp =>
      split at h
      · next closing hs =>
        obtain ⟨place, hmid⟩ := of_afterSymbol?_eq_some hs
        obtain ⟨rfl, rfl⟩ := reads_ok.mp h
        exact ⟨p.value, p.rest, ⟨p, hp, rfl, rfl⟩, .inl ⟨place, hmid, rfl⟩⟩
      · split at h
        · simp at h
        · next comma hc =>
          obtain ⟨place, hmid⟩ := reads_expectSymbol.mp ⟨comma, hc, rfl, rfl⟩
          split at h
          · simp at h
          · next q hq =>
            obtain ⟨rfl, rfl⟩ := reads_ok.mp h
            exact ⟨p.value, p.rest, ⟨p, hp, rfl, rfl⟩,
              .inr ⟨place, comma.rest, q.value, hmid, ⟨q, hq, rfl, rfl⟩, rfl⟩⟩
  · rintro ⟨a, mid, ha, ⟨place, rfl, rfl⟩ | ⟨place, more, as, rfl, has, rfl⟩⟩
    · obtain ⟨_, ha⟩ := ha.eq_ok
      simp only [ha, afterSymbol?_self]
      exact reads_ok.mpr ⟨rfl, rfl⟩
    · obtain ⟨_, ha⟩ := ha.eq_ok
      obtain ⟨_, has⟩ := has.eq_ok
      simp only [ha, afterSymbol?_of_ne (show ',' ≠ ')' by decide), expectSymbol_self,
        Taken.leaving, has]
      exact reads_ok.mpr ⟨rfl, rfl⟩

end Acausal

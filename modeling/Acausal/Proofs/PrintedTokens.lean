-- The tokens of a printed expression. They follow the text piece by piece: names fall apart at
-- their dots, a literal with a sign is two tokens, and the text of an expression whose numbers
-- read back is cut into exactly these tokens.
import Acausal.Expr.Text
import Acausal.Proofs.Lexing
import Acausal.Proofs.NumberTexts
import Acausal.Proofs.Regrouping

namespace Acausal

/-! ## Tokens -/

/-- The tokens of a dotted name. -/
def nameTokens (name : String) : List Token :=
  match segments name with
  | [] => []
  | first :: more => .word first :: more.flatMap fun w => [.symbol '.', .word w]

/-- The tokens of a subscript. -/
def indexTokens : Option Nat → List Token
  | none => []
  | some k => [.symbol '[', .number (nearestDouble k 0), .symbol ']']

/-- The tokens of a component with its subscript. -/
def refTokens (r : Ref) : List Token := nameTokens r.name ++ indexTokens r.index

/-- Parentheses around tokens whose strength is below the one their place asks for. -/
def enclosedTokens (strength least : Nat) (ts : List Token) : List Token :=
  if strength < least then .symbol '(' :: (ts ++ [.symbol ')']) else ts

/-- The character of an operator. -/
def Operator.character : Operator → Char
  | add => '+'
  | sub => '-'
  | mul => '*'
  | div => '/'
  | pow => '^'

namespace Expr

mutual
/-- The tokens of the text of an expression. -/
def tokens : Expr Float → List Token
  | number x => if signBit x then [.symbol '-', .number (-x)] else [.number x]
  | ref r => refTokens r
  | time => [.word "time"]
  | binary lhs op rhs =>
    enclosedTokens lhs.strength op.strength (tokens lhs) ++
      .symbol op.character :: enclosedTokens rhs.strength (op.strength + 1) (tokens rhs)
  | neg operand => .symbol '-' :: enclosedTokens operand.strength 4 (tokens operand)
  | call function args =>
    nameTokens function ++
      .symbol '(' :: ([.symbol ','].intercalate (tokensAll args) ++ [.symbol ')'])
  | der r => .word "der" :: .symbol '(' :: (refTokens r ++ [.symbol ')'])

/-- The tokens of the texts of a list of expressions. -/
def tokensAll : List (Expr Float) → List (List Token)
  | [] => []
  | e :: es => tokens e :: tokensAll es
end

end Expr

/-! ## Texts and their tokens -/

/-- A text that is cut into given tokens in front of anything that is apart from it. -/
def Spells (text : List Char) (ts : List Token) : Prop :=
  ∀ ⦃rest later⦄, Delimited rest → Lexes rest later → Lexes (text ++ rest) (ts ++ later)

theorem delimited_cons {c : Char} {rest : List Char} (word : continuesWord c = false)
    (point : c ≠ '.') : Delimited (c :: rest) := by
  refine ⟨?_, ?_⟩
  · rintro d ⟨⟩
    exact word
  · rintro d ⟨⟩
    exact point

theorem delimited_nil : Delimited [] := by
  refine ⟨?_, ?_⟩
  · intro d hd
    cases hd
  · intro d hd
    cases hd

theorem spells_word {w : String} (word : IsWord w) : Spells w.toList [.word w] := by
  intro rest later ends next
  exact lexes_word word ends.1 next

theorem Spells.enclosed {text : String} {ts : List Token} (h : Spells text.toList ts)
    (strength least : Nat) :
    Spells (Expr.enclosed strength least text).toList (enclosedTokens strength least ts) := by
  unfold Expr.enclosed enclosedTokens
  split
  · intro rest later ends next
    have closing : Lexes (')' :: rest) (.symbol ')' :: later) :=
      lexes_mark (by decide) next
    have inner := h (delimited_cons (by decide) (by decide)) closing
    have opening := lexes_mark (c := '(') (by decide) inner
    simpa using opening
  · exact h

theorem lexes_operator (op : Operator) {rest : List Char} {later : List Token}
    (next : Lexes rest later) :
    Lexes (' ' :: (op.symbol.toList ++ ' ' :: rest)) (.symbol op.character :: later) := by
  apply lexes_blank
  cases op with
  | div => exact lexes_slash next
  | add => exact lexes_mark (c := '+') (by decide) (lexes_blank next)
  | sub => exact lexes_mark (c := '-') (by decide) (lexes_blank next)
  | mul => exact lexes_mark (c := '*') (by decide) (lexes_blank next)
  | pow => exact lexes_mark (c := '^') (by decide) (lexes_blank next)

/-! ## Names -/

/-- The characters behind the first segment of a dotted name. -/
def dottedTail (more : List String) : List Char := more.flatMap fun w => '.' :: w.toList

theorem dottedFrom_toList (first : String) (more : List String) :
    (dottedFrom first more).toList = first.toList ++ dottedTail more := by
  unfold dottedFrom dottedTail
  induction more generalizing first with
  | nil => simp
  | cons w more ih =>
    rw [List.foldl_cons, ih]
    simp

/-- A name that is read segment by segment is its segments joined. -/
theorem dottedFrom_eq (first : String) (more : List String) :
    dottedFrom first more = dotted (first :: more) := by
  rw [← String.toList_inj, dottedFrom_toList, dotted, String.toList_intercalate]
  induction more generalizing first with
  | nil => simp [dottedTail]
  | cons w more ih =>
    rw [List.map_cons, List.map_cons, List.intercalate_cons_cons, ← List.map_cons, ← ih w]
    simp [dottedTail]

theorem segments_dottedFrom {first : String} {more : List String} (word : IsWord first)
    (words : ∀ w ∈ more, IsWord w) : segments (dottedFrom first more) = first :: more := by
  rw [dottedFrom_eq]
  exact segments_dotted (List.cons_ne_nil first more) fun w hw =>
    (List.forall_mem_cons.mpr ⟨word, words⟩ w hw).not_mem (by decide)

theorem nameTokens_dottedFrom {first : String} {more : List String} (word : IsWord first)
    (words : ∀ w ∈ more, IsWord w) :
    nameTokens (dottedFrom first more) =
      .word first :: more.flatMap fun w => [.symbol '.', .word w] := by
  unfold nameTokens
  rw [segments_dottedFrom word words]

theorem lexes_dottedTail {more : List String} (words : ∀ w ∈ more, IsWord w) {rest : List Char}
    {later : List Token} (ends : Delimited rest) (next : Lexes rest later) :
    WordEnds (dottedTail more ++ rest) ∧
      Lexes (dottedTail more ++ rest)
        ((more.flatMap fun w => [.symbol '.', .word w]) ++ later) := by
  induction more with
  | nil => exact ⟨ends.1, next⟩
  | cons w more ih =>
    obtain ⟨apart, tail⟩ := ih fun u hu => words u (by simp [hu])
    have word := words w (by simp)
    obtain ⟨c, chars, hw, hc, -⟩ := id word
    have segment := lexes_word word apart tail
    have point := lexes_symbol (c := '.') (by decide) (by decide)
      (fun _ d hd => by
        rw [hw] at hd
        cases hd
        exact not_isDigit_of_startsWord hc) segment
    refine ⟨?_, by simpa [dottedTail] using point⟩
    rintro d ⟨⟩
    decide

theorem spells_name {first name : String} (h : SpelledFrom first name) :
    Spells name.toList (nameTokens name) := by
  obtain ⟨word, more, words, rfl⟩ := h
  intro rest later ends next
  obtain ⟨apart, tail⟩ := lexes_dottedTail words ends next
  rw [dottedFrom_toList, nameTokens_dottedFrom word words, List.append_assoc]
  exact lexes_word word apart tail

theorem spells_ref {first : String} {r : Ref} (h : WrittenRef first r) :
    Spells r.flatName.toList (refTokens r) := by
  obtain ⟨name, index⟩ := r
  unfold Ref.flatName refTokens
  cases index with
  | none => simpa [indexTokens] using spells_name h.name
  | some k =>
    intro rest later ends next
    have closing : Lexes (']' :: rest) (.symbol ']' :: later) :=
      lexes_mark (by decide) next
    have digits := numeral_toDigits k
    have subscript := lexes_number digits.first digits.all (readUnsigned?_toDigits k)
      (delimited_cons (by decide) (by decide)) closing
    have opening := lexes_mark (c := '[') (by decide) subscript
    have whole := spells_name h.name (delimited_cons (by decide) (by decide)) opening
    simpa [indexTokens, toString, Nat.toList_repr] using whole

/-! ## Literals -/

/-- A double without its sign. -/
def unsigned (x : Float) : Float := if signBit x then -x else x

/-- The digits of a double read back as that double. -/
def ReadsBack (x : Float) : Prop :=
  readUnsigned? (literalText (unsigned x)).toList = some (unsigned x)

theorem spells_literal {x : Float} (finite : Finite x) (reads : ReadsBack x) :
    Spells (literalText x).toList (Expr.number x).tokens := by
  intro rest later ends next
  unfold ReadsBack unsigned at reads
  unfold Expr.tokens
  by_cases sign : signBit x = true
  · rw [if_pos sign] at reads
    rw [if_pos sign, literalText_of_signBit finite sign]
    have plain : signBit (-x) = false := by
      rw [signBit_neg finite, sign]
      rfl
    have numeral := numeral_literalText (finite_neg finite) plain
    exact lexes_mark (by decide) (lexes_number numeral.first numeral.all reads ends next)
  · rw [if_neg sign] at reads
    rw [if_neg sign]
    have numeral := numeral_literalText finite (by simpa using sign)
    exact lexes_number numeral.first numeral.all reads ends next

/-! ## Expressions -/

/-- All literals of an expression are finite and read back. -/
def Expr.Readable (e : Expr Float) : Prop :=
  ∀ x, .number x ∈ e.parts → Finite x ∧ ReadsBack x

theorem Expr.Readable.binary {lhs rhs : Expr Float} {op : Operator}
    (h : (Expr.binary lhs op rhs).Readable) : lhs.Readable ∧ rhs.Readable := by
  refine ⟨?_, ?_⟩
  · intro x hx
    apply h x
    simp [Expr.parts, hx]
  · intro x hx
    apply h x
    simp [Expr.parts, hx]

theorem Expr.Readable.neg {operand : Expr Float} (h : (Expr.neg operand).Readable) :
    operand.Readable := by
  intro x hx
  apply h x
  simp [Expr.parts, hx]

theorem Expr.Readable.call {function : String} {args : List (Expr Float)}
    (h : (Expr.call function args).Readable) : ∀ arg ∈ args, arg.Readable := by
  intro arg harg x hx
  apply h x
  rw [Expr.parts, List.mem_cons, Expr.mem_partsAll]
  exact .inr ⟨arg, harg, hx⟩

/-- The arguments of a call with the closing parenthesis. -/
theorem lexes_arguments {args : List (Expr Float)}
    (spelled : ∀ arg ∈ args, Spells arg.text.toList arg.tokens) {rest : List Char}
    {later : List Token} (closing : Lexes (')' :: rest) (.symbol ')' :: later)) :
    Lexes ((", ".intercalate (Expr.textAll args)).toList ++ ')' :: rest)
      ([.symbol ','].intercalate (Expr.tokensAll args) ++ .symbol ')' :: later) := by
  induction args with
  | nil => simpa [Expr.textAll, Expr.tokensAll] using closing
  | cons arg args ih =>
    have first := spelled arg (by simp)
    have others := ih fun a ha => spelled a (by simp [ha])
    cases args with
    | nil =>
      have last := first (delimited_cons (by decide) (by decide)) closing
      simpa [Expr.textAll, Expr.tokensAll] using last
    | cons next args =>
      have comma := lexes_mark (c := ',') (by decide) (lexes_blank others)
      have whole := first (delimited_cons (by decide) (by decide)) comma
      simpa [Expr.textAll, Expr.tokensAll, String.intercalate_cons_cons,
        List.intercalate_cons_cons] using whole

theorem isWord_time : IsWord "time" :=
  ⟨'t', ['i', 'm', 'e'], rfl, by decide, List.forall_iff_forall_mem.mp (by decide)⟩

theorem isWord_der : IsWord "der" :=
  ⟨'d', ['e', 'r'], rfl, by decide, List.forall_iff_forall_mem.mp (by decide)⟩

/-- The text of an expression whose literals read back is cut into its tokens. -/
theorem spells_text {e : Expr Float} (written : Written e) (readable : e.Readable) :
    Spells e.text.toList e.tokens := by
  induction written with
  | number x =>
    obtain ⟨finite, reads⟩ := readable x (by simp [Expr.parts])
    exact spells_literal finite reads
  | ref _ spelled => exact spells_ref spelled
  | time => exact spells_word isWord_time
  | @binary lhs op rhs _ _ ihl ihr =>
    intro rest later ends next
    obtain ⟨left, right⟩ := readable.binary
    have back := (ihr right).enclosed rhs.strength (op.strength + 1) ends next
    have middle := lexes_operator op back
    have front := (ihl left).enclosed lhs.strength op.strength
      (delimited_cons (by decide) (by decide)) middle
    simpa [Expr.text, Expr.tokens] using front
  | @neg operand _ _ ih =>
    intro rest later ends next
    have inner := (ih readable.neg).enclosed operand.strength 4 ends next
    have sign := lexes_mark (c := '-') (by decide) inner
    simpa [Expr.text, Expr.tokens] using sign
  | @call first function args _ spelled _ ih =>
    intro rest later ends next
    have closing := lexes_mark (c := ')') (by decide) next
    have inner := lexes_arguments (fun arg harg => ih arg harg (readable.call arg harg)) closing
    have opening := lexes_mark (c := '(') (by decide) inner
    have whole := spells_name spelled (delimited_cons (by decide) (by decide)) opening
    simpa [Expr.text, Expr.tokens] using whole
  | der spelled =>
    intro rest later ends next
    have closing := lexes_mark (c := ')') (by decide) next
    have inner := spells_ref spelled (delimited_cons (by decide) (by decide)) closing
    have opening := lexes_mark (c := '(') (by decide) inner
    have whole := lexes_word isWord_der (delimited_cons (by decide) (by decide)).1 opening
    simpa [Expr.text, Expr.tokens] using whole

end Acausal

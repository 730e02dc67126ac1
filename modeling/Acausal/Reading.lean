-- Reading a list from its front. What was read says in its type that it left a shorter list, so
-- readers that call each other end by that measure alone.

namespace Acausal

/-- A value read from the front of a list, with what is left, which has fewer than `n` items. -/
structure Taken (ι β : Type) (n : Nat) where
  value : β
  rest : List ι
  shorter : rest.length < n

namespace Taken

variable {ι β γ : Type} {m n : Nat}

/-- The same reading seen from a list at least as long. -/
def within (p : Taken ι β m) (h : m ≤ n) : Taken ι β n :=
  ⟨p.value, p.rest, Nat.lt_of_lt_of_le p.shorter h⟩

/-- The same reading seen from a list with one more item. -/
def widen (p : Taken ι β n) : Taken ι β (n + 1) := p.within (Nat.le_succ n)

/-- A value with a given rest: for nothing read at all, or for the one item in front of it. -/
def leaving (value : β) (rest : List ι) : Taken ι β (rest.length + 1) :=
  ⟨value, rest, Nat.lt_succ_self rest.length⟩

/-- A value with what a number of items leave behind them. -/
def dropping (value : β) (count : Nat) (items : List ι) : Taken ι β (items.length + 1) :=
  ⟨value, items.drop count,
    Nat.lt_succ_of_le (List.length_drop ▸ Nat.sub_le items.length count)⟩

/-- What is read next, seen from where the first reading started. -/
def andThen (p : Taken ι β n) (next : Taken ι γ p.rest.length) : Taken ι γ n :=
  next.within (Nat.le_of_lt p.shorter)

/-- What is read next, which may be nothing, seen from where the first reading started. -/
def andMaybe (p : Taken ι β n) (next : Taken ι γ (p.rest.length + 1)) : Taken ι γ n :=
  next.within p.shorter

/-- What is read behind a reading of perhaps nothing, seen from where that started. -/
def maybeThen (p : Taken ι β (n + 1)) (next : Taken ι γ p.rest.length) : Taken ι γ n :=
  next.within (Nat.le_of_lt_succ p.shorter)

/-- Another value for the same items. -/
def map (f : β → γ) (p : Taken ι β n) : Taken ι γ n := ⟨f p.value, p.rest, p.shorter⟩

end Taken

end Acausal

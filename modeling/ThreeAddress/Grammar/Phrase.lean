import ThreeAddress.Grammar.Fault

namespace ThreeAddress.Grammar

/-!
# Reading phrases

A phrase is read from the front of a list of tokens. What is left of the list is
shorter, which is why the readers end: each one hands on fewer tokens than it was
given. A list may also break off without an end-of-text token, where the text
could not be read any further; a reader notices when it needs a token and finds
none.
-/

inductive Failure where
  /-- The first unread token is at fault. -/
  | unexpected (fault : SyntaxFault) (unread : List Token)
  /-- The list of tokens broke off. -/
  | brokenOff
deriving DecidableEq

/-- A phrase and the tokens after it, fewer than `bound`. -/
structure Phrase (α : Type) (bound : Nat) where
  value : α
  rest : List Token
  within : rest.length < bound

/-- A phrase that takes at least one of the tokens. -/
abbrev Reads (α : Type) (tokens : List Token) :=
  Except Failure (Phrase α tokens.length)

/-- A phrase that may be empty. -/
abbrev MayRead (α : Type) (tokens : List Token) :=
  Except Failure (Phrase α (tokens.length + 1))

def taken (value : α) (token : Token) (rest : List Token) : Reads α (token :: rest) :=
  .ok ⟨value, rest, Nat.lt_succ_self _⟩

def untouched (value : α) (tokens : List Token) : MayRead α tokens :=
  .ok ⟨value, tokens, Nat.lt_succ_self _⟩

def expect (wanted : Kind) : (tokens : List Token) → Reads Token tokens
  | [] => .error .brokenOff
  | token :: rest =>
      if token.kind = wanted then taken token token rest
      else .error (.unexpected (.mismatch wanted token.kind) (token :: rest))

theorem shorter_trans_of_within {first second third : List Token}
    (within : second.length < first.length + 1) (shorter : third.length < second.length) :
    third.length < first.length := by
  omega

theorem shorter_trans₃ {first second third fourth : List Token}
    (one : second.length < first.length) (two : third.length < second.length)
    (three : fourth.length < third.length) : fourth.length < first.length :=
  Nat.lt_trans three (Nat.lt_trans two one)

theorem shorter_trans₄_of_within {first second third fourth fifth : List Token}
    (one : second.length < first.length + 1) (two : third.length < second.length)
    (three : fourth.length < third.length) (four : fifth.length < fourth.length) :
    fifth.length < first.length :=
  shorter_trans_of_within one (shorter_trans₃ two three four)

end ThreeAddress.Grammar

import ThreeAddress.Proofs.Grammar.Climbing
import ThreeAddress.Proofs.Grammar.Lookahead

namespace ThreeAddress.Grammar

open Reader

variable {α β : Type} {tokens rest : List Token}

/-- The reader takes some of these tokens, and what stands behind them does not count. -/
def Closes (run : Reader α) (tokens : List Token) : Prop :=
  ∀ value rest, run tokens = .ok (value, rest) → ∃ first used, tokens = first :: used ++ rest ∧
    Inside (first :: used) ∧ ∀ other, run (first :: used ++ other) = .ok (value, other)

namespace Closes

theorem peek_nil {next : Token → Reader α} : Closes (peek next) [] :=
  nofun

theorem peek_cons {next : Token → Reader α} {token : Token}
    (closes : Closes (next token) (token :: rest)) : Closes (peek next) (token :: rest) := by
  intro value after read
  obtain ⟨first, used, whole, inside, again⟩ := closes value after read
  obtain ⟨rfl, -⟩ := List.cons.inj whole
  exact ⟨token, used, whole, inside, again⟩

theorem take_pass {token : Token} {value : α} (inside : token.kind ≠ .eof) :
    Closes (take (pass value)) (token :: rest) := by
  intro found after read
  cases read
  exact ⟨token, [], rfl, .cons inside .nil, fun other => rfl⟩

/-- What comes last closes the whole. -/
theorem andThen {first : Reader α} {next : α → Reader β} (looks : LooksOneAhead first tokens)
    (closes : ∀ value rest, first tokens = .ok (value, rest) → Closes (next value) rest) :
    Closes (first.andThen next) tokens := by
  intro result after read
  obtain ⟨value, middle, begun, ended⟩ := andThen_eq_ok.mp read
  obtain ⟨used, rfl, usedInside, again⟩ := looks.found begun
  obtain ⟨token, more, rfl, moreInside, onward⟩ := closes value middle begun result after ended
  -- The reader of the last part has taken the one token that the first looks at.
  have whole (other : List Token) :
      first.andThen next (used ++ (token :: more ++ other)) = .ok (result, other) :=
    andThen_eq_ok.mpr ⟨value, token :: more ++ other, again _ SameAhead.cons, onward other⟩
  cases used with
  | nil => exact ⟨token, more, rfl, moreInside, whole⟩
  | cons start others =>
      refine ⟨start, others ++ token :: more, by simp, usedInside.append moreInside, ?_⟩
      intro other
      simpa using whole other

theorem map {run : Reader α} {function : α → β} (closes : Closes run tokens) :
    Closes (run.map function) tokens := by
  intro result after read
  obtain ⟨value, middle, begun, ended⟩ := andThen_eq_ok.mp read
  cases ended
  obtain ⟨first, used, whole, inside, again⟩ := closes value after begun
  exact ⟨first, used, whole, inside,
    fun other => andThen_eq_ok.mpr ⟨value, other, again other, rfl⟩⟩

end Closes

theorem statements_closes (inLoop : Bool) (scope : Nat) (scopes : Scopes) (tokens : List Token) :
    Closes (ofBounded (statements inLoop scope scopes)) tokens := by
  induction count : tokens.length using Nat.strongRecOn generalizing scopes tokens with
  | ind length ih =>
      rw [statements_reader]
      cases tokens with
      | nil => exact .peek_nil
      | cons token rest =>
          apply Closes.peek_cons
          split
          · next kind => exact .take_pass (by simp [kind])
          · apply Closes.andThen (statement_looksOneAhead inLoop scope scopes (token :: rest))
            intro first after read
            have shorter : after.length < (token :: rest).length := within_of_plain read
            exact .map (ih after.length (count ▸ shorter) first.2 after rfl)

theorem block_closes (inLoop : Bool) (parent : Option Nat) (scopes : Scopes)
    (tokens : List Token) : Closes (ofBounded (block inLoop parent scopes)) tokens := by
  rw [block_reader]
  apply Closes.andThen (declarations_looksOneAhead _ _ tokens)
  intro made after _
  exact .map (statements_closes inLoop scopes.count made.2 after)

/-- A program is read from the tokens before the end of the text, whatever that end is. -/
theorem program_ending {whole : Program} (read : program tokens = .ok whole) :
    ∃ used ending later, tokens = used ++ ending :: later ∧ Inside used ∧ ending.kind = .eof ∧
      ∀ other : Token, other.kind = .eof → program (used ++ [other]) = .ok whole := by
  obtain ⟨opening, middle, ending, later, rfl, opens, found, isEnd⟩ := program_eq_ok.mp read
  obtain ⟨first, used, rfl, inside, again⟩ :=
    block_closes false none {} middle _ _ (finds_iff_plain.mp found)
  have openingInside : opening.kind ≠ .eof := by simp [opens]
  refine ⟨opening :: first :: used, ending, later, rfl, inside.cons openingInside, isEnd, ?_⟩
  intro other otherEnd
  exact program_eq_ok.mpr
    ⟨opening, _, other, [], rfl, opens, finds_iff_plain.mpr (again [other]), otherEnd⟩

end ThreeAddress.Grammar

import ThreeAddress.Proofs.Grammar.Combinators
import ThreeAddress.Proofs.Grammar.Steps

namespace ThreeAddress.Grammar

/-!
# One token of lookahead

What a reader does with a list of tokens is settled by the tokens it takes and the next
one after them. It stops at a fault as soon as the tokens before it are taken, and it
takes no end of the text.
-/

/-- The end of the text is none of the tokens. -/
def Inside (tokens : List Token) : Prop :=
  ∀ token ∈ tokens, token.kind ≠ .eof

/-- The first token of one list, if it has one, is the first of the other. -/
def SameAhead (rest other : List Token) : Prop :=
  ∀ token later, rest = token :: later → ∃ others, other = token :: others

/-- Nothing is at fault so far, though the reader may want more tokens. -/
def Pending {α : Type} (run : Reader α) (tokens : List Token) : Prop :=
  run tokens = .error .brokenOff ∨ ∃ value, run tokens = .ok (value, [])

variable {α β : Type} {tokens rest other used : List Token}

theorem Inside.nil : Inside [] :=
  nofun

theorem Inside.cons {token : Token} (here : token.kind ≠ .eof) (others : Inside rest) :
    Inside (token :: rest) :=
  List.forall_mem_cons.mpr ⟨here, others⟩

theorem Inside.append (first : Inside used) (second : Inside rest) : Inside (used ++ rest) :=
  List.forall_mem_append.mpr ⟨first, second⟩

theorem SameAhead.append (same : SameAhead rest other) :
    SameAhead (used ++ rest) (used ++ other) := by
  cases used with
  | nil => exact same
  | cons first others =>
      intro token later whole
      cases whole
      exact ⟨others ++ other, rfl⟩

theorem SameAhead.cons {token : Token} : SameAhead (token :: rest) (token :: other) := by
  intro first later whole
  cases whole
  exact ⟨other, rfl⟩

/-- What a reader does with these tokens does not hang on those that it does not look at. -/
structure LooksOneAhead (run : Reader α) (tokens : List Token) : Prop where
  found : ∀ {value rest}, run tokens = .ok (value, rest) →
    ∃ used, tokens = used ++ rest ∧ Inside used ∧
      ∀ other, SameAhead rest other → run (used ++ other) = .ok (value, other)
  refused : ∀ {fault unread}, run tokens = .error (.unexpected fault unread) →
    ∃ used token later, unread = token :: later ∧ tokens = used ++ token :: later ∧
      ∀ other, run (used ++ token :: other) = .error (.unexpected fault (token :: other))
  broken : run tokens = .error .brokenOff → Inside tokens

namespace LooksOneAhead

open Reader

theorem pass {value : α} : LooksOneAhead (pass value) tokens where
  found := by
    intro _ rest read
    cases read
    exact ⟨[], rfl, .nil, fun other _ => rfl⟩
  refused := nofun
  broken := nofun

theorem refuse {fault : SyntaxFault} (more : tokens ≠ []) :
    LooksOneAhead (refuse fault : Reader α) tokens where
  found := nofun
  refused := by
    intro _ unread read
    cases read
    obtain ⟨token, later, rfl⟩ := List.exists_cons_of_ne_nil more
    exact ⟨[], token, later, rfl, rfl, fun other => rfl⟩
  broken := nofun

theorem peek_nil {next : Token → Reader α} : LooksOneAhead (peek next) [] where
  found := nofun
  refused := nofun
  broken := fun _ => .nil

theorem peek_cons {next : Token → Reader α} {token : Token}
    (looks : LooksOneAhead (next token) (token :: rest)) :
    LooksOneAhead (peek next) (token :: rest) where
  found := by
    intro value after read
    obtain ⟨used, whole, inside, again⟩ := looks.found read
    refine ⟨used, whole, inside, fun other same => ?_⟩
    obtain ⟨others, starts⟩ : ∃ others, used ++ other = token :: others :=
      same.append token rest whole.symm
    rw [starts, Reader.peek, ← starts]
    exact again other same
  refused := by
    intro fault unread read
    obtain ⟨used, first, later, unread, whole, again⟩ := looks.refused read
    refine ⟨used, first, later, unread, whole, fun other => ?_⟩
    have same : SameAhead (first :: later) (first :: other) := .cons
    obtain ⟨others, starts⟩ : ∃ others, used ++ first :: other = token :: others :=
      same.append token rest whole.symm
    rw [starts, Reader.peek, ← starts]
    exact again other
  broken := looks.broken

theorem take {next : Reader α} {token : Token} (inside : token.kind ≠ .eof)
    (looks : LooksOneAhead next rest) : LooksOneAhead (take next) (token :: rest) where
  found := by
    intro value after read
    obtain ⟨used, rfl, others, again⟩ := looks.found read
    exact ⟨token :: used, rfl, others.cons inside, again⟩
  refused := by
    intro fault unread read
    obtain ⟨used, first, later, unread, rfl, again⟩ := looks.refused read
    exact ⟨token :: used, first, later, unread, rfl, again⟩
  broken := fun read => (looks.broken read).cons inside

theorem andThen {first : Reader α} {next : α → Reader β} (looks : LooksOneAhead first tokens)
    (goesOn : ∀ value rest, first tokens = .ok (value, rest) → LooksOneAhead (next value) rest) :
    LooksOneAhead (first.andThen next) tokens := by
  have stops {failure : Failure} (read : first tokens = .error failure) :
      first.andThen next tokens = .error failure := by
    rw [Reader.andThen, read]
  have continues {value : α} {rest : List Token} (read : first tokens = .ok (value, rest)) :
      first.andThen next tokens = next value rest := by
    rw [Reader.andThen, read]
  refine ⟨fun {result after} read => ?_, fun {fault unread} read => ?_, fun read => ?_⟩
  · cases begun : first tokens with
    | error failure =>
        rw [stops begun] at read
        cases read
    | ok begin =>
        obtain ⟨value, rest⟩ := begin
        rw [continues begun] at read
        obtain ⟨used, rfl, inside, again⟩ := looks.found begun
        obtain ⟨more, rfl, moreInside, onward⟩ := (goesOn value rest begun).found read
        refine ⟨used ++ more, (List.append_assoc ..).symm, inside.append moreInside,
          fun other same => ?_⟩
        rw [List.append_assoc, Reader.andThen, again _ same.append]
        exact onward other same
  · cases begun : first tokens with
    | error failure =>
        rw [stops begun] at read
        cases read
        obtain ⟨used, token, later, unread, whole, again⟩ := looks.refused begun
        refine ⟨used, token, later, unread, whole, fun other => ?_⟩
        rw [Reader.andThen, again other]
    | ok begin =>
        obtain ⟨value, rest⟩ := begin
        rw [continues begun] at read
        obtain ⟨used, rfl, inside, again⟩ := looks.found begun
        obtain ⟨more, token, later, unread, rfl, onward⟩ := (goesOn value rest begun).refused read
        refine ⟨used ++ more, token, later, unread, (List.append_assoc ..).symm, fun other => ?_⟩
        rw [List.append_assoc, Reader.andThen, again _ SameAhead.cons.append]
        exact onward other
  · cases begun : first tokens with
    | error failure =>
        rw [stops begun] at read
        cases read
        exact looks.broken begun
    | ok begin =>
        obtain ⟨value, rest⟩ := begin
        rw [continues begun] at read
        obtain ⟨used, rfl, inside, again⟩ := looks.found begun
        exact inside.append ((goesOn value rest begun).broken read)

theorem map {first : Reader α} {function : α → β} (looks : LooksOneAhead first tokens) :
    LooksOneAhead (first.map function) tokens :=
  looks.andThen fun _ _ _ => pass

/-- Without the token at fault and those after it, there is no fault yet. -/
theorem broken_of_refused {run : Reader α} (looks : ∀ tokens, LooksOneAhead run tokens)
    {token : Token} {later : List Token} {fault : SyntaxFault}
    (refused : run (used ++ token :: later) = .error (.unexpected fault (token :: later))) :
    run used = .error .brokenOff := by
  match read : run used with
  | .ok (value, rest) =>
      obtain ⟨front, rfl, -, again⟩ := (looks used).found read
      have same : SameAhead rest (rest ++ token :: later) := by
        intro first others whole
        rw [whole]
        exact ⟨_, rfl⟩
      rw [List.append_assoc, again _ same] at refused
      cases refused
  | .error (.unexpected other unread) =>
      obtain ⟨front, first, others, -, rfl, again⟩ := (looks used).refused read
      rw [List.append_assoc, List.cons_append, again] at refused
      -- The earlier fault would leave more tokens unread.
      obtain ⟨-, -, longer⟩ : other = fault ∧ first = token ∧ others ++ token :: later = later := by
        simpa using refused
      have lengths := congrArg List.length longer
      rw [List.length_append, List.length_cons] at lengths
      omega
  | .error .brokenOff => rfl

/-- Without tokens there is nothing at fault. -/
theorem pending {run : Reader α} (looks : LooksOneAhead run []) : Pending run [] := by
  match read : run [] with
  | .ok (value, rest) =>
      obtain ⟨used, whole, -⟩ := looks.found read
      obtain ⟨-, rfl⟩ := List.append_eq_nil_iff.mp whole.symm
      exact .inr ⟨value, read⟩
  | .error (.unexpected fault unread) =>
      obtain ⟨used, token, later, -, whole, -⟩ := looks.refused read
      simp at whole
  | .error .brokenOff => exact .inl read

theorem rest_le {run : Reader α} {value : α} (looks : LooksOneAhead run tokens)
    (found : run tokens = .ok (value, rest)) : rest.length ≤ tokens.length := by
  obtain ⟨used, rfl, -⟩ := looks.found found
  rw [List.length_append]
  exact Nat.le_add_left _ _

theorem unread_le {run : Reader α} {fault : SyntaxFault} {unread : List Token}
    (looks : LooksOneAhead run tokens)
    (refused : run tokens = .error (.unexpected fault unread)) :
    unread.length ≤ tokens.length := by
  obtain ⟨used, token, later, rfl, rfl, -⟩ := looks.refused refused
  rw [List.length_append]
  exact Nat.le_add_left _ _

end LooksOneAhead

open Reader

theorem Pending.andThen {first : Reader α} {next : α → Reader β} (pending : Pending first tokens)
    (ends : ∀ value, first tokens = .ok (value, []) → Pending (next value) []) :
    Pending (first.andThen next) tokens := by
  rcases pending with broken | ⟨value, read⟩
  · exact .inl (by rw [Reader.andThen, broken])
  · rw [Pending, Reader.andThen, read]
    exact ends value read

theorem finds_iff_plain {bound : Nat} {reading : Except Failure (Phrase α bound)} {value : α} :
    Finds reading value rest ↔ plain reading = .ok (value, rest) := by
  cases reading with
  | error failure => exact ⟨fun found => (finds_error found).elim, nofun⟩
  | ok phrase =>
      constructor
      · intro found
        obtain ⟨rfl, rfl⟩ := finds_pure.mp found
        rfl
      · intro read
        cases read
        exact ⟨phrase.within, rfl⟩

theorem within_of_plain {bound : Nat} {reading : Except Failure (Phrase α bound)} {value : α}
    (read : plain reading = .ok (value, rest)) : rest.length < bound :=
  (finds_iff_plain.mpr read).within

theorem expect_looksOneAhead {wanted : Kind} (inside : wanted ≠ .eof) :
    LooksOneAhead (ofBounded (expect wanted)) tokens := by
  rw [expect_reader]
  match tokens with
  | [] => exact .peek_nil
  | token :: rest =>
      refine .peek_cons ?_
      split
      · next same => exact .take (same ▸ inside) .pass
      · exact .refuse nofun

theorem inside_of_operator {kind : Kind} {op : BinaryOp} (sign : BinaryOp.ofKind? kind = some op) :
    kind ≠ .eof := by
  rintro rfl
  cases sign

mutual

theorem expression_looksOneAhead (declared : String → Bool) (tokens : List Token) :
    LooksOneAhead (ofBounded (expression declared)) tokens := by
  rw [expression_reader]
  refine .andThen (factor_looksOneAhead declared tokens) fun first rest read => ?_
  have shorter : rest.length < tokens.length := within_of_plain read
  exact operations_looksOneAhead declared first rest
termination_by 4 * tokens.length + 1
decreasing_by all_goals omega

theorem operations_looksOneAhead (declared : String → Bool) (left : Expr) (tokens : List Token) :
    LooksOneAhead (ofBounded (operations declared left)) tokens := by
  rw [operations_reader]
  match tokens with
  | [] => exact .peek_nil
  | token :: rest =>
      refine .peek_cons ?_
      split
      · exact .pass
      · next op sign =>
          refine .take (inside_of_operator sign) ?_
          refine .andThen (factor_looksOneAhead declared rest) fun right after read => ?_
          have shorter : after.length < rest.length := within_of_plain read
          exact operations_looksOneAhead declared _ after
termination_by 4 * tokens.length
decreasing_by all_goals (simp only [List.length_cons] at *; omega)

theorem factor_looksOneAhead (declared : String → Bool) (tokens : List Token) :
    LooksOneAhead (ofBounded (factor declared)) tokens := by
  rw [factor_reader]
  match tokens with
  | [] => exact .peek_nil
  | token :: rest =>
      have inside {kind : Kind} (same : token.kind = kind) (other : kind ≠ .eof) :
          token.kind ≠ .eof := same ▸ other
      refine .peek_cons ?_
      split
      · next kind => exact .take (inside kind nofun) (.map (factor_looksOneAhead declared rest))
      · next kind => exact .take (inside kind nofun) (.map (factor_looksOneAhead declared rest))
      · next kind =>
          exact .take (inside kind nofun) <|
            .andThen (expression_looksOneAhead declared rest) fun _ _ _ =>
              .map (expect_looksOneAhead nofun)
      · next kind => exact .take (inside kind nofun) .pass
      · next kind => exact .take (inside kind nofun) .pass
      · next kind => exact .take (inside kind nofun) .pass
      · next kind => exact .take (inside kind nofun) .pass
      · next kind => exact place_looksOneAhead declared kind rest
      · exact .refuse nofun
termination_by 4 * tokens.length
decreasing_by all_goals (simp only [List.length_cons] at *; omega)

theorem place_looksOneAhead (declared : String → Bool) {name : String} {token : Token}
    (kind : token.kind = .ident name) (rest : List Token) :
    LooksOneAhead (place declared name token.line) (token :: rest) := by
  rw [place]
  split
  · exact .take (kind ▸ nofun) (.map (subscripts_looksOneAhead declared rest))
  · exact .refuse nofun
termination_by 4 * rest.length + 3
decreasing_by all_goals omega

theorem subscripts_looksOneAhead (declared : String → Bool) (tokens : List Token) :
    LooksOneAhead (ofBounded (subscripts declared)) tokens := by
  rw [subscripts_reader]
  match tokens with
  | [] => exact .peek_nil
  | token :: rest =>
      refine .peek_cons ?_
      split
      · next kind =>
          refine .take (kind ▸ nofun) ?_
          refine .andThen (expression_looksOneAhead declared rest) fun index afterIndex read => ?_
          refine .andThen (expect_looksOneAhead nofun) fun closing after closed => ?_
          have first : afterIndex.length < rest.length := within_of_plain read
          have second : after.length < afterIndex.length := within_of_plain closed
          exact .map (subscripts_looksOneAhead declared after)
      · exact .pass
termination_by 4 * tokens.length + 2
decreasing_by all_goals (simp only [List.length_cons] at *; omega)

end

/-- The sizes end where a token says so. -/
theorem dims_leaves_token (tokens : List Token) {sizes : List Nat}
    (found : Finds (dims tokens) sizes rest) : rest ≠ [] := by
  match tokens with
  | [] => exact (finds_dims_nil found).elim
  | token :: after =>
      by_cases opening : token.kind = .mark .openBracket
      · obtain ⟨size, closing, middle, value, more, whole, -, -, others, -⟩ :=
          (finds_dims_step opening).mp found
        have shorter : middle.length < after.length := by
          rw [whole, List.length_cons, List.length_cons]
          omega
        exact dims_leaves_token middle others
      · obtain ⟨-, rfl⟩ := (finds_dims_stop opening).mp found
        exact List.cons_ne_nil _ _
termination_by tokens.length
decreasing_by all_goals (simp only [List.length_cons] at *; omega)

theorem trailingDims_leaves_token {name : String} {leading sizes : List Nat}
    (found : Finds (trailingDims name leading tokens) sizes rest) : rest ≠ [] := by
  rcases finds_trailingDims.mp found with ⟨-, found⟩ | ⟨-, -, rfl, _, _, rfl, -⟩
  · exact dims_leaves_token tokens found
  · exact List.cons_ne_nil _ _

theorem dims_looksOneAhead (tokens : List Token) : LooksOneAhead (ofBounded dims) tokens := by
  rw [dims_reader]
  match tokens with
  | [] => exact .peek_nil
  | [token] =>
      refine .peek_cons ?_
      split
      · next kind => exact .take (kind ▸ nofun) .peek_nil
      · exact .pass
  | token :: size :: rest =>
      refine .peek_cons ?_
      split
      · next kind =>
          refine .take (kind ▸ nofun) (.peek_cons ?_)
          split
          · next value number =>
              refine .take (number ▸ nofun) ?_
              refine .andThen (expect_looksOneAhead nofun) fun closing after closed => ?_
              have shorter : after.length < rest.length := within_of_plain closed
              exact .map (dims_looksOneAhead after)
          · exact .refuse nofun
      · exact .pass
termination_by tokens.length
decreasing_by all_goals (simp only [List.length_cons] at *; omega)

section

variable {scopes : Scopes} {scope : Nat}

theorem newName_looksOneAhead : LooksOneAhead (ofBounded (newName scopes scope)) tokens := by
  rw [newName_reader]
  match tokens with
  | [] => exact .peek_nil
  | token :: rest =>
      refine .peek_cons ?_
      split
      · next name kind =>
          split
          · exact .refuse nofun
          · exact .take (kind ▸ nofun) .pass
      · exact .refuse nofun

theorem trailingDims_looksOneAhead {name : String} {leading : List Nat} :
    LooksOneAhead (ofBounded (trailingDims name leading)) tokens := by
  rw [trailingDims_reader]
  split
  · exact dims_looksOneAhead tokens
  · match tokens with
    | [] => exact .peek_nil
    | token :: rest =>
        refine .peek_cons ?_
        split
        · exact .refuse nofun
        · exact .pass

theorem namedPart_looksOneAhead {basic : BasicType} {leading : List Nat} {id : Ident} :
    LooksOneAhead (namedPart basic leading id) tokens := by
  refine .andThen trailingDims_looksOneAhead fun sizes rest read => ?_
  split
  · exact .map (expect_looksOneAhead nofun)
  · exact .refuse (trailingDims_leaves_token (finds_iff_plain.mpr read))

theorem declaration_looksOneAhead {basic : BasicType} :
    LooksOneAhead (ofBounded (declaration scopes scope basic)) tokens := by
  rw [declaration_reader]
  exact .andThen (dims_looksOneAhead tokens) fun _ _ _ =>
    .andThen newName_looksOneAhead fun _ _ _ => namedPart_looksOneAhead

end

theorem declarations_looksOneAhead (scopes : Scopes) (scope : Nat) (tokens : List Token) :
    LooksOneAhead (ofBounded (declarations scopes scope)) tokens := by
  rw [declarations_reader]
  cases tokens with
  | nil => exact .peek_nil
  | cons token rest =>
      refine .peek_cons ?_
      split
      · next basic kind =>
          refine .take (by simp [kind]) ?_
          refine .andThen declaration_looksOneAhead fun first after read => ?_
          have shorter : after.length < rest.length := within_of_plain read
          exact .map (declarations_looksOneAhead _ scope after)
      · exact .pass
termination_by tokens.length
decreasing_by all_goals (simp only [List.length_cons] at *; omega)

theorem condition_looksOneAhead {declared : String → Bool} :
    LooksOneAhead (ofBounded (condition declared)) tokens := by
  rw [condition_reader]
  exact .andThen (expect_looksOneAhead nofun) fun _ _ _ =>
    .andThen (expression_looksOneAhead declared _) fun _ _ _ => .map (expect_looksOneAhead nofun)

theorem assigns_looksOneAhead {declared : String → Bool} {name : String} {token : Token}
    (kind : token.kind = .ident name) :
    LooksOneAhead (assigns declared name token.line) (token :: rest) := by
  rw [assigns]
  exact .andThen (place_looksOneAhead declared kind rest) fun _ _ _ =>
    .andThen (expect_looksOneAhead (by simp)) fun _ _ _ =>
      .andThen (expression_looksOneAhead declared _) fun _ _ _ =>
        .map (expect_looksOneAhead (by simp))

theorem whilePart_looksOneAhead {scope : Nat} {body : Stmt × Scopes} :
    LooksOneAhead (whilePart scope body) tokens :=
  .andThen (expect_looksOneAhead nofun) fun _ _ _ =>
    .andThen condition_looksOneAhead fun _ _ _ => .map (expect_looksOneAhead nofun)

mutual

theorem statement_looksOneAhead (inLoop : Bool) (scope : Nat) (scopes : Scopes)
    (tokens : List Token) : LooksOneAhead (ofBounded (statement inLoop scope scopes)) tokens := by
  rw [statement_reader]
  match tokens with
  | [] => exact .peek_nil
  | token :: rest =>
      have inside {kind : Kind} (same : token.kind = kind) (other : kind ≠ .eof) :
          token.kind ≠ .eof := same ▸ other
      refine .peek_cons ?_
      split
      · next kind => exact .map (assigns_looksOneAhead kind)
      · next kind =>
          refine .take (inside kind nofun) ?_
          refine .andThen condition_looksOneAhead fun test afterTest tested => ?_
          have first : afterTest.length < rest.length := within_of_plain tested
          refine .andThen (statement_looksOneAhead inLoop scope scopes afterTest)
            fun body afterBody read => ?_
          have second : afterBody.length < afterTest.length := within_of_plain read
          exact elsePart_looksOneAhead inLoop scope test body afterBody
      · next kind =>
          refine .take (inside kind nofun) ?_
          refine .andThen condition_looksOneAhead fun test afterTest tested => ?_
          have first : afterTest.length < rest.length := within_of_plain tested
          exact .map (statement_looksOneAhead true scope scopes afterTest)
      · next kind =>
          refine .take (inside kind nofun) ?_
          exact .andThen (statement_looksOneAhead true scope scopes rest) fun body _ _ =>
            whilePart_looksOneAhead
      · next kind =>
          split
          · exact .take (inside kind nofun) (.map (expect_looksOneAhead nofun))
          · exact .refuse nofun
      · next kind =>
          exact .take (inside kind nofun)
            (.map (block_looksOneAhead inLoop (some scope) scopes rest))
      · exact .refuse nofun
      · exact .refuse nofun
termination_by 3 * tokens.length
decreasing_by all_goals (simp only [List.length_cons] at *; omega)

theorem elsePart_looksOneAhead (inLoop : Bool) (scope : Nat) (test : Expr) (body : Stmt × Scopes)
    (tokens : List Token) : LooksOneAhead (elsePart inLoop scope test body) tokens := by
  match tokens with
  | [] => exact .peek_nil
  | token :: rest =>
      refine .peek_cons ?_
      split
      · next other =>
          exact .take (other ▸ nofun) (.map (statement_looksOneAhead inLoop scope body.2 rest))
      · exact .pass
termination_by 3 * tokens.length
decreasing_by all_goals (simp only [List.length_cons] at *; omega)

theorem statements_looksOneAhead (inLoop : Bool) (scope : Nat) (scopes : Scopes)
    (tokens : List Token) : LooksOneAhead (ofBounded (statements inLoop scope scopes)) tokens := by
  rw [statements_reader]
  match tokens with
  | [] => exact .peek_nil
  | token :: rest =>
      refine .peek_cons ?_
      split
      · next kind => exact .take (kind ▸ nofun) .pass
      · refine .andThen (statement_looksOneAhead inLoop scope scopes (token :: rest))
          fun first after read => ?_
        have shorter : after.length < (token :: rest).length := within_of_plain read
        exact .map (statements_looksOneAhead inLoop scope first.2 after)
termination_by 3 * tokens.length + 1
decreasing_by all_goals (simp only [List.length_cons] at *; omega)

theorem block_looksOneAhead (inLoop : Bool) (parent : Option Nat) (scopes : Scopes)
    (tokens : List Token) : LooksOneAhead (ofBounded (block inLoop parent scopes)) tokens := by
  rw [block_reader]
  refine .andThen (declarations_looksOneAhead _ _ tokens) fun made after read => ?_
  have within : after.length < tokens.length + 1 := within_of_plain read
  exact .map (statements_looksOneAhead inLoop scopes.count made.2 after)
termination_by 3 * tokens.length + 2
decreasing_by omega

end

theorem wholeProgram_looksOneAhead : LooksOneAhead wholeProgram tokens := by
  refine .andThen (expect_looksOneAhead nofun) fun _ _ _ =>
    .andThen (block_looksOneAhead false none {} _) fun whole after _ => ?_
  match after with
  | [] => exact .peek_nil
  | token :: rest =>
      refine .peek_cons ?_
      split
      · exact .pass
      · exact .refuse nofun

section

variable {scopes : Scopes} {scope : Nat} {declared : String → Bool} {inLoop : Bool}

@[simp]
theorem pending_pass {value : α} : Pending (pass value) [] :=
  .inr ⟨value, rfl⟩

@[simp]
theorem pending_peek {next : Token → Reader α} : Pending (peek next) [] :=
  .inl rfl

@[simp]
theorem pending_andThen {first : Reader α} {next : α → Reader β} (pending : Pending first [])
    (ends : ∀ value, Pending (next value) []) : Pending (first.andThen next) [] :=
  pending.andThen fun value _ => ends value

@[simp]
theorem pending_map {first : Reader α} {function : α → β} (pending : Pending first []) :
    Pending (first.map function) [] :=
  pending.andThen fun _ _ => pending_pass

@[simp]
theorem pending_expect {wanted : Kind} : Pending (ofBounded (expect wanted)) [] :=
  .inl rfl

@[simp]
theorem pending_factor : Pending (ofBounded (factor declared)) [] :=
  (factor_looksOneAhead declared []).pending

@[simp]
theorem pending_operations {left : Expr} : Pending (ofBounded (operations declared left)) [] :=
  (operations_looksOneAhead declared left []).pending

@[simp]
theorem pending_expression : Pending (ofBounded (expression declared)) [] :=
  (expression_looksOneAhead declared []).pending

@[simp]
theorem pending_subscripts : Pending (ofBounded (subscripts declared)) [] :=
  (subscripts_looksOneAhead declared []).pending

@[simp]
theorem pending_dims : Pending (ofBounded dims) [] :=
  (dims_looksOneAhead []).pending

@[simp]
theorem pending_newName : Pending (ofBounded (newName scopes scope)) [] :=
  newName_looksOneAhead.pending

@[simp]
theorem pending_namedPart {basic : BasicType} {leading : List Nat} {id : Ident} :
    Pending (namedPart basic leading id) [] :=
  namedPart_looksOneAhead.pending

@[simp]
theorem pending_declaration {basic : BasicType} :
    Pending (ofBounded (declaration scopes scope basic)) [] :=
  declaration_looksOneAhead.pending

@[simp]
theorem pending_declarations : Pending (ofBounded (declarations scopes scope)) [] :=
  (declarations_looksOneAhead scopes scope []).pending

@[simp]
theorem pending_condition : Pending (ofBounded (condition declared)) [] :=
  condition_looksOneAhead.pending

@[simp]
theorem pending_whilePart {body : Stmt × Scopes} : Pending (whilePart scope body) [] :=
  whilePart_looksOneAhead.pending

@[simp]
theorem pending_elsePart {test : Expr} {body : Stmt × Scopes} :
    Pending (elsePart inLoop scope test body) [] :=
  .inl rfl

@[simp]
theorem pending_statement : Pending (ofBounded (statement inLoop scope scopes)) [] :=
  (statement_looksOneAhead inLoop scope scopes []).pending

@[simp]
theorem pending_statements : Pending (ofBounded (statements inLoop scope scopes)) [] :=
  (statements_looksOneAhead inLoop scope scopes []).pending

@[simp]
theorem pending_block {parent : Option Nat} :
    Pending (ofBounded (block inLoop parent scopes)) [] :=
  (block_looksOneAhead inLoop parent scopes []).pending

end

end ThreeAddress.Grammar

import ThreeAddress.Proofs.Grammar.Lookahead
import ThreeAddress.Proofs.Relabelling

namespace ThreeAddress.Grammar

open Reader

variable {new : Relabelling} {α β γ δ : Type} {tokens rest : List Token} {token : Token}

/-- What a reader does with some tokens, relabelled. -/
def relabelled (new : Relabelling) (image : α → β) :
    Except Failure (α × List Token) → Except Failure (β × List Token)
  | .ok (value, rest) => .ok (image value, rest.map new.token)
  | .error failure => .error (new.failure failure)

/-- The second reader does with the relabelled tokens what the first does with the tokens. -/
def Follows (new : Relabelling) (image : α → β) (run : Reader α) (other : Reader β)
    (tokens : List Token) : Prop :=
  other (tokens.map new.token) = relabelled new image (run tokens)

namespace Follows

variable {image : α → β} {result : γ → δ} {first run : Reader α} {second other : Reader β}

theorem pass {value : α} {made : β} (same : made = image value) :
    Follows new image (pass value) (pass made) tokens := by
  subst same
  rfl

theorem refuse {fault found : SyntaxFault} (same : found = new.syntaxFault fault) :
    Follows new image (refuse fault) (refuse found) tokens := by
  subst same
  rfl

theorem peek_nil {next : Token → Reader α} {onward : Token → Reader β} :
    Follows new image (peek next) (peek onward) [] :=
  rfl

theorem peek_cons {next : Token → Reader α} {onward : Token → Reader β}
    (follows : Follows new image (next token) (onward (new.token token)) (token :: rest)) :
    Follows new image (peek next) (peek onward) (token :: rest) :=
  follows

theorem take (follows : Follows new image run other rest) :
    Follows new image (take run) (take other) (token :: rest) :=
  follows

theorem andThen {next : α → Reader γ} {onward : β → Reader δ}
    (begins : Follows new image first second tokens)
    (goesOn : ∀ value rest, first tokens = .ok (value, rest) →
      Follows new result (next value) (onward (image value)) rest) :
    Follows new result (first.andThen next) (second.andThen onward) tokens := by
  rw [Follows, Reader.andThen, Reader.andThen, begins]
  cases read : first tokens with
  | error failure => rfl
  | ok found => exact goesOn found.1 found.2 read

theorem map {function : α → γ} {onward : β → δ} (begins : Follows new image first second tokens)
    (same : ∀ value, onward (image value) = result (function value)) :
    Follows new result (first.map function) (second.map onward) tokens :=
  begins.andThen fun value _ _ => pass (same value)

/-- Both ask for the same kind of token, which is no name. -/
theorem ifKind {wanted : Kind} (fixed : new.kind wanted = wanted) {run no : Reader α}
    {other otherwise : Reader β} (same : Follows new image run other tokens)
    (differs : Follows new image no otherwise tokens) :
    Follows new image (if token.kind = wanted then run else no)
      (if (new.token token).kind = wanted then other else otherwise) tokens := by
  have alike : (new.token token).kind = wanted ↔ token.kind = wanted :=
    Relabelling.kind_eq_iff fixed
  simp only [alike]
  split
  · exact same
  · exact differs

end Follows

theorem expect_follows {wanted : Kind} (fixed : new.kind wanted = wanted) (tokens : List Token) :
    Follows new new.token (ofBounded (expect wanted)) (ofBounded (expect wanted)) tokens := by
  rw [expect_reader]
  cases tokens with
  | nil => exact .peek_nil
  | cons token rest =>
      exact .peek_cons (.ifKind fixed (.take (.pass rfl))
        (.refuse (Relabelling.syntaxFault_mismatch fixed).symm))

section

variable {declared known : String → Bool}

mutual

theorem expression_follows (same : ∀ name, known (new.name name) = declared name)
    (tokens : List Token) : Follows new new.expr (ofBounded (expression declared))
      (ofBounded (expression known)) tokens := by
  rw [@expression_reader declared, @expression_reader known]
  refine .andThen (factor_follows same tokens) fun first rest read => ?_
  have shorter : rest.length < tokens.length := within_of_plain read
  exact operations_follows same first rest
termination_by 4 * tokens.length + 1
decreasing_by all_goals omega

theorem operations_follows (same : ∀ name, known (new.name name) = declared name) (left : Expr)
    (tokens : List Token) : Follows new new.expr (ofBounded (operations declared left))
      (ofBounded (operations known (new.expr left))) tokens := by
  rw [operations_reader, operations_reader]
  match tokens with
  | [] => exact .peek_nil
  | token :: rest =>
      refine .peek_cons ?_
      have sign : BinaryOp.ofKind? (new.token token).kind = BinaryOp.ofKind? token.kind :=
        Relabelling.ofKind?_kind token.kind
      rw [sign]
      cases BinaryOp.ofKind? token.kind with
      | none => exact .pass rfl
      | some op =>
          refine .take (.andThen (factor_follows same rest) fun right after read => ?_)
          have shorter : after.length < rest.length := within_of_plain read
          have more := operations_follows same (left.extend token.line op right) after
          rwa [Relabelling.expr_extend] at more
termination_by 4 * tokens.length
decreasing_by all_goals (simp only [List.length_cons] at *; omega)

theorem factor_follows (same : ∀ name, known (new.name name) = declared name)
    (tokens : List Token) : Follows new new.expr (ofBounded (factor declared))
      (ofBounded (factor known)) tokens := by
  rw [@factor_reader declared, @factor_reader known]
  match tokens with
  | [] => exact .peek_nil
  | token :: rest =>
      refine .peek_cons ?_
      have kind : (new.token token).kind = new.kind token.kind := rfl
      rw [kind]
      cases token.kind with
      | int value => exact .take (.pass rfl)
      | real value => exact .take (.pass rfl)
      | ident name => exact place_follows same name token rest
      | keyword word =>
          cases word with
          | trueWord | falseWord => exact .take (.pass rfl)
          | _ => exact .refuse rfl
      | mark sign =>
          cases sign with
          | minus | bang => exact .take (.map (factor_follows same rest) fun _ => rfl)
          | openParen =>
              exact .take (.andThen (expression_follows same rest) fun inner after _ =>
                .map (expect_follows rfl after) fun _ => rfl)
          | _ => exact .refuse rfl
      | _ => exact .refuse rfl
termination_by 4 * tokens.length
decreasing_by all_goals (simp only [List.length_cons] at *; omega)

theorem place_follows (same : ∀ name, known (new.name name) = declared name) (name : String)
    (token : Token) (rest : List Token) : Follows new new.expr (place declared name token.line)
      (place known (new.name name) (new.token token).line) (token :: rest) := by
  rw [place, place, same]
  split
  · exact .take (.map (subscripts_follows same rest) fun _ => rfl)
  · exact .refuse rfl
termination_by 4 * rest.length + 3
decreasing_by all_goals omega

theorem subscripts_follows (same : ∀ name, known (new.name name) = declared name)
    (tokens : List Token) : Follows new new.exprs (ofBounded (subscripts declared))
      (ofBounded (subscripts known)) tokens := by
  rw [@subscripts_reader declared, @subscripts_reader known]
  match tokens with
  | [] => exact .peek_nil
  | token :: rest =>
      refine .peek_cons (.ifKind rfl (.take ?_) (.pass rfl))
      refine .andThen (expression_follows same rest) fun index afterIndex read => ?_
      refine .andThen (expect_follows rfl afterIndex) fun closing after closed => ?_
      have first : afterIndex.length < rest.length := within_of_plain read
      have second : after.length < afterIndex.length := within_of_plain closed
      exact .map (subscripts_follows same after) fun _ => rfl
termination_by 4 * tokens.length + 2
decreasing_by all_goals (simp only [List.length_cons] at *; omega)

end

end

theorem dims_follows (tokens : List Token) :
    Follows new id (ofBounded dims) (ofBounded dims) tokens := by
  rw [dims_reader]
  match tokens with
  | [] => exact .peek_nil
  | token :: rest =>
      refine .peek_cons (.ifKind rfl (.take ?_) (.pass rfl))
      match rest with
      | [] => exact .peek_nil
      | size :: after =>
          refine .peek_cons ?_
          have kind : (new.token size).kind = new.kind size.kind := rfl
          rw [kind]
          cases size.kind with
          | int value =>
              refine .take (.andThen (expect_follows rfl after) fun closing behind closed => ?_)
              have shorter : behind.length < after.length := within_of_plain closed
              exact .map (dims_follows behind) fun _ => rfl
          | _ => exact .refuse rfl
termination_by tokens.length
decreasing_by all_goals (simp only [List.length_cons] at *; omega)

section

variable {scopes : Scopes} {scope : Nat}

theorem newName_follows (tokens : List Token) : Follows new new.ident
    (ofBounded (newName scopes scope)) (ofBounded (newName (new.scopes scopes) scope)) tokens := by
  rw [@newName_reader scopes, @newName_reader (new.scopes scopes)]
  match tokens with
  | [] => exact .peek_nil
  | token :: rest =>
      refine .peek_cons ?_
      have kind : (new.token token).kind = new.kind token.kind := rfl
      rw [kind]
      cases token.kind with
      | ident name =>
          simp only [Relabelling.kind, Relabelling.declaredIn_scopes]
          split
          · exact .refuse rfl
          · exact .take (.pass rfl)
      | _ => exact .refuse (Relabelling.syntaxFault_mismatchedName _).symm

theorem trailingDims_follows {name : String} {leading : List Nat} (tokens : List Token) :
    Follows new id (ofBounded (trailingDims name leading))
      (ofBounded (trailingDims (new.name name) leading)) tokens := by
  rw [trailingDims_reader, trailingDims_reader]
  split
  · exact dims_follows tokens
  · match tokens with
    | [] => exact .peek_nil
    | token :: rest =>
        exact .peek_cons (.ifKind rfl (.refuse rfl) (.pass rfl))

theorem namedPart_follows {basic : BasicType} {leading : List Nat} {name : Ident}
    (tokens : List Token) : Follows new new.declaration (namedPart basic leading name)
      (namedPart basic leading (new.ident name)) tokens := by
  refine .andThen (trailingDims_follows tokens) fun sizes rest _ => ?_
  dsimp only [id]
  split
  · exact .map (expect_follows rfl rest) fun _ => rfl
  · exact .refuse rfl

theorem declaration_follows {basic : BasicType} (tokens : List Token) :
    Follows new new.declaration (ofBounded (declaration scopes scope basic))
      (ofBounded (declaration (new.scopes scopes) scope basic)) tokens := by
  rw [declaration_reader, declaration_reader]
  exact .andThen (dims_follows tokens) fun leading afterLeading _ =>
    .andThen (newName_follows afterLeading) fun name afterName _ => namedPart_follows afterName

end

/-- Some declarations and the scopes once they are made. -/
def made (new : Relabelling) (made : List Declaration × Scopes) : List Declaration × Scopes :=
  (made.1.map new.declaration, new.scopes made.2)

theorem declarations_follows (scopes : Scopes) (scope : Nat) (tokens : List Token) :
    Follows new (made new) (ofBounded (declarations scopes scope))
      (ofBounded (declarations (new.scopes scopes) scope)) tokens := by
  rw [@declarations_reader scopes, @declarations_reader (new.scopes scopes)]
  match tokens with
  | [] => exact .peek_nil
  | token :: rest =>
      refine .peek_cons ?_
      have kind : (new.token token).kind = new.kind token.kind := rfl
      rw [kind]
      cases token.kind with
      | basic basic =>
          refine .take (.andThen (declaration_follows rest) fun first after read => ?_)
          have shorter : after.length < rest.length := within_of_plain read
          have more := declarations_follows (scopes.declare scope first) scope after
          rw [Relabelling.scopes_declare] at more
          exact .map more fun _ => rfl
      | _ => exact .pass rfl
termination_by tokens.length
decreasing_by all_goals (simp only [List.length_cons] at *; omega)

theorem condition_follows {declared known : String → Bool}
    (same : ∀ name, known (new.name name) = declared name) (tokens : List Token) :
    Follows new new.expr (ofBounded (condition declared)) (ofBounded (condition known)) tokens := by
  rw [condition_reader, condition_reader]
  exact .andThen (expect_follows rfl tokens) fun _ afterOpen _ =>
    .andThen (expression_follows same afterOpen) fun _ afterValue _ =>
      .map (expect_follows rfl afterValue) fun _ => rfl

theorem assigns_follows {declared known : String → Bool}
    (same : ∀ name, known (new.name name) = declared name) (name : String) (token : Token)
    (rest : List Token) : Follows new new.stmt (assigns declared name token.line)
      (assigns known (new.name name) (new.token token).line) (token :: rest) :=
  .andThen (place_follows same name token rest) fun _ afterTarget _ =>
    .andThen (expect_follows rfl afterTarget) fun _ afterSign _ =>
      .andThen (expression_follows same afterSign) fun _ afterValue _ =>
        .map (expect_follows rfl afterValue) fun _ => rfl

theorem isDeclared_scopes (scopes : Scopes) (scope : Nat) (name : String) :
    isDeclared (new.scopes scopes) scope (new.name name) = isDeclared scopes scope name := by
  rw [isDeclared, Relabelling.lookup_scopes, Option.isSome_map, isDeclared]

/-- A statement and the scopes once its blocks have been read. -/
def readStmt (new : Relabelling) (read : Stmt × Scopes) : Stmt × Scopes :=
  (new.stmt read.1, new.scopes read.2)

def readStmts (new : Relabelling) (read : List Stmt × Scopes) : List Stmt × Scopes :=
  (new.stmts read.1, new.scopes read.2)

def readBlock (new : Relabelling) (read : Block × Scopes) : Block × Scopes :=
  (new.block read.1, new.scopes read.2)

theorem whilePart_follows {scope : Nat} (body : Stmt × Scopes) (tokens : List Token) :
    Follows new (readStmt new) (whilePart scope body) (whilePart scope (readStmt new body))
      tokens :=
  .andThen (expect_follows rfl tokens) fun _ afterWhile _ =>
    .andThen (condition_follows (isDeclared_scopes body.2 scope) afterWhile) fun _ afterTest _ =>
      .map (expect_follows rfl afterTest) fun _ => rfl

mutual

theorem statement_follows (inLoop : Bool) (scope : Nat) (scopes : Scopes) (tokens : List Token) :
    Follows new (readStmt new) (ofBounded (statement inLoop scope scopes))
      (ofBounded (statement inLoop scope (new.scopes scopes))) tokens := by
  rw [@statement_reader scopes, @statement_reader (new.scopes scopes)]
  have same := @isDeclared_scopes new scopes scope
  match tokens with
  | [] => exact .peek_nil
  | token :: rest =>
      refine .peek_cons ?_
      have kind : (new.token token).kind = new.kind token.kind := rfl
      rw [kind]
      cases token.kind with
      | ident name => exact .map (assigns_follows same name token rest) fun _ => rfl
      | keyword word =>
          cases word with
          | ifWord =>
              refine .take (.andThen (condition_follows same rest) fun test afterTest tested => ?_)
              have first : afterTest.length < rest.length := within_of_plain tested
              refine .andThen (statement_follows inLoop scope scopes afterTest)
                fun body afterBody read => ?_
              have second : afterBody.length < afterTest.length := within_of_plain read
              exact elsePart_follows inLoop scope test body afterBody
          | whileWord =>
              refine .take (.andThen (condition_follows same rest) fun test afterTest tested => ?_)
              have first : afterTest.length < rest.length := within_of_plain tested
              exact .map (statement_follows true scope scopes afterTest) fun _ => rfl
          | doWord =>
              exact .take (.andThen (statement_follows true scope scopes rest)
                fun body afterBody _ => whilePart_follows body afterBody)
          | breakWord =>
              dsimp only [Relabelling.kind]
              split
              · exact .take (.map (expect_follows rfl rest) fun _ => rfl)
              · exact .refuse rfl
          | _ => exact .refuse rfl
      | mark sign =>
          cases sign with
          | openBrace =>
              exact .take (.map (block_follows inLoop (some scope) scopes rest) fun _ => rfl)
          | _ => exact .refuse rfl
      | _ => exact .refuse rfl
termination_by 3 * tokens.length
decreasing_by all_goals (simp only [List.length_cons] at *; omega)

theorem elsePart_follows (inLoop : Bool) (scope : Nat) (test : Expr) (body : Stmt × Scopes)
    (tokens : List Token) : Follows new (readStmt new) (elsePart inLoop scope test body)
      (elsePart inLoop scope (new.expr test) (readStmt new body)) tokens := by
  match tokens with
  | [] => exact .peek_nil
  | token :: rest =>
      exact .peek_cons (.ifKind rfl
        (.take (.map (statement_follows inLoop scope body.2 rest) fun _ => rfl)) (.pass rfl))
termination_by 3 * tokens.length
decreasing_by all_goals (simp only [List.length_cons] at *; omega)

theorem statements_follows (inLoop : Bool) (scope : Nat) (scopes : Scopes) (tokens : List Token) :
    Follows new (readStmts new) (ofBounded (statements inLoop scope scopes))
      (ofBounded (statements inLoop scope (new.scopes scopes))) tokens := by
  rw [@statements_reader scopes, @statements_reader (new.scopes scopes)]
  match tokens with
  | [] => exact .peek_nil
  | token :: rest =>
      refine .peek_cons (.ifKind rfl (.take (.pass rfl)) ?_)
      refine .andThen (statement_follows inLoop scope scopes (token :: rest))
        fun first after read => ?_
      have shorter : after.length < (token :: rest).length := within_of_plain read
      exact .map (statements_follows inLoop scope first.2 after) fun _ => rfl
termination_by 3 * tokens.length + 1
decreasing_by all_goals (simp only [List.length_cons] at *; omega)

theorem block_follows (inLoop : Bool) (parent : Option Nat) (scopes : Scopes)
    (tokens : List Token) : Follows new (readBlock new) (ofBounded (block inLoop parent scopes))
      (ofBounded (block inLoop parent (new.scopes scopes))) tokens := by
  rw [@block_reader scopes, @block_reader (new.scopes scopes), Relabelling.count_scopes,
    ← Relabelling.scopes_push]
  refine .andThen (declarations_follows _ _ tokens) fun declared after read => ?_
  have within : after.length < tokens.length + 1 := within_of_plain read
  exact .map (statements_follows inLoop scopes.count declared.2 after) fun _ => rfl
termination_by 3 * tokens.length + 2
decreasing_by omega

end

theorem wholeProgram_follows (tokens : List Token) :
    Follows new new.program wholeProgram wholeProgram tokens := by
  refine .andThen (expect_follows rfl tokens) fun _ afterOpen _ => ?_
  have empty : new.scopes {} = {} := congrArg Scopes.mk Array.map_empty
  have whole := @block_follows new false none {} afterOpen
  rw [empty] at whole
  refine .andThen whole fun read after _ => ?_
  match after with
  | [] => exact .peek_nil
  | token :: rest =>
      exact .peek_cons (.ifKind rfl (.pass rfl)
        (.refuse (Relabelling.syntaxFault_mismatch rfl).symm))

/-- The program that is read from relabelled tokens, or their fault. -/
theorem program_relabelled (tokens : List Token) : program (tokens.map new.token) =
    ((program tokens).map new.program).mapError new.failure := by
  rw [program_reader, wholeProgram_follows tokens, program_reader]
  cases wholeProgram tokens with
  | error failure => rfl
  | ok read => rfl

end ThreeAddress.Grammar

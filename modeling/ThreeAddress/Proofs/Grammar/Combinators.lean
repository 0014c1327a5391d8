import ThreeAddress.Grammar.Statement

namespace ThreeAddress.Grammar

/-- A reader without the bound on what it leaves. -/
abbrev Reader (α : Type) :=
  List Token → Except Failure (α × List Token)

section

variable {α β : Type} {bound limit : Nat}

def plain (reading : Except Failure (Phrase α bound)) : Except Failure (α × List Token) :=
  reading.map fun phrase => (phrase.value, phrase.rest)

namespace Reader

def ofBounded {bound : List Token → Nat}
    (reader : (tokens : List Token) → Except Failure (Phrase α (bound tokens))) : Reader α :=
  fun tokens => plain (reader tokens)

/-- Reads nothing. -/
def pass (value : α) : Reader α :=
  fun tokens => .ok (value, tokens)

/-- Refuses the next token. -/
def refuse (fault : SyntaxFault) : Reader α :=
  fun tokens => .error (.unexpected fault tokens)

/-- Goes on as the next token says, which stays unread. -/
def peek (next : Token → Reader α) : Reader α
  | [] => .error .brokenOff
  | token :: rest => next token (token :: rest)

/-- Reads one token. -/
def take (next : Reader α) : Reader α
  | [] => .error .brokenOff
  | _ :: rest => next rest

def andThen (first : Reader α) (next : α → Reader β) : Reader β :=
  fun tokens =>
    match first tokens with
    | .ok (value, rest) => next value rest
    | .error failure => .error failure

def map (first : Reader α) (function : α → β) : Reader β :=
  first.andThen fun value => pass (function value)

end Reader

theorem plain_bind {reading : Except Failure (Phrase α bound)}
    {next : Phrase α bound → Except Failure (Phrase β limit)} {follow : α → Reader β}
    (same : ∀ phrase, plain (next phrase) = follow phrase.value phrase.rest) :
    plain (reading >>= next) =
      match plain reading with
      | .ok (value, rest) => follow value rest
      | .error failure => .error failure := by
  cases reading with
  | error failure => rfl
  | ok phrase => exact same phrase

theorem plain_bind_same {reading : Except Failure (Phrase α bound)}
    {next : Phrase α bound → Except Failure (Phrase α limit)}
    (same : ∀ phrase, plain (next phrase) = .ok (phrase.value, phrase.rest)) :
    plain (reading >>= next) = plain reading := by
  cases reading with
  | error failure => rfl
  | ok phrase => exact same phrase

end

open Reader

variable {declared : String → Bool}

theorem expect_reader (wanted : Kind) : ofBounded (expect wanted) = peek fun token =>
    if token.kind = wanted then take (pass token)
    else refuse (.mismatch wanted token.kind) := by
  funext tokens
  cases tokens with
  | nil => rfl
  | cons token rest =>
      rw [ofBounded, expect, peek]
      split <;> rfl

theorem expression_reader : ofBounded (expression declared) =
    (ofBounded (factor declared)).andThen fun first => ofBounded (operations declared first) := by
  funext tokens
  rw [ofBounded, expression]
  exact plain_bind fun first => plain_bind_same fun whole => rfl

theorem operations_reader (left : Expr) : ofBounded (operations declared left) = peek fun token =>
    match BinaryOp.ofKind? token.kind with
    | none => pass left
    | some op => take <| (ofBounded (factor declared)).andThen fun right =>
        ofBounded (operations declared (left.extend token.line op right)) := by
  funext tokens
  cases tokens with
  | nil =>
      rw [ofBounded, operations]
      rfl
  | cons token rest =>
      rw [ofBounded, operations, peek]
      cases BinaryOp.ofKind? token.kind with
      | none => rfl
      | some op =>
          exact plain_bind fun right => plain_bind_same fun whole => rfl

/-- The reader of a location whose name is the next token. -/
def place (declared : String → Bool) (name : String) (line : Nat) : Reader Expr :=
  if declared name then
    take <| (ofBounded (subscripts declared)).map fun indices => .loc { line } ⟨name, line⟩ indices
  else refuse (.undeclared name)

theorem location_reader {name : String} {token : Token} {rest : List Token} :
    plain (location declared name token rest) = place declared name token.line (token :: rest) := by
  rw [location, place]
  split
  · exact plain_bind fun indices => rfl
  · rfl

theorem factor_reader : ofBounded (factor declared) = peek fun token =>
    match token.kind with
    | .mark .minus =>
        take <| (ofBounded (factor declared)).map (.unary { line := token.line } .neg)
    | .mark .bang => take <| (ofBounded (factor declared)).map (.unary { line := token.line } .not)
    | .mark .openParen => take <| (ofBounded (expression declared)).andThen fun inner =>
        (ofBounded (expect (.mark .closeParen))).map fun _ => .paren { line := token.line } inner
    | .int value => take (pass (.int { line := token.line } value))
    | .real value => take (pass (.real { line := token.line } value))
    | .keyword .trueWord => take (pass (.bool { line := token.line } true))
    | .keyword .falseWord => take (pass (.bool { line := token.line } false))
    | .ident name => place declared name token.line
    | found => refuse (.noFactor found) := by
  funext tokens
  cases tokens with
  | nil =>
      rw [ofBounded, factor]
      rfl
  | cons token rest =>
      rw [ofBounded, factor, peek]
      dsimp only
      generalize token.kind = kind
      split
      · exact plain_bind fun operand => rfl
      · exact plain_bind fun operand => rfl
      · exact plain_bind fun inner => plain_bind fun closing => rfl
      · rfl
      · rfl
      · rfl
      · rfl
      · exact location_reader
      · simp [*, plain, Reader.refuse, Except.map]

theorem subscripts_reader : ofBounded (subscripts declared) = peek fun token =>
    if token.kind = .mark .openBracket then
      take <| (ofBounded (expression declared)).andThen fun index =>
        (ofBounded (expect (.mark .closeBracket))).andThen fun _ =>
          (ofBounded (subscripts declared)).map fun more => index :: more
    else pass [] := by
  funext tokens
  cases tokens with
  | nil =>
      rw [ofBounded, subscripts]
      rfl
  | cons token rest =>
      rw [ofBounded, subscripts, peek]
      split
      · exact plain_bind fun index => plain_bind fun closing => plain_bind fun more => rfl
      · rfl

variable {scopes : Scopes} {scope : Nat}

/-- The reader of a size behind its opening bracket, and of the sizes after it. -/
def sizePart : Reader (List Nat) :=
  peek fun size =>
    match size.kind with
    | .int value => take <| (ofBounded (expect (.mark .closeBracket))).andThen fun _ =>
        (ofBounded dims).map fun more => value :: more
    | found => refuse (.noArraySize found)

theorem dims_reader : ofBounded dims = peek fun token =>
    if token.kind = .mark .openBracket then take sizePart else pass [] := by
  funext tokens
  cases tokens with
  | nil =>
      rw [ofBounded, dims]
      rfl
  | cons token rest =>
      rw [ofBounded, dims.eq_def, peek]
      dsimp only
      split
      · cases rest with
        | nil => rfl
        | cons size afterSize =>
            dsimp only [take, sizePart, peek]
            generalize size.kind = kind
            split
            · exact plain_bind fun closing => plain_bind fun more => rfl
            · simp [*, plain, Reader.refuse, Except.map]
      · rfl

theorem newName_reader : ofBounded (newName scopes scope) = peek fun token =>
    match token.kind with
    | .ident name =>
        if scopes.declaredIn scope name then refuse (.redeclared name)
        else take (pass ⟨name, token.line⟩)
    | found => refuse (.mismatchedName found) := by
  funext tokens
  cases tokens with
  | nil => rfl
  | cons token rest =>
      rw [ofBounded, newName, peek]
      generalize token.kind = kind
      split
      · next name =>
          by_cases known : scopes.declaredIn scope name = true <;>
            simp [known, plain, taken, Reader.take, Reader.pass, Reader.refuse, Except.map]
      · simp [*, plain, Reader.refuse, Except.map]

theorem trailingDims_reader {name : String} {leading : List Nat} :
    ofBounded (trailingDims name leading) =
      if leading.isEmpty then ofBounded dims
      else peek fun token =>
        if token.kind = .mark .openBracket then refuse (.repeatedDimensions name)
        else pass leading := by
  funext tokens
  rw [ofBounded, trailingDims.eq_def]
  split
  · rfl
  · cases tokens with
    | nil => rfl
    | cons token rest =>
        rw [peek]
        dsimp only
        split <;> rfl

/-- The reader of what follows the name in a declaration. -/
def namedPart (basic : BasicType) (leading : List Nat) (id : Ident) : Reader Declaration :=
  (ofBounded (trailingDims id.name leading)).andThen fun sizes =>
    if DeclaredType.fits ⟨basic, sizes⟩ then
      (ofBounded (expect (.mark .semicolon))).map fun _ => ⟨⟨basic, sizes⟩, id⟩
    else refuse (.arrayTooLarge id.name)

theorem declaration_reader {basic : BasicType} : ofBounded (declaration scopes scope basic) =
    (ofBounded dims).andThen fun leading =>
      (ofBounded (newName scopes scope)).andThen fun id => namedPart basic leading id := by
  funext tokens
  rw [ofBounded, declaration]
  refine plain_bind fun leading => plain_bind fun id => plain_bind fun sizes => ?_
  dsimp only
  split
  · exact plain_bind fun semicolon => rfl
  · rfl

theorem declarations_reader : ofBounded (declarations scopes scope) = peek fun token =>
    match token.kind with
    | .basic basic => take <| (ofBounded (declaration scopes scope basic)).andThen fun first =>
        (ofBounded (declarations (scopes.declare scope first) scope)).map fun made =>
          (first :: made.1, made.2)
    | _ => pass ([], scopes) := by
  funext tokens
  cases tokens with
  | nil =>
      rw [ofBounded, declarations]
      rfl
  | cons token rest =>
      rw [ofBounded, declarations, peek]
      generalize token.kind = kind
      split
      · exact plain_bind fun first => plain_bind fun made => rfl
      · simp [*, plain, untouched, Reader.pass, Except.map]

variable {inLoop : Bool}

theorem condition_reader : ofBounded (condition declared) =
    (ofBounded (expect (.mark .openParen))).andThen fun _ =>
      (ofBounded (expression declared)).andThen fun value =>
        (ofBounded (expect (.mark .closeParen))).map fun _ => value := by
  funext tokens
  rw [ofBounded, condition]
  exact plain_bind fun opening => plain_bind fun value => plain_bind fun closing => rfl

/-- The reader of an assignment whose target starts with the next token. -/
def assigns (declared : String → Bool) (name : String) (line : Nat) : Reader Stmt :=
  (place declared name line).andThen fun target =>
    (ofBounded (expect (.mark .assign))).andThen fun _ =>
      (ofBounded (expression declared)).andThen fun value =>
        (ofBounded (expect (.mark .semicolon))).map fun _ => .assign target value line

theorem assignment_reader {name : String} {token : Token} {rest : List Token} :
    plain (assignment declared name token rest) =
      assigns declared name token.line (token :: rest) := by
  rw [assignment, assigns, andThen, ← location_reader]
  exact plain_bind fun target => plain_bind fun sign => plain_bind fun value =>
    plain_bind fun semicolon => rfl

/-- The reader of what may follow the body of an `if`. -/
def elsePart (inLoop : Bool) (scope : Nat) (test : Expr) (body : Stmt × Scopes) :
    Reader (Stmt × Scopes) :=
  peek fun next =>
    if next.kind = .keyword .elseWord then
      take <| (ofBounded (statement inLoop scope body.2)).map fun otherwise =>
        (.ifThenElse test body.1 otherwise.1, otherwise.2)
    else pass (.ifThen test body.1, body.2)

/-- The reader of what follows the body of a `do`. -/
def whilePart (scope : Nat) (body : Stmt × Scopes) : Reader (Stmt × Scopes) :=
  (ofBounded (expect (.keyword .whileWord))).andThen fun _ =>
    (ofBounded (condition (isDeclared body.2 scope))).andThen fun test =>
      (ofBounded (expect (.mark .semicolon))).map fun _ => (.doWhile body.1 test, body.2)

theorem statement_reader : ofBounded (statement inLoop scope scopes) = peek fun token =>
    match token.kind with
    | .ident name =>
        (assigns (isDeclared scopes scope) name token.line).map fun stmt => (stmt, scopes)
    | .keyword .ifWord => take <|
        (ofBounded (condition (isDeclared scopes scope))).andThen fun test =>
          (ofBounded (statement inLoop scope scopes)).andThen fun body =>
            elsePart inLoop scope test body
    | .keyword .whileWord => take <|
        (ofBounded (condition (isDeclared scopes scope))).andThen fun test =>
          (ofBounded (statement true scope scopes)).map fun body => (.whileDo test body.1, body.2)
    | .keyword .doWord => take <|
        (ofBounded (statement true scope scopes)).andThen fun body => whilePart scope body
    | .keyword .breakWord =>
        if inLoop then
          take <| (ofBounded (expect (.mark .semicolon))).map fun _ => (.breakLoop, scopes)
        else refuse .strayBreak
    | .mark .openBrace => take <|
        (ofBounded (block inLoop (some scope) scopes)).map fun inner => (inner.1.stmt, inner.2)
    | .eof => refuse .unclosedBlock
    | found => refuse (.noStatement found) := by
  funext tokens
  cases tokens with
  | nil =>
      rw [ofBounded, statement]
      rfl
  | cons token rest =>
      rw [ofBounded, statement, peek]
      dsimp only
      generalize token.kind = kind
      split
      · simp only [map, andThen, ← assignment_reader]
        exact plain_bind fun stmt => rfl
      · refine plain_bind fun test => plain_bind fun body => ?_
        obtain ⟨⟨body, inner⟩, afterBody, second⟩ := body
        dsimp only
        split
        · rfl
        · next next afterNext shorter _ =>
            rw [elsePart, peek]
            split
            · exact plain_bind fun otherwise => rfl
            · rfl
      · exact plain_bind fun test => plain_bind fun body => rfl
      · exact plain_bind fun body => plain_bind fun word => plain_bind fun test =>
          plain_bind fun semicolon => rfl
      · split
        · exact plain_bind fun semicolon => rfl
        · rfl
      · exact plain_bind fun inner => rfl
      · rfl
      · simp [*, plain, Reader.refuse, Except.map]

theorem statements_reader : ofBounded (statements inLoop scope scopes) = peek fun token =>
    if token.kind = .mark .closeBrace then take (pass ([], scopes))
    else (ofBounded (statement inLoop scope scopes)).andThen fun first =>
      (ofBounded (statements inLoop scope first.2)).map fun more =>
        (first.1 :: more.1, more.2) := by
  funext tokens
  cases tokens with
  | nil =>
      rw [ofBounded, statements]
      rfl
  | cons token rest =>
      rw [ofBounded, statements, peek]
      split
      · rfl
      · exact plain_bind fun first => plain_bind fun more => rfl

theorem block_reader {parent : Option Nat} : ofBounded (block inLoop parent scopes) =
    (ofBounded (declarations (scopes.push parent) scopes.count)).andThen fun made =>
      (ofBounded (statements inLoop scopes.count made.2)).map fun body =>
        (⟨scopes.count, made.1, body.1⟩, body.2) := by
  funext tokens
  rw [ofBounded, block]
  exact plain_bind fun made => plain_bind fun body => rfl

/-- The reader of a whole program, which leaves the end of the text unread. -/
def wholeProgram : Reader Program :=
  (ofBounded (expect (.mark .openBrace))).andThen fun _ =>
    (ofBounded (block false none {})).andThen fun whole => peek fun token =>
      if token.kind = .eof then pass ⟨whole.1, whole.2⟩ else refuse (.mismatch .eof token.kind)

theorem program_reader (tokens : List Token) :
    program tokens = (wholeProgram tokens).map Prod.fst := by
  rw [program, wholeProgram, andThen, ofBounded]
  rcases expect (.mark .openBrace) tokens with failure | ⟨opening, afterOpen, first⟩
  · rfl
  · change (block false none {} afterOpen >>= _) = Except.map _ (andThen _ _ afterOpen)
    rw [andThen, ofBounded]
    rcases block false none {} afterOpen with failure | ⟨⟨whole, scopes⟩, after, second⟩
    · rfl
    · cases after with
      | nil => rfl
      | cons token rest =>
          change (if token.kind = .eof then _ else _) = Except.map _ (peek _ (token :: rest))
          rw [peek]
          split <;> rfl

end ThreeAddress.Grammar

import ThreeAddress.Compile

namespace ThreeAddress.Descent

/-!
# Reading a program on demand

The readers of the grammar are given all tokens at once. Here the grammar is read with a
lexer and one token of lookahead: the lexer is called when the lookahead is consumed, and
the first call that fails ends the reading. There is a routine for each phrase, with a loop
where the grammar repeats and a call where it nests. Whether this comes to an end is left
open by giving each routine fuel.

A record is kept of the results of the lexer, of the consumed tokens, of every call with
the calls that are still active, and of every pass through a loop. Places count the tokens
consumed before them.
-/

inductive Routine where
  | program
  | block
  | declaration
  | sizes
  | statement
  | assignment
  | ifThen
  | whileDo
  | doWhile
  | breakLoop
  | expression
  | binary
  | factor
  | location
deriving DecidableEq

inductive Loop where
  | declarations
  | statements
  | sizes
  | indices
  | operators
  | tighterOperators
deriving DecidableEq

structure Call where
  routine : Routine
  start : Nat

inductive Event where
  | called (active : List Call) (call : Call)
  | passed (loop : Loop) (start stop : Nat)

structure Trace where
  results : List (Except LexicalError Token) := []
  consumed : List Token := []
  events : List Event := []

structure Session where
  lexer : Lexer
  look : Token
  scopes : Scopes := {}
  active : List Call := []
  trace : Trace

def Session.place (session : Session) : Nat :=
  session.trace.consumed.length

/-- Why the reading stops early. -/
inductive Halt where
  | refused (error : CompileError)
  | exhausted

def Parsing (α : Type) :=
  Session → Except Halt α × Session

instance : Monad Parsing where
  pure value session := (.ok value, session)
  bind first next session :=
    match first session with
    | (.ok value, session) => next value session
    | (.error halt, session) => (.error halt, session)

variable {α : Type}

def look : Parsing Token :=
  fun session => (.ok session.look, session)

def place : Parsing Nat :=
  fun session => (.ok session.place, session)

def exhausted : Parsing α :=
  fun session => (.error .exhausted, session)

/-- Refuses the lookahead. -/
def fail (fault : SyntaxFault) : Parsing α := fun session =>
  let lexer :=
    { session.lexer with missingSemicolon := decide (fault = SyntaxFault.missingSemicolon) }
  (.error (.refused (.syntactic fault lexer.excerpt.1)), { session with lexer := lexer.excerpt.2 })

/-- Consumes the lookahead once the lexer has answered the token behind it. -/
def advance : Parsing Token := fun session =>
  match session.lexer.next with
  | (.ok token, lexer) =>
      (.ok session.look, { session with
        lexer
        look := token
        trace.results := session.trace.results ++ [.ok token]
        trace.consumed := session.trace.consumed ++ [session.look] })
  | (.error error, lexer) =>
      (.error (.refused (.lexical error)), { session with
        lexer
        trace.results := session.trace.results ++ [.error error] })

def consume (kind : Kind) : Parsing Bool := do
  let token ← look
  if token.kind = kind then
    let _ ← advance
    return true
  else return false

def expect (wanted : Kind) : Parsing Token := do
  let token ← look
  if token.kind = wanted then advance
  else fail (.mismatch wanted token.kind)

def identifier : Parsing Ident := do
  let token ← look
  match token.kind with
  | .ident name => do
      let _ ← advance
      return ⟨name, token.line⟩
  | found => fail (.mismatchedName found)

def Session.call (routine : Routine) (session : Session) : Session :=
  let call : Call := ⟨routine, session.place⟩
  { session with
    active := call :: session.active
    trace.events := session.trace.events ++ [.called session.active call] }

/-- Returns to the routines that have been active before. -/
def returnTo (active : List Call) : Except Halt α × Session → Except Halt α × Session
  | (.ok value, session) => (.ok value, { session with active })
  | (.error halt, session) => (.error halt, session)

/-- Calls a routine, which is active until it returns. -/
def within (routine : Routine) (body : Parsing α) : Parsing α :=
  fun session => returnTo session.active (body (session.call routine))

/-- Ends a pass through a loop that has started at this place. -/
def passed (loop : Loop) (start : Nat) : Parsing Unit := fun session =>
  (.ok (), { session with
    trace.events := session.trace.events ++ [.passed loop start session.place] })

def currentScopes : Parsing Scopes :=
  fun session => (.ok session.scopes, session)

def pushScope (parent : Option Nat) : Parsing Nat := fun session =>
  (.ok session.scopes.count, { session with scopes := session.scopes.push parent })

def declare (scope : Nat) (declaration : Declaration) : Parsing Unit := fun session =>
  (.ok (), { session with scopes := session.scopes.declare scope declaration })

def sizesLoop : Nat → Parsing (List Nat)
  | 0 => exhausted
  | fuel + 1 => do
      let start ← place
      if ← consume (.mark .openBracket) then
        let size ← look
        match size.kind with
        | .int value => do
            let _ ← advance
            let _ ← expect (.mark .closeBracket)
            passed .sizes start
            let more ← sizesLoop fuel
            return value :: more
        | found => fail (.noArraySize found)
      else return []

def sizes (fuel : Nat) : Parsing (List Nat) :=
  within .sizes (sizesLoop fuel)

def newName (scope : Nat) : Parsing Ident := do
  let token ← look
  let scopes ← currentScopes
  match token.kind with
  | .ident name => if scopes.declaredIn scope name then fail (.redeclared name) else identifier
  | _ => identifier

def trailingSizes (name : String) (leading : List Nat) (fuel : Nat) : Parsing (List Nat) :=
  if leading.isEmpty then sizes fuel
  else do
    let token ← look
    if token.kind = .mark .openBracket then fail (.repeatedDimensions name)
    else return leading

def declaration (scope : Nat) (basic : BasicType) (fuel : Nat) : Parsing Declaration :=
  within .declaration do
    let _ ← advance
    let leading ← sizes fuel
    let id ← newName scope
    let all ← trailingSizes id.name leading fuel
    let made : Declaration := ⟨⟨basic, all⟩, id⟩
    if made.type.fits then
      declare scope made
      let _ ← expect (.mark .semicolon)
      return made
    else fail (.arrayTooLarge id.name)

def declarations (scope : Nat) : Nat → Parsing (List Declaration)
  | 0 => exhausted
  | fuel + 1 => do
      let start ← place
      let token ← look
      match token.kind with
      | .basic basic => do
          let first ← declaration scope basic fuel
          passed .declarations start
          let more ← declarations scope fuel
          return first :: more
      | _ => return []

mutual

def expression (scope : Nat) : Nat → Parsing Expr
  | 0 => exhausted
  | fuel + 1 => within .expression do
      let first ← factor scope fuel
      binary scope 0 first fuel
termination_by structural fuel => fuel

/-- Takes the operators of at least this precedence. -/
def binary (scope least : Nat) (left : Expr) : Nat → Parsing Expr
  | 0 => exhausted
  | fuel + 1 => within .binary (operators scope least left fuel)
termination_by structural fuel => fuel

def operators (scope least : Nat) (left : Expr) : Nat → Parsing Expr
  | 0 => exhausted
  | fuel + 1 => do
      let start ← place
      let token ← look
      match BinaryOp.ofKind? token.kind with
      | none => return left
      | some op =>
          if op.precedence < least then return left
          else do
            let _ ← advance
            let operand ← factor scope fuel
            let right ← tighterOperators scope op.precedence operand fuel
            passed .operators start
            operators scope least (.binary { line := token.line } op left right) fuel
termination_by structural fuel => fuel

/-- Lets the operators claim an operand that bind tighter than this precedence. -/
def tighterOperators (scope bound : Nat) (right : Expr) : Nat → Parsing Expr
  | 0 => exhausted
  | fuel + 1 => do
      let start ← place
      let token ← look
      match BinaryOp.ofKind? token.kind with
      | none => return right
      | some op =>
          if op.precedence ≤ bound then return right
          else do
            let whole ← binary scope op.precedence right fuel
            passed .tighterOperators start
            tighterOperators scope bound whole fuel
termination_by structural fuel => fuel

def factor (scope : Nat) : Nat → Parsing Expr
  | 0 => exhausted
  | fuel + 1 => within .factor do
      let token ← look
      let note : Note := { line := token.line }
      match token.kind with
      | .mark .minus => do
          let _ ← advance
          let operand ← factor scope fuel
          return .unary note .neg operand
      | .mark .bang => do
          let _ ← advance
          let operand ← factor scope fuel
          return .unary note .not operand
      | .mark .openParen => do
          let _ ← advance
          let inner ← expression scope fuel
          let _ ← expect (.mark .closeParen)
          return .paren note inner
      | .int value => do
          let _ ← advance
          return .int note value
      | .real value => do
          let _ ← advance
          return .real note value
      | .keyword .trueWord => do
          let _ ← advance
          return .bool note true
      | .keyword .falseWord => do
          let _ ← advance
          return .bool note false
      | .ident _ => location scope fuel
      | found => fail (.noFactor found)
termination_by structural fuel => fuel

def location (scope : Nat) : Nat → Parsing Expr
  | 0 => exhausted
  | fuel + 1 => within .location do
      let token ← look
      let scopes ← currentScopes
      let id ← match token.kind with
        | .ident name =>
            if (scopes.lookup scope name).isSome then identifier else fail (.undeclared name)
        | _ => identifier
      let indices ← indicesLoop scope fuel
      return .loc { line := id.line } id indices
termination_by structural fuel => fuel

def indicesLoop (scope : Nat) : Nat → Parsing (List Expr)
  | 0 => exhausted
  | fuel + 1 => do
      let start ← place
      if ← consume (.mark .openBracket) then
        let index ← expression scope fuel
        let _ ← expect (.mark .closeBracket)
        passed .indices start
        let more ← indicesLoop scope fuel
        return index :: more
      else return []
termination_by structural fuel => fuel

end

def assignment (scope fuel : Nat) : Parsing Stmt :=
  within .assignment do
    let token ← look
    let target ← location scope fuel
    let _ ← expect (.mark .assign)
    let value ← expression scope fuel
    let _ ← expect (.mark .semicolon)
    return .assign target value token.line

def condition (scope fuel : Nat) : Parsing Expr := do
  let _ ← expect (.mark .openParen)
  let value ← expression scope fuel
  let _ ← expect (.mark .closeParen)
  return value

def breakLoop (inLoop : Bool) : Parsing Stmt :=
  within .breakLoop do
    if inLoop then
      let _ ← expect (.keyword .breakWord)
      let _ ← expect (.mark .semicolon)
      return .breakLoop
    else fail .strayBreak

mutual

def block (inLoop : Bool) (parent : Option Nat) : Nat → Parsing Block
  | 0 => exhausted
  | fuel + 1 => within .block do
      let _ ← expect (.mark .openBrace)
      let scope ← pushScope parent
      let declared ← declarations scope fuel
      let body ← statements inLoop scope fuel
      return ⟨scope, declared, body⟩
termination_by structural fuel => fuel

/-- The statements of a block, and the brace that closes it. -/
def statements (inLoop : Bool) (scope : Nat) : Nat → Parsing (List Stmt)
  | 0 => exhausted
  | fuel + 1 => do
      let start ← place
      let token ← look
      if token.kind = .mark .closeBrace then
        let _ ← expect (.mark .closeBrace)
        return []
      else
        let first ← statement inLoop scope fuel
        passed .statements start
        let more ← statements inLoop scope fuel
        return first :: more
termination_by structural fuel => fuel

def statement (inLoop : Bool) (scope : Nat) : Nat → Parsing Stmt
  | 0 => exhausted
  | fuel + 1 => within .statement do
      let token ← look
      match token.kind with
      | .ident _ => assignment scope fuel
      | .keyword .ifWord => ifThen inLoop scope fuel
      | .keyword .whileWord => whileDo scope fuel
      | .keyword .doWord => doWhile scope fuel
      | .keyword .breakWord => breakLoop inLoop
      | .mark .openBrace => do
          let inner ← block inLoop (some scope) fuel
          return inner.stmt
      | .eof => fail .unclosedBlock
      | found => fail (.noStatement found)
termination_by structural fuel => fuel

def ifThen (inLoop : Bool) (scope : Nat) : Nat → Parsing Stmt
  | 0 => exhausted
  | fuel + 1 => within .ifThen do
      let _ ← expect (.keyword .ifWord)
      let test ← condition scope fuel
      let body ← statement inLoop scope fuel
      if ← consume (.keyword .elseWord) then
        let otherwise ← statement inLoop scope fuel
        return .ifThenElse test body otherwise
      else return .ifThen test body
termination_by structural fuel => fuel

def whileDo (scope : Nat) : Nat → Parsing Stmt
  | 0 => exhausted
  | fuel + 1 => within .whileDo do
      let _ ← expect (.keyword .whileWord)
      let test ← condition scope fuel
      let body ← statement true scope fuel
      return .whileDo test body
termination_by structural fuel => fuel

def doWhile (scope : Nat) : Nat → Parsing Stmt
  | 0 => exhausted
  | fuel + 1 => within .doWhile do
      let _ ← expect (.keyword .doWord)
      let body ← statement true scope fuel
      let _ ← expect (.keyword .whileWord)
      let test ← condition scope fuel
      let _ ← expect (.mark .semicolon)
      return .doWhile body test
termination_by structural fuel => fuel

end

def program (fuel : Nat) : Parsing Program :=
  within .program do
    let whole ← block false none fuel
    let token ← look
    if token.kind = .eof then
      let scopes ← currentScopes
      return ⟨whole, scopes⟩
    else fail (.mismatch .eof token.kind)

/-- Reads a text with this much fuel, from the first call of the lexer on. -/
def parse (fuel : Nat) (filename source : String) : Except Halt Program × Trace :=
  match (Lexer.ofText filename source).next with
  | (.ok token, lexer) =>
      let (result, session) :=
        program fuel { lexer, look := token, trace := { results := [.ok token] } }
      (result, session.trace)
  | (.error error, _) => (.error (.refused (.lexical error)), { results := [.error error] })

end ThreeAddress.Descent

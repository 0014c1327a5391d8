import ThreeAddress.Grammar.Declaration
import ThreeAddress.Grammar.Expression
import ThreeAddress.Program

namespace ThreeAddress.Grammar

/-!
# Statements and programs

```
program   = block
block     = "{" declaration* statement* "}"
statement = location "=" expression ";"
          | "if" "(" expression ")" statement ("else" statement)?
          | "while" "(" expression ")" statement
          | "do" statement "while" "(" expression ")" ";"
          | "break" ";"
          | block
```

Blocks open scopes as they are read, and every name in an expression must be
declared by then. A `break` stands inside a loop.
-/

def isDeclared (scopes : Scopes) (scope : Nat) (name : String) : Bool :=
  (scopes.lookup scope name).isSome

def condition (declared : String → Bool) (tokens : List Token) : Reads Expr tokens := do
  let ⟨_, afterOpen, first⟩ ← expect (.mark .openParen) tokens
  let ⟨value, afterValue, second⟩ ← expression declared afterOpen
  let ⟨_, after, third⟩ ← expect (.mark .closeParen) afterValue
  return ⟨value, after, shorter_trans₃ first second third⟩

/-- A location, an equals sign and an expression. The first token is the location's name. -/
def assignment (declared : String → Bool) (name : String) (token : Token) (rest : List Token) :
    Reads Stmt rest := do
  let ⟨target, afterTarget, first⟩ ← location declared name token rest
  let ⟨_, afterSign, second⟩ ← expect (.mark .assign) afterTarget
  let ⟨value, afterValue, third⟩ ← expression declared afterSign
  let ⟨_, after, fourth⟩ ← expect (.mark .semicolon) afterValue
  return ⟨.assign target value token.line, after,
    shorter_trans₄_of_within first second third fourth⟩

mutual

/-- A statement, and the scopes once its blocks have been read. -/
def statement (inLoop : Bool) (scope : Nat) (scopes : Scopes) :
    (tokens : List Token) → Reads (Stmt × Scopes) tokens
  | [] => .error .brokenOff
  | token :: rest =>
      let declared := isDeclared scopes scope
      match token.kind with
      | .ident name => do
          let ⟨stmt, after, shorter⟩ ← assignment declared name token rest
          return ⟨(stmt, scopes), after, Nat.lt_succ_of_lt shorter⟩
      | .keyword .ifWord => do
          let ⟨test, afterTest, first⟩ ← condition declared rest
          let ⟨(body, scopes), afterBody, second⟩ ← statement inLoop scope scopes afterTest
          match afterBody, second with
          | [], _ => .error .brokenOff
          | next :: afterNext, second =>
              have third : afterNext.length < rest.length := by
                simp only [List.length_cons] at second; omega
              if next.kind = .keyword .elseWord then
                let ⟨(otherwise, scopes), after, fourth⟩ ←
                  statement inLoop scope scopes afterNext
                return ⟨(.ifThenElse test body otherwise, scopes), after,
                  by simp only [List.length_cons]; omega⟩
              else
                return ⟨(.ifThen test body, scopes), next :: afterNext,
                  by simp only [List.length_cons]; omega⟩
      | .keyword .whileWord => do
          let ⟨test, afterTest, first⟩ ← condition declared rest
          let ⟨(body, scopes), after, second⟩ ← statement true scope scopes afterTest
          return ⟨(.whileDo test body, scopes), after, by simp only [List.length_cons]; omega⟩
      | .keyword .doWord => do
          let ⟨(body, scopes), afterBody, first⟩ ← statement true scope scopes rest
          let ⟨_, afterWhile, second⟩ ← expect (.keyword .whileWord) afterBody
          let ⟨test, afterTest, third⟩ ← condition (isDeclared scopes scope) afterWhile
          let ⟨_, after, fourth⟩ ← expect (.mark .semicolon) afterTest
          return ⟨(.doWhile body test, scopes), after, by simp only [List.length_cons]; omega⟩
      | .keyword .breakWord =>
          if inLoop then do
            let ⟨_, after, shorter⟩ ← expect (.mark .semicolon) rest
            return ⟨(.breakLoop, scopes), after, Nat.lt_succ_of_lt shorter⟩
          else .error (.unexpected .strayBreak (token :: rest))
      | .mark .openBrace => do
          let ⟨(inner, scopes), after, shorter⟩ ← block inLoop (some scope) scopes rest
          return ⟨(inner.stmt, scopes), after, Nat.lt_succ_of_lt shorter⟩
      | .eof => .error (.unexpected .unclosedBlock (token :: rest))
      | found => .error (.unexpected (.noStatement found) (token :: rest))
termination_by tokens => 3 * tokens.length
decreasing_by all_goals (simp only [List.length_cons] at *; omega)

def statements (inLoop : Bool) (scope : Nat) (scopes : Scopes) :
    (tokens : List Token) → Reads (List Stmt × Scopes) tokens
  | [] => .error .brokenOff
  | token :: rest =>
      if token.kind = .mark .closeBrace then taken ([], scopes) token rest
      else do
        let ⟨(first, scopes), afterFirst, shorter⟩ ←
          statement inLoop scope scopes (token :: rest)
        let ⟨(more, scopes), after, within⟩ ← statements inLoop scope scopes afterFirst
        return ⟨(first :: more, scopes), after, by omega⟩
termination_by tokens => 3 * tokens.length + 1
decreasing_by all_goals (simp only [List.length_cons] at *; omega)

/-- A block after its opening brace. It opens the next scope. -/
def block (inLoop : Bool) (parent : Option Nat) (scopes : Scopes) (tokens : List Token) :
    Reads (Block × Scopes) tokens := do
  let scope := scopes.count
  let ⟨(declared, scopes), afterDeclared, first⟩ ←
    declarations (scopes.push parent) scope tokens
  let ⟨(body, scopes), after, second⟩ ← statements inLoop scope scopes afterDeclared
  return ⟨(⟨scope, declared, body⟩, scopes), after, shorter_trans_of_within first second⟩
termination_by 3 * tokens.length + 2
decreasing_by omega

end

/-- A program takes all tokens up to the end of the text, and leaves that one. -/
def program (tokens : List Token) : Except Failure Program := do
  let ⟨_, afterOpen, _⟩ ← expect (.mark .openBrace) tokens
  let ⟨(whole, scopes), after, _⟩ ← block false none {} afterOpen
  match after with
  | [] => .error .brokenOff
  | token :: rest =>
      if token.kind = .eof then return ⟨whole, scopes⟩
      else .error (.unexpected (.mismatch .eof token.kind) (token :: rest))

end ThreeAddress.Grammar

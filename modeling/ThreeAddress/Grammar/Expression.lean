import ThreeAddress.Expr
import ThreeAddress.Grammar.Phrase

namespace ThreeAddress.Grammar

/-!
# Expressions

```
expression = factor (operator factor)*
factor     = ("-" | "!") factor | "(" expression ")" | number | "true" | "false" | location
location   = identifier ("[" expression "]")*
```

The operators are grouped by precedence as they are read: `Expr.extend` puts
each one where it belongs in the expression before it. The readers are told which
names are declared.
-/

mutual

def expression (declared : String → Bool) (tokens : List Token) : Reads Expr tokens := do
  let ⟨first, rest, shorter⟩ ← factor declared tokens
  let ⟨whole, after, within⟩ ← operations declared first rest
  return ⟨whole, after, by omega⟩
termination_by 4 * tokens.length + 1
decreasing_by all_goals omega

/-- The operators that follow an expression, each with its right operand. -/
def operations (declared : String → Bool) (left : Expr) :
    (tokens : List Token) → MayRead Expr tokens
  | [] => .error .brokenOff
  | token :: rest =>
      match BinaryOp.ofKind? token.kind with
      | none => untouched left (token :: rest)
      | some op => do
          let ⟨right, afterRight, shorter⟩ ← factor declared rest
          let ⟨whole, after, within⟩ ←
            operations declared (left.extend token.line op right) afterRight
          return ⟨whole, after, by simp only [List.length_cons]; omega⟩
termination_by tokens => 4 * tokens.length
decreasing_by all_goals (simp only [List.length_cons] at *; omega)

def factor (declared : String → Bool) : (tokens : List Token) → Reads Expr tokens
  | [] => .error .brokenOff
  | token :: rest =>
      let note : Note := { line := token.line }
      match token.kind with
      | .mark .minus => do
          let ⟨operand, after, shorter⟩ ← factor declared rest
          return ⟨.unary note .neg operand, after, Nat.lt_succ_of_lt shorter⟩
      | .mark .bang => do
          let ⟨operand, after, shorter⟩ ← factor declared rest
          return ⟨.unary note .not operand, after, Nat.lt_succ_of_lt shorter⟩
      | .mark .openParen => do
          let ⟨inner, afterInner, shorter⟩ ← expression declared rest
          let ⟨_, after, within⟩ ← expect (.mark .closeParen) afterInner
          return ⟨.paren note inner, after, by simp only [List.length_cons]; omega⟩
      | .int value => taken (.int note value) token rest
      | .real value => taken (.real note value) token rest
      | .keyword .trueWord => taken (.bool note true) token rest
      | .keyword .falseWord => taken (.bool note false) token rest
      | .ident name => location declared name token rest
      | found => .error (.unexpected (.noFactor found) (token :: rest))
termination_by tokens => 4 * tokens.length
decreasing_by all_goals (simp only [List.length_cons] at *; omega)

/-- A declared name, whose token has been seen, and its indices. -/
def location (declared : String → Bool) (name : String) (token : Token) (rest : List Token) :
    MayRead Expr rest :=
  if declared name then do
    let ⟨indices, after, within⟩ ← subscripts declared rest
    return ⟨.loc { line := token.line } ⟨name, token.line⟩ indices, after, within⟩
  else .error (.unexpected (.undeclared name) (token :: rest))
termination_by 4 * rest.length + 3
decreasing_by all_goals omega

def subscripts (declared : String → Bool) : (tokens : List Token) → MayRead (List Expr) tokens
  | [] => .error .brokenOff
  | token :: rest =>
      if token.kind = .mark .openBracket then do
        let ⟨index, afterIndex, shorter⟩ ← expression declared rest
        let ⟨_, afterBracket, closed⟩ ← expect (.mark .closeBracket) afterIndex
        let ⟨more, after, within⟩ ← subscripts declared afterBracket
        return ⟨index :: more, after, by simp only [List.length_cons]; omega⟩
      else untouched [] (token :: rest)
termination_by tokens => 4 * tokens.length + 2
decreasing_by all_goals (simp only [List.length_cons] at *; omega)

end

end ThreeAddress.Grammar

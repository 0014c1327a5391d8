import ThreeAddress.Proofs.Grammar.Grouping
import ThreeAddress.Program
import ThreeAddress.Token.Kind

namespace ThreeAddress

/-!
# The grammar

```
program     = block end-of-text
block       = "{" declaration* statement* "}"
declaration = basic dims identifier ";" | basic identifier dims ";"
dims        = ("[" number "]")*
statement   = location "=" expression ";"
            | "if" "(" expression ")" statement ("else" statement)?
            | "while" "(" expression ")" statement
            | "do" statement "while" "(" expression ")" ";"
            | "break" ";"
            | block
expression  = factor (operator factor)*
factor      = ("-" | "!") factor | "(" expression ")" | number | "true" | "false" | location
location    = identifier ("[" expression "]")*
```

A derivation relates the tokens from the start of a phrase on, the tree of the
phrase, and the tokens after it. No rule looks at the tokens after a phrase. The
rules for names, sizes, breaks and the numbers of blocks are premises.
-/

namespace Stmt

mutual

/-- The scopes of the blocks of a statement in the order of their opening braces. -/
def opens (around : Option Nat) : Stmt → List Scope
  | .ifThen _ body => body.opens around
  | .ifThenElse _ body otherwise => body.opens around ++ otherwise.opens around
  | .whileDo _ body => body.opens around
  | .doWhile body _ => body.opens around
  | .block scope declarations body => ⟨around, declarations⟩ :: allOpen (some scope) body
  | .assign _ _ _ | .breakLoop => []

def allOpen (around : Option Nat) : List Stmt → List Scope
  | [] => []
  | first :: rest => first.opens around ++ allOpen around rest

end

end Stmt

namespace Grammar

inductive IsDims : List Token → List Nat → List Token → Prop
  | none {rest} : IsDims rest [] rest
  | more {opening size closing : Token} {tokens value values rest} :
      opening.kind = .mark .openBracket → size.kind = .int value →
      closing.kind = .mark .closeBracket → IsDims tokens values rest →
      IsDims (opening :: size :: closing :: tokens) (value :: values) rest

/-- The two forms of a declaration have the same tree. Its size in bytes must exist and be an
integer of the language. -/
inductive IsDeclaration : List Token → Declaration → List Token → Prop
  | leading {type name semicolon : Token} {basic id tokens sizes bytes rest} :
      type.kind = .basic basic → IsDims tokens sizes (name :: semicolon :: rest) →
      name.kind = .ident id → semicolon.kind = .mark .semicolon →
      DeclaredType.size ⟨basic, sizes⟩ = some bytes → bytes ≤ intMax →
      IsDeclaration (type :: tokens) ⟨⟨basic, sizes⟩, ⟨id, name.line⟩⟩ rest
  | trailing {type name semicolon : Token} {basic id tokens sizes bytes rest} :
      type.kind = .basic basic → name.kind = .ident id →
      IsDims tokens sizes (semicolon :: rest) → semicolon.kind = .mark .semicolon →
      DeclaredType.size ⟨basic, sizes⟩ = some bytes → bytes ≤ intMax →
      IsDeclaration (type :: name :: tokens) ⟨⟨basic, sizes⟩, ⟨id, name.line⟩⟩ rest

inductive IsDeclarations : List Token → List Declaration → List Token → Prop
  | nil {rest} : IsDeclarations rest [] rest
  | cons {tokens declaration middle more rest} : IsDeclaration tokens declaration middle →
      IsDeclarations middle more rest → IsDeclarations tokens (declaration :: more) rest

mutual

/-- The tree of an expression is the one with its operators in their order and grouped by
precedence. -/
inductive IsExpression (visible : List String) : List Token → Expr → List Token → Prop
  | grouped {tokens middle rest} {whole : Expr} : IsFactor visible tokens whole.first middle →
      AreOperations visible middle whole.operations rest → whole.Grouped →
      IsExpression visible tokens whole rest

inductive AreOperations (visible : List String) :
    List Token → List Operation → List Token → Prop
  | nil {rest} : AreOperations visible rest [] rest
  | cons {sign : Token} {op tokens operand middle more rest} :
      BinaryOp.ofKind? sign.kind = some op → IsFactor visible tokens operand middle →
      AreOperations visible middle more rest →
      AreOperations visible (sign :: tokens) (⟨{ line := sign.line }, op, operand⟩ :: more) rest

inductive IsFactor (visible : List String) : List Token → Expr → List Token → Prop
  | unary {sign : Token} {op : UnaryOp} {tokens operand rest} : sign.kind = .mark op.mark →
      IsFactor visible tokens operand rest →
      IsFactor visible (sign :: tokens) (.unary { line := sign.line } op operand) rest
  | paren {opening closing : Token} {tokens inner rest} : opening.kind = .mark .openParen →
      IsExpression visible tokens inner (closing :: rest) → closing.kind = .mark .closeParen →
      IsFactor visible (opening :: tokens) (.paren { line := opening.line } inner) rest
  | int {token : Token} {value : Nat} {rest} : token.kind = .int value →
      IsFactor visible (token :: rest) (.int { line := token.line } value) rest
  | real {token : Token} {value rest} : token.kind = .real value →
      IsFactor visible (token :: rest) (.real { line := token.line } value) rest
  | trueWord {token : Token} {rest} : token.kind = .keyword .trueWord →
      IsFactor visible (token :: rest) (.bool { line := token.line } true) rest
  | falseWord {token : Token} {rest} : token.kind = .keyword .falseWord →
      IsFactor visible (token :: rest) (.bool { line := token.line } false) rest
  | location {tokens place rest} : IsLocation visible tokens place rest →
      IsFactor visible tokens place rest

inductive IsLocation (visible : List String) : List Token → Expr → List Token → Prop
  | subscripts {token : Token} {name tokens indices rest} : token.kind = .ident name →
      name ∈ visible → AreSubscripts visible tokens indices rest →
      IsLocation visible (token :: tokens)
        (.loc { line := token.line } ⟨name, token.line⟩ indices) rest

inductive AreSubscripts (visible : List String) : List Token → List Expr → List Token → Prop
  | nil {rest} : AreSubscripts visible rest [] rest
  | cons {opening closing : Token} {tokens index middle more rest} :
      opening.kind = .mark .openBracket →
      IsExpression visible tokens index (closing :: middle) →
      closing.kind = .mark .closeBracket → AreSubscripts visible middle more rest →
      AreSubscripts visible (opening :: tokens) (index :: more) rest

end

inductive IsCondition (visible : List String) : List Token → Expr → List Token → Prop
  | parens {opening closing : Token} {tokens value rest} : opening.kind = .mark .openParen →
      IsExpression visible tokens value (closing :: rest) → closing.kind = .mark .closeParen →
      IsCondition visible (opening :: tokens) value rest

mutual

/-- A statement where these names are visible, inside of a loop or not. So many blocks have been
opened before it and after it; an opened block takes the next number. -/
inductive IsStatement : List String → Bool → Nat → List Token → Stmt → Nat → List Token → Prop
  | assign {visible inLoop opened} {token sign semicolon : Token}
      {tokens target middle value rest} :
      IsLocation visible (token :: tokens) target (sign :: middle) →
      sign.kind = .mark .assign → IsExpression visible middle value (semicolon :: rest) →
      semicolon.kind = .mark .semicolon →
      IsStatement visible inLoop opened (token :: tokens) (.assign target value token.line)
        opened rest
  | ifThen {visible inLoop opened} {word : Token} {tokens condition middle body after rest} :
      word.kind = .keyword .ifWord → IsCondition visible tokens condition middle →
      IsStatement visible inLoop opened middle body after rest →
      IsStatement visible inLoop opened (word :: tokens) (.ifThen condition body) after rest
  | ifThenElse {visible inLoop opened} {word other : Token}
      {tokens condition middle body between later otherwise after rest} :
      word.kind = .keyword .ifWord → IsCondition visible tokens condition middle →
      IsStatement visible inLoop opened middle body between (other :: later) →
      other.kind = .keyword .elseWord →
      IsStatement visible inLoop between later otherwise after rest →
      IsStatement visible inLoop opened (word :: tokens) (.ifThenElse condition body otherwise)
        after rest
  | whileDo {visible inLoop opened} {word : Token} {tokens condition middle body after rest} :
      word.kind = .keyword .whileWord → IsCondition visible tokens condition middle →
      IsStatement visible true opened middle body after rest →
      IsStatement visible inLoop opened (word :: tokens) (.whileDo condition body) after rest
  | doWhile {visible inLoop opened} {word again semicolon : Token}
      {tokens body after middle condition rest} :
      word.kind = .keyword .doWord →
      IsStatement visible true opened tokens body after (again :: middle) →
      again.kind = .keyword .whileWord →
      IsCondition visible middle condition (semicolon :: rest) →
      semicolon.kind = .mark .semicolon →
      IsStatement visible inLoop opened (word :: tokens) (.doWhile body condition) after rest
  | breakLoop {visible inLoop opened} {word semicolon : Token} {rest} : inLoop = true →
      word.kind = .keyword .breakWord → semicolon.kind = .mark .semicolon →
      IsStatement visible inLoop opened (word :: semicolon :: rest) .breakLoop opened rest
  | block {visible inLoop opened} {opening closing : Token}
      {tokens declarations middle body after rest} :
      opening.kind = .mark .openBrace → IsDeclarations tokens declarations middle →
      (declarations.map Declaration.name).Nodup →
      AreStatements (declarations.map Declaration.name ++ visible) inLoop (opened + 1) middle
        body after (closing :: rest) →
      closing.kind = .mark .closeBrace →
      IsStatement visible inLoop opened (opening :: tokens) (.block opened declarations body)
        after rest

inductive AreStatements :
    List String → Bool → Nat → List Token → List Stmt → Nat → List Token → Prop
  | nil {visible inLoop opened rest} : AreStatements visible inLoop opened rest [] opened rest
  | cons {visible inLoop opened tokens first between middle more after rest} :
      IsStatement visible inLoop opened tokens first between middle →
      AreStatements visible inLoop between middle more after rest →
      AreStatements visible inLoop opened tokens (first :: more) after rest

end

/-- A program is a block that the end of the text follows, with the scopes of its blocks. -/
structure IsProgram (tokens : List Token) (program : Program) : Prop where
  block : ∃ opened ending, ending.kind = .eof ∧
    IsStatement [] false 0 tokens program.block.stmt opened [ending]
  scopes : program.scopes.all.toList = program.block.stmt.opens none

end Grammar

end ThreeAddress

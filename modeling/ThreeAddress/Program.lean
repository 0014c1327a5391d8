import ThreeAddress.Expr
import ThreeAddress.Scopes

namespace ThreeAddress

inductive Stmt where
  | assign (target value : Expr) (line : Nat)
  | ifThen (condition : Expr) (body : Stmt)
  | ifThenElse (condition : Expr) (body otherwise : Stmt)
  | whileDo (condition : Expr) (body : Stmt)
  | doWhile (body : Stmt) (condition : Expr)
  | breakLoop
  | block (scope : Nat) (declarations : List Declaration) (body : List Stmt)

/-- A block names the scope that holds its declarations. -/
structure Block where
  scope : Nat
  declarations : List Declaration
  body : List Stmt

def Block.stmt (block : Block) : Stmt :=
  .block block.scope block.declarations block.body

/-- A block and the scopes that it and the blocks inside it have opened. -/
structure Program where
  block : Block
  scopes : Scopes

end ThreeAddress

import ThreeAddress.Declaration
import ThreeAddress.Operator

namespace ThreeAddress

/-!
# Expressions

Every node has a note: the line it was read from, and its type once that is
known. Temporaries never come from a source text; they are the locations that
lowering makes.
-/

structure Note where
  line : Nat
  type : Option ValueType := none
deriving DecidableEq, Repr

inductive Expr where
  | binary (note : Note) (op : BinaryOp) (left right : Expr)
  | unary (note : Note) (op : UnaryOp) (operand : Expr)
  | paren (note : Note) (inner : Expr)
  /-- A variable, or an element of an array after indexing. -/
  | loc (note : Note) (id : Ident) (indices : List Expr)
  | int (note : Note) (value : Int)
  | real (note : Note) (value : Decimal.Binary64)
  | bool (note : Note) (value : Bool)
  | temp (note : Note) (number : Nat)

namespace Expr

def note : Expr → Note
  | .binary note _ _ _ | .unary note _ _ | .paren note _ | .loc note _ _ | .int note _
  | .real note _ | .bool note _ | .temp note _ => note

def line (expr : Expr) : Nat :=
  expr.note.line

def type (expr : Expr) : Option ValueType :=
  expr.note.type

def withType (type : ValueType) : Expr → Expr
  | .binary note op left right => .binary { note with type } op left right
  | .unary note op operand => .unary { note with type } op operand
  | .paren note inner => .paren { note with type } inner
  | .loc note id indices => .loc { note with type } id indices
  | .int note value => .int { note with type } value
  | .real note value => .real { note with type } value
  | .bool note value => .bool { note with type } value
  | .temp note number => .temp { note with type } number

/-- Whether an expression is a location that carries indices. -/
def isAccess : Expr → Bool
  | .loc _ _ (_ :: _) => true
  | _ => false

def isBinary : Expr → Bool
  | .binary _ _ _ _ => true
  | _ => false

/-- Whether an expression is the literal `true`, without parentheses. -/
def isTrue : Expr → Bool
  | .bool _ value => value
  | _ => false

/-- Appends an operator and an operand to an expression. They take its rightmost operand
if they bind tighter than the operator before it, and the whole otherwise, so that
operators of one precedence group to the left. -/
def extend (expr : Expr) (line : Nat) (op : BinaryOp) (operand : Expr) : Expr :=
  match expr with
  | .binary note outer left right =>
      if outer.precedence < op.precedence then
        .binary note outer left (right.extend line op operand)
      else .binary { line } op (.binary note outer left right) operand
  | single => .binary { line } op single operand

mutual

def text : Expr → String
  | .binary _ op left right => left.text ++ " " ++ op.text ++ " " ++ right.text
  | .unary _ op operand => op.text ++ operand.text
  | .paren _ inner => "(" ++ inner.text ++ ")"
  | .loc _ id indices => id.name ++ indicesText indices
  | .int _ value => toString value
  | .real _ value => value.text
  | .bool _ value => if value then "true" else "false"
  | .temp _ number => "t" ++ toString number

def indicesText : List Expr → String
  | [] => ""
  | index :: rest => "[" ++ index.text ++ "]" ++ indicesText rest

end

mutual

/-- The nodes of an expression, each before those below it, from left to right. -/
def nodes : Expr → List Expr
  | .binary note op left right => .binary note op left right :: (left.nodes ++ right.nodes)
  | .unary note op operand => .unary note op operand :: operand.nodes
  | .paren note inner => .paren note inner :: inner.nodes
  | .loc note id indices => .loc note id indices :: indicesNodes indices
  | .int note value => [.int note value]
  | .real note value => [.real note value]
  | .bool note value => [.bool note value]
  | .temp note number => [.temp note number]

def indicesNodes : List Expr → List Expr
  | [] => []
  | index :: rest => index.nodes ++ indicesNodes rest

end

end Expr

end ThreeAddress

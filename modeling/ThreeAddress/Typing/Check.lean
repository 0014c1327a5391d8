import ThreeAddress.InternalFault
import ThreeAddress.Program
import ThreeAddress.Typing.Rules

namespace ThreeAddress

/-!
# Checking types

A check goes through a program in the order in which it is written, a loop's
body before a condition that follows it, and stops at the first broken rule. It
gives back the same tree with a type noted on every node that it has finished,
whether it got to the end or not.
-/

/-- Why a check stopped, and the line of the node or statement at fault. -/
inductive CheckError where
  | broken (fault : TypeFault) (line : Nat)
  | internal (fault : InternalFault)
deriving DecidableEq

namespace Expr

/-- Finishes a node with the type that its rule gives. -/
def conclude (expr : Expr) (rule : Except TypeFault ValueType) :
    Expr × Except CheckError ValueType :=
  match rule with
  | .ok type => (expr.withType type, .ok type)
  | .error fault => (expr, .error (.broken fault expr.line))

mutual

/-- Checks an expression, where names have the declared types that `typeOf?` gives. A
location's name and number of indices come before the indices themselves, and any other
node comes after its operands. A temporary keeps the type that it has. -/
def check (typeOf? : String → Option DeclaredType) :
    Expr → Expr × Except CheckError ValueType
  | .binary note op left right =>
      match left.check typeOf? with
      | (left, .error error) => (.binary note op left right, .error error)
      | (left, .ok leftType) =>
          match right.check typeOf? with
          | (right, .error error) => (.binary note op left right, .error error)
          | (right, .ok rightType) =>
              conclude (.binary note op left right) (op.resultType leftType rightType)
  | .unary note op operand =>
      match operand.check typeOf? with
      | (operand, .error error) => (.unary note op operand, .error error)
      | (operand, .ok type) => conclude (.unary note op operand) (op.resultType type)
  | .paren note inner =>
      match inner.check typeOf? with
      | (inner, .error error) => (.paren note inner, .error error)
      | (inner, .ok type) => conclude (.paren note inner) (.ok type)
  | .loc note id indices =>
      match typeOf? id.name with
      | none => (.loc note id indices, .error (.broken (.undeclared id.name) note.line))
      | some declared =>
          match declared.elementType id.name indices.length with
          | .error fault => (.loc note id indices, .error (.broken fault note.line))
          | .ok type =>
              match checkIndices typeOf? indices with
              | (indices, .error error) => (.loc note id indices, .error error)
              | (indices, .ok ()) => conclude (.loc note id indices) (.ok type)
  | .int note value => conclude (.int note value) (.ok .int)
  | .real note value => conclude (.real note value) (.ok .float)
  | .bool note value => conclude (.bool note value) (.ok .bool)
  | .temp note number =>
      match note.type with
      | some type => (.temp note number, .ok type)
      | none => (.temp note number, .error (.internal (.untypedTemporary number)))

def checkIndices (typeOf? : String → Option DeclaredType) :
    List Expr → List Expr × Except CheckError Unit
  | [] => ([], .ok ())
  | index :: rest =>
      match index.check typeOf? with
      | (index, .error error) => (index :: rest, .error error)
      | (index, .ok type) =>
          if type.is .int then
            match checkIndices typeOf? rest with
            | (rest, result) => (index :: rest, result)
          else (index :: rest, .error (.broken (.indexNotInt type) index.line))

end

end Expr

namespace Stmt

/-- Checks the two sides of an assignment, the target first. -/
def checkAssign (typeOf? : String → Option DeclaredType) (target value : Expr) (line : Nat) :
    Stmt × Except CheckError Unit :=
  match target.check typeOf? with
  | (target, .error error) => (.assign target value line, .error error)
  | (target, .ok targetType) =>
      match value.check typeOf? with
      | (value, .error error) => (.assign target value line, .error error)
      | (value, .ok valueType) =>
          match targetType.accept valueType with
          | .error fault => (.assign target value line, .error (.broken fault line))
          | .ok () => (.assign target value line, .ok ())

mutual

/-- Checks a statement in a scope. A condition may have any type. -/
def check (scopes : Scopes) (scope : Nat) : Stmt → Stmt × Except CheckError Unit
  | .assign target value line => checkAssign (scopes.typeOf? scope) target value line
  | .ifThen condition body =>
      match condition.check (scopes.typeOf? scope) with
      | (condition, .error error) => (.ifThen condition body, .error error)
      | (condition, .ok _) =>
          match body.check scopes scope with
          | (body, result) => (.ifThen condition body, result)
  | .ifThenElse condition body otherwise =>
      match condition.check (scopes.typeOf? scope) with
      | (condition, .error error) => (.ifThenElse condition body otherwise, .error error)
      | (condition, .ok _) =>
          match body.check scopes scope with
          | (body, .error error) => (.ifThenElse condition body otherwise, .error error)
          | (body, .ok ()) =>
              match otherwise.check scopes scope with
              | (otherwise, result) => (.ifThenElse condition body otherwise, result)
  | .whileDo condition body =>
      match condition.check (scopes.typeOf? scope) with
      | (condition, .error error) => (.whileDo condition body, .error error)
      | (condition, .ok _) =>
          match body.check scopes scope with
          | (body, result) => (.whileDo condition body, result)
  | .doWhile body condition =>
      match body.check scopes scope with
      | (body, .error error) => (.doWhile body condition, .error error)
      | (body, .ok ()) =>
          match condition.check (scopes.typeOf? scope) with
          | (condition, result) => (.doWhile body condition, result.map fun _ => ())
  | .breakLoop => (.breakLoop, .ok ())
  | .block inner declarations body =>
      match checkAll scopes inner body with
      | (body, result) => (.block inner declarations body, result)

def checkAll (scopes : Scopes) (scope : Nat) :
    List Stmt → List Stmt × Except CheckError Unit
  | [] => ([], .ok ())
  | first :: rest =>
      match first.check scopes scope with
      | (first, .error error) => (first :: rest, .error error)
      | (first, .ok ()) =>
          match checkAll scopes scope rest with
          | (rest, result) => (first :: rest, result)

end

end Stmt

/-- Checks a program; only the types noted on its expressions change. -/
def Program.check (program : Program) : Program × Except CheckError Unit :=
  match Stmt.checkAll program.scopes program.block.scope program.block.body with
  | (body, result) => ({ program with block := { program.block with body } }, result)

end ThreeAddress

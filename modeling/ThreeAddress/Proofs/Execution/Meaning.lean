import ThreeAddress.Expr

namespace ThreeAddress

/-!
# What expressions mean

Values and operators are left open: an `Interpretation` fixes them, and only
asks that integers add and multiply exactly. An expression is evaluated over
anything that can be loaded from. The source program, the instructions and the
listed text differ in what a place holds, and share this evaluation.
-/

/-- A set of values with total operators and a truth test. -/
structure Interpretation (Value : Type) where
  int : Int → Value
  /-- The integer that a value is, if it is one. -/
  asInt : Value → Option Int
  real : Decimal.Binary64 → Value
  bool : Bool → Value
  binary : BinaryOp → Value → Value → Value
  unary : UnaryOp → Value → Value
  holds : Value → Bool
  asInt_eq_some_iff : ∀ {value number}, asInt value = some number ↔ value = int number
  add_int : ∀ left right, binary .add (int left) (int right) = int (left + right)
  mul_int : ∀ left right, binary .mul (int left) (int right) = int (left * right)
  holds_true : holds (bool true) = true

/-- What an expression reads and an assignment writes: a variable, with the values of its
indices, or a temporary. -/
inductive Place where
  | cell (name : String) (indices : List Int)
  | temp (number : Nat)
deriving DecidableEq

namespace Interpretation

variable {Value : Type} (meaning : Interpretation Value)

@[simp] theorem asInt_int (number : Int) : meaning.asInt (meaning.int number) = some number :=
  meaning.asInt_eq_some_iff.mpr rfl

/-- Every value is an integer; a truth value is zero or one, and a division by zero is zero. -/
def integers : Interpretation Int where
  int := id
  asInt := some
  real _ := 0
  bool value := value.toInt
  binary
    | .or, left, right => (left != 0 || right != 0).toInt
    | .and, left, right => (left != 0 && right != 0).toInt
    | .equal, left, right => (left == right).toInt
    | .notEqual, left, right => (left != right).toInt
    | .less, left, right => (decide (left < right)).toInt
    | .lessEqual, left, right => (decide (left ≤ right)).toInt
    | .greater, left, right => (decide (left > right)).toInt
    | .greaterEqual, left, right => (decide (left ≥ right)).toInt
    | .add, left, right => left + right
    | .sub, left, right => left - right
    | .mul, left, right => left * right
    | .div, left, right => left.tdiv right
  unary
    | .neg, operand => -operand
    | .not, operand => (operand == 0).toInt
  holds value := value != 0
  asInt_eq_some_iff := by simp
  add_int _ _ := rfl
  mul_int _ _ := rfl
  holds_true := rfl

end Interpretation

namespace Expr

mutual

/-- The value of an expression, if all that it loads is there. Both operands of an operator
are evaluated, whatever the operator. -/
def eval (meaning : Interpretation Value) (load : Place → Option Value) : Expr → Option Value
  | .binary _ op left right => do
      let leftValue ← left.eval meaning load
      let rightValue ← right.eval meaning load
      return meaning.binary op leftValue rightValue
  | .unary _ op operand => do
      let value ← operand.eval meaning load
      return meaning.unary op value
  | .paren _ inner => inner.eval meaning load
  | .loc _ id indices => do
      let numbers ← evalIndices meaning load indices
      load (.cell id.name numbers)
  | .int _ value => some (meaning.int value)
  | .real _ value => some (meaning.real value)
  | .bool _ value => some (meaning.bool value)
  | .temp _ number => load (.temp number)

/-- The values of indices, if they are integers. -/
def evalIndices (meaning : Interpretation Value) (load : Place → Option Value) :
    List Expr → Option (List Int)
  | [] => some []
  | index :: rest => do
      let value ← index.eval meaning load
      let number ← meaning.asInt value
      let numbers ← evalIndices meaning load rest
      return number :: numbers

end

/-- The place that an expression names. -/
def place? (meaning : Interpretation Value) (load : Place → Option Value) : Expr → Option Place
  | .loc _ id indices => (evalIndices meaning load indices).map (.cell id.name)
  | .temp _ number => some (.temp number)
  | _ => none

end Expr

end ThreeAddress

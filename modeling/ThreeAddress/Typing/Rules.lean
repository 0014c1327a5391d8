import ThreeAddress.Operator

namespace ThreeAddress

inductive TypeFault where
  | undeclared (name : String)
  | notAnArray (name : String) (type : ValueType)
  | wrongDimensions (name : String) (given declared : Nat)
  | indexNotInt (type : ValueType)
  | arrayOperands (op : BinaryOp)
  | logicalOperands (op : BinaryOp) (left right : ValueType)
  | comparedOperands (op : BinaryOp) (left right : ValueType)
  | arithmeticOperands (op : BinaryOp) (left right : ValueType)
  | arrayOperand (op : UnaryOp)
  | negatedTruth (type : ValueType)
  | invertedNumber (type : ValueType)
  | depthMismatch (value target : ValueType)
  | basicMismatch (value target : ValueType)
deriving DecidableEq

namespace TypeFault

private def operands (left right : ValueType) : String :=
  "'" ++ left.text ++ "' and '" ++ right.text ++ "'"

def message : TypeFault → String
  | .undeclared name => "'" ++ name ++ "' is not declared"
  | .notAnArray name type =>
      "'" ++ name ++ "' cannot be accessed as an array; it is type '" ++ type.text ++ "'"
  | .wrongDimensions name given declared =>
      "cannot access '" ++ name ++ "' as a " ++ toString given ++
        " dimensional array; it is a " ++ toString declared ++ " dimensional array"
  | .indexNotInt type => "array index must be an integer, not '" ++ type.text ++ "'"
  | .arrayOperands op => "binary operator '" ++ op.text ++ "' cannot be applied to an array"
  | .logicalOperands op left right =>
      "logical operator '" ++ op.text ++ "' expects boolean types, not " ++ operands left right
  | .comparedOperands op left right =>
      "comparison operator '" ++ op.text ++ "' expects same types, not " ++ operands left right
  | .arithmeticOperands op left right =>
      "arithmetic operator '" ++ op.text ++ "' expects numeric types, not " ++
        operands left right
  | .arrayOperand op => "unary operator '" ++ op.text ++ "' cannot be applied to an array"
  | .invertedNumber type => "'!' operator expects boolean type, not '" ++ type.text ++ "'"
  | .negatedTruth type => "unary '-' operator expects numeric type, not '" ++ type.text ++ "'"
  | .depthMismatch value target =>
      "array dimensions do not match: cannot assign '" ++ value.text ++ "' to '" ++
        target.text ++ "'"
  | .basicMismatch value target =>
      "type mismatch: cannot assign '" ++ value.text ++ "' to '" ++ target.text ++ "'"

end TypeFault

/-- Logical operators take truth values, comparisons take two values of one type, and
arithmetic takes numbers: a float if either operand is one, else the type of the left. -/
def BinaryOp.resultType (op : BinaryOp) (left right : ValueType) : Except TypeFault ValueType :=
  if left.isArray || right.isArray then .error (.arrayOperands op)
  else
    match op.sort with
    | .logical =>
        if left.is .bool && right.is .bool then .ok .bool
        else .error (.logicalOperands op left right)
    | .comparison =>
        if left.basic = right.basic then .ok .bool
        else .error (.comparedOperands op left right)
    | .arithmetic =>
        if left.isNumeric && right.isNumeric then
          .ok (if left.is .float || right.is .float then .float else left)
        else .error (.arithmeticOperands op left right)

/-- A number is negated and a truth value inverted; the type stays. -/
def UnaryOp.resultType (op : UnaryOp) (operand : ValueType) : Except TypeFault ValueType :=
  if operand.isArray then .error (.arrayOperand op)
  else
    match op with
    | .not => if operand.is .bool then .ok operand else .error (.invertedNumber operand)
    | .neg => if operand.isNumeric then .ok operand else .error (.negatedTruth operand)

/-- An array is accessed down to a single element. -/
def DeclaredType.elementType (declared : DeclaredType) (name : String) (given : Nat) :
    Except TypeFault ValueType :=
  if given = declared.depth then .ok (.scalar declared.basic)
  else if declared.depth = 0 then .error (.notAnArray name declared.valueType)
  else .error (.wrongDimensions name given declared.depth)

/-- A value goes into a location of its own type, and an integer into a float. -/
def ValueType.accept (target value : ValueType) : Except TypeFault Unit :=
  if target.depth ≠ value.depth then .error (.depthMismatch value target)
  else if target.basic = .float ∧ value.basic = .int then .ok ()
  else if target.basic ≠ value.basic then .error (.basicMismatch value target)
  else .ok ()

end ThreeAddress

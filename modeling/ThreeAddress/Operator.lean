import ThreeAddress.Token.Kind

namespace ThreeAddress

inductive OperatorClass where
  | logical
  | comparison
  | arithmetic
deriving DecidableEq, Repr

inductive BinaryOp where
  | or
  | and
  | equal
  | notEqual
  | less
  | lessEqual
  | greater
  | greaterEqual
  | add
  | sub
  | mul
  | div
deriving DecidableEq, Repr

namespace BinaryOp

def mark : BinaryOp → Mark
  | .or => .orOr
  | .and => .andAnd
  | .equal => .equalEqual
  | .notEqual => .notEqual
  | .less => .less
  | .lessEqual => .lessEqual
  | .greater => .greater
  | .greaterEqual => .greaterEqual
  | .add => .plus
  | .sub => .minus
  | .mul => .star
  | .div => .slash

def text (op : BinaryOp) : String :=
  op.mark.text

def ofMark? : Mark → Option BinaryOp
  | .orOr => some .or
  | .andAnd => some .and
  | .equalEqual => some .equal
  | .notEqual => some .notEqual
  | .less => some .less
  | .lessEqual => some .lessEqual
  | .greater => some .greater
  | .greaterEqual => some .greaterEqual
  | .plus => some .add
  | .minus => some .sub
  | .star => some .mul
  | .slash => some .div
  | _ => none

def ofKind? : Kind → Option BinaryOp
  | .mark sign => ofMark? sign
  | _ => none

theorem ofMark?_eq_some_iff {sign : Mark} {op : BinaryOp} :
    ofMark? sign = some op ↔ op.mark = sign := by
  cases sign <;> cases op <;> decide

/-- Operators of higher precedence bind tighter. -/
def precedence : BinaryOp → Nat
  | .mul | .div => 12
  | .add | .sub => 11
  | .less | .lessEqual | .greater | .greaterEqual => 9
  | .equal | .notEqual => 8
  | .and => 7
  | .or => 6

def sort : BinaryOp → OperatorClass
  | .or | .and => .logical
  | .equal | .notEqual | .less | .lessEqual | .greater | .greaterEqual => .comparison
  | .add | .sub | .mul | .div => .arithmetic

end BinaryOp

inductive UnaryOp where
  | neg
  | not
deriving DecidableEq, Repr

def UnaryOp.mark : UnaryOp → Mark
  | .neg => .minus
  | .not => .bang

def UnaryOp.text (op : UnaryOp) : String :=
  op.mark.text

end ThreeAddress

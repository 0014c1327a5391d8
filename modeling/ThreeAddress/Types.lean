namespace ThreeAddress

/-!
# Types

A value is of a basic type or an array of one. A declaration names the size of
every dimension; an expression only has a number of dimensions left. Storage is
row-major: the stride of a dimension is the product of the sizes after it.
Sizes and strides are products of machine words, so they may fail to exist.
-/

inductive BasicType where
  | int
  | float
  | char
  | bool
deriving DecidableEq, Repr

namespace BasicType

def all : List BasicType := [.int, .float, .char, .bool]

def text : BasicType → String
  | .int => "int"
  | .float => "float"
  | .char => "char"
  | .bool => "bool"

def width : BasicType → Nat
  | .int => 4
  | .float => 8
  | .char => 1
  | .bool => 1

def isNumeric : BasicType → Bool
  | .int | .float | .char => true
  | .bool => false

end BasicType

/-- The largest integer of the language. -/
def intMax : Nat := 2147483647

/-- The type of an expression: a basic type and the number of array dimensions that are
left on it. -/
structure ValueType where
  basic : BasicType
  depth : Nat := 0
deriving DecidableEq, Repr

namespace ValueType

def scalar (basic : BasicType) : ValueType := { basic }

def int : ValueType := scalar .int
def float : ValueType := scalar .float
def bool : ValueType := scalar .bool

def isArray (type : ValueType) : Bool :=
  decide (0 < type.depth)

def isNumeric (type : ValueType) : Bool :=
  !type.isArray && type.basic.isNumeric

def is (type : ValueType) (basic : BasicType) : Bool :=
  !type.isArray && type.basic == basic

def text (type : ValueType) : String :=
  type.basic.text ++ String.join (List.replicate type.depth "[]")

end ValueType

/-- The number of values of a machine word. -/
def wordValues : Nat := 18446744073709551616

/-- A product of machine words, multiplied from the left, if no partial product
overflows. A zero hides every overflow after it and none before. -/
def wordProduct (first : Nat) (factors : List Nat) : Option Nat :=
  factors.foldlM (fun product factor =>
    if product * factor < wordValues then some (product * factor) else none) first

/-- The type of a declaration: a basic type and the size of every dimension, outermost
first. -/
structure DeclaredType where
  basic : BasicType
  dims : List Nat := []
deriving DecidableEq, Repr

namespace DeclaredType

def depth (type : DeclaredType) : Nat :=
  type.dims.length

def valueType (type : DeclaredType) : ValueType where
  basic := type.basic
  depth := type.depth

def text (type : DeclaredType) : String :=
  type.valueType.text

/-- How many elements one step of an index of this dimension skips. -/
def stride (type : DeclaredType) (dimension : Nat) : Option Nat :=
  wordProduct 1 (type.dims.drop (dimension + 1))

/-- The storage of the whole declaration, in bytes. -/
def size (type : DeclaredType) : Option Nat :=
  wordProduct type.basic.width type.dims

/-- Whether the storage exists and its size is an integer of the language. -/
def fits (type : DeclaredType) : Bool :=
  match type.size with
  | some bytes => decide (bytes ≤ intMax)
  | none => false

end DeclaredType

end ThreeAddress

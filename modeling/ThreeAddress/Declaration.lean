import ThreeAddress.Types

namespace ThreeAddress

/-- A name and the line on which it stands. -/
structure Ident where
  name : String
  line : Nat
deriving DecidableEq, Repr

structure Declaration where
  type : DeclaredType
  id : Ident
deriving DecidableEq, Repr

def Declaration.name (declaration : Declaration) : String :=
  declaration.id.name

end ThreeAddress

import ThreeAddress.Declaration

namespace ThreeAddress

/-!
# Block scopes

Every block of a program has a scope, numbered in the order in which the blocks
open and never removed. A scope holds the declarations of its block and knows the
scope around it. A name means its nearest declaration on the way outward.
-/

/-- The declarations of one block, in order, and the number of the scope around it. -/
structure Scope where
  parent : Option Nat
  declarations : List Declaration := []
deriving DecidableEq

namespace Scope

def find? (scope : Scope) (name : String) : Option Declaration :=
  scope.declarations.find? (·.name = name)

def add (scope : Scope) (declaration : Declaration) : Scope :=
  { scope with declarations := scope.declarations ++ [declaration] }

end Scope

/-- The scopes of a program by number. -/
structure Scopes where
  all : Array Scope := #[]
deriving DecidableEq

namespace Scopes

def count (scopes : Scopes) : Nat :=
  scopes.all.size

def push (scopes : Scopes) (parent : Option Nat) : Scopes :=
  ⟨scopes.all.push { parent }⟩

def parent? (scopes : Scopes) (scope : Nat) : Option Nat :=
  scopes.all[scope]?.bind Scope.parent

def declaredIn (scopes : Scopes) (scope : Nat) (name : String) : Bool :=
  match scopes.all[scope]? with
  | some found => (found.find? name).isSome
  | none => false

/-- Whether a scope can take a declaration: it exists, and the name is new in it. -/
def canDeclare (scopes : Scopes) (scope : Nat) (declaration : Declaration) : Bool :=
  decide (scope < scopes.count) && !scopes.declaredIn scope declaration.name

/-- Adds a declaration to a scope that can take it, and nothing to any other. -/
def declare (scopes : Scopes) (scope : Nat) (declaration : Declaration) : Scopes :=
  if scopes.canDeclare scope declaration then
    ⟨scopes.all.modify scope (·.add declaration)⟩
  else scopes

/-- The nearest declaration of a name, among this many scopes on the way outward. -/
def lookupWithin (scopes : Scopes) (name : String) : Nat → Nat → Option Declaration
  | 0, _ => none
  | steps + 1, scope =>
      match scopes.all[scope]? with
      | none => none
      | some here =>
          match here.find? name with
          | some found => some found
          | none => here.parent.bind (scopes.lookupWithin name steps)

/-- The nearest declaration of a name on the way outward from a scope. A way that does
not end visits some scope twice, so it never needs more steps than there are scopes. -/
def lookup (scopes : Scopes) (scope : Nat) (name : String) : Option Declaration :=
  scopes.lookupWithin name scopes.count scope

def typeOf? (scopes : Scopes) (scope : Nat) (name : String) : Option DeclaredType :=
  (scopes.lookup scope name).map (·.type)

end Scopes

end ThreeAddress

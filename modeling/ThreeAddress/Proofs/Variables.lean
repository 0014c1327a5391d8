import ThreeAddress.Proofs.Layout
import ThreeAddress.Scopes

namespace ThreeAddress

/-- A cell of a variable: the scope that declares it, its name, and the indices. -/
@[ext]
structure Cell where
  home : Nat
  name : String
  indices : List Int
deriving DecidableEq

namespace Scopes

variable {scopes : Scopes} {name : String} {home scope : Nat} {declaration : Declaration}

def declared? (scopes : Scopes) (home : Nat) (name : String) : Option Declaration :=
  scopes.all[home]?.bind (·.find? name)

/-- The nearest scope that declares a name, among this many on the way outward. -/
def homeWithin (scopes : Scopes) (name : String) : Nat → Nat → Option Nat
  | 0, _ => none
  | steps + 1, scope =>
      match scopes.all[scope]? with
      | none => none
      | some here =>
          if (here.find? name).isSome then some scope
          else here.parent.bind (scopes.homeWithin name steps)

/-- The scope whose declaration a name means in a scope. -/
def home? (scopes : Scopes) (scope : Nat) (name : String) : Option Nat :=
  scopes.homeWithin name scopes.count scope

theorem lookupWithin_eq (steps : Nat) : scopes.lookupWithin name steps scope =
    (scopes.homeWithin name steps scope).bind fun home => scopes.declared? home name := by
  induction steps generalizing scope with
  | zero => rfl
  | succ steps ih =>
      rw [lookupWithin, homeWithin]
      cases entry : scopes.all[scope]? with
      | none => rfl
      | some here =>
          cases found : here.find? name with
          | some declaration => simp [found, declared?, entry]
          | none =>
              cases around : here.parent with
              | none => simp [found, around]
              | some parent => simpa [found, around] using ih

theorem lookup_eq : scopes.lookup scope name =
    (scopes.home? scope name).bind fun home => scopes.declared? home name :=
  lookupWithin_eq scopes.count

theorem typeOf?_of_home (found : scopes.home? scope name = some home)
    (declared : scopes.declared? home name = some declaration) :
    scopes.typeOf? scope name = some declaration.type := by
  simp [typeOf?, lookup_eq, found, declared]

/-- A name with a declared type has a home that declares it with that type. -/
theorem home?_of_typeOf {type : DeclaredType} (typed : scopes.typeOf? scope name = some type) :
    ∃ home declaration, scopes.home? scope name = some home ∧
      scopes.declared? home name = some declaration ∧ declaration.type = type := by
  simp only [typeOf?, lookup_eq, Option.map_eq_some_iff, Option.bind_eq_some_iff] at typed
  obtain ⟨declaration, ⟨home, found, declared⟩, same⟩ := typed
  exact ⟨home, declaration, found, declared, same⟩

/-- The cell that a place means in a scope, if it is an element of a declared variable. -/
def cell? (scopes : Scopes) (scope : Nat) (name : String) (indices : List Int) : Option Cell := do
  let home ← scopes.home? scope name
  let declaration ← scopes.declared? home name
  if DeclaredType.inBounds declaration.type.dims indices then some ⟨home, name, indices⟩ else none

theorem cell?_eq_some {indices : List Int} {cell : Cell}
    (found : scopes.cell? scope name indices = some cell) :
    ∃ declaration, scopes.home? scope name = some cell.home ∧
      scopes.declared? cell.home name = some declaration ∧
      DeclaredType.inBounds declaration.type.dims indices = true ∧
      cell.name = name ∧ cell.indices = indices := by
  simp only [cell?, Option.bind_eq_bind, Option.bind_eq_some_iff] at found
  obtain ⟨home, atHome, declaration, declared, within⟩ := found
  split at within
  · next inside =>
      cases within
      exact ⟨declaration, atHome, declared, inside, rfl, rfl⟩
  · contradiction

/-- No name is declared in two scopes. -/
def NamesDistinct (scopes : Scopes) : Prop :=
  ∀ name first second firstDeclaration secondDeclaration,
    scopes.declared? first name = some firstDeclaration →
    scopes.declared? second name = some secondDeclaration → first = second

end Scopes

end ThreeAddress

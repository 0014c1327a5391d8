import ThreeAddress.Program

namespace ThreeAddress

/-!
# Well-formed programs

A tree that was read from a text has no temporaries, assigns to locations only,
and breaks only out of loops. In a checked tree every location also has an index
for every dimension of what its name means there. Lowering rests on both, and on
the size limit of declarations.
-/

namespace Expr

mutual

def TempFree : Expr → Prop
  | .binary _ _ left right => left.TempFree ∧ right.TempFree
  | .unary _ _ operand => operand.TempFree
  | .paren _ inner => inner.TempFree
  | .loc _ _ indices => AllTempFree indices
  | .int _ _ | .real _ _ | .bool _ _ => True
  | .temp _ _ => False

def AllTempFree : List Expr → Prop
  | [] => True
  | index :: rest => index.TempFree ∧ AllTempFree rest

end

mutual

/-- No temporary occurs, and every location is declared and fully indexed. -/
def Resolved (typeOf? : String → Option DeclaredType) : Expr → Prop
  | .binary _ _ left right => left.Resolved typeOf? ∧ right.Resolved typeOf?
  | .unary _ _ operand => operand.Resolved typeOf?
  | .paren _ inner => inner.Resolved typeOf?
  | .loc _ id indices =>
      (∃ declared, typeOf? id.name = some declared ∧ indices.length = declared.depth) ∧
        AllResolved typeOf? indices
  | .int _ _ | .real _ _ | .bool _ _ => True
  | .temp _ _ => False

def AllResolved (typeOf? : String → Option DeclaredType) : List Expr → Prop
  | [] => True
  | index :: rest => index.Resolved typeOf? ∧ AllResolved typeOf? rest

end

def isLocation : Expr → Bool
  | .loc _ _ _ => true
  | _ => false

end Expr

namespace Stmt

mutual

/-- What every statement read from a text is like, inside of a loop or not. -/
def FromSource (inLoop : Bool) : Stmt → Prop
  | .assign target value _ => target.isLocation = true ∧ target.TempFree ∧ value.TempFree
  | .ifThen condition body => condition.TempFree ∧ body.FromSource inLoop
  | .ifThenElse condition body otherwise =>
      condition.TempFree ∧ body.FromSource inLoop ∧ otherwise.FromSource inLoop
  | .whileDo condition body => condition.TempFree ∧ body.FromSource true
  | .doWhile body condition => body.FromSource true ∧ condition.TempFree
  | .breakLoop => inLoop = true
  | .block _ _ body => AllFromSource inLoop body

def AllFromSource (inLoop : Bool) : List Stmt → Prop
  | [] => True
  | first :: rest => first.FromSource inLoop ∧ AllFromSource inLoop rest

end

mutual

/-- What every checked statement is like in its scope. -/
def Resolved (scopes : Scopes) (inLoop : Bool) (scope : Nat) : Stmt → Prop
  | .assign target value _ =>
      target.isLocation = true ∧ target.Resolved (scopes.typeOf? scope) ∧
        value.Resolved (scopes.typeOf? scope)
  | .ifThen condition body =>
      condition.Resolved (scopes.typeOf? scope) ∧ body.Resolved scopes inLoop scope
  | .ifThenElse condition body otherwise =>
      condition.Resolved (scopes.typeOf? scope) ∧ body.Resolved scopes inLoop scope ∧
        otherwise.Resolved scopes inLoop scope
  | .whileDo condition body =>
      condition.Resolved (scopes.typeOf? scope) ∧ body.Resolved scopes true scope
  | .doWhile body condition =>
      body.Resolved scopes true scope ∧ condition.Resolved (scopes.typeOf? scope)
  | .breakLoop => inLoop = true
  | .block inner _ body => AllResolved scopes inLoop inner body

def AllResolved (scopes : Scopes) (inLoop : Bool) (scope : Nat) : List Stmt → Prop
  | [] => True
  | first :: rest => first.Resolved scopes inLoop scope ∧ AllResolved scopes inLoop scope rest

end

end Stmt

namespace Scopes

/-- A property of every declaration of every scope. -/
def Each (good : Declaration → Prop) (scopes : Scopes) : Prop :=
  ∀ scope ∈ scopes.all, ∀ declaration ∈ scope.declarations, good declaration

/-- Every declaration keeps within the size limit. -/
def AllFit : Scopes → Prop :=
  Each fun declaration => declaration.type.fits = true

variable {scopes : Scopes} {good : Declaration → Prop} {scope : Nat} {name : String}

theorem Each.push (each : scopes.Each good) (parent : Option Nat) :
    (scopes.push parent).Each good := by
  intro scope member declaration declared
  rcases Array.mem_push.mp member with old | rfl
  · exact each scope old declaration declared
  · contradiction

theorem Each.declare (each : scopes.Each good) {declaration : Declaration}
    (fine : good declaration) : (scopes.declare scope declaration).Each good := by
  unfold Scopes.declare
  split
  · intro changed member other declared
    obtain ⟨position, bound, rfl⟩ := Array.mem_iff_getElem.mp member
    simp only [Array.size_modify] at bound
    have old : ∀ other ∈ scopes.all[position].declarations, good other :=
      each _ (Array.getElem_mem bound)
    rw [Array.getElem_modify] at declared
    split at declared
    · rcases List.mem_append.mp declared with before | last
      · exact old other before
      · rw [List.mem_singleton.mp last]
        exact fine
    · exact old other declared
  · exact each

theorem Each.lookupWithin (each : scopes.Each good) {steps : Nat} {declaration : Declaration}
    (found : scopes.lookupWithin name steps scope = some declaration) : good declaration := by
  induction steps generalizing scope with
  | zero => simp [Scopes.lookupWithin] at found
  | succ steps ih =>
      rw [Scopes.lookupWithin] at found
      cases entry : scopes.all[scope]? with
      | none => simp [entry] at found
      | some here =>
          have member : here ∈ scopes.all := Array.mem_of_getElem? entry
          cases nearest : here.find? name with
          | some nearby =>
              have same : nearby = declaration := by simpa [entry, nearest] using found
              exact each here member declaration (same ▸ List.mem_of_find?_eq_some nearest)
          | none =>
              cases around : here.parent with
              | none => simp [entry, nearest, around] at found
              | some parent => exact ih (by simpa [entry, nearest, around] using found)

/-- What a name means has the property. -/
theorem Each.lookup (each : scopes.Each good) {declaration : Declaration}
    (found : scopes.lookup scope name = some declaration) : good declaration :=
  each.lookupWithin found

end Scopes

/-- What lowering may rely on. -/
structure Program.WellFormed (program : Program) : Prop where
  resolved : Stmt.AllResolved program.scopes false program.block.scope program.block.body
  allFit : program.scopes.AllFit

end ThreeAddress

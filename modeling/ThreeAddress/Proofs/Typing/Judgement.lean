import ThreeAddress.Proofs.WellFormed
import ThreeAddress.Typing.Rules

namespace ThreeAddress

/-!
# Well-typed programs

The typing rules as a judgement, apart from any order of checking. A name means
its nearest declaration on the way outward; an expression has a basic type, as
every array in it is indexed down to an element.
-/

namespace Scopes

/-- Every scope stands in one with a smaller number, if in any. -/
def Ordered (scopes : Scopes) : Prop :=
  ∀ scope (inside : scope < scopes.all.size), ∀ parent ∈ scopes.all[scope].parent, parent < scope

instance (scopes : Scopes) : Decidable scopes.Ordered :=
  inferInstanceAs (Decidable (∀ scope (inside : scope < scopes.all.size),
    ∀ parent ∈ scopes.all[scope].parent, parent < scope))

/-- What a name means in a scope: what the scope declares under it, or else what it means in the
scope around. -/
inductive Means (scopes : Scopes) (name : String) : Nat → Declaration → Prop
  | here {scope entry declaration} : scopes.all[scope]? = some entry →
      entry.find? name = some declaration → Means scopes name scope declaration
  | outward {scope entry parent declaration} : scopes.all[scope]? = some entry →
      entry.find? name = none → entry.parent = some parent →
      Means scopes name parent declaration → Means scopes name scope declaration

/-- The type that a name has in a scope. -/
def GivesType (scopes : Scopes) (scope : Nat) (name : String) (type : DeclaredType) : Prop :=
  ∃ declaration, scopes.Means name scope declaration ∧ declaration.type = type

variable {scopes : Scopes} {scope : Nat} {name : String} {declaration : Declaration}

theorem means_of_lookupWithin {steps : Nat}
    (found : scopes.lookupWithin name steps scope = some declaration) :
    scopes.Means name scope declaration := by
  induction steps generalizing scope with
  | zero => simp [lookupWithin] at found
  | succ steps ih =>
      rw [lookupWithin] at found
      cases entry : scopes.all[scope]? with
      | none => simp [entry] at found
      | some here =>
          cases nearest : here.find? name with
          | some nearby =>
              simp only [entry, nearest, Option.some.injEq] at found
              exact .here entry (found ▸ nearest)
          | none =>
              cases around : here.parent with
              | none => simp [entry, nearest, around] at found
              | some parent =>
                  simp only [entry, nearest, around, Option.bind_some] at found
                  exact .outward entry nearest around (ih found)

/-- The numbers fall on the way outward, so a search of more steps than the number of the scope
gets to its end. -/
theorem Means.lookupWithin (ordered : scopes.Ordered) (means : scopes.Means name scope declaration)
    {steps : Nat} (enough : scope < steps) :
    scopes.lookupWithin name steps scope = some declaration := by
  induction means generalizing steps with
  | here entry found =>
      obtain ⟨fewer, rfl⟩ := Nat.exists_eq_add_one_of_ne_zero (Nat.ne_zero_of_lt enough)
      rw [Scopes.lookupWithin, entry]
      simp only [found]
  | outward entry missing around _ ih =>
      obtain ⟨fewer, rfl⟩ := Nat.exists_eq_add_one_of_ne_zero (Nat.ne_zero_of_lt enough)
      obtain ⟨inside, rfl⟩ := Array.getElem?_eq_some_iff.mp entry
      have falls := ordered _ inside _ around
      rw [Scopes.lookupWithin, entry]
      simp only [missing, around, Option.bind_some]
      exact ih (by omega)

theorem Means.inside (means : scopes.Means name scope declaration) : scope < scopes.count := by
  cases means with
  | here entry _ => exact (Array.getElem?_eq_some_iff.mp entry).1
  | outward entry _ _ _ => exact (Array.getElem?_eq_some_iff.mp entry).1

theorem lookup_eq_some_iff (ordered : scopes.Ordered) :
    scopes.lookup scope name = some declaration ↔ scopes.Means name scope declaration := by
  constructor
  · exact means_of_lookupWithin
  · intro means
    exact means.lookupWithin ordered means.inside

theorem typeOf?_eq_some_iff (ordered : scopes.Ordered) (scope : Nat) (name : String)
    (type : DeclaredType) : scopes.typeOf? scope name = some type ↔
    scopes.GivesType scope name type := by
  simp only [typeOf?, Option.map_eq_some_iff, lookup_eq_some_iff ordered, GivesType]

end Scopes

namespace BasicType

def Numeric (type : BasicType) : Prop :=
  type = .int ∨ type = .float ∨ type = .char

/-- A value of the second type may be stored under the first. -/
def Accepts (target value : BasicType) : Prop :=
  target = value ∨ target = .float ∧ value = .int

end BasicType

/-- The operator makes a value of the third type of values of the first two. -/
inductive BinaryOp.Allows (op : BinaryOp) : BasicType → BasicType → BasicType → Prop
  | logical : op ∈ [.and, .or] → Allows op .bool .bool .bool
  | comparison {operand} :
      op ∈ [.equal, .notEqual, .less, .lessEqual, .greater, .greaterEqual] →
      Allows op operand operand .bool
  | widened {left right} : op ∈ [.add, .sub, .mul, .div] → left.Numeric → right.Numeric →
      left = .float ∨ right = .float → Allows op left right .float
  | arithmetic {left right} : op ∈ [.add, .sub, .mul, .div] → left.Numeric → right.Numeric →
      left ≠ .float → right ≠ .float → Allows op left right left

/-- The operator makes a value of a type of another one of the same type. -/
inductive UnaryOp.Allows : UnaryOp → BasicType → Prop
  | neg {operand} : operand.Numeric → Allows .neg operand
  | not : Allows .not .bool

/-- The type of an expression, where names have types. A temporary has none. -/
inductive Expr.HasType (declares : String → DeclaredType → Prop) : Expr → BasicType → Prop
  | int {note value} : HasType declares (.int note value) .int
  | real {note value} : HasType declares (.real note value) .float
  | bool {note value} : HasType declares (.bool note value) .bool
  | loc {note id indices declared} : declares id.name declared →
      indices.length = declared.dims.length → (∀ index ∈ indices, HasType declares index .int) →
      HasType declares (.loc note id indices) declared.basic
  | paren {note inner type} : HasType declares inner type →
      HasType declares (.paren note inner) type
  | unary {note op operand type} : HasType declares operand type → op.Allows type →
      HasType declares (.unary note op operand) type
  | binary {note op left right leftType rightType type} :
      HasType declares left leftType → HasType declares right rightType →
      op.Allows leftType rightType type → HasType declares (.binary note op left right) type

/-- A statement in a scope is well-typed. A condition may have any type. -/
inductive Stmt.WellTyped (scopes : Scopes) : Nat → Stmt → Prop
  | assign {scope target value line targetType valueType} :
      target.HasType (scopes.GivesType scope) targetType →
      value.HasType (scopes.GivesType scope) valueType → targetType.Accepts valueType →
      WellTyped scopes scope (.assign target value line)
  | ifThen {scope condition body type} : condition.HasType (scopes.GivesType scope) type →
      WellTyped scopes scope body → WellTyped scopes scope (.ifThen condition body)
  | ifThenElse {scope condition body otherwise type} :
      condition.HasType (scopes.GivesType scope) type → WellTyped scopes scope body →
      WellTyped scopes scope otherwise →
      WellTyped scopes scope (.ifThenElse condition body otherwise)
  | whileDo {scope condition body type} : condition.HasType (scopes.GivesType scope) type →
      WellTyped scopes scope body → WellTyped scopes scope (.whileDo condition body)
  | doWhile {scope condition body type} : WellTyped scopes scope body →
      condition.HasType (scopes.GivesType scope) type →
      WellTyped scopes scope (.doWhile body condition)
  | breakLoop {scope} : WellTyped scopes scope .breakLoop
  | block {scope inner declarations body} : (∀ stmt ∈ body, WellTyped scopes inner stmt) →
      WellTyped scopes scope (.block inner declarations body)

def Program.WellTyped (program : Program) : Prop :=
  Stmt.WellTyped program.scopes program.block.scope program.block.stmt

end ThreeAddress

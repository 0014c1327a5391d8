import ThreeAddress.Proofs.Grammar.Derivation
import ThreeAddress.Proofs.Substatements

namespace ThreeAddress

namespace Stmt

/-- Whether a statement ends in an `if` that an `else` after it could belong to. -/
def endsOpen : Stmt → Bool
  | .ifThen _ _ => true
  | .ifThenElse _ _ otherwise => otherwise.endsOpen
  | .whileDo _ body => body.endsOpen
  | _ => false

/-- No `else` is passed on by an `if` that it could belong to. -/
def ElsesNearest (stmt : Stmt) : Prop :=
  ∀ condition body otherwise, Stmt.ifThenElse condition body otherwise ∈ stmt.parts →
    body.endsOpen = false

variable {condition : Expr} {body otherwise : Stmt}

theorem elsesNearest_assign {target value : Expr} {line : Nat} :
    (Stmt.assign target value line).ElsesNearest := by
  simp [ElsesNearest, parts]

theorem elsesNearest_breakLoop : Stmt.breakLoop.ElsesNearest := by
  simp [ElsesNearest, parts]

theorem elsesNearest_ifThen :
    (Stmt.ifThen condition body).ElsesNearest ↔ body.ElsesNearest := by
  simp [ElsesNearest, parts]

theorem elsesNearest_ifThenElse : (Stmt.ifThenElse condition body otherwise).ElsesNearest ↔
    body.endsOpen = false ∧ body.ElsesNearest ∧ otherwise.ElsesNearest := by
  simp only [ElsesNearest, parts, List.mem_cons, List.mem_append, ifThenElse.injEq]
  constructor
  · intro nearest
    exact ⟨nearest condition body otherwise (.inl ⟨rfl, rfl, rfl⟩),
      fun test first second member => nearest test first second (.inr (.inl member)),
      fun test first second member => nearest test first second (.inr (.inr member))⟩
  · rintro ⟨here, inBody, inElse⟩ test first second (⟨-, rfl, -⟩ | member | member)
    · exact here
    · exact inBody test first second member
    · exact inElse test first second member

theorem elsesNearest_whileDo :
    (Stmt.whileDo condition body).ElsesNearest ↔ body.ElsesNearest := by
  simp [ElsesNearest, parts]

theorem elsesNearest_doWhile :
    (Stmt.doWhile body condition).ElsesNearest ↔ body.ElsesNearest := by
  simp [ElsesNearest, parts]

theorem elsesNearest_block {scope : Nat} {declarations : List Declaration} {members : List Stmt} :
    (Stmt.block scope declarations members).ElsesNearest ↔
      ∀ stmt ∈ members, stmt.ElsesNearest := by
  simp only [ElsesNearest, parts, List.mem_cons, reduceCtorEq, false_or, mem_allParts]
  constructor
  · intro nearest stmt among test first second member
    exact nearest test first second ⟨stmt, among, member⟩
  · rintro nearest test first second ⟨stmt, among, member⟩
    exact nearest stmt among test first second member

end Stmt

namespace Grammar

mutual

/-- What may stand outside of a loop may stand in one. -/
theorem IsStatement.insideLoop {visible : List String} {inLoop : Bool} {opened after : Nat}
    {tokens rest : List Token} {stmt : Stmt}
    (derived : IsStatement visible inLoop opened tokens stmt after rest) :
    IsStatement visible true opened tokens stmt after rest := by
  cases derived with
  | assign place sign value ends => exact .assign place sign value ends
  | ifThen word condition body => exact .ifThen word condition (IsStatement.insideLoop body)
  | ifThenElse word condition body other otherwise =>
      exact .ifThenElse word condition (IsStatement.insideLoop body) other
        (IsStatement.insideLoop otherwise)
  | whileDo word condition body =>
      exact .whileDo word condition (IsStatement.insideLoop body)
  | doWhile word body again condition ends =>
      exact .doWhile word (IsStatement.insideLoop body) again condition ends
  | breakLoop _ word ends => exact .breakLoop rfl word ends
  | block opens declarations distinct members closes =>
      exact .block opens declarations distinct (AreStatements.insideLoop members) closes

theorem AreStatements.insideLoop {visible : List String} {inLoop : Bool} {opened after : Nat}
    {tokens rest : List Token} {stmts : List Stmt}
    (derived : AreStatements visible inLoop opened tokens stmts after rest) :
    AreStatements visible true opened tokens stmts after rest := by
  cases derived with
  | nil => exact .nil
  | cons first more => exact .cons (IsStatement.insideLoop first) (AreStatements.insideLoop more)

end

/-- An `else` after a statement that ends in an `if` can be taken by that `if`. -/
theorem IsStatement.attach (body : Stmt) {visible : List String} {inLoop : Bool}
    {opened between after : Nat} {tokens later rest : List Token} {other : Token}
    {otherwise : Stmt} (isOpen : body.endsOpen = true) (nearest : body.ElsesNearest)
    (derived : IsStatement visible inLoop opened tokens body between (other :: later))
    (isElse : other.kind = .keyword .elseWord)
    (elseDerived : IsStatement visible inLoop between later otherwise after rest)
    (elseNearest : otherwise.ElsesNearest) :
    ∃ whole, IsStatement visible inLoop opened tokens whole after rest ∧ whole.ElsesNearest := by
  match body with
  | .ifThen condition inner =>
      cases derived with
      | ifThen word tested innerDerived =>
          have innerNearest := Stmt.elsesNearest_ifThen.mp nearest
          cases innerOpen : inner.endsOpen with
          | true =>
              obtain ⟨whole, wholeDerived, wholeNearest⟩ :=
                attach inner innerOpen innerNearest innerDerived isElse elseDerived elseNearest
              exact ⟨.ifThen condition whole, .ifThen word tested wholeDerived,
                Stmt.elsesNearest_ifThen.mpr wholeNearest⟩
          | false =>
              exact ⟨.ifThenElse condition inner otherwise,
                .ifThenElse word tested innerDerived isElse elseDerived,
                Stmt.elsesNearest_ifThenElse.mpr ⟨innerOpen, innerNearest, elseNearest⟩⟩
  | .ifThenElse condition inner last =>
      cases derived with
      | ifThenElse word tested innerDerived innerElse lastDerived =>
          obtain ⟨innerClosed, innerNearest, lastNearest⟩ :=
            Stmt.elsesNearest_ifThenElse.mp nearest
          obtain ⟨whole, wholeDerived, wholeNearest⟩ :=
            attach last isOpen lastNearest lastDerived isElse elseDerived elseNearest
          exact ⟨.ifThenElse condition inner whole,
            .ifThenElse word tested innerDerived innerElse wholeDerived,
            Stmt.elsesNearest_ifThenElse.mpr ⟨innerClosed, innerNearest, wholeNearest⟩⟩
  | .whileDo condition inner =>
      cases derived with
      | whileDo word tested innerDerived =>
          obtain ⟨whole, wholeDerived, wholeNearest⟩ :=
            attach inner isOpen (Stmt.elsesNearest_whileDo.mp nearest) innerDerived isElse
              elseDerived.insideLoop elseNearest
          exact ⟨.whileDo condition whole, .whileDo word tested wholeDerived,
            Stmt.elsesNearest_whileDo.mpr wholeNearest⟩
  | .assign _ _ _ | .doWhile _ _ | .breakLoop | .block _ _ _ => contradiction

mutual

theorem IsStatement.nearest {visible : List String} {inLoop : Bool} {opened after : Nat}
    {tokens rest : List Token} {stmt : Stmt}
    (derived : IsStatement visible inLoop opened tokens stmt after rest) :
    ∃ whole, IsStatement visible inLoop opened tokens whole after rest ∧ whole.ElsesNearest := by
  cases derived with
  | assign place sign value ends =>
      exact ⟨_, .assign place sign value ends, Stmt.elsesNearest_assign⟩
  | ifThen word condition body =>
      obtain ⟨whole, wholeDerived, nearest⟩ := IsStatement.nearest body
      exact ⟨_, .ifThen word condition wholeDerived, Stmt.elsesNearest_ifThen.mpr nearest⟩
  | ifThenElse word condition body other otherwise =>
      obtain ⟨whole, wholeDerived, nearest⟩ := IsStatement.nearest body
      obtain ⟨last, lastDerived, lastNearest⟩ := IsStatement.nearest otherwise
      have unattached := IsStatement.ifThen word condition wholeDerived
      exact IsStatement.attach _ rfl (Stmt.elsesNearest_ifThen.mpr nearest) unattached other
        lastDerived lastNearest
  | whileDo word condition body =>
      obtain ⟨whole, wholeDerived, nearest⟩ := IsStatement.nearest body
      exact ⟨_, .whileDo word condition wholeDerived, Stmt.elsesNearest_whileDo.mpr nearest⟩
  | doWhile word body again condition ends =>
      obtain ⟨whole, wholeDerived, nearest⟩ := IsStatement.nearest body
      exact ⟨_, .doWhile word wholeDerived again condition ends,
        Stmt.elsesNearest_doWhile.mpr nearest⟩
  | breakLoop inside word ends =>
      exact ⟨_, .breakLoop inside word ends, Stmt.elsesNearest_breakLoop⟩
  | block opens declarations distinct members closes =>
      obtain ⟨whole, wholeDerived, nearest⟩ := AreStatements.nearest members
      exact ⟨_, .block opens declarations distinct wholeDerived closes,
        Stmt.elsesNearest_block.mpr nearest⟩

theorem AreStatements.nearest {visible : List String} {inLoop : Bool} {opened after : Nat}
    {tokens rest : List Token} {stmts : List Stmt}
    (derived : AreStatements visible inLoop opened tokens stmts after rest) :
    ∃ whole, AreStatements visible inLoop opened tokens whole after rest ∧
      ∀ stmt ∈ whole, stmt.ElsesNearest := by
  cases derived with
  | nil => exact ⟨[], .nil, nofun⟩
  | cons first more =>
      obtain ⟨whole, wholeDerived, nearest⟩ := IsStatement.nearest first
      obtain ⟨others, othersDerived, othersNearest⟩ := AreStatements.nearest more
      exact ⟨whole :: others, .cons wholeDerived othersDerived,
        List.forall_mem_cons.mpr ⟨nearest, othersNearest⟩⟩

end

end Grammar

end ThreeAddress

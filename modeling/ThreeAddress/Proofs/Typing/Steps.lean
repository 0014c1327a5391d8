import ThreeAddress.Typing.Check

namespace ThreeAddress

namespace Expr

variable {typeOf? : String → Option DeclaredType} {note : Note} {checked : Expr}
  {type : ValueType}

theorem conclude_eq_ok {expr : Expr} {rule : Except TypeFault ValueType} :
    conclude expr rule = (checked, .ok type) ↔
    rule = .ok type ∧ checked = expr.withType type := by
  cases rule with
  | error fault => simp [conclude]
  | ok found =>
      simp only [conclude, Prod.mk.injEq, Except.ok.injEq]
      constructor
      · rintro ⟨rfl, rfl⟩
        exact ⟨rfl, rfl⟩
      · rintro ⟨rfl, rfl⟩
        exact ⟨rfl, rfl⟩

theorem check_binary_eq_ok {op : BinaryOp} {left right : Expr} :
    (Expr.binary note op left right).check typeOf? = (checked, .ok type) ↔
    ∃ leftChecked leftType rightChecked rightType,
      left.check typeOf? = (leftChecked, .ok leftType) ∧
      right.check typeOf? = (rightChecked, .ok rightType) ∧
      op.resultType leftType rightType = .ok type ∧
      checked = .binary { note with type } op leftChecked rightChecked := by
  rw [check]
  rcases left.check typeOf? with ⟨leftChecked, _ | leftType⟩
  · simp
  · rcases right.check typeOf? with ⟨rightChecked, _ | rightType⟩
    · simp
    · simp [conclude_eq_ok, withType, and_assoc]

theorem check_unary_eq_ok {op : UnaryOp} {operand : Expr} :
    (Expr.unary note op operand).check typeOf? = (checked, .ok type) ↔
    ∃ operandChecked operandType, operand.check typeOf? = (operandChecked, .ok operandType) ∧
      op.resultType operandType = .ok type ∧
      checked = .unary { note with type } op operandChecked := by
  rw [check]
  rcases operand.check typeOf? with ⟨operandChecked, _ | operandType⟩
  · simp
  · simp [conclude_eq_ok, withType, and_assoc]

theorem check_paren_eq_ok {inner : Expr} :
    (Expr.paren note inner).check typeOf? = (checked, .ok type) ↔
    ∃ innerChecked, inner.check typeOf? = (innerChecked, .ok type) ∧
      checked = .paren { note with type } innerChecked := by
  rw [check]
  rcases inner.check typeOf? with ⟨innerChecked, _ | innerType⟩
  · simp
  · simp only [conclude_eq_ok, withType, Prod.mk.injEq, Except.ok.injEq]
    constructor
    · rintro ⟨rfl, rfl⟩
      exact ⟨innerChecked, ⟨rfl, rfl⟩, rfl⟩
    · rintro ⟨_, ⟨rfl, rfl⟩, rfl⟩
      exact ⟨rfl, rfl⟩

theorem elementType_eq_ok {declared : DeclaredType} {name : String} {given : Nat} :
    declared.elementType name given = .ok type ↔
    given = declared.depth ∧ type = .scalar declared.basic := by
  unfold DeclaredType.elementType
  by_cases full : given = declared.depth
  · simp [full, eq_comm]
  · rw [if_neg full]
    split <;> simp [full]

theorem check_loc_eq_ok {id : Ident} {indices : List Expr} :
    (Expr.loc note id indices).check typeOf? = (checked, .ok type) ↔
    ∃ declared indicesChecked, typeOf? id.name = some declared ∧
      indices.length = declared.depth ∧ type = .scalar declared.basic ∧
      checkIndices typeOf? indices = (indicesChecked, .ok ()) ∧
      checked = .loc { note with type } id indicesChecked := by
  rw [check]
  cases typeOf? id.name with
  | none => simp
  | some declared =>
      dsimp only
      cases allowed : declared.elementType id.name indices.length with
      | error fault =>
          have refused : indices.length ≠ declared.depth := by
            intro full
            rw [elementType_eq_ok.mpr ⟨full, rfl⟩] at allowed
            contradiction
          simp [refused]
      | ok elementType =>
          obtain ⟨full, rfl⟩ := elementType_eq_ok.mp allowed
          rcases checkIndices typeOf? indices with ⟨indicesChecked, _ | _⟩
          · simp
          · simp only [conclude_eq_ok, withType, full]
            constructor
            · rintro ⟨same, rfl⟩
              cases same
              exact ⟨declared, indicesChecked, rfl, rfl, rfl, rfl, rfl⟩
            · rintro ⟨_, _, same, -, rfl, same', rfl⟩
              cases same
              cases same'
              exact ⟨rfl, rfl⟩

theorem is_int_iff : type.is .int = true ↔ type = .int := by
  rcases type with ⟨basic, depth⟩
  simp [ValueType.is, ValueType.isArray, ValueType.int, ValueType.scalar, and_comm]

theorem checkIndices_nil_eq_ok {checked : List Expr} :
    checkIndices typeOf? [] = (checked, .ok ()) ↔ checked = [] := by
  simp [checkIndices, eq_comm]

theorem checkIndices_cons_eq_ok {index : Expr} {rest checked : List Expr} :
    checkIndices typeOf? (index :: rest) = (checked, .ok ()) ↔
    ∃ indexChecked restChecked, index.check typeOf? = (indexChecked, .ok .int) ∧
      checkIndices typeOf? rest = (restChecked, .ok ()) ∧
      checked = indexChecked :: restChecked := by
  rw [checkIndices]
  rcases index.check typeOf? with ⟨indexChecked, _ | indexType⟩
  · simp
  · by_cases int : indexType.is .int = true
    · rcases checkIndices typeOf? rest with ⟨restChecked, _ | _⟩ <;>
        simp [is_int_iff.mp int, is_int_iff.mpr, eq_comm]
    · have notInt : indexType ≠ .int := fun same => int (is_int_iff.mpr same)
      simp [int, notInt]

end Expr

namespace Stmt

variable {scopes : Scopes} {scope : Nat} {condition : Expr} {body checked : Stmt}

theorem check_assign_eq_ok {target value : Expr} {line : Nat} :
    (Stmt.assign target value line).check scopes scope = (checked, .ok ()) ↔
    ∃ targetChecked targetType valueChecked valueType,
      target.check (scopes.typeOf? scope) = (targetChecked, .ok targetType) ∧
      value.check (scopes.typeOf? scope) = (valueChecked, .ok valueType) ∧
      targetType.accept valueType = .ok () ∧
      checked = .assign targetChecked valueChecked line := by
  rw [check, checkAssign]
  rcases target.check (scopes.typeOf? scope) with ⟨targetChecked, _ | targetType⟩
  · simp
  · rcases value.check (scopes.typeOf? scope) with ⟨valueChecked, _ | valueType⟩
    · simp
    · cases accepted : targetType.accept valueType with
      | error fault => simp [accepted, and_assoc]
      | ok done => simp [accepted, and_assoc, @eq_comm _ checked]

theorem check_ifThen_eq_ok :
    (Stmt.ifThen condition body).check scopes scope = (checked, .ok ()) ↔
    ∃ conditionChecked type bodyChecked,
      condition.check (scopes.typeOf? scope) = (conditionChecked, .ok type) ∧
      body.check scopes scope = (bodyChecked, .ok ()) ∧
      checked = .ifThen conditionChecked bodyChecked := by
  rw [check]
  rcases condition.check (scopes.typeOf? scope) with ⟨conditionChecked, _ | type⟩
  · simp
  · rcases body.check scopes scope with ⟨bodyChecked, _ | _⟩ <;> simp [eq_comm]

theorem check_ifThenElse_eq_ok {otherwise : Stmt} :
    (Stmt.ifThenElse condition body otherwise).check scopes scope = (checked, .ok ()) ↔
    ∃ conditionChecked type bodyChecked otherwiseChecked,
      condition.check (scopes.typeOf? scope) = (conditionChecked, .ok type) ∧
      body.check scopes scope = (bodyChecked, .ok ()) ∧
      otherwise.check scopes scope = (otherwiseChecked, .ok ()) ∧
      checked = .ifThenElse conditionChecked bodyChecked otherwiseChecked := by
  rw [check]
  rcases condition.check (scopes.typeOf? scope) with ⟨conditionChecked, _ | type⟩
  · simp
  · rcases body.check scopes scope with ⟨bodyChecked, _ | _⟩
    · simp
    · rcases otherwise.check scopes scope with ⟨otherwiseChecked, _ | _⟩ <;> simp [eq_comm]

theorem check_whileDo_eq_ok :
    (Stmt.whileDo condition body).check scopes scope = (checked, .ok ()) ↔
    ∃ conditionChecked type bodyChecked,
      condition.check (scopes.typeOf? scope) = (conditionChecked, .ok type) ∧
      body.check scopes scope = (bodyChecked, .ok ()) ∧
      checked = .whileDo conditionChecked bodyChecked := by
  rw [check]
  rcases condition.check (scopes.typeOf? scope) with ⟨conditionChecked, _ | type⟩
  · simp
  · rcases body.check scopes scope with ⟨bodyChecked, _ | _⟩ <;> simp [eq_comm]

theorem check_doWhile_eq_ok :
    (Stmt.doWhile body condition).check scopes scope = (checked, .ok ()) ↔
    ∃ bodyChecked conditionChecked type,
      body.check scopes scope = (bodyChecked, .ok ()) ∧
      condition.check (scopes.typeOf? scope) = (conditionChecked, .ok type) ∧
      checked = .doWhile bodyChecked conditionChecked := by
  rw [check]
  rcases body.check scopes scope with ⟨bodyChecked, _ | _⟩
  · simp
  · rcases condition.check (scopes.typeOf? scope) with ⟨conditionChecked, _ | type⟩ <;>
      simp [Except.map, eq_comm]

theorem check_block_eq_ok {inner : Nat} {declarations : List Declaration} {members : List Stmt} :
    (Stmt.block inner declarations members).check scopes scope = (checked, .ok ()) ↔
    ∃ membersChecked, checkAll scopes inner members = (membersChecked, .ok ()) ∧
      checked = .block inner declarations membersChecked := by
  rw [check]
  rcases checkAll scopes inner members with ⟨membersChecked, _ | _⟩ <;> simp [eq_comm]

theorem checkAll_nil_eq_ok {checked : List Stmt} :
    checkAll scopes scope [] = (checked, .ok ()) ↔ checked = [] := by
  simp [checkAll, eq_comm]

theorem checkAll_cons_eq_ok {first : Stmt} {rest checked : List Stmt} :
    checkAll scopes scope (first :: rest) = (checked, .ok ()) ↔
    ∃ firstChecked restChecked, first.check scopes scope = (firstChecked, .ok ()) ∧
      checkAll scopes scope rest = (restChecked, .ok ()) ∧
      checked = firstChecked :: restChecked := by
  rw [checkAll]
  rcases first.check scopes scope with ⟨firstChecked, _ | _⟩
  · simp
  · rcases checkAll scopes scope rest with ⟨restChecked, _ | _⟩ <;> simp [eq_comm]

end Stmt

end ThreeAddress

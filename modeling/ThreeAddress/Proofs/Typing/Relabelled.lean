import ThreeAddress.Proofs.Relabelling

namespace ThreeAddress

variable {new : Relabelling} {α β γ : Type}

/-- What a check makes of a tree and what it finds, relabelled. -/
def Relabelling.checked (new : Relabelling) (image : α → β) (result : α × Except CheckError γ) :
    β × Except CheckError γ :=
  (image result.1, result.2.mapError new.checkError)

namespace Relabelling

variable {image : α → β} {tree : α}

@[simp] theorem checked_ok (value : γ) :
    new.checked image (tree, .ok value) = (image tree, .ok value) :=
  rfl

@[simp] theorem checked_error (error : CheckError) :
    new.checked image (tree, (.error error : Except CheckError γ)) =
      (image tree, .error (new.checkError error)) :=
  rfl

end Relabelling

theorem BinaryOp.resultType_relabelled (op : BinaryOp) (left right : ValueType) :
    (op.resultType left right).mapError new.typeFault = op.resultType left right := by
  unfold resultType
  split
  · rfl
  · cases op.sort
    all_goals
      dsimp only
      split <;> rfl

theorem UnaryOp.resultType_relabelled (op : UnaryOp) (operand : ValueType) :
    (op.resultType operand).mapError new.typeFault = op.resultType operand := by
  unfold resultType
  split
  · rfl
  · cases op
    all_goals
      dsimp only
      split <;> rfl

theorem DeclaredType.elementType_relabelled (declared : DeclaredType) (name : String)
    (given : Nat) : declared.elementType (new.name name) given =
      (declared.elementType name given).mapError new.typeFault := by
  unfold elementType
  split
  · rfl
  · split <;> rfl

theorem ValueType.accept_relabelled (target value : ValueType) :
    (target.accept value).mapError new.typeFault = target.accept value := by
  unfold accept
  split
  · rfl
  · split
    · rfl
    · split <;> rfl

namespace Expr

theorem conclude_relabelled (expr : Expr) (rule : Except TypeFault ValueType) :
    (new.expr expr).conclude (rule.mapError new.typeFault) =
      new.checked new.expr (expr.conclude rule) := by
  cases rule with
  | ok type =>
      change (new.expr expr).conclude (.ok type) = _
      simp [conclude, Relabelling.expr_withType]
  | error fault =>
      change (new.expr expr).conclude (.error (new.typeFault fault)) = _
      simp [conclude, Relabelling.expr_line, Relabelling.checkError]

/-- A rule whose faults have no names in them. -/
theorem conclude_of_nameless {rule : Except TypeFault ValueType} (expr : Expr)
    (nameless : rule.mapError new.typeFault = rule) :
    (new.expr expr).conclude rule = new.checked new.expr (expr.conclude rule) := by
  rw [← conclude_relabelled, nameless]

variable {typeOf? other? : String → Option DeclaredType}

mutual

theorem check_relabelled (still : new.temps = 0)
    (same : ∀ name, other? (new.name name) = typeOf? name) (expr : Expr) :
    (new.expr expr).check other? = new.checked new.expr (expr.check typeOf?) := by
  match expr with
  | .binary note op left right =>
      rw [Relabelling.expr, check, check, check_relabelled still same left,
        check_relabelled still same right]
      rcases left.check typeOf? with ⟨leftExpr, _ | leftType⟩
      · rfl
      · rcases right.check typeOf? with ⟨rightExpr, _ | rightType⟩
        · rfl
        · exact conclude_of_nameless (.binary note op leftExpr rightExpr)
            (op.resultType_relabelled leftType rightType)
  | .unary note op operand =>
      rw [Relabelling.expr, check, check, check_relabelled still same operand]
      rcases operand.check typeOf? with ⟨checked, _ | type⟩
      · rfl
      · exact conclude_of_nameless (.unary note op checked) (op.resultType_relabelled type)
  | .paren note inner =>
      rw [Relabelling.expr, check, check, check_relabelled still same inner]
      rcases inner.check typeOf? with ⟨checked, _ | type⟩
      · rfl
      · rfl
  | .loc note id indices =>
      have name : (new.ident id).name = new.name id.name := rfl
      rw [Relabelling.expr, check, check, name, same, Relabelling.length_exprs]
      cases typeOf? id.name with
      | none => rfl
      | some declared =>
          dsimp only
          rw [declared.elementType_relabelled]
          cases declared.elementType id.name indices.length with
          | error fault => rfl
          | ok type =>
              have kept : (Except.ok type).mapError new.typeFault = .ok type := rfl
              rw [kept, checkIndices_relabelled still same indices]
              rcases checkIndices typeOf? indices with ⟨checked, _ | _⟩
              · rfl
              · rfl
  | .int note value => rfl
  | .real note value => rfl
  | .bool note value => rfl
  | .temp note number =>
      have type : (new.note note).type = note.type := rfl
      have kept : new.expr (.temp note number) = .temp (new.note note) number := by
        rw [Relabelling.expr, still, Nat.add_zero]
      rw [kept, check, check, type]
      cases note.type with
      | none =>
          rw [Relabelling.checked, kept]
          rfl
      | some type =>
          rw [Relabelling.checked, kept]
          rfl

theorem checkIndices_relabelled (still : new.temps = 0)
    (same : ∀ name, other? (new.name name) = typeOf? name) (indices : List Expr) :
    checkIndices other? (new.exprs indices) =
      new.checked new.exprs (checkIndices typeOf? indices) := by
  match indices with
  | [] => rfl
  | index :: rest =>
      rw [Relabelling.exprs, checkIndices, checkIndices, check_relabelled still same index,
        checkIndices_relabelled still same rest]
      rcases index.check typeOf? with ⟨checked, _ | type⟩
      · rfl
      · simp only [Relabelling.checked_ok]
        split
        · rfl
        · rw [Relabelling.expr_line]
          rfl

end

end Expr

namespace Stmt

theorem checkAssign_relabelled {typeOf? other? : String → Option DeclaredType}
    (still : new.temps = 0) (same : ∀ name, other? (new.name name) = typeOf? name)
    (target value : Expr) (line : Nat) :
    checkAssign other? (new.expr target) (new.expr value) (new.line line) =
      new.checked new.stmt (checkAssign typeOf? target value line) := by
  rw [checkAssign, checkAssign, Expr.check_relabelled still same target,
    Expr.check_relabelled still same value]
  rcases target.check typeOf? with ⟨targetExpr, _ | targetType⟩
  · rfl
  · rcases value.check typeOf? with ⟨valueExpr, _ | valueType⟩
    · rfl
    · have nameless : (targetType.accept valueType).mapError new.typeFault =
          targetType.accept valueType := targetType.accept_relabelled valueType
      cases rule : targetType.accept valueType with
      | ok accepted => simp [Relabelling.stmt, rule]
      | error fault =>
          rw [rule] at nameless
          have kept : new.typeFault fault = fault := Except.error.inj nameless
          simp [Relabelling.stmt, rule, Relabelling.checkError, kept]

variable {scopes : Scopes}

mutual

theorem check_relabelled (still : new.temps = 0) (stmt : Stmt) (scope : Nat) :
    (new.stmt stmt).check (new.scopes scopes) scope =
      new.checked new.stmt (stmt.check scopes scope) := by
  have same (name : String) :
      (new.scopes scopes).typeOf? scope (new.name name) = scopes.typeOf? scope name :=
    Relabelling.typeOf?_scopes name
  match stmt with
  | .assign target value line => exact checkAssign_relabelled still same target value line
  | .ifThen condition body =>
      rw [Relabelling.stmt, check, check, Expr.check_relabelled still same condition,
        check_relabelled still body scope]
      rcases condition.check (scopes.typeOf? scope) with ⟨checked, _ | type⟩
      · rfl
      · rfl
  | .ifThenElse condition body otherwise =>
      rw [Relabelling.stmt, check, check, Expr.check_relabelled still same condition,
        check_relabelled still body scope, check_relabelled still otherwise scope]
      rcases condition.check (scopes.typeOf? scope) with ⟨checked, _ | type⟩
      · rfl
      · rcases body.check scopes scope with ⟨checkedBody, _ | _⟩
        · rfl
        · rfl
  | .whileDo condition body =>
      rw [Relabelling.stmt, check, check, Expr.check_relabelled still same condition,
        check_relabelled still body scope]
      rcases condition.check (scopes.typeOf? scope) with ⟨checked, _ | type⟩
      · rfl
      · rfl
  | .doWhile body condition =>
      rw [Relabelling.stmt, check, check, check_relabelled still body scope,
        Expr.check_relabelled still same condition]
      rcases body.check scopes scope with ⟨checkedBody, _ | _⟩
      · rfl
      · rcases condition.check (scopes.typeOf? scope) with ⟨checked, _ | type⟩
        · rfl
        · rfl
  | .breakLoop => rfl
  | .block inner declarations body =>
      rw [Relabelling.stmt, check, check, checkAll_relabelled still body inner]
      rfl

theorem checkAll_relabelled (still : new.temps = 0) (body : List Stmt) (scope : Nat) :
    checkAll (new.scopes scopes) scope (new.stmts body) =
      new.checked new.stmts (checkAll scopes scope body) := by
  match body with
  | [] => rfl
  | first :: rest =>
      rw [Relabelling.stmts, checkAll, checkAll, check_relabelled still first scope,
        checkAll_relabelled still rest scope]
      rcases first.check scopes scope with ⟨checked, _ | _⟩
      · rfl
      · rfl

end

end Stmt

/-- A relabelled program is checked like the program. -/
theorem Program.check_relabelled (still : new.temps = 0) (program : Program) :
    (new.program program).check = new.checked new.program program.check := by
  rw [check, check]
  dsimp only [Relabelling.program, Relabelling.block]
  rw [Stmt.checkAll_relabelled still]
  rfl

end ThreeAddress

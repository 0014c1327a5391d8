import ThreeAddress.Proofs.Typing.Steps
import ThreeAddress.Proofs.WellFormed

namespace ThreeAddress

namespace Expr

variable {typeOf? : String → Option DeclaredType} {expr checked : Expr} {type : ValueType}

mutual

theorem check_resolved (expr : Expr) {checked : Expr} {type : ValueType}
    (tempFree : expr.TempFree) (accepted : expr.check typeOf? = (checked, .ok type)) :
    checked.Resolved typeOf? := by
  match expr with
  | .binary note op left right =>
      obtain ⟨leftChecked, _, rightChecked, _, leftAccepted, rightAccepted, _, rfl⟩ :=
        check_binary_eq_ok.mp accepted
      exact ⟨check_resolved left tempFree.1 leftAccepted,
        check_resolved right tempFree.2 rightAccepted⟩
  | .unary note op operand =>
      obtain ⟨operandChecked, _, operandAccepted, _, rfl⟩ := check_unary_eq_ok.mp accepted
      have resolved := check_resolved operand tempFree operandAccepted
      exact resolved
  | .paren note inner =>
      obtain ⟨innerChecked, innerAccepted, rfl⟩ := check_paren_eq_ok.mp accepted
      have resolved := check_resolved inner tempFree innerAccepted
      exact resolved
  | .loc note id indices =>
      obtain ⟨declared, indicesChecked, found, full, _, indicesAccepted, rfl⟩ :=
        check_loc_eq_ok.mp accepted
      obtain ⟨length, resolved⟩ := checkIndices_resolved indices tempFree indicesAccepted
      exact ⟨⟨declared, found, length.trans full⟩, resolved⟩
  | .int note value | .real note value | .bool note value =>
      rw [check] at accepted
      obtain ⟨_, rfl⟩ := conclude_eq_ok.mp accepted
      trivial
  | .temp note number => exact tempFree.elim

theorem checkIndices_resolved (indices : List Expr) {checked : List Expr}
    (tempFree : AllTempFree indices)
    (accepted : checkIndices typeOf? indices = (checked, .ok ())) :
    checked.length = indices.length ∧ AllResolved typeOf? checked := by
  match indices with
  | [] =>
      obtain rfl := checkIndices_nil_eq_ok.mp accepted
      exact ⟨rfl, trivial⟩
  | index :: rest =>
      obtain ⟨indexChecked, restChecked, indexAccepted, restAccepted, rfl⟩ :=
        checkIndices_cons_eq_ok.mp accepted
      obtain ⟨length, resolved⟩ := checkIndices_resolved rest tempFree.2 restAccepted
      exact ⟨congrArg Nat.succ length, check_resolved index tempFree.1 indexAccepted, resolved⟩

end

theorem check_isLocation (accepted : expr.check typeOf? = (checked, .ok type))
    (location : expr.isLocation = true) : checked.isLocation = true := by
  cases expr with
  | loc note id indices =>
      obtain ⟨_, _, _, _, _, _, rfl⟩ := check_loc_eq_ok.mp accepted
      rfl
  | _ => simp [isLocation] at location

end Expr

namespace Stmt

variable {scopes : Scopes}

mutual

theorem check_resolved (stmt : Stmt) {inLoop : Bool} {scope : Nat} {checked : Stmt}
    (source : stmt.FromSource inLoop) (accepted : stmt.check scopes scope = (checked, .ok ())) :
    checked.Resolved scopes inLoop scope := by
  match stmt with
  | .assign target value line =>
      obtain ⟨_, _, _, _, targetAccepted, valueAccepted, _, rfl⟩ :=
        check_assign_eq_ok.mp accepted
      exact ⟨Expr.check_isLocation targetAccepted source.1,
        Expr.check_resolved target source.2.1 targetAccepted,
        Expr.check_resolved value source.2.2 valueAccepted⟩
  | .ifThen condition body =>
      obtain ⟨_, _, _, conditionAccepted, bodyAccepted, rfl⟩ := check_ifThen_eq_ok.mp accepted
      exact ⟨Expr.check_resolved condition source.1 conditionAccepted,
        check_resolved body source.2 bodyAccepted⟩
  | .ifThenElse condition body otherwise =>
      obtain ⟨_, _, _, _, conditionAccepted, bodyAccepted, otherwiseAccepted, rfl⟩ :=
        check_ifThenElse_eq_ok.mp accepted
      exact ⟨Expr.check_resolved condition source.1 conditionAccepted,
        check_resolved body source.2.1 bodyAccepted,
        check_resolved otherwise source.2.2 otherwiseAccepted⟩
  | .whileDo condition body =>
      obtain ⟨_, _, _, conditionAccepted, bodyAccepted, rfl⟩ := check_whileDo_eq_ok.mp accepted
      exact ⟨Expr.check_resolved condition source.1 conditionAccepted,
        check_resolved body source.2 bodyAccepted⟩
  | .doWhile body condition =>
      obtain ⟨_, _, _, bodyAccepted, conditionAccepted, rfl⟩ := check_doWhile_eq_ok.mp accepted
      exact ⟨check_resolved body source.1 bodyAccepted,
        Expr.check_resolved condition source.2 conditionAccepted⟩
  | .breakLoop =>
      rw [check] at accepted
      cases accepted
      exact source
  | .block inner declarations body =>
      obtain ⟨_, bodyAccepted, rfl⟩ := check_block_eq_ok.mp accepted
      exact checkAll_resolved body source bodyAccepted

theorem checkAll_resolved (body : List Stmt) {inLoop : Bool} {scope : Nat}
    {checked : List Stmt} (source : AllFromSource inLoop body)
    (accepted : checkAll scopes scope body = (checked, .ok ())) :
    AllResolved scopes inLoop scope checked := by
  match body with
  | [] =>
      obtain rfl := checkAll_nil_eq_ok.mp accepted
      trivial
  | first :: rest =>
      obtain ⟨_, _, firstAccepted, restAccepted, rfl⟩ := checkAll_cons_eq_ok.mp accepted
      exact ⟨check_resolved first source.1 firstAccepted,
        checkAll_resolved rest source.2 restAccepted⟩

end

end Stmt

/-- A checked program keeps its scopes. -/
theorem Program.check_wellFormed {program checked : Program}
    (source : Stmt.AllFromSource false program.block.body) (allFit : program.scopes.AllFit)
    (accepted : program.check = (checked, .ok ())) : checked.WellFormed := by
  unfold Program.check at accepted
  simp only [Prod.mk.injEq] at accepted
  obtain ⟨rfl, bodyAccepted⟩ := accepted
  exact ⟨Stmt.checkAll_resolved _ source (Prod.ext rfl bodyAccepted), allFit⟩

end ThreeAddress

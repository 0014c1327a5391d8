import Mathlib.Tactic
import ThreeAddress.Compile
import ThreeAddress.Proofs.Typing.Judgement
import ThreeAddress.Proofs.Typing.Steps

namespace ThreeAddress

theorem guarded_eq_ok {allowed : Prop} [Decidable allowed] {given type : ValueType}
    {fault : TypeFault} : (if allowed then Except.ok given else .error fault) = .ok type ↔
    allowed ∧ type = given := by
  by_cases holds : allowed <;> simp [holds, eq_comm]

namespace ValueType

variable {basic other : BasicType}

theorem isArray_scalar : (scalar basic).isArray = false := rfl

theorem is_scalar : (scalar basic).is other = true ↔ basic = other := by
  rw [is, isArray_scalar]
  simp [scalar]

theorem isNumeric_scalar : (scalar basic).isNumeric = true ↔ basic.Numeric := by
  rw [isNumeric, isArray_scalar]
  cases basic <;> simp [scalar, BasicType.isNumeric, BasicType.Numeric]

theorem accept_scalar : (scalar basic).accept (scalar other) = .ok () ↔ basic.Accepts other := by
  cases basic <;> cases other <;> simp [accept, scalar, BasicType.Accepts]

end ValueType

open ValueType

namespace BinaryOp

variable {op : BinaryOp} {left right result : BasicType}

theorem sort_eq_logical_iff : op.sort = .logical ↔ op ∈ [.and, .or] := by
  cases op <;> decide

theorem sort_eq_comparison_iff : op.sort = .comparison ↔
    op ∈ [.equal, .notEqual, .less, .lessEqual, .greater, .greaterEqual] := by
  cases op <;> decide

theorem sort_eq_arithmetic_iff : op.sort = .arithmetic ↔ op ∈ [.add, .sub, .mul, .div] := by
  cases op <;> decide

theorem allows_logical (sort : op.sort = .logical) :
    op.Allows left right result ↔ left = .bool ∧ right = .bool ∧ result = .bool := by
  constructor
  · intro allows
    cases allows with
    | logical _ => exact ⟨rfl, rfl, rfl⟩
    | comparison member => simp [sort_eq_comparison_iff.mpr member] at sort
    | widened member | arithmetic member => simp [sort_eq_arithmetic_iff.mpr member] at sort
  · rintro ⟨rfl, rfl, rfl⟩
    exact .logical (sort_eq_logical_iff.mp sort)

theorem allows_comparison (sort : op.sort = .comparison) :
    op.Allows left right result ↔ left = right ∧ result = .bool := by
  constructor
  · intro allows
    cases allows with
    | logical member => simp [sort_eq_logical_iff.mpr member] at sort
    | comparison _ => exact ⟨rfl, rfl⟩
    | widened member | arithmetic member => simp [sort_eq_arithmetic_iff.mpr member] at sort
  · rintro ⟨rfl, rfl⟩
    exact .comparison (sort_eq_comparison_iff.mp sort)

theorem allows_arithmetic (sort : op.sort = .arithmetic) :
    op.Allows left right result ↔ left.Numeric ∧ right.Numeric ∧
      result = if left = .float ∨ right = .float then .float else left := by
  constructor
  · intro allows
    cases allows with
    | logical member => simp [sort_eq_logical_iff.mpr member] at sort
    | comparison member => simp [sort_eq_comparison_iff.mpr member] at sort
    | widened _ leftNumeric rightNumeric float =>
        exact ⟨leftNumeric, rightNumeric, by rw [if_pos float]⟩
    | arithmetic _ leftNumeric rightNumeric leftInt rightInt =>
        exact ⟨leftNumeric, rightNumeric, by rw [if_neg (not_or.mpr ⟨leftInt, rightInt⟩)]⟩
  · rintro ⟨leftNumeric, rightNumeric, rfl⟩
    have member := sort_eq_arithmetic_iff.mp sort
    by_cases float : left = .float ∨ right = .float
    · rw [if_pos float]
      exact .widened member leftNumeric rightNumeric float
    · rw [if_neg float]
      obtain ⟨leftInt, rightInt⟩ := not_or.mp float
      exact .arithmetic member leftNumeric rightNumeric leftInt rightInt

theorem resultType_eq_ok {type : ValueType} :
    op.resultType (scalar left) (scalar right) = .ok type ↔
    ∃ result, op.Allows left right result ∧ type = scalar result := by
  rw [resultType, isArray_scalar, isArray_scalar, Bool.or_false, if_neg Bool.false_ne_true]
  cases sort : op.sort with
  | logical =>
      simp only [guarded_eq_ok, allows_logical sort, Bool.and_eq_true, is_scalar]
      constructor
      · rintro ⟨⟨leftBool, rightBool⟩, rfl⟩
        exact ⟨.bool, ⟨leftBool, rightBool, rfl⟩, rfl⟩
      · rintro ⟨_, ⟨leftBool, rightBool, rfl⟩, rfl⟩
        exact ⟨⟨leftBool, rightBool⟩, rfl⟩
  | comparison =>
      simp only [guarded_eq_ok, allows_comparison sort]
      constructor
      · rintro ⟨same, rfl⟩
        exact ⟨.bool, ⟨same, rfl⟩, rfl⟩
      · rintro ⟨_, ⟨same, rfl⟩, rfl⟩
        exact ⟨same, rfl⟩
  | arithmetic =>
      have widening : (if ((scalar left).is .float || (scalar right).is .float) = true then
          ValueType.float else scalar left) =
          scalar (if left = .float ∨ right = .float then .float else left) := by
        simp only [Bool.or_eq_true, is_scalar]
        split <;> rfl
      simp only [guarded_eq_ok, allows_arithmetic sort, Bool.and_eq_true, isNumeric_scalar,
        widening]
      constructor
      · rintro ⟨⟨leftNumeric, rightNumeric⟩, rfl⟩
        exact ⟨_, ⟨leftNumeric, rightNumeric, rfl⟩, rfl⟩
      · rintro ⟨_, ⟨leftNumeric, rightNumeric, rfl⟩, rfl⟩
        exact ⟨⟨leftNumeric, rightNumeric⟩, rfl⟩

end BinaryOp

theorem UnaryOp.resultType_eq_ok {op : UnaryOp} {operand : BasicType} {type : ValueType} :
    op.resultType (scalar operand) = .ok type ↔ op.Allows operand ∧ type = scalar operand := by
  cases op with
  | neg =>
      rw [resultType, isArray_scalar, if_neg Bool.false_ne_true]
      rw [guarded_eq_ok, isNumeric_scalar]
      refine and_congr_left fun _ => ⟨.neg, fun allows => ?_⟩
      cases allows with
      | neg numeric => exact numeric
  | not =>
      rw [resultType, isArray_scalar, if_neg Bool.false_ne_true]
      rw [guarded_eq_ok, is_scalar]
      refine and_congr_left fun _ => ⟨?_, fun allows => ?_⟩
      · rintro rfl
        exact .not
      · cases allows
        rfl

mutual

/-- Forgets the types that are noted on an expression. -/
def Expr.erase : Expr → Expr
  | .binary note op left right => .binary { note with type := none } op left.erase right.erase
  | .unary note op operand => .unary { note with type := none } op operand.erase
  | .paren note inner => .paren { note with type := none } inner.erase
  | .loc note id indices => .loc { note with type := none } id (Expr.eraseAll indices)
  | .int note value => .int { note with type := none } value
  | .real note value => .real { note with type := none } value
  | .bool note value => .bool { note with type := none } value
  | .temp note number => .temp { note with type := none } number

def Expr.eraseAll : List Expr → List Expr
  | [] => []
  | index :: rest => index.erase :: Expr.eraseAll rest

end

mutual

/-- Forgets the types that are noted in a statement. -/
def Stmt.erase : Stmt → Stmt
  | .assign target value line => .assign target.erase value.erase line
  | .ifThen condition body => .ifThen condition.erase body.erase
  | .ifThenElse condition body otherwise =>
      .ifThenElse condition.erase body.erase otherwise.erase
  | .whileDo condition body => .whileDo condition.erase body.erase
  | .doWhile body condition => .doWhile body.erase condition.erase
  | .breakLoop => .breakLoop
  | .block scope declarations body => .block scope declarations (Stmt.eraseAll body)

def Stmt.eraseAll : List Stmt → List Stmt
  | [] => []
  | first :: rest => first.erase :: Stmt.eraseAll rest

end

mutual

/-- Every expression of a statement, with the scope that it stands in, is good. -/
def Stmt.EachExpr (good : Nat → Expr → Prop) (scope : Nat) : Stmt → Prop
  | .assign target value _ => good scope target ∧ good scope value
  | .ifThen condition body => good scope condition ∧ body.EachExpr good scope
  | .ifThenElse condition body otherwise =>
      good scope condition ∧ body.EachExpr good scope ∧ otherwise.EachExpr good scope
  | .whileDo condition body => good scope condition ∧ body.EachExpr good scope
  | .doWhile body condition => body.EachExpr good scope ∧ good scope condition
  | .breakLoop => True
  | .block inner _ body => Stmt.EachExprOfAll good inner body

def Stmt.EachExprOfAll (good : Nat → Expr → Prop) (scope : Nat) : List Stmt → Prop
  | [] => True
  | first :: rest => first.EachExpr good scope ∧ Stmt.EachExprOfAll good scope rest

end

namespace Expr

variable {typeOf? : String → Option DeclaredType} {declares : String → DeclaredType → Prop}
  {expr checked : Expr} {type : BasicType}

/-- The node has a type noted, which is the only one that it has. -/
def Noted (declares : String → DeclaredType → Prop) (node : Expr) : Prop :=
  ∃ type, node.type = some (.scalar type) ∧ ∀ other, node.HasType declares other ↔ other = type

def Carries (declares : String → DeclaredType → Prop) (expr : Expr) : Prop :=
  ∀ node ∈ expr.nodes, node.Noted declares

theorem checkIndices_complete {indices : List Expr}
    (accepted : ∀ index ∈ indices, ∃ checked, index.check typeOf? = (checked, .ok .int)) :
    ∃ checked, checkIndices typeOf? indices = (checked, .ok ()) := by
  induction indices with
  | nil => exact ⟨[], rfl⟩
  | cons index rest ih =>
      obtain ⟨first, others⟩ := List.forall_mem_cons.mp accepted
      obtain ⟨indexChecked, indexAccepted⟩ := first
      obtain ⟨restChecked, restAccepted⟩ := ih others
      exact ⟨indexChecked :: restChecked, checkIndices_cons_eq_ok.mpr
        ⟨indexChecked, restChecked, indexAccepted, restAccepted, rfl⟩⟩

theorem check_complete (agrees : ∀ name declared, typeOf? name = some declared ↔
      declares name declared) (typed : expr.HasType declares type) :
    ∃ checked, expr.check typeOf? = (checked, .ok (.scalar type)) := by
  induction typed with
  | int | real | bool => exact ⟨_, rfl⟩
  | loc declared full _ ih =>
      obtain ⟨indicesChecked, accepted⟩ := checkIndices_complete ih
      exact ⟨_, check_loc_eq_ok.mpr
        ⟨_, indicesChecked, (agrees _ _).mpr declared, full, rfl, accepted, rfl⟩⟩
  | paren _ ih =>
      obtain ⟨innerChecked, accepted⟩ := ih
      exact ⟨_, check_paren_eq_ok.mpr ⟨innerChecked, accepted, rfl⟩⟩
  | unary _ allows ih =>
      obtain ⟨operandChecked, accepted⟩ := ih
      exact ⟨_, check_unary_eq_ok.mpr ⟨operandChecked, _, accepted,
        UnaryOp.resultType_eq_ok.mpr ⟨allows, rfl⟩, rfl⟩⟩
  | binary _ _ allows leftIH rightIH =>
      obtain ⟨leftChecked, leftAccepted⟩ := leftIH
      obtain ⟨rightChecked, rightAccepted⟩ := rightIH
      exact ⟨_, check_binary_eq_ok.mpr ⟨leftChecked, _, rightChecked, _, leftAccepted,
        rightAccepted, BinaryOp.resultType_eq_ok.mpr ⟨_, allows, rfl⟩, rfl⟩⟩

/-- The rules leave an expression no choice of types, as the check gives it one. -/
theorem HasType.unique (agrees : ∀ name declared, typeOf? name = some declared ↔
      declares name declared) {other : BasicType} (typed : expr.HasType declares type)
    (also : expr.HasType declares other) : type = other := by
  obtain ⟨_, accepted⟩ := check_complete agrees typed
  obtain ⟨_, alsoAccepted⟩ := check_complete agrees also
  have same := accepted.symm.trans alsoAccepted
  simp only [Prod.mk.injEq, Except.ok.injEq] at same
  exact congrArg ValueType.basic same.2

theorem eraseAll_eq_map {indices : List Expr} : eraseAll indices = indices.map erase := by
  induction indices with
  | nil => rfl
  | cons index rest ih => rw [eraseAll, ih, List.map_cons]

/-- The types that are noted play no part in the rules. -/
theorem HasType.of_erase_eq {other : Expr} (typed : expr.HasType declares type)
    (same : other.erase = expr.erase) : other.HasType declares type := by
  induction typed generalizing other with
  | int =>
      cases other with
      | int => exact .int
      | _ => simp [erase] at same
  | real =>
      cases other with
      | real => exact .real
      | _ => simp [erase] at same
  | bool =>
      cases other with
      | bool => exact .bool
      | _ => simp [erase] at same
  | @loc _ id indices _ declared full _ ih =>
      cases other with
      | loc note otherId others =>
          simp only [erase, loc.injEq, eraseAll_eq_map] at same
          obtain ⟨-, rfl, sameIndices⟩ := same
          have sameLength : others.length = indices.length := by
            simpa only [List.length_map] using congrArg List.length sameIndices
          refine .loc declared (sameLength.trans full) fun index member => ?_
          have erased := List.mem_map_of_mem (f := erase) member
          rw [sameIndices] at erased
          obtain ⟨original, among, sameIndex⟩ := List.mem_map.mp erased
          exact ih original among sameIndex.symm
      | _ => simp [erase] at same
  | paren _ ih =>
      cases other with
      | paren note inner =>
          simp only [erase, paren.injEq] at same
          exact .paren (ih same.2)
      | _ => simp [erase] at same
  | unary _ allows ih =>
      cases other with
      | unary note op operand =>
          simp only [erase, unary.injEq] at same
          obtain ⟨-, rfl, sameOperand⟩ := same
          exact .unary (ih sameOperand) allows
      | _ => simp [erase] at same
  | binary _ _ allows leftIH rightIH =>
      cases other with
      | binary note op left right =>
          simp only [erase, binary.injEq] at same
          obtain ⟨-, rfl, sameLeft, sameRight⟩ := same
          exact .binary (leftIH sameLeft) (rightIH sameRight) allows
      | _ => simp [erase] at same

theorem noted_of_hasType (agrees : ∀ name declared, typeOf? name = some declared ↔
      declares name declared) (typed : expr.HasType declares type)
    (same : checked.erase = expr.erase) (noted : checked.type = some (.scalar type)) :
    checked.Noted declares := by
  have kept := typed.of_erase_eq same
  refine ⟨type, noted, fun other => ⟨fun also => also.unique agrees kept, ?_⟩⟩
  rintro rfl
  exact kept

mutual

theorem check_sound (agrees : ∀ name declared, typeOf? name = some declared ↔
      declares name declared) (expr : Expr) {checked : Expr} {result : ValueType}
    (tempFree : expr.TempFree) (accepted : expr.check typeOf? = (checked, .ok result)) :
    checked.erase = expr.erase ∧
      (∃ type, result = .scalar type ∧ expr.HasType declares type) ∧ checked.Carries declares := by
  match expr with
  | .binary note op left right =>
      obtain ⟨leftChecked, _, rightChecked, _, leftAccepted, rightAccepted, allowed, rfl⟩ :=
        check_binary_eq_ok.mp accepted
      obtain ⟨sameLeft, ⟨leftType, rfl, leftTyped⟩, leftCarries⟩ :=
        check_sound agrees left tempFree.1 leftAccepted
      obtain ⟨sameRight, ⟨rightType, rfl, rightTyped⟩, rightCarries⟩ :=
        check_sound agrees right tempFree.2 rightAccepted
      obtain ⟨type, allows, rfl⟩ := BinaryOp.resultType_eq_ok.mp allowed
      have typed : (Expr.binary note op left right).HasType declares type :=
        .binary leftTyped rightTyped allows
      have same : (Expr.binary { note with type := some (.scalar type) } op leftChecked
          rightChecked).erase = (Expr.binary note op left right).erase := by
        rw [erase, erase, sameLeft, sameRight]
      exact ⟨same, ⟨type, rfl, typed⟩, List.forall_mem_cons.mpr
        ⟨noted_of_hasType agrees typed same rfl,
          List.forall_mem_append.mpr ⟨leftCarries, rightCarries⟩⟩⟩
  | .unary note op operand =>
      obtain ⟨operandChecked, _, operandAccepted, allowed, rfl⟩ := check_unary_eq_ok.mp accepted
      obtain ⟨sameOperand, ⟨type, rfl, operandTyped⟩, operandCarries⟩ :=
        check_sound agrees operand tempFree operandAccepted
      obtain ⟨allows, rfl⟩ := UnaryOp.resultType_eq_ok.mp allowed
      have typed : (Expr.unary note op operand).HasType declares type := .unary operandTyped allows
      have same : (Expr.unary { note with type := some (.scalar type) } op operandChecked).erase =
          (Expr.unary note op operand).erase := by
        rw [erase, erase, sameOperand]
      exact ⟨same, ⟨type, rfl, typed⟩,
        List.forall_mem_cons.mpr ⟨noted_of_hasType agrees typed same rfl, operandCarries⟩⟩
  | .paren note inner =>
      obtain ⟨innerChecked, innerAccepted, rfl⟩ := check_paren_eq_ok.mp accepted
      obtain ⟨sameInner, ⟨type, rfl, innerTyped⟩, innerCarries⟩ :=
        check_sound agrees inner tempFree innerAccepted
      have typed : (Expr.paren note inner).HasType declares type := .paren innerTyped
      have same : (Expr.paren { note with type := some (.scalar type) } innerChecked).erase =
          (Expr.paren note inner).erase := by
        rw [erase, erase, sameInner]
      exact ⟨same, ⟨type, rfl, typed⟩,
        List.forall_mem_cons.mpr ⟨noted_of_hasType agrees typed same rfl, innerCarries⟩⟩
  | .loc note id indices =>
      obtain ⟨declared, indicesChecked, found, full, rfl, indicesAccepted, rfl⟩ :=
        check_loc_eq_ok.mp accepted
      obtain ⟨sameIndices, indicesTyped, indicesCarry⟩ :=
        checkIndices_sound agrees indices tempFree indicesAccepted
      have typed : (Expr.loc note id indices).HasType declares declared.basic :=
        .loc ((agrees _ _).mp found) full indicesTyped
      have same : (Expr.loc { note with type := some (.scalar declared.basic) } id
          indicesChecked).erase = (Expr.loc note id indices).erase := by
        rw [erase, erase, sameIndices]
      exact ⟨same, ⟨declared.basic, rfl, typed⟩,
        List.forall_mem_cons.mpr ⟨noted_of_hasType agrees typed same rfl, indicesCarry⟩⟩
  | .int note value =>
      cases accepted
      exact ⟨rfl, ⟨.int, rfl, .int⟩,
        List.forall_mem_singleton.mpr (noted_of_hasType agrees .int rfl rfl)⟩
  | .real note value =>
      cases accepted
      exact ⟨rfl, ⟨.float, rfl, .real⟩,
        List.forall_mem_singleton.mpr (noted_of_hasType agrees .real rfl rfl)⟩
  | .bool note value =>
      cases accepted
      exact ⟨rfl, ⟨.bool, rfl, .bool⟩,
        List.forall_mem_singleton.mpr (noted_of_hasType agrees .bool rfl rfl)⟩
  | .temp note number => exact tempFree.elim

theorem checkIndices_sound (agrees : ∀ name declared, typeOf? name = some declared ↔
      declares name declared) (indices : List Expr) {checked : List Expr}
    (tempFree : AllTempFree indices)
    (accepted : checkIndices typeOf? indices = (checked, .ok ())) :
    eraseAll checked = eraseAll indices ∧ (∀ index ∈ indices, index.HasType declares .int) ∧
      ∀ node ∈ indicesNodes checked, node.Noted declares := by
  match indices with
  | [] =>
      obtain rfl := checkIndices_nil_eq_ok.mp accepted
      exact ⟨rfl, nofun, nofun⟩
  | index :: rest =>
      obtain ⟨indexChecked, restChecked, indexAccepted, restAccepted, rfl⟩ :=
        checkIndices_cons_eq_ok.mp accepted
      obtain ⟨sameIndex, ⟨type, isInt, indexTyped⟩, indexCarries⟩ :=
        check_sound agrees index tempFree.1 indexAccepted
      obtain rfl : .int = type := congrArg ValueType.basic isInt
      obtain ⟨sameRest, restTyped, restCarry⟩ :=
        checkIndices_sound agrees rest tempFree.2 restAccepted
      refine ⟨?_, List.forall_mem_cons.mpr ⟨indexTyped, restTyped⟩,
        List.forall_mem_append.mpr ⟨indexCarries, restCarry⟩⟩
      rw [eraseAll, eraseAll, sameIndex, sameRest]

end

end Expr

namespace Stmt

variable {scopes : Scopes} {scope : Nat} {stmt : Stmt}

theorem checkAll_complete {body : List Stmt}
    (accepted : ∀ stmt ∈ body, ∃ checked, stmt.check scopes scope = (checked, .ok ())) :
    ∃ checked, checkAll scopes scope body = (checked, .ok ()) := by
  induction body with
  | nil => exact ⟨[], rfl⟩
  | cons first rest ih =>
      obtain ⟨⟨firstChecked, firstAccepted⟩, others⟩ := List.forall_mem_cons.mp accepted
      obtain ⟨restChecked, restAccepted⟩ := ih others
      exact ⟨firstChecked :: restChecked, checkAll_cons_eq_ok.mpr
        ⟨firstChecked, restChecked, firstAccepted, restAccepted, rfl⟩⟩

theorem check_complete (ordered : scopes.Ordered) (typed : stmt.WellTyped scopes scope) :
    ∃ checked, stmt.check scopes scope = (checked, .ok ()) := by
  have agrees := Scopes.typeOf?_eq_some_iff ordered
  induction typed with
  | assign target value accepts =>
      obtain ⟨targetChecked, targetAccepted⟩ := Expr.check_complete (agrees _) target
      obtain ⟨valueChecked, valueAccepted⟩ := Expr.check_complete (agrees _) value
      exact ⟨_, check_assign_eq_ok.mpr ⟨targetChecked, _, valueChecked, _, targetAccepted,
        valueAccepted, accept_scalar.mpr accepts, rfl⟩⟩
  | ifThen condition _ ih =>
      obtain ⟨conditionChecked, conditionAccepted⟩ := Expr.check_complete (agrees _) condition
      obtain ⟨bodyChecked, bodyAccepted⟩ := ih
      exact ⟨_, check_ifThen_eq_ok.mpr
        ⟨conditionChecked, _, bodyChecked, conditionAccepted, bodyAccepted, rfl⟩⟩
  | ifThenElse condition _ _ bodyIH otherwiseIH =>
      obtain ⟨conditionChecked, conditionAccepted⟩ := Expr.check_complete (agrees _) condition
      obtain ⟨bodyChecked, bodyAccepted⟩ := bodyIH
      obtain ⟨otherwiseChecked, otherwiseAccepted⟩ := otherwiseIH
      exact ⟨_, check_ifThenElse_eq_ok.mpr ⟨conditionChecked, _, bodyChecked, otherwiseChecked,
        conditionAccepted, bodyAccepted, otherwiseAccepted, rfl⟩⟩
  | whileDo condition _ ih =>
      obtain ⟨conditionChecked, conditionAccepted⟩ := Expr.check_complete (agrees _) condition
      obtain ⟨bodyChecked, bodyAccepted⟩ := ih
      exact ⟨_, check_whileDo_eq_ok.mpr
        ⟨conditionChecked, _, bodyChecked, conditionAccepted, bodyAccepted, rfl⟩⟩
  | doWhile _ condition ih =>
      obtain ⟨bodyChecked, bodyAccepted⟩ := ih
      obtain ⟨conditionChecked, conditionAccepted⟩ := Expr.check_complete (agrees _) condition
      exact ⟨_, check_doWhile_eq_ok.mpr
        ⟨bodyChecked, conditionChecked, _, bodyAccepted, conditionAccepted, rfl⟩⟩
  | breakLoop => exact ⟨.breakLoop, rfl⟩
  | block _ ih =>
      obtain ⟨bodyChecked, bodyAccepted⟩ := checkAll_complete ih
      exact ⟨_, check_block_eq_ok.mpr ⟨bodyChecked, bodyAccepted, rfl⟩⟩

/-- Every expression in a statement has all its types noted. -/
def Carries (scopes : Scopes) (scope : Nat) (stmt : Stmt) : Prop :=
  stmt.EachExpr (fun scope expr => expr.Carries (scopes.GivesType scope)) scope

mutual

theorem check_sound (ordered : scopes.Ordered) (stmt : Stmt) {scope : Nat} {checked : Stmt}
    (tempFree : stmt.EachExpr (fun _ expr => expr.TempFree) scope)
    (accepted : stmt.check scopes scope = (checked, .ok ())) :
    checked.erase = stmt.erase ∧ stmt.WellTyped scopes scope ∧ checked.Carries scopes scope := by
  have agrees := Scopes.typeOf?_eq_some_iff ordered
  match stmt with
  | .assign target value line =>
      obtain ⟨targetChecked, _, valueChecked, _, targetAccepted, valueAccepted, accepts, rfl⟩ :=
        check_assign_eq_ok.mp accepted
      obtain ⟨sameTarget, ⟨targetType, rfl, targetTyped⟩, targetCarries⟩ :=
        Expr.check_sound (agrees scope) target tempFree.1 targetAccepted
      obtain ⟨sameValue, ⟨valueType, rfl, valueTyped⟩, valueCarries⟩ :=
        Expr.check_sound (agrees scope) value tempFree.2 valueAccepted
      exact ⟨by rw [erase, erase, sameTarget, sameValue],
        .assign targetTyped valueTyped (accept_scalar.mp accepts), targetCarries, valueCarries⟩
  | .ifThen condition body =>
      obtain ⟨conditionChecked, _, bodyChecked, conditionAccepted, bodyAccepted, rfl⟩ :=
        check_ifThen_eq_ok.mp accepted
      obtain ⟨sameCondition, ⟨type, -, typed⟩, conditionCarries⟩ :=
        Expr.check_sound (agrees scope) condition tempFree.1 conditionAccepted
      obtain ⟨sameBody, bodyTyped, bodyCarries⟩ := check_sound ordered body tempFree.2 bodyAccepted
      exact ⟨by rw [erase, erase, sameCondition, sameBody], .ifThen typed bodyTyped,
        conditionCarries, bodyCarries⟩
  | .ifThenElse condition body otherwise =>
      obtain ⟨conditionChecked, _, bodyChecked, otherwiseChecked, conditionAccepted, bodyAccepted,
        otherwiseAccepted, rfl⟩ := check_ifThenElse_eq_ok.mp accepted
      obtain ⟨sameCondition, ⟨type, -, typed⟩, conditionCarries⟩ :=
        Expr.check_sound (agrees scope) condition tempFree.1 conditionAccepted
      obtain ⟨sameBody, bodyTyped, bodyCarries⟩ :=
        check_sound ordered body tempFree.2.1 bodyAccepted
      obtain ⟨sameOtherwise, otherwiseTyped, otherwiseCarries⟩ :=
        check_sound ordered otherwise tempFree.2.2 otherwiseAccepted
      exact ⟨by rw [erase, erase, sameCondition, sameBody, sameOtherwise],
        .ifThenElse typed bodyTyped otherwiseTyped, conditionCarries, bodyCarries,
        otherwiseCarries⟩
  | .whileDo condition body =>
      obtain ⟨conditionChecked, _, bodyChecked, conditionAccepted, bodyAccepted, rfl⟩ :=
        check_whileDo_eq_ok.mp accepted
      obtain ⟨sameCondition, ⟨type, -, typed⟩, conditionCarries⟩ :=
        Expr.check_sound (agrees scope) condition tempFree.1 conditionAccepted
      obtain ⟨sameBody, bodyTyped, bodyCarries⟩ := check_sound ordered body tempFree.2 bodyAccepted
      exact ⟨by rw [erase, erase, sameCondition, sameBody], .whileDo typed bodyTyped,
        conditionCarries, bodyCarries⟩
  | .doWhile body condition =>
      obtain ⟨bodyChecked, conditionChecked, _, bodyAccepted, conditionAccepted, rfl⟩ :=
        check_doWhile_eq_ok.mp accepted
      obtain ⟨sameBody, bodyTyped, bodyCarries⟩ := check_sound ordered body tempFree.1 bodyAccepted
      obtain ⟨sameCondition, ⟨type, -, typed⟩, conditionCarries⟩ :=
        Expr.check_sound (agrees scope) condition tempFree.2 conditionAccepted
      exact ⟨by rw [erase, erase, sameBody, sameCondition], .doWhile bodyTyped typed,
        bodyCarries, conditionCarries⟩
  | .breakLoop =>
      cases accepted
      exact ⟨rfl, .breakLoop, trivial⟩
  | .block inner declarations body =>
      obtain ⟨bodyChecked, bodyAccepted, rfl⟩ := check_block_eq_ok.mp accepted
      obtain ⟨sameBody, bodyTyped, bodyCarries⟩ :=
        checkAll_sound ordered body tempFree bodyAccepted
      exact ⟨by rw [erase, erase, sameBody], .block bodyTyped, bodyCarries⟩

theorem checkAll_sound (ordered : scopes.Ordered) (body : List Stmt) {scope : Nat}
    {checked : List Stmt} (tempFree : EachExprOfAll (fun _ expr => expr.TempFree) scope body)
    (accepted : checkAll scopes scope body = (checked, .ok ())) :
    eraseAll checked = eraseAll body ∧ (∀ stmt ∈ body, stmt.WellTyped scopes scope) ∧
      EachExprOfAll (fun scope expr => expr.Carries (scopes.GivesType scope)) scope checked := by
  match body with
  | [] =>
      obtain rfl := checkAll_nil_eq_ok.mp accepted
      exact ⟨rfl, nofun, trivial⟩
  | first :: rest =>
      obtain ⟨firstChecked, restChecked, firstAccepted, restAccepted, rfl⟩ :=
        checkAll_cons_eq_ok.mp accepted
      obtain ⟨sameFirst, firstTyped, firstCarries⟩ :=
        check_sound ordered first tempFree.1 firstAccepted
      obtain ⟨sameRest, restTyped, restCarries⟩ :=
        checkAll_sound ordered rest tempFree.2 restAccepted
      exact ⟨by rw [eraseAll, eraseAll, sameFirst, sameRest],
        List.forall_mem_cons.mpr ⟨firstTyped, restTyped⟩, firstCarries, restCarries⟩

end

end Stmt

namespace Program

variable {program : Program}

def TempFree (program : Program) : Prop :=
  program.block.stmt.EachExpr (fun _ expr => expr.TempFree) program.block.scope

theorem check_eq_ok {checked : Program} : program.check = (checked, .ok ()) ↔
    ∃ body, Stmt.checkAll program.scopes program.block.scope program.block.body =
        (body, .ok ()) ∧ checked = ⟨⟨program.block.scope, program.block.declarations, body⟩,
          program.scopes⟩ := by
  rw [check]
  rcases Stmt.checkAll program.scopes program.block.scope program.block.body with ⟨body, _ | _⟩ <;>
    simp [eq_comm]

end Program

/-- A program without temporaries is accepted by the check exactly if it is well-typed, whatever
its scopes, as long as they are numbered outside in. The check then gives it back with the type of
each expression noted on it, and otherwise unchanged. -/
theorem check_decides_typing {program : Program} (ordered : program.scopes.Ordered)
    (tempFree : program.TempFree) :
    ((∃ checked, program.check = (checked, .ok ())) ↔ program.WellTyped) ∧
    ∀ checked, program.check = (checked, .ok ()) →
      checked.scopes = program.scopes ∧ checked.block.stmt.erase = program.block.stmt.erase ∧
      checked.block.stmt.Carries program.scopes program.block.scope := by
  refine ⟨⟨?_, ?_⟩, ?_⟩
  · rintro ⟨checked, accepted⟩
    obtain ⟨body, bodyAccepted, -⟩ := Program.check_eq_ok.mp accepted
    obtain ⟨-, typed, -⟩ := Stmt.checkAll_sound ordered _ tempFree bodyAccepted
    exact .block typed
  · intro typed
    obtain ⟨_, accepted⟩ := Stmt.check_complete ordered typed
    obtain ⟨body, bodyAccepted, -⟩ := Stmt.check_block_eq_ok.mp accepted
    exact ⟨_, Program.check_eq_ok.mpr ⟨body, bodyAccepted, rfl⟩⟩
  · intro checked accepted
    obtain ⟨body, bodyAccepted, rfl⟩ := Program.check_eq_ok.mp accepted
    obtain ⟨same, -, carries⟩ := Stmt.checkAll_sound ordered _ tempFree bodyAccepted
    refine ⟨rfl, ?_, carries⟩
    rw [Block.stmt, Block.stmt, Stmt.erase, Stmt.erase, same]

/-- The inner variable is a float, the outer one an integer. -/
def scaledShadow : String :=
  "\x7b int x; float a[2]; \x7b float x; x = -1; a[0] = x * 2; \x7d a[x] = x; \x7d"

theorem scaledShadow_wellTyped : ∃ program checked,
    Program.parse "shadow" scaledShadow = .ok program ∧ program.scopes.Ordered ∧
    program.TempFree ∧ program.check = (checked, .ok ()) ∧ program.WellTyped ∧
    checked.block.stmt.Carries program.scopes program.block.scope := by
  have parsed : ∃ program, Program.parse "shadow" scaledShadow = .ok program ∧
      program.scopes.Ordered ∧ program.TempFree ∧ ∃ checked, program.check = (checked, .ok ()) := by
    refine ⟨_, by cbv, by decide, ?_, _, by cbv⟩
    simp [Program.TempFree, Block.stmt, Stmt.EachExpr, Stmt.EachExprOfAll, Expr.TempFree,
      Expr.AllTempFree]
  obtain ⟨program, read, ordered, tempFree, checked, accepted⟩ := parsed
  obtain ⟨decides, notes⟩ := check_decides_typing ordered tempFree
  obtain ⟨-, -, carries⟩ := notes checked accepted
  exact ⟨program, checked, read, ordered, tempFree, accepted, decides.mp ⟨checked, accepted⟩,
    carries⟩

end ThreeAddress

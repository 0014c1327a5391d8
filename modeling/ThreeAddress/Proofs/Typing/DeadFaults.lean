import ThreeAddress.Proofs.Grammar.Lookups

namespace ThreeAddress

namespace TypeFault

/-- The faults of whole arrays and of names without a declaration. -/
def Dead : TypeFault → Prop
  | .depthMismatch _ _ | .arrayOperands _ | .arrayOperand _ | .undeclared _ => True
  | _ => False

variable {fault : TypeFault}

/-- No other message starts like that of a dead fault, unless with the name of a variable. -/
theorem message_take (live : ¬ fault.Dead) :
    fault.message.toList.take 7 ∉ ["array d".toList, "binary ".toList, "unary o".toList] := by
  cases fault with
  | undeclared | arrayOperands | arrayOperand | depthMismatch => exact (live trivial).elim
  | notAnArray =>
      change ("'" ++ _ ++ _ ++ _ ++ _).toList.take 7 ∉ _
      simp
  | wrongDimensions =>
      change ("cannot access '" ++ _ ++ _ ++ _ ++ _ ++ _ ++ _).toList.take 7 ∉ _
      simp
  | indexNotInt =>
      change ("array index must be an integer, not '" ++ _ ++ _).toList.take 7 ∉ _
      simp
  | logicalOperands =>
      change ("logical operator '" ++ _ ++ _ ++ _).toList.take 7 ∉ _
      simp
  | comparedOperands =>
      change ("comparison operator '" ++ _ ++ _ ++ _).toList.take 7 ∉ _
      simp
  | arithmeticOperands =>
      change ("arithmetic operator '" ++ _ ++ _ ++ _).toList.take 7 ∉ _
      simp
  | negatedTruth =>
      change ("unary '-' operator expects numeric type, not '" ++ _ ++ _).toList.take 7 ∉ _
      simp
  | invertedNumber =>
      change ("'!' operator expects boolean type, not '" ++ _ ++ _).toList.take 7 ∉ _
      simp
  | basicMismatch =>
      change ("type mismatch: cannot assign '" ++ _ ++ _ ++ _ ++ _).toList.take 7 ∉ _
      simp

/-- No other message ends like that of an undeclared name. -/
theorem message_getLast? (live : ¬ fault.Dead) : fault.message.toList.getLast? ≠ some 'd' := by
  cases fault with
  | undeclared | arrayOperands | arrayOperand | depthMismatch => exact (live trivial).elim
  | wrongDimensions =>
      change (_ ++ " dimensional array").toList.getLast? ≠ _
      rw [String.toList_append, List.getLast?_append_of_ne_nil _ (by decide)]
      decide
  | logicalOperands | comparedOperands | arithmeticOperands =>
      change (_ ++ (_ ++ "'")).toList.getLast? ≠ _
      rw [← String.append_assoc, String.toList_append, List.getLast?_append_of_ne_nil _ (by decide)]
      decide
  | notAnArray | indexNotInt | negatedTruth | invertedNumber | basicMismatch =>
      change (_ ++ "'").toList.getLast? ≠ _
      rw [String.toList_append, List.getLast?_append_of_ne_nil _ (by decide)]
      decide

theorem message_ne_depthMismatch (live : ¬ fault.Dead) (rest : String) :
    fault.message ≠ "array dimensions do not match: " ++ rest := by
  intro same
  apply message_take live
  simp [same]

theorem message_ne_arrayOperands (live : ¬ fault.Dead) (op : String) :
    fault.message ≠ "binary operator '" ++ op ++ "' cannot be applied to an array" := by
  intro same
  apply message_take live
  simp [same]

theorem message_ne_arrayOperand (live : ¬ fault.Dead) (op : String) :
    fault.message ≠ "unary operator '" ++ op ++ "' cannot be applied to an array" := by
  intro same
  apply message_take live
  simp [same]

theorem message_ne_undeclared (live : ¬ fault.Dead) (name : String) :
    fault.message ≠ "'" ++ name ++ "' is not declared" := by
  intro same
  apply message_getLast? live
  rw [same, String.toList_append, List.getLast?_append_of_ne_nil _ (by decide)]
  decide

end TypeFault

theorem guarded_live {allowed : Prop} [Decidable allowed] {given : ValueType}
    {fault other : TypeFault} (live : ¬ other.Dead)
    (failed : (if allowed then Except.ok given else .error other) = .error fault) :
    ¬ fault.Dead := by
  split at failed
  · contradiction
  · cases failed
    exact live

section

open ValueType

variable {fault : TypeFault}

theorem BinaryOp.resultType_live {op : BinaryOp} {left right : BasicType}
    (failed : op.resultType (scalar left) (scalar right) = .error fault) : ¬ fault.Dead := by
  rw [resultType, isArray_scalar, isArray_scalar, Bool.or_false, if_neg Bool.false_ne_true]
    at failed
  cases sort : op.sort with
  | logical | comparison | arithmetic =>
      rw [sort] at failed
      exact guarded_live id failed

theorem UnaryOp.resultType_live {op : UnaryOp} {operand : BasicType}
    (failed : op.resultType (scalar operand) = .error fault) : ¬ fault.Dead := by
  cases op with
  | neg | not =>
      rw [resultType, isArray_scalar, if_neg Bool.false_ne_true] at failed
      exact guarded_live id failed

theorem DeclaredType.elementType_live {declared : DeclaredType} {name : String} {given : Nat}
    (failed : declared.elementType name given = .error fault) : ¬ fault.Dead := by
  unfold elementType at failed
  split at failed
  · contradiction
  · split at failed <;> cases failed <;> exact id

theorem ValueType.accept_live {target value : BasicType}
    (failed : (scalar target).accept (scalar value) = .error fault) : ¬ fault.Dead := by
  unfold accept at failed
  split at failed
  · next deeper => exact (deeper rfl).elim
  · split at failed
    · contradiction
    · split at failed <;> cases failed
      exact id

end

/-- The error is a fault that a program can have. -/
def CheckError.Live : CheckError → Prop
  | .broken fault _ => ¬ fault.Dead
  | .internal _ => False

namespace Expr

/-- An expression as it is read: it has no temporaries, and its names are declared. -/
structure Known (typeOf? : String → Option DeclaredType) (expr : Expr) : Prop where
  tempFree : expr.TempFree
  declared : ∀ name ∈ expr.names, ∃ declared, typeOf? name = some declared

variable {typeOf? : String → Option DeclaredType}

mutual

theorem TempFree.nodes (expr : Expr) (tempFree : expr.TempFree) :
    ∀ node ∈ expr.nodes, node.TempFree := by
  match expr with
  | .binary _ _ left right =>
      exact List.forall_mem_cons.mpr ⟨tempFree, List.forall_mem_append.mpr
        ⟨TempFree.nodes left tempFree.1, TempFree.nodes right tempFree.2⟩⟩
  | .unary _ _ operand | .paren _ operand =>
      exact List.forall_mem_cons.mpr ⟨tempFree, TempFree.nodes operand tempFree⟩
  | .loc _ _ indices =>
      exact List.forall_mem_cons.mpr ⟨tempFree, AllTempFree.nodes indices tempFree⟩
  | .int _ _ | .real _ _ | .bool _ _ => exact List.forall_mem_singleton.mpr tempFree
  | .temp _ _ => exact tempFree.elim

theorem AllTempFree.nodes (indices : List Expr) (tempFree : AllTempFree indices) :
    ∀ node ∈ indicesNodes indices, node.TempFree := by
  match indices with
  | [] => exact nofun
  | index :: rest =>
      exact List.forall_mem_append.mpr
        ⟨TempFree.nodes index tempFree.1, AllTempFree.nodes rest tempFree.2⟩

end

theorem check_scalar {expr checked : Expr} {type : ValueType} (tempFree : expr.TempFree)
    (accepted : expr.check typeOf? = (checked, .ok type)) : ∃ basic, type = .scalar basic := by
  have agrees : ∀ name declared, typeOf? name = some declared ↔ typeOf? name = some declared :=
    fun _ _ => Iff.rfl
  obtain ⟨-, ⟨basic, scalar, -⟩, -⟩ := check_sound agrees expr tempFree accepted
  exact ⟨basic, scalar⟩

theorem conclude_live {expr checked : Expr} {rule : Except TypeFault ValueType}
    {error : CheckError} (live : ∀ fault, rule = .error fault → ¬ fault.Dead) :
    conclude expr rule = (checked, .error error) → error.Live := by
  cases rule with
  | ok type => rintro ⟨⟩
  | error fault =>
      rintro ⟨⟩
      exact live fault rfl

mutual

/-- The rules are only asked about scalar operands and declared names. -/
theorem check_live (expr : Expr) {checked : Expr} {error : CheckError}
    (known : expr.Known typeOf?) : expr.check typeOf? = (checked, .error error) → error.Live := by
  obtain ⟨tempFree, declared⟩ := known
  match expr with
  | .binary note op left right =>
      rw [names_binary, List.forall_mem_append] at declared
      rw [check]
      rcases leftResult : left.check typeOf? with ⟨_, leftError | leftType⟩
      · rintro ⟨⟩
        exact check_live left ⟨tempFree.1, declared.1⟩ leftResult
      rcases rightResult : right.check typeOf? with ⟨_, rightError | rightType⟩
      · rintro ⟨⟩
        exact check_live right ⟨tempFree.2, declared.2⟩ rightResult
      obtain ⟨leftBasic, rfl⟩ := check_scalar tempFree.1 leftResult
      obtain ⟨rightBasic, rfl⟩ := check_scalar tempFree.2 rightResult
      exact conclude_live fun _ => BinaryOp.resultType_live
  | .unary note op operand =>
      rw [names_unary] at declared
      rw [check]
      rcases operandResult : operand.check typeOf? with ⟨_, operandError | type⟩
      · rintro ⟨⟩
        exact check_live operand ⟨tempFree, declared⟩ operandResult
      have operandFree : operand.TempFree := tempFree
      obtain ⟨basic, rfl⟩ := check_scalar operandFree operandResult
      exact conclude_live fun _ => UnaryOp.resultType_live
  | .paren note inner =>
      rw [names_paren] at declared
      rw [check]
      rcases innerResult : inner.check typeOf? with ⟨_, innerError | type⟩
      · rintro ⟨⟩
        exact check_live inner ⟨tempFree, declared⟩ innerResult
      · exact conclude_live nofun
  | .loc note id indices =>
      rw [names_loc, List.forall_mem_cons] at declared
      obtain ⟨⟨found, lookup⟩, inside⟩ := declared
      rw [check, lookup]
      dsimp only
      rcases element : found.elementType id.name indices.length with fault | type
      · rintro ⟨⟩
        exact DeclaredType.elementType_live element
      rcases indicesResult : checkIndices typeOf? indices with ⟨_, indicesError | done⟩
      · rintro ⟨⟩
        exact checkIndices_live indices tempFree inside indicesResult
      · exact conclude_live nofun
  | .int _ _ | .real _ _ | .bool _ _ =>
      rw [check]
      exact conclude_live nofun
  | .temp _ _ => exact tempFree.elim

theorem checkIndices_live (indices : List Expr) {checked : List Expr} {error : CheckError}
    (tempFree : AllTempFree indices)
    (declared : ∀ name ∈ allNames indices, ∃ declared, typeOf? name = some declared) :
    checkIndices typeOf? indices = (checked, .error error) → error.Live := by
  match indices with
  | [] => rintro ⟨⟩
  | index :: rest =>
      rw [allNames_cons, List.forall_mem_append] at declared
      rw [checkIndices]
      rcases indexResult : index.check typeOf? with ⟨_, indexError | type⟩
      · rintro ⟨⟩
        exact check_live index ⟨tempFree.1, declared.1⟩ indexResult
      dsimp only
      split
      · rcases restResult : checkIndices typeOf? rest with ⟨_, restError | done⟩
        · rintro ⟨⟩
          exact checkIndices_live rest tempFree.2 declared.2 restResult
        · rintro ⟨⟩
      · rintro ⟨⟩
        exact id

end

end Expr

namespace Stmt

variable {scopes : Scopes}

theorem checkAssign_live {typeOf? : String → Option DeclaredType} {target value : Expr}
    {line : Nat} {checked : Stmt} {error : CheckError} (targetKnown : target.Known typeOf?)
    (valueKnown : value.Known typeOf?) :
    checkAssign typeOf? target value line = (checked, .error error) → error.Live := by
  rw [checkAssign]
  rcases targetResult : target.check typeOf? with ⟨_, targetError | targetType⟩
  · rintro ⟨⟩
    exact Expr.check_live target targetKnown targetResult
  rcases valueResult : value.check typeOf? with ⟨_, valueError | valueType⟩
  · rintro ⟨⟩
    exact Expr.check_live value valueKnown valueResult
  obtain ⟨targetBasic, rfl⟩ := Expr.check_scalar targetKnown.tempFree targetResult
  obtain ⟨valueBasic, rfl⟩ := Expr.check_scalar valueKnown.tempFree valueResult
  dsimp only
  rcases accepted : (ValueType.scalar targetBasic).accept (.scalar valueBasic) with fault | done
  · rintro ⟨⟩
    exact ValueType.accept_live accepted
  · rintro ⟨⟩

mutual

theorem check_live (stmt : Stmt) {scope : Nat} {checked : Stmt} {error : CheckError}
    (known : stmt.EachExpr (fun home expr => expr.Known (scopes.typeOf? home)) scope) :
    stmt.check scopes scope = (checked, .error error) → error.Live := by
  match stmt with
  | .assign target value line =>
      rw [check]
      exact checkAssign_live known.1 known.2
  | .ifThen condition body | .whileDo condition body =>
      rw [check]
      rcases conditionResult : condition.check (scopes.typeOf? scope) with ⟨_, error | type⟩
      · rintro ⟨⟩
        exact Expr.check_live condition known.1 conditionResult
      rcases bodyResult : body.check scopes scope with ⟨_, error | done⟩
      · rintro ⟨⟩
        exact check_live body known.2 bodyResult
      · rintro ⟨⟩
  | .ifThenElse condition body otherwise =>
      rw [check]
      rcases conditionResult : condition.check (scopes.typeOf? scope) with ⟨_, error | type⟩
      · rintro ⟨⟩
        exact Expr.check_live condition known.1 conditionResult
      rcases bodyResult : body.check scopes scope with ⟨_, error | done⟩
      · rintro ⟨⟩
        exact check_live body known.2.1 bodyResult
      rcases otherwiseResult : otherwise.check scopes scope with ⟨_, error | done⟩
      · rintro ⟨⟩
        exact check_live otherwise known.2.2 otherwiseResult
      · rintro ⟨⟩
  | .doWhile body condition =>
      rw [check]
      rcases bodyResult : body.check scopes scope with ⟨_, error | done⟩
      · rintro ⟨⟩
        exact check_live body known.1 bodyResult
      rcases conditionResult : condition.check (scopes.typeOf? scope) with ⟨_, error | type⟩
      · rintro ⟨⟩
        exact Expr.check_live condition known.2 conditionResult
      · rintro ⟨⟩
  | .breakLoop => rintro ⟨⟩
  | .block inner declarations body =>
      rw [check]
      rcases bodyResult : checkAll scopes inner body with ⟨_, error | done⟩
      · rintro ⟨⟩
        exact checkAll_live body known bodyResult
      · rintro ⟨⟩

theorem checkAll_live (body : List Stmt) {scope : Nat} {checked : List Stmt} {error : CheckError}
    (known : EachExprOfAll (fun home expr => expr.Known (scopes.typeOf? home)) scope body) :
    checkAll scopes scope body = (checked, .error error) → error.Live := by
  match body with
  | [] => rintro ⟨⟩
  | first :: rest =>
      rw [checkAll]
      rcases firstResult : first.check scopes scope with ⟨_, error | done⟩
      · rintro ⟨⟩
        exact check_live first known.1 firstResult
      rcases restResult : checkAll scopes scope rest with ⟨_, error | done⟩
      · rintro ⟨⟩
        exact checkAll_live rest known.2 restResult
      · rintro ⟨⟩

end

end Stmt

namespace Program

open Grammar

variable {filename source : String} {program : Program}

/-- Each name in a program was declared when it was read, and it stays so. -/
theorem parse_known (parsed : parse filename source = .ok program) :
    program.block.stmt.EachExpr (fun home expr => expr.Known (program.scopes.typeOf? home))
      program.block.scope := by
  have read := parse_eq_ok_iff.mp parsed
  obtain ⟨fromSource, -⟩ := program_fromSource read
  obtain ⟨opening, middle, ending, others, whole, opens, found, -⟩ := program_eq_ok.mp read
  have ordered := (block_sound opens .start .start middle found).ordered
  have tempFree : program.block.stmt.EachExpr (fun _ expr => expr.TempFree) program.block.scope :=
    Stmt.AllFromSource.tempFree _ fromSource
  have met : program.block.stmt.EachExpr (Met (.block false none {} middle)) program.block.scope :=
    block_met middle found
  refine Stmt.EachExpr.imp _ (fun home expr both => ?_) (Stmt.EachExpr.and _ tempFree met)
  obtain ⟨free, seen, meets⟩ := both
  refine ⟨free, fun name member => ?_⟩
  have stays := meets.stays ⟨[], .start, .start⟩ ⟨_, _, found⟩
  obtain ⟨declaration, -, found⟩ := stays.lookup ordered member
  exact ⟨declaration.type, by rw [Scopes.typeOf?, found, Option.map_some]⟩

end Program

/-- In a program that has been read, every type that a check answers for a node of an expression
has no dimensions left. So a check that fails says nothing of whole arrays or undeclared names. -/
theorem read_program_has_no_dead_fault {filename source : String} {program : Program}
    (parsed : Program.parse filename source = .ok program) :
    program.block.stmt.EachExpr (fun home expr => ∀ node ∈ expr.nodes, ∀ checked type,
        node.check (program.scopes.typeOf? home) = (checked, .ok type) → type.depth = 0)
      program.block.scope ∧
    ∀ checked error, program.check = (checked, .error error) →
      ∃ fault line, error = .broken fault line ∧ ¬ fault.Dead ∧
        (∀ rest, fault.message ≠ "array dimensions do not match: " ++ rest) ∧
        (∀ op, fault.message ≠ "binary operator '" ++ op ++ "' cannot be applied to an array") ∧
        (∀ op, fault.message ≠ "unary operator '" ++ op ++ "' cannot be applied to an array") ∧
        ∀ name, fault.message ≠ "'" ++ name ++ "' is not declared" := by
  have known := Program.parse_known parsed
  constructor
  · refine Stmt.EachExpr.imp _ (fun home expr known node member checked type accepted => ?_) known
    have tempFree := Expr.TempFree.nodes expr known.tempFree node member
    obtain ⟨basic, rfl⟩ := Expr.check_scalar tempFree accepted
    rfl
  · intro checked error failed
    rw [Program.check] at failed
    obtain ⟨-, bodyFailed⟩ := Prod.mk.inj failed
    have live := Stmt.checkAll_live program.block.body known (Prod.ext rfl bodyFailed)
    cases error with
    | internal fault => exact live.elim
    | broken fault line =>
        exact ⟨fault, line, rfl, live, TypeFault.message_ne_depthMismatch live,
          TypeFault.message_ne_arrayOperands live, TypeFault.message_ne_arrayOperand live,
          TypeFault.message_ne_undeclared live⟩

/-- An array is indexed, with the outer `x` and then with the inner one. -/
def indexedByTruth : String :=
  "\x7b int x; int a[2]; a[x] = 1; \x7b bool x; a[0] = 2;\n a[x] = 3; \x7d \x7d"

theorem indexedByTruth_has_no_dead_fault : ∃ program checked,
    Program.parse "truth" indexedByTruth = .ok program ∧
    program.check = (checked, .error (.broken (.indexNotInt .bool) 2)) ∧
    program.block.stmt.EachExpr (fun home expr => ∀ node ∈ expr.nodes, ∀ checked type,
        node.check (program.scopes.typeOf? home) = (checked, .ok type) → type.depth = 0)
      program.block.scope ∧
    ∀ name, (TypeFault.indexNotInt .bool).message ≠ "'" ++ name ++ "' is not declared" := by
  have failed : ∃ program, Program.parse "truth" indexedByTruth = .ok program ∧
      ∃ checked, program.check = (checked, .error (.broken (.indexNotInt .bool) 2)) :=
    ⟨_, by cbv, _, by cbv⟩
  obtain ⟨program, parsed, checked, failed⟩ := failed
  obtain ⟨scalar, faults⟩ := read_program_has_no_dead_fault parsed
  obtain ⟨fault, line, same, -, -, -, -, declared⟩ := faults checked _ failed
  cases same
  exact ⟨program, checked, parsed, failed, scalar, declared⟩

end ThreeAddress

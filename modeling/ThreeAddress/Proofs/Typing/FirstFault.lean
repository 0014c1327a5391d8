import ThreeAddress.Proofs.Typing.Traversal

namespace ThreeAddress

/-- The way is cut short at a stop whose rule is broken, for this line. All stops before it have
been passed, and nothing is noted there or later. -/
inductive CutShort (scopes : Scopes) (line : Nat) : List Visit → Prop
  | stopped {passed failing ahead} : (∀ visit ∈ passed, visit.Passed scopes) →
      ¬ failing.Obeys scopes → failing.line = line →
      (∀ visit ∈ failing :: ahead, visit.Unnoted) →
      CutShort scopes line (passed ++ failing :: ahead)

namespace CutShort

variable {scopes : Scopes} {line : Nat} {visits front more : List Visit} {failing : Visit}

theorem here (broken : ¬ failing.Obeys scopes) (atLine : failing.line = line)
    (unnoted : failing.Unnoted) (untouched : ∀ visit ∈ more, visit.Unnoted) :
    CutShort scopes line (failing :: more) :=
  .stopped (List.forall_mem_nil _) broken atLine (List.forall_mem_cons.mpr ⟨unnoted, untouched⟩)

theorem behind (passed : ∀ visit ∈ front, visit.Passed scopes)
    (cut : CutShort scopes line visits) : CutShort scopes line (front ++ visits) := by
  cases cut with
  | stopped before broken atLine unnoted =>
      rw [← List.append_assoc]
      exact .stopped (List.forall_mem_append.mpr ⟨passed, before⟩) broken atLine unnoted

theorem before (cut : CutShort scopes line visits) (untouched : ∀ visit ∈ more, visit.Unnoted) :
    CutShort scopes line (visits ++ more) := by
  cases cut with
  | stopped before broken atLine unnoted =>
      rw [List.append_assoc, List.cons_append]
      refine .stopped before broken atLine ?_
      rw [← List.cons_append]
      exact List.forall_mem_append.mpr ⟨unnoted, untouched⟩

end CutShort

namespace Expr

variable {scopes : Scopes} {scope line : Nat} {fault : TypeFault} {expr checked : Expr}

/-- No node has a type noted. -/
def Untyped (expr : Expr) : Prop :=
  ∀ node ∈ expr.nodes, node.type = none

theorem Untyped.visits (untyped : expr.Untyped) : ∀ visit ∈ expr.visits scope, visit.Unnoted :=
  (eachNode_visits expr).mpr untyped

theorem check_refused (ordered : scopes.Ordered) {error : CheckError} {type : BasicType}
    (failed : expr.check (scopes.typeOf? scope) = (checked, .error error)) :
    ¬ checked.HasType (scopes.GivesType scope) type := by
  intro typed
  have same : expr.erase = checked.erase := (check_erase expr failed).symm
  obtain ⟨_, accepted⟩ :=
    check_complete (Scopes.typeOf?_eq_some_iff ordered scope) (typed.of_erase_eq same)
  rw [failed] at accepted
  cases accepted

theorem conclude_eq_broken {rule : Except TypeFault ValueType} :
    conclude expr rule = (checked, .error (.broken fault line)) ↔
    rule = .error fault ∧ checked = expr ∧ line = expr.line := by
  cases rule with
  | ok type => simp [conclude]
  | error found => simp [conclude, eq_comm, and_left_comm]

/-- What is below the node is finished, and the rule for the node itself is broken. -/
theorem finish_cutShort (ordered : scopes.Ordered) {front : List Visit} {error : CheckError}
    (failed : expr.check (scopes.typeOf? scope) = (checked, .error error))
    (unnoted : checked.type = none) (passed : ∀ visit ∈ front, visit.Passed scopes) :
    CutShort scopes checked.line (front ++ [⟨scope, .finish checked⟩]) := by
  refine .behind passed (.here ?_ rfl (Visit.eachNode_node.mpr unnoted) nofun)
  rintro ⟨type, typed⟩
  exact check_refused ordered failed typed

theorem finish_unnoted (scope : Nat) (unnoted : expr.type = none) :
    ∀ visit ∈ [(⟨scope, .finish expr⟩ : Visit)], visit.Unnoted :=
  List.forall_mem_singleton.mpr (Visit.eachNode_node.mpr unnoted)

theorem lookup_obeys_iff (ordered : scopes.Ordered) {note : Note} {id : Ident} {given : Nat} :
    Visit.Obeys scopes ⟨scope, .lookup note id given⟩ ↔
    ∃ declared, scopes.typeOf? scope id.name = some declared ∧ given = declared.depth := by
  simp only [Scopes.typeOf?_eq_some_iff ordered]
  exact Iff.rfl

theorem checkIndices_length {typeOf? : String → Option DeclaredType} {indices checked : List Expr}
    {result : Except CheckError Unit} (outcome : checkIndices typeOf? indices = (checked, result)) :
    checked.length = indices.length := by
  have same := checkIndices_erase indices outcome
  rw [eraseAll_eq_map, eraseAll_eq_map] at same
  simpa only [List.length_map] using congrArg List.length same

mutual

/-- A check that fails is cut short at the first stop whose rule is broken. -/
theorem check_cutShort (ordered : scopes.Ordered) (expr : Expr) {checked : Expr}
    (tempFree : expr.TempFree) (untyped : expr.Untyped)
    (failed : expr.check (scopes.typeOf? scope) = (checked, .error (.broken fault line))) :
    CutShort scopes line (checked.visits scope) := by
  have whole := failed
  match expr with
  | .binary note op left right =>
      obtain ⟨unnoted, operands⟩ := List.forall_mem_cons.mp untyped
      obtain ⟨leftUntyped, rightUntyped⟩ := List.forall_mem_append.mp operands
      rw [check] at failed
      rcases leftResult : left.check (scopes.typeOf? scope) with ⟨leftChecked, error | leftType⟩
      · rw [leftResult] at failed
        cases failed
        have cut := check_cutShort ordered left tempFree.1 leftUntyped leftResult
        exact (cut.before (Untyped.visits rightUntyped)).before (finish_unnoted scope unnoted)
      have leftPassed := check_passed ordered tempFree.1 leftResult
      rcases rightResult : right.check (scopes.typeOf? scope) with
        ⟨rightChecked, error | rightType⟩
      · rw [leftResult, rightResult] at failed
        cases failed
        have cut := check_cutShort ordered right tempFree.2 rightUntyped rightResult
        exact (cut.behind leftPassed).before (finish_unnoted scope unnoted)
      · rw [leftResult, rightResult] at failed
        obtain ⟨-, rfl, rfl⟩ := conclude_eq_broken.mp failed
        exact finish_cutShort ordered whole unnoted
          (List.forall_mem_append.mpr ⟨leftPassed, check_passed ordered tempFree.2 rightResult⟩)
  | .unary note op operand =>
      have operandFree : operand.TempFree := tempFree
      obtain ⟨unnoted, operandUntyped⟩ := List.forall_mem_cons.mp untyped
      rw [check] at failed
      rcases operandResult : operand.check (scopes.typeOf? scope) with
        ⟨operandChecked, error | type⟩
      · rw [operandResult] at failed
        cases failed
        have cut := check_cutShort ordered operand operandFree operandUntyped operandResult
        exact cut.before (finish_unnoted scope unnoted)
      · rw [operandResult] at failed
        obtain ⟨-, rfl, rfl⟩ := conclude_eq_broken.mp failed
        exact finish_cutShort ordered whole unnoted
          (check_passed ordered operandFree operandResult)
  | .paren note inner =>
      obtain ⟨unnoted, innerUntyped⟩ := List.forall_mem_cons.mp untyped
      rw [check] at failed
      rcases innerResult : inner.check (scopes.typeOf? scope) with ⟨innerChecked, error | type⟩
      · rw [innerResult] at failed
        cases failed
        have cut := check_cutShort ordered inner tempFree innerUntyped innerResult
        exact cut.before (finish_unnoted scope unnoted)
      · rw [innerResult] at failed
        cases failed
  | .loc note id indices =>
      obtain ⟨unnoted, indicesUntyped⟩ := List.forall_mem_cons.mp untyped
      have indicesUnnoted : ∀ visit ∈ indicesVisits scope indices, visit.Unnoted :=
        (eachNode_indicesVisits indices).mpr indicesUntyped
      -- The name and the number of indices are tested before any index is looked at.
      have ahead := List.forall_mem_append.mpr
        ⟨indicesUnnoted, finish_unnoted scope unnoted⟩
      rw [check] at failed
      cases named : scopes.typeOf? scope id.name with
      | none =>
          rw [named] at failed
          cases failed
          refine .here ?_ rfl nofun ahead
          simp [lookup_obeys_iff ordered, named]
      | some declared =>
          have obeys (given : Nat) :
              Visit.Obeys scopes ⟨scope, .lookup note id given⟩ ↔ given = declared.depth := by
            simp [lookup_obeys_iff ordered, named]
          rw [named] at failed
          dsimp only at failed
          cases element : declared.elementType id.name indices.length with
          | error found =>
              rw [element] at failed
              cases failed
              refine .here ?_ rfl nofun ahead
              intro lookedUp
              rw [elementType_eq_ok.mpr ⟨(obeys _).mp lookedUp, rfl⟩] at element
              cases element
          | ok type =>
              have full := (elementType_eq_ok.mp element).1
              rcases indicesResult : checkIndices (scopes.typeOf? scope) indices with
                ⟨indicesChecked, error | done⟩
              · rw [element, indicesResult] at failed
                cases failed
                have sameLength := checkIndices_length indicesResult
                have passed := List.forall_mem_singleton.mpr
                  (⟨(obeys _).mpr (sameLength.trans full), nofun⟩ : Visit.Passed scopes
                    ⟨scope, .lookup note id indicesChecked.length⟩)
                have cut :=
                  checkIndices_cutShort ordered indices tempFree indicesUntyped indicesResult
                exact (cut.behind passed).before (finish_unnoted scope unnoted)
              · rw [element, indicesResult] at failed
                cases failed
  | .int note value | .real note value | .bool note value => cases failed
  | .temp note number => exact tempFree.elim

theorem checkIndices_cutShort (ordered : scopes.Ordered) (indices : List Expr)
    {checked : List Expr} (tempFree : AllTempFree indices)
    (untyped : ∀ node ∈ indicesNodes indices, node.type = none)
    (failed : checkIndices (scopes.typeOf? scope) indices =
      (checked, .error (.broken fault line))) :
    CutShort scopes line (indicesVisits scope checked) := by
  have agrees := Scopes.typeOf?_eq_some_iff ordered scope
  match indices with
  | [] => cases failed
  | index :: rest =>
      obtain ⟨indexUntyped, restUntyped⟩ := List.forall_mem_append.mp untyped
      have restUnnoted : ∀ visit ∈ indicesVisits scope rest, visit.Unnoted :=
        (eachNode_indicesVisits rest).mpr restUntyped
      rw [checkIndices] at failed
      rcases indexResult : index.check (scopes.typeOf? scope) with ⟨indexChecked, error | type⟩
      · rw [indexResult] at failed
        cases failed
        have cut := check_cutShort ordered index tempFree.1 indexUntyped indexResult
        exact cut.before (List.forall_mem_cons.mpr ⟨nofun, restUnnoted⟩)
      have indexPassed := check_passed ordered tempFree.1 indexResult
      obtain ⟨same, ⟨basic, rfl, typed⟩, -⟩ := check_sound agrees index tempFree.1 indexResult
      have kept := typed.of_erase_eq same
      rw [indexResult] at failed
      by_cases isInt : (ValueType.scalar basic).is .int = true
      · obtain rfl := ValueType.is_scalar.mp isInt
        rcases restResult : checkIndices (scopes.typeOf? scope) rest with ⟨restChecked, result⟩
        rw [restResult] at failed
        cases failed
        have cut := checkIndices_cutShort ordered rest tempFree.2 restUntyped restResult
        have subscripted : ∀ visit ∈ [(⟨scope, .subscript indexChecked⟩ : Visit)],
            visit.Passed scopes :=
          List.forall_mem_singleton.mpr ⟨kept, nofun⟩
        exact (cut.behind subscripted).behind indexPassed
      · simp only [if_neg isInt] at failed
        cases failed
        refine .behind indexPassed (.here ?_ rfl nofun restUnnoted)
        intro integer
        exact isInt (ValueType.is_scalar.mpr (kept.unique agrees integer))

end

end Expr

namespace Stmt

variable {scopes : Scopes} {line : Nat} {fault : TypeFault}

mutual

theorem check_cutShort (ordered : scopes.Ordered) (stmt : Stmt) {scope : Nat} {checked : Stmt}
    (tempFree : stmt.EachExpr (fun _ expr => expr.TempFree) scope)
    (untyped : stmt.EachExpr (fun _ expr => expr.Untyped) scope)
    (failed : stmt.check scopes scope = (checked, .error (.broken fault line))) :
    CutShort scopes line (checked.visits scope) := by
  match stmt with
  | .assign target value storeLine =>
      have agrees := Scopes.typeOf?_eq_some_iff ordered scope
      have storeUnnoted {target value : Expr} :
          ∀ visit ∈ [(⟨scope, .store target value storeLine⟩ : Visit)], visit.Unnoted :=
        List.forall_mem_singleton.mpr nofun
      rw [check, checkAssign] at failed
      rcases targetResult : target.check (scopes.typeOf? scope) with
        ⟨targetChecked, error | targetType⟩
      · rw [targetResult] at failed
        cases failed
        have cut := Expr.check_cutShort ordered target tempFree.1 untyped.1 targetResult
        exact (cut.before untyped.2.visits).before storeUnnoted
      have targetPassed := Expr.check_passed ordered tempFree.1 targetResult
      rcases valueResult : value.check (scopes.typeOf? scope) with
        ⟨valueChecked, error | valueType⟩
      · rw [targetResult, valueResult] at failed
        cases failed
        have cut := Expr.check_cutShort ordered value tempFree.2 untyped.2 valueResult
        exact (cut.behind targetPassed).before storeUnnoted
      have valuePassed := Expr.check_passed ordered tempFree.2 valueResult
      obtain ⟨sameTarget, ⟨targetBasic, rfl, targetTyped⟩, -⟩ :=
        Expr.check_sound agrees target tempFree.1 targetResult
      obtain ⟨sameValue, ⟨valueBasic, rfl, valueTyped⟩, -⟩ :=
        Expr.check_sound agrees value tempFree.2 valueResult
      rw [targetResult, valueResult] at failed
      dsimp only at failed
      cases accepts : (ValueType.scalar targetBasic).accept (.scalar valueBasic) with
      | ok done =>
          rw [accepts] at failed
          cases failed
      | error found =>
          rw [accepts] at failed
          cases failed
          refine .behind (List.forall_mem_append.mpr ⟨targetPassed, valuePassed⟩)
            (.here ?_ rfl nofun nofun)
          -- Other types of the two sides could go together, but they have no others.
          rintro ⟨_, _, target, value, stores⟩
          obtain rfl := (targetTyped.of_erase_eq sameTarget).unique agrees target
          obtain rfl := (valueTyped.of_erase_eq sameValue).unique agrees value
          rw [ValueType.accept_scalar.mpr stores] at accepts
          cases accepts
  | .ifThen condition body | .whileDo condition body =>
      rw [check] at failed
      rcases conditionResult : condition.check (scopes.typeOf? scope) with
        ⟨conditionChecked, error | type⟩
      · rw [conditionResult] at failed
        cases failed
        have cut := Expr.check_cutShort ordered condition tempFree.1 untyped.1 conditionResult
        exact cut.before ((eachNode_visits _).mpr untyped.2)
      · rcases bodyResult : body.check scopes scope with ⟨bodyChecked, result⟩
        rw [conditionResult, bodyResult] at failed
        cases failed
        have cut := check_cutShort ordered body tempFree.2 untyped.2 bodyResult
        exact cut.behind (Expr.check_passed ordered tempFree.1 conditionResult)
  | .ifThenElse condition body otherwise =>
      rw [check] at failed
      rcases conditionResult : condition.check (scopes.typeOf? scope) with
        ⟨conditionChecked, error | type⟩
      · rw [conditionResult] at failed
        cases failed
        have cut := Expr.check_cutShort ordered condition tempFree.1 untyped.1 conditionResult
        exact (cut.before ((eachNode_visits _).mpr untyped.2.1)).before
          ((eachNode_visits _).mpr untyped.2.2)
      have conditionPassed := Expr.check_passed ordered tempFree.1 conditionResult
      rcases bodyResult : body.check scopes scope with ⟨bodyChecked, error | done⟩
      · rw [conditionResult, bodyResult] at failed
        cases failed
        have cut := check_cutShort ordered body tempFree.2.1 untyped.2.1 bodyResult
        exact (cut.behind conditionPassed).before ((eachNode_visits _).mpr untyped.2.2)
      · rcases otherwiseResult : otherwise.check scopes scope with ⟨otherwiseChecked, result⟩
        rw [conditionResult, bodyResult, otherwiseResult] at failed
        cases failed
        have cut := check_cutShort ordered otherwise tempFree.2.2 untyped.2.2 otherwiseResult
        exact cut.behind (List.forall_mem_append.mpr
          ⟨conditionPassed, check_passed ordered tempFree.2.1 bodyResult⟩)
  | .doWhile body condition =>
      rw [check] at failed
      rcases bodyResult : body.check scopes scope with ⟨bodyChecked, error | done⟩
      · rw [bodyResult] at failed
        cases failed
        have cut := check_cutShort ordered body tempFree.1 untyped.1 bodyResult
        exact cut.before untyped.2.visits
      · rcases conditionResult : condition.check (scopes.typeOf? scope) with
          ⟨conditionChecked, error | type⟩
        · rw [bodyResult, conditionResult] at failed
          cases failed
          have cut := Expr.check_cutShort ordered condition tempFree.2 untyped.2 conditionResult
          exact cut.behind (check_passed ordered tempFree.1 bodyResult)
        · rw [bodyResult, conditionResult] at failed
          cases failed
  | .breakLoop => cases failed
  | .block inner declarations body =>
      rw [check] at failed
      rcases bodyResult : checkAll scopes inner body with ⟨bodyChecked, result⟩
      rw [bodyResult] at failed
      cases failed
      exact checkAll_cutShort ordered body tempFree untyped bodyResult

theorem checkAll_cutShort (ordered : scopes.Ordered) (body : List Stmt) {scope : Nat}
    {checked : List Stmt} (tempFree : EachExprOfAll (fun _ expr => expr.TempFree) scope body)
    (untyped : EachExprOfAll (fun _ expr => expr.Untyped) scope body)
    (failed : checkAll scopes scope body = (checked, .error (.broken fault line))) :
    CutShort scopes line (allVisits scope checked) := by
  match body with
  | [] => cases failed
  | first :: rest =>
      rw [checkAll] at failed
      rcases firstResult : first.check scopes scope with ⟨firstChecked, error | done⟩
      · rw [firstResult] at failed
        cases failed
        have cut := check_cutShort ordered first tempFree.1 untyped.1 firstResult
        exact cut.before ((eachNode_allVisits rest).mpr untyped.2)
      · rcases restResult : checkAll scopes scope rest with ⟨restChecked, result⟩
        rw [firstResult, restResult] at failed
        cases failed
        have cut := checkAll_cutShort ordered rest tempFree.2 untyped.2 restResult
        exact cut.behind (check_passed ordered tempFree.1 firstResult)

end

end Stmt

namespace Program

variable {program checked : Program}

/-- No node of any expression has a type noted. -/
def Untyped (program : Program) : Prop :=
  program.block.stmt.EachExpr (fun _ expr => expr.Untyped) program.block.scope

theorem visits_erase (program : Program) :
    program.erase.visits = program.visits.map Visit.erase :=
  Stmt.allVisits_erase program.block.body

theorem check_cutShort (ordered : program.scopes.Ordered) (tempFree : program.TempFree)
    (untyped : program.Untyped) {fault : TypeFault} {line : Nat}
    (failed : program.check = (checked, .error (.broken fault line))) :
    CutShort program.scopes line checked.visits := by
  rw [check] at failed
  rcases bodyResult : Stmt.checkAll program.scopes program.block.scope program.block.body with
    ⟨body, result⟩
  rw [bodyResult] at failed
  cases failed
  exact Stmt.checkAll_cutShort ordered _ tempFree untyped bodyResult

end Program

/-- A check that fails has stopped at the first rule that is broken on its way through the program,
and reports the line of that stop. The nodes at the stops before it have got the one type that the
rules give them, and no other node has a type. -/
theorem failed_check_cut_short {program checked : Program} {fault : TypeFault} {line : Nat}
    (ordered : program.scopes.Ordered) (tempFree : program.TempFree) (untyped : program.Untyped)
    (failed : program.check = (checked, .error (.broken fault line))) :
    checked.erase = program.erase ∧
    ∃ passed failing ahead, program.visits = passed ++ failing :: ahead ∧
      (∀ visit ∈ passed, visit.Obeys program.scopes) ∧
      ¬ failing.Obeys program.scopes ∧ failing.line = line ∧
      ∃ finished unfinished, checked.visits = finished ++ unfinished ∧
        finished.map Visit.erase = passed.map Visit.erase ∧
        (∀ visit ∈ finished, visit.Noted program.scopes) ∧
        ∀ visit ∈ unfinished, visit.Unnoted := by
  have same : checked.erase = program.erase := by
    rw [← program.check_erase, failed]
  have sameVisits : program.visits.map Visit.erase = checked.visits.map Visit.erase := by
    rw [← Program.visits_erase, ← same, Program.visits_erase]
  refine ⟨same, ?_⟩
  have cut := Program.check_cutShort ordered tempFree untyped failed
  generalize checked.visits = visits at sameVisits cut
  cases cut with
  | @stopped finished reached left passes broken atLine unnoted =>
      rw [List.map_append, List.map_cons, List.map_eq_append_iff] at sameVisits
      obtain ⟨passed, others, whole, samePassed, sameOthers⟩ := sameVisits
      obtain ⟨failing, ahead, rfl, sameFailing, -⟩ := List.map_eq_cons_iff.mp sameOthers
      refine ⟨passed, failing, ahead, whole, ?_, ?_, ?_, finished, reached :: left, rfl,
        samePassed.symm, fun visit member => (passes visit member).noted, unnoted⟩
      · exact Visit.obeys_of_map_erase_eq samePassed fun visit member => (passes visit member).obeys
      · exact fun obeys => broken (obeys.of_erase_eq sameFailing.symm)
      · exact (Visit.line_eq_of_erase_eq sameFailing).trans atLine

/-- The second index is not an integer, behind a first one that is. -/
def trueIndex : String :=
  "\x7b int a[2][2]; do\n a[1]\n [1 < 2] = a[0][0];\n while (a[0]); \x7d"

theorem trueIndex_cut_short : ∃ program checked,
    (Program.parse "index" trueIndex = .ok program ∧ program.scopes.Ordered ∧ program.TempFree ∧
      program.Untyped ∧ program.check = (checked, .error (.broken (.indexNotInt .bool) 3))) ∧
    (∃ failing ∈ program.visits, ¬ failing.Obeys program.scopes ∧ failing.line = 3) ∧
    checked.visits.filterMap (fun visit => visit.stop.node?.map (·.type)) =
      [some .int, some .int, some .int, some .bool, none, none, none, none, none, none] := by
  have parsed : ∃ program, Program.parse "index" trueIndex = .ok program ∧
      program.scopes.Ordered ∧ program.TempFree ∧ program.Untyped ∧
      ∃ checked, program.check = (checked, .error (.broken (.indexNotInt .bool) 3)) ∧
      checked.visits.filterMap (fun visit => visit.stop.node?.map (·.type)) =
        [some .int, some .int, some .int, some .bool, none, none, none, none, none, none] := by
    refine ⟨_, by cbv, by decide, ?_, ?_, _, by cbv, by cbv⟩
    · simp [Program.TempFree, Block.stmt, Stmt.EachExpr, Stmt.EachExprOfAll, Expr.TempFree,
        Expr.AllTempFree]
    · simp [Program.Untyped, Block.stmt, Stmt.EachExpr, Stmt.EachExprOfAll, Expr.Untyped,
        Expr.nodes, Expr.indicesNodes, Expr.type, Expr.note]
  obtain ⟨program, read, ordered, tempFree, untyped, checked, failed, noted⟩ := parsed
  obtain ⟨-, passed, failing, ahead, whole, -, broken, atLine, -⟩ :=
    failed_check_cut_short ordered tempFree untyped failed
  have among : failing ∈ program.visits := by
    rw [whole]
    exact List.mem_append_right passed List.mem_cons_self
  exact ⟨program, checked, ⟨read, ordered, tempFree, untyped, failed⟩,
    ⟨failing, among, broken, atLine⟩, noted⟩

end ThreeAddress

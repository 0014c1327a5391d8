import ThreeAddress.Proofs.Names

namespace ThreeAddress

/-- Forgets the types that are noted in a program. -/
def Program.erase (program : Program) : Program :=
  { program with block := { program.block with body := Stmt.eraseAll program.block.body } }

/-- Two checks answer the same, and give back the same tree if they succeed. -/
inductive CheckAgrees {α β : Type} :
    α × Except CheckError β → α × Except CheckError β → Prop
  | failed {first second error} : CheckAgrees (first, .error error) (second, .error error)
  | passed {tree value} : CheckAgrees (tree, .ok value) (tree, .ok value)

namespace CheckAgrees

variable {α β : Type} {first second : α × Except CheckError β}

theorem cases (agrees : CheckAgrees first second) :
    (∃ tree other error, first = (tree, .error error) ∧ second = (other, .error error)) ∨
      ∃ tree value, first = (tree, .ok value) ∧ second = (tree, .ok value) := by
  cases agrees with
  | failed => exact .inl ⟨_, _, _, rfl, rfl⟩
  | passed => exact .inr ⟨_, _, rfl, rfl⟩

theorem result (agrees : CheckAgrees first second) : first.2 = second.2 := by
  cases agrees <;> rfl

theorem tree {value : β} (agrees : CheckAgrees first second) (passes : second.2 = .ok value) :
    first.1 = second.1 := by
  cases agrees with
  | failed => cases passes
  | passed => rfl

end CheckAgrees

namespace Expr

variable {typeOf? : String → Option DeclaredType} {expr checked : Expr}

theorem erase_withType (type : ValueType) (expr : Expr) :
    (expr.withType type).erase = expr.erase := by
  cases expr <;> rfl

theorem conclude_erase {rule : Except TypeFault ValueType} {result : Except CheckError ValueType}
    (concluded : conclude expr rule = (checked, result)) : checked.erase = expr.erase := by
  cases rule with
  | ok type =>
      cases concluded
      exact erase_withType type expr
  | error fault =>
      cases concluded
      rfl

mutual

theorem check_erase (expr : Expr) {checked : Expr} {result : Except CheckError ValueType} :
    expr.check typeOf? = (checked, result) → checked.erase = expr.erase := by
  match expr with
  | .binary note op left right =>
      rw [check]
      rcases leftResult : left.check typeOf? with ⟨_, error | leftType⟩
      · rintro ⟨⟩
        rw [erase, erase, check_erase left leftResult]
      rcases rightResult : right.check typeOf? with ⟨_, error | rightType⟩
      · rintro ⟨⟩
        rw [erase, erase, check_erase left leftResult, check_erase right rightResult]
      · intro concluded
        rw [conclude_erase concluded, erase, erase, check_erase left leftResult,
          check_erase right rightResult]
  | .unary note op operand =>
      rw [check]
      rcases operandResult : operand.check typeOf? with ⟨_, error | type⟩
      · rintro ⟨⟩
        rw [erase, erase, check_erase operand operandResult]
      · intro concluded
        rw [conclude_erase concluded, erase, erase, check_erase operand operandResult]
  | .paren note inner =>
      rw [check]
      rcases innerResult : inner.check typeOf? with ⟨_, error | type⟩
      · rintro ⟨⟩
        rw [erase, erase, check_erase inner innerResult]
      · intro concluded
        rw [conclude_erase concluded, erase, erase, check_erase inner innerResult]
  | .loc note id indices =>
      rw [check]
      cases typeOf? id.name with
      | none =>
          rintro ⟨⟩
          rfl
      | some declared =>
          dsimp only
          cases declared.elementType id.name indices.length with
          | error fault =>
              rintro ⟨⟩
              rfl
          | ok type =>
              rcases indicesResult : checkIndices typeOf? indices with ⟨_, error | done⟩
              · rintro ⟨⟩
                rw [erase, erase, checkIndices_erase indices indicesResult]
              · intro concluded
                rw [conclude_erase concluded, erase, erase,
                  checkIndices_erase indices indicesResult]
  | .int note value | .real note value | .bool note value =>
      rw [check]
      exact conclude_erase
  | .temp note number =>
      rw [check]
      cases note.type <;> rintro ⟨⟩ <;> rfl

theorem checkIndices_erase (indices : List Expr) {checked : List Expr}
    {result : Except CheckError Unit} :
    checkIndices typeOf? indices = (checked, result) → eraseAll checked = eraseAll indices := by
  match indices with
  | [] =>
      rintro ⟨⟩
      rfl
  | index :: rest =>
      rw [checkIndices]
      rcases indexResult : index.check typeOf? with ⟨_, error | type⟩
      · rintro ⟨⟩
        rw [eraseAll, eraseAll, check_erase index indexResult]
      dsimp only
      split
      · rcases restResult : checkIndices typeOf? rest with ⟨_, result⟩
        rintro ⟨⟩
        rw [eraseAll, eraseAll, check_erase index indexResult, checkIndices_erase rest restResult]
      · rintro ⟨⟩
        rw [eraseAll, eraseAll, check_erase index indexResult]

end

mutual

theorem tempFree_erase (expr : Expr) : expr.erase.TempFree ↔ expr.TempFree := by
  match expr with
  | .binary _ _ left right =>
      rw [erase, TempFree, TempFree, tempFree_erase left, tempFree_erase right]
  | .unary _ _ operand => rw [erase, TempFree, TempFree, tempFree_erase operand]
  | .paren _ inner => rw [erase, TempFree, TempFree, tempFree_erase inner]
  | .loc _ _ indices => rw [erase, TempFree, TempFree, allTempFree_eraseAll indices]
  | .int _ _ | .real _ _ | .bool _ _ | .temp _ _ => exact Iff.rfl

theorem allTempFree_eraseAll (indices : List Expr) :
    AllTempFree (eraseAll indices) ↔ AllTempFree indices := by
  match indices with
  | [] => exact Iff.rfl
  | index :: rest =>
      rw [eraseAll, AllTempFree, AllTempFree, tempFree_erase index, allTempFree_eraseAll rest]

end

theorem conclude_agrees {other : Expr} (rule : Except TypeFault ValueType)
    (line : other.line = expr.line) (typed : ∀ type, other.withType type = expr.withType type) :
    CheckAgrees (conclude other rule) (conclude expr rule) := by
  cases rule with
  | ok type =>
      rw [conclude, conclude, typed]
      exact .passed
  | error fault =>
      rw [conclude, conclude, line]
      exact .failed

mutual

/-- The check of an expression does not look at the types that are noted on it. -/
theorem check_agrees (expr : Expr) (tempFree : expr.TempFree) :
    CheckAgrees (expr.erase.check typeOf?) (expr.check typeOf?) := by
  match expr with
  | .binary note op left right =>
      rw [erase, check, check]
      rcases (check_agrees left tempFree.1).cases with
        ⟨_, _, _, erased, given⟩ | ⟨_, _, erased, given⟩
      · rw [erased, given]
        exact .failed
      rw [erased, given]
      rcases (check_agrees right tempFree.2).cases with
        ⟨_, _, _, erased, given⟩ | ⟨_, _, erased, given⟩
      · rw [erased, given]
        exact .failed
      · rw [erased, given]
        exact conclude_agrees _ rfl fun _ => rfl
  | .unary note op operand =>
      rw [erase, check, check]
      rcases (check_agrees operand tempFree).cases with
        ⟨_, _, _, erased, given⟩ | ⟨_, _, erased, given⟩
      · rw [erased, given]
        exact .failed
      · rw [erased, given]
        exact conclude_agrees _ rfl fun _ => rfl
  | .paren note inner =>
      rw [erase, check, check]
      rcases (check_agrees inner tempFree).cases with
        ⟨_, _, _, erased, given⟩ | ⟨_, _, erased, given⟩
      · rw [erased, given]
        exact .failed
      · rw [erased, given]
        exact conclude_agrees _ rfl fun _ => rfl
  | .loc note id indices =>
      have sameLength : (eraseAll indices).length = indices.length := by
        rw [eraseAll_eq_map, List.length_map]
      rw [erase, check, check, sameLength]
      cases typeOf? id.name with
      | none => exact .failed
      | some declared =>
          dsimp only
          cases declared.elementType id.name indices.length with
          | error fault => exact .failed
          | ok type =>
              rcases (checkIndices_agrees indices tempFree).cases with
                ⟨_, _, _, erased, given⟩ | ⟨_, _, erased, given⟩
              · rw [erased, given]
                exact .failed
              · rw [erased, given]
                exact conclude_agrees _ rfl fun _ => rfl
  | .int note value | .real note value | .bool note value =>
      rw [erase, check, check]
      exact conclude_agrees _ rfl fun _ => rfl
  | .temp note number => exact tempFree.elim

theorem checkIndices_agrees (indices : List Expr) (tempFree : AllTempFree indices) :
    CheckAgrees (checkIndices typeOf? (eraseAll indices)) (checkIndices typeOf? indices) := by
  match indices with
  | [] => exact .passed
  | index :: rest =>
      rw [eraseAll, checkIndices, checkIndices]
      rcases (check_agrees index tempFree.1).cases with
        ⟨_, _, _, erased, given⟩ | ⟨_, _, erased, given⟩
      · rw [erased, given]
        exact .failed
      rw [erased, given]
      dsimp only
      split
      · rcases (checkIndices_agrees rest tempFree.2).cases with
          ⟨_, _, _, erased, given⟩ | ⟨_, _, erased, given⟩
        · rw [erased, given]
          exact .failed
        · rw [erased, given]
          exact .passed
      · exact .failed

end

end Expr

namespace Stmt

variable {scopes : Scopes}

mutual

theorem check_erase (stmt : Stmt) {scope : Nat} {checked : Stmt}
    {result : Except CheckError Unit} :
    stmt.check scopes scope = (checked, result) → checked.erase = stmt.erase := by
  match stmt with
  | .assign target value line =>
      rw [check, checkAssign]
      rcases targetResult : target.check (scopes.typeOf? scope) with ⟨_, error | targetType⟩
      · rintro ⟨⟩
        rw [erase, erase, Expr.check_erase target targetResult]
      rcases valueResult : value.check (scopes.typeOf? scope) with ⟨_, error | valueType⟩
      · rintro ⟨⟩
        rw [erase, erase, Expr.check_erase target targetResult, Expr.check_erase value valueResult]
      dsimp only
      split
      all_goals
        rintro ⟨⟩
        rw [erase, erase, Expr.check_erase target targetResult, Expr.check_erase value valueResult]
  | .ifThen condition body | .whileDo condition body =>
      rw [check]
      rcases conditionResult : condition.check (scopes.typeOf? scope) with ⟨_, error | type⟩
      · rintro ⟨⟩
        rw [erase, erase, Expr.check_erase condition conditionResult]
      · rcases bodyResult : body.check scopes scope with ⟨_, result⟩
        rintro ⟨⟩
        rw [erase, erase, Expr.check_erase condition conditionResult, check_erase body bodyResult]
  | .ifThenElse condition body otherwise =>
      rw [check]
      rcases conditionResult : condition.check (scopes.typeOf? scope) with ⟨_, error | type⟩
      · rintro ⟨⟩
        rw [erase, erase, Expr.check_erase condition conditionResult]
      rcases bodyResult : body.check scopes scope with ⟨_, error | done⟩
      · rintro ⟨⟩
        rw [erase, erase, Expr.check_erase condition conditionResult, check_erase body bodyResult]
      · rcases otherwiseResult : otherwise.check scopes scope with ⟨_, result⟩
        rintro ⟨⟩
        rw [erase, erase, Expr.check_erase condition conditionResult, check_erase body bodyResult,
          check_erase otherwise otherwiseResult]
  | .doWhile body condition =>
      rw [check]
      rcases bodyResult : body.check scopes scope with ⟨_, error | done⟩
      · rintro ⟨⟩
        rw [erase, erase, check_erase body bodyResult]
      · rcases conditionResult : condition.check (scopes.typeOf? scope) with ⟨_, result⟩
        rintro ⟨⟩
        rw [erase, erase, check_erase body bodyResult, Expr.check_erase condition conditionResult]
  | .breakLoop =>
      rintro ⟨⟩
      rfl
  | .block inner declarations body =>
      rw [check]
      rcases bodyResult : checkAll scopes inner body with ⟨_, result⟩
      rintro ⟨⟩
      rw [erase, erase, checkAll_erase body bodyResult]

theorem checkAll_erase (body : List Stmt) {scope : Nat} {checked : List Stmt}
    {result : Except CheckError Unit} :
    checkAll scopes scope body = (checked, result) → eraseAll checked = eraseAll body := by
  match body with
  | [] =>
      rintro ⟨⟩
      rfl
  | first :: rest =>
      rw [checkAll]
      rcases firstResult : first.check scopes scope with ⟨_, error | done⟩
      · rintro ⟨⟩
        rw [eraseAll, eraseAll, check_erase first firstResult]
      · rcases restResult : checkAll scopes scope rest with ⟨_, result⟩
        rintro ⟨⟩
        rw [eraseAll, eraseAll, check_erase first firstResult, checkAll_erase rest restResult]

end

mutual

theorem check_agrees (stmt : Stmt) {scope : Nat}
    (tempFree : stmt.EachExpr (fun _ expr => expr.TempFree) scope) :
    CheckAgrees (stmt.erase.check scopes scope) (stmt.check scopes scope) := by
  match stmt with
  | .assign target value line =>
      rw [erase, check, check, checkAssign, checkAssign]
      rcases (Expr.check_agrees target tempFree.1).cases with
        ⟨_, _, _, erased, given⟩ | ⟨_, _, erased, given⟩
      · rw [erased, given]
        exact .failed
      rw [erased, given]
      rcases (Expr.check_agrees value tempFree.2).cases with
        ⟨_, _, _, erased, given⟩ | ⟨_, _, erased, given⟩
      · rw [erased, given]
        exact .failed
      rw [erased, given]
      dsimp only
      split
      · exact .failed
      · exact .passed
  | .ifThen condition body | .whileDo condition body =>
      rw [erase, check, check]
      rcases (Expr.check_agrees condition tempFree.1).cases with
        ⟨_, _, _, erased, given⟩ | ⟨_, _, erased, given⟩
      · rw [erased, given]
        exact .failed
      rw [erased, given]
      rcases (check_agrees body tempFree.2).cases with
        ⟨_, _, _, erased, given⟩ | ⟨_, _, erased, given⟩
      · rw [erased, given]
        exact .failed
      · rw [erased, given]
        exact .passed
  | .ifThenElse condition body otherwise =>
      rw [erase, check, check]
      rcases (Expr.check_agrees condition tempFree.1).cases with
        ⟨_, _, _, erased, given⟩ | ⟨_, _, erased, given⟩
      · rw [erased, given]
        exact .failed
      rw [erased, given]
      rcases (check_agrees body tempFree.2.1).cases with
        ⟨_, _, _, erased, given⟩ | ⟨_, _, erased, given⟩
      · rw [erased, given]
        exact .failed
      rw [erased, given]
      rcases (check_agrees otherwise tempFree.2.2).cases with
        ⟨_, _, _, erased, given⟩ | ⟨_, _, erased, given⟩
      · rw [erased, given]
        exact .failed
      · rw [erased, given]
        exact .passed
  | .doWhile body condition =>
      rw [erase, check, check]
      rcases (check_agrees body tempFree.1).cases with
        ⟨_, _, _, erased, given⟩ | ⟨_, _, erased, given⟩
      · rw [erased, given]
        exact .failed
      rw [erased, given]
      rcases (Expr.check_agrees condition tempFree.2).cases with
        ⟨_, _, _, erased, given⟩ | ⟨_, _, erased, given⟩
      · rw [erased, given]
        exact .failed
      · rw [erased, given]
        exact .passed
  | .breakLoop => exact .passed
  | .block inner declarations body =>
      rw [erase, check, check]
      rcases (checkAll_agrees body tempFree).cases with
        ⟨_, _, _, erased, given⟩ | ⟨_, _, erased, given⟩
      · rw [erased, given]
        exact .failed
      · rw [erased, given]
        exact .passed

theorem checkAll_agrees (body : List Stmt) {scope : Nat}
    (tempFree : EachExprOfAll (fun _ expr => expr.TempFree) scope body) :
    CheckAgrees (checkAll scopes scope (eraseAll body)) (checkAll scopes scope body) := by
  match body with
  | [] => exact .passed
  | first :: rest =>
      rw [eraseAll, checkAll, checkAll]
      rcases (check_agrees first tempFree.1).cases with
        ⟨_, _, _, erased, given⟩ | ⟨_, _, erased, given⟩
      · rw [erased, given]
        exact .failed
      rw [erased, given]
      rcases (checkAll_agrees rest tempFree.2).cases with
        ⟨_, _, _, erased, given⟩ | ⟨_, _, erased, given⟩
      · rw [erased, given]
        exact .failed
      · rw [erased, given]
        exact .passed

end

end Stmt

namespace Program

variable {program other : Program}

theorem check_erase (program : Program) : program.check.1.erase = program.erase := by
  rw [check]
  rcases bodyResult : Stmt.checkAll program.scopes program.block.scope program.block.body with
    ⟨body, result⟩
  dsimp only
  rw [erase, erase, Stmt.checkAll_erase program.block.body bodyResult]

theorem check_agrees (tempFree : program.TempFree) :
    CheckAgrees program.erase.check program.check := by
  rw [check, check]
  rcases (Stmt.checkAll_agrees program.block.body tempFree).cases with
    ⟨_, _, _, erased, given⟩ | ⟨_, _, erased, given⟩
  · rw [erase, erased, given]
    exact .failed
  · rw [erase, erased, given]
    exact .passed

theorem TempFree.of_erase_eq (tempFree : program.TempFree) (same : other.erase = program.erase) :
    other.TempFree := by
  obtain ⟨⟨scope, declarations, body⟩, scopes⟩ := program
  obtain ⟨⟨otherScope, otherDeclarations, otherBody⟩, otherScopes⟩ := other
  simp only [erase, mk.injEq, Block.mk.injEq] at same
  obtain ⟨⟨rfl, -, sameBody⟩, -⟩ := same
  exact Stmt.eachExprOfAll_of_erase_eq (fun _ => Expr.tempFree_erase) sameBody tempFree

/-- What a check answers, and what it gives back when it succeeds, is the same for programs that
differ only in types. -/
theorem check_eq_of_erase_eq (tempFree : program.TempFree) (same : other.erase = program.erase) :
    other.check.2 = program.check.2 ∧
      (program.check.2 = .ok () → other.check.1 = program.check.1) := by
  have agrees := check_agrees tempFree
  have otherAgrees := check_agrees (tempFree.of_erase_eq same)
  rw [same] at otherAgrees
  have sameResult : other.check.2 = program.check.2 :=
    otherAgrees.result.symm.trans agrees.result
  refine ⟨sameResult, fun passes => ?_⟩
  exact (otherAgrees.tree (sameResult.trans passes)).symm.trans (agrees.tree passes)

end Program

/-- A check leaves a program as it is but for the types that are noted in it, whether it succeeds or
not. What it answers, and the types that it notes when it succeeds, do not hang on those noted
before. When it succeeds, every node of every expression has a type, and to check the program again
succeeds and changes nothing. -/
theorem check_only_notes_types {program : Program} (ordered : program.scopes.Ordered)
    (tempFree : program.TempFree) :
    program.check.1.erase = program.erase ∧
    (∀ other : Program, other.erase = program.erase → other.check.2 = program.check.2 ∧
      (program.check.2 = .ok () → other.check.1 = program.check.1)) ∧
    (program.check.2 = .ok () →
      program.check.1.block.stmt.EachExpr
        (fun _ expr => ∀ node ∈ expr.nodes, ∃ type, node.type = some type)
        program.block.scope ∧
      program.check.1.check = (program.check.1, .ok ())) := by
  refine ⟨program.check_erase, fun other => Program.check_eq_of_erase_eq tempFree,
    fun passes => ⟨?_, ?_⟩⟩
  · have accepted : program.check = (program.check.1, .ok ()) := Prod.ext rfl passes
    obtain ⟨body, bodyAccepted, whole⟩ := Program.check_eq_ok.mp accepted
    obtain ⟨-, -, carries⟩ := Stmt.checkAll_sound ordered _ tempFree bodyAccepted
    rw [whole]
    refine Stmt.EachExprOfAll.imp _ (fun home expr carried node member => ?_) carries
    obtain ⟨type, noted, -⟩ := carried node member
    exact ⟨.scalar type, noted⟩
  · obtain ⟨again, sameTree⟩ := Program.check_eq_of_erase_eq tempFree program.check_erase
    exact Prod.ext (sameTree passes) (again.trans passes)

/-- The types that are noted are wrong, or missing. -/
def staleNotes : Program where
  block := {
    scope := 0
    declarations := [⟨⟨.int, [2]⟩, ⟨"a", 1⟩⟩]
    body := [.ifThen (.paren ⟨2, none⟩ (.bool ⟨2, some .int⟩ true))
      (.assign (.loc ⟨3, some .float⟩ ⟨"a", 3⟩ [.paren ⟨3, some .bool⟩ (.int ⟨3, none⟩ 1)])
        (.unary ⟨3, none⟩ .neg (.int ⟨3, some .float⟩ 2)) 3)] }
  scopes := ⟨#[⟨none, [⟨⟨.int, [2]⟩, ⟨"a", 1⟩⟩]⟩]⟩

theorem staleNotes_noted :
    (staleNotes.scopes.Ordered ∧ staleNotes.TempFree ∧
      staleNotes.erase.erase = staleNotes.erase ∧ staleNotes.check.2 = .ok ()) ∧
    staleNotes.check.1.erase = staleNotes.erase ∧
    staleNotes.erase.check = (staleNotes.check.1, .ok ()) ∧
    staleNotes.check.1.block.stmt.EachExpr
      (fun _ expr => ∀ node ∈ expr.nodes, ∃ type, node.type = some type) 0 ∧
    staleNotes.check.1.check = (staleNotes.check.1, .ok ()) := by
  have ordered : staleNotes.scopes.Ordered := by decide
  have tempFree : staleNotes.TempFree := by
    simp [staleNotes, Program.TempFree, Block.stmt, Stmt.EachExpr, Stmt.EachExprOfAll,
      Expr.TempFree, Expr.AllTempFree]
  have passes : staleNotes.check.2 = .ok () := by cbv
  obtain ⟨same, stale, typed⟩ := check_only_notes_types ordered tempFree
  obtain ⟨result, tree⟩ := stale staleNotes.erase rfl
  exact ⟨⟨ordered, tempFree, rfl, passes⟩, same, Prod.ext (tree passes) (result.trans passes),
    (typed passes).1, (typed passes).2⟩

end ThreeAddress

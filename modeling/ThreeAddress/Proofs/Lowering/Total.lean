import ThreeAddress.Proofs.Accepted
import ThreeAddress.Proofs.Layout

namespace ThreeAddress

open Lowering

/-- Every stride of every type that a name may have is an integer of the language. -/
def StridesFit (typeOf? : String → Option DeclaredType) : Prop :=
  ∀ name declared dimension, typeOf? name = some declared →
    ∃ stride, declared.stride dimension = some stride ∧ stride ≤ intMax

/-- Work that does not fail, whichever names are left. -/
def Lowering.Total (work : Lowering Nat α) : Prop :=
  ∀ before, ∃ result after, work.Gives before result after

namespace Expr

variable {typeOf? : String → Option DeclaredType} {declared : DeclaredType}

theorem materialize_total (expr : Expr) : expr.materialize.Total :=
  fun _ => ⟨_, _, materialize_gives.mpr ⟨rfl, rfl, rfl⟩⟩

theorem settle_total (single : Bool) (expr : Expr) : (settle single expr).Total := by
  intro before
  cases single with
  | true => exact materialize_total expr before
  | false => exact ⟨_, _, settle_gives.mpr ⟨rfl, rfl, rfl⟩⟩

theorem addressTerm_total (name : String) (line : Nat) {dimension stride : Nat} (index : Expr)
    (exact : declared.stride dimension = some stride) (small : stride ≤ intMax) :
    (addressTerm declared name line dimension index).Total := by
  intro before
  by_cases one : stride = 1
  · exact ⟨_, _, addressTerm_gives.mpr ⟨stride, exact, .inl ⟨one, rfl, rfl, rfl⟩⟩⟩
  · obtain ⟨⟨code, term⟩, after, made⟩ := materialize_total
      (.binary (addressNote line) .mul index (.int (addressNote line) stride)) before
    exact ⟨_, _, addressTerm_gives.mpr ⟨stride, exact, .inr ⟨one, small, made⟩⟩⟩

mutual

theorem reduce_total (expr : Expr) (single : Bool) (fit : StridesFit typeOf?)
    (resolved : expr.Resolved typeOf?) : (expr.reduce typeOf? single).Total := by
  intro before
  match expr with
  | .binary note op left right =>
      obtain ⟨⟨leftCode, leftResult⟩, afterLeft, leftGiven⟩ :=
        reduce_total left true fit resolved.1 before
      obtain ⟨⟨rightCode, rightResult⟩, afterRight, rightGiven⟩ :=
        reduce_total right true fit resolved.2 afterLeft
      obtain ⟨⟨lastCode, result⟩, after, settled⟩ :=
        settle_total single (.binary note op leftResult rightResult) afterRight
      exact ⟨_, _, reduce_binary_gives.mpr
        ⟨_, _, _, _, _, _, _, leftGiven, rightGiven, settled, rfl⟩⟩
  | .unary note op operand =>
      obtain ⟨⟨code, result⟩, after, given⟩ := reduce_total operand single fit resolved before
      exact ⟨_, _, reduce_unary_gives.mpr ⟨_, given, rfl⟩⟩
  | .paren note inner =>
      obtain ⟨⟨code, result⟩, after, given⟩ := reduce_total inner single fit resolved before
      exact ⟨_, _, reduce_paren_gives.mpr ⟨_, given, rfl⟩⟩
  | .loc note id [] => exact ⟨_, _, by rw [reduce]; exact gives_pure.mpr ⟨rfl, rfl⟩⟩
  | .loc note id (first :: rest) =>
      obtain ⟨⟨declared, found, full⟩, firstResolved, restResolved⟩ := resolved
      obtain ⟨stride, exact, small⟩ := fit id.name declared 0 found
      obtain ⟨⟨firstCode, firstResult⟩, afterFirst, firstGiven⟩ :=
        reduce_total first true fit firstResolved before
      obtain ⟨⟨termCode, term⟩, afterTerm, termGiven⟩ :=
        addressTerm_total id.name note.line firstResult exact small afterFirst
      obtain ⟨⟨sumCode, sum⟩, afterSum, sumGiven⟩ :=
        addTerms_total rest id.name note.line 1 term fit found restResolved afterTerm
      obtain ⟨⟨offsetCode, offset⟩, afterOffset, offsetGiven⟩ :=
        materialize_total (.binary (addressNote note.line) .mul sum
          (.int (addressNote note.line) declared.basic.width)) afterSum
      obtain ⟨⟨lastCode, result⟩, after, settled⟩ :=
        settle_total single (.loc note id [offset]) afterOffset
      have steps : Offset typeOf? declared id.name note.line (first :: rest) before _ offset
          afterOffset := ⟨_, _, _, _, _, _, _, _, _, _, _, _, rfl, firstGiven, termGiven, sumGiven,
        offsetGiven, rfl⟩
      exact ⟨_, _, reduce_access_gives.mpr ⟨_, _, _, _, _, found, steps, settled, rfl⟩⟩
  | .int note value | .real note value | .bool note value =>
      exact ⟨_, _, by rw [reduce]; exact gives_pure.mpr ⟨rfl, rfl⟩⟩
  | .temp note number => exact resolved.elim

theorem addTerms_total (indices : List Expr) (name : String) (line dimension : Nat) (sum : Expr)
    (fit : StridesFit typeOf?) {declared : DeclaredType} {owner : String}
    (found : typeOf? owner = some declared) (resolved : AllResolved typeOf? indices) :
    (addTerms typeOf? declared name line dimension sum indices).Total := by
  intro before
  match indices with
  | [] => exact ⟨_, _, addTerms_nil_gives.mpr ⟨rfl, rfl, rfl⟩⟩
  | index :: rest =>
      obtain ⟨stride, exact, small⟩ := fit owner declared dimension found
      obtain ⟨⟨indexCode, indexResult⟩, afterIndex, indexGiven⟩ :=
        reduce_total index true fit resolved.1 before
      obtain ⟨⟨termCode, term⟩, afterTerm, termGiven⟩ :=
        addressTerm_total name line indexResult exact small afterIndex
      obtain ⟨⟨sumCode, newSum⟩, afterSum, sumGiven⟩ :=
        materialize_total (.binary (addressNote line) .add sum term) afterTerm
      obtain ⟨⟨restCode, total⟩, after, restGiven⟩ :=
        addTerms_total rest name line (dimension + 1) newSum fit found resolved.2 afterSum
      exact ⟨_, _, addTerms_cons_gives.mpr
        ⟨_, _, _, _, _, _, _, _, _, _, indexGiven, termGiven, sumGiven, restGiven, rfl⟩⟩

end

end Expr

namespace Stmt

theorem loopTest_total {typeOf? : String → Option DeclaredType} {condition : Expr}
    (fit : StridesFit typeOf?) (resolved : condition.Resolved typeOf?) (behind : Label)
    (before : NameSupply) : ∃ code after, LoopTest typeOf? condition behind before code after := by
  unfold LoopTest
  split
  · exact ⟨_, _, rfl, rfl⟩
  · obtain ⟨⟨code, test⟩, after, given⟩ := Expr.reduce_total condition false fit resolved before
    exact ⟨_, _, _, _, given, rfl⟩

theorem exits_of_loop (behind : Label) (inLoop : Bool) :
    inLoop = true → (some behind).isSome :=
  fun _ => rfl

variable {scopes : Scopes}

mutual

/-- A break is lowered where there is a label to jump to. -/
theorem lower_total (stmt : Stmt) {inLoop : Bool} {scope : Nat} {exit? : Option Label}
    (fit : ∀ scope, StridesFit (scopes.typeOf? scope)) (exits : inLoop = true → exit?.isSome)
    (resolved : stmt.Resolved scopes inLoop scope) :
    (stmt.lower scopes scope exit?).Total := by
  intro before
  match stmt with
  | .assign target value line =>
      obtain ⟨-, targetResolved, valueResolved⟩ := resolved
      obtain ⟨⟨targetCode, targetResult⟩, afterTarget, targetGiven⟩ :=
        Expr.reduce_total target false (fit scope) targetResolved before
      obtain ⟨⟨valueCode, valueResult⟩, after, valueGiven⟩ :=
        Expr.reduce_total value target.isAccess (fit scope) valueResolved afterTarget
      exact ⟨_, _, lower_assign_gives.mpr ⟨_, _, _, _, _, targetGiven, valueGiven, rfl⟩⟩
  | .ifThen condition body =>
      obtain ⟨⟨testCode, test⟩, afterTest, tested⟩ :=
        Expr.reduce_total condition false (fit scope) resolved.1 before
      obtain ⟨bodyCode, after, bodyGiven⟩ := lower_total body fit exits resolved.2 _
      exact ⟨_, _, lower_ifThen_gives.mpr ⟨_, _, _, _, tested, bodyGiven, rfl⟩⟩
  | .ifThenElse condition body otherwise =>
      obtain ⟨⟨testCode, test⟩, afterTest, tested⟩ :=
        Expr.reduce_total condition false (fit scope) resolved.1 before
      obtain ⟨bodyCode, afterBody, bodyGiven⟩ := lower_total body fit exits resolved.2.1 _
      obtain ⟨elseCode, after, elseGiven⟩ := lower_total otherwise fit exits resolved.2.2 _
      exact ⟨_, _, lower_ifThenElse_gives.mpr
        ⟨_, _, _, _, _, _, tested, bodyGiven, elseGiven, rfl⟩⟩
  | .whileDo condition body =>
      obtain ⟨testCode, afterTest, tested⟩ :=
        loopTest_total (fit scope) resolved.1 ⟨before.labels + 2⟩ (loopNames before)
      obtain ⟨bodyCode, after, bodyGiven⟩ :=
        lower_total body fit (exits_of_loop ⟨before.labels + 2⟩ true) resolved.2 afterTest
      exact ⟨_, _, lower_whileDo_gives.mpr ⟨_, _, _, tested, bodyGiven, rfl⟩⟩
  | .doWhile body condition =>
      obtain ⟨bodyCode, afterBody, bodyGiven⟩ :=
        lower_total body fit (exits_of_loop ⟨before.labels + 2⟩ true) resolved.1 (loopNames before)
      obtain ⟨⟨testCode, test⟩, after, tested⟩ :=
        Expr.reduce_total condition false (fit scope) resolved.2 afterBody
      exact ⟨_, _, lower_doWhile_gives.mpr ⟨_, _, _, _, bodyGiven, tested, rfl⟩⟩
  | .breakLoop =>
      obtain ⟨behind, exit⟩ := Option.isSome_iff_exists.mp (exits resolved)
      exact ⟨_, _, lower_breakLoop_gives.mpr ⟨behind, exit, rfl, rfl⟩⟩
  | .block inner declarations body =>
      obtain ⟨code, after, given⟩ := lowerAll_total body fit exits resolved before
      exact ⟨_, _, lower_block_gives.mpr given⟩

theorem lowerAll_total (body : List Stmt) {inLoop : Bool} {scope : Nat} {exit? : Option Label}
    (fit : ∀ scope, StridesFit (scopes.typeOf? scope)) (exits : inLoop = true → exit?.isSome)
    (resolved : AllResolved scopes inLoop scope body) :
    (lowerAll scopes scope exit? body).Total := by
  intro before
  match body with
  | [] => exact ⟨_, _, lowerAll_nil_gives.mpr ⟨rfl, rfl⟩⟩
  | first :: rest =>
      obtain ⟨firstCode, middle, firstGiven⟩ := lower_total first fit exits resolved.1 before
      obtain ⟨restCode, after, restGiven⟩ := lowerAll_total rest fit exits resolved.2 middle
      exact ⟨_, _, lowerAll_cons_gives.mpr ⟨_, _, _, firstGiven, restGiven, rfl⟩⟩

end

end Stmt

def Scopes.AllPositive : Scopes → Prop :=
  Scopes.Each fun declaration => ∀ size ∈ declaration.type.dims, 1 ≤ size

theorem Scopes.stridesFit {scopes : Scopes} (allFit : scopes.AllFit)
    (positive : scopes.AllPositive) (scope : Nat) : StridesFit (scopes.typeOf? scope) := by
  intro name declared dimension typed
  obtain ⟨declaration, found, rfl⟩ := Option.map_eq_some_iff.mp typed
  exact DeclaredType.stride_of_fits (positive.lookup found) (allFit.lookup found) dimension

/-- An accepted program without zero dimensions has code, whichever names are left to it:
no fault that the lowering knows can happen. -/
theorem accepted_lowers {filename source : String} {program : Program}
    (accepted : Program.ofSource filename source = .ok program)
    (positive : program.scopes.AllPositive) (names : NameSupply) :
    ∃ code after, program.lower names = (.ok code, after) := by
  have wellFormed := Program.ofSource_wellFormed accepted
  have outside : false = true → (none : Option Label).isSome := by
    intro inLoop
    contradiction
  exact Stmt.lowerAll_total program.block.body (Scopes.stridesFit wellFormed.allFit positive)
    outside wellFormed.resolved names

/-- Searches a column of a matrix, and leaves the loop from inside of a branch. -/
def searchColumn : String :=
  "\x7b int i; int a[3][2]; while (true) \x7b if (a[i][1] > i) break; i = i + 1; \x7d \x7d"

/-- The search has code, also where names have been taken before. -/
theorem searchColumn_lowers : ∃ program, Program.ofSource "search" searchColumn = .ok program ∧
    program.scopes.AllPositive ∧
    ∃ code after, program.lower ⟨7, 3⟩ = (.ok code, after) := by
  have accepted : ∃ program, Program.ofSource "search" searchColumn = .ok program ∧
      program.scopes.AllPositive := by
    refine ⟨_, by cbv, ?_⟩
    simp [Scopes.AllPositive, Scopes.Each]
  obtain ⟨program, accepted, positive⟩ := accepted
  exact ⟨program, accepted, positive, accepted_lowers accepted positive ⟨7, 3⟩⟩

end ThreeAddress

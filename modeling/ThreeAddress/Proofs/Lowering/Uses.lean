import ThreeAddress.Proofs.Execution.Renaming
import ThreeAddress.Proofs.Lowering.Supply

namespace ThreeAddress

open Lowering Machine

namespace Machine

/-- An expression stands somewhere in the code. -/
def OccursIn (node : Expr) (code : List Instr) : Prop :=
  ∃ instr ∈ code, ∃ expr ∈ instr.exprs, node ∈ expr.nodes

variable {loads : Place → Prop} {code rest : List Instr}

theorem CodeUses.append (front : CodeUses loads code) (back : CodeUses loads rest) :
    CodeUses loads (code ++ rest) := by
  intro instr member
  rcases List.mem_append.mp member with first | last
  · exact front instr first
  · exact back instr last

theorem CodeUses.nil : CodeUses loads [] := by
  intro instr member
  contradiction

theorem CodeUses.cons {instr : Instr} (first : instr.Uses loads) (back : CodeUses loads rest) :
    CodeUses loads (instr :: rest) := by
  intro other member
  rcases List.mem_cons.mp member with rfl | last
  · exact first
  · exact back other last

end Machine

namespace Instr

variable {loads : Place → Prop} {target value condition : Expr}

theorem uses_assign (targetUses : target.Uses loads) (valueUses : value.Uses loads) :
    (Instr.assign target value).Uses loads := by
  simp [Instr.Uses, exprs, targetUses, valueUses]

theorem uses_ifTrue {label : Label} (uses : condition.Uses loads) :
    (Instr.ifTrue condition label).Uses loads := by
  simpa [Instr.Uses, exprs] using uses

theorem uses_ifFalse {label : Label} (uses : condition.Uses loads) :
    (Instr.ifFalse condition label).Uses loads := by
  simpa [Instr.Uses, exprs] using uses

theorem uses_label {label : Label} : (Instr.label label).Uses loads := by
  simp [Instr.Uses, exprs]

theorem uses_goto {label : Label} : (Instr.goto label).Uses loads := by
  simp [Instr.Uses, exprs]

end Instr

namespace Expr

variable {loads : Place → Prop} {note : Note}

theorem uses_binary {op : BinaryOp} {left right : Expr} (leftUses : left.Uses loads)
    (rightUses : right.Uses loads) : (Expr.binary note op left right).Uses loads :=
  ⟨leftUses, rightUses⟩

theorem uses_int {value : Int} : (Expr.int note value).Uses loads :=
  trivial

theorem uses_element {id : Ident} {offset : Expr} (cells : ∀ numbers, loads (.cell id.name numbers))
    (uses : offset.Uses loads) : (Expr.loc note id [offset]).Uses loads :=
  ⟨cells, uses, trivial⟩

mutual

theorem uses_node (expr : Expr) {note : Note} {number : Nat} (uses : expr.Uses loads)
    (below : .temp note number ∈ expr.nodes) : loads (.temp number) := by
  match expr with
  | .binary _ _ left right =>
      simp only [nodes, List.mem_cons, reduceCtorEq, List.mem_append, false_or] at below
      rcases below with inLeft | inRight
      · exact uses_node left uses.1 inLeft
      · exact uses_node right uses.2 inRight
  | .unary _ _ operand =>
      simp only [nodes, List.mem_cons, reduceCtorEq, false_or] at below
      exact uses_node operand uses below
  | .paren _ inner =>
      simp only [nodes, List.mem_cons, reduceCtorEq, false_or] at below
      exact uses_node inner uses below
  | .loc _ _ indices =>
      simp only [nodes, List.mem_cons, reduceCtorEq, false_or] at below
      exact uses_indicesNode indices uses.2 below
  | .int _ _ | .real _ _ | .bool _ _ => simp [nodes] at below
  | .temp _ _ =>
      simp only [nodes, List.mem_singleton, temp.injEq] at below
      rw [below.2]
      exact uses

theorem uses_indicesNode (indices : List Expr) {note : Note} {number : Nat}
    (uses : AllUse loads indices) (below : .temp note number ∈ indicesNodes indices) :
    loads (.temp number) := by
  match indices with
  | [] => simp [indicesNodes] at below
  | index :: rest =>
      rcases List.mem_append.mp below with inFirst | inRest
      · exact uses_node index uses.1 inFirst
      · exact uses_indicesNode rest uses.2 inRest

end

end Expr

/-- The places of all declared variables and of the temporaries up to a number. -/
def Known (names : String → Prop) (high : Nat) : Place → Prop
  | .cell name _ => names name
  | .temp number => 1 ≤ number ∧ number ≤ high

section

variable {names : String → Prop} {high : Nat} {typeOf? : String → Option DeclaredType}
  {code : List Instr} {result : Expr} {before after : NameSupply} {single : Bool}

theorem materialize_uses {expr : Expr} (uses : expr.Uses (Known names high))
    (bound : after.temps ≤ high) (given : expr.materialize.Gives before (code, result) after) :
    CodeUses (Known names high) code ∧ result.Uses (Known names high) := by
  obtain ⟨rfl, rfl, rfl⟩ := Expr.materialize_gives.mp given
  have filled : Known names high (.temp (before.temps + 1)) := ⟨Nat.succ_pos _, bound⟩
  exact ⟨.cons (Instr.uses_assign filled uses) .nil, filled⟩

theorem settle_uses {expr : Expr} (uses : expr.Uses (Known names high))
    (bound : after.temps ≤ high)
    (given : (Expr.settle single expr).Gives before (code, result) after) :
    CodeUses (Known names high) code ∧ result.Uses (Known names high) := by
  have cases := Expr.settle_gives.mp given
  split at cases
  · exact materialize_uses uses bound cases
  · obtain ⟨rfl, rfl, rfl⟩ := cases
    exact ⟨.nil, uses⟩

theorem addressTerm_uses {declared : DeclaredType} {name : String} {line dimension : Nat}
    {index : Expr} (uses : index.Uses (Known names high)) (bound : after.temps ≤ high)
    (given : (Expr.addressTerm declared name line dimension index).Gives before
      (code, result) after) :
    CodeUses (Known names high) code ∧ result.Uses (Known names high) := by
  obtain ⟨stride, -, ⟨-, rfl, rfl, rfl⟩ | ⟨-, -, made⟩⟩ := Expr.addressTerm_gives.mp given
  · exact ⟨.nil, uses⟩
  · exact materialize_uses (Expr.uses_binary uses Expr.uses_int) bound made

mutual

theorem reduce_uses (expr : Expr) {single : Bool} {code : List Instr} {result : Expr}
    {before after : NameSupply}
    (declares : ∀ name declared, typeOf? name = some declared → names name)
    (resolved : expr.Resolved typeOf?) (bound : after.temps ≤ high)
    (given : (expr.reduce typeOf? single).Gives before (code, result) after) :
    CodeUses (Known names high) code ∧ result.Uses (Known names high) := by
  match expr with
  | .binary note op left right =>
      obtain ⟨_, _, _, _, _, afterRight, _, leftGiven, rightGiven, settled, rfl⟩ :=
        Expr.reduce_binary_gives.mp given
      have rightBound : afterRight.temps ≤ high :=
        Nat.le_trans (Expr.settle_takes settled).temps_le bound
      have leftBound := Nat.le_trans (Expr.reduce_takes right rightGiven).temps_le rightBound
      obtain ⟨leftUses, leftResult⟩ := reduce_uses left declares resolved.1 leftBound leftGiven
      obtain ⟨rightUses, rightResult⟩ :=
        reduce_uses right declares resolved.2 rightBound rightGiven
      obtain ⟨lastUses, uses⟩ := settle_uses
        (Expr.uses_binary leftResult rightResult) bound settled
      exact ⟨(leftUses.append rightUses).append lastUses, uses⟩
  | .unary note op operand =>
      obtain ⟨reduced, operandGiven, rfl⟩ := Expr.reduce_unary_gives.mp given
      obtain ⟨codeUses, uses⟩ := reduce_uses operand declares resolved bound operandGiven
      exact ⟨codeUses, uses⟩
  | .paren note inner =>
      obtain ⟨reduced, innerGiven, rfl⟩ := Expr.reduce_paren_gives.mp given
      obtain ⟨codeUses, uses⟩ := reduce_uses inner declares resolved bound innerGiven
      refine ⟨codeUses, ?_⟩
      split
      · exact uses
      · exact uses
  | .loc note id [] =>
      obtain ⟨⟨declared, typed, -⟩, -⟩ := resolved
      rw [Expr.reduce, gives_pure] at given
      cases given.1
      exact ⟨.nil, fun _ => declares id.name declared typed, trivial⟩
  | .loc note id (first :: rest) =>
      obtain ⟨⟨declared, typed, -⟩, allResolved⟩ := resolved
      obtain ⟨_, _, _, afterOffset, _, -, steps, settled, rfl⟩ :=
        Expr.reduce_access_gives.mp given
      have offsetBound : afterOffset.temps ≤ high :=
        Nat.le_trans (Expr.settle_takes settled).temps_le bound
      obtain ⟨offsetUses, offset⟩ :=
        offset_uses (first :: rest) declares allResolved offsetBound steps
      obtain ⟨lastUses, uses⟩ := settle_uses
        (Expr.uses_element (fun _ => declares id.name declared typed) offset) bound settled
      exact ⟨offsetUses.append lastUses, uses⟩
  | .int note value | .real note value | .bool note value =>
      rw [Expr.reduce, gives_pure] at given
      cases given.1
      exact ⟨.nil, trivial⟩
  | .temp note number => exact resolved.elim

theorem offset_uses (indices : List Expr) {declared : DeclaredType} {name : String} {line : Nat}
    {code : List Instr} {offset : Expr} {before after : NameSupply}
    (declares : ∀ name declared, typeOf? name = some declared → names name)
    (resolved : Expr.AllResolved typeOf? indices) (bound : after.temps ≤ high)
    (steps : Expr.Offset typeOf? declared name line indices before code offset after) :
    CodeUses (Known names high) code ∧ offset.Uses (Known names high) := by
  match indices with
  | [] =>
      obtain ⟨_, _, _, _, _, _, _, _, _, _, _, _, same, -⟩ := steps
      contradiction
  | first :: rest =>
      obtain ⟨_, _, _, _, afterFirst, _, _, afterTerm, _, _, afterSum, _, same, firstGiven,
        termGiven, sumGiven, offsetGiven, rfl⟩ := steps
      cases same
      have sumBound : afterSum.temps ≤ high :=
        Nat.le_trans (Expr.materialize_takes offsetGiven).temps_le bound
      have termBound := Nat.le_trans (Expr.addTerms_takes rest sumGiven).temps_le sumBound
      have firstBound := Nat.le_trans (Expr.addressTerm_takes termGiven).temps_le termBound
      obtain ⟨firstUses, firstResult⟩ :=
        reduce_uses first declares resolved.1 firstBound firstGiven
      obtain ⟨termUses, term⟩ := addressTerm_uses firstResult termBound termGiven
      obtain ⟨sumUses, sum⟩ := addTerms_uses rest declares term resolved.2 sumBound sumGiven
      obtain ⟨offsetUses, offset⟩ := materialize_uses
        (Expr.uses_binary sum Expr.uses_int) bound offsetGiven
      exact ⟨((firstUses.append termUses).append sumUses).append offsetUses, offset⟩

theorem addTerms_uses (indices : List Expr) {declared : DeclaredType} {name : String}
    {line dimension : Nat} {code : List Instr} {sum result : Expr} {before after : NameSupply}
    (declares : ∀ name declared, typeOf? name = some declared → names name)
    (uses : sum.Uses (Known names high)) (resolved : Expr.AllResolved typeOf? indices)
    (bound : after.temps ≤ high)
    (given : (Expr.addTerms typeOf? declared name line dimension sum indices).Gives before
      (code, result) after) :
    CodeUses (Known names high) code ∧ result.Uses (Known names high) := by
  match indices with
  | [] =>
      obtain ⟨rfl, rfl, rfl⟩ := Expr.addTerms_nil_gives.mp given
      exact ⟨.nil, uses⟩
  | index :: rest =>
      obtain ⟨_, _, afterIndex, _, _, afterTerm, _, _, afterSum, _, indexGiven, termGiven,
        sumGiven, restGiven, rfl⟩ := Expr.addTerms_cons_gives.mp given
      have sumBound : afterSum.temps ≤ high :=
        Nat.le_trans (Expr.addTerms_takes rest restGiven).temps_le bound
      have termBound := Nat.le_trans (Expr.materialize_takes sumGiven).temps_le sumBound
      have indexBound := Nat.le_trans (Expr.addressTerm_takes termGiven).temps_le termBound
      obtain ⟨indexUses, indexResult⟩ :=
        reduce_uses index declares resolved.1 indexBound indexGiven
      obtain ⟨termUses, term⟩ := addressTerm_uses indexResult termBound termGiven
      obtain ⟨sumUses, newSum⟩ := materialize_uses
        (Expr.uses_binary uses term) sumBound sumGiven
      obtain ⟨restUses, last⟩ := addTerms_uses rest declares newSum resolved.2 bound restGiven
      exact ⟨((indexUses.append termUses).append sumUses).append restUses, last⟩

end

theorem loopTest_uses {condition : Expr} {behind : Label}
    (declares : ∀ name declared, typeOf? name = some declared → names name)
    (resolved : condition.Resolved typeOf?) (bound : after.temps ≤ high)
    (tested : Stmt.LoopTest typeOf? condition behind before code after) :
    CodeUses (Known names high) code := by
  unfold Stmt.LoopTest at tested
  split at tested
  · obtain ⟨rfl, -⟩ := tested
    exact .nil
  · obtain ⟨testCode, test, given, rfl⟩ := tested
    obtain ⟨testUses, uses⟩ := reduce_uses condition declares resolved bound given
    exact testUses.append (.cons (Instr.uses_ifFalse uses) .nil)

variable {scopes : Scopes}

mutual

theorem lower_uses (stmt : Stmt) {inLoop : Bool} {scope : Nat} {exit? : Option Label}
    {code : List Instr} {before after : NameSupply}
    (declares : ∀ scope name declared, scopes.typeOf? scope name = some declared → names name)
    (resolved : stmt.Resolved scopes inLoop scope) (bound : after.temps ≤ high)
    (given : (stmt.lower scopes scope exit?).Gives before code after) :
    CodeUses (Known names high) code := by
  match stmt with
  | .assign target value line =>
      obtain ⟨-, targetResolved, valueResolved⟩ := resolved
      obtain ⟨_, _, afterTarget, _, _, targetGiven, valueGiven, rfl⟩ :=
        Stmt.lower_assign_gives.mp given
      have targetBound : afterTarget.temps ≤ high :=
        Nat.le_trans (Expr.reduce_takes value valueGiven).temps_le bound
      obtain ⟨targetCode, targetUses⟩ :=
        reduce_uses target (declares scope) targetResolved targetBound targetGiven
      obtain ⟨valueCode, valueUses⟩ :=
        reduce_uses value (declares scope) valueResolved bound valueGiven
      exact (targetCode.append valueCode).append
        (.cons (Instr.uses_assign targetUses valueUses) .nil)
  | .ifThen condition body =>
      obtain ⟨_, _, afterTest, _, tested, bodyGiven, rfl⟩ := Stmt.lower_ifThen_gives.mp given
      have testBound : afterTest.temps ≤ high :=
        Nat.le_trans (Stmt.lower_takes body resolved.2 bodyGiven).temps_le bound
      obtain ⟨testCode, uses⟩ :=
        reduce_uses condition (declares scope) resolved.1 testBound tested
      have bodyCode := lower_uses body declares resolved.2 bound bodyGiven
      refine ((testCode.append ?_).append bodyCode).append ?_
      · exact .cons (Instr.uses_ifFalse uses) .nil
      · exact .cons Instr.uses_label .nil
  | .ifThenElse condition body otherwise =>
      obtain ⟨_, _, afterTest, _, afterBody, _, tested, bodyGiven, elseGiven, rfl⟩ :=
        Stmt.lower_ifThenElse_gives.mp given
      have bodyBound : afterBody.temps ≤ high :=
        Nat.le_trans (Stmt.lower_takes otherwise resolved.2.2 elseGiven).temps_le bound
      have testBound : afterTest.temps ≤ high :=
        Nat.le_trans (Stmt.lower_takes body resolved.2.1 bodyGiven).temps_le bodyBound
      obtain ⟨testCode, uses⟩ :=
        reduce_uses condition (declares scope) resolved.1 testBound tested
      have bodyCode := lower_uses body declares resolved.2.1 bodyBound bodyGiven
      have elseCode := lower_uses otherwise declares resolved.2.2 bound elseGiven
      refine ((((testCode.append ?_).append bodyCode).append ?_).append elseCode).append ?_
      · exact .cons (Instr.uses_ifFalse uses) .nil
      · exact .cons Instr.uses_goto (.cons Instr.uses_label .nil)
      · exact .cons Instr.uses_label .nil
  | .whileDo condition body =>
      obtain ⟨_, afterTest, _, tested, bodyGiven, rfl⟩ := Stmt.lower_whileDo_gives.mp given
      have testBound : afterTest.temps ≤ high :=
        Nat.le_trans (Stmt.lower_takes body resolved.2 bodyGiven).temps_le bound
      have testCode := loopTest_uses (declares scope) resolved.1 testBound tested
      have bodyCode := lower_uses body declares resolved.2 bound bodyGiven
      refine ((CodeUses.append ?_ testCode).append bodyCode).append ?_
      · exact .cons Instr.uses_label .nil
      · exact .cons Instr.uses_goto (.cons Instr.uses_label .nil)
  | .doWhile body condition =>
      obtain ⟨_, afterBody, _, _, bodyGiven, tested, rfl⟩ := Stmt.lower_doWhile_gives.mp given
      have bodyBound : afterBody.temps ≤ high :=
        Nat.le_trans (Expr.reduce_takes condition tested).temps_le bound
      have bodyCode := lower_uses body declares resolved.1 bodyBound bodyGiven
      obtain ⟨testCode, uses⟩ := reduce_uses condition (declares scope) resolved.2 bound tested
      refine ((CodeUses.append ?_ bodyCode).append testCode).append ?_
      · exact .cons Instr.uses_label .nil
      · exact .cons (Instr.uses_ifTrue uses) (.cons Instr.uses_label .nil)
  | .breakLoop =>
      obtain ⟨_, -, rfl, -⟩ := Stmt.lower_breakLoop_gives.mp given
      exact .cons Instr.uses_goto .nil
  | .block inner declarations body =>
      exact lowerAll_uses body declares resolved bound (Stmt.lower_block_gives.mp given)

theorem lowerAll_uses (body : List Stmt) {inLoop : Bool} {scope : Nat} {exit? : Option Label}
    {code : List Instr} {before after : NameSupply}
    (declares : ∀ scope name declared, scopes.typeOf? scope name = some declared → names name)
    (resolved : Stmt.AllResolved scopes inLoop scope body) (bound : after.temps ≤ high)
    (given : (Stmt.lowerAll scopes scope exit? body).Gives before code after) :
    CodeUses (Known names high) code := by
  match body with
  | [] =>
      obtain ⟨rfl, -⟩ := Stmt.lowerAll_nil_gives.mp given
      exact .nil
  | first :: rest =>
      obtain ⟨_, middle, _, firstGiven, restGiven, rfl⟩ := Stmt.lowerAll_cons_gives.mp given
      have firstBound : middle.temps ≤ high :=
        Nat.le_trans (Stmt.lowerAll_takes rest resolved.2 restGiven).temps_le bound
      exact (lower_uses first declares resolved.1 firstBound firstGiven).append
        (lowerAll_uses rest declares resolved.2 bound restGiven)

end

end

end ThreeAddress

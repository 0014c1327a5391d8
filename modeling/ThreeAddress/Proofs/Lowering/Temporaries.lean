import ThreeAddress.Proofs.Lowering.Flow
import ThreeAddress.Proofs.Typing.Decision

namespace ThreeAddress

open Lowering Machine Counter

variable {N : Type} [Counter N]

theorem perm_operands {left right waiting : List Nat} :
    (right ++ (left ++ waiting)).Perm ((left ++ right) ++ waiting) := by
  rw [← List.append_assoc]
  exact List.perm_append_comm.append_right waiting

namespace Expr

variable {typeOf? : String → Option DeclaredType} {single : Bool} {expr result : Expr}
  {code : List Instr} {before after : Names N}

theorem materialize_flows (given : expr.materialize.Gives before (code, result) after)
    (waiting : List Nat) :
    Flows ⟨before.temps, expr.temps ++ waiting⟩ code ⟨after.temps, result.temps ++ waiting⟩ := by
  obtain ⟨rfl, rfl, rfl⟩ := materialize_gives.mp given
  exact .fill (.refl _) (.done (.refl _))

theorem settle_flows (given : (settle single expr).Gives before (code, result) after)
    (waiting : List Nat) :
    Flows ⟨before.temps, expr.temps ++ waiting⟩ code ⟨after.temps, result.temps ++ waiting⟩ := by
  have cases := settle_gives.mp given
  split at cases
  · exact materialize_flows cases waiting
  · obtain ⟨rfl, rfl, rfl⟩ := cases
    exact .done (.refl _)

theorem addressTerm_flows {declared : DeclaredType} {name : String} {line dimension : Nat}
    (given : (addressTerm declared name line dimension expr).Gives before (code, result) after)
    (waiting : List Nat) :
    Flows ⟨before.temps, expr.temps ++ waiting⟩ code ⟨after.temps, result.temps ++ waiting⟩ := by
  obtain ⟨stride, -, ⟨-, rfl, rfl, rfl⟩ | ⟨-, -, made⟩⟩ := addressTerm_gives.mp given
  · exact .done (.refl _)
  · simpa using materialize_flows made waiting

mutual

/-- The code of an expression leaves waiting what waited before, and what its result reads. -/
theorem reduce_flows (expr : Expr) {single : Bool} {result : Expr} {code : List Instr}
    {before after : Names N} (tempFree : expr.TempFree)
    (given : (expr.reduce typeOf? single).Gives before (code, result) after)
    (waiting : List Nat) :
    Flows ⟨before.temps, waiting⟩ code ⟨after.temps, result.temps ++ waiting⟩ := by
  match expr with
  | .binary note op left right =>
      obtain ⟨leftCode, leftResult, afterLeft, rightCode, rightResult, afterRight, lastCode,
        leftGiven, rightGiven, settled, rfl⟩ := reduce_binary_gives.mp given
      have leftFlows := reduce_flows left tempFree.1 leftGiven waiting
      have rightFlows := reduce_flows right tempFree.2 rightGiven (leftResult.temps ++ waiting)
      have lastFlows := settle_flows settled waiting
      rw [temps_binary] at lastFlows
      exact (leftFlows.append rightFlows).append (lastFlows.reorder perm_operands)
  | .unary note op operand =>
      obtain ⟨reduced, operandGiven, rfl⟩ := reduce_unary_gives.mp given
      rw [temps_unary]
      exact reduce_flows operand tempFree operandGiven waiting
  | .paren note inner =>
      obtain ⟨reduced, innerGiven, rfl⟩ := reduce_paren_gives.mp given
      have innerFlows := reduce_flows inner tempFree innerGiven waiting
      split
      · rwa [temps_paren]
      · exact innerFlows
  | .loc note id [] =>
      rw [reduce, gives_pure] at given
      obtain ⟨same, rfl⟩ := given
      cases same
      exact .done (.refl _)
  | .loc note id (first :: rest) =>
      obtain ⟨declared, offsetCode, offset, afterOffset, lastCode, -, steps, settled, rfl⟩ :=
        reduce_access_gives.mp given
      have lastFlows := settle_flows settled waiting
      rw [temps_element] at lastFlows
      exact (offset_flows (first :: rest) tempFree steps waiting).append lastFlows
  | .int note value | .real note value | .bool note value =>
      rw [reduce, gives_pure] at given
      obtain ⟨same, rfl⟩ := given
      cases same
      exact .done (.refl _)
  | .temp note number => exact tempFree.elim

theorem offset_flows (indices : List Expr) {declared : DeclaredType} {name : String} {line : Nat}
    {code : List Instr} {offset : Expr} {before after : Names N}
    (tempFree : AllTempFree indices)
    (steps : Offset typeOf? declared name line indices before code offset after)
    (waiting : List Nat) :
    Flows ⟨before.temps, waiting⟩ code ⟨after.temps, offset.temps ++ waiting⟩ := by
  match indices with
  | [] =>
      obtain ⟨_, _, _, _, _, _, _, _, _, _, _, _, same, -⟩ := steps
      contradiction
  | first :: rest =>
      obtain ⟨_, _, _, _, _, _, _, _, _, _, _, _, same, firstGiven, termGiven, sumGiven,
        offsetGiven, rfl⟩ := steps
      cases same
      have firstFlows := reduce_flows first tempFree.1 firstGiven waiting
      have termFlows := addressTerm_flows termGiven waiting
      have sumFlows := addTerms_flows rest tempFree.2 sumGiven waiting
      have offsetFlows := materialize_flows offsetGiven waiting
      rw [temps_binary, temps_int, List.append_nil] at offsetFlows
      exact ((firstFlows.append termFlows).append sumFlows).append offsetFlows

theorem addTerms_flows (indices : List Expr) {declared : DeclaredType} {name : String}
    {line dimension : Nat} {code : List Instr} {sum result : Expr} {before after : Names N}
    (tempFree : AllTempFree indices)
    (given : (addTerms typeOf? declared name line dimension sum indices).Gives before
      (code, result) after)
    (waiting : List Nat) :
    Flows ⟨before.temps, sum.temps ++ waiting⟩ code ⟨after.temps, result.temps ++ waiting⟩ := by
  match indices with
  | [] =>
      obtain ⟨rfl, rfl, rfl⟩ := addTerms_nil_gives.mp given
      exact .done (.refl _)
  | index :: rest =>
      obtain ⟨_, _, _, _, _, _, _, _, _, _, indexGiven, termGiven, sumGiven, restGiven, rfl⟩ :=
        addTerms_cons_gives.mp given
      have indexFlows := reduce_flows index tempFree.1 indexGiven (sum.temps ++ waiting)
      have termFlows := addressTerm_flows termGiven (sum.temps ++ waiting)
      have sumFlows := materialize_flows sumGiven waiting
      rw [temps_binary] at sumFlows
      have restFlows := addTerms_flows rest tempFree.2 restGiven waiting
      exact ((indexFlows.append termFlows).append (sumFlows.reorder perm_operands)).append
        restFlows

end

/-- What need not be single is left no temporary. -/
theorem reduce_store (expr : Expr) {result : Expr} {code : List Instr}
    {before after : Names N} (tempFree : expr.TempFree)
    (given : (expr.reduce typeOf? false).Gives before (code, result) after) :
    result.number? = none := by
  match expr with
  | .binary note op left right =>
      obtain ⟨_, _, _, _, _, _, _, -, -, settled, -⟩ := reduce_binary_gives.mp given
      obtain ⟨-, rfl, -⟩ := settle_gives.mp settled
      rfl
  | .unary note op operand =>
      obtain ⟨reduced, -, rfl⟩ := reduce_unary_gives.mp given
      rfl
  | .paren note inner =>
      obtain ⟨reduced, innerGiven, rfl⟩ := reduce_paren_gives.mp given
      split
      · rfl
      · exact reduce_store inner tempFree innerGiven
  | .loc note id (first :: rest) =>
      obtain ⟨_, _, _, _, _, -, -, settled, -⟩ := reduce_access_gives.mp given
      obtain ⟨-, rfl, -⟩ := settle_gives.mp settled
      rfl
  | .loc note id [] | .int note value | .real note value | .bool note value =>
      rw [reduce, gives_pure] at given
      cases given.1
      rfl
  | .temp note number => exact tempFree.elim

end Expr

namespace Stmt

variable {scopes : Scopes} {taken : N}

theorem label_flows (label : Label) : Flows ⟨taken, []⟩ [.label label] ⟨taken, []⟩ :=
  .single rfl .nil

theorem goto_flows (target : Label) : Flows ⟨taken, []⟩ [.goto target] ⟨taken, []⟩ :=
  .single rfl .nil

/-- The test of a condition reads all that its code leaves waiting. -/
theorem test_flows {typeOf? : String → Option DeclaredType} {condition test : Expr}
    {code : List Instr} {before after : Names N} (instr : Instr) (tempFree : condition.TempFree)
    (given : (condition.reduce typeOf? false).Gives before (code, test) after)
    (fills : fills? instr = none) (reads : instr.reads = test.temps) :
    Flows ⟨before.temps, []⟩ (code ++ [instr]) ⟨after.temps, []⟩ := by
  refine (Expr.reduce_flows condition tempFree given []).append (.single fills ?_)
  rw [reads, List.append_nil]

theorem loopTest_flows {typeOf? : String → Option DeclaredType} {condition : Expr}
    {behind : Label} {code : List Instr} {before after : Names N}
    (tempFree : condition.TempFree)
    (tested : LoopTest typeOf? condition behind before code after) :
    Flows ⟨before.temps, []⟩ code ⟨after.temps, []⟩ := by
  unfold LoopTest at tested
  split at tested
  · obtain ⟨rfl, rfl⟩ := tested
    exact .done .nil
  · obtain ⟨testCode, test, given, rfl⟩ := tested
    exact test_flows _ tempFree given rfl rfl

mutual

/-- The code of a statement leaves nothing waiting. -/
theorem lower_flows (stmt : Stmt) {scope : Nat} {exit? : Option Label} {code : List Instr}
    {before after : Names N} (tempFree : stmt.EachExpr (fun _ expr => expr.TempFree) scope)
    (given : (stmt.lower scopes scope exit?).Gives before code after) :
    Flows ⟨before.temps, []⟩ code ⟨after.temps, []⟩ := by
  match stmt with
  | .assign target value line =>
      obtain ⟨targetCode, targetResult, afterTarget, valueCode, valueResult, targetGiven,
        valueGiven, rfl⟩ := lower_assign_gives.mp given
      have targetFlows := Expr.reduce_flows target tempFree.1 targetGiven []
      have valueFlows := Expr.reduce_flows value tempFree.2 valueGiven (targetResult.temps ++ [])
      have store := Expr.reduce_store target tempFree.1 targetGiven
      refine (targetFlows.append valueFlows).append (.single (fills?_store store) ?_)
      rw [Instr.reads_store store, List.append_nil]
      exact List.perm_append_comm
  | .ifThen condition body =>
      obtain ⟨testCode, test, afterTest, bodyCode, tested, bodyGiven, rfl⟩ :=
        lower_ifThen_gives.mp given
      have testFlows := test_flows (.ifFalse test afterTest.nextLabel) tempFree.1 tested rfl rfl
      have bodyFlows := lower_flows body tempFree.2 bodyGiven
      exact (testFlows.append bodyFlows).append (label_flows _)
  | .ifThenElse condition body otherwise =>
      obtain ⟨testCode, test, afterTest, bodyCode, afterBody, elseCode, tested, bodyGiven,
        elseGiven, rfl⟩ := lower_ifThenElse_gives.mp given
      have testFlows := test_flows (.ifFalse test afterTest.nextLabel) tempFree.1 tested rfl rfl
      have bodyFlows := lower_flows body tempFree.2.1 bodyGiven
      have elseFlows := lower_flows otherwise tempFree.2.2 elseGiven
      have thenFlows := (testFlows.append bodyFlows).append
        ((goto_flows afterBody.nextLabel).append (label_flows afterTest.nextLabel))
      exact (thenFlows.append elseFlows).append (label_flows _)
  | .whileDo condition body =>
      obtain ⟨testCode, afterTest, bodyCode, tested, bodyGiven, rfl⟩ :=
        lower_whileDo_gives.mp given
      have testFlows := (label_flows before.nextLabel).append (loopTest_flows tempFree.1 tested)
      have bodyFlows := lower_flows body tempFree.2 bodyGiven
      exact (testFlows.append bodyFlows).append ((goto_flows _).append (label_flows _))
  | .doWhile body condition =>
      obtain ⟨bodyCode, afterBody, testCode, test, bodyGiven, tested, rfl⟩ :=
        lower_doWhile_gives.mp given
      have bodyFlows := (label_flows before.nextLabel).append
        (lower_flows body tempFree.1 bodyGiven)
      have testFlows := test_flows (.ifTrue test before.nextLabel) tempFree.2 tested rfl rfl
      have whole := bodyFlows.append (testFlows.append (label_flows before.afterLabel.nextLabel))
      simpa [loopNames] using whole
  | .breakLoop =>
      obtain ⟨behind, -, rfl, rfl⟩ := lower_breakLoop_gives.mp given
      exact goto_flows behind
  | .block inner declarations body =>
      exact lowerAll_flows body tempFree (lower_block_gives.mp given)

theorem lowerAll_flows (body : List Stmt) {scope : Nat} {exit? : Option Label}
    {code : List Instr} {before after : Names N}
    (tempFree : EachExprOfAll (fun _ expr => expr.TempFree) scope body)
    (given : (lowerAll scopes scope exit? body).Gives before code after) :
    Flows ⟨before.temps, []⟩ code ⟨after.temps, []⟩ := by
  match body with
  | [] =>
      obtain ⟨rfl, rfl⟩ := lowerAll_nil_gives.mp given
      exact .done .nil
  | first :: rest =>
      obtain ⟨firstCode, middle, restCode, firstGiven, restGiven, rfl⟩ :=
        lowerAll_cons_gives.mp given
      exact (lower_flows first tempFree.1 firstGiven).append
        (lowerAll_flows rest tempFree.2 restGiven)

end

end Stmt

/-- A temporary is assigned, and then read, with only assignments in between. It occurs nowhere
else. -/
def AssignedThenRead (code : List Instr) (number : Nat) : Prop :=
  ∃ front note value middle reader back,
    code = front ++ .assign (.temp note number) value :: (middle ++ reader :: back) ∧
    (∀ instr ∈ middle, ∃ target value, instr = .assign target value) ∧
    number ∈ reader.reads ∧ (temps code).count number = 2

theorem assignedThenRead_of_flows {first last : N} {number : Nat} {code : List Instr}
    (flows : Flows ⟨first, []⟩ code ⟨last, []⟩) (distinct : (filled code).Nodup)
    (fills : number ∈ filled code) : AssignedThenRead code number := by
  obtain ⟨front, note, value, middle, reader, back, split, assigns, reads⟩ :=
    flows.filled_then_read fills nofun
  refine ⟨front, note, value, middle, reader, back, split, fun instr member => ?_, reads, ?_⟩
  · obtain ⟨other, named⟩ := Option.isSome_iff_exists.mp (assigns instr member)
    obtain ⟨otherNote, otherValue, same⟩ := fills?_eq_some named
    exact ⟨_, otherValue, same⟩
  · have once : (filled code).count number = 1 := List.count_eq_one_of_mem distinct fills
    have alike := flows.balance.count_eq number
    rw [List.nil_append, List.append_nil] at alike
    rw [temps_perm.count_eq, List.count_append, ← alike, once]

/-- The temporaries in the code of a program without temporaries are those with the numbers behind
that of the context. They are assigned in this order, each once, and each is read once, with only
assignments in between. So on every path, what is read has been assigned. All of this is so in a
build that stops at an overflow. In one that goes on at zero the numbers do so as well, and no
temporary is assigned twice as long as the program needs no more temporaries than there are
words. -/
theorem temporaries_assigned_then_read {program : Program} {overflow : Overflow}
    {context left : NameContext} {code : List Instr} (tempFree : program.TempFree)
    (generated : program.generate overflow context = some (.ok code, left)) :
    ∃ count, filled code = numbersBehind context.temps count ∧
      left.temps.toNat = (context.temps.toNat + count) % 2 ^ 32 ∧
      (overflow = .stops ∨ context.temps.toNat + count < 2 ^ 32 →
        filled code = List.range' (context.temps.toNat + 1) count) ∧
      (∀ number, (∃ note, OccursIn (.temp note number) code) ↔ number ∈ filled code) ∧
      (overflow = .stops ∨ count ≤ 2 ^ 32 →
        (filled code).Nodup ∧ ∀ number ∈ filled code, AssignedThenRead code number) ∧
      ∀ visited here reader number, Path code visited here → code[here]? = some reader →
        number ∈ reader.reads → ∃ there ∈ visited, ∃ note value,
          code[there]? = some (.assign (.temp note number) value) := by
  obtain ⟨names, given, rfl, went⟩ := Program.generate_gives.mp generated
  have flows : Flows ⟨context.names.temps, []⟩ code ⟨names.temps, []⟩ :=
    Stmt.lower_flows program.block.stmt tempFree given
  obtain ⟨count, counted, numbered⟩ := flows.filled
  dsimp only at counted
  have fills : filled code = numbersBehind context.temps count :=
    numbered.trans WordCounter.numbers_eq
  have fits (stops : overflow = .stops) : context.temps.toNat + count < 2 ^ 32 :=
    WordCounter.fits_of_kept (counted ▸ (went stops).1)
  refine ⟨count, fills, ?_, fun below => ?_, fun number => ?_, fun few => ?_, ?_⟩
  · rw [counted]
    exact WordCounter.after_word
  · rw [fills, numbersBehind_eq (below.elim fits id)]
  · have alike := flows.balance
    rw [List.nil_append, List.append_nil] at alike
    rw [occursIn_iff_mem_temps, temps_perm.mem_iff, List.mem_append, ← alike.mem_iff, or_self]
  · have distinct : (filled code).Nodup := fills ▸ nodup_numbersBehind_of_few fits few
    exact ⟨distinct, fun number member => assignedThenRead_of_flows flows distinct member⟩
  · intro visited here reader number path present reads
    exact path.fills_before flows present reads

/-- A loop that fills and reads five temporaries. -/
def shiftValues : String :=
  "\x7b int i; float a[4]; while (i < 3) \x7b a[i] = a[i + 1] * i; i = i + 1; \x7d \x7d"

/-- The temporaries of one run start at eight, those of another one in the last words. -/
theorem shiftValues_temporaries : ∃ program code left last rest,
    Program.ofSource "shift" shiftValues = .ok program ∧ program.TempFree ∧
    program.generate .stops ⟨7, 0⟩ = some (.ok code, left) ∧
    program.generate .wraps ⟨4294967293, 0⟩ = some (.ok last, rest) ∧
    program.generate .stops ⟨4294967293, 0⟩ = none ∧
    filled code = [8, 9, 10, 11, 12] ∧ (∀ number ∈ filled code, AssignedThenRead code number) ∧
    filled last = [4294967294, 4294967295, 0, 1, 2] ∧
    (∀ number, (∃ note, OccursIn (.temp note number) last) ↔ number ∈ filled last) ∧
    (∀ number ∈ filled last, AssignedThenRead last number) := by
  have generated : ∃ program code left last rest,
      Program.ofSource "shift" shiftValues = .ok program ∧ program.TempFree ∧
      program.generate .stops ⟨7, 0⟩ = some (.ok code, left) ∧
      program.generate .wraps ⟨4294967293, 0⟩ = some (.ok last, rest) ∧
      program.generate .stops ⟨4294967293, 0⟩ = none ∧
      filled code = [8, 9, 10, 11, 12] ∧ filled last = [4294967294, 4294967295, 0, 1, 2] := by
    refine ⟨_, _, _, _, _, by cbv, ?_, rfl, rfl, rfl, rfl, rfl⟩
    simp [Program.TempFree, Block.stmt, Stmt.EachExpr, Stmt.EachExprOfAll, Expr.TempFree,
      Expr.AllTempFree]
  obtain ⟨program, code, left, last, rest, accepted, tempFree, below, across, stopped, fills,
    lastFills⟩ := generated
  obtain ⟨_, -, -, -, -, each, -⟩ :=
    temporaries_assigned_then_read tempFree below
  obtain ⟨count, same, -, -, occurs, lastEach, -⟩ := temporaries_assigned_then_read tempFree across
  have few : count ≤ 2 ^ 32 := by
    have length := congrArg List.length same
    rw [lastFills, numbersBehind, List.length_map, List.length_range'] at length
    simp at length
    omega
  exact ⟨program, code, left, last, rest, accepted, tempFree, below, across, stopped, fills,
    (each (.inl rfl)).2, lastFills, occurs, (lastEach (.inr few)).2⟩

end ThreeAddress

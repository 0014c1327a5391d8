import ThreeAddress.Proofs.Execution.Machine
import ThreeAddress.Proofs.Layout
import ThreeAddress.Proofs.Lowering.Supply

namespace ThreeAddress

/-!
# The code of an expression computes its value

The instructions that come before the use of an expression write fresh
temporaries only, and what is used then has the value of the expression. It keeps
that value as long as only later temporaries are written, so the parts of a
construct can be computed one after the other.
-/

open Lowering Machine

section

variable {Value : Type}

/-- Only temporaries after this one have changed. -/
structure Keeps (low : Nat) (memory final : Place → Value) : Prop where
  cell : ∀ name indices, final (.cell name indices) = memory (.cell name indices)
  temp : ∀ number, number ≤ low → final (.temp number) = memory (.temp number)

/-- An expression has a value, also when temporaries after this one change. -/
def Settled (meaning : Interpretation Value) (low : Nat) (memory : Place → Value) (expr : Expr)
    (value : Value) : Prop :=
  ∀ later, Keeps low memory later → expr.eval meaning (loadFrom id later) = some value

/-- The code writes fresh temporaries only, and then the result has the value. -/
def Computes (meaning : Interpretation Value) (before : NameSupply) (code : List Instr)
    (result : Expr) (after : NameSupply) (memory : Place → Value) (value : Value) : Prop :=
  ∃ final, Passes meaning id code memory final ∧ Keeps before.temps memory final ∧
    Settled meaning after.temps final result value

/-- What a source program loads stands in the memory at its address. -/
def Mirrors (typeOf? : String → Option DeclaredType) (load : Place → Option Value)
    (memory : Place → Value) : Prop :=
  ∀ name declared indices value, typeOf? name = some declared →
    load (.cell name indices) = some value →
    memory (.cell name (declared.address indices)) = value

end

section

variable {Value : Type} {meaning : Interpretation Value} {low high : Nat}
  {memory middle final : Place → Value}

theorem Keeps.refl : Keeps low memory memory :=
  ⟨fun _ _ => rfl, fun _ _ => rfl⟩

theorem Keeps.trans (front : Keeps low memory middle) (back : Keeps low middle final) :
    Keeps low memory final where
  cell name indices := (back.cell name indices).trans (front.cell name indices)
  temp number bound := (back.temp number bound).trans (front.temp number bound)

theorem Keeps.lower (kept : Keeps high memory final) (ordered : low ≤ high) :
    Keeps low memory final where
  cell := kept.cell
  temp number bound := kept.temp number (Nat.le_trans bound ordered)

theorem keeps_fresh {value : Value} :
    Keeps low memory (Function.update memory (.temp (low + 1)) value) where
  cell name indices := Function.update_of_ne (by simp) _ _
  temp number bound := Function.update_of_ne (by simp; omega) _ _

theorem Mirrors.keep {typeOf? : String → Option DeclaredType} {load : Place → Option Value}
    (mirrors : Mirrors typeOf? load memory) (kept : Keeps low memory final) :
    Mirrors typeOf? load final := by
  intro name declared indices value typed loaded
  rw [kept.cell]
  exact mirrors name declared indices value typed loaded

variable {expr left right : Expr} {value leftValue rightValue : Value}

theorem Settled.now (settled : Settled meaning low memory expr value) :
    expr.eval meaning (loadFrom id memory) = some value :=
  settled memory .refl

/-- A settled expression stays so while the code after it is gone through. -/
theorem Settled.later (settled : Settled meaning low memory expr value)
    (kept : Keeps low memory final) (ordered : low ≤ high) :
    Settled meaning high final expr value :=
  fun later after => settled later (kept.trans (after.lower ordered))

theorem Settled.binary (note : Note) (op : BinaryOp)
    (first : Settled meaning low memory left leftValue)
    (second : Settled meaning low memory right rightValue) :
    Settled meaning low memory (.binary note op left right)
      (meaning.binary op leftValue rightValue) := by
  intro later kept
  simp [Expr.eval, first later kept, second later kept]

theorem Settled.int {note : Note} {number : Int} :
    Settled meaning low memory (.int note number) (meaning.int number) :=
  fun _ _ => rfl

variable {before after : NameSupply} {code : List Instr} {result : Expr} {single : Bool}

theorem Computes.nothing (settled : Settled meaning before.temps memory expr value) :
    Computes meaning before [] expr before memory value :=
  ⟨memory, .nil, .refl, settled⟩

/-- One part is computed after another. -/
theorem Computes.bind {names : NameSupply} {rest : List Instr} {last : Expr} {lastValue : Value}
    (front : Computes meaning before code result names memory value)
    (ordered : before.temps ≤ names.temps)
    (back : ∀ middle, Keeps before.temps memory middle →
      Settled meaning names.temps middle result value →
      Computes meaning names rest last after middle lastValue) :
    Computes meaning before (code ++ rest) last after memory lastValue := by
  obtain ⟨middle, passes, keeps, settled⟩ := front
  obtain ⟨final, morePasses, moreKeeps, finished⟩ := back middle keeps settled
  exact ⟨final, passes.append morePasses, keeps.trans (moreKeeps.lower ordered), finished⟩

theorem materialize_computes (settled : Settled meaning before.temps memory expr value)
    (given : expr.materialize.Gives before (code, result) after) :
    Computes meaning before code result after memory value := by
  obtain ⟨rfl, rfl, rfl⟩ := Expr.materialize_gives.mp given
  refine ⟨Function.update memory (.temp (before.temps + 1)) value, .assign ?_, keeps_fresh, ?_⟩
  · simp [Machine.assign, Expr.place?, settled.now]
  · intro later kept
    have same := kept.temp (before.temps + 1) (Nat.le_refl _)
    simp [Expr.eval, loadFrom, same]

theorem settle_computes (settled : Settled meaning before.temps memory expr value)
    (given : (Expr.settle single expr).Gives before (code, result) after) :
    Computes meaning before code result after memory value := by
  have cases := Expr.settle_gives.mp given
  split at cases
  · exact materialize_computes settled cases
  · obtain ⟨rfl, rfl, rfl⟩ := cases
    exact .nothing settled

/-- The term of an index is the index times the elements that one step of it skips. -/
theorem addressTerm_computes {declared : DeclaredType} {name : String} {line dimension : Nat}
    {index : Expr} {number : Int} (settled : Settled meaning before.temps memory index
      (meaning.int number))
    (given : (Expr.addressTerm declared name line dimension index).Gives before
      (code, result) after) :
    Computes meaning before code result after memory
      (meaning.int (number * (declared.dims.drop (dimension + 1)).prod)) := by
  obtain ⟨stride, exact, cases⟩ := Expr.addressTerm_gives.mp given
  rw [← DeclaredType.stride_eq_some exact]
  rcases cases with ⟨rfl, rfl, rfl, rfl⟩ | ⟨-, -, made⟩
  · simpa using Computes.nothing settled
  · refine materialize_computes ?_ made
    rw [← meaning.mul_int]
    exact settled.binary _ _ .int

end

section

variable {Value : Type} {meaning : Interpretation Value} {typeOf? : String → Option DeclaredType}
  {load : Place → Option Value}

@[simp] theorem DeclaredType.rowMajor_nil (sizes : List Nat) : rowMajor sizes [] = 0 := by
  cases sizes <;> rfl

/-- An index of a dimension goes before those of the dimensions after it. -/
theorem DeclaredType.rowMajor_drop (type : DeclaredType) (dimension : Nat) (index : Int)
    (indices : List Int) (inside : dimension < type.dims.length) :
    rowMajor (type.dims.drop dimension) (index :: indices) =
      index * (type.dims.drop (dimension + 1)).prod +
        rowMajor (type.dims.drop (dimension + 1)) indices := by
  rw [List.drop_eq_getElem_cons inside, rowMajor]

/-- The indices of an access have values if the access has one. -/
theorem Expr.eval_loc {note : Note} {id : Ident} {indices : List Expr} {value : Value}
    (evaluated : (Expr.loc note id indices).eval meaning load = some value) :
    ∃ numbers, evalIndices meaning load indices = some numbers ∧
      load (.cell id.name numbers) = some value := by
  simpa [Expr.eval, Option.bind_eq_some_iff] using evaluated

theorem Expr.evalIndices_cons {index : Expr} {rest : List Expr} {numbers : List Int}
    (evaluated : evalIndices meaning load (index :: rest) = some numbers) :
    ∃ number more, index.eval meaning load = some (meaning.int number) ∧
      evalIndices meaning load rest = some more ∧ numbers = number :: more := by
  simp only [evalIndices, Option.bind_eq_bind, Option.bind_eq_some_iff] at evaluated
  obtain ⟨value, indexValue, number, isInt, more, restValues, same⟩ := evaluated
  rw [meaning.asInt_eq_some_iff.mp isInt] at indexValue
  exact ⟨number, more, indexValue, restValues, (Option.some.inj same).symm⟩

/-- A settled offset is all that is left of the indices of an element. -/
theorem evalIndices_offset {first offset : Expr} {rest : List Expr} {declared : DeclaredType}
    {numbers : List Int} {low : Nat} {memory : Place → Value}
    (evaluated : Expr.evalIndices meaning load (first :: rest) = some numbers)
    (settled : Settled meaning low memory offset
      (meaning.int (DeclaredType.rowMajor declared.dims numbers * declared.basic.width))) :
    Expr.evalIndices meaning (loadFrom id memory) [offset] = some (declared.address numbers) := by
  obtain ⟨number, more, -, -, rfl⟩ := Expr.evalIndices_cons evaluated
  simp [Expr.evalIndices, settled.now, DeclaredType.address]

mutual

theorem reduce_computes (expr : Expr) {single : Bool} {result : Expr} {code : List Instr}
    {before after : NameSupply} {memory : Place → Value} {value : Value}
    (resolved : expr.Resolved typeOf?) (mirrors : Mirrors typeOf? load memory)
    (evaluated : expr.eval meaning load = some value)
    (given : (expr.reduce typeOf? single).Gives before (code, result) after) :
    Computes meaning before code result after memory value := by
  match expr with
  | .binary note op left right =>
      obtain ⟨_, _, _, _, _, _, _, leftGiven, rightGiven, settled, rfl⟩ :=
        Expr.reduce_binary_gives.mp given
      simp only [Expr.eval, Option.bind_eq_bind, Option.bind_eq_some_iff] at evaluated
      obtain ⟨leftValue, leftEvaluated, rightValue, rightEvaluated, same⟩ := evaluated
      cases same
      have leftTakes := Expr.reduce_takes left leftGiven
      have rightTakes := Expr.reduce_takes right rightGiven
      rw [List.append_assoc]
      refine (reduce_computes left resolved.1 mirrors leftEvaluated leftGiven).bind
        leftTakes.temps_le fun first keeps leftSettled => ?_
      refine (reduce_computes right resolved.2 (mirrors.keep keeps) rightEvaluated rightGiven).bind
        rightTakes.temps_le fun second keeps rightSettled => ?_
      exact settle_computes
        ((leftSettled.later keeps rightTakes.temps_le).binary note op rightSettled) settled
  | .unary note op operand =>
      obtain ⟨reduced, operandGiven, rfl⟩ := Expr.reduce_unary_gives.mp given
      simp only [Expr.eval, Option.bind_eq_bind, Option.bind_eq_some_iff] at evaluated
      obtain ⟨operandValue, operandEvaluated, same⟩ := evaluated
      cases same
      obtain ⟨final, passes, keeps, settled⟩ :=
        reduce_computes operand resolved mirrors operandEvaluated operandGiven
      refine ⟨final, passes, keeps, ?_⟩
      intro later kept
      simp [Expr.eval, settled later kept]
  | .paren note inner =>
      obtain ⟨reduced, innerGiven, rfl⟩ := Expr.reduce_paren_gives.mp given
      obtain ⟨final, passes, keeps, settled⟩ :=
        reduce_computes inner resolved mirrors evaluated innerGiven
      refine ⟨final, passes, keeps, ?_⟩
      intro later kept
      split
      · exact settled later kept
      · exact settled later kept
  | .loc note id [] =>
      obtain ⟨⟨declared, typed, -⟩, -⟩ := resolved
      obtain ⟨numbers, none, loaded⟩ := Expr.eval_loc evaluated
      cases none
      have stored : memory (.cell id.name []) = value :=
        mirrors id.name declared [] value typed loaded
      rw [Expr.reduce, gives_pure] at given
      obtain ⟨same, rfl⟩ := given
      cases same
      refine .nothing ?_
      intro later kept
      simp [Expr.eval, Expr.evalIndices, loadFrom, kept.cell, stored]
  | .loc note id (first :: rest) =>
      obtain ⟨⟨declared, typed, full⟩, allResolved⟩ := resolved
      obtain ⟨numbers, indexValues, loaded⟩ := Expr.eval_loc evaluated
      have stored := mirrors id.name declared numbers value typed loaded
      obtain ⟨_, offsetCode, offset, afterOffset, lastCode, found, steps, settled, rfl⟩ :=
        Expr.reduce_access_gives.mp given
      cases typed.symm.trans found
      refine (offset_computes (first :: rest) full allResolved mirrors indexValues steps).bind
        (Expr.offset_takes _ steps).temps_le fun middle keeps offsetSettled => ?_
      -- What is used is an element at a settled offset: it is loaded only when it is used.
      refine settle_computes ?_ settled
      intro later kept
      have place := evalIndices_offset indexValues (offsetSettled.later kept (Nat.le_refl _))
      simp [Expr.eval, place, loadFrom, kept.cell, keeps.cell, stored]
  | .int note number | .real note number | .bool note number =>
      rw [Expr.reduce, gives_pure] at given
      obtain ⟨same, rfl⟩ := given
      cases same
      cases evaluated
      exact .nothing fun _ _ => rfl
  | .temp note number => exact resolved.elim

theorem offset_computes (indices : List Expr) {declared : DeclaredType}
    {name : String} {line : Nat} {code : List Instr} {offset : Expr} {before after : NameSupply}
    {memory : Place → Value} {numbers : List Int} (full : indices.length = declared.depth)
    (resolved : Expr.AllResolved typeOf? indices) (mirrors : Mirrors typeOf? load memory)
    (evaluated : Expr.evalIndices meaning load indices = some numbers)
    (steps : Expr.Offset typeOf? declared name line indices before code offset after) :
    Computes meaning before code offset after memory
      (meaning.int (DeclaredType.rowMajor declared.dims numbers * declared.basic.width)) := by
  match indices with
  | [] =>
      obtain ⟨_, _, _, _, _, _, _, _, _, _, _, _, same, -⟩ := steps
      contradiction
  | first :: rest =>
      obtain ⟨_, _, _, _, _, _, _, _, _, _, _, _, same, firstGiven, termGiven, sumGiven,
        offsetGiven, rfl⟩ := steps
      cases same
      obtain ⟨number, more, firstValue, restValues, rfl⟩ := Expr.evalIndices_cons evaluated
      have firstTakes := Expr.reduce_takes first firstGiven
      have termTakes := Expr.addressTerm_takes termGiven
      have sumTakes := Expr.addTerms_takes rest sumGiven
      simp only [DeclaredType.depth, List.length_cons] at full
      have whole := declared.rowMajor_drop 0 number more (by omega)
      rw [List.drop_zero] at whole
      rw [whole, ← meaning.mul_int, List.append_assoc, List.append_assoc]
      refine (reduce_computes first resolved.1 mirrors firstValue firstGiven).bind
        firstTakes.temps_le fun second keeps firstSettled => ?_
      refine (addressTerm_computes firstSettled termGiven).bind
        termTakes.temps_le fun third moreKeeps termSettled => ?_
      have stillMirrors := (mirrors.keep keeps).keep moreKeeps
      have restFull : 1 + rest.length = declared.depth := by
        simp only [DeclaredType.depth]
        omega
      refine (addTerms_computes rest restFull resolved.2 stillMirrors termSettled restValues
        sumGiven).bind sumTakes.temps_le fun fourth _ sumSettled => ?_
      exact materialize_computes (sumSettled.binary _ _ .int) offsetGiven

theorem addTerms_computes (indices : List Expr) {declared : DeclaredType} {name : String}
    {line dimension : Nat} {sum result : Expr} {code : List Instr} {before after : NameSupply}
    {memory : Place → Value} {total : Int} {numbers : List Int}
    (full : dimension + indices.length = declared.depth)
    (resolved : Expr.AllResolved typeOf? indices) (mirrors : Mirrors typeOf? load memory)
    (settled : Settled meaning before.temps memory sum (meaning.int total))
    (evaluated : Expr.evalIndices meaning load indices = some numbers)
    (given : (Expr.addTerms typeOf? declared name line dimension sum indices).Gives before
      (code, result) after) :
    Computes meaning before code result after memory
      (meaning.int (total + DeclaredType.rowMajor (declared.dims.drop dimension) numbers)) := by
  match indices with
  | [] =>
      obtain ⟨rfl, rfl, rfl⟩ := Expr.addTerms_nil_gives.mp given
      cases evaluated
      simpa using Computes.nothing settled
  | index :: rest =>
      obtain ⟨_, _, _, _, _, _, _, _, _, _, indexGiven, termGiven, sumGiven, restGiven, rfl⟩ :=
        Expr.addTerms_cons_gives.mp given
      obtain ⟨number, more, indexValue, restValues, rfl⟩ := Expr.evalIndices_cons evaluated
      have indexTakes := Expr.reduce_takes index indexGiven
      have termTakes := Expr.addressTerm_takes termGiven
      have sumTakes := Expr.materialize_takes sumGiven
      simp only [DeclaredType.depth, List.length_cons] at full
      rw [declared.rowMajor_drop dimension number more (by omega), ← Int.add_assoc]
      rw [List.append_assoc, List.append_assoc]
      refine (reduce_computes index resolved.1 mirrors indexValue indexGiven).bind
        indexTakes.temps_le fun second keeps indexSettled => ?_
      refine (addressTerm_computes indexSettled termGiven).bind
        termTakes.temps_le fun third moreKeeps termSettled => ?_
      -- The sum so far is below the temporaries of this index, so it is settled still.
      have stillSettled := (settled.later keeps indexTakes.temps_le).later moreKeeps
        termTakes.temps_le
      have added := stillSettled.binary (Expr.addressNote line) .add termSettled
      rw [meaning.add_int] at added
      refine (materialize_computes added sumGiven).bind
        sumTakes.temps_le fun fourth lastKeeps sumSettled => ?_
      have stillMirrors := ((mirrors.keep keeps).keep moreKeeps).keep lastKeeps
      exact addTerms_computes rest (by simp only [DeclaredType.depth]; omega) resolved.2
        stillMirrors sumSettled restValues restGiven

end

/-- The code of a target ends with a location that means the cell it is to write. -/
theorem reduce_aims {target result : Expr} {code : List Instr} {before after : NameSupply}
    {memory : Place → Value} {place : Place} (location : target.isLocation = true)
    (resolved : target.Resolved typeOf?) (mirrors : Mirrors typeOf? load memory)
    (aimed : target.place? meaning load = some place)
    (given : (target.reduce typeOf? false).Gives before (code, result) after) :
    ∃ name numbers declared final, place = .cell name numbers ∧ typeOf? name = some declared ∧
      Passes meaning id code memory final ∧ Keeps before.temps memory final ∧
      ∀ later, Keeps after.temps final later → result.place? meaning (loadFrom id later) =
        some (.cell name (declared.address numbers)) := by
  match target, location with
  | .loc note id indices, _ =>
      obtain ⟨⟨declared, typed, full⟩, allResolved⟩ := resolved
      obtain ⟨numbers, evaluated, rfl⟩ := Option.map_eq_some_iff.mp aimed
      refine ⟨id.name, numbers, declared, ?_⟩
      match indices with
      | [] =>
          cases evaluated
          rw [Expr.reduce, gives_pure] at given
          obtain ⟨same, rfl⟩ := given
          cases same
          exact ⟨memory, rfl, typed, .nil, .refl, fun _ _ => rfl⟩
      | first :: rest =>
          obtain ⟨_, _, _, _, _, found, steps, settled, rfl⟩ := Expr.reduce_access_gives.mp given
          obtain ⟨rfl, rfl, rfl⟩ := Expr.settle_gives.mp settled
          cases typed.symm.trans found
          obtain ⟨final, passes, keeps, offsetSettled⟩ :=
            offset_computes _ full allResolved mirrors evaluated steps
          refine ⟨final, rfl, typed, by simpa using passes, keeps, ?_⟩
          intro later kept
          have place := evalIndices_offset evaluated (offsetSettled.later kept (Nat.le_refl _))
          simp [Expr.place?, place]

/-- The code of an assignment writes the value to the place of the target, and nothing else
but temporaries. -/
theorem assign_passes {scopes : Scopes} {scope line : Nat} {exit? : Option Label}
    {target value : Expr} {inLoop : Bool} {segment : List Instr} {before after : NameSupply}
    {memory : Place → Value} {place : Place} {result : Value}
    (resolved : (Stmt.assign target value line).Resolved scopes inLoop scope)
    (given : ((Stmt.assign target value line).lower scopes scope exit?).Gives before segment after)
    (mirrors : Mirrors (scopes.typeOf? scope) load memory)
    (aimed : target.place? meaning load = some place)
    (evaluated : value.eval meaning load = some result) :
    ∃ name numbers declared low final, place = .cell name numbers ∧
      scopes.typeOf? scope name = some declared ∧ Keeps low memory final ∧
      Passes meaning id segment memory
        (Function.update final (.cell name (declared.address numbers)) result) := by
  obtain ⟨location, targetResolved, valueResolved⟩ := resolved
  obtain ⟨targetCode, targetResult, afterTarget, valueCode, valueResult, targetGiven, valueGiven,
    rfl⟩ := Stmt.lower_assign_gives.mp given
  obtain ⟨name, numbers, declared, middle, same, typed, targetPasses, targetKeeps, lastPlace⟩ :=
    reduce_aims location targetResolved mirrors aimed targetGiven
  obtain ⟨final, valuePasses, valueKeeps, settled⟩ :=
    reduce_computes value valueResolved (mirrors.keep targetKeeps) evaluated valueGiven
  have ordered := (Expr.reduce_takes target targetGiven).temps_le
  have assigned : assign meaning id targetResult valueResult final =
      some (Function.update final (.cell name (declared.address numbers)) result) := by
    simp [assign, lastPlace final valueKeeps, settled.now]
  exact ⟨name, numbers, declared, before.temps, final, same, typed,
    targetKeeps.trans (valueKeeps.lower ordered),
    (targetPasses.append valuePasses).append (.assign assigned)⟩

end

end ThreeAddress

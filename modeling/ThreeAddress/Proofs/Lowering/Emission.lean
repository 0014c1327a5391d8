import ThreeAddress.Proofs.Lowering.Steps

namespace ThreeAddress

open Lowering

variable {N : Type} [Counter N]

/-- A property of code, with the supply of names before and after it, that the instructions
which fill a fresh temporary have, and that carries over to code put together. -/
structure Emission (holds : Names N → List Instr → Names N → Prop) : Prop where
  nothing : ∀ names, holds names [] names
  temp : ∀ names note value, holds names [.assign (.temp note names.nextTemp) value]
    names.afterTemp
  append : ∀ {before middle after code rest}, holds before code middle → holds middle rest after →
    holds before (code ++ rest) after

namespace Emission

variable {holds : Names N → List Instr → Names N → Prop}
  {typeOf? : String → Option DeclaredType} {single : Bool} {expr result : Expr}
  {code : List Instr} {before after : Names N}

theorem materialize (emission : Emission holds)
    (given : expr.materialize.Gives before (code, result) after) : holds before code after := by
  obtain ⟨rfl, -, rfl⟩ := Expr.materialize_gives.mp given
  exact emission.temp before expr.note expr

theorem settle (emission : Emission holds)
    (given : (expr.settle single).Gives before (code, result) after) :
    holds before code after := by
  have cases := Expr.settle_gives.mp given
  split at cases
  · exact emission.materialize cases
  · obtain ⟨rfl, -, rfl⟩ := cases
    exact emission.nothing _

theorem addressTerm (emission : Emission holds) {declared : DeclaredType} {name : String}
    {line dimension : Nat} (given : (expr.addressTerm declared name line dimension).Gives before
      (code, result) after) : holds before code after := by
  obtain ⟨stride, -, ⟨-, rfl, -, rfl⟩ | ⟨-, -, made⟩⟩ := Expr.addressTerm_gives.mp given
  · exact emission.nothing _
  · exact emission.materialize made

mutual

theorem reduce (emission : Emission holds) (expr : Expr) {single : Bool} {result : Expr}
    {code : List Instr} {before after : Names N}
    (given : (expr.reduce typeOf? single).Gives before (code, result) after) :
    holds before code after := by
  match expr with
  | .binary note op left right =>
      obtain ⟨_, _, _, _, _, _, _, leftGiven, rightGiven, settled, rfl⟩ :=
        Expr.reduce_binary_gives.mp given
      exact emission.append
        (emission.append (emission.reduce left leftGiven) (emission.reduce right rightGiven))
        (emission.settle settled)
  | .unary note op operand =>
      obtain ⟨_, operandGiven, -⟩ := Expr.reduce_unary_gives.mp given
      exact emission.reduce operand operandGiven
  | .paren note inner =>
      obtain ⟨_, innerGiven, -⟩ := Expr.reduce_paren_gives.mp given
      exact emission.reduce inner innerGiven
  | .loc note id (first :: rest) =>
      obtain ⟨_, _, _, _, _, -, steps, settled, rfl⟩ := Expr.reduce_access_gives.mp given
      exact emission.append (emission.offset (first :: rest) steps) (emission.settle settled)
  | .loc note id [] | .int note value | .real note value | .bool note value
  | .temp note number =>
      rw [Expr.reduce, gives_pure] at given
      obtain ⟨same, rfl⟩ := given
      cases same
      exact emission.nothing _

theorem offset (emission : Emission holds) (indices : List Expr) {declared : DeclaredType}
    {name : String} {line : Nat} {code : List Instr} {offset : Expr} {before after : Names N}
    (steps : Expr.Offset typeOf? declared name line indices before code offset after) :
    holds before code after := by
  match indices with
  | [] =>
      obtain ⟨_, _, _, _, _, _, _, _, _, _, _, _, same, -⟩ := steps
      contradiction
  | first :: rest =>
      obtain ⟨_, _, _, _, _, _, _, _, _, _, _, _, same, firstGiven, termGiven, sumGiven,
        offsetGiven, rfl⟩ := steps
      cases same
      have terms := emission.append
        (emission.append (emission.reduce first firstGiven) (emission.addressTerm termGiven))
        (emission.addTerms rest sumGiven)
      exact emission.append terms (emission.materialize offsetGiven)

theorem addTerms (emission : Emission holds) (indices : List Expr) {declared : DeclaredType}
    {name : String} {line dimension : Nat} {sum result : Expr} {code : List Instr}
    {before after : Names N}
    (given : (Expr.addTerms typeOf? declared name line dimension sum indices).Gives before
      (code, result) after) : holds before code after := by
  match indices with
  | [] =>
      obtain ⟨rfl, -, rfl⟩ := Expr.addTerms_nil_gives.mp given
      exact emission.nothing _
  | index :: rest =>
      obtain ⟨_, _, _, _, _, _, _, _, _, _, indexGiven, termGiven, sumGiven, restGiven, rfl⟩ :=
        Expr.addTerms_cons_gives.mp given
      have first := emission.append (emission.reduce index indexGiven)
        (emission.addressTerm termGiven)
      exact emission.append (emission.append first (emission.materialize sumGiven))
        (emission.addTerms rest restGiven)

end

end Emission

end ThreeAddress

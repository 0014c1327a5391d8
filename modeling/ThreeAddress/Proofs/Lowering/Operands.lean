import ThreeAddress.Proofs.Lowering.FlatShape
import ThreeAddress.Proofs.Lowering.Total
import ThreeAddress.Proofs.Typing.Resolved

namespace ThreeAddress

/-!
# Operands of lowered code

Where one operand is asked for, lowering gives an atom unless a sign stands in front: the sign is
kept, and only what is below it is put into a temporary. So the operands, the indices and the
stored values of the code are atoms if and only if no sign stands in front of one of them in the
text.
-/

open Lowering Machine

namespace Expr

/-- Operands and indices of the node are atoms. -/
def HasAtomicParts : Expr → Prop
  | .binary _ _ left right => left.IsAtom ∧ right.IsAtom
  | .loc _ _ indices => ∀ index ∈ indices, index.IsAtom
  | .unary _ _ _ | .paren _ _ | .int _ _ | .real _ _ | .bool _ _ | .temp _ _ => True

/-- No sign stands in front of an operand or an index of the node. -/
def HasUnsignedParts : Expr → Prop
  | .binary _ _ left right => left.isSigned = false ∧ right.isSigned = false
  | .loc _ _ indices => ∀ index ∈ indices, index.isSigned = false
  | .unary _ _ _ | .paren _ _ | .int _ _ | .real _ _ | .bool _ _ | .temp _ _ => True

def AtomicThroughout (expr : Expr) : Prop :=
  ∀ node ∈ expr.nodes, node.HasAtomicParts

def UnsignedThroughout (expr : Expr) : Prop :=
  ∀ node ∈ expr.nodes, node.HasUnsignedParts

/-- No sign stands in front of the expression or of a part of it. -/
def IsPlain (expr : Expr) : Prop :=
  expr.isSigned = false ∧ expr.UnsignedThroughout

end Expr

namespace Instr

/-- What is put into an element of an array is an atom. -/
def StoresAtom : Instr → Prop
  | .assign target value => target.isAccess = true → value.IsAtom
  | .label _ | .goto _ | .ifTrue _ _ | .ifFalse _ _ => True

/-- Operands, indices and stored values of the instruction are atoms. -/
structure TakesAtoms (instr : Instr) : Prop where
  operands : ∀ expr ∈ instr.exprs, expr.AtomicThroughout
  stored : instr.StoresAtom

end Instr

/-- What is put into an element of an array has no sign in front. -/
def StoresUnsigned : List Expr → Prop
  | [target, value] => target.isAccess = true → value.isSigned = false
  | _ => True

/-- No sign stands in front of an operand, an index or a stored value of these expressions. -/
structure SignsApart (exprs : List Expr) : Prop where
  operands : ∀ expr ∈ exprs, expr.UnsignedThroughout
  stored : StoresUnsigned exprs

instance : DecidablePred Expr.HasUnsignedParts
  | .binary _ _ left right =>
      inferInstanceAs (Decidable (left.isSigned = false ∧ right.isSigned = false))
  | .loc _ _ indices => inferInstanceAs (Decidable (∀ index ∈ indices, index.isSigned = false))
  | .unary _ _ _ | .paren _ _ | .int _ _ | .real _ _ | .bool _ _ | .temp _ _ => .isTrue trivial

instance : DecidablePred StoresUnsigned
  | [target, value] => inferInstanceAs (Decidable (target.isAccess = true → value.isSigned = false))
  | [] | [_] | _ :: _ :: _ :: _ => .isTrue trivial

instance (exprs : List Expr) : Decidable (SignsApart exprs) :=
  decidable_of_iff ((∀ expr ∈ exprs, ∀ node ∈ expr.nodes, node.HasUnsignedParts) ∧
    StoresUnsigned exprs) ⟨fun ⟨operands, stored⟩ => ⟨operands, stored⟩,
    fun apart => ⟨apart.operands, apart.stored⟩⟩

namespace Expr

variable {typeOf? : String → Option DeclaredType} {expr left right operand index result : Expr}
  {note : Note} {code : List Instr} {before after : NameSupply}

theorem IsAtom.atomicThroughout (atom : expr.IsAtom) : expr.AtomicThroughout := by
  rw [AtomicThroughout, atom.nodes_eq, List.forall_mem_singleton]
  cases atom with
  | «variable» => exact List.forall_mem_nil _
  | _ => trivial

theorem IsAtom.unsignedThroughout (atom : expr.IsAtom) : expr.UnsignedThroughout := by
  rw [UnsignedThroughout, atom.nodes_eq, List.forall_mem_singleton]
  cases atom with
  | «variable» => exact List.forall_mem_nil _
  | _ => trivial

theorem atomicThroughout_binary {op : BinaryOp} :
    (Expr.binary note op left right).AtomicThroughout ↔ left.IsAtom ∧ right.IsAtom := by
  rw [AtomicThroughout, nodes, List.forall_mem_cons, List.forall_mem_append]
  exact ⟨And.left, fun atoms => ⟨atoms, atoms.1.atomicThroughout, atoms.2.atomicThroughout⟩⟩

theorem atomicThroughout_unary {op : UnaryOp} :
    (Expr.unary note op operand).AtomicThroughout ↔ operand.AtomicThroughout := by
  rw [AtomicThroughout, nodes, List.forall_mem_cons]
  exact and_iff_right trivial

theorem atomicThroughout_paren :
    (Expr.paren note operand).AtomicThroughout ↔ operand.AtomicThroughout := by
  rw [AtomicThroughout, nodes, List.forall_mem_cons]
  exact and_iff_right trivial

theorem atomicThroughout_element {id : Ident} {offset : Note} {number : Nat} :
    (Expr.loc note id [.temp offset number]).AtomicThroughout :=
  List.forall_mem_cons.mpr
    ⟨List.forall_mem_singleton.mpr .temp, List.forall_mem_singleton.mpr trivial⟩

theorem unsignedThroughout_binary {op : BinaryOp} :
    (Expr.binary note op left right).UnsignedThroughout ↔ left.IsPlain ∧ right.IsPlain := by
  rw [UnsignedThroughout, nodes, List.forall_mem_cons, List.forall_mem_append]
  exact and_and_and_comm

theorem unsignedThroughout_unary {op : UnaryOp} :
    (Expr.unary note op operand).UnsignedThroughout ↔ operand.UnsignedThroughout := by
  rw [UnsignedThroughout, nodes, List.forall_mem_cons]
  exact and_iff_right trivial

theorem unsignedThroughout_paren :
    (Expr.paren note operand).UnsignedThroughout ↔ operand.UnsignedThroughout := by
  rw [UnsignedThroughout, nodes, List.forall_mem_cons]
  exact and_iff_right trivial

theorem forall_mem_indicesNodes {good : Expr → Prop} {indices : List Expr} :
    (∀ node ∈ indicesNodes indices, good node) ↔
      ∀ index ∈ indices, ∀ node ∈ index.nodes, good node := by
  induction indices with
  | nil => simp [indicesNodes]
  | cons index rest ih =>
      rw [indicesNodes, List.forall_mem_append, List.forall_mem_cons, ih]

theorem unsignedThroughout_loc {id : Ident} {indices : List Expr} :
    (Expr.loc note id indices).UnsignedThroughout ↔ ∀ index ∈ indices, index.IsPlain := by
  rw [UnsignedThroughout, nodes, List.forall_mem_cons, forall_mem_indicesNodes]
  exact (forall₂_and).symm

theorem materialize_takesAtoms (given : expr.materialize.Gives before (code, result) after) :
    ((∀ instr ∈ code, instr.TakesAtoms) ↔ expr.AtomicThroughout) ∧ result.IsAtom := by
  obtain ⟨rfl, rfl, -⟩ := materialize_gives.mp given
  refine ⟨List.forall_mem_singleton.trans ?_, .temp⟩
  have temp : (Expr.temp expr.note (before.temps + 1)).AtomicThroughout :=
    IsAtom.temp.atomicThroughout
  constructor
  · rintro ⟨operands, -⟩
    exact operands expr (List.mem_cons_of_mem _ List.mem_cons_self)
  · intro atomic
    exact ⟨List.forall_mem_cons.mpr ⟨temp, List.forall_mem_singleton.mpr atomic⟩, nofun⟩

theorem settle_takesAtoms {single : Bool}
    (given : (settle single expr).Gives before (code, result) after) :
    (∀ instr ∈ code, instr.TakesAtoms) ∧ result.AtomicThroughout ↔ expr.AtomicThroughout := by
  have settled := settle_gives.mp given
  cases single with
  | true =>
      obtain ⟨made, atom⟩ := materialize_takesAtoms settled
      rw [made]
      exact and_iff_left atom.atomicThroughout
  | false =>
      obtain ⟨rfl, rfl, -⟩ := settled
      exact and_iff_right nofun

theorem addressTerm_takesAtoms {declared : DeclaredType} {name : String} {line dimension : Nat}
    (given : (addressTerm declared name line dimension index).Gives before (code, result) after) :
    (∀ instr ∈ code, instr.TakesAtoms) ∧ result.IsAtom ↔ index.IsAtom := by
  obtain ⟨stride, -, ⟨-, rfl, rfl, -⟩ | ⟨-, -, made⟩⟩ := addressTerm_gives.mp given
  · exact and_iff_right nofun
  · obtain ⟨product, atom⟩ := materialize_takesAtoms made
    rw [product, atomicThroughout_binary, and_iff_left atom]
    exact and_iff_left .int

/-- An operand is an atom if the expression has no sign in front. -/
theorem operand_takesAtoms (given : (expr.reduce typeOf? true).Gives before (code, result) after)
    (whole : (∀ instr ∈ code, instr.TakesAtoms) ∧ result.AtomicThroughout ↔
      expr.UnsignedThroughout) :
    (∀ instr ∈ code, instr.TakesAtoms) ∧ result.IsAtom ↔ expr.IsPlain := by
  obtain ⟨single, sign⟩ := reduce_isSingle expr given
  have atom : result.IsAtom ↔ expr.isSigned = false := by rw [single.isAtom_iff, sign]
  rw [IsPlain, ← atom, ← whole]
  exact ⟨fun ⟨codeAtoms, atom⟩ => ⟨atom, codeAtoms, atom.atomicThroughout⟩,
    fun ⟨atom, codeAtoms, _⟩ => ⟨codeAtoms, atom⟩⟩

mutual

/-- The code of an expression and what is used after it take atoms just if no part of it has a sign
in front. -/
theorem reduce_takesAtoms (expr : Expr) {typeOf? : String → Option DeclaredType} {single : Bool}
    {code : List Instr} {result : Expr} {before after : NameSupply}
    (given : (expr.reduce typeOf? single).Gives before (code, result) after) :
    (∀ instr ∈ code, instr.TakesAtoms) ∧ result.AtomicThroughout ↔ expr.UnsignedThroughout := by
  match expr with
  | .binary note op left right =>
      obtain ⟨_, _, _, _, _, _, _, leftGiven, rightGiven, settled, rfl⟩ :=
        reduce_binary_gives.mp given
      have first := operand_takesAtoms leftGiven (reduce_takesAtoms left leftGiven)
      have second := operand_takesAtoms rightGiven (reduce_takesAtoms right rightGiven)
      have last := settle_takesAtoms settled
      rw [unsignedThroughout_binary, ← first, ← second, List.forall_mem_append,
        List.forall_mem_append, and_assoc, last, atomicThroughout_binary]
      exact and_and_and_comm
  | .unary note op operand =>
      obtain ⟨reduced, operandGiven, rfl⟩ := reduce_unary_gives.mp given
      rw [atomicThroughout_unary, unsignedThroughout_unary]
      exact reduce_takesAtoms operand operandGiven
  | .paren note inner =>
      obtain ⟨reduced, innerGiven, rfl⟩ := reduce_paren_gives.mp given
      have inside := reduce_takesAtoms inner innerGiven
      rw [unsignedThroughout_paren]
      split
      · rwa [atomicThroughout_paren]
      · exact inside
  | .loc note id (first :: rest) =>
      obtain ⟨_, _, _, _, _, -, steps, settled, rfl⟩ := reduce_access_gives.mp given
      obtain ⟨offset, _, _, rfl⟩ := offset_takesAtoms (first :: rest) steps
      have last := settle_takesAtoms settled
      rw [List.forall_mem_append, and_assoc, last, offset, unsignedThroughout_loc]
      exact and_iff_left atomicThroughout_element
  | .loc _ _ [] | .int _ _ | .real _ _ | .bool _ _ | .temp _ _ =>
      obtain ⟨rfl, rfl, -⟩ := (reduce_atom_gives (by constructor)).mp given
      exact iff_of_true ⟨nofun, IsAtom.atomicThroughout (by constructor)⟩
        (IsAtom.unsignedThroughout (by constructor))

theorem offset_takesAtoms (indices : List Expr) {typeOf? : String → Option DeclaredType}
    {declared : DeclaredType} {name : String} {line : Nat} {code : List Instr} {offset : Expr}
    {before after : NameSupply}
    (steps : Offset typeOf? declared name line indices before code offset after) :
    ((∀ instr ∈ code, instr.TakesAtoms) ↔ ∀ index ∈ indices, index.IsPlain) ∧
      ∃ note number, offset = .temp note number := by
  match indices with
  | [] =>
      obtain ⟨_, _, _, _, _, _, _, _, _, _, _, _, same, -⟩ := steps
      contradiction
  | first :: rest =>
      obtain ⟨_, _, firstCode, firstResult, _, termCode, term, _, sumCode, sum, _, offsetCode, same,
        firstGiven, termGiven, sumGiven, offsetGiven, rfl⟩ := steps
      cases same
      have firstPlain := operand_takesAtoms firstGiven (reduce_takesAtoms first firstGiven)
      have termAtom := addressTerm_takesAtoms termGiven
      have sumAtom := addTerms_takesAtoms rest sumGiven
      obtain ⟨scaled, -⟩ := materialize_takesAtoms offsetGiven
      have lastAtom : (∀ instr ∈ offsetCode, instr.TakesAtoms) ↔ sum.IsAtom := by
        rw [scaled, atomicThroughout_binary]
        exact and_iff_left .int
      obtain ⟨-, isTemp, -⟩ := materialize_gives.mp offsetGiven
      refine ⟨?_, _, _, isTemp⟩
      rw [List.forall_mem_cons, ← firstPlain, ← termAtom]
      simp only [List.forall_mem_append, lastAtom, and_assoc, sumAtom]

theorem addTerms_takesAtoms (indices : List Expr) {typeOf? : String → Option DeclaredType}
    {declared : DeclaredType} {name : String} {line dimension : Nat} {code : List Instr}
    {sum result : Expr} {before after : NameSupply}
    (given : (addTerms typeOf? declared name line dimension sum indices).Gives before
      (code, result) after) :
    (∀ instr ∈ code, instr.TakesAtoms) ∧ result.IsAtom ↔
      sum.IsAtom ∧ ∀ index ∈ indices, index.IsPlain := by
  match indices with
  | [] =>
      obtain ⟨rfl, rfl, -⟩ := addTerms_nil_gives.mp given
      exact ⟨fun ⟨_, atom⟩ => ⟨atom, nofun⟩, fun ⟨atom, _⟩ => ⟨nofun, atom⟩⟩
  | index :: rest =>
      obtain ⟨indexCode, indexResult, _, termCode, term, _, sumCode, newSum, _, restCode,
        indexGiven, termGiven, sumGiven, restGiven, rfl⟩ := addTerms_cons_gives.mp given
      have indexPlain := operand_takesAtoms indexGiven (reduce_takesAtoms index indexGiven)
      have termAtom := addressTerm_takesAtoms termGiven
      obtain ⟨added, newAtom⟩ := materialize_takesAtoms sumGiven
      have totalAtom := addTerms_takesAtoms rest restGiven
      rw [atomicThroughout_binary] at added
      rw [List.forall_mem_cons, ← indexPlain, ← termAtom]
      simp only [List.forall_mem_append, and_assoc, totalAtom, added, newAtom, true_and]
      constructor
      · rintro ⟨indexAtoms, termAtoms, sum, term, others⟩
        exact ⟨sum, indexAtoms, termAtoms, term, others⟩
      · rintro ⟨sum, indexAtoms, termAtoms, term, others⟩
        exact ⟨indexAtoms, termAtoms, sum, term, others⟩

end

end Expr

theorem Instr.assign_takesAtoms {target value : Expr} : (Instr.assign target value).TakesAtoms ↔
    (target.AtomicThroughout ∧ value.AtomicThroughout) ∧
      (target.isAccess = true → value.IsAtom) := by
  constructor
  · rintro ⟨operands, stored⟩
    obtain ⟨targetAtoms, valueAtoms⟩ := List.forall_mem_cons.mp operands
    exact ⟨⟨targetAtoms, List.forall_mem_singleton.mp valueAtoms⟩, stored⟩
  · rintro ⟨⟨targetAtoms, valueAtoms⟩, stored⟩
    exact ⟨List.forall_mem_cons.mpr ⟨targetAtoms, List.forall_mem_singleton.mpr valueAtoms⟩, stored⟩

theorem Stmt.SiteCode.takesAtoms_iff {scopes : Scopes} {home : Nat} {exprs : List Expr}
    {code : List Instr} (made : SiteCode scopes home exprs code) :
    (∀ instr ∈ code, instr.TakesAtoms) ↔ SignsApart exprs := by
  have test {condition result : Expr} {testCode : List Instr} {jump : Instr}
      (reduced : (∀ instr ∈ testCode, instr.TakesAtoms) ∧ result.AtomicThroughout ↔
        condition.UnsignedThroughout) (exprs : jump.exprs = [result]) (stores : jump.StoresAtom) :
      (∀ instr ∈ testCode ++ [jump], instr.TakesAtoms) ↔ SignsApart [condition] := by
    have last : jump.TakesAtoms ↔ result.AtomicThroughout := by
      refine ⟨fun atoms => ?_, fun atomic => ⟨?_, stores⟩⟩
      · exact List.forall_mem_singleton.mp (exprs ▸ atoms.operands)
      · rwa [exprs, List.forall_mem_singleton]
    rw [List.forall_mem_append, List.forall_mem_singleton, last, reduced]
    exact ⟨fun unsigned => ⟨List.forall_mem_singleton.mpr unsigned, trivial⟩,
      fun apart => List.forall_mem_singleton.mp apart.operands⟩
  cases made with
  | @assign target value targetCode targetResult valueCode valueResult _ _ _ location targetGiven
      valueGiven =>
      have targetAtoms := Expr.reduce_takesAtoms target targetGiven
      have valueAtoms := Expr.reduce_takesAtoms value valueGiven
      have stored : (targetResult.isAccess = true → valueResult.IsAtom) ↔
          (target.isAccess = true → value.isSigned = false) := by
        rw [Expr.reduce_isAccess location targetGiven]
        refine forall_congr' fun access => ?_
        rw [access] at valueGiven
        obtain ⟨single, sign⟩ := Expr.reduce_isSingle value valueGiven
        rw [single.isAtom_iff, sign]
      have sides : SignsApart [target, value] ↔
          (target.UnsignedThroughout ∧ value.UnsignedThroughout) ∧
            (target.isAccess = true → value.isSigned = false) := by
        refine ⟨fun ⟨operands, apart⟩ => ⟨?_, apart⟩, fun ⟨operands, apart⟩ => ⟨?_, apart⟩⟩
        · simpa using operands
        · simpa using operands
      rw [sides, ← targetAtoms, ← valueAtoms, ← stored]
      rw [List.forall_mem_append, List.forall_mem_append, List.forall_mem_singleton,
        Instr.assign_takesAtoms, ← and_assoc, and_and_and_comm]
  | ifTrue label given => exact test (Expr.reduce_takesAtoms _ given) rfl trivial
  | ifFalse label given => exact test (Expr.reduce_takesAtoms _ given) rfl trivial

theorem Instr.takesAtoms_of_exprs_eq_nil (instr : Instr) (none : instr.exprs = []) :
    instr.TakesAtoms := by
  cases instr with
  | label | goto => exact ⟨nofun, trivial⟩
  | _ => cases none

/-- Where one operand is asked for, the expression gives one. This is an atom just if no sign stands
in front. -/
structure Expr.ReducesToOperand (typeOf? : String → Option DeclaredType) (expr : Expr) : Prop where
  total : StridesFit typeOf? → (expr.reduce typeOf? true).Total
  operand : ∀ (before : NameSupply) code result after,
    (expr.reduce typeOf? true).Gives before (code, result) after →
      result.IsSingle ∧ (result.IsAtom ↔ expr.isSigned = false)

/-- The expressions of an accepted program come to operands, and its code takes atoms just if no
sign stands in front of an operand, an index or a stored value. -/
theorem operands_atomic_iff {filename source : String} {program : Program}
    (accepted : Program.ofSource filename source = .ok program) :
    (∀ (home : Nat) (expr checked : Expr) (type : ValueType), expr.TempFree →
      expr.check (program.scopes.typeOf? home) = (checked, .ok type) →
        checked.ReducesToOperand (program.scopes.typeOf? home)) ∧
    ∀ code, compile filename source = .ok code → ((∀ instr ∈ code, instr.TakesAtoms) ↔
      ∀ site ∈ Stmt.allSites program.block.scope program.block.body, SignsApart site.2) := by
  constructor
  · intro home expr checked type tempFree typed
    refine ⟨fun fit => ?_, fun before code result after given => ?_⟩
    · exact checked.reduce_total true fit (Expr.check_resolved expr tempFree typed)
    · obtain ⟨single, sign⟩ := checked.reduce_isSingle given
      exact ⟨single, by rw [single.isAtom_iff, sign]⟩
  · intro code compiled
    obtain ⟨same, alsoAccepted, -, pieces⟩ := Program.compile_sites compiled
    cases accepted.symm.trans alsoAccepted
    exact pieces.forall_iff Instr.takesAtoms_of_exprs_eq_nil fun _ _ _ =>
      Stmt.SiteCode.takesAtoms_iff

/-- A variable with a sign in front. -/
def negatedVariable : Expr :=
  .unary { line := 1 } .neg (.loc { line := 1 } ⟨"x", 1⟩ [])

/-- Signs stand in front of what is assigned to a variable, and of a condition. -/
def signedValues : String :=
  "\x7b int x; int a[2][3]; a[x - 1][2] = 2 * (x + 1); if (!(x < a[0][x])) x = -(x - 1); \x7d"

theorem signedValues_atomic : ∃ program code checked,
    Program.ofSource "values" signedValues = .ok program ∧
    compile "values" signedValues = .ok code ∧
    negatedVariable.check (program.scopes.typeOf? 0) = (checked, .ok (.scalar .int)) ∧
    StridesFit (program.scopes.typeOf? 0) ∧
    checked.ReducesToOperand (program.scopes.typeOf? 0) ∧
    ∀ instr ∈ code, instr.TakesAtoms := by
  have accepted : ∃ program code after checked,
      Program.ofSource "values" signedValues = .ok program ∧
      program.lower {} = (.ok code, after) ∧ program.scopes.AllPositive ∧
      negatedVariable.check (program.scopes.typeOf? 0) = (checked, .ok (.scalar .int)) ∧
      ∀ site ∈ Stmt.allSites program.block.scope program.block.body, SignsApart site.2 := by
    refine ⟨_, _, _, _, by cbv, rfl, ?_, rfl, by decide⟩
    simp [Scopes.AllPositive, Scopes.Each]
  obtain ⟨program, code, after, checked, accepted, lowered, positive, typed, apart⟩ := accepted
  have compiled := Program.compile_of_lower accepted lowered
  obtain ⟨operands, atomic⟩ := operands_atomic_iff accepted
  have tempFree : negatedVariable.TempFree := trivial
  have fit := Scopes.stridesFit (Program.ofSource_wellFormed accepted).allFit positive 0
  exact ⟨program, code, checked, accepted, compiled, typed, fit,
    operands 0 _ checked _ tempFree typed, (atomic code compiled).mpr apart⟩

/-- A sign stands in front of what is stored into an element. -/
def storeNegated : String :=
  "\x7b int a[2]; int x; a[0] = -x; \x7d"

/-- One operand is asked for, and the sign is kept in it. -/
theorem storeNegated_keeps_sign : ∃ program code checked result target value,
    Program.ofSource "negated" storeNegated = .ok program ∧
    compile "negated" storeNegated = .ok code ∧
    code.map Instr.text = ["t1 = 0 * 4", "a[t1] = -x"] ∧
    negatedVariable.check (program.scopes.typeOf? 0) = (checked, .ok (.scalar .int)) ∧
    (checked.reduce (program.scopes.typeOf? 0) true).Gives ({} : NameSupply) ([], result) {} ∧
    ¬ result.IsAtom ∧
    .assign target value ∈ code ∧ target.isAccess = true ∧ ¬ value.IsAtom := by
  have accepted : ∃ program code after checked result target value,
      Program.ofSource "negated" storeNegated = .ok program ∧
      program.lower {} = (.ok code, after) ∧
      code.map Instr.text = ["t1 = 0 * 4", "a[t1] = -x"] ∧
      negatedVariable.check (program.scopes.typeOf? 0) = (checked, .ok (.scalar .int)) ∧
      (checked.reduce (program.scopes.typeOf? 0) true).Gives ({} : NameSupply) ([], result) {} ∧
      ¬ result.IsAtom ∧ .assign target value ∈ code ∧ target.isAccess = true ∧ ¬ value.IsAtom := by
    refine ⟨_, _, _, _, _, _, _, by cbv, rfl, rfl, rfl,
      Expr.reduce_unary_gives.mpr ⟨_, gives_pure.mpr ⟨rfl, rfl⟩, rfl⟩, ?_,
      List.mem_cons_of_mem _ List.mem_cons_self, rfl, ?_⟩
    · intro atom
      cases atom
    · intro atom
      cases atom
  obtain ⟨program, code, after, checked, result, target, value, accepted, lowered, text⟩ := accepted
  exact ⟨program, code, checked, result, target, value, accepted,
    Program.compile_of_lower accepted lowered, text⟩

end ThreeAddress

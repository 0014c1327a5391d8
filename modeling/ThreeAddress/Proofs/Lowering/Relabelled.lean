import ThreeAddress.Proofs.Lowering.Steps
import ThreeAddress.Proofs.Relabelling

namespace ThreeAddress

variable {new : Relabelling} {α β γ δ : Type}

namespace Relabelling

def code (new : Relabelling) (code : List Instr) : List Instr :=
  code.map new.instr

/-- The instructions before an expression, and what is used of it. -/
def reduced (new : Relabelling) (reduced : List Instr × Expr) : List Instr × Expr :=
  (new.code reduced.1, new.expr reduced.2)

/-- The result of a lowering and the names that it leaves. -/
def lowered (new : Relabelling) (image : α → β) (answer : Except InternalFault α × NameSupply) :
    Except InternalFault β × NameSupply :=
  ((answer.1.map image).mapError new.internalFault, new.names answer.2)

theorem code_append (first second : List Instr) :
    new.code (first ++ second) = new.code first ++ new.code second :=
  List.map_append

end Relabelling

namespace Lowering

/-- The second lowering does from the relabelled names what the first does. -/
def Follows (new : Relabelling) (image : α → β) (work : Lowering Nat α) (other : Lowering Nat β) : Prop :=
  ∀ before, other.run.run (new.names before) = new.lowered image (work.run.run before)

namespace Follows

variable {image : α → β} {result : γ → δ}

theorem pure {value : α} {made : β} (same : made = image value) :
    Follows new image (pure value) (pure made) := by
  subst same
  exact fun _ => rfl

theorem throw {fault found : InternalFault} (same : found = new.internalFault fault) :
    Follows new image (throw fault) (throw found) := by
  subst same
  exact fun _ => rfl

theorem bind {work : Lowering Nat α} {other : Lowering Nat β} {next : α → Lowering Nat γ}
    {onward : β → Lowering Nat δ} (begins : Follows new image work other)
    (goesOn : ∀ value, Follows new result (next value) (onward (image value))) :
    Follows new result (work >>= next) (other >>= onward) := by
  intro before
  rw [run_bind, run_bind, begins before]
  rcases work.run.run before with ⟨fault | value, middle⟩
  · rfl
  · exact goesOn value middle

end Follows

theorem freshTemp_follows : Follows new (· + new.temps) freshTemp freshTemp := by
  intro before
  have next : before.temps + new.temps + 1 = before.temps + 1 + new.temps :=
    Nat.add_right_comm ..
  change (Except.ok (before.temps + new.temps + 1),
    Names.mk (before.temps + new.temps + 1) (before.labels + new.labels)) = _
  rw [next]
  rfl

theorem freshLabel_follows : Follows new new.label freshLabel freshLabel := by
  intro before
  have next : before.labels + new.labels + 1 = before.labels + 1 + new.labels :=
    Nat.add_right_comm ..
  change (Except.ok (Label.mk (before.labels + new.labels + 1)),
    Names.mk (before.temps + new.temps) (before.labels + new.labels + 1)) = _
  rw [next]
  rfl

end Lowering

namespace Expr

open Lowering

theorem materialize_follows (expr : Expr) :
    Follows new new.reduced expr.materialize (new.expr expr).materialize := by
  refine .bind freshTemp_follows fun number => .pure ?_
  rw [Relabelling.expr_note]
  rfl

theorem settle_follows (single : Bool) (expr : Expr) :
    Follows new new.reduced (settle single expr) (settle single (new.expr expr)) := by
  cases single with
  | true => exact materialize_follows expr
  | false => exact .pure rfl

theorem addressTerm_follows (declared : DeclaredType) (name : String) (line dimension : Nat)
    (index : Expr) : Follows new new.reduced (addressTerm declared name line dimension index)
      (addressTerm declared (new.name name) (new.line line) dimension (new.expr index)) := by
  unfold addressTerm
  cases declared.stride dimension with
  | none => exact .throw rfl
  | some stride =>
      dsimp only
      split
      · exact .pure rfl
      · split
        · exact .throw rfl
        · exact materialize_follows _

variable {typeOf? other? : String → Option DeclaredType}

mutual

theorem reduce_follows (same : ∀ name, other? (new.name name) = typeOf? name) (single : Bool)
    (expr : Expr) : Follows new new.reduced (expr.reduce typeOf? single)
      ((new.expr expr).reduce other? single) := by
  match expr with
  | .binary note op left right =>
      rw [Relabelling.expr, reduce, reduce]
      refine .bind (reduce_follows same true left) fun ⟨leftCode, leftResult⟩ => ?_
      refine .bind (reduce_follows same true right) fun ⟨rightCode, rightResult⟩ => ?_
      refine .bind (settle_follows single (.binary note op leftResult rightResult))
        fun ⟨code, result⟩ => .pure ?_
      simp [Relabelling.reduced, Relabelling.code]
  | .unary note op operand =>
      rw [Relabelling.expr, reduce, reduce]
      exact .bind (reduce_follows same single operand) fun ⟨code, result⟩ => .pure rfl
  | .paren note inner =>
      rw [Relabelling.expr, reduce, reduce]
      refine .bind (reduce_follows same single inner) fun ⟨code, result⟩ => .pure ?_
      simp only [Relabelling.reduced, Relabelling.expr_isBinary]
      split <;> rfl
  | .loc note id [] => exact .pure rfl
  | .loc note id (first :: rest) =>
      have name : (new.ident id).name = new.name id.name := rfl
      rw [Relabelling.expr, Relabelling.exprs, reduce, reduce, name, same]
      cases typeOf? id.name with
      | none => exact .throw rfl
      | some declared =>
          refine .bind (reduce_follows same true first) fun ⟨firstCode, first⟩ => ?_
          refine .bind (addressTerm_follows declared id.name note.line 0 first)
            fun ⟨termCode, term⟩ => ?_
          refine .bind (addTerms_follows same declared id.name note.line 1 term rest)
            fun ⟨sumCode, sum⟩ => ?_
          refine .bind (materialize_follows (.binary (addressNote note.line) .mul sum
            (.int (addressNote note.line) declared.basic.width))) fun ⟨offsetCode, offset⟩ => ?_
          refine .bind (settle_follows single (.loc note id [offset]))
            fun ⟨code, result⟩ => .pure ?_
          simp [Relabelling.reduced, Relabelling.code]
  | .int note value => exact .pure rfl
  | .real note value => exact .pure rfl
  | .bool note value => exact .pure rfl
  | .temp note number => exact .pure rfl

theorem addTerms_follows (same : ∀ name, other? (new.name name) = typeOf? name)
    (declared : DeclaredType) (name : String) (line dimension : Nat) (sum : Expr)
    (indices : List Expr) :
    Follows new new.reduced (addTerms typeOf? declared name line dimension sum indices)
      (addTerms other? declared (new.name name) (new.line line) dimension (new.expr sum)
        (new.exprs indices)) := by
  match indices with
  | [] => exact .pure rfl
  | index :: rest =>
      rw [Relabelling.exprs, addTerms, addTerms]
      refine .bind (reduce_follows same true index) fun ⟨indexCode, index⟩ => ?_
      refine .bind (addressTerm_follows declared name line dimension index)
        fun ⟨termCode, term⟩ => ?_
      refine .bind (materialize_follows (.binary (addressNote line) .add sum term))
        fun ⟨sumCode, sum⟩ => ?_
      refine .bind (addTerms_follows same declared name line (dimension + 1) sum rest)
        fun ⟨restCode, total⟩ => .pure ?_
      simp [Relabelling.reduced, Relabelling.code]

end

end Expr

namespace Stmt

open Lowering

variable {scopes : Scopes}

mutual

theorem lower_follows (scope : Nat) (exit? : Option Label) (stmt : Stmt) :
    Follows new new.code (stmt.lower scopes scope exit?)
      ((new.stmt stmt).lower (new.scopes scopes) scope (exit?.map new.label)) := by
  have same (name : String) :
      (new.scopes scopes).typeOf? scope (new.name name) = scopes.typeOf? scope name :=
    Relabelling.typeOf?_scopes name
  match stmt with
  | .assign target value line =>
      rw [Relabelling.stmt, lower, lower]
      dsimp only
      rw [Relabelling.expr_isAccess]
      refine .bind (Expr.reduce_follows same false target) fun ⟨targetCode, target⟩ => ?_
      refine .bind (Expr.reduce_follows same _ value) fun ⟨valueCode, value⟩ => .pure ?_
      simp [Relabelling.reduced, Relabelling.code, Relabelling.instr]
  | .ifThen condition body =>
      rw [Relabelling.stmt, lower, lower]
      refine .bind (Expr.reduce_follows same false condition) fun ⟨testCode, test⟩ => ?_
      refine .bind freshLabel_follows fun behind => ?_
      refine .bind (lower_follows scope exit? body) fun bodyCode => .pure ?_
      simp [Relabelling.code, Relabelling.instr]
  | .ifThenElse condition body otherwise =>
      rw [Relabelling.stmt, lower, lower]
      refine .bind (Expr.reduce_follows same false condition) fun ⟨testCode, test⟩ => ?_
      refine .bind freshLabel_follows fun elseward => ?_
      refine .bind (lower_follows scope exit? body) fun bodyCode => ?_
      refine .bind freshLabel_follows fun behind => ?_
      refine .bind (lower_follows scope exit? otherwise) fun elseCode => .pure ?_
      simp [Relabelling.code, Relabelling.instr]
  | .whileDo condition body =>
      rw [Relabelling.stmt, lower, lower, Relabelling.expr_isTrue]
      refine .bind freshLabel_follows fun start => ?_
      refine .bind freshLabel_follows fun behind => ?_
      dsimp only
      split
      · have none : Follows new new.code (pure []) (pure []) := .pure rfl
        refine .bind none fun testCode => ?_
        refine .bind (lower_follows scope (some behind) body) fun bodyCode => .pure ?_
        simp [Relabelling.code, Relabelling.instr]
      · refine .bind (Expr.reduce_follows same false condition) fun ⟨testCode, test⟩ => ?_
        have tested : Follows new new.code (pure (testCode ++ [.ifFalse test behind]))
            (pure (new.code testCode ++ [.ifFalse (new.expr test) (new.label behind)])) :=
          .pure (Relabelling.code_append testCode [.ifFalse test behind]).symm
        refine .bind tested fun testCode => ?_
        refine .bind (lower_follows scope (some behind) body) fun bodyCode => .pure ?_
        simp [Relabelling.code, Relabelling.instr]
  | .doWhile body condition =>
      rw [Relabelling.stmt, lower, lower]
      refine .bind freshLabel_follows fun start => ?_
      refine .bind freshLabel_follows fun behind => ?_
      refine .bind (lower_follows scope (some behind) body) fun bodyCode => ?_
      refine .bind (Expr.reduce_follows same false condition) fun ⟨testCode, test⟩ => .pure ?_
      simp [Relabelling.code, Relabelling.instr]
  | .breakLoop =>
      cases exit? with
      | none => exact .throw rfl
      | some behind => exact .pure rfl
  | .block inner declarations body =>
      rw [Relabelling.stmt, lower, lower]
      exact lowerAll_follows inner exit? body

theorem lowerAll_follows (scope : Nat) (exit? : Option Label) (body : List Stmt) :
    Follows new new.code (lowerAll scopes scope exit? body)
      (lowerAll (new.scopes scopes) scope (exit?.map new.label) (new.stmts body)) := by
  match body with
  | [] => exact .pure rfl
  | first :: rest =>
      rw [Relabelling.stmts, lowerAll, lowerAll]
      refine .bind (lower_follows scope exit? first) fun firstCode => ?_
      refine .bind (lowerAll_follows scope exit? rest) fun restCode => .pure ?_
      exact (Relabelling.code_append firstCode restCode).symm

end

end Stmt

/-- A relabelled program from relabelled names is lowered like the program. -/
theorem Program.lower_relabelled (program : Program) (names : NameSupply) :
    (new.program program).lower (new.names names) = new.lowered new.code (program.lower names) :=
  Stmt.lowerAll_follows program.block.scope none program.block.body names

end ThreeAddress

import ThreeAddress.Expr

namespace ThreeAddress

/-- An operator in an expression, with its note and the operand to its right. -/
structure Operation where
  note : Note
  op : BinaryOp
  operand : Expr

namespace Expr

def first : Expr → Expr
  | .binary _ _ left _ => left.first
  | single => single

/-- The operators of an expression from left to right, outside of parentheses and indices. -/
def operations : Expr → List Operation
  | .binary note op left right => left.operations ++ ⟨note, op, right.first⟩ :: right.operations
  | _ => []

def operator? : Expr → Option BinaryOp
  | .binary _ op _ _ => some op
  | _ => none

/-- An operator is grouped with what is to its left if that does not bind weaker, and with what is
to its right if that binds tighter. -/
def Grouped : Expr → Prop
  | .binary _ op left right =>
      (∀ other ∈ left.operator?, op.precedence ≤ other.precedence) ∧
        (∀ other ∈ right.operator?, op.precedence < other.precedence) ∧
        left.Grouped ∧ right.Grouped
  | _ => True

/-- Appends a whole sequence of operators. -/
def extendAll (expr : Expr) (more : List Operation) : Expr :=
  more.foldl
    (fun whole operation => whole.extend operation.note.line operation.op operation.operand) expr

variable {expr operand left right : Expr} {line : Nat} {op : BinaryOp} {note : Note}

theorem first_of_single (single : expr.isBinary = false) : expr.first = expr := by
  cases expr with
  | binary => simp [isBinary] at single
  | _ => rfl

theorem operations_of_single (single : expr.isBinary = false) : expr.operations = [] := by
  cases expr with
  | binary => simp [isBinary] at single
  | _ => rfl

theorem operator?_of_single (single : expr.isBinary = false) : expr.operator? = none := by
  cases expr with
  | binary => simp [isBinary] at single
  | _ => rfl

theorem grouped_of_single (single : expr.isBinary = false) : expr.Grouped := by
  cases expr with
  | binary => simp [isBinary] at single
  | _ => trivial

theorem extend_of_weaker (weaker : ∀ outer ∈ expr.operator?, op.precedence ≤ outer.precedence) :
    expr.extend line op operand = .binary { line } op expr operand := by
  cases expr with
  | binary note outer left right =>
      have notTighter : ¬ outer.precedence < op.precedence :=
        Nat.not_lt.mpr (weaker outer rfl)
      rw [extend, if_neg notTighter]
  | _ => rfl

theorem first_extend : (expr.extend line op operand).first = expr.first := by
  fun_cases Expr.extend expr line op operand with
  | case1 => rfl
  | case2 => rfl
  | case3 => rfl

theorem operations_extend (single : operand.isBinary = false) :
    (expr.extend line op operand).operations =
      expr.operations ++ [⟨{ line }, op, operand⟩] := by
  fun_induction Expr.extend expr line op operand with
  | case1 note outer left right tighter ih =>
      rw [operations, operations, ih, first_extend, List.append_assoc, List.cons_append]
  | case2 => rw [operations, first_of_single single, operations_of_single single]
  | case3 => rw [operations, first_of_single single, operations_of_single single]

/-- Extending leaves a weaker outermost operator outermost. -/
theorem operator?_extend {bound : Nat} (above : bound < op.precedence)
    (before : ∀ other ∈ expr.operator?, bound < other.precedence) :
    ∀ other ∈ (expr.extend line op operand).operator?, bound < other.precedence := by
  fun_cases Expr.extend expr line op operand with
  | case1 => exact before
  | case2 =>
      intro other same
      cases same
      exact above
  | case3 =>
      intro other same
      cases same
      exact above

theorem grouped_extend (single : operand.isBinary = false) (grouped : expr.Grouped) :
    (expr.extend line op operand).Grouped := by
  fun_induction Expr.extend expr line op operand with
  | case1 note outer left right tighter ih =>
      obtain ⟨leftBinds, rightBinds, leftGrouped, rightGrouped⟩ := grouped
      exact ⟨leftBinds, operator?_extend tighter rightBinds, leftGrouped, ih rightGrouped⟩
  | case2 note outer left right notTighter =>
      refine ⟨?_, ?_, grouped, grouped_of_single single⟩
      · intro other same
        cases same
        exact Nat.not_lt.mp notTighter
      · rw [operator?_of_single single]
        nofun
  | case3 expr notBinary =>
      have alone : expr.isBinary = false := by
        cases expr with
        | binary note op left right => exact (notBinary note op left right rfl).elim
        | _ => rfl
      refine ⟨?_, ?_, grouped, grouped_of_single single⟩
      · rw [operator?_of_single alone]
        nofun
      · rw [operator?_of_single single]
        nofun

/-- The operations as they are read: no type is noted yet, and an operand is no operator. -/
def Plain (more : List Operation) : Prop :=
  ∀ operation ∈ more, operation.operand.isBinary = false ∧ operation.note.type = none

variable {more : List Operation}

theorem first_extendAll : (expr.extendAll more).first = expr.first := by
  induction more generalizing expr with
  | nil => rfl
  | cons operation rest ih =>
      rw [extendAll, List.foldl_cons, ← extendAll, ih, first_extend]

theorem operations_extendAll (plain : Plain more) :
    (expr.extendAll more).operations = expr.operations ++ more := by
  induction more generalizing expr with
  | nil => rw [List.append_nil]; rfl
  | cons operation rest ih =>
      obtain ⟨⟨single, untyped⟩, restPlain⟩ := List.forall_mem_cons.mp plain
      have note : ({ line := operation.note.line } : Note) = operation.note := by
        rw [← untyped]
      rw [extendAll, List.foldl_cons, ← extendAll, ih restPlain, operations_extend single,
        List.append_assoc, List.singleton_append, note]

theorem grouped_extendAll (plain : Plain more) (grouped : expr.Grouped) :
    (expr.extendAll more).Grouped := by
  induction more generalizing expr with
  | nil => exact grouped
  | cons operation rest ih =>
      obtain ⟨⟨single, -⟩, restPlain⟩ := List.forall_mem_cons.mp plain
      exact ih restPlain (grouped_extend single grouped)

/-- Operators that bind tighter than the outermost one go to its right operand. -/
theorem extendAll_of_tighter
    (tighter : ∀ operation ∈ more, op.precedence < operation.op.precedence) :
    (Expr.binary note op left right).extendAll more =
      .binary note op left (right.extendAll more) := by
  induction more generalizing right with
  | nil => rfl
  | cons operation rest ih =>
      obtain ⟨first, others⟩ := List.forall_mem_cons.mp tighter
      rw [extendAll, List.foldl_cons, extend, if_pos first, ← extendAll, ih others]
      rfl

theorem precedence_of_grouped (expr : Expr) {bound : Nat} (grouped : expr.Grouped)
    (above : ∀ other ∈ expr.operator?, bound < other.precedence) :
    ∀ operation ∈ expr.operations, bound < operation.op.precedence := by
  match expr with
  | .binary note op left right =>
      obtain ⟨leftBinds, rightBinds, leftGrouped, rightGrouped⟩ := grouped
      have here : bound < op.precedence := above op rfl
      refine List.forall_mem_append.mpr ⟨?_, List.forall_mem_cons.mpr ⟨here, ?_⟩⟩
      · exact precedence_of_grouped left leftGrouped fun other same =>
          Nat.lt_of_lt_of_le here (leftBinds other same)
      · exact precedence_of_grouped right rightGrouped fun other same =>
          Nat.lt_trans here (rightBinds other same)
  | .unary _ _ _ | .paren _ _ | .loc _ _ _ | .int _ _ | .real _ _ | .bool _ _ | .temp _ _ => nofun

/-- A grouped expression is rebuilt from its sequence. -/
theorem extendAll_operations (expr : Expr) (grouped : expr.Grouped)
    (plain : Plain expr.operations) : expr.first.extendAll expr.operations = expr := by
  match expr with
  | .binary note op left right =>
      obtain ⟨leftBinds, rightBinds, leftGrouped, rightGrouped⟩ := grouped
      obtain ⟨leftPlain, rest⟩ := List.forall_mem_append.mp plain
      obtain ⟨⟨-, untyped⟩, rightPlain⟩ := List.forall_mem_cons.mp rest
      have same : ({ line := note.line } : Note) = note := by
        rw [← untyped]
      have split : left.first.extendAll (left.operations ++ ⟨note, op, right.first⟩ ::
          right.operations) = ((left.first.extendAll left.operations).extend note.line op
            right.first).extendAll right.operations := by
        rw [extendAll, List.foldl_append, List.foldl_cons]
        rfl
      rw [first, operations, split, extendAll_operations left leftGrouped leftPlain,
        extend_of_weaker leftBinds,
        extendAll_of_tighter (precedence_of_grouped right rightGrouped rightBinds),
        extendAll_operations right rightGrouped rightPlain, same]
  | .unary _ _ _ | .paren _ _ | .loc _ _ _ | .int _ _ | .real _ _ | .bool _ _ | .temp _ _ => rfl

/-- Appending operators one by one makes the only grouped expression with that sequence. -/
theorem extendAll_eq_iff {whole : Expr} (single : expr.isBinary = false) (plain : Plain more) :
    expr.extendAll more = whole ↔
      whole.first = expr ∧ whole.operations = more ∧ whole.Grouped := by
  constructor
  · rintro rfl
    refine ⟨?_, ?_, grouped_extendAll plain (grouped_of_single single)⟩
    · rw [first_extendAll, first_of_single single]
    · rw [operations_extendAll plain, operations_of_single single, List.nil_append]
  · rintro ⟨rfl, rfl, grouped⟩
    exact extendAll_operations whole grouped plain

end Expr

end ThreeAddress

import ThreeAddress.Proofs.Grammar.Climbing
import ThreeAddress.Proofs.Grammar.Complete
import ThreeAddress.Proofs.Grammar.Lookups

namespace ThreeAddress.Grammar

/-!
# The layers of expressions

```
disjunction = conjunction | disjunction "||" conjunction
conjunction = equality    | conjunction "&&" equality
equality    = relation    | equality ("==" | "!=") relation
relation    = sum         | relation ("<" | "<=" | ">" | ">=") sum
sum         = product     | sum ("+" | "-") product
product     = factor      | product ("*" | "/") factor
```

This grammar has no precedences: what binds tighter is a layer further down. It gives an
expression the same tree as climbing.
-/

/-- The operators of each layer, outermost first. -/
def layers : List (List BinaryOp) :=
  [[.or], [.and], [.equal, .notEqual], [.less, .lessEqual, .greater, .greaterEqual],
   [.add, .sub], [.mul, .div]]

/-- The trees of a grammar with these layers. Below the last of them are the factors. -/
inductive Layered (declared : String → Bool) :
    List (List BinaryOp) → List Token → Expr → List Token → Prop
  | operand {tokens operand rest} : Finds (factor declared tokens) operand rest →
      Layered declared [] tokens operand rest
  | inner {ops tighter tokens expr rest} : Layered declared tighter tokens expr rest →
      Layered declared (ops :: tighter) tokens expr rest
  | operator {ops tighter tokens left middle right rest} {sign : Token} {op : BinaryOp} :
      Layered declared (ops :: tighter) tokens left (sign :: middle) →
      BinaryOp.ofKind? sign.kind = some op → op ∈ ops →
      Layered declared tighter middle right rest →
      Layered declared (ops :: tighter) tokens (.binary { line := sign.line } op left right) rest

/-- The tokens are operators, each with its line and with what is read as a factor behind it. -/
inductive IsSequence (declared : String → Bool) :
    List Token → List Operation → List Token → Prop
  | nil {rest} : IsSequence declared rest [] rest
  | cons {sign : Token} {op tokens operand middle more rest} :
      BinaryOp.ofKind? sign.kind = some op → Finds (factor declared tokens) operand middle →
      IsSequence declared middle more rest →
      IsSequence declared (sign :: tokens) (⟨{ line := sign.line }, op, operand⟩ :: more) rest

variable {declared : String → Bool} {tokens middle rest : List Token} {first operand left : Expr}
  {more others : List Operation}

namespace IsSequence

theorem within (sequence : IsSequence declared tokens more rest) :
    rest.length ≤ tokens.length := by
  induction sequence with
  | nil => exact Nat.le_refl _
  | cons _ operandFound _ ih =>
      have shorter := operandFound.within
      simp only [List.length_cons]
      omega

theorem plain (sequence : IsSequence declared tokens more rest) : Expr.Plain more := by
  induction sequence with
  | nil => exact nofun
  | cons _ operandFound _ ih =>
      have single := factor_single (finds_iff_plain.mp operandFound)
      exact List.forall_mem_cons.mpr ⟨⟨single, rfl⟩, ih⟩

theorem append (before : IsSequence declared tokens more middle)
    (behind : IsSequence declared middle others rest) :
    IsSequence declared tokens (more ++ others) rest := by
  induction before with
  | nil => exact behind
  | cons sign operandFound _ ih => exact .cons sign operandFound (ih behind)

theorem split (whole : IsSequence declared tokens (more ++ others) rest) :
    ∃ middle, IsSequence declared tokens more middle ∧ IsSequence declared middle others rest := by
  induction more generalizing tokens with
  | nil => exact ⟨tokens, .nil, whole⟩
  | cons operation before ih =>
      cases whole with
      | cons sign operandFound behind =>
          obtain ⟨middle, front, back⟩ := ih behind
          exact ⟨middle, .cons sign operandFound front, back⟩

theorem unique (sequence : IsSequence declared tokens more rest)
    (again : IsSequence declared tokens others rest) : more = others := by
  induction sequence generalizing others with
  | nil =>
      cases again with
      | nil => rfl
      | cons _ operandFound behind =>
          have first := operandFound.within
          have second := behind.within
          simp only [List.length_cons] at second
          omega
  | cons sign operandFound behind ih =>
      cases again with
      | nil =>
          have first := operandFound.within
          have second := behind.within
          simp only [List.length_cons] at second
          omega
      | cons signAgain foundAgain behindAgain =>
          cases sign.symm.trans signAgain
          obtain ⟨rfl, rfl⟩ := finds_unique operandFound foundAgain
          rw [ih behindAgain]

/-- A sequence is read up to a token that is no operator. -/
theorem operations_finds (sequence : IsSequence declared tokens more rest) (left : Expr)
    (stop : Ahead (BinaryOp.ofKind? · = none) rest) :
    Finds (operations declared left tokens) (left.extendAll more) rest := by
  induction sequence generalizing left with
  | nil =>
      obtain ⟨next, later, rfl, noOperator⟩ := stop
      exact (finds_operations_stop noOperator).mpr ⟨rfl, rfl⟩
  | cons sign operandFound _ ih =>
      exact (finds_operations_step sign).mpr ⟨_, _, operandFound, ih _ stop⟩

end IsSequence

/-- What the grammar derives is read as such a sequence, as long as no index may follow. -/
theorem AreOperations.sequence {visible : List String}
    (sees : ∀ name, declared name = true ↔ name ∈ visible)
    (derived : AreOperations visible tokens more rest)
    (noIndex : Ahead (· ≠ .mark .openBracket) rest) : IsSequence declared tokens more rest := by
  induction more generalizing tokens with
  | nil =>
      cases derived with
      | nil => exact .nil
  | cons operation others ih =>
      cases derived with
      | cons sign operand derived =>
          exact .cons sign (factor_complete sees operand (derived.ahead noIndex)) (ih derived)

/-- The operators of a layer have one precedence, lower than those of all layers below it. -/
structure Ranked (levels : List (List BinaryOp)) : Prop where
  alike : ∀ ops ∈ levels, ∀ op ∈ ops, ∀ other ∈ ops, op.precedence = other.precedence
  rising : levels.Pairwise fun ops tighter =>
    ∀ op ∈ ops, ∀ other ∈ tighter, op.precedence < other.precedence

theorem ranked_layers : Ranked layers where
  alike := by decide
  rising := by decide

theorem mem_layers (op : BinaryOp) : op ∈ layers.flatten := by
  cases op <;> decide

variable {levels tighter : List (List BinaryOp)} {ops : List BinaryOp} {expr : Expr}
  {op other : BinaryOp}

theorem Ranked.tail (ranked : Ranked (ops :: tighter)) : Ranked tighter where
  alike := fun below member => ranked.alike below (List.mem_cons_of_mem _ member)
  rising := (List.pairwise_cons.mp ranked.rising).2

theorem Ranked.lt (ranked : Ranked (ops :: tighter)) (here : op ∈ ops)
    (below : other ∈ tighter.flatten) : op.precedence < other.precedence := by
  obtain ⟨layer, member, inside⟩ := List.mem_flatten.mp below
  exact (List.pairwise_cons.mp ranked.rising).1 layer member op here other inside

theorem Ranked.le (ranked : Ranked (ops :: tighter)) (here : op ∈ ops)
    (anywhere : other ∈ (ops :: tighter).flatten) : op.precedence ≤ other.precedence := by
  rcases List.mem_append.mp anywhere with same | below
  · exact Nat.le_of_eq (ranked.alike ops List.mem_cons_self op here other same)
  · exact Nat.le_of_lt (ranked.lt here below)

theorem Ranked.mem_of_lt (ranked : Ranked (ops :: tighter)) (here : op ∈ ops)
    (anywhere : other ∈ (ops :: tighter).flatten) (above : op.precedence < other.precedence) :
    other ∈ tighter.flatten := by
  rcases List.mem_append.mp anywhere with same | below
  · have alike := ranked.alike ops List.mem_cons_self op here other same
    omega
  · exact below

/-- If its outermost operator is of a layer further down, so are all others of a grouped tree. -/
theorem Ranked.mem_of_grouped (ranked : Ranked (ops :: tighter)) (grouped : expr.Grouped)
    (outermost : ∀ op ∈ expr.operator?, op ∈ tighter.flatten)
    (among : ∀ operation ∈ expr.operations, operation.op ∈ (ops :: tighter).flatten) :
    ∀ operation ∈ expr.operations, operation.op ∈ tighter.flatten := by
  intro operation member
  rcases List.mem_append.mp (among operation member) with same | below
  · have above : ∀ other ∈ expr.operator?, operation.op.precedence < other.precedence :=
      fun other top => ranked.lt same (outermost other top)
    have itself := Expr.precedence_of_grouped expr grouped above operation member
    exact (Nat.lt_irrefl _ itself).elim
  · exact below

theorem operator?_mem_operations (outermost : op ∈ expr.operator?) :
    ∃ operation ∈ expr.operations, operation.op = op := by
  cases expr with
  | binary note other left right =>
      cases outermost
      exact ⟨⟨note, op, right.first⟩, List.mem_append_right _ List.mem_cons_self, rfl⟩
  | _ => contradiction

/-- A tree of the layered grammar has the sequence that is read, and is grouped by precedence. -/
theorem Layered.sequence (ranked : Ranked levels)
    (layered : Layered declared levels tokens expr rest) : (∃ middle, Finds (factor declared tokens) expr.first middle ∧
      IsSequence declared middle expr.operations rest) ∧
    expr.Grouped ∧ ∀ operation ∈ expr.operations, operation.op ∈ levels.flatten := by
  induction layered with
  | operand found =>
      have single := factor_single (finds_iff_plain.mp found)
      rw [Expr.first_of_single single, Expr.operations_of_single single]
      exact ⟨⟨_, found, .nil⟩, Expr.grouped_of_single single, nofun⟩
  | inner _ ih =>
      obtain ⟨reads, grouped, among⟩ := ih ranked.tail
      exact ⟨reads, grouped, fun operation member =>
        List.mem_append_right _ (among operation member)⟩
  | operator _ sign here _ leftIH rightIH =>
      obtain ⟨⟨middle, start, leftSequence⟩, leftGrouped, leftAmong⟩ := leftIH ranked
      obtain ⟨⟨later, operandFound, rightSequence⟩, rightGrouped, rightAmong⟩ :=
        rightIH ranked.tail
      refine ⟨⟨middle, start, leftSequence.append (.cons sign operandFound rightSequence)⟩,
        ⟨?_, ?_, leftGrouped, rightGrouped⟩, ?_⟩
      · intro other outermost
        obtain ⟨operation, member, rfl⟩ := operator?_mem_operations outermost
        exact ranked.le here (leftAmong operation member)
      · intro other outermost
        obtain ⟨operation, member, rfl⟩ := operator?_mem_operations outermost
        exact ranked.lt here (rightAmong operation member)
      · refine List.forall_mem_append.mpr ⟨leftAmong, List.forall_mem_cons.mpr ⟨?_, ?_⟩⟩
        · exact List.mem_append_left _ here
        · exact fun operation member => List.mem_append_right _ (rightAmong operation member)

/-- A grouped tree that is read as this sequence is one of the layered grammar. Its outermost
operators are those of the outermost layer that it has any of. -/
theorem Layered.of_sequence (levels : List (List BinaryOp)) (ranked : Ranked levels) (expr : Expr)
    {tokens middle rest : List Token} (start : Finds (factor declared tokens) expr.first middle)
    (sequence : IsSequence declared middle expr.operations rest) (grouped : expr.Grouped)
    (among : ∀ operation ∈ expr.operations, operation.op ∈ levels.flatten) :
    Layered declared levels tokens expr rest := by
  match levels, expr with
  | [], .binary note op left right =>
      have member : ⟨note, op, right.first⟩ ∈ (Expr.binary note op left right).operations :=
        List.mem_append_right _ List.mem_cons_self
      exact absurd (among _ member) List.not_mem_nil
  | [], .unary _ _ _ | [], .paren _ _ | [], .loc _ _ _ | [], .int _ _ | [], .real _ _
  | [], .bool _ _ | [], .temp _ _ =>
      cases sequence with
      | nil => exact .operand start
  | ops :: tighter, .binary note op left right =>
      by_cases here : op ∈ ops
      · obtain ⟨leftBinds, rightBinds, leftGrouped, rightGrouped⟩ := grouped
        obtain ⟨leftAmong, behindAmong⟩ := List.forall_mem_append.mp among
        obtain ⟨before, leftSequence, behind⟩ := sequence.split
        have above := Expr.precedence_of_grouped right rightGrouped rightBinds
        have rightAmong : ∀ operation ∈ right.operations, operation.op ∈ tighter.flatten :=
          fun operation member => ranked.mem_of_lt here
            (behindAmong operation (List.mem_cons_of_mem _ member)) (above operation member)
        cases behind with
        | cons sign operandFound rightSequence =>
            exact .operator
              (of_sequence (ops :: tighter) ranked left start leftSequence leftGrouped leftAmong)
              sign here
              (of_sequence tighter ranked.tail right operandFound rightSequence rightGrouped
                rightAmong)
      · have member : ⟨note, op, right.first⟩ ∈ (Expr.binary note op left right).operations :=
          List.mem_append_right _ List.mem_cons_self
        have below : op ∈ tighter.flatten :=
          (List.mem_append.mp (among _ member)).resolve_left here
        have allBelow := ranked.mem_of_grouped grouped
          (fun other outermost => by cases outermost; exact below) among
        exact .inner (of_sequence tighter ranked.tail _ start sequence grouped allBelow)
  | ops :: tighter, .unary _ _ _ | ops :: tighter, .paren _ _ | ops :: tighter, .loc _ _ _
  | ops :: tighter, .int _ _ | ops :: tighter, .real _ _ | ops :: tighter, .bool _ _
  | ops :: tighter, .temp _ _ =>
      exact .inner (of_sequence tighter ranked.tail _ start sequence grouped nofun)
termination_by (levels.length, sizeOf expr)

/-- All nodes are grouped, inside of parentheses and indices too. -/
def AllGrouped (nodes : List Expr) : Prop :=
  ∀ node ∈ nodes, node.Grouped

theorem AllGrouped.grouped (all : AllGrouped expr.nodes) : expr.Grouped := by
  cases expr with
  | binary => exact all _ List.mem_cons_self
  | _ => trivial

theorem AllGrouped.extend {line : Nat} (single : operand.isBinary = false)
    (before : AllGrouped expr.nodes) (behind : AllGrouped operand.nodes) :
    AllGrouped (expr.extend line op operand).nodes := by
  have whole : (expr.extend line op operand).Grouped := Expr.grouped_extend single before.grouped
  fun_induction Expr.extend expr line op operand with
  | case1 note outer left right tighter ih =>
      obtain ⟨-, inside⟩ := List.forall_mem_cons.mp before
      obtain ⟨leftGrouped, rightGrouped⟩ := List.forall_mem_append.mp inside
      exact List.forall_mem_cons.mpr
        ⟨whole, List.forall_mem_append.mpr ⟨leftGrouped, ih rightGrouped whole.2.2.2⟩⟩
  | case2 | case3 =>
      exact List.forall_mem_cons.mpr ⟨whole, List.forall_mem_append.mpr ⟨before, behind⟩⟩

mutual

theorem expression_allGrouped {declared : String → Bool} (tokens : List Token) {expr : Expr}
    {rest : List Token} (found : Finds (expression declared tokens) expr rest) :
    AllGrouped expr.nodes := by
  obtain ⟨first, middle, firstFound, others⟩ := finds_expression.mp found
  have shorter := firstFound.within
  exact operations_allGrouped middle (factor_allGrouped tokens firstFound) others
termination_by 4 * tokens.length + 1
decreasing_by all_goals omega

theorem operations_allGrouped {declared : String → Bool} (tokens : List Token) {left expr : Expr}
    {rest : List Token} (before : AllGrouped left.nodes)
    (found : Finds (operations declared left tokens) expr rest) : AllGrouped expr.nodes := by
  match tokens with
  | [] => exact (finds_operations_nil found).elim
  | token :: after =>
      cases sign : BinaryOp.ofKind? token.kind with
      | none =>
          obtain ⟨rfl, -⟩ := (finds_operations_stop sign).mp found
          exact before
      | some op =>
          obtain ⟨right, middle, rightFound, others⟩ := (finds_operations_step sign).mp found
          have shorter := rightFound.within
          have single := factor_single (finds_iff_plain.mp rightFound)
          exact operations_allGrouped middle
            (before.extend single (factor_allGrouped after rightFound)) others
termination_by 4 * tokens.length
decreasing_by all_goals (simp only [List.length_cons] at *; omega)

theorem factor_allGrouped {declared : String → Bool} (tokens : List Token) {expr : Expr}
    {rest : List Token} (found : Finds (factor declared tokens) expr rest) :
    AllGrouped expr.nodes := by
  match tokens with
  | [] => exact (finds_factor_nil found).elim
  | token :: after =>
      rcases finds_factor.mp found with ⟨op, operand, -, inner, rfl⟩ |
        ⟨inner, closing, -, innerFound, -, rfl⟩ | ⟨value, -, rfl, -⟩ | ⟨value, -, rfl, -⟩ |
        ⟨-, rfl, -⟩ | ⟨-, rfl, -⟩ | ⟨name, -, place⟩
      · exact List.forall_mem_cons.mpr ⟨trivial, factor_allGrouped after inner⟩
      · exact List.forall_mem_cons.mpr ⟨trivial, expression_allGrouped after innerFound⟩
      · exact List.forall_mem_singleton.mpr trivial
      · exact List.forall_mem_singleton.mpr trivial
      · exact List.forall_mem_singleton.mpr trivial
      · exact List.forall_mem_singleton.mpr trivial
      · obtain ⟨-, indices, indicesFound, rfl⟩ := finds_location.mp place
        exact List.forall_mem_cons.mpr ⟨trivial, subscripts_allGrouped after indicesFound⟩
termination_by 4 * tokens.length
decreasing_by all_goals (simp only [List.length_cons] at *; omega)

theorem subscripts_allGrouped {declared : String → Bool} (tokens : List Token)
    {indices : List Expr} {rest : List Token}
    (found : Finds (subscripts declared tokens) indices rest) :
    AllGrouped (Expr.indicesNodes indices) := by
  match tokens with
  | [] => exact (finds_subscripts_nil found).elim
  | token :: after =>
      by_cases opening : token.kind = .mark .openBracket
      · obtain ⟨index, closing, middle, more, indexFound, closes, others, rfl⟩ :=
          (finds_subscripts_step opening).mp found
        have shorter := indexFound.within
        exact List.forall_mem_append.mpr
          ⟨expression_allGrouped after indexFound, subscripts_allGrouped middle others⟩
      · obtain ⟨rfl, -⟩ := (finds_subscripts_stop opening).mp found
        exact nofun
termination_by 4 * tokens.length + 2
decreasing_by all_goals (simp only [List.length_cons] at *; omega)

end

/-- A sequence of operands and operators, up to a token that is no operator, is read as a whole. By
climbing it gets the tree of the layered grammar, which is the only one with this sequence that is
grouped by precedence. So is every node inside of it. -/
theorem expression_by_layers (start : Finds (factor declared tokens) first middle)
    (sequence : IsSequence declared middle more rest)
    (stop : Ahead (BinaryOp.ofKind? · = none) rest) :
    ∃ whole, Finds (expression declared tokens) whole rest ∧
      Finds (climb declared 0 first middle) whole rest ∧
      (∀ other : Expr, other.first = first ∧ other.operations = more ∧ other.Grouped ↔
        other = whole) ∧
      (∀ other, Layered declared layers tokens other rest ↔ other = whole) ∧
      AllGrouped whole.nodes := by
  have single := factor_single (finds_iff_plain.mp start)
  have appended := sequence.operations_finds first stop
  have read : Finds (expression declared tokens) (first.extendAll more) rest :=
    finds_expression.mpr ⟨first, middle, start, appended⟩
  have only : ∀ other : Expr, other.first = first ∧ other.operations = more ∧ other.Grouped ↔
      other = first.extendAll more := fun other =>
    (Expr.extendAll_eq_iff single sequence.plain).symm.trans eq_comm
  refine ⟨first.extendAll more, read, ?_, only, fun other => ?_, expression_allGrouped tokens read⟩
  · refine finds_iff_plain.mpr ((congrFun (climb_eq_operations single) middle).trans ?_)
    exact finds_iff_plain.mp appended
  · rw [← only other]
    constructor
    · intro layered
      obtain ⟨⟨_, startAgain, sequenceAgain⟩, grouped, -⟩ := layered.sequence ranked_layers
      obtain ⟨same, rfl⟩ := finds_unique startAgain start
      exact ⟨same, sequenceAgain.unique sequence, grouped⟩
    · rintro ⟨rfl, rfl, grouped⟩
      exact .of_sequence layers ranked_layers other start sequence grouped
        fun operation _ => mem_layers operation.op

/-- The operand that comes first in `1 || 2 == 3 + 4 * 5 - 6 < 7;`. -/
def firstOperand : Token :=
  ⟨.int 1, { line := 1 }⟩

/-- What follows it, on seven lines. It climbs up and part of the way back. -/
def mixedOperators : List Token :=
  [⟨.mark .orOr, { line := 1 }⟩,
   ⟨.int 2, { line := 2 }⟩, ⟨.mark .equalEqual, { line := 2 }⟩,
   ⟨.int 3, { line := 3 }⟩, ⟨.mark .plus, { line := 3 }⟩,
   ⟨.int 4, { line := 4 }⟩, ⟨.mark .star, { line := 4 }⟩,
   ⟨.int 5, { line := 5 }⟩, ⟨.mark .minus, { line := 5 }⟩,
   ⟨.int 6, { line := 6 }⟩, ⟨.mark .less, { line := 6 }⟩,
   ⟨.int 7, { line := 7 }⟩, ⟨.mark .semicolon, { line := 7 }⟩]

def mixedOperatorsTree : Expr :=
  .binary { line := 1 } .or (.int { line := 1 } 1)
    (.binary { line := 2 } .equal (.int { line := 2 } 2)
      (.binary { line := 6 } .less
        (.binary { line := 5 } .sub
          (.binary { line := 3 } .add (.int { line := 3 } 3)
            (.binary { line := 4 } .mul (.int { line := 4 } 4) (.int { line := 5 } 5)))
          (.int { line := 6 } 6))
        (.int { line := 7 } 7)))

theorem mixedOperators_by_layers : ∃ semicolon,
    BinaryOp.ofKind? semicolon.kind = none ∧ mixedOperatorsTree.operations.length = 6 ∧
    IsSequence (fun _ => false) mixedOperators mixedOperatorsTree.operations [semicolon] ∧
    Finds (expression (fun _ => false) (firstOperand :: mixedOperators)) mixedOperatorsTree
      [semicolon] ∧
    Layered (fun _ => false) layers (firstOperand :: mixedOperators) mixedOperatorsTree
      [semicolon] := by
  have start : Finds (factor (fun _ => false) (firstOperand :: mixedOperators))
      (.int { line := 1 } 1) mixedOperators := ⟨by decide, by cbv⟩
  have derived : AreOperations [] mixedOperators mixedOperatorsTree.operations
      [⟨.mark .semicolon, { line := 7 }⟩] :=
    .cons rfl (.int rfl) <| .cons rfl (.int rfl) <| .cons rfl (.int rfl) <|
      .cons rfl (.int rfl) <| .cons rfl (.int rfl) <| .cons rfl (.int rfl) .nil
  have sees : ∀ name : String, (fun _ => false : String → Bool) name = true ↔ name ∈ [] := by
    simp
  have sequence := derived.sequence sees (ahead_cons.mpr (by decide))
  obtain ⟨whole, read, -, only, layered, -⟩ :=
    expression_by_layers start sequence (ahead_cons.mpr rfl)
  have grouped : mixedOperatorsTree.Grouped := by
    simp [mixedOperatorsTree, Expr.Grouped, Expr.operator?, BinaryOp.precedence]
  obtain rfl := (only mixedOperatorsTree).mp ⟨rfl, rfl, grouped⟩
  exact ⟨_, rfl, rfl, sequence, read, (layered _).mpr rfl⟩

end ThreeAddress.Grammar

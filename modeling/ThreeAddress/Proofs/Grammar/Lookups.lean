import ThreeAddress.Proofs.Grammar.Language
import ThreeAddress.Proofs.Grammar.Trees
import ThreeAddress.Proofs.Names

namespace ThreeAddress

namespace Stmt

mutual

/-- The blocks of a statement with their numbers, in the order of their opening braces. Of each
there is the number of the block around it, and its declarations. -/
def blocks (around : Option Nat) : Stmt → List (Scope × Nat)
  | .ifThen _ body => body.blocks around
  | .ifThenElse _ body otherwise => body.blocks around ++ otherwise.blocks around
  | .whileDo _ body => body.blocks around
  | .doWhile body _ => body.blocks around
  | .block number declarations body =>
      (⟨around, declarations⟩, number) :: allBlocks (some number) body
  | .assign _ _ _ | .breakLoop => []

def allBlocks (around : Option Nat) : List Stmt → List (Scope × Nat)
  | [] => []
  | first :: rest => first.blocks around ++ allBlocks around rest

end

end Stmt

namespace Grammar

mutual

theorem IsStatement.blocks_eq {visible : List String} {inLoop : Bool} {opened after : Nat}
    {tokens rest : List Token} (stmt : Stmt) (around : Option Nat)
    (derived : IsStatement visible inLoop opened tokens stmt after rest) :
    stmt.blocks around = (stmt.opens around).zipIdx opened ∧
      after = opened + (stmt.opens around).length := by
  match stmt, derived with
  | .assign _ _ _, .assign _ _ _ _ | .breakLoop, .breakLoop _ _ _ => exact ⟨rfl, rfl⟩
  | .ifThen _ body, .ifThen _ _ derived | .whileDo _ body, .whileDo _ _ derived
  | .doWhile body _, .doWhile _ derived _ _ _ => exact IsStatement.blocks_eq body around derived
  | .ifThenElse _ body otherwise, .ifThenElse _ _ derived _ other =>
      obtain ⟨bodyBlocks, rfl⟩ := IsStatement.blocks_eq body around derived
      obtain ⟨otherBlocks, rfl⟩ := IsStatement.blocks_eq otherwise around other
      rw [Stmt.blocks, Stmt.opens, bodyBlocks, otherBlocks, List.zipIdx_append, List.length_append]
      exact ⟨rfl, Nat.add_assoc ..⟩
  | .block _ declarations body, .block _ _ _ members _ =>
      obtain ⟨memberBlocks, rfl⟩ := AreStatements.blocks_eq body (some opened) members
      rw [Stmt.blocks, Stmt.opens, memberBlocks, List.zipIdx_cons, List.length_cons]
      exact ⟨rfl, by omega⟩

theorem AreStatements.blocks_eq {visible : List String} {inLoop : Bool} {opened after : Nat}
    {tokens rest : List Token} (body : List Stmt) (around : Option Nat)
    (derived : AreStatements visible inLoop opened tokens body after rest) :
    Stmt.allBlocks around body = (Stmt.allOpen around body).zipIdx opened ∧
      after = opened + (Stmt.allOpen around body).length := by
  match body, derived with
  | [], .nil => exact ⟨rfl, rfl⟩
  | first :: more, .cons firstDerived moreDerived =>
      obtain ⟨firstBlocks, rfl⟩ := IsStatement.blocks_eq first around firstDerived
      obtain ⟨moreBlocks, rfl⟩ := AreStatements.blocks_eq more around moreDerived
      rw [Stmt.allBlocks, Stmt.allOpen, firstBlocks, moreBlocks, List.zipIdx_append,
        List.length_append]
      exact ⟨rfl, Nat.add_assoc ..⟩

end

/-- A call of one of the readers of statements. -/
inductive Call where
  | statement (inLoop : Bool) (scope : Nat) (scopes : Scopes) (tokens : List Token)
  | statements (inLoop : Bool) (scope : Nat) (scopes : Scopes) (tokens : List Token)
  | block (inLoop : Bool) (parent : Option Nat) (scopes : Scopes) (tokens : List Token)

/-- In the course of a call, an expression is read in a scope, with names looked up in these
scopes. The rules follow the readers: each has the parts that are read before the expression. -/
inductive Meets (home : Nat) (seen : Scopes) (expr : Expr) : Call → Prop
  | target {inLoop} {token : Token} {rest name middle} : token.kind = .ident name →
      Finds (location (isDeclared seen home) name token rest) expr middle →
      Meets home seen expr (.statement inLoop home seen (token :: rest))
  | value {inLoop} {token sign : Token} {rest name target middle after} :
      token.kind = .ident name →
      Finds (location (isDeclared seen home) name token rest) target (sign :: middle) →
      sign.kind = .mark .assign → Finds (expression (isDeclared seen home) middle) expr after →
      Meets home seen expr (.statement inLoop home seen (token :: rest))
  | ifTest {inLoop} {token : Token} {rest middle} : token.kind = .keyword .ifWord →
      Finds (condition (isDeclared seen home) rest) expr middle →
      Meets home seen expr (.statement inLoop home seen (token :: rest))
  | ifBody {inLoop scope scopes} {token : Token} {rest test middle} :
      token.kind = .keyword .ifWord →
      Finds (condition (isDeclared scopes scope) rest) test middle →
      Meets home seen expr (.statement inLoop scope scopes middle) →
      Meets home seen expr (.statement inLoop scope scopes (token :: rest))
  | elseBody {inLoop scope scopes} {token next : Token} {rest test middle body between later} :
      token.kind = .keyword .ifWord →
      Finds (condition (isDeclared scopes scope) rest) test middle →
      Finds (statement inLoop scope scopes middle) (body, between) (next :: later) →
      next.kind = .keyword .elseWord →
      Meets home seen expr (.statement inLoop scope between later) →
      Meets home seen expr (.statement inLoop scope scopes (token :: rest))
  | whileTest {inLoop} {token : Token} {rest middle} : token.kind = .keyword .whileWord →
      Finds (condition (isDeclared seen home) rest) expr middle →
      Meets home seen expr (.statement inLoop home seen (token :: rest))
  | whileBody {inLoop scope scopes} {token : Token} {rest test middle} :
      token.kind = .keyword .whileWord →
      Finds (condition (isDeclared scopes scope) rest) test middle →
      Meets home seen expr (.statement true scope scopes middle) →
      Meets home seen expr (.statement inLoop scope scopes (token :: rest))
  | doBody {inLoop scope scopes} {token : Token} {rest} : token.kind = .keyword .doWord →
      Meets home seen expr (.statement true scope scopes rest) →
      Meets home seen expr (.statement inLoop scope scopes (token :: rest))
  | doTest {inLoop scopes} {token again : Token} {rest body middle after} :
      token.kind = .keyword .doWord →
      Finds (statement true home scopes rest) (body, seen) (again :: middle) →
      again.kind = .keyword .whileWord →
      Finds (condition (isDeclared seen home) middle) expr after →
      Meets home seen expr (.statement inLoop home scopes (token :: rest))
  | inner {inLoop scope scopes} {token : Token} {rest} : token.kind = .mark .openBrace →
      Meets home seen expr (.block inLoop (some scope) scopes rest) →
      Meets home seen expr (.statement inLoop scope scopes (token :: rest))
  | first {inLoop scope scopes} {token : Token} {rest} : token.kind ≠ .mark .closeBrace →
      Meets home seen expr (.statement inLoop scope scopes (token :: rest)) →
      Meets home seen expr (.statements inLoop scope scopes (token :: rest))
  | later {inLoop scope scopes} {token : Token} {rest first between middle} :
      token.kind ≠ .mark .closeBrace →
      Finds (statement inLoop scope scopes (token :: rest)) (first, between) middle →
      Meets home seen expr (.statements inLoop scope between middle) →
      Meets home seen expr (.statements inLoop scope scopes (token :: rest))
  | members {inLoop parent scopes tokens made within middle} :
      Finds (declarations (scopes.push parent) scopes.count tokens) (made, within) middle →
      Meets home seen expr (.statements inLoop scopes.count within middle) →
      Meets home seen expr (.block inLoop parent scopes tokens)

/-- An expression is read in a scope in the course of a call, whatever the scopes are then. -/
def Met (call : Call) (home : Nat) (expr : Expr) : Prop :=
  ∃ seen, Meets home seen expr call

theorem Met.through {call whole : Call} {home : Nat} {expr : Expr}
    (rule : ∀ seen, Meets home seen expr call → Meets home seen expr whole)
    (met : Met call home expr) : Met whole home expr := by
  obtain ⟨seen, meets⟩ := met
  exact ⟨seen, rule seen meets⟩

mutual

/-- Every expression in a statement has been met. -/
theorem statement_met {inLoop : Bool} {scope : Nat} {scopes : Scopes} (tokens : List Token)
    {stmt : Stmt} {final : Scopes} {rest : List Token}
    (found : Finds (statement inLoop scope scopes tokens) (stmt, final) rest) :
    stmt.EachExpr (Met (.statement inLoop scope scopes tokens)) scope := by
  match tokens with
  | [] => exact (finds_statement_nil found).elim
  | token :: after =>
      rcases finds_statement_kind found with ⟨name, kind⟩ | kind | kind | kind | kind | kind
      · obtain ⟨_, assigned, same⟩ := (finds_statement_assign kind).mp found
        cases same
        obtain ⟨target, sign, middle, value, semicolon, place, equals, valueFound, ends, rfl⟩ :=
          finds_assignment.mp assigned
        exact ⟨⟨scopes, .target kind place⟩, ⟨scopes, .value kind place equals valueFound⟩⟩
      · obtain ⟨test, middle, body, between, next, later, tested, bodyFound, last⟩ :=
          (finds_statement_if kind).mp found
        have first := tested.within
        have second := bodyFound.within
        have testMet : Met (.statement inLoop scope scopes (token :: after)) scope test :=
          ⟨scopes, .ifTest kind tested⟩
        have bodyMet := Stmt.EachExpr.imp body
          (fun _ _ => Met.through fun _ => .ifBody kind tested) (statement_met middle bodyFound)
        rcases last with ⟨isElse, otherwise, last, elseFound, same⟩ | ⟨-, -, same⟩
        · cases same
          exact ⟨testMet, bodyMet, Stmt.EachExpr.imp otherwise
            (fun _ _ => Met.through fun _ => .elseBody kind tested bodyFound isElse)
            (statement_met later elseFound)⟩
        · cases same
          exact ⟨testMet, bodyMet⟩
      · obtain ⟨test, middle, body, last, tested, bodyFound, same⟩ :=
          (finds_statement_while kind).mp found
        cases same
        have first := tested.within
        exact ⟨⟨scopes, .whileTest kind tested⟩, Stmt.EachExpr.imp body
          (fun _ _ => Met.through fun _ => .whileBody kind tested) (statement_met middle bodyFound)⟩
      · obtain ⟨body, last, again, middle, test, semicolon, bodyFound, isWhile, tested, ends,
          same⟩ := (finds_statement_do kind).mp found
        cases same
        exact ⟨Stmt.EachExpr.imp body (fun _ _ => Met.through fun _ => .doBody kind)
          (statement_met after bodyFound), ⟨_, .doTest kind bodyFound isWhile tested⟩⟩
      · obtain ⟨inside, semicolon, rfl, ends, same⟩ := (finds_statement_break kind).mp found
        cases same
        trivial
      · obtain ⟨inner, last, blockFound, same⟩ := (finds_statement_block kind).mp found
        cases same
        exact Stmt.EachExpr.imp inner.stmt (fun _ _ => Met.through fun _ => .inner kind)
          (block_met after blockFound)
termination_by 3 * tokens.length
decreasing_by all_goals (simp only [List.length_cons] at *; omega)

theorem statements_met {inLoop : Bool} {scope : Nat} {scopes : Scopes} (tokens : List Token)
    {body : List Stmt} {final : Scopes} {rest : List Token}
    (found : Finds (statements inLoop scope scopes tokens) (body, final) rest) :
    Stmt.EachExprOfAll (Met (.statements inLoop scope scopes tokens)) scope body := by
  match tokens with
  | [] => exact (finds_statements_nil found).elim
  | token :: after =>
      by_cases closing : token.kind = .mark .closeBrace
      · obtain ⟨same, rfl⟩ := (finds_statements_stop closing).mp found
        cases same
        trivial
      · obtain ⟨first, between, middle, others, last, firstFound, othersFound, same⟩ :=
          (finds_statements_step closing).mp found
        cases same
        have shorter := firstFound.within
        exact ⟨Stmt.EachExpr.imp first (fun _ _ => Met.through fun _ => .first closing)
          (statement_met (token :: after) firstFound),
          Stmt.EachExprOfAll.imp others (fun _ _ => Met.through fun _ => .later closing firstFound)
            (statements_met middle othersFound)⟩
termination_by 3 * tokens.length + 1
decreasing_by all_goals (simp only [List.length_cons] at *; omega)

theorem block_met {inLoop : Bool} {parent : Option Nat} {scopes : Scopes} {outer : Nat}
    (tokens : List Token) {inner : Block} {final : Scopes} {rest : List Token}
    (found : Finds (block inLoop parent scopes tokens) (inner, final) rest) :
    inner.stmt.EachExpr (Met (.block inLoop parent scopes tokens)) outer := by
  obtain ⟨made, within, middle, body, last, declared, members, same⟩ := finds_block.mp found
  cases same
  have shorter := declared.within
  exact Stmt.EachExprOfAll.imp body (fun _ _ => Met.through fun _ => .members declared)
    (statements_met middle members)
termination_by 3 * tokens.length + 2
decreasing_by omega

end

theorem names_extend {expr operand : Expr} {line : Nat} {op : BinaryOp} {good : String → Prop}
    (whole : ∀ name ∈ expr.names, good name) (part : ∀ name ∈ operand.names, good name) :
    ∀ name ∈ (expr.extend line op operand).names, good name := by
  fun_induction Expr.extend expr line op operand with
  | case1 _ _ left right _ ih =>
      rw [Expr.names_binary, List.forall_mem_append] at whole ⊢
      exact ⟨whole.1, ih whole.2⟩
  | case2 | case3 =>
      rw [Expr.names_binary, List.forall_mem_append]
      exact ⟨whole, part⟩

mutual

/-- A reader of expressions only accepts names that are declared. -/
theorem expression_names {declared : String → Bool} (tokens : List Token) {expr : Expr}
    {rest : List Token} (found : Finds (expression declared tokens) expr rest) :
    ∀ name ∈ expr.names, declared name = true := by
  obtain ⟨first, middle, firstFound, others⟩ := finds_expression.mp found
  have shorter := firstFound.within
  exact operations_names middle (factor_names tokens firstFound) others
termination_by 4 * tokens.length + 1
decreasing_by all_goals omega

theorem operations_names {declared : String → Bool} (tokens : List Token) {left expr : Expr}
    {rest : List Token} (before : ∀ name ∈ left.names, declared name = true)
    (found : Finds (operations declared left tokens) expr rest) :
    ∀ name ∈ expr.names, declared name = true := by
  match tokens with
  | [] => exact (finds_operations_nil found).elim
  | token :: after =>
      cases sign : BinaryOp.ofKind? token.kind with
      | none =>
          obtain ⟨rfl, -⟩ := (finds_operations_stop sign).mp found
          exact before
      | some op =>
          obtain ⟨right, middle, rightFound, others⟩ := (finds_operations_step sign).mp found
          have shorter := rightFound.within
          exact operations_names middle (names_extend before (factor_names after rightFound)) others
termination_by 4 * tokens.length
decreasing_by all_goals (simp only [List.length_cons] at *; omega)

theorem factor_names {declared : String → Bool} (tokens : List Token) {expr : Expr}
    {rest : List Token} (found : Finds (factor declared tokens) expr rest) :
    ∀ name ∈ expr.names, declared name = true := by
  match tokens with
  | [] => exact (finds_factor_nil found).elim
  | token :: after =>
      rcases finds_factor.mp found with ⟨op, operand, -, inner, rfl⟩ |
        ⟨inner, closing, -, innerFound, -, rfl⟩ | ⟨value, -, rfl, -⟩ | ⟨value, -, rfl, -⟩ |
        ⟨-, rfl, -⟩ | ⟨-, rfl, -⟩ | ⟨name, -, place⟩
      · rw [Expr.names_unary]
        exact factor_names after inner
      · rw [Expr.names_paren]
        exact expression_names after innerFound
      · exact nofun
      · exact nofun
      · exact nofun
      · exact nofun
      · exact location_names after place
termination_by 4 * tokens.length
decreasing_by all_goals (simp only [List.length_cons] at *; omega)

theorem location_names {declared : String → Bool} {name : String} {token : Token}
    (tokens : List Token) {expr : Expr} {rest : List Token}
    (found : Finds (location declared name token tokens) expr rest) :
    ∀ name ∈ expr.names, declared name = true := by
  obtain ⟨known, indices, indicesFound, rfl⟩ := finds_location.mp found
  rw [Expr.names_loc]
  exact List.forall_mem_cons.mpr ⟨known, subscripts_names tokens indicesFound⟩
termination_by 4 * tokens.length + 3
decreasing_by all_goals omega

theorem subscripts_names {declared : String → Bool} (tokens : List Token) {indices : List Expr}
    {rest : List Token} (found : Finds (subscripts declared tokens) indices rest) :
    ∀ name ∈ Expr.allNames indices, declared name = true := by
  match tokens with
  | [] => exact (finds_subscripts_nil found).elim
  | token :: after =>
      by_cases opening : token.kind = .mark .openBracket
      · obtain ⟨index, closing, middle, more, indexFound, closes, others, rfl⟩ :=
          (finds_subscripts_step opening).mp found
        have shorter := indexFound.within
        rw [Expr.allNames_cons, List.forall_mem_append]
        exact ⟨expression_names after indexFound, subscripts_names middle others⟩
      · obtain ⟨rfl, -⟩ := (finds_subscripts_stop opening).mp found
        exact nofun
termination_by 4 * tokens.length + 2
decreasing_by all_goals (simp only [List.length_cons] at *; omega)

end

theorem condition_names {declared : String → Bool} {tokens rest : List Token} {expr : Expr}
    (found : Finds (condition declared tokens) expr rest) :
    ∀ name ∈ expr.names, declared name = true := by
  obtain ⟨_, middle, _, -, -, valueFound, -⟩ := finds_condition.mp found
  exact expression_names middle valueFound

/-- Names are looked up from a scope that is there. -/
def Call.Ready : Call → Prop
  | .statement _ scope scopes _ | .statements _ scope scopes _ =>
      ∃ visible, scopes.Around (some scope) visible ∧ scopes.Ordered
  | .block _ parent scopes _ => ∃ visible, scopes.Around parent visible ∧ scopes.Ordered

/-- The call succeeds and leaves these scopes. -/
def Call.Leaves : Call → Scopes → Prop
  | .statement inLoop scope scopes tokens, final =>
      ∃ stmt rest, Finds (Grammar.statement inLoop scope scopes tokens) (stmt, final) rest
  | .statements inLoop scope scopes tokens, final =>
      ∃ body rest, Finds (Grammar.statements inLoop scope scopes tokens) (body, final) rest
  | .block inLoop parent scopes tokens, final =>
      ∃ inner rest, Finds (Grammar.block inLoop parent scopes tokens) (inner, final) rest

/-- The names of an expression have been found in some scopes, which have only been extended
since. -/
structure Stays (home : Nat) (seen : Scopes) (expr : Expr) (final : Scopes) : Prop where
  declared : ∀ name ∈ expr.names, isDeclared seen home name = true
  inside : home < seen.count
  ordered : seen.Ordered
  grown : ∃ more, final = seen.extend more

variable {home : Nat} {seen final later : Scopes} {expr : Expr} {call : Call}

theorem Stays.extend (stays : Stays home seen expr final) (more : List Scope) :
    Stays home seen expr (final.extend more) where
  declared := stays.declared
  inside := stays.inside
  ordered := stays.ordered
  grown := by
    obtain ⟨first, rfl⟩ := stays.grown
    exact ⟨first ++ more, Scopes.extend_extend⟩

theorem finds_unique {α : Type} {bound : Nat} {reading : Except Failure (Phrase α bound)}
    {value other : α} {rest after : List Token} (found : Finds reading value rest)
    (again : Finds reading other after) : value = other ∧ rest = after := by
  obtain ⟨_, same⟩ := found
  obtain ⟨_, alsoSame⟩ := again
  cases same.symm.trans alsoSame
  exact ⟨rfl, rfl⟩

theorem statement_extends {visible : List String} {inLoop : Bool} {scope : Nat} {scopes : Scopes}
    {tokens : List Token} (around : scopes.Around (some scope) visible) (ordered : scopes.Ordered)
    (leaves : (Call.statement inLoop scope scopes tokens).Leaves final) :
    ∃ more, final = scopes.extend more := by
  obtain ⟨stmt, rest, found⟩ := leaves
  exact ⟨_, (statement_sound around ordered tokens found).grown⟩

theorem Meets.stays (meets : Meets home seen expr call) (ready : call.Ready)
    (leaves : call.Leaves final) : Stays home seen expr final := by
  induction meets generalizing final with
  | target kind place =>
      obtain ⟨visible, around, ordered⟩ := ready
      exact ⟨location_names _ place, around.inside _ rfl, ordered,
        statement_extends around ordered leaves⟩
  | value kind place equals valueFound =>
      obtain ⟨visible, around, ordered⟩ := ready
      exact ⟨expression_names _ valueFound, around.inside _ rfl, ordered,
        statement_extends around ordered leaves⟩
  | ifTest kind tested | whileTest kind tested =>
      obtain ⟨visible, around, ordered⟩ := ready
      exact ⟨condition_names tested, around.inside _ rfl, ordered,
        statement_extends around ordered leaves⟩
  | ifBody kind tested _ ih =>
      obtain ⟨visible, around, ordered⟩ := ready
      obtain ⟨stmt, rest, found⟩ := leaves
      obtain ⟨_, _, body, between, next, later, testedAgain, bodyFound, last⟩ :=
        (finds_statement_if kind).mp found
      obtain ⟨rfl, rfl⟩ := finds_unique tested testedAgain
      have stays := ih ⟨visible, around, ordered⟩ ⟨body, _, bodyFound⟩
      rcases last with ⟨-, otherwise, last, elseFound, same⟩ | ⟨-, -, same⟩
      · cases same
        have bodyReads := statement_sound around ordered _ bodyFound
        have elseReads := statement_sound (bodyReads.around around ordered) bodyReads.ordered _
          elseFound
        rw [elseReads.grown]
        exact stays.extend _
      · cases same
        exact stays
  | elseBody kind tested bodyFound isElse _ ih =>
      obtain ⟨visible, around, ordered⟩ := ready
      obtain ⟨stmt, rest, found⟩ := leaves
      obtain ⟨_, _, body, between, next, later, testedAgain, bodyAgain, last⟩ :=
        (finds_statement_if kind).mp found
      obtain ⟨rfl, rfl⟩ := finds_unique tested testedAgain
      obtain ⟨same, sameRest⟩ := finds_unique bodyFound bodyAgain
      cases same
      cases sameRest
      rcases last with ⟨-, otherwise, last, elseFound, same⟩ | ⟨notElse, -⟩
      · cases same
        have bodyReads := statement_sound around ordered _ bodyFound
        exact ih ⟨visible, bodyReads.around around ordered, bodyReads.ordered⟩
          ⟨otherwise, _, elseFound⟩
      · exact (notElse isElse).elim
  | whileBody kind tested _ ih =>
      obtain ⟨stmt, rest, found⟩ := leaves
      obtain ⟨_, _, body, last, testedAgain, bodyFound, same⟩ := (finds_statement_while kind).mp found
      cases same
      obtain ⟨rfl, rfl⟩ := finds_unique tested testedAgain
      exact ih ready ⟨body, _, bodyFound⟩
  | doBody kind _ ih =>
      obtain ⟨stmt, rest, found⟩ := leaves
      obtain ⟨body, last, _, _, _, _, bodyFound, -, -, -, same⟩ := (finds_statement_do kind).mp found
      cases same
      exact ih ready ⟨body, _, bodyFound⟩
  | doTest kind bodyFound isWhile tested =>
      obtain ⟨visible, around, ordered⟩ := ready
      obtain ⟨stmt, rest, found⟩ := leaves
      obtain ⟨_, _, _, _, _, _, bodyAgain, -, -, -, same⟩ := (finds_statement_do kind).mp found
      cases same
      obtain ⟨same, -⟩ := finds_unique bodyFound bodyAgain
      cases same
      have bodyReads := statement_sound around ordered _ bodyFound
      exact ⟨condition_names tested, (bodyReads.around around ordered).inside _ rfl,
        bodyReads.ordered, [], Scopes.extend_nil.symm⟩
  | inner kind _ ih =>
      obtain ⟨stmt, rest, found⟩ := leaves
      obtain ⟨inner, last, blockFound, same⟩ := (finds_statement_block kind).mp found
      cases same
      exact ih ready ⟨inner, _, blockFound⟩
  | first more _ ih =>
      obtain ⟨visible, around, ordered⟩ := ready
      obtain ⟨body, rest, found⟩ := leaves
      obtain ⟨stmt, between, _, _, _, firstFound, othersFound, same⟩ :=
        (finds_statements_step more).mp found
      cases same
      have firstReads := statement_sound around ordered _ firstFound
      obtain ⟨-, -, grown, -⟩ :=
        statements_sound (firstReads.around around ordered) firstReads.ordered _ othersFound
      rw [grown]
      exact (ih ⟨visible, around, ordered⟩ ⟨stmt, _, firstFound⟩).extend _
  | later more firstFound _ ih =>
      obtain ⟨visible, around, ordered⟩ := ready
      obtain ⟨body, rest, found⟩ := leaves
      obtain ⟨_, _, _, others, _, firstAgain, othersFound, same⟩ :=
        (finds_statements_step more).mp found
      cases same
      obtain ⟨same, rfl⟩ := finds_unique firstFound firstAgain
      cases same
      have firstReads := statement_sound around ordered _ firstFound
      exact ih ⟨visible, firstReads.around around ordered, firstReads.ordered⟩
        ⟨others, _, othersFound⟩
  | members declared _ ih =>
      obtain ⟨visible, around, ordered⟩ := ready
      obtain ⟨inner, rest, found⟩ := leaves
      obtain ⟨_, _, _, body, _, declaredAgain, membersFound, same⟩ := finds_block.mp found
      cases same
      obtain ⟨same, rfl⟩ := finds_unique declared declaredAgain
      cases same
      rw [Scopes.push_eq_extend] at declared
      have none : (([] : List Declaration).map Declaration.name).Nodup := List.nodup_nil
      obtain ⟨-, rfl, -⟩ := declarations_sound _ none declared
      exact ih ⟨_, around.block ordered, ordered.extend around.inside⟩ ⟨body, _, membersFound⟩

theorem Stays.lookup (stays : Stays home seen expr final) (ordered : final.Ordered) {name : String}
    (member : name ∈ expr.names) : ∃ declaration, seen.lookup home name = some declaration ∧
      final.lookup home name = some declaration := by
  obtain ⟨declaration, found⟩ := Option.isSome_iff_exists.mp (stays.declared name member)
  have means := (Scopes.lookup_eq_some_iff stays.ordered).mp found
  obtain ⟨more, rfl⟩ := stays.grown
  exact ⟨declaration, found, (Scopes.lookup_eq_some_iff ordered).mpr means.extend⟩

end Grammar

open Grammar

/-- The call that reads the outermost block of a text, behind its opening brace. -/
def Program.reading (filename source : String) : Call :=
  .block false none {} (Lexer.ofText filename source).run.tokens.tail

/-- The scopes of a program that is read are those of its blocks, numbered as the blocks open. Each
of its expressions is met while reading, with names that mean then what they mean in the end. So
checking and lowering do the same with any scopes where the names mean what they meant then. -/
theorem scopes_mirror_blocks {filename source : String} {program : Program}
    (parsed : Program.parse filename source = .ok program) :
    program.block.stmt.blocks none = program.scopes.all.toList.zipIdx ∧
    program.block.stmt.EachExpr (Met (Program.reading filename source)) program.block.scope ∧
    (∀ home seen expr, Meets home seen expr (Program.reading filename source) →
      ∀ name ∈ expr.names, ∃ declaration, seen.lookup home name = some declaration ∧
        program.scopes.lookup home name = some declaration) ∧
    ∀ other : Scopes, (∀ home seen expr, Meets home seen expr (Program.reading filename source) →
        other.Alike seen home expr) →
      (Program.mk program.block other).check = (⟨program.check.1.block, other⟩, program.check.2) ∧
      ∀ checked names, program.check = (checked, .ok ()) →
        (Program.mk checked.block other).lower names = checked.lower names := by
  have read := Program.parse_eq_ok_iff.mp parsed
  obtain ⟨fromSource, -⟩ := program_fromSource read
  obtain ⟨opening, middle, ending, others, whole, opens, found, -⟩ := program_eq_ok.mp read
  have call : Program.reading filename source = .block false none {} middle := by
    rw [Program.reading, whole, List.tail_cons]
  rw [call]
  have reads := block_sound opens .start .start middle found
  have met : program.block.stmt.EachExpr (Met (.block false none {} middle)) program.block.scope :=
    block_met middle found
  have stable : ∀ home seen expr, Meets home seen expr (.block false none {} middle) →
      ∀ name ∈ expr.names, ∃ declaration, seen.lookup home name = some declaration ∧
        program.scopes.lookup home name = some declaration := by
    intro home seen expr meets name member
    have stays := meets.stays ⟨[], .start, .start⟩ ⟨_, _, found⟩
    exact stays.lookup reads.ordered member
  refine ⟨?_, met, stable, fun other alike => ?_⟩
  · obtain ⟨blocks, -⟩ := IsStatement.blocks_eq _ none reads.derived
    rw [blocks, reads.grown]
    simp [Scopes.extend, Scopes.count]
  · have same : program.block.stmt.EachExpr (other.Alike program.scopes) program.block.scope := by
      refine Stmt.EachExpr.imp _ (fun home expr meeting name member => ?_) met
      obtain ⟨seen, meets⟩ := meeting
      obtain ⟨declaration, before, later⟩ := stable home seen expr meets name member
      rw [alike home seen expr meets name member, before, later]
    refine ⟨?_, fun checked names accepted => ?_⟩
    · rw [Program.check, Program.check, Stmt.checkAll_congr program.block.body same]
    · obtain ⟨body, bodyAccepted, rfl⟩ := Program.check_eq_ok.mp accepted
      obtain ⟨erased, -⟩ := Stmt.checkAll_sound reads.ordered _
        (Stmt.AllFromSource.tempFree _ fromSource) bodyAccepted
      have bodySame := Stmt.alike_of_eraseAll_eq erased same
      exact congrArg (fun work => work.run.run names) (Stmt.lowerAll_congr body bodySame)

/-- Blocks in and after one another. The name `x` means two declarations. -/
def shadowedName : String :=
  "\x7b int x; x = 1; \x7b float x; \x7b int y; y = x; \x7d x = 2; \x7d \x7b x = 3; \x7d \x7d"

theorem shadowedName_mirrored : ∃ program, Program.parse "shadowed" shadowedName = .ok program ∧
    program.scopes.all.toList.map Scope.parent = [none, some 0, some 1, some 0] ∧
    program.block.stmt.blocks none = program.scopes.all.toList.zipIdx ∧
    program.block.stmt.EachExpr (Met (Program.reading "shadowed" shadowedName))
      program.block.scope := by
  have parsed : ∃ program, Program.parse "shadowed" shadowedName = .ok program ∧
      program.scopes.all.toList.map Scope.parent = [none, some 0, some 1, some 0] :=
    ⟨_, by cbv, rfl⟩
  obtain ⟨program, parsed, parents⟩ := parsed
  obtain ⟨blocks, met, -⟩ := scopes_mirror_blocks parsed
  exact ⟨program, parsed, parents, blocks, met⟩

end ThreeAddress

import ThreeAddress.Proofs.Typing.Annotation

namespace ThreeAddress

/-!
# The way of a check

A check goes through a tree from stop to stop. At each one a rule is tested: that a
name is declared and takes so many indices, that an index is an integer, that a node has
a type once those below it have theirs, that a location takes the value assigned to it.
The type of a node is noted at its own stop. A check that fails gets to the first stop
whose rule is broken, so the types noted by then are those of the nodes before it.
-/

inductive Stop where
  /-- A name is looked up, before its indices. -/
  | lookup (note : Note) (id : Ident) (given : Nat)
  | subscript (index : Expr)
  | finish (node : Expr)
  | store (target value : Expr) (line : Nat)

/-- A stop in a block of this scope. -/
structure Visit where
  scope : Nat
  stop : Stop

namespace Stop

/-- The line that a broken rule is reported for. -/
def line : Stop → Nat
  | .lookup note _ _ => note.line
  | .subscript index => index.line
  | .finish node => node.line
  | .store _ _ line => line

def node? : Stop → Option Expr
  | .finish node => some node
  | _ => none

def erase : Stop → Stop
  | .lookup note id given => .lookup { note with type := none } id given
  | .subscript index => .subscript index.erase
  | .finish node => .finish node.erase
  | .store target value line => .store target.erase value.erase line

/-- The rule that is tested holds, where names have types. -/
def Obeys (declares : String → DeclaredType → Prop) : Stop → Prop
  | .lookup _ id given => ∃ declared, declares id.name declared ∧ given = declared.dims.length
  | .subscript index => index.HasType declares .int
  | .finish node => ∃ type, node.HasType declares type
  | .store target value _ => ∃ targetType valueType, target.HasType declares targetType ∧
      value.HasType declares valueType ∧ targetType.Accepts valueType

end Stop

namespace Visit

def erase (visit : Visit) : Visit :=
  { visit with stop := visit.stop.erase }

def Obeys (scopes : Scopes) (visit : Visit) : Prop :=
  visit.stop.Obeys (scopes.GivesType visit.scope)

/-- The node whose type is noted at the stop, if there is one, is good. -/
def EachNode (good : Nat → Expr → Prop) (visit : Visit) : Prop :=
  ∀ node, visit.stop.node? = some node → good visit.scope node

/-- The node has the one type noted that the rules give it. -/
def Noted (scopes : Scopes) : Visit → Prop :=
  EachNode fun scope node => node.Noted (scopes.GivesType scope)

def Unnoted : Visit → Prop :=
  EachNode fun _ node => node.type = none

end Visit

mutual

def Expr.visits (scope : Nat) : Expr → List Visit
  | .binary note op left right =>
      left.visits scope ++ right.visits scope ++ [⟨scope, .finish (.binary note op left right)⟩]
  | .unary note op operand => operand.visits scope ++ [⟨scope, .finish (.unary note op operand)⟩]
  | .paren note inner => inner.visits scope ++ [⟨scope, .finish (.paren note inner)⟩]
  | .loc note id indices =>
      ⟨scope, .lookup note id indices.length⟩ :: Expr.indicesVisits scope indices ++
        [⟨scope, .finish (.loc note id indices)⟩]
  | .int note value => [⟨scope, .finish (.int note value)⟩]
  | .real note value => [⟨scope, .finish (.real note value)⟩]
  | .bool note value => [⟨scope, .finish (.bool note value)⟩]
  | .temp note number => [⟨scope, .finish (.temp note number)⟩]

def Expr.indicesVisits (scope : Nat) : List Expr → List Visit
  | [] => []
  | index :: rest =>
      index.visits scope ++ ⟨scope, .subscript index⟩ :: Expr.indicesVisits scope rest

end

mutual

/-- The stops in a statement. Only the condition of a loop that tests it behind its body comes
after a statement that it belongs to. -/
def Stmt.visits (scope : Nat) : Stmt → List Visit
  | .assign target value line =>
      target.visits scope ++ value.visits scope ++ [⟨scope, .store target value line⟩]
  | .ifThen condition body => condition.visits scope ++ body.visits scope
  | .ifThenElse condition body otherwise =>
      condition.visits scope ++ body.visits scope ++ otherwise.visits scope
  | .whileDo condition body => condition.visits scope ++ body.visits scope
  | .doWhile body condition => body.visits scope ++ condition.visits scope
  | .breakLoop => []
  | .block inner _ body => Stmt.allVisits inner body

def Stmt.allVisits (scope : Nat) : List Stmt → List Visit
  | [] => []
  | first :: rest => first.visits scope ++ Stmt.allVisits scope rest

end

def Program.visits (program : Program) : List Visit :=
  Stmt.allVisits program.block.scope program.block.body

theorem Visit.eachNode_node {good : Nat → Expr → Prop} {scope : Nat} {node : Expr} :
    Visit.EachNode good ⟨scope, .finish node⟩ ↔ good scope node := by
  simp [Visit.EachNode, Stop.node?]

namespace Expr

variable {good : Nat → Expr → Prop} {scope : Nat}

mutual

/-- There is a stop for each node of an expression. -/
theorem eachNode_visits (expr : Expr) :
    (∀ visit ∈ expr.visits scope, visit.EachNode good) ↔ ∀ node ∈ expr.nodes, good scope node := by
  match expr with
  | .binary note op left right =>
      rw [visits, nodes, List.forall_mem_append, List.forall_mem_append, List.forall_mem_singleton,
        List.forall_mem_cons, List.forall_mem_append, Visit.eachNode_node, eachNode_visits left,
        eachNode_visits right, and_comm]
  | .unary note op operand =>
      rw [visits, nodes, List.forall_mem_append, List.forall_mem_singleton, List.forall_mem_cons,
        Visit.eachNode_node, eachNode_visits operand, and_comm]
  | .paren note inner =>
      rw [visits, nodes, List.forall_mem_append, List.forall_mem_singleton, List.forall_mem_cons,
        Visit.eachNode_node, eachNode_visits inner, and_comm]
  | .loc note id indices =>
      have noNode : Visit.EachNode good ⟨scope, .lookup note id indices.length⟩ := nofun
      rw [visits, nodes, List.cons_append, List.forall_mem_cons, List.forall_mem_append,
        List.forall_mem_singleton, List.forall_mem_cons, Visit.eachNode_node,
        eachNode_indicesVisits indices, and_iff_right noNode, and_comm]
  | .int _ _ | .real _ _ | .bool _ _ | .temp _ _ =>
      rw [visits, nodes, List.forall_mem_singleton, List.forall_mem_singleton, Visit.eachNode_node]

theorem eachNode_indicesVisits (indices : List Expr) :
    (∀ visit ∈ indicesVisits scope indices, visit.EachNode good) ↔
      ∀ node ∈ indicesNodes indices, good scope node := by
  match indices with
  | [] => simp [indicesVisits, indicesNodes]
  | index :: rest =>
      have noNode : Visit.EachNode good ⟨scope, .subscript index⟩ := nofun
      rw [indicesVisits, indicesNodes, List.forall_mem_append, List.forall_mem_cons,
        List.forall_mem_append, eachNode_visits index, eachNode_indicesVisits rest,
        and_iff_right noNode]

end

mutual

theorem visits_erase (expr : Expr) :
    expr.erase.visits scope = (expr.visits scope).map Visit.erase := by
  match expr with
  | .binary note op left right =>
      rw [erase, visits, visits, visits_erase left, visits_erase right, List.map_append,
        List.map_append]
      rfl
  | .unary note op operand =>
      rw [erase, visits, visits, visits_erase operand, List.map_append]
      rfl
  | .paren note inner =>
      rw [erase, visits, visits, visits_erase inner, List.map_append]
      rfl
  | .loc note id indices =>
      rw [erase, visits, visits, indicesVisits_erase indices, List.map_append, List.map_cons,
        eraseAll_eq_map, List.length_map, ← eraseAll_eq_map]
      rfl
  | .int _ _ | .real _ _ | .bool _ _ | .temp _ _ => rfl

theorem indicesVisits_erase (indices : List Expr) :
    indicesVisits scope (eraseAll indices) = (indicesVisits scope indices).map Visit.erase := by
  match indices with
  | [] => rfl
  | index :: rest =>
      rw [eraseAll, indicesVisits, indicesVisits, visits_erase index, indicesVisits_erase rest,
        List.map_append]
      rfl

end

end Expr

namespace Stmt

variable {good : Nat → Expr → Prop}

mutual

theorem eachNode_visits (stmt : Stmt) {scope : Nat} :
    (∀ visit ∈ stmt.visits scope, visit.EachNode good) ↔
      stmt.EachExpr (fun home expr => ∀ node ∈ expr.nodes, good home node) scope := by
  match stmt with
  | .assign target value line =>
      have noNode : Visit.EachNode good ⟨scope, .store target value line⟩ := nofun
      rw [visits, EachExpr, List.forall_mem_append, List.forall_mem_append,
        List.forall_mem_singleton, Expr.eachNode_visits target, Expr.eachNode_visits value,
        and_iff_left noNode]
  | .ifThen condition body | .whileDo condition body =>
      rw [visits, EachExpr, List.forall_mem_append, Expr.eachNode_visits condition,
        eachNode_visits body]
  | .ifThenElse condition body otherwise =>
      rw [visits, EachExpr, List.forall_mem_append, List.forall_mem_append,
        Expr.eachNode_visits condition, eachNode_visits body, eachNode_visits otherwise, and_assoc]
  | .doWhile body condition =>
      rw [visits, EachExpr, List.forall_mem_append, Expr.eachNode_visits condition,
        eachNode_visits body]
  | .breakLoop => simp [visits, EachExpr]
  | .block inner declarations body => rw [visits, EachExpr, eachNode_allVisits body]

/-- There is a stop for each node of each expression. -/
theorem eachNode_allVisits (body : List Stmt) {scope : Nat} :
    (∀ visit ∈ allVisits scope body, visit.EachNode good) ↔
      EachExprOfAll (fun home expr => ∀ node ∈ expr.nodes, good home node) scope body := by
  match body with
  | [] => simp [allVisits, EachExprOfAll]
  | first :: rest =>
      rw [allVisits, EachExprOfAll, List.forall_mem_append, eachNode_visits first,
        eachNode_allVisits rest]

end

mutual

theorem visits_erase (stmt : Stmt) {scope : Nat} :
    stmt.erase.visits scope = (stmt.visits scope).map Visit.erase := by
  match stmt with
  | .assign target value line =>
      rw [erase, visits, visits, Expr.visits_erase target, Expr.visits_erase value,
        List.map_append, List.map_append]
      rfl
  | .ifThen condition body | .whileDo condition body | .doWhile body condition =>
      rw [erase, visits, visits, Expr.visits_erase condition, visits_erase body, List.map_append]
  | .ifThenElse condition body otherwise =>
      rw [erase, visits, visits, Expr.visits_erase condition, visits_erase body,
        visits_erase otherwise, List.map_append, List.map_append]
  | .breakLoop => rfl
  | .block inner declarations body => rw [erase, visits, visits, allVisits_erase body]

theorem allVisits_erase (body : List Stmt) {scope : Nat} :
    allVisits scope (eraseAll body) = (allVisits scope body).map Visit.erase := by
  match body with
  | [] => rfl
  | first :: rest =>
      rw [eraseAll, allVisits, allVisits, visits_erase first, allVisits_erase rest,
        List.map_append]

end

end Stmt

theorem Expr.line_erase (expr : Expr) : expr.erase.line = expr.line := by
  cases expr <;> rfl

theorem Stop.line_erase (stop : Stop) : stop.erase.line = stop.line := by
  cases stop with
  | subscript index => exact index.line_erase
  | finish node => exact node.line_erase
  | _ => rfl

/-- The types that are noted play no part in the rules. -/
theorem Stop.Obeys.of_erase_eq {declares : String → DeclaredType → Prop} {stop other : Stop}
    (obeys : other.Obeys declares) (same : stop.erase = other.erase) : stop.Obeys declares := by
  cases other with
  | lookup note id given =>
      cases stop with
      | lookup =>
          simp only [erase, lookup.injEq] at same
          obtain ⟨-, rfl, rfl⟩ := same
          exact obeys
      | _ => simp [erase] at same
  | subscript index =>
      cases stop with
      | subscript =>
          simp only [erase, subscript.injEq] at same
          exact Expr.HasType.of_erase_eq obeys same
      | _ => simp [erase] at same
  | finish node =>
      cases stop with
      | finish =>
          simp only [erase, finish.injEq] at same
          obtain ⟨type, typed⟩ := obeys
          exact ⟨type, typed.of_erase_eq same⟩
      | _ => simp [erase] at same
  | store target value line =>
      cases stop with
      | store =>
          simp only [erase, store.injEq] at same
          obtain ⟨sameTarget, sameValue, -⟩ := same
          obtain ⟨targetType, valueType, targetTyped, valueTyped, accepts⟩ := obeys
          exact ⟨targetType, valueType, targetTyped.of_erase_eq sameTarget,
            valueTyped.of_erase_eq sameValue, accepts⟩
      | _ => simp [erase] at same

namespace Visit

variable {scopes : Scopes} {visit other : Visit}

def line (visit : Visit) : Nat :=
  visit.stop.line

theorem line_eq_of_erase_eq (same : visit.erase = other.erase) : visit.line = other.line := by
  rw [line, line, ← visit.stop.line_erase, ← other.stop.line_erase]
  exact congrArg (fun visit => visit.stop.line) same

theorem Obeys.of_erase_eq (obeys : other.Obeys scopes) (same : visit.erase = other.erase) :
    visit.Obeys scopes := by
  obtain ⟨scope, stop⟩ := visit
  obtain ⟨otherScope, otherStop⟩ := other
  simp only [erase, mk.injEq] at same
  obtain ⟨rfl, sameStop⟩ := same
  exact Stop.Obeys.of_erase_eq obeys sameStop

theorem obeys_of_map_erase_eq {visits others : List Visit}
    (same : visits.map Visit.erase = others.map Visit.erase)
    (obey : ∀ visit ∈ others, visit.Obeys scopes) : ∀ visit ∈ visits, visit.Obeys scopes := by
  intro visit member
  have erased : visit.erase ∈ others.map Visit.erase := same ▸ List.mem_map_of_mem member
  obtain ⟨other, among, sameVisit⟩ := List.mem_map.mp erased
  exact (obey other among).of_erase_eq sameVisit.symm

/-- The rule holds, and the type is noted. -/
structure Passed (scopes : Scopes) (visit : Visit) : Prop where
  obeys : visit.Obeys scopes
  noted : visit.Noted scopes

end Visit

namespace Expr

variable {scopes : Scopes} {scope : Nat} {type : BasicType} {expr checked : Expr}

theorem indicesVisits_obey {indices : List Expr}
    (typed : ∀ index ∈ indices, index.HasType (scopes.GivesType scope) .int)
    (obey : ∀ index ∈ indices, ∀ visit ∈ index.visits scope, visit.Obeys scopes) :
    ∀ visit ∈ indicesVisits scope indices, visit.Obeys scopes := by
  induction indices with
  | nil => exact nofun
  | cons index rest ih =>
      obtain ⟨indexTyped, restTyped⟩ := List.forall_mem_cons.mp typed
      obtain ⟨indexObeys, restObey⟩ := List.forall_mem_cons.mp obey
      exact List.forall_mem_append.mpr
        ⟨indexObeys, List.forall_mem_cons.mpr ⟨indexTyped, ih restTyped restObey⟩⟩

theorem HasType.visits_obey (typed : expr.HasType (scopes.GivesType scope) type) :
    ∀ visit ∈ expr.visits scope, visit.Obeys scopes := by
  induction typed with
  | int => exact List.forall_mem_singleton.mpr ⟨_, .int⟩
  | real => exact List.forall_mem_singleton.mpr ⟨_, .real⟩
  | bool => exact List.forall_mem_singleton.mpr ⟨_, .bool⟩
  | loc declared full typed ih =>
      exact List.forall_mem_append.mpr ⟨List.forall_mem_cons.mpr
        ⟨⟨_, declared, full⟩, indicesVisits_obey typed ih⟩,
        List.forall_mem_singleton.mpr ⟨_, .loc declared full typed⟩⟩
  | paren typed ih =>
      exact List.forall_mem_append.mpr ⟨ih, List.forall_mem_singleton.mpr ⟨_, .paren typed⟩⟩
  | unary typed allows ih =>
      exact List.forall_mem_append.mpr
        ⟨ih, List.forall_mem_singleton.mpr ⟨_, .unary typed allows⟩⟩
  | binary left right allows leftIH rightIH =>
      exact List.forall_mem_append.mpr ⟨List.forall_mem_append.mpr ⟨leftIH, rightIH⟩,
        List.forall_mem_singleton.mpr ⟨_, .binary left right allows⟩⟩

/-- A check that succeeds gets past every stop. -/
theorem check_passed (ordered : scopes.Ordered) {result : ValueType} (tempFree : expr.TempFree)
    (accepted : expr.check (scopes.typeOf? scope) = (checked, .ok result)) :
    ∀ visit ∈ checked.visits scope, visit.Passed scopes := by
  obtain ⟨same, ⟨type, -, typed⟩, carries⟩ :=
    check_sound (Scopes.typeOf?_eq_some_iff ordered scope) expr tempFree accepted
  have noted : ∀ visit ∈ checked.visits scope, visit.Noted scopes :=
    (eachNode_visits checked).mpr carries
  intro visit member
  exact ⟨(typed.of_erase_eq same).visits_obey visit member, noted visit member⟩

end Expr

namespace Stmt

variable {scopes : Scopes} {scope : Nat} {stmt checked : Stmt}

theorem allVisits_obey {body : List Stmt}
    (obey : ∀ stmt ∈ body, ∀ visit ∈ stmt.visits scope, visit.Obeys scopes) :
    ∀ visit ∈ allVisits scope body, visit.Obeys scopes := by
  induction body with
  | nil => exact nofun
  | cons first rest ih =>
      obtain ⟨firstObeys, restObey⟩ := List.forall_mem_cons.mp obey
      exact List.forall_mem_append.mpr ⟨firstObeys, ih restObey⟩

theorem WellTyped.visits_obey (typed : stmt.WellTyped scopes scope) :
    ∀ visit ∈ stmt.visits scope, visit.Obeys scopes := by
  induction typed with
  | assign target value accepts =>
      exact List.forall_mem_append.mpr
        ⟨List.forall_mem_append.mpr ⟨target.visits_obey, value.visits_obey⟩,
          List.forall_mem_singleton.mpr ⟨_, _, target, value, accepts⟩⟩
  | ifThen condition _ ih | whileDo condition _ ih =>
      exact List.forall_mem_append.mpr ⟨condition.visits_obey, ih⟩
  | ifThenElse condition _ _ bodyIH otherwiseIH =>
      exact List.forall_mem_append.mpr
        ⟨List.forall_mem_append.mpr ⟨condition.visits_obey, bodyIH⟩, otherwiseIH⟩
  | doWhile _ condition ih => exact List.forall_mem_append.mpr ⟨ih, condition.visits_obey⟩
  | breakLoop => exact nofun
  | block _ ih => exact allVisits_obey ih

theorem check_passed (ordered : scopes.Ordered)
    (tempFree : stmt.EachExpr (fun _ expr => expr.TempFree) scope)
    (accepted : stmt.check scopes scope = (checked, .ok ())) :
    ∀ visit ∈ checked.visits scope, visit.Passed scopes := by
  obtain ⟨same, typed, carries⟩ := check_sound ordered stmt tempFree accepted
  have sameVisits : (checked.visits scope).map Visit.erase =
      (stmt.visits scope).map Visit.erase := by
    rw [← visits_erase, same, visits_erase]
  have noted : ∀ visit ∈ checked.visits scope, visit.Noted scopes :=
    (eachNode_visits checked).mpr carries
  intro visit member
  exact ⟨Visit.obeys_of_map_erase_eq sameVisits typed.visits_obey visit member,
    noted visit member⟩

end Stmt

end ThreeAddress

import ThreeAddress.Code.Lower
import ThreeAddress.Proofs.Typing.Decision

namespace ThreeAddress

variable {N : Type} [Counter N]

namespace Expr

def name? : Expr → Option String
  | .loc _ id _ => some id.name
  | _ => none

/-- The names of the locations in an expression. -/
def names (expr : Expr) : List String :=
  expr.nodes.filterMap name?

def allNames (indices : List Expr) : List String :=
  (indicesNodes indices).filterMap name?

variable {note : Note} {left right operand inner first : Expr} {rest indices : List Expr}

@[simp] theorem names_binary {op : BinaryOp} :
    (Expr.binary note op left right).names = left.names ++ right.names := by
  simp [names, nodes, List.filterMap_cons, name?]

@[simp] theorem names_unary {op : UnaryOp} :
    (Expr.unary note op operand).names = operand.names := by
  simp [names, nodes, List.filterMap_cons, name?]

@[simp] theorem names_paren : (Expr.paren note inner).names = inner.names := by
  simp [names, nodes, List.filterMap_cons, name?]

@[simp] theorem names_loc {id : Ident} :
    (Expr.loc note id indices).names = id.name :: allNames indices := by
  simp [names, allNames, nodes, name?]

@[simp] theorem allNames_nil : allNames [] = [] := rfl

@[simp] theorem allNames_cons : allNames (first :: rest) = first.names ++ allNames rest := by
  simp [names, allNames, indicesNodes]

@[simp] theorem names_int {value : Int} : (Expr.int note value).names = [] := rfl

@[simp] theorem names_real {value : Decimal.Binary64} : (Expr.real note value).names = [] := rfl

@[simp] theorem names_bool {value : Bool} : (Expr.bool note value).names = [] := rfl

@[simp] theorem names_temp {number : Nat} : (Expr.temp note number).names = [] := rfl

mutual

/-- The types that are noted play no part in the names. -/
theorem names_erase (expr : Expr) : expr.erase.names = expr.names := by
  match expr with
  | .binary _ _ left right => simp [erase, names_erase left, names_erase right]
  | .unary _ _ operand => simp [erase, names_erase operand]
  | .paren _ inner => simp [erase, names_erase inner]
  | .loc _ _ indices => simp [erase, allNames_eraseAll indices]
  | .int _ _ | .real _ _ | .bool _ _ | .temp _ _ => simp [erase]

theorem allNames_eraseAll (indices : List Expr) : allNames (eraseAll indices) = allNames indices := by
  match indices with
  | [] => rfl
  | index :: rest => simp [eraseAll, names_erase index, allNames_eraseAll rest]

end

variable {typeOf? other? : String → Option DeclaredType}

mutual

theorem check_congr (expr : Expr) (alike : ∀ name ∈ expr.names, typeOf? name = other? name) :
    expr.check typeOf? = expr.check other? := by
  match expr with
  | .binary _ _ left right =>
      simp only [names_binary, List.forall_mem_append] at alike
      rw [check, check, check_congr left alike.1, check_congr right alike.2]
  | .unary _ _ operand =>
      rw [names_unary] at alike
      rw [check, check, check_congr operand alike]
  | .paren _ inner =>
      rw [names_paren] at alike
      rw [check, check, check_congr inner alike]
  | .loc _ id indices =>
      rw [names_loc, List.forall_mem_cons] at alike
      rw [check, check, alike.1, checkIndices_congr indices alike.2]
  | .int _ _ | .real _ _ | .bool _ _ | .temp _ _ => rfl

theorem checkIndices_congr (indices : List Expr)
    (alike : ∀ name ∈ allNames indices, typeOf? name = other? name) :
    checkIndices typeOf? indices = checkIndices other? indices := by
  match indices with
  | [] => rfl
  | index :: rest =>
      rw [allNames_cons, List.forall_mem_append] at alike
      rw [checkIndices, checkIndices, check_congr index alike.1, checkIndices_congr rest alike.2]

end

mutual

theorem reduce_congr (expr : Expr) {single : Bool}
    (alike : ∀ name ∈ expr.names, typeOf? name = other? name) :
    (expr.reduce typeOf? single : Lowering N _) = expr.reduce other? single := by
  match expr with
  | .binary _ _ left right =>
      simp only [names_binary, List.forall_mem_append] at alike
      rw [reduce, reduce, reduce_congr left alike.1, reduce_congr right alike.2]
  | .unary _ _ operand =>
      rw [names_unary] at alike
      rw [reduce, reduce, reduce_congr operand alike]
  | .paren _ inner =>
      rw [names_paren] at alike
      rw [reduce, reduce, reduce_congr inner alike]
  | .loc _ _ [] => rfl
  | .loc _ id (first :: rest) =>
      rw [names_loc, allNames_cons, List.forall_mem_cons, List.forall_mem_append] at alike
      obtain ⟨here, firstAlike, restAlike⟩ := alike
      rw [reduce, reduce, here, reduce_congr first firstAlike]
      simp only [addTerms_congr rest restAlike]
  | .int _ _ | .real _ _ | .bool _ _ | .temp _ _ => rfl

theorem addTerms_congr (indices : List Expr)
    (alike : ∀ name ∈ allNames indices, typeOf? name = other? name) (declared : DeclaredType)
    (name : String) (line dimension : Nat) (sum : Expr) :
    (addTerms typeOf? declared name line dimension sum indices : Lowering N _) =
      addTerms other? declared name line dimension sum indices := by
  match indices with
  | [] => rfl
  | index :: rest =>
      rw [allNames_cons, List.forall_mem_append] at alike
      rw [addTerms, addTerms, reduce_congr index alike.1]
      simp only [addTerms_congr rest alike.2]

end

end Expr

namespace Scopes

/-- The names in an expression in a scope mean the same in two tables of scopes. -/
def Alike (first second : Scopes) (home : Nat) (expr : Expr) : Prop :=
  ∀ name ∈ expr.names, first.lookup home name = second.lookup home name

variable {first second : Scopes} {home : Nat} {expr : Expr}

theorem Alike.typeOf? (alike : Alike first second home expr) :
    ∀ name ∈ expr.names, first.typeOf? home name = second.typeOf? home name := by
  intro name member
  rw [Scopes.typeOf?, Scopes.typeOf?, alike name member]

theorem Alike.check (alike : Alike first second home expr) :
    expr.check (first.typeOf? home) = expr.check (second.typeOf? home) :=
  Expr.check_congr expr alike.typeOf?

theorem Alike.reduce (alike : Alike first second home expr) (single : Bool) :
    (expr.reduce (first.typeOf? home) single : Lowering N _) =
      expr.reduce (second.typeOf? home) single :=
  Expr.reduce_congr expr alike.typeOf?

end Scopes

namespace Stmt

section

variable {good fine : Nat → Expr → Prop}

mutual

theorem EachExpr.imp (stmt : Stmt) {scope : Nat} (implies : ∀ home expr, good home expr →
    fine home expr) (each : stmt.EachExpr good scope) : stmt.EachExpr fine scope := by
  match stmt with
  | .assign _ _ _ => exact ⟨implies _ _ each.1, implies _ _ each.2⟩
  | .ifThen _ body | .whileDo _ body => exact ⟨implies _ _ each.1, EachExpr.imp body implies each.2⟩
  | .ifThenElse _ body otherwise =>
      exact ⟨implies _ _ each.1, EachExpr.imp body implies each.2.1,
        EachExpr.imp otherwise implies each.2.2⟩
  | .doWhile body _ => exact ⟨EachExpr.imp body implies each.1, implies _ _ each.2⟩
  | .breakLoop => trivial
  | .block _ _ body => exact EachExprOfAll.imp body implies each

theorem EachExprOfAll.imp (body : List Stmt) {scope : Nat} (implies : ∀ home expr, good home expr →
    fine home expr) (each : EachExprOfAll good scope body) : EachExprOfAll fine scope body := by
  match body with
  | [] => trivial
  | first :: rest => exact ⟨EachExpr.imp first implies each.1, EachExprOfAll.imp rest implies each.2⟩

end

mutual

theorem EachExpr.and (stmt : Stmt) {scope : Nat} (first : stmt.EachExpr good scope)
    (second : stmt.EachExpr fine scope) :
    stmt.EachExpr (fun home expr => good home expr ∧ fine home expr) scope := by
  match stmt with
  | .assign _ _ _ => exact ⟨⟨first.1, second.1⟩, ⟨first.2, second.2⟩⟩
  | .ifThen _ body | .whileDo _ body =>
      exact ⟨⟨first.1, second.1⟩, EachExpr.and body first.2 second.2⟩
  | .ifThenElse _ body otherwise =>
      exact ⟨⟨first.1, second.1⟩, EachExpr.and body first.2.1 second.2.1,
        EachExpr.and otherwise first.2.2 second.2.2⟩
  | .doWhile body _ => exact ⟨EachExpr.and body first.1 second.1, ⟨first.2, second.2⟩⟩
  | .breakLoop => trivial
  | .block _ _ body => exact EachExprOfAll.and body first second

theorem EachExprOfAll.and (body : List Stmt) {scope : Nat} (first : EachExprOfAll good scope body)
    (second : EachExprOfAll fine scope body) :
    EachExprOfAll (fun home expr => good home expr ∧ fine home expr) scope body := by
  match body with
  | [] => trivial
  | stmt :: rest =>
      exact ⟨EachExpr.and stmt first.1 second.1, EachExprOfAll.and rest first.2 second.2⟩

end

end

mutual

/-- The expressions of a statement without types are those of the statement, without types. -/
theorem eachExpr_erase (good : Nat → Expr → Prop) (stmt : Stmt) {scope : Nat} :
    stmt.erase.EachExpr good scope ↔ stmt.EachExpr (fun home expr => good home expr.erase) scope := by
  match stmt with
  | .assign _ _ _ | .breakLoop => simp [erase, EachExpr]
  | .ifThen _ body | .whileDo _ body | .doWhile body _ =>
      simp [erase, EachExpr, eachExpr_erase good body]
  | .ifThenElse _ body otherwise =>
      simp [erase, EachExpr, eachExpr_erase good body, eachExpr_erase good otherwise]
  | .block _ _ body => simp [erase, EachExpr, eachExprOfAll_eraseAll good body]

theorem eachExprOfAll_eraseAll (good : Nat → Expr → Prop) (body : List Stmt) {scope : Nat} :
    EachExprOfAll good scope (eraseAll body) ↔
      EachExprOfAll (fun home expr => good home expr.erase) scope body := by
  match body with
  | [] => simp [eraseAll, EachExprOfAll]
  | first :: rest =>
      simp [eraseAll, EachExprOfAll, eachExpr_erase good first, eachExprOfAll_eraseAll good rest]

end

/-- A property that types play no part in holds of statements that differ only in types alike. -/
theorem eachExprOfAll_of_erase_eq {good : Nat → Expr → Prop} {body others : List Stmt}
    {scope : Nat} (still : ∀ home expr, good home expr.erase ↔ good home expr)
    (same : eraseAll body = eraseAll others) (each : EachExprOfAll good scope others) :
    EachExprOfAll good scope body := by
  have erased := EachExprOfAll.imp others (fun home expr => (still home expr).mpr) each
  rw [← eachExprOfAll_eraseAll, ← same, eachExprOfAll_eraseAll] at erased
  exact EachExprOfAll.imp body (fun home expr => (still home expr).mp) erased

mutual

theorem FromSource.tempFree (stmt : Stmt) {inLoop : Bool} {scope : Nat}
    (source : stmt.FromSource inLoop) : stmt.EachExpr (fun _ expr => expr.TempFree) scope := by
  match stmt with
  | .assign _ _ _ => exact source.2
  | .ifThen _ body | .whileDo _ body => exact ⟨source.1, FromSource.tempFree body source.2⟩
  | .ifThenElse _ body otherwise =>
      exact ⟨source.1, FromSource.tempFree body source.2.1,
        FromSource.tempFree otherwise source.2.2⟩
  | .doWhile body _ => exact ⟨FromSource.tempFree body source.1, source.2⟩
  | .breakLoop => trivial
  | .block _ _ body => exact AllFromSource.tempFree body source

theorem AllFromSource.tempFree (body : List Stmt) {inLoop : Bool} {scope : Nat}
    (source : AllFromSource inLoop body) :
    EachExprOfAll (fun _ expr => expr.TempFree) scope body := by
  match body with
  | [] => trivial
  | first :: rest =>
      exact ⟨FromSource.tempFree first source.1, AllFromSource.tempFree rest source.2⟩

end

variable {first second : Scopes}

theorem alike_of_eraseAll_eq {body others : List Stmt} {scope : Nat}
    (same : eraseAll body = eraseAll others)
    (alike : EachExprOfAll (first.Alike second) scope others) :
    EachExprOfAll (first.Alike second) scope body :=
  eachExprOfAll_of_erase_eq
    (fun home expr => by rw [Scopes.Alike, Scopes.Alike, Expr.names_erase]) same alike

mutual

theorem check_congr (stmt : Stmt) {scope : Nat} (alike : stmt.EachExpr (first.Alike second) scope) :
    stmt.check first scope = stmt.check second scope := by
  match stmt with
  | .assign target value _ =>
      obtain ⟨targetAlike, valueAlike⟩ := alike
      rw [check, check, checkAssign, checkAssign, targetAlike.check, valueAlike.check]
  | .ifThen condition body | .whileDo condition body =>
      obtain ⟨conditionAlike, bodyAlike⟩ := alike
      rw [check, check, conditionAlike.check, check_congr body bodyAlike]
  | .ifThenElse condition body otherwise =>
      obtain ⟨conditionAlike, bodyAlike, otherwiseAlike⟩ := alike
      rw [check, check, conditionAlike.check, check_congr body bodyAlike,
        check_congr otherwise otherwiseAlike]
  | .doWhile body condition =>
      obtain ⟨bodyAlike, conditionAlike⟩ := alike
      rw [check, check, conditionAlike.check, check_congr body bodyAlike]
  | .breakLoop => rfl
  | .block _ _ body => rw [check, check, checkAll_congr body alike]

theorem checkAll_congr (body : List Stmt) {scope : Nat}
    (alike : EachExprOfAll (first.Alike second) scope body) :
    checkAll first scope body = checkAll second scope body := by
  match body with
  | [] => rfl
  | stmt :: rest =>
      rw [checkAll, checkAll, check_congr stmt alike.1, checkAll_congr rest alike.2]

end

mutual

theorem lower_congr (stmt : Stmt) {scope : Nat} {exit? : Option Label}
    (alike : stmt.EachExpr (first.Alike second) scope) :
    (stmt.lower first scope exit? : Lowering N _) = stmt.lower second scope exit? := by
  match stmt with
  | .assign target value _ =>
      obtain ⟨targetAlike, valueAlike⟩ := alike
      rw [lower, lower, targetAlike.reduce, valueAlike.reduce]
  | .ifThen condition body =>
      obtain ⟨conditionAlike, bodyAlike⟩ := alike
      rw [lower, lower, conditionAlike.reduce, lower_congr body bodyAlike]
  | .whileDo condition body =>
      obtain ⟨conditionAlike, bodyAlike⟩ := alike
      rw [lower, lower, conditionAlike.reduce]
      simp only [lower_congr body bodyAlike]
  | .ifThenElse condition body otherwise =>
      obtain ⟨conditionAlike, bodyAlike, otherwiseAlike⟩ := alike
      rw [lower, lower, conditionAlike.reduce, lower_congr body bodyAlike,
        lower_congr otherwise otherwiseAlike]
  | .doWhile body condition =>
      obtain ⟨bodyAlike, conditionAlike⟩ := alike
      rw [lower, lower, conditionAlike.reduce]
      simp only [lower_congr body bodyAlike]
  | .breakLoop => rfl
  | .block _ _ body => rw [lower, lower, lowerAll_congr body alike]

theorem lowerAll_congr (body : List Stmt) {scope : Nat} {exit? : Option Label}
    (alike : EachExprOfAll (first.Alike second) scope body) :
    (lowerAll first scope exit? body : Lowering N _) = lowerAll second scope exit? body := by
  match body with
  | [] => rfl
  | stmt :: rest =>
      rw [lowerAll, lowerAll, lower_congr stmt alike.1, lowerAll_congr rest alike.2]

end

end Stmt

end ThreeAddress

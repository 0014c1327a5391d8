import ThreeAddress.Proofs.Grammar.Derivation

namespace ThreeAddress

namespace Expr

mutual

def kinds : Expr → List Kind
  | .binary _ op left right => left.kinds ++ .mark op.mark :: right.kinds
  | .unary _ op operand => .mark op.mark :: operand.kinds
  | .paren _ inner => .mark .openParen :: inner.kinds ++ [.mark .closeParen]
  | .loc _ id indices => .ident id.name :: indicesKinds indices
  | .int _ value => [.int value.toNat]
  | .real _ value => [.real value]
  | .bool _ value => [.keyword (if value then .trueWord else .falseWord)]
  | .temp _ _ => []

def indicesKinds : List Expr → List Kind
  | [] => []
  | index :: rest =>
      .mark .openBracket :: index.kinds ++ .mark .closeBracket :: indicesKinds rest

end

end Expr

def Operation.kinds (operation : Operation) : List Kind :=
  .mark operation.op.mark :: operation.operand.kinds

/-- Where the sizes in a declaration stand. -/
inductive Declarator where
  | sizesFirst
  | nameFirst

namespace Declaration

def sizesKinds (sizes : List Nat) : List Kind :=
  sizes.flatMap fun size => [.mark .openBracket, .int size, .mark .closeBracket]

def kinds (declaration : Declaration) : Declarator → List Kind
  | .sizesFirst => .basic declaration.type.basic :: sizesKinds declaration.type.dims ++
      [.ident declaration.name, .mark .semicolon]
  | .nameFirst => .basic declaration.type.basic :: .ident declaration.name ::
      sizesKinds declaration.type.dims ++ [.mark .semicolon]

def allKinds : List Declaration → List Declarator → List Kind
  | declaration :: more, form :: forms => declaration.kinds form ++ allKinds more forms
  | _, _ => []

end Declaration

namespace Stmt

mutual

def declarationCount : Stmt → Nat
  | .ifThen _ body | .whileDo _ body | .doWhile body _ => body.declarationCount
  | .ifThenElse _ body otherwise => body.declarationCount + otherwise.declarationCount
  | .block _ declarations body => declarations.length + allDeclarationCount body
  | .assign _ _ _ | .breakLoop => 0

def allDeclarationCount : List Stmt → Nat
  | [] => 0
  | first :: rest => first.declarationCount + allDeclarationCount rest

end

def conditionKinds (condition : Expr) : List Kind :=
  .mark .openParen :: condition.kinds ++ [.mark .closeParen]

mutual

/-- The tokens of a statement whose declarations have these forms, in order. -/
def kinds : Stmt → List Declarator → List Kind
  | .assign target value _, _ =>
      target.kinds ++ .mark .assign :: value.kinds ++ [.mark .semicolon]
  | .ifThen condition body, forms =>
      .keyword .ifWord :: conditionKinds condition ++ body.kinds forms
  | .ifThenElse condition body otherwise, forms =>
      .keyword .ifWord :: conditionKinds condition ++
        body.kinds (forms.take body.declarationCount) ++
        .keyword .elseWord :: otherwise.kinds (forms.drop body.declarationCount)
  | .whileDo condition body, forms =>
      .keyword .whileWord :: conditionKinds condition ++ body.kinds forms
  | .doWhile body condition, forms =>
      .keyword .doWord :: body.kinds forms ++
        .keyword .whileWord :: conditionKinds condition ++ [.mark .semicolon]
  | .breakLoop, _ => [.keyword .breakWord, .mark .semicolon]
  | .block _ declarations body, forms =>
      .mark .openBrace :: Declaration.allKinds declarations (forms.take declarations.length) ++
        allKinds body (forms.drop declarations.length) ++ [.mark .closeBrace]

def allKinds : List Stmt → List Declarator → List Kind
  | [], _ => []
  | first :: rest, forms => first.kinds (forms.take first.declarationCount) ++
      allKinds rest (forms.drop first.declarationCount)

end

end Stmt

namespace Expr

/-- The tokens of an expression are those of its first operand and of its operators. -/
theorem kinds_eq (expr : Expr) :
    expr.kinds = expr.first.kinds ++ expr.operations.flatMap Operation.kinds := by
  match expr with
  | .binary note op left right =>
      rw [kinds, first, operations, kinds_eq left, kinds_eq right, List.flatMap_append,
        List.flatMap_cons, Operation.kinds]
      simp only [List.append_assoc, List.cons_append]
  | .unary _ _ _ | .paren _ _ | .loc _ _ _ | .int _ _ | .real _ _ | .bool _ _ | .temp _ _ =>
      simp [first, operations]

end Expr

theorem BinaryOp.kind_of_sign {kind : Kind} {op : BinaryOp} (sign : ofKind? kind = some op) :
    kind = .mark op.mark := by
  cases kind with
  | mark other => rw [ofMark?_eq_some_iff.mp sign]
  | _ => contradiction

namespace Grammar

mutual

theorem IsExpression.kinds {visible : List String} {tokens rest : List Token} {expr : Expr}
    (derived : IsExpression visible tokens expr rest) :
    tokens.map Token.kind = expr.kinds ++ rest.map Token.kind := by
  match derived with
  | .grouped first others _ =>
      rw [expr.kinds_eq, List.append_assoc, ← AreOperations.kinds others]
      exact IsFactor.kinds first

theorem AreOperations.kinds {visible : List String} {tokens rest : List Token}
    {more : List Operation} (derived : AreOperations visible tokens more rest) :
    tokens.map Token.kind = more.flatMap Operation.kinds ++ rest.map Token.kind := by
  match derived with
  | .nil => rfl
  | .cons sign operand others =>
      simp only [List.map_cons, BinaryOp.kind_of_sign sign, IsFactor.kinds operand,
        AreOperations.kinds others, List.flatMap_cons, Operation.kinds, List.cons_append,
        List.append_assoc]

theorem IsFactor.kinds {visible : List String} {tokens rest : List Token} {expr : Expr}
    (derived : IsFactor visible tokens expr rest) :
    tokens.map Token.kind = expr.kinds ++ rest.map Token.kind := by
  match derived with
  | .unary sign operand =>
      simp only [List.map_cons, sign, IsFactor.kinds operand, Expr.kinds, List.cons_append]
  | .paren opens inner closes =>
      simp only [List.map_cons, opens, closes, IsExpression.kinds inner, Expr.kinds,
        List.cons_append, List.append_assoc, List.nil_append]
  | .int kind =>
      simp only [List.map_cons, kind, Expr.kinds, Int.toNat_natCast, List.singleton_append]
  | .real kind => simp only [List.map_cons, kind, Expr.kinds, List.singleton_append]
  | .trueWord kind => simp [kind, Expr.kinds]
  | .falseWord kind => simp [kind, Expr.kinds]
  | .location place => exact IsLocation.kinds place

theorem IsLocation.kinds {visible : List String} {tokens rest : List Token} {expr : Expr}
    (derived : IsLocation visible tokens expr rest) :
    tokens.map Token.kind = expr.kinds ++ rest.map Token.kind := by
  match derived with
  | .subscripts kind _ indices =>
      simp only [List.map_cons, kind, AreSubscripts.kinds indices, Expr.kinds, List.cons_append]

theorem AreSubscripts.kinds {visible : List String} {tokens rest : List Token}
    {indices : List Expr} (derived : AreSubscripts visible tokens indices rest) :
    tokens.map Token.kind = Expr.indicesKinds indices ++ rest.map Token.kind := by
  match derived with
  | .nil => rfl
  | .cons opens index closes others =>
      simp only [List.map_cons, opens, closes, IsExpression.kinds index,
        AreSubscripts.kinds others, Expr.indicesKinds, List.cons_append, List.append_assoc]

end

section

variable {tokens rest : List Token}

theorem IsDims.kinds {sizes : List Nat} (derived : IsDims tokens sizes rest) :
    tokens.map Token.kind = Declaration.sizesKinds sizes ++ rest.map Token.kind := by
  induction derived with
  | none => rfl
  | more opens size closes _ ih =>
      simp only [List.map_cons, opens, size, closes, ih, Declaration.sizesKinds,
        List.flatMap_cons, List.cons_append, List.nil_append]

theorem IsDeclaration.kinds {declaration : Declaration}
    (derived : IsDeclaration tokens declaration rest) :
    ∃ form, tokens.map Token.kind = declaration.kinds form ++ rest.map Token.kind := by
  cases derived with
  | leading type sizes name ends =>
      refine ⟨.sizesFirst, ?_⟩
      simp only [List.map_cons, type, sizes.kinds, name, ends, Declaration.kinds,
        Declaration.name, List.cons_append, List.append_assoc, List.nil_append]
  | trailing type name sizes ends =>
      refine ⟨.nameFirst, ?_⟩
      simp only [List.map_cons, type, sizes.kinds, name, ends, Declaration.kinds,
        Declaration.name, List.cons_append, List.append_assoc, List.nil_append]

theorem IsDeclarations.kinds {declarations : List Declaration}
    (derived : IsDeclarations tokens declarations rest) :
    ∃ forms, forms.length = declarations.length ∧
      tokens.map Token.kind = Declaration.allKinds declarations forms ++ rest.map Token.kind := by
  induction derived with
  | nil => exact ⟨[], rfl, rfl⟩
  | cons first _ ih =>
      obtain ⟨form, firstKinds⟩ := first.kinds
      obtain ⟨forms, length, moreKinds⟩ := ih
      refine ⟨form :: forms, by rw [List.length_cons, List.length_cons, length], ?_⟩
      rw [firstKinds, moreKinds, Declaration.allKinds, List.append_assoc]

theorem IsCondition.kinds {visible : List String} {value : Expr}
    (derived : IsCondition visible tokens value rest) :
    tokens.map Token.kind = Stmt.conditionKinds value ++ rest.map Token.kind := by
  cases derived with
  | parens opens inner closes =>
      simp only [List.map_cons, opens, inner.kinds, closes, Stmt.conditionKinds,
        List.cons_append, List.append_assoc, List.nil_append]

end

mutual

theorem IsStatement.kinds {visible : List String} {inLoop : Bool} {opened after : Nat}
    {tokens rest : List Token} {stmt : Stmt}
    (derived : IsStatement visible inLoop opened tokens stmt after rest) :
    ∃ forms, forms.length = stmt.declarationCount ∧
      tokens.map Token.kind = stmt.kinds forms ++ rest.map Token.kind := by
  match derived with
  | .assign place sign value ends =>
      refine ⟨[], rfl, ?_⟩
      rw [place.kinds, List.map_cons, sign, value.kinds, List.map_cons, ends, Stmt.kinds]
      simp only [List.cons_append, List.append_assoc, List.nil_append]
  | .ifThen word condition body =>
      obtain ⟨forms, length, bodyKinds⟩ := IsStatement.kinds body
      refine ⟨forms, length, ?_⟩
      rw [List.map_cons, word, condition.kinds, bodyKinds, Stmt.kinds]
      simp only [List.cons_append, List.append_assoc]
  | .ifThenElse word condition body other otherwise =>
      obtain ⟨forms, length, bodyKinds⟩ := IsStatement.kinds body
      obtain ⟨more, moreLength, elseKinds⟩ := IsStatement.kinds otherwise
      refine ⟨forms ++ more, by rw [List.length_append, length, moreLength]; rfl, ?_⟩
      rw [List.map_cons, word, condition.kinds, bodyKinds, List.map_cons, other, elseKinds,
        Stmt.kinds, List.take_left' length, List.drop_left' length]
      simp only [List.cons_append, List.append_assoc]
  | .whileDo word condition body =>
      obtain ⟨forms, length, bodyKinds⟩ := IsStatement.kinds body
      refine ⟨forms, length, ?_⟩
      rw [List.map_cons, word, condition.kinds, bodyKinds, Stmt.kinds]
      simp only [List.cons_append, List.append_assoc]
  | .doWhile word body again condition ends =>
      obtain ⟨forms, length, bodyKinds⟩ := IsStatement.kinds body
      refine ⟨forms, length, ?_⟩
      rw [List.map_cons, word, bodyKinds, List.map_cons, again, condition.kinds, List.map_cons,
        ends, Stmt.kinds]
      simp only [List.cons_append, List.append_assoc, List.nil_append]
  | .breakLoop _ word ends =>
      refine ⟨[], rfl, ?_⟩
      rw [List.map_cons, List.map_cons, word, ends, Stmt.kinds]
      rfl
  | .block opens declarations _ members closes =>
      obtain ⟨forms, length, declarationKinds⟩ := declarations.kinds
      obtain ⟨more, moreLength, memberKinds⟩ := AreStatements.kinds members
      refine ⟨forms ++ more, by rw [List.length_append, length, moreLength]; rfl, ?_⟩
      rw [List.map_cons, opens, declarationKinds, memberKinds, List.map_cons, closes, Stmt.kinds,
        List.take_left' length, List.drop_left' length]
      simp only [List.cons_append, List.append_assoc, List.nil_append]

theorem AreStatements.kinds {visible : List String} {inLoop : Bool} {opened after : Nat}
    {tokens rest : List Token} {stmts : List Stmt}
    (derived : AreStatements visible inLoop opened tokens stmts after rest) :
    ∃ forms, forms.length = Stmt.allDeclarationCount stmts ∧
      tokens.map Token.kind = Stmt.allKinds stmts forms ++ rest.map Token.kind := by
  match derived with
  | .nil => exact ⟨[], rfl, rfl⟩
  | .cons first others =>
      obtain ⟨forms, length, firstKinds⟩ := IsStatement.kinds first
      obtain ⟨more, moreLength, othersKinds⟩ := AreStatements.kinds others
      refine ⟨forms ++ more, by rw [List.length_append, length, moreLength]; rfl, ?_⟩
      rw [firstKinds, othersKinds, Stmt.allKinds, List.take_left' length, List.drop_left' length,
        List.append_assoc]

end

end Grammar

end ThreeAddress

import ThreeAddress.Proofs.Grammar.Sound

namespace ThreeAddress.Grammar

section

variable {visible : List String} {tokens rest : List Token}

/-- An operator is no opening bracket. -/
theorem AreOperations.ahead {more : List Operation}
    (derived : AreOperations visible tokens more rest)
    (after : Ahead (· ≠ .mark .openBracket) rest) :
    Ahead (· ≠ .mark .openBracket) tokens := by
  cases derived with
  | nil => exact after
  | cons sign operand others =>
      refine ahead_cons.mpr fun opening => ?_
      rw [opening] at sign
      contradiction

end

/-- The token is neither an operator nor an opening bracket. -/
def EndsExpression (kind : Kind) : Prop :=
  BinaryOp.ofKind? kind = none ∧ kind ≠ .mark .openBracket

mutual

theorem expression_complete {declared : String → Bool} {visible : List String}
    (sees : ∀ name, declared name = true ↔ name ∈ visible) {tokens rest : List Token}
    {expr : Expr} (derived : IsExpression visible tokens expr rest)
    (ends : Ahead EndsExpression rest) : Finds (expression declared tokens) expr rest := by
  match derived with
  | .grouped first others grouped =>
      have rebuilt : expr.first.extendAll expr.operations = expr :=
        (Expr.extendAll_eq_iff first.single others.plain).mpr ⟨rfl, rfl, grouped⟩
      have noIndex := others.ahead (ends.imp fun _ => And.right)
      have read := operations_complete sees others expr.first ends
      -- The reader groups as it goes, the derivation only says that the whole is grouped.
      rw [rebuilt] at read
      exact finds_expression.mpr ⟨_, _, factor_complete sees first noIndex, read⟩

theorem operations_complete {declared : String → Bool} {visible : List String}
    (sees : ∀ name, declared name = true ↔ name ∈ visible) {tokens rest : List Token}
    {more : List Operation} (derived : AreOperations visible tokens more rest) (left : Expr)
    (ends : Ahead EndsExpression rest) :
    Finds (operations declared left tokens) (left.extendAll more) rest := by
  match derived with
  | .nil =>
      obtain ⟨next, others, rfl, noOperator, -⟩ := ends
      exact (finds_operations_stop noOperator).mpr ⟨rfl, rfl⟩
  | .cons sign operand others =>
      have noIndex := others.ahead (ends.imp fun _ => And.right)
      exact (finds_operations_step sign).mpr
        ⟨_, _, factor_complete sees operand noIndex, operations_complete sees others _ ends⟩

theorem factor_complete {declared : String → Bool} {visible : List String}
    (sees : ∀ name, declared name = true ↔ name ∈ visible) {tokens rest : List Token}
    {expr : Expr} (derived : IsFactor visible tokens expr rest)
    (noIndex : Ahead (· ≠ .mark .openBracket) rest) :
    Finds (factor declared tokens) expr rest := by
  match derived with
  | .unary sign operand =>
      exact finds_factor.mpr (.inl ⟨_, _, sign, factor_complete sees operand noIndex, rfl⟩)
  | .paren opens inner closes =>
      have read := expression_complete sees inner
        (ahead_of_kind closes ⟨rfl, nofun⟩)
      exact finds_factor.mpr (.inr (.inl ⟨_, _, opens, read, closes, rfl⟩))
  | .int kind => simp [finds_factor, kind]
  | .real kind => simp [finds_factor, kind]
  | .trueWord kind => simp [finds_factor, kind]
  | .falseWord kind => simp [finds_factor, kind]
  | .location place =>
      obtain ⟨token, name, others, rfl, kind, read⟩ := location_complete sees place noIndex
      simp only [finds_factor, kind]
      simpa using read

theorem location_complete {declared : String → Bool} {visible : List String}
    (sees : ∀ name, declared name = true ↔ name ∈ visible) {tokens rest : List Token}
    {expr : Expr} (derived : IsLocation visible tokens expr rest)
    (noIndex : Ahead (· ≠ .mark .openBracket) rest) :
    ∃ token name others, tokens = token :: others ∧ token.kind = .ident name ∧
      Finds (location declared name token others) expr rest := by
  match derived with
  | .subscripts kind known indices =>
      have read := subscripts_complete sees indices noIndex
      exact ⟨_, _, _, rfl, kind, finds_location.mpr ⟨(sees _).mpr known, _, read, rfl⟩⟩

theorem subscripts_complete {declared : String → Bool} {visible : List String}
    (sees : ∀ name, declared name = true ↔ name ∈ visible) {tokens rest : List Token}
    {indices : List Expr} (derived : AreSubscripts visible tokens indices rest)
    (noIndex : Ahead (· ≠ .mark .openBracket) rest) :
    Finds (subscripts declared tokens) indices rest := by
  match derived with
  | .nil =>
      obtain ⟨next, others, rfl, stop⟩ := noIndex
      exact (finds_subscripts_stop stop).mpr ⟨rfl, rfl⟩
  | .cons opening index closes others =>
      have read := expression_complete sees index
        (ahead_of_kind closes ⟨rfl, nofun⟩)
      exact (finds_subscripts_step opening).mpr
        ⟨_, _, _, _, read, closes, subscripts_complete sees others noIndex, rfl⟩

end

section

variable {tokens rest : List Token} {scopes : Scopes} {scope : Nat}

theorem dims_complete {sizes : List Nat} (derived : IsDims tokens sizes rest)
    (stop : Ahead (· ≠ .mark .openBracket) rest) : Finds (dims tokens) sizes rest := by
  induction derived with
  | none =>
      obtain ⟨next, others, rfl, noBracket⟩ := stop
      exact (finds_dims_stop noBracket).mpr ⟨rfl, rfl⟩
  | more opens size closes _ ih =>
      exact (finds_dims_step opens).mpr ⟨_, _, _, _, _, rfl, size, closes, ih stop, rfl⟩

theorem declaration_complete {declared : Declaration} (derived : IsDeclaration tokens declared rest)
    (fresh : scopes.declaredIn scope declared.name = false) :
    ∃ type basic others, tokens = type :: others ∧ type.kind = .basic basic ∧
      Finds (declaration scopes scope basic others) declared rest := by
  cases derived with
  | @leading type name semicolon basic id others sizes bytes _ kind sized named ends size small =>
      have fits := DeclaredType.fits_iff.mpr ⟨bytes, size, small⟩
      have first : Finds (dims others) sizes (name :: semicolon :: rest) :=
        dims_complete sized (ahead_of_kind named nofun)
      have second : Finds (newName scopes scope (name :: semicolon :: rest)) ⟨id, name.line⟩
          (semicolon :: rest) :=
        finds_newName.mpr ⟨name, id, rfl, named, fresh, rfl⟩
      have noBracket : Ahead (· ≠ .mark .openBracket) (semicolon :: rest) :=
        ahead_of_kind ends nofun
      have third : Finds (trailingDims id sizes (semicolon :: rest)) sizes (semicolon :: rest) := by
        by_cases none : sizes = []
        · subst none
          exact finds_trailingDims.mpr (.inl ⟨rfl, dims_complete .none noBracket⟩)
        · exact finds_trailingDims.mpr (.inr ⟨none, rfl, rfl, noBracket⟩)
      exact ⟨type, basic, others, rfl, kind, finds_declaration.mpr
        ⟨_, _, _, _, _, semicolon, first, second, third, ends, fits, rfl⟩⟩
  | @trailing type name semicolon basic id others sizes bytes _ kind named sized ends size small =>
      have fits := DeclaredType.fits_iff.mpr ⟨bytes, size, small⟩
      have first : Finds (dims (name :: others)) [] (name :: others) :=
        dims_complete .none (ahead_of_kind named nofun)
      have second : Finds (newName scopes scope (name :: others)) ⟨id, name.line⟩ others :=
        finds_newName.mpr ⟨name, id, rfl, named, fresh, rfl⟩
      have third : Finds (trailingDims id [] others) sizes (semicolon :: rest) :=
        finds_trailingDims.mpr (.inl ⟨rfl, dims_complete sized (ahead_of_kind ends nofun)⟩)
      exact ⟨type, basic, _, rfl, kind, finds_declaration.mpr
        ⟨_, _, _, _, _, semicolon, first, second, third, ends, fits, rfl⟩⟩

theorem declarations_complete (scopes : Scopes) (parent : Option Nat)
    (earlier : List Declaration) {read : List Declaration}
    (derived : IsDeclarations tokens read rest)
    (distinct : ((earlier ++ read).map Declaration.name).Nodup)
    (stop : Ahead (fun kind => ∀ basic, kind ≠ .basic basic) rest) :
    Finds (declarations (scopes.extend [⟨parent, earlier⟩]) scopes.count tokens)
      (read, scopes.extend [⟨parent, earlier ++ read⟩]) rest := by
  induction derived generalizing earlier with
  | nil =>
      obtain ⟨next, others, rfl, noBasic⟩ := stop
      rw [List.append_nil]
      exact (finds_declarations_stop noBasic).mpr ⟨rfl, rfl⟩
  | @cons _ first middle more _ derived _ ih =>
      have apart : earlier ++ first :: more = (earlier ++ [first]) ++ more := by
        rw [List.append_assoc, List.singleton_append]
      have notYet : first.name ∉ earlier.map Declaration.name := by
        rw [List.map_append, List.map_cons] at distinct
        exact fun member => (List.nodup_append.mp distinct).2.2 _ member _ List.mem_cons_self rfl
      have fresh := Bool.eq_false_iff.mpr (mt (Scopes.declaredIn_extend scopes parent).mp notYet)
      obtain ⟨type, basic, others, rfl, kind, found⟩ := declaration_complete derived fresh
      rw [apart] at distinct ⊢
      have rest := ih _ distinct stop
      rw [← Scopes.declare_extend notYet] at rest
      exact (finds_declarations_step kind).mpr ⟨first, middle, more, _, found, rest, rfl⟩

end

theorem condition_complete {declared : String → Bool} {visible : List String}
    {tokens rest : List Token} {value : Expr}
    (sees : ∀ name, declared name = true ↔ name ∈ visible)
    (derived : IsCondition visible tokens value rest) :
    Finds (condition declared tokens) value rest := by
  cases derived with
  | parens opens inner closes =>
      have read := expression_complete sees inner
        (ahead_of_kind closes ⟨rfl, nofun⟩)
      exact finds_condition.mpr ⟨_, _, _, rfl, opens, read, closes⟩

/-- No statement starts with an `else`, a closing brace or a basic type. -/
def StartsStatement (kind : Kind) : Prop :=
  kind ≠ .keyword .elseWord ∧ kind ≠ .mark .closeBrace ∧ ∀ basic, kind ≠ .basic basic

section

variable {visible : List String} {inLoop : Bool} {opened after : Nat} {tokens rest : List Token}

theorem IsStatement.starts {stmt : Stmt}
    (derived : IsStatement visible inLoop opened tokens stmt after rest) :
    Ahead StartsStatement tokens := by
  cases derived with
  | assign place sign value ends =>
      cases place with
      | subscripts kind known indices => simp [ahead_cons, StartsStatement, kind]
  | ifThen kind condition body => simp [ahead_cons, StartsStatement, kind]
  | ifThenElse kind condition body other otherwise => simp [ahead_cons, StartsStatement, kind]
  | whileDo kind condition body => simp [ahead_cons, StartsStatement, kind]
  | doWhile kind body again condition ends => simp [ahead_cons, StartsStatement, kind]
  | breakLoop inside kind ends => simp [ahead_cons, StartsStatement, kind]
  | block kind declarations distinct members closes => simp [ahead_cons, StartsStatement, kind]

theorem AreStatements.ahead {stmts : List Stmt} {holds : Kind → Prop}
    (derived : AreStatements visible inLoop opened tokens stmts after rest)
    (start : ∀ kind, StartsStatement kind → holds kind) (behind : Ahead holds rest) :
    Ahead holds tokens := by
  cases derived with
  | nil => exact behind
  | cons first others => exact first.starts.imp start

end

theorem block_complete {visible : List String} {inLoop : Bool} {opened after : Nat}
    {scopes final : Scopes} {parent : Option Nat} {tokens middle rest : List Token}
    {declarations : List Declaration} {body : List Stmt} {closing : Token}
    (declared : IsDeclarations tokens declarations middle)
    (distinct : (declarations.map Declaration.name).Nodup)
    (members : AreStatements visible inLoop opened middle body after (closing :: rest))
    (closes : closing.kind = .mark .closeBrace)
    (read : Finds (statements inLoop scopes.count (scopes.extend [⟨parent, declarations⟩]) middle)
      (body, final) rest) :
    Finds (block inLoop parent scopes tokens) (⟨scopes.count, declarations, body⟩, final) rest := by
  have noBasic := members.ahead (fun _ start => start.2.2) (ahead_of_kind closes nofun)
  have declaredRead := declarations_complete scopes parent [] declared distinct noBasic
  rw [← Scopes.push_eq_extend] at declaredRead
  exact finds_block.mpr ⟨_, _, _, _, final, declaredRead, read, rfl⟩

mutual

theorem statement_complete {visible : List String} {inLoop : Bool} {scope : Nat} {scopes : Scopes}
    (around : scopes.Around (some scope) visible) (ordered : scopes.Ordered) {opened after : Nat}
    {tokens rest : List Token} {stmt : Stmt} (count : scopes.count = opened)
    (derived : IsStatement visible inLoop opened tokens stmt after rest)
    (nearest : stmt.ElsesNearest)
    (followed : stmt.endsOpen = true → Ahead (· ≠ .keyword .elseWord) rest) :
    ∃ final, Finds (statement inLoop scope scopes tokens) (stmt, final) rest ∧
      final.count = after := by
  have sees := isDeclared_iff around ordered
  match derived with
  | .assign place sign value ends =>
      obtain ⟨token, name, others, same, kind, placeRead⟩ :=
        location_complete sees place (ahead_of_kind sign nofun)
      cases same
      have valueRead := expression_complete sees value
        (ahead_of_kind ends ⟨rfl, nofun⟩)
      have read := finds_assignment.mpr ⟨_, _, _, _, _, placeRead, sign, valueRead, ends, rfl⟩
      exact ⟨scopes, (finds_statement_assign kind).mpr ⟨_, read, rfl⟩, count⟩
  | .ifThen word condition body =>
      have later := followed rfl
      obtain ⟨between, bodyRead, bodyCount⟩ := statement_complete around ordered count body
        (Stmt.elsesNearest_ifThen.mp nearest) fun _ => later
      obtain ⟨next, others, rfl, notElse⟩ := later
      exact ⟨between, (finds_statement_if word).mpr ⟨_, _, _, between, next, others,
        condition_complete sees condition, bodyRead, .inr ⟨notElse, rfl, rfl⟩⟩, bodyCount⟩
  | .ifThenElse word condition body other otherwise =>
      obtain ⟨closed, bodyNearest, elseNearest⟩ := Stmt.elsesNearest_ifThenElse.mp nearest
      obtain ⟨between, bodyRead, bodyCount⟩ := statement_complete around ordered count body
        bodyNearest fun isOpen => by rw [closed] at isOpen; contradiction
      -- Reading the body has added scopes; soundness says which, so the rest is read in them.
      have reads := statement_sound around ordered _ bodyRead
      obtain ⟨final, elseRead, finalCount⟩ := statement_complete (reads.around around ordered)
        reads.ordered bodyCount otherwise elseNearest followed
      exact ⟨final, (finds_statement_if word).mpr ⟨_, _, _, between, _, _,
        condition_complete sees condition, bodyRead, .inl ⟨other, _, final, elseRead, rfl⟩⟩,
        finalCount⟩
  | .whileDo word condition body =>
      obtain ⟨final, bodyRead, bodyCount⟩ := statement_complete around ordered count body
        (Stmt.elsesNearest_whileDo.mp nearest) followed
      exact ⟨final, (finds_statement_while word).mpr
        ⟨_, _, _, final, condition_complete sees condition, bodyRead, rfl⟩, bodyCount⟩
  | .doWhile word body again condition ends =>
      obtain ⟨final, bodyRead, bodyCount⟩ := statement_complete around ordered count body
        (Stmt.elsesNearest_doWhile.mp nearest) fun _ => ahead_of_kind again nofun
      have reads := statement_sound around ordered _ bodyRead
      have stillSees := isDeclared_iff (reads.around around ordered) reads.ordered
      exact ⟨final, (finds_statement_do word).mpr ⟨_, final, _, _, _, _, bodyRead, again,
        condition_complete stillSees condition, ends, rfl⟩, bodyCount⟩
  | .breakLoop inside word ends =>
      exact ⟨scopes, (finds_statement_break word).mpr ⟨inside, _, rfl, ends, rfl⟩, count⟩
  | .block opens declarations distinct members closes =>
      subst count
      obtain ⟨final, read, finalCount⟩ := statements_complete (around.block ordered)
        (ordered.extend around.inside) Scopes.count_extend members
        (Stmt.elsesNearest_block.mp nearest) rfl closes
      have blockRead := block_complete declarations distinct members closes read
      exact ⟨final, (finds_statement_block opens).mpr ⟨_, final, blockRead, rfl⟩, finalCount⟩

theorem statements_complete {visible : List String} {inLoop : Bool} {scope : Nat} {scopes : Scopes}
    (around : scopes.Around (some scope) visible) (ordered : scopes.Ordered) {opened after : Nat}
    {tokens rest later : List Token} {body : List Stmt} {closing : Token}
    (count : scopes.count = opened)
    (derived : AreStatements visible inLoop opened tokens body after rest)
    (nearest : ∀ stmt ∈ body, stmt.ElsesNearest) (behind : rest = closing :: later)
    (closes : closing.kind = .mark .closeBrace) :
    ∃ final, Finds (statements inLoop scope scopes tokens) (body, final) later ∧
      final.count = after := by
  match derived with
  | .nil =>
      subst behind
      exact ⟨scopes, (finds_statements_stop closes).mpr ⟨rfl, rfl⟩, count⟩
  | .cons first others =>
      obtain ⟨firstNearest, othersNearest⟩ := List.forall_mem_cons.mp nearest
      have noElse : Ahead (· ≠ .keyword .elseWord) _ := others.ahead (fun _ start => start.1)
        (behind ▸ ahead_of_kind closes nofun)
      obtain ⟨between, firstRead, firstCount⟩ := statement_complete around ordered count first
        firstNearest fun _ => noElse
      have reads := statement_sound around ordered _ firstRead
      obtain ⟨final, othersRead, finalCount⟩ := statements_complete (reads.around around ordered)
        reads.ordered firstCount others othersNearest behind closes
      obtain ⟨token, left, rfl, -, noBrace, -⟩ := first.starts
      exact ⟨final, (finds_statements_step noBrace).mpr
        ⟨_, between, _, _, final, firstRead, othersRead, rfl⟩, finalCount⟩

end

end ThreeAddress.Grammar

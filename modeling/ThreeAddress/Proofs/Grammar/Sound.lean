import ThreeAddress.Proofs.Grammar.Attachment
import ThreeAddress.Proofs.Grammar.Steps
import ThreeAddress.Proofs.Grammar.Visible
import ThreeAddress.Proofs.Layout

namespace ThreeAddress.Grammar

section

variable {visible : List String} {tokens rest : List Token} {expr : Expr}
  {more : List Operation}

theorem IsLocation.single (derived : IsLocation visible tokens expr rest) :
    expr.isBinary = false := by
  cases derived with
  | subscripts => rfl

theorem IsFactor.single (derived : IsFactor visible tokens expr rest) :
    expr.isBinary = false := by
  cases derived with
  | location place => exact place.single
  | _ => rfl

theorem AreOperations.plain (derived : AreOperations visible tokens more rest) :
    Expr.Plain more := by
  induction more generalizing tokens with
  | nil => exact nofun
  | cons operation others ih =>
      cases derived with
      | cons sign operand derived =>
          exact List.forall_mem_cons.mpr ⟨⟨operand.single, rfl⟩, ih derived⟩

end

mutual

theorem expression_sound {declared : String → Bool} {visible : List String}
    (sees : ∀ name, declared name = true ↔ name ∈ visible) (tokens : List Token) {expr : Expr}
    {rest : List Token} (found : Finds (expression declared tokens) expr rest) :
    IsExpression visible tokens expr rest := by
  obtain ⟨first, middle, firstFound, others⟩ := finds_expression.mp found
  have shorter := firstFound.within
  have firstDerived := factor_sound sees tokens firstFound
  obtain ⟨more, derived, whole⟩ := operations_sound sees middle others
  obtain ⟨rfl, rfl, grouped⟩ :=
    (Expr.extendAll_eq_iff firstDerived.single derived.plain).mp whole.symm
  exact .grouped firstDerived derived grouped
termination_by 4 * tokens.length + 1
decreasing_by all_goals omega

theorem operations_sound {declared : String → Bool} {visible : List String}
    (sees : ∀ name, declared name = true ↔ name ∈ visible) (tokens : List Token)
    {left expr : Expr} {rest : List Token}
    (found : Finds (operations declared left tokens) expr rest) :
    ∃ more, AreOperations visible tokens more rest ∧ expr = left.extendAll more := by
  match tokens with
  | [] => exact (finds_operations_nil found).elim
  | token :: after =>
      cases sign : BinaryOp.ofKind? token.kind with
      | none =>
          obtain ⟨rfl, rfl⟩ := (finds_operations_stop sign).mp found
          exact ⟨[], .nil, rfl⟩
      | some op =>
          obtain ⟨right, middle, rightFound, others⟩ := (finds_operations_step sign).mp found
          have shorter := rightFound.within
          have rightDerived := factor_sound sees after rightFound
          obtain ⟨more, derived, whole⟩ := operations_sound sees middle others
          exact ⟨_, .cons sign rightDerived derived, whole⟩
termination_by 4 * tokens.length
decreasing_by all_goals (simp only [List.length_cons] at *; omega)

theorem factor_sound {declared : String → Bool} {visible : List String}
    (sees : ∀ name, declared name = true ↔ name ∈ visible) (tokens : List Token) {expr : Expr}
    {rest : List Token} (found : Finds (factor declared tokens) expr rest) :
    IsFactor visible tokens expr rest := by
  match tokens with
  | [] => exact (finds_factor_nil found).elim
  | token :: after =>
      rcases finds_factor.mp found with ⟨op, operand, sign, inner, rfl⟩ |
        ⟨inner, closing, opens, innerFound, closes, rfl⟩ | ⟨value, kind, rfl, rfl⟩ |
        ⟨value, kind, rfl, rfl⟩ | ⟨kind, rfl, rfl⟩ | ⟨kind, rfl, rfl⟩ | ⟨name, kind, place⟩
      · exact .unary sign (factor_sound sees after inner)
      · exact .paren opens (expression_sound sees after innerFound) closes
      · exact .int kind
      · exact .real kind
      · exact .trueWord kind
      · exact .falseWord kind
      · exact .location (location_sound sees kind after place)
termination_by 4 * tokens.length
decreasing_by all_goals (simp only [List.length_cons] at *; omega)

theorem location_sound {declared : String → Bool} {visible : List String}
    (sees : ∀ name, declared name = true ↔ name ∈ visible) {name : String} {token : Token}
    (kind : token.kind = .ident name) (tokens : List Token) {expr : Expr} {rest : List Token}
    (found : Finds (location declared name token tokens) expr rest) :
    IsLocation visible (token :: tokens) expr rest := by
  obtain ⟨known, indices, indicesFound, rfl⟩ := finds_location.mp found
  exact .subscripts kind ((sees name).mp known) (subscripts_sound sees tokens indicesFound)
termination_by 4 * tokens.length + 3
decreasing_by all_goals omega

theorem subscripts_sound {declared : String → Bool} {visible : List String}
    (sees : ∀ name, declared name = true ↔ name ∈ visible) (tokens : List Token)
    {indices : List Expr} {rest : List Token}
    (found : Finds (subscripts declared tokens) indices rest) :
    AreSubscripts visible tokens indices rest := by
  match tokens with
  | [] => exact (finds_subscripts_nil found).elim
  | token :: after =>
      by_cases opening : token.kind = .mark .openBracket
      · obtain ⟨index, closing, middle, more, indexFound, closes, others, rfl⟩ :=
          (finds_subscripts_step opening).mp found
        have shorter := indexFound.within
        exact .cons opening (expression_sound sees after indexFound) closes
          (subscripts_sound sees middle others)
      · obtain ⟨rfl, rfl⟩ := (finds_subscripts_stop opening).mp found
        exact .nil
termination_by 4 * tokens.length + 2
decreasing_by all_goals (simp only [List.length_cons] at *; omega)

end

theorem dims_sound (tokens : List Token) {sizes : List Nat} {rest : List Token}
    (found : Finds (dims tokens) sizes rest) : IsDims tokens sizes rest := by
  match tokens with
  | [] => exact (finds_dims_nil found).elim
  | token :: after =>
      by_cases opening : token.kind = .mark .openBracket
      · obtain ⟨size, closing, middle, value, more, whole, kind, closes, others, rfl⟩ :=
          (finds_dims_step opening).mp found
        have shorter : middle.length < after.length := by
          rw [whole, List.length_cons, List.length_cons]
          omega
        rw [whole]
        exact .more opening kind closes (dims_sound middle others)
      · obtain ⟨rfl, rfl⟩ := (finds_dims_stop opening).mp found
        exact .none
termination_by tokens.length
decreasing_by all_goals (simp only [List.length_cons] at *; omega)

variable {scopes : Scopes} {scope : Nat} {tokens rest : List Token}

theorem declaration_sound {basic : BasicType} {type : Token} {declared : Declaration}
    (kind : type.kind = .basic basic)
    (found : Finds (declaration scopes scope basic tokens) declared rest) :
    IsDeclaration (type :: tokens) declared rest ∧
      scopes.declaredIn scope declared.name = false := by
  obtain ⟨leading, afterLeading, id, afterName, sizes, semicolon, first, named, last, ends, fits,
    rfl⟩ := finds_declaration.mp found
  obtain ⟨name, text, rfl, isName, fresh, rfl⟩ := finds_newName.mp named
  obtain ⟨bytes, size, small⟩ := DeclaredType.fits_iff.mp fits
  refine ⟨?_, fresh⟩
  rcases finds_trailingDims.mp last with ⟨rfl, trailing⟩ | ⟨-, rfl, rfl, -⟩
  · cases dims_sound tokens first with
    | none => exact .trailing kind isName (dims_sound _ trailing) ends size small
  · exact .leading kind (dims_sound tokens first) isName ends size small

theorem declarations_sound {parent : Option Nat} {earlier : List Declaration} (tokens : List Token)
    {read : List Declaration} {final : Scopes} {rest : List Token}
    (distinct : (earlier.map Declaration.name).Nodup)
    (found : Finds (declarations (scopes.extend [⟨parent, earlier⟩]) scopes.count tokens)
      (read, final) rest) :
    IsDeclarations tokens read rest ∧ final = scopes.extend [⟨parent, earlier ++ read⟩] ∧
      ((earlier ++ read).map Declaration.name).Nodup := by
  match tokens with
  | [] => exact (finds_declarations_nil found).elim
  | token :: after =>
      by_cases isBasic : ∃ basic, token.kind = .basic basic
      · obtain ⟨basic, kind⟩ := isBasic
        obtain ⟨first, middle, more, last, firstFound, others, same⟩ :=
          (finds_declarations_step kind).mp found
        cases same
        have shorter := firstFound.within
        obtain ⟨derived, fresh⟩ := declaration_sound kind firstFound
        have notYet : first.name ∉ earlier.map Declaration.name := by
          intro member
          rw [(Scopes.declaredIn_extend scopes parent).mpr member] at fresh
          contradiction
        rw [Scopes.declare_extend notYet] at others
        have stillDistinct : ((earlier ++ [first]).map Declaration.name).Nodup := by
          rw [List.map_append, List.map_singleton]
          exact List.concat_eq_append ▸ List.Nodup.concat notYet distinct
        obtain ⟨moreDerived, rfl, allDistinct⟩ := declarations_sound middle stillDistinct others
        rw [List.append_assoc, List.singleton_append] at allDistinct ⊢
        exact ⟨.cons derived moreDerived, rfl, allDistinct⟩
      · obtain ⟨same, rfl⟩ := (finds_declarations_stop (not_exists.mp isBasic)).mp found
        cases same
        rw [List.append_nil]
        exact ⟨.nil, rfl, distinct⟩
termination_by tokens.length
decreasing_by all_goals (simp only [List.length_cons] at *; omega)

theorem condition_sound {declared : String → Bool} {visible : List String} {value : Expr}
    (sees : ∀ name, declared name = true ↔ name ∈ visible)
    (found : Finds (condition declared tokens) value rest) :
    IsCondition visible tokens value rest := by
  obtain ⟨opening, middle, closing, rfl, opens, valueFound, closes⟩ := finds_condition.mp found
  exact .parens opens (expression_sound sees middle valueFound) closes

/-- What is known of a statement once it has been read. -/
structure ReadsAs (visible : List String) (inLoop : Bool) (parent : Option Nat) (scopes : Scopes)
    (tokens : List Token) (stmt : Stmt) (final : Scopes) (rest : List Token) : Prop where
  derived : IsStatement visible inLoop scopes.count tokens stmt final.count rest
  nearest : stmt.ElsesNearest
  followed : stmt.endsOpen = true → Ahead (· ≠ .keyword .elseWord) rest
  grown : final = scopes.extend (stmt.opens parent)
  ordered : final.Ordered

theorem ReadsAs.around {visible : List String} {inLoop : Bool} {parent : Option Nat}
    {stmt : Stmt} {final : Scopes}
    (reads : ReadsAs visible inLoop parent scopes tokens stmt final rest)
    (around : scopes.Around parent visible) (ordered : scopes.Ordered) :
    final.Around parent visible := by
  rw [reads.grown]
  exact around.extend ordered

mutual

theorem statement_sound {visible : List String} {inLoop : Bool} {scope : Nat} {scopes : Scopes}
    (around : scopes.Around (some scope) visible) (ordered : scopes.Ordered)
    (tokens : List Token) {stmt : Stmt} {final : Scopes} {rest : List Token}
    (found : Finds (statement inLoop scope scopes tokens) (stmt, final) rest) :
    ReadsAs visible inLoop (some scope) scopes tokens stmt final rest := by
  have sees := isDeclared_iff around ordered
  match tokens with
  | [] => exact (finds_statement_nil found).elim
  | token :: after =>
      rcases finds_statement_kind found with ⟨name, kind⟩ | kind | kind | kind | kind | kind
      · obtain ⟨_, assigned, same⟩ := (finds_statement_assign kind).mp found
        cases same
        obtain ⟨target, sign, middle, value, semicolon, place, equals, valueFound, ends, rfl⟩ :=
          finds_assignment.mp assigned
        exact {
          derived := .assign (location_sound sees kind after place) equals
            (expression_sound sees middle valueFound) ends
          nearest := Stmt.elsesNearest_assign
          followed := nofun
          grown := Scopes.extend_nil.symm
          ordered := ordered }
      · obtain ⟨test, middle, body, between, next, later, tested, bodyFound, last⟩ :=
          (finds_statement_if kind).mp found
        have first := tested.within
        have second := bodyFound.within
        have testDerived := condition_sound sees tested
        have bodyReads := statement_sound around ordered middle bodyFound
        rcases last with ⟨isElse, otherwise, last, elseFound, same⟩ | ⟨notElse, rfl, same⟩
        · cases same
          have elseReads := statement_sound (bodyReads.around around ordered) bodyReads.ordered
            later elseFound
          have closed : body.endsOpen = false := by
            rw [← Bool.not_eq_true]
            intro isOpen
            exact ahead_cons.mp (bodyReads.followed isOpen) isElse
          exact {
            derived := .ifThenElse kind testDerived bodyReads.derived isElse elseReads.derived
            nearest := Stmt.elsesNearest_ifThenElse.mpr
              ⟨closed, bodyReads.nearest, elseReads.nearest⟩
            followed := elseReads.followed
            grown := by
              rw [elseReads.grown, bodyReads.grown, Scopes.extend_extend]
              rfl
            ordered := elseReads.ordered }
        · cases same
          exact {
            derived := .ifThen kind testDerived bodyReads.derived
            nearest := Stmt.elsesNearest_ifThen.mpr bodyReads.nearest
            followed := fun _ => ahead_cons.mpr notElse
            grown := bodyReads.grown
            ordered := bodyReads.ordered }
      · obtain ⟨test, middle, body, last, tested, bodyFound, same⟩ :=
          (finds_statement_while kind).mp found
        cases same
        have first := tested.within
        have bodyReads := statement_sound around ordered middle bodyFound
        exact {
          derived := .whileDo kind (condition_sound sees tested) bodyReads.derived
          nearest := Stmt.elsesNearest_whileDo.mpr bodyReads.nearest
          followed := bodyReads.followed
          grown := bodyReads.grown
          ordered := bodyReads.ordered }
      · obtain ⟨body, last, again, middle, test, semicolon, bodyFound, isWhile, tested, ends,
          same⟩ := (finds_statement_do kind).mp found
        cases same
        have bodyReads := statement_sound around ordered after bodyFound
        have stillSees := isDeclared_iff (bodyReads.around around ordered) bodyReads.ordered
        exact {
          derived := .doWhile kind bodyReads.derived isWhile (condition_sound stillSees tested) ends
          nearest := Stmt.elsesNearest_doWhile.mpr bodyReads.nearest
          followed := nofun
          grown := bodyReads.grown
          ordered := bodyReads.ordered }
      · obtain ⟨inside, semicolon, rfl, ends, same⟩ := (finds_statement_break kind).mp found
        cases same
        exact {
          derived := .breakLoop inside kind ends
          nearest := Stmt.elsesNearest_breakLoop
          followed := nofun
          grown := Scopes.extend_nil.symm
          ordered := ordered }
      · obtain ⟨inner, last, blockFound, same⟩ := (finds_statement_block kind).mp found
        cases same
        exact block_sound kind around ordered after blockFound
termination_by 3 * tokens.length
decreasing_by all_goals (simp only [List.length_cons] at *; omega)

theorem statements_sound {visible : List String} {inLoop : Bool} {scope : Nat} {scopes : Scopes}
    (around : scopes.Around (some scope) visible) (ordered : scopes.Ordered)
    (tokens : List Token) {body : List Stmt} {final : Scopes} {rest : List Token}
    (found : Finds (statements inLoop scope scopes tokens) (body, final) rest) :
    (∃ closing : Token, closing.kind = .mark .closeBrace ∧
      AreStatements visible inLoop scopes.count tokens body final.count (closing :: rest)) ∧
    (∀ stmt ∈ body, stmt.ElsesNearest) ∧
    final = scopes.extend (Stmt.allOpen (some scope) body) ∧ final.Ordered := by
  match tokens with
  | [] => exact (finds_statements_nil found).elim
  | token :: after =>
      by_cases closing : token.kind = .mark .closeBrace
      · obtain ⟨same, rfl⟩ := (finds_statements_stop closing).mp found
        cases same
        exact ⟨⟨token, closing, .nil⟩, nofun, Scopes.extend_nil.symm, ordered⟩
      · obtain ⟨first, between, middle, others, last, firstFound, othersFound, same⟩ :=
          (finds_statements_step closing).mp found
        cases same
        have shorter := firstFound.within
        have firstReads := statement_sound around ordered (token :: after) firstFound
        obtain ⟨⟨closing, closes, derived⟩, nearest, grown, allOrdered⟩ :=
          statements_sound (firstReads.around around ordered) firstReads.ordered middle othersFound
        refine ⟨⟨closing, closes, .cons firstReads.derived derived⟩,
          List.forall_mem_cons.mpr ⟨firstReads.nearest, nearest⟩, ?_, allOrdered⟩
        rw [grown, firstReads.grown, Scopes.extend_extend]
        rfl
termination_by 3 * tokens.length + 1
decreasing_by all_goals (simp only [List.length_cons] at *; omega)

theorem block_sound {visible : List String} {inLoop : Bool} {parent : Option Nat}
    {scopes : Scopes} {opening : Token} (opens : opening.kind = .mark .openBrace)
    (around : scopes.Around parent visible) (ordered : scopes.Ordered) (tokens : List Token)
    {inner : Block} {final : Scopes} {rest : List Token}
    (found : Finds (block inLoop parent scopes tokens) (inner, final) rest) :
    ReadsAs visible inLoop parent scopes (opening :: tokens) inner.stmt final rest := by
  obtain ⟨made, within, middle, body, last, declared, members, same⟩ := finds_block.mp found
  cases same
  have shorter := declared.within
  rw [Scopes.push_eq_extend] at declared
  have none : (([] : List Declaration).map Declaration.name).Nodup := List.nodup_nil
  obtain ⟨derived, rfl, distinct⟩ := declarations_sound tokens none declared
  obtain ⟨⟨closing, closes, membersDerived⟩, nearest, rfl, allOrdered⟩ :=
    statements_sound (around.block ordered) (ordered.extend around.inside) middle members
  rw [Scopes.count_extend, List.length_singleton] at membersDerived
  exact {
    derived := .block opens derived distinct membersDerived closes
    nearest := Stmt.elsesNearest_block.mpr nearest
    followed := nofun
    grown := Scopes.extend_extend
    ordered := allOrdered }
termination_by 3 * tokens.length + 2
decreasing_by omega

end

end ThreeAddress.Grammar

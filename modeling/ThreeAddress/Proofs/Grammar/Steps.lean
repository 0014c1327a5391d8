import ThreeAddress.Grammar.Statement

namespace ThreeAddress

namespace UnaryOp

variable {op : UnaryOp}

theorem mark_eq_minus_iff : Mark.minus = op.mark ↔ op = .neg := by
  cases op <;> decide

theorem mark_eq_bang_iff : Mark.bang = op.mark ↔ op = .not := by
  cases op <;> decide

theorem mark_ne_openParen : Mark.openParen ≠ op.mark := by
  cases op <;> decide

end UnaryOp

namespace Grammar

section

variable {α β : Type} {bound limit : Nat} {tokens rest after : List Token} {value result : α}

/-- A phrase with this value is read, and these tokens are left. -/
def Finds (reading : Except Failure (Phrase α bound)) (value : α) (rest : List Token) : Prop :=
  ∃ within, reading = .ok ⟨value, rest, within⟩

@[simp] theorem finds_pure {phrase : Phrase α bound} :
    Finds (pure phrase) value rest ↔ value = phrase.value ∧ rest = phrase.rest := by
  constructor
  · rintro ⟨within, same⟩
    cases same
    exact ⟨rfl, rfl⟩
  · rintro ⟨rfl, rfl⟩
    exact ⟨phrase.within, rfl⟩

@[simp] theorem finds_error {failure : Failure} :
    ¬ Finds (.error failure : Except Failure (Phrase α bound)) value rest := by
  rintro ⟨within, same⟩
  cases same

theorem Finds.within {reading : Except Failure (Phrase α bound)}
    (found : Finds reading value rest) : rest.length < bound :=
  found.1

@[simp] theorem finds_bind {reading : Except Failure (Phrase α bound)}
    {next : Phrase α bound → Except Failure (Phrase β limit)} {result : β} :
    Finds (reading >>= next) result after ↔ ∃ value rest, ∃ found : Finds reading value rest,
      Finds (next ⟨value, rest, found.within⟩) result after := by
  cases reading with
  | error failure =>
      constructor
      · rintro ⟨within, same⟩
        cases same
      · rintro ⟨_, _, ⟨_, same⟩, -⟩
        cases same
  | ok phrase =>
      constructor
      · intro found
        exact ⟨phrase.value, phrase.rest, ⟨phrase.within, rfl⟩, found⟩
      · rintro ⟨_, _, ⟨_, same⟩, found⟩
        cases same
        exact found

@[simp] theorem finds_taken {token : Token} :
    Finds (taken value token rest) result after ↔ result = value ∧ after = rest :=
  finds_pure

@[simp] theorem finds_untouched :
    Finds (untouched value tokens) result after ↔ result = value ∧ after = tokens :=
  finds_pure

theorem finds_expect {wanted : Kind} {token : Token} :
    Finds (expect wanted tokens) token rest ↔ tokens = token :: rest ∧ token.kind = wanted := by
  cases tokens with
  | nil => simp [expect]
  | cons first others =>
      by_cases same : first.kind = wanted
      · rw [expect, if_pos same, finds_taken]
        constructor
        · rintro ⟨rfl, rfl⟩
          exact ⟨rfl, same⟩
        · rintro ⟨whole, -⟩
          cases whole
          exact ⟨rfl, rfl⟩
      · rw [expect, if_neg same]
        constructor
        · intro found
          exact (finds_error found).elim
        · rintro ⟨whole, kind⟩
          cases whole
          exact (same kind).elim

end

/-- There is a next token, and it is of such a kind. -/
def Ahead (holds : Kind → Prop) (tokens : List Token) : Prop :=
  ∃ next rest, tokens = next :: rest ∧ holds next.kind

theorem ahead_cons {holds : Kind → Prop} {token : Token} {rest : List Token} :
    Ahead holds (token :: rest) ↔ holds token.kind := by
  constructor
  · rintro ⟨_, _, whole, here⟩
    cases whole
    exact here
  · intro here
    exact ⟨token, rest, rfl, here⟩

theorem ahead_of_kind {holds : Kind → Prop} {token : Token} {rest : List Token} {kind : Kind}
    (same : token.kind = kind) (here : holds kind) : Ahead holds (token :: rest) :=
  ahead_cons.mpr (same ▸ here)

theorem Ahead.imp {holds fits : Kind → Prop} {tokens : List Token} (ahead : Ahead holds tokens)
    (implies : ∀ kind, holds kind → fits kind) : Ahead fits tokens := by
  obtain ⟨next, rest, rfl, here⟩ := ahead
  exact ahead_cons.mpr (implies next.kind here)

section

variable {declared : String → Bool} {name : String} {token : Token}
  {tokens rest after : List Token} {left expr : Expr} {indices : List Expr}

theorem finds_expression : Finds (expression declared tokens) expr after ↔
    ∃ first middle, Finds (factor declared tokens) first middle ∧
      Finds (operations declared first middle) expr after := by
  rw [expression]
  simp [-bind_pure_comp]

theorem finds_operations_nil : ¬ Finds (operations declared left []) expr after := by
  rw [operations]
  exact finds_error

theorem finds_operations_stop (none : BinaryOp.ofKind? token.kind = none) :
    Finds (operations declared left (token :: rest)) expr after ↔
    expr = left ∧ after = token :: rest := by
  rw [operations]
  split
  · exact finds_untouched
  · simp_all

theorem finds_operations_step {op : BinaryOp} (sign : BinaryOp.ofKind? token.kind = some op) :
    Finds (operations declared left (token :: rest)) expr after ↔
    ∃ right middle, Finds (factor declared rest) right middle ∧
      Finds (operations declared (left.extend token.line op right) middle) expr after := by
  rw [operations]
  split
  · simp_all
  · next other same =>
      cases same.symm.trans sign
      simp [-bind_pure_comp]

theorem finds_factor_nil : ¬ Finds (factor declared []) expr after := by
  rw [factor]
  exact finds_error

theorem finds_factor : Finds (factor declared (token :: rest)) expr after ↔
    (∃ op : UnaryOp, ∃ operand, token.kind = .mark op.mark ∧
      Finds (factor declared rest) operand after ∧
      expr = .unary { line := token.line } op operand) ∨
    (∃ inner closing, token.kind = .mark .openParen ∧
      Finds (expression declared rest) inner (closing :: after) ∧
      closing.kind = .mark .closeParen ∧ expr = .paren { line := token.line } inner) ∨
    (∃ value : Nat, token.kind = .int value ∧ expr = .int { line := token.line } value ∧
      after = rest) ∨
    (∃ value, token.kind = .real value ∧ expr = .real { line := token.line } value ∧
      after = rest) ∨
    (token.kind = .keyword .trueWord ∧ expr = .bool { line := token.line } true ∧ after = rest) ∨
    (token.kind = .keyword .falseWord ∧ expr = .bool { line := token.line } false ∧
      after = rest) ∨
    ∃ name, token.kind = .ident name ∧ Finds (location declared name token rest) expr after := by
  rw [factor]
  split
  · next kind => simp [kind, UnaryOp.mark_eq_minus_iff, and_comm, -bind_pure_comp]
  · next kind => simp [kind, UnaryOp.mark_eq_bang_iff, and_comm, -bind_pure_comp]
  · next kind =>
      simp only [kind, UnaryOp.mark_ne_openParen, finds_bind, finds_pure, finds_expect,
        exists_prop, Kind.mark.injEq, reduceCtorEq, false_and, exists_false, or_false, false_or,
        true_and]
      constructor
      · rintro ⟨inner, _, found, closing, _, ⟨rfl, closes⟩, rfl, rfl⟩
        exact ⟨inner, closing, found, closes, rfl⟩
      · rintro ⟨inner, closing, found, closes, rfl⟩
        exact ⟨inner, _, found, closing, _, ⟨rfl, closes⟩, rfl, rfl⟩
  · next kind => simp [kind]
  · next kind => simp [kind]
  · next kind => simp [kind]
  · next kind => simp [kind]
  · next kind => simp [kind]
  · next minus bang paren int real trueWord falseWord ident =>
      constructor
      · intro found
        exact (finds_error found).elim
      · rintro (⟨op, _, sign, -⟩ | ⟨_, _, sign, -⟩ | ⟨_, sign, -⟩ | ⟨_, sign, -⟩ | ⟨sign, -⟩ |
          ⟨sign, -⟩ | ⟨_, sign, -⟩)
        · cases op
          · exact (minus sign).elim
          · exact (bang sign).elim
        · exact (paren sign).elim
        · exact (int _ sign).elim
        · exact (real _ sign).elim
        · exact (trueWord sign).elim
        · exact (falseWord sign).elim
        · exact (ident _ sign).elim

theorem finds_location : Finds (location declared name token rest) expr after ↔
    declared name = true ∧ ∃ indices, Finds (subscripts declared rest) indices after ∧
      expr = .loc { line := token.line } ⟨name, token.line⟩ indices := by
  rw [location]
  by_cases known : declared name = true
  · simp [known, and_comm, -bind_pure_comp]
  · simp [known]

theorem finds_subscripts_nil : ¬ Finds (subscripts declared []) indices after := by
  rw [subscripts]
  exact finds_error

theorem finds_subscripts_stop (stop : token.kind ≠ .mark .openBracket) :
    Finds (subscripts declared (token :: rest)) indices after ↔
    indices = [] ∧ after = token :: rest := by
  rw [subscripts, if_neg stop]
  exact finds_untouched

theorem finds_subscripts_step (opening : token.kind = .mark .openBracket) :
    Finds (subscripts declared (token :: rest)) indices after ↔
    ∃ index closing middle more, Finds (expression declared rest) index (closing :: middle) ∧
      closing.kind = .mark .closeBracket ∧ Finds (subscripts declared middle) more after ∧
      indices = index :: more := by
  rw [subscripts, if_pos opening]
  simp only [finds_bind, finds_pure, finds_expect, exists_prop]
  constructor
  · rintro ⟨index, _, found, closing, middle, ⟨rfl, closes⟩, more, _, others, rfl, rfl⟩
    exact ⟨index, closing, middle, more, found, closes, others, rfl⟩
  · rintro ⟨index, closing, middle, more, found, closes, others, rfl⟩
    exact ⟨index, _, found, closing, middle, ⟨rfl, closes⟩, more, _, others, rfl, rfl⟩

end

section

variable {token : Token} {tokens rest after : List Token} {sizes : List Nat} {scopes : Scopes}
  {scope : Nat}

theorem finds_dims_nil : ¬ Finds (dims []) sizes after := by
  rw [dims]
  exact finds_error

theorem finds_dims_stop (stop : token.kind ≠ .mark .openBracket) :
    Finds (dims (token :: rest)) sizes after ↔ sizes = [] ∧ after = token :: rest := by
  rw [dims.eq_def]
  dsimp only
  rw [if_neg stop]
  exact finds_untouched

theorem finds_dims_step (opening : token.kind = .mark .openBracket) :
    Finds (dims (token :: rest)) sizes after ↔
    ∃ size closing middle value more, rest = size :: closing :: middle ∧
      size.kind = .int value ∧ closing.kind = .mark .closeBracket ∧
      Finds (dims middle) more after ∧ sizes = value :: more := by
  rw [dims.eq_def]
  dsimp only
  rw [if_pos opening]
  cases rest with
  | nil => simp
  | cons size afterSize =>
      dsimp only
      split
      · next value kind =>
          simp only [finds_bind, finds_pure, finds_expect, exists_prop]
          constructor
          · rintro ⟨closing, middle, ⟨rfl, closes⟩, more, _, found, rfl, rfl⟩
            exact ⟨size, closing, middle, value, more, rfl, kind, closes, found, rfl⟩
          · rintro ⟨_, closing, middle, _, more, whole, same, closes, found, rfl⟩
            cases whole
            cases kind.symm.trans same
            exact ⟨closing, middle, ⟨rfl, closes⟩, more, _, found, rfl, rfl⟩
      · next noSize =>
          constructor
          · intro found
            exact (finds_error found).elim
          · rintro ⟨_, _, _, value, _, whole, kind, -⟩
            cases whole
            exact (noSize value kind).elim

theorem finds_newName {id : Ident} : Finds (newName scopes scope tokens) id after ↔
    ∃ token name, tokens = token :: after ∧ token.kind = .ident name ∧
      scopes.declaredIn scope name = false ∧ id = ⟨name, token.line⟩ := by
  cases tokens with
  | nil => simp [newName]
  | cons token rest =>
      rw [newName]
      split
      · next name kind =>
          by_cases known : scopes.declaredIn scope name = true
          · simp [known, kind]
          · rw [if_neg known, finds_taken]
            constructor
            · rintro ⟨rfl, rfl⟩
              exact ⟨token, name, rfl, kind, Bool.eq_false_iff.mpr known, rfl⟩
            · rintro ⟨_, other, whole, same, -, rfl⟩
              cases whole
              cases kind.symm.trans same
              exact ⟨rfl, rfl⟩
      · next noName =>
          constructor
          · intro found
            exact (finds_error found).elim
          · rintro ⟨_, name, whole, kind, -⟩
            cases whole
            exact (noName name kind).elim

theorem finds_trailingDims {name : String} {leading : List Nat} :
    Finds (trailingDims name leading tokens) sizes after ↔
    leading = [] ∧ Finds (dims tokens) sizes after ∨
    leading ≠ [] ∧ sizes = leading ∧ after = tokens ∧
      Ahead (· ≠ .mark .openBracket) tokens := by
  rw [trailingDims.eq_def]
  cases leading with
  | nil => simp
  | cons size more =>
      cases tokens with
      | nil => simp [Ahead]
      | cons token rest =>
          by_cases opening : token.kind = .mark .openBracket <;> simp [ahead_cons, opening]

theorem finds_declaration {basic : BasicType} {declared : Declaration} :
    Finds (declaration scopes scope basic tokens) declared after ↔
    ∃ leading afterLeading id afterName sizes semicolon,
      Finds (dims tokens) leading afterLeading ∧
      Finds (newName scopes scope afterLeading) id afterName ∧
      Finds (trailingDims id.name leading afterName) sizes (semicolon :: after) ∧
      semicolon.kind = .mark .semicolon ∧ DeclaredType.fits ⟨basic, sizes⟩ = true ∧
      declared = ⟨⟨basic, sizes⟩, id⟩ := by
  rw [declaration]
  simp only [finds_bind]
  constructor
  · rintro ⟨leading, afterLeading, first, id, afterName, second, sizes, afterSizes, third, last⟩
    split at last
    · next fits =>
        simp only [finds_bind, finds_pure, finds_expect, exists_prop] at last
        obtain ⟨semicolon, _, ⟨rfl, ends⟩, rfl, rfl⟩ := last
        exact ⟨leading, afterLeading, id, afterName, sizes, semicolon, first, second, third, ends,
          fits, rfl⟩
    · exact (finds_error last).elim
  · rintro ⟨leading, afterLeading, id, afterName, sizes, semicolon, first, second, third, ends,
      fits, rfl⟩
    refine ⟨leading, afterLeading, first, id, afterName, second, sizes, _, third, ?_⟩
    rw [if_pos fits]
    exact finds_bind.mpr ⟨semicolon, after, finds_expect.mpr ⟨rfl, ends⟩,
      finds_pure.mpr ⟨rfl, rfl⟩⟩

variable {read : List Declaration × Scopes}

theorem finds_declarations_nil : ¬ Finds (declarations scopes scope []) read after := by
  rw [declarations]
  exact finds_error

theorem finds_declarations_stop (stop : ∀ basic, token.kind ≠ .basic basic) :
    Finds (declarations scopes scope (token :: rest)) read after ↔
    read = ([], scopes) ∧ after = token :: rest := by
  rw [declarations]
  split
  · next basic kind => exact (stop basic kind).elim
  · exact finds_untouched

theorem finds_declarations_step {basic : BasicType} (kind : token.kind = .basic basic) :
    Finds (declarations scopes scope (token :: rest)) read after ↔
    ∃ first middle more final, Finds (declaration scopes scope basic rest) first middle ∧
      Finds (declarations (scopes.declare scope first) scope middle) (more, final) after ∧
      read = (first :: more, final) := by
  rw [declarations]
  split
  · next other same =>
      cases same.symm.trans kind
      simp only [finds_bind, finds_pure, exists_prop]
      constructor
      · rintro ⟨first, middle, found, ⟨more, final⟩, _, others, rfl, rfl⟩
        exact ⟨first, middle, more, final, found, others, rfl⟩
      · rintro ⟨first, middle, more, final, found, others, rfl⟩
        exact ⟨first, middle, found, (more, final), _, others, rfl, rfl⟩
  · next noBasic => exact (noBasic basic kind).elim

end

section

variable {declared : String → Bool} {token : Token} {tokens rest after : List Token}
  {inLoop : Bool} {scope : Nat} {scopes : Scopes} {read : Stmt × Scopes}

theorem finds_condition {value : Expr} : Finds (condition declared tokens) value after ↔
    ∃ opening middle closing, tokens = opening :: middle ∧ opening.kind = .mark .openParen ∧
      Finds (expression declared middle) value (closing :: after) ∧
      closing.kind = .mark .closeParen := by
  rw [condition]
  simp only [finds_bind, finds_pure, finds_expect, exists_prop]
  constructor
  · rintro ⟨opening, middle, ⟨rfl, opens⟩, value, _, found, closing, _, ⟨rfl, closes⟩, rfl, rfl⟩
    exact ⟨opening, middle, closing, rfl, opens, found, closes⟩
  · rintro ⟨opening, middle, closing, rfl, opens, found, closes⟩
    exact ⟨opening, middle, ⟨rfl, opens⟩, value, _, found, closing, _, ⟨rfl, closes⟩, rfl, rfl⟩

theorem finds_assignment {name : String} {stmt : Stmt} :
    Finds (assignment declared name token rest) stmt after ↔
    ∃ target sign middle value semicolon,
      Finds (location declared name token rest) target (sign :: middle) ∧
      sign.kind = .mark .assign ∧
      Finds (expression declared middle) value (semicolon :: after) ∧
      semicolon.kind = .mark .semicolon ∧ stmt = .assign target value token.line := by
  rw [assignment]
  simp only [finds_bind, finds_pure, finds_expect, exists_prop]
  constructor
  · rintro ⟨target, _, place, sign, middle, ⟨rfl, equals⟩, value, _, found, semicolon, _,
      ⟨rfl, ends⟩, rfl, rfl⟩
    exact ⟨target, sign, middle, value, semicolon, place, equals, found, ends, rfl⟩
  · rintro ⟨target, sign, middle, value, semicolon, place, equals, found, ends, rfl⟩
    exact ⟨target, _, place, sign, middle, ⟨rfl, equals⟩, value, _, found, semicolon, _,
      ⟨rfl, ends⟩, rfl, rfl⟩

theorem finds_statement_nil : ¬ Finds (statement inLoop scope scopes []) read after := by
  rw [statement]
  exact finds_error

theorem finds_statement_kind
    (found : Finds (statement inLoop scope scopes (token :: rest)) read after) :
    (∃ name, token.kind = .ident name) ∨ token.kind = .keyword .ifWord ∨
      token.kind = .keyword .whileWord ∨ token.kind = .keyword .doWord ∨
      token.kind = .keyword .breakWord ∨ token.kind = .mark .openBrace := by
  rw [statement] at found
  dsimp only at found
  split at found
  · next name kind => exact .inl ⟨name, kind⟩
  · next kind => exact .inr (.inl kind)
  · next kind => exact .inr (.inr (.inl kind))
  · next kind => exact .inr (.inr (.inr (.inl kind)))
  · next kind => exact .inr (.inr (.inr (.inr (.inl kind))))
  · next kind => exact .inr (.inr (.inr (.inr (.inr kind))))
  · exact (finds_error found).elim
  · exact (finds_error found).elim

theorem finds_statement_assign {name : String} (kind : token.kind = .ident name) :
    Finds (statement inLoop scope scopes (token :: rest)) read after ↔
    ∃ stmt, Finds (assignment (isDeclared scopes scope) name token rest) stmt after ∧
      read = (stmt, scopes) := by
  rw [statement]
  simp [kind, and_comm, -bind_pure_comp]

theorem finds_statement_if (kind : token.kind = .keyword .ifWord) :
    Finds (statement inLoop scope scopes (token :: rest)) read after ↔
    ∃ test middle body between next later,
      Finds (condition (isDeclared scopes scope) rest) test middle ∧
      Finds (statement inLoop scope scopes middle) (body, between) (next :: later) ∧
      (next.kind = .keyword .elseWord ∧ (∃ otherwise final,
          Finds (statement inLoop scope between later) (otherwise, final) after ∧
          read = (.ifThenElse test body otherwise, final)) ∨
        next.kind ≠ .keyword .elseWord ∧ after = next :: later ∧
          read = (.ifThen test body, between)) := by
  rw [statement]
  simp only [kind, finds_bind]
  constructor
  · rintro ⟨test, middle, tested, ⟨body, between⟩, afterBody, bodyFound, last⟩
    cases afterBody with
    | nil => exact (finds_error last).elim
    | cons next later =>
        refine ⟨test, middle, body, between, next, later, tested, bodyFound, ?_⟩
        dsimp only at last
        split at last
        · next other =>
            simp only [finds_bind, finds_pure] at last
            obtain ⟨⟨otherwise, final⟩, _, found, rfl, rfl⟩ := last
            exact .inl ⟨other, otherwise, final, found, rfl⟩
        · next other =>
            obtain ⟨rfl, rfl⟩ := finds_pure.mp last
            exact .inr ⟨other, rfl, rfl⟩
  · rintro ⟨test, middle, body, between, next, later, tested, bodyFound, last⟩
    refine ⟨test, middle, tested, (body, between), next :: later, bodyFound, ?_⟩
    dsimp only
    rcases last with ⟨other, otherwise, final, found, rfl⟩ | ⟨other, rfl, rfl⟩
    · rw [if_pos other]
      exact finds_bind.mpr ⟨(otherwise, final), after, found, finds_pure.mpr ⟨rfl, rfl⟩⟩
    · rw [if_neg other]
      exact finds_pure.mpr ⟨rfl, rfl⟩

theorem finds_statement_while (kind : token.kind = .keyword .whileWord) :
    Finds (statement inLoop scope scopes (token :: rest)) read after ↔
    ∃ test middle body final, Finds (condition (isDeclared scopes scope) rest) test middle ∧
      Finds (statement true scope scopes middle) (body, final) after ∧
      read = (.whileDo test body, final) := by
  rw [statement]
  simp only [kind, finds_bind, finds_pure]
  constructor
  · rintro ⟨test, middle, tested, ⟨body, final⟩, _, found, rfl, rfl⟩
    exact ⟨test, middle, body, final, tested, found, rfl⟩
  · rintro ⟨test, middle, body, final, tested, found, rfl⟩
    exact ⟨test, middle, tested, (body, final), _, found, rfl, rfl⟩

theorem finds_statement_do (kind : token.kind = .keyword .doWord) :
    Finds (statement inLoop scope scopes (token :: rest)) read after ↔
    ∃ body final again middle test semicolon,
      Finds (statement true scope scopes rest) (body, final) (again :: middle) ∧
      again.kind = .keyword .whileWord ∧
      Finds (condition (isDeclared final scope) middle) test (semicolon :: after) ∧
      semicolon.kind = .mark .semicolon ∧ read = (.doWhile body test, final) := by
  rw [statement]
  simp only [kind, finds_bind, finds_pure, finds_expect, exists_prop]
  constructor
  · rintro ⟨⟨body, final⟩, _, found, again, middle, ⟨rfl, isWhile⟩, test, _, tested, semicolon, _,
      ⟨rfl, ends⟩, rfl, rfl⟩
    exact ⟨body, final, again, middle, test, semicolon, found, isWhile, tested, ends, rfl⟩
  · rintro ⟨body, final, again, middle, test, semicolon, found, isWhile, tested, ends, rfl⟩
    exact ⟨(body, final), _, found, again, middle, ⟨rfl, isWhile⟩, test, _, tested, semicolon, _,
      ⟨rfl, ends⟩, rfl, rfl⟩

theorem finds_statement_break (kind : token.kind = .keyword .breakWord) :
    Finds (statement inLoop scope scopes (token :: rest)) read after ↔
    inLoop = true ∧ ∃ semicolon, rest = semicolon :: after ∧
      semicolon.kind = .mark .semicolon ∧ read = (.breakLoop, scopes) := by
  rw [statement]
  simp only [kind]
  by_cases inside : inLoop = true
  · rw [if_pos inside]
    simp only [finds_bind, finds_pure, finds_expect, exists_prop]
    constructor
    · rintro ⟨semicolon, _, ⟨rfl, ends⟩, rfl, rfl⟩
      exact ⟨inside, semicolon, rfl, ends, rfl⟩
    · rintro ⟨-, semicolon, rfl, ends, rfl⟩
      exact ⟨semicolon, _, ⟨rfl, ends⟩, rfl, rfl⟩
  · simp [inside]

theorem finds_statement_block (kind : token.kind = .mark .openBrace) :
    Finds (statement inLoop scope scopes (token :: rest)) read after ↔
    ∃ inner final, Finds (block inLoop (some scope) scopes rest) (inner, final) after ∧
      read = (inner.stmt, final) := by
  rw [statement]
  simp only [kind, finds_bind, finds_pure]
  constructor
  · rintro ⟨⟨inner, final⟩, _, found, rfl, rfl⟩
    exact ⟨inner, final, found, rfl⟩
  · rintro ⟨inner, final, found, rfl⟩
    exact ⟨(inner, final), _, found, rfl, rfl⟩

theorem finds_statements_nil {body : List Stmt × Scopes} :
    ¬ Finds (statements inLoop scope scopes []) body after := by
  rw [statements]
  exact finds_error

theorem finds_statements_stop {body : List Stmt × Scopes}
    (closing : token.kind = .mark .closeBrace) :
    Finds (statements inLoop scope scopes (token :: rest)) body after ↔
    body = ([], scopes) ∧ after = rest := by
  rw [statements, if_pos closing]
  exact finds_taken

theorem finds_statements_step {body : List Stmt × Scopes}
    (more : token.kind ≠ .mark .closeBrace) :
    Finds (statements inLoop scope scopes (token :: rest)) body after ↔
    ∃ first between middle others final,
      Finds (statement inLoop scope scopes (token :: rest)) (first, between) middle ∧
      Finds (statements inLoop scope between middle) (others, final) after ∧
      body = (first :: others, final) := by
  rw [statements, if_neg more]
  simp only [finds_bind, finds_pure]
  constructor
  · rintro ⟨⟨first, between⟩, middle, found, ⟨others, final⟩, _, rest, rfl, rfl⟩
    exact ⟨first, between, middle, others, final, found, rest, rfl⟩
  · rintro ⟨first, between, middle, others, final, found, rest, rfl⟩
    exact ⟨(first, between), middle, found, (others, final), _, rest, rfl, rfl⟩

theorem finds_block {parent : Option Nat} {inner : Block × Scopes} :
    Finds (block inLoop parent scopes tokens) inner after ↔
    ∃ made within middle body final,
      Finds (declarations (scopes.push parent) scopes.count tokens) (made, within) middle ∧
      Finds (statements inLoop scopes.count within middle) (body, final) after ∧
      inner = (⟨scopes.count, made, body⟩, final) := by
  rw [block]
  simp only [finds_bind, finds_pure]
  constructor
  · rintro ⟨⟨made, within⟩, middle, found, ⟨body, final⟩, _, rest, rfl, rfl⟩
    exact ⟨made, within, middle, body, final, found, rest, rfl⟩
  · rintro ⟨made, within, middle, body, final, found, rest, rfl⟩
    exact ⟨(made, within), middle, found, (body, final), _, rest, rfl, rfl⟩

/-- A program is a block, its braces included, and the end of the text after it. -/
theorem program_eq_ok {whole : Program} : program tokens = .ok whole ↔
    ∃ opening middle ending others, tokens = opening :: middle ∧
      opening.kind = .mark .openBrace ∧
      Finds (block false none {} middle) (whole.block, whole.scopes) (ending :: others) ∧
      ending.kind = .eof := by
  constructor
  · intro read
    rw [program] at read
    cases opened : expect (.mark .openBrace) tokens with
    | error failure => simp [opened, bind, Except.bind] at read
    | ok start =>
        cases inside : block false none {} start.rest with
        | error failure => simp [opened, inside, bind, Except.bind] at read
        | ok phrase =>
            obtain ⟨⟨found, scopes⟩, left, within⟩ := phrase
            obtain ⟨same, opens⟩ := finds_expect.mp ⟨start.within, opened⟩
            cases left with
            | nil => simp [opened, inside, bind, Except.bind] at read
            | cons ending others =>
                simp only [opened, inside, bind, Except.bind] at read
                split at read
                · next ends =>
                    cases read
                    exact ⟨_, _, ending, others, same, opens, ⟨within, inside⟩, ends⟩
                · contradiction
  · rintro ⟨opening, middle, ending, others, rfl, opens, ⟨within, inside⟩, ends⟩
    obtain ⟨shorter, opened⟩ := finds_expect.mpr ⟨rfl, opens⟩
    rw [program, opened]
    simp only [bind, Except.bind]
    rw [inside]
    simp only [ends, if_true]
    rfl

end

end Grammar

end ThreeAddress

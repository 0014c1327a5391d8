import ThreeAddress.Proofs.Grammar.Demand

namespace ThreeAddress

/-!
# Reading on demand comes to an end

Each routine reads like the reader of its phrase, if it is given three units of fuel for
each token that is left, and up to two more where others are called at the same token. The
readers are known to leave fewer tokens, so this is enough for the loops as well.
-/

namespace Descent

open Grammar Reader

variable {α β : Type} {reading : Lexer.Reading} {session : Session} {unread rest : List Token}
  {token : Token} {rank : Nat} {scopes : Scopes}

theorem sizesLoop_follows (rank fuel : Nat) (unread : List Token)
    (enough : unread.length ≤ fuel) : Follows reading rank (keeping scopes) (sizesLoop fuel)
      (ofBounded dims) scopes unread := by
  match fuel, unread with
  | _, [] => exact .nil
  | 0, token :: rest => cases enough
  | fuel + 1, token :: rest =>
      rw [sizesLoop, dims_reader]
      refine .place fun start count => ?_
      refine .consume (by simp) (by simp [sizePart]) (fun _ _ whole _ => ?_) (.pure rfl)
      obtain ⟨rfl, rfl⟩ := List.cons.inj whole
      refine .peek fun size after whole => ?_
      subst whole
      cases number : size.kind with
      | int value =>
          refine .advance (by simp [number]) (by simp) ?_
          refine .expect (by simp) (by simp) fun closing rest whole _ => ?_
          subst whole
          simp only [List.length_cons] at count enough
          refine .passed count (by omega) ?_
          exact .map (sizesLoop_follows 0 fuel rest (by omega)) fun _ => rfl
      | _ => exact .fail

theorem sizes_follows (fuel : Nat) (unread : List Token) (enough : unread.length ≤ fuel) :
    Follows reading Routine.sizes.rank (keeping scopes) (sizes fuel) (ofBounded dims) scopes
      unread :=
  .within (sizesLoop_follows _ fuel unread enough)

theorem newName_follows {scope : Nat} :
    Follows reading rank (keeping scopes) (newName scope) (ofBounded (Grammar.newName scopes scope))
      scopes unread := by
  rw [newName_reader, newName]
  refine .peek fun token rest _ => .currentScopes ?_
  cases kind : token.kind with
  | ident name =>
      dsimp only
      split
      · exact .fail
      · rw [← bind_pure identifier]
        exact .identifier kind (by simp) (.pure rfl)
  | _ =>
      rw [identifier]
      refine .look ?_
      rw [kind]
      exact .fail

theorem trailingSizes_follows {name : String} {leading : List Nat} (fuel : Nat)
    (enough : unread.length ≤ fuel) (le : rank ≤ Routine.sizes.rank) :
    Follows reading rank (keeping scopes) (trailingSizes name leading fuel)
      (ofBounded (trailingDims name leading)) scopes unread := by
  rw [trailingDims_reader, trailingSizes]
  split
  · exact (sizes_follows fuel unread enough).mono le
  · refine .peek fun token rest _ => ?_
    split
    · exact .fail
    · exact .pure rfl

/-- A declaration is made as soon as it is known to fit. -/
theorem declaration_follows {scope fuel : Nat} {basic : BasicType}
    (kind : token.kind = .basic basic) (enough : rest.length ≤ fuel) :
    Follows reading Routine.declaration.rank
      (fun made => (made, scopes.declare scope made)) (declaration scope basic fuel)
      (take (ofBounded (Grammar.declaration scopes scope basic))) scopes (token :: rest) := by
  refine .within (.advance (by simp [kind]) (by simp) ?_)
  rw [declaration_reader]
  refine .bind (sizes_follows fuel rest enough).anywhere (by simp) fun leading middle first => ?_
  refine .bind newName_follows (by simp) fun id afterName second => ?_
  have shorter : afterName.length ≤ fuel := by
    have within : middle.length < rest.length + 1 := within_of_plain first
    have next : afterName.length < middle.length := within_of_plain second
    omega
  -- Not every reader of what follows is pending: where an array is too large, it is refused.
  refine .bind (trailingSizes_follows fuel shorter (Nat.zero_le _))
    (fun sizes read => (trailingDims_leaves_token (finds_iff_plain.mpr read) rfl).elim)
    fun sizes after third => ?_
  dsimp only [keeping]
  split
  · exact .declare (.expect_last (by simp) rfl)
  · exact .fail

theorem declarations_follows {scope : Nat} (scopes : Scopes) (fuel : Nat) (unread : List Token)
    (enough : unread.length ≤ fuel) :
    Follows reading Routine.declaration.rank id (declarations scope fuel)
      (ofBounded (Grammar.declarations scopes scope)) scopes unread := by
  match fuel, unread with
  | _, [] => exact .nil
  | 0, token :: rest => cases enough
  | fuel + 1, token :: rest =>
      rw [declarations, declarations_reader]
      refine .place fun start count => .peek fun _ _ whole => ?_
      obtain ⟨rfl, rfl⟩ := List.cons.inj whole
      simp only [List.length_cons] at count enough
      cases kind : token.kind with
      | basic basic =>
          dsimp only
          rw [take_andThen]
          refine .bind (declaration_follows kind (by omega)) (by simp) fun first after read => ?_
          have shorter : after.length < rest.length := within_of_plain read
          refine .passed count (by omega) ?_
          exact .map (declarations_follows _ fuel after (by omega)) fun _ => rfl
      | _ => exact .pure rfl

@[simp]
theorem pending_climb {declared : String → Bool} {least : Nat} {left : Expr} :
    Pending (ofBounded (climb declared least left)) [] := by
  rw [climb_reader]
  exact pending_peek

@[simp]
theorem pending_tighten {declared : String → Bool} {bound : Nat} {right : Expr} :
    Pending (ofBounded (tighten declared bound right)) [] := by
  rw [tighten_reader]
  exact pending_peek

/-- A climb that starts at an operator takes it, as it is not too weak for itself. -/
theorem climb_from {declared : String → Bool} {op : BinaryOp} {right : Expr}
    (sign : BinaryOp.ofKind? token.kind = some op) :
    ofBounded (climb declared op.precedence right) (token :: rest) =
      take (ofBounded (climbBehind declared op.precedence right op token.line))
        (token :: rest) := by
  rw [climb_reader, peek, sign]
  dsimp only
  rw [if_neg (Nat.lt_irrefl _)]

mutual

theorem expression_follows (scope fuel : Nat) (unread : List Token)
    (enough : 3 * unread.length + 2 ≤ fuel) :
    Follows reading Routine.expression.rank (keeping scopes) (expression scope fuel)
      (ofBounded (Grammar.expression (isDeclared scopes scope))) scopes unread := by
  match fuel with
  | 0 => cases enough
  | fuel + 1 =>
      rw [expression, expression_climbs]
      have operand := factor_follows scope fuel unread (by omega)
      refine .within (.bind operand (by simp) fun first after read => ?_)
      have shorter : after.length < unread.length := within_of_plain read
      exact (binary_follows scope 0 first fuel after (by omega)).mono (by decide)
termination_by fuel

theorem binary_follows (scope least : Nat) (left : Expr) (fuel : Nat) (unread : List Token)
    (enough : 3 * unread.length + 1 ≤ fuel) :
    Follows reading Routine.binary.rank (keeping scopes) (binary scope least left fuel)
      (ofBounded (climb (isDeclared scopes scope) least left)) scopes unread := by
  match fuel with
  | 0 => cases enough
  | fuel + 1 =>
      rw [binary]
      exact .within (operators_follows _ scope least left fuel unread (by omega))
termination_by fuel

theorem operators_follows (rank scope least : Nat) (left : Expr) (fuel : Nat)
    (unread : List Token) (enough : 3 * unread.length ≤ fuel) :
    Follows reading rank (keeping scopes) (operators scope least left fuel)
      (ofBounded (climb (isDeclared scopes scope) least left)) scopes unread := by
  match fuel, unread with
  | _, [] => exact .nil
  | 0, token :: rest => cases enough
  | fuel + 1, token :: rest =>
      rw [operators, climb_reader]
      refine .place fun start count => .peek fun _ _ whole => ?_
      obtain ⟨rfl, rfl⟩ := List.cons.inj whole
      simp only [List.length_cons] at count enough
      cases sign : BinaryOp.ofKind? token.kind with
      | none => exact .pure rfl
      | some op =>
          dsimp only
          split
          · exact .pure rfl
          · rw [climbBehind_reader]
            refine .advance (inside_of_operator sign) (by simp) ?_
            have operand := (factor_follows scope fuel rest (by omega)).anywhere
            refine .bind operand (by simp) fun operand middle operandRead => ?_
            have first : middle.length < rest.length := within_of_plain operandRead
            have claims := tighterOperators_follows scope op.precedence operand fuel middle
              (by omega)
            refine .bind claims (by simp) fun right later rightRead => ?_
            have second : later.length < middle.length + 1 := within_of_plain rightRead
            refine .passed count (by omega) ?_
            exact operators_follows 0 scope least _ fuel later (by omega)
termination_by fuel

theorem tighterOperators_follows (scope bound : Nat) (right : Expr) (fuel : Nat)
    (unread : List Token) (enough : 3 * unread.length + 2 ≤ fuel) :
    Follows reading 0 (keeping scopes) (tighterOperators scope bound right fuel)
      (ofBounded (tighten (isDeclared scopes scope) bound right)) scopes unread := by
  match fuel, unread with
  | _, [] => exact .nil
  | 0, token :: rest => cases enough
  | fuel + 1, token :: rest =>
      rw [tighterOperators, tighten_reader]
      refine .place fun start count => .peek fun _ _ whole => ?_
      obtain ⟨rfl, rfl⟩ := List.cons.inj whole
      simp only [List.length_cons] at count enough
      cases sign : BinaryOp.ofKind? token.kind with
      | none => exact .pure rfl
      | some op =>
          dsimp only
          split
          · exact .pure rfl
          · -- The climb is bound to take the operator that has been seen.
            rw [take_andThen]
            have climbs := (binary_follows scope op.precedence right fuel (token :: rest)
              (by simp only [List.length_cons]; omega)).anywhere.congr (climb_from sign).symm
            refine .bind climbs (by simp) fun whole after read => ?_
            have shorter : after.length < rest.length := within_of_plain read
            refine .passed count (by omega) ?_
            exact tighterOperators_follows scope bound whole fuel after (by omega)
termination_by fuel

theorem factor_follows (scope fuel : Nat) (unread : List Token)
    (enough : 3 * unread.length + 1 ≤ fuel) :
    Follows reading Routine.factor.rank (keeping scopes) (factor scope fuel)
      (ofBounded (Grammar.factor (isDeclared scopes scope))) scopes unread := by
  match fuel, unread with
  | _, [] => exact .nil
  | 0, token :: rest => cases enough
  | fuel + 1, token :: rest =>
      rw [factor, factor_reader]
      refine .within (.peek fun _ _ whole => ?_)
      obtain ⟨rfl, rfl⟩ := List.cons.inj whole
      simp only [List.length_cons] at enough
      cases kind : token.kind with
      | mark mark =>
          cases mark with
          | minus =>
              refine .advance (kind ▸ nofun) (by simp) ?_
              exact .map (factor_follows scope fuel rest (by omega)).anywhere fun _ => rfl
          | bang =>
              refine .advance (kind ▸ nofun) (by simp) ?_
              exact .map (factor_follows scope fuel rest (by omega)).anywhere fun _ => rfl
          | openParen =>
              refine .advance (kind ▸ nofun) (by simp) ?_
              have value := (expression_follows scope fuel rest (by omega)).anywhere
              refine .bind value (by simp) fun inner after read => ?_
              exact .expect_last nofun rfl
          | _ => exact .fail
      | int value => exact .advance (kind ▸ nofun) (by simp) (.pure rfl)
      | real value => exact .advance (kind ▸ nofun) (by simp) (.pure rfl)
      | keyword word =>
          cases word with
          | trueWord => exact .advance (kind ▸ nofun) (by simp) (.pure rfl)
          | falseWord => exact .advance (kind ▸ nofun) (by simp) (.pure rfl)
          | _ => exact .fail
      | ident name => exact (location_follows scope kind fuel rest (by omega)).mono (by decide)
      | _ => exact .fail
termination_by fuel

theorem location_follows {token : Token} {name : String} (scope : Nat)
    (kind : token.kind = .ident name) (fuel : Nat) (rest : List Token)
    (enough : 3 * (rest.length + 1) ≤ fuel) :
    Follows reading Routine.location.rank (keeping scopes) (location scope fuel)
      (Grammar.place (isDeclared scopes scope) name token.line) scopes (token :: rest) := by
  match fuel with
  | 0 => cases enough
  | fuel + 1 =>
      rw [location, Grammar.place, isDeclared]
      refine .within (.look (.currentScopes ?_))
      rw [kind]
      dsimp only
      split
      · refine .identifier kind (by simp) ?_
        exact .map (indices_follows scope fuel rest (by omega)) fun _ => rfl
      · exact .fail
termination_by fuel

theorem indices_follows (scope fuel : Nat) (unread : List Token)
    (enough : 3 * unread.length ≤ fuel) :
    Follows reading 0 (keeping scopes) (indicesLoop scope fuel)
      (ofBounded (subscripts (isDeclared scopes scope))) scopes unread := by
  match fuel, unread with
  | _, [] => exact .nil
  | 0, token :: rest => cases enough
  | fuel + 1, token :: rest =>
      rw [indicesLoop, subscripts_reader]
      refine .place fun start count => ?_
      refine .consume nofun (pending_andThen (by simp) (by simp)) (fun _ _ whole _ => ?_)
        (.pure rfl)
      obtain ⟨rfl, rfl⟩ := List.cons.inj whole
      simp only [List.length_cons] at count enough
      have index := (expression_follows scope fuel rest (by omega)).anywhere
      refine .bind index (by simp) fun index middle read => ?_
      have shorter : middle.length < rest.length := within_of_plain read
      refine .expect nofun (by simp) fun closing after whole _ => ?_
      subst whole
      simp only [List.length_cons] at shorter
      refine .passed count (by omega) ?_
      exact .map (indices_follows scope fuel after (by omega)) fun _ => rfl
termination_by fuel

end

theorem condition_follows {scope fuel : Nat} (enough : 3 * unread.length ≤ fuel) :
    Follows reading rank (keeping scopes) (condition scope fuel)
      (ofBounded (Grammar.condition (isDeclared scopes scope))) scopes unread := by
  rw [condition, condition_reader]
  refine .expect (by simp) (by simp) fun opening rest whole _ => ?_
  subst whole
  simp only [List.length_cons] at enough
  refine .bind (expression_follows scope fuel rest (by omega)).anywhere (by simp)
    fun value after read => ?_
  exact .expect_last (by simp) rfl

theorem assignment_follows {name : String} {scope fuel : Nat} (kind : token.kind = .ident name)
    (enough : 3 * (rest.length + 1) ≤ fuel) :
    Follows reading Routine.assignment.rank (keeping scopes) (assignment scope fuel)
      (assigns (isDeclared scopes scope) name token.line) scopes (token :: rest) := by
  rw [assignment, assigns]
  refine .within (.look (.bind (.mono (by decide) (location_follows scope kind fuel rest enough))
    (fun _ _ => pending_andThen (by simp) (by simp)) fun target middle read => ?_))
  have shorter : middle.length ≤ rest.length + 1 := (place_looksOneAhead _ kind rest).rest_le read
  refine .expect (by simp) (by simp) fun sign after whole _ => ?_
  subst whole
  simp only [List.length_cons] at shorter
  refine .bind (expression_follows scope fuel after (by omega)).anywhere (by simp)
    fun value last read => ?_
  exact .expect_last (by simp) rfl

theorem breakLoop_follows {inLoop : Bool} (kind : token.kind = .keyword .breakWord) :
    Follows reading Routine.breakLoop.rank id (breakLoop inLoop)
      (if inLoop then take <| (ofBounded (Grammar.expect (.mark .semicolon))).map fun _ =>
        (.breakLoop, scopes) else refuse .strayBreak) scopes (token :: rest) := by
  refine .within ?_
  split
  · exact .expect_here kind (by simp) (by simp) (.expect_last (by simp) rfl)
  · exact .fail

mutual

theorem block_follows (inLoop : Bool) (parent : Option Nat) (scopes : Scopes) (fuel : Nat)
    (unread : List Token) (enough : 3 * unread.length ≤ fuel) :
    Follows reading Routine.block.rank id (block inLoop parent fuel)
      ((ofBounded (Grammar.expect (.mark .openBrace))).andThen fun _ =>
        ofBounded (Grammar.block inLoop parent scopes)) scopes unread := by
  match fuel, unread with
  | _, [] => exact .nil
  | 0, token :: rest => cases enough
  | fuel + 1, token :: rest =>
      rw [block, block_reader]
      refine .within (.expect nofun (by simp) fun _ _ whole _ => .pushScope ?_)
      obtain ⟨rfl, rfl⟩ := List.cons.inj whole
      simp only [List.length_cons] at enough
      refine .bind (declarations_follows _ fuel rest (by omega)).anywhere (by simp)
        fun made after read => ?_
      have within : after.length < rest.length + 1 := within_of_plain read
      exact .map (statements_follows inLoop scopes.count made.2 fuel after (by omega))
        fun _ => rfl
termination_by fuel

theorem statements_follows (inLoop : Bool) (scope : Nat) (scopes : Scopes) (fuel : Nat)
    (unread : List Token) (enough : 3 * unread.length + 2 ≤ fuel) :
    Follows reading 0 id (statements inLoop scope fuel)
      (ofBounded (Grammar.statements inLoop scope scopes)) scopes unread := by
  match fuel, unread with
  | _, [] => exact .nil
  | 0, token :: rest => cases enough
  | fuel + 1, token :: rest =>
      rw [statements, statements_reader]
      refine .place fun start count => .peek fun _ _ whole => ?_
      obtain ⟨rfl, rfl⟩ := List.cons.inj whole
      split
      · next closes => exact .expect_here closes nofun (by simp) (.pure rfl)
      · have begins := (statement_follows inLoop scope scopes fuel (token :: rest)
          (by omega)).anywhere
        refine .bind begins (by simp) fun first after read => ?_
        have shorter : after.length < (token :: rest).length := within_of_plain read
        refine .passed count shorter ?_
        exact .map (statements_follows inLoop scope first.2 fuel after (by omega)) fun _ => rfl
termination_by fuel

theorem statement_follows (inLoop : Bool) (scope : Nat) (scopes : Scopes) (fuel : Nat)
    (unread : List Token) (enough : 3 * unread.length + 1 ≤ fuel) :
    Follows reading Routine.statement.rank id (statement inLoop scope fuel)
      (ofBounded (Grammar.statement inLoop scope scopes)) scopes unread := by
  match fuel, unread with
  | _, [] => exact .nil
  | 0, token :: rest => cases enough
  | fuel + 1, token :: rest =>
      rw [statement, statement_reader]
      refine .within (.peek fun _ _ whole => ?_)
      obtain ⟨rfl, rfl⟩ := List.cons.inj whole
      have enough : 3 * (rest.length + 1) ≤ fuel := by
        simp only [List.length_cons] at enough
        omega
      cases kind : token.kind with
      | ident name =>
          exact .mono (by decide) (.convert (assignment_follows kind enough) fun _ => rfl)
      | keyword word =>
          cases word with
          | ifWord => exact ifThen_follows inLoop scope scopes kind fuel rest enough
          | whileWord => exact whileDo_follows scope scopes kind fuel rest enough
          | doWord => exact doWhile_follows scope scopes kind fuel rest enough
          | breakWord => exact breakLoop_follows kind
          | _ => exact .fail
      | mark mark =>
          cases mark with
          | openBrace =>
              have inner := (block_follows inLoop (some scope) scopes fuel (token :: rest)
                enough).congr (expect_here_reader kind).symm
              exact .map inner fun _ => rfl
          | _ => exact .fail
      | _ => exact .fail
termination_by fuel

theorem ifThen_follows {token : Token} (inLoop : Bool) (scope : Nat) (scopes : Scopes)
    (kind : token.kind = .keyword .ifWord) (fuel : Nat) (rest : List Token)
    (enough : 3 * (rest.length + 1) ≤ fuel) :
    Follows reading Routine.ifThen.rank id (ifThen inLoop scope fuel)
      (take <| (ofBounded (Grammar.condition (isDeclared scopes scope))).andThen fun test =>
        (ofBounded (Grammar.statement inLoop scope scopes)).andThen fun body =>
          elsePart inLoop scope test body) scopes (token :: rest) := by
  match fuel with
  | 0 => cases enough
  | fuel + 1 =>
      rw [ifThen]
      refine .within (.expect_here kind nofun (by simp) ?_)
      refine .bind (condition_follows (by omega)) (by simp) fun test afterTest tested => ?_
      have first : afterTest.length < rest.length := within_of_plain tested
      have body := (statement_follows inLoop scope scopes fuel afterTest (by omega)).anywhere
      refine .bind body (by simp) fun body afterBody read => ?_
      have second : afterBody.length < afterTest.length := within_of_plain read
      refine .consume nofun (by simp) (fun word after whole _ => ?_) (.pure rfl)
      subst whole
      simp only [List.length_cons] at second
      have otherwise := (statement_follows inLoop scope body.2 fuel after (by omega)).anywhere
      exact .map otherwise fun _ => rfl
termination_by fuel

theorem whileDo_follows {token : Token} (scope : Nat) (scopes : Scopes)
    (kind : token.kind = .keyword .whileWord) (fuel : Nat) (rest : List Token)
    (enough : 3 * (rest.length + 1) ≤ fuel) :
    Follows reading Routine.whileDo.rank id (whileDo scope fuel)
      (take <| (ofBounded (Grammar.condition (isDeclared scopes scope))).andThen fun test =>
        (ofBounded (Grammar.statement true scope scopes)).map fun body =>
          (.whileDo test body.1, body.2)) scopes (token :: rest) := by
  match fuel with
  | 0 => cases enough
  | fuel + 1 =>
      rw [whileDo]
      refine .within (.expect_here kind nofun (by simp) ?_)
      refine .bind (condition_follows (by omega)) (by simp) fun test afterTest tested => ?_
      have first : afterTest.length < rest.length := within_of_plain tested
      have body := (statement_follows true scope scopes fuel afterTest (by omega)).anywhere
      exact .map body fun _ => rfl
termination_by fuel

theorem doWhile_follows {token : Token} (scope : Nat) (scopes : Scopes)
    (kind : token.kind = .keyword .doWord) (fuel : Nat) (rest : List Token)
    (enough : 3 * (rest.length + 1) ≤ fuel) :
    Follows reading Routine.doWhile.rank id (doWhile scope fuel)
      (take <| (ofBounded (Grammar.statement true scope scopes)).andThen fun body =>
        whilePart scope body) scopes (token :: rest) := by
  match fuel with
  | 0 => cases enough
  | fuel + 1 =>
      rw [doWhile]
      refine .within (.expect_here kind nofun (by simp) ?_)
      have body := (statement_follows true scope scopes fuel rest (by omega)).anywhere
      refine .bind body (by simp) fun body afterBody read => ?_
      have first : afterBody.length < rest.length := within_of_plain read
      rw [whilePart]
      refine .expect nofun (by simp) fun word afterWord whole _ => ?_
      subst whole
      simp only [List.length_cons] at first
      refine .bind (condition_follows (by omega)) (by simp) fun test after tested => ?_
      exact .expect_last nofun rfl
termination_by fuel

end

theorem program_follows (fuel : Nat) (enough : 3 * unread.length ≤ fuel) :
    Follows reading Routine.program.rank (fun whole : Program => (whole, whole.scopes))
      (program fuel) wholeProgram {} unread := by
  rw [program, wholeProgram, ← andThen_assoc]
  refine .within (.bind (.mono (by decide) (block_follows false none {} fuel unread enough))
    (by simp) fun whole after read => .peek fun token rest _ => ?_)
  split
  · exact .currentScopes (.pure rfl)
  · exact .fail

/-- The end of the text stays unread. -/
theorem wholeProgram_leaves_token {whole : Program}
    (read : wholeProgram unread = .ok (whole, rest)) : rest ≠ [] := by
  obtain ⟨_, afterOpen, -, inner⟩ := andThen_eq_ok.mp read
  obtain ⟨_, middle, -, ends⟩ := andThen_eq_ok.mp inner
  cases middle with
  | nil => cases ends
  | cons token later =>
      rw [peek] at ends
      split at ends
      · cases ends
        exact List.cons_ne_nil _ _
      · cases ends

/-- The first call of the lexer has returned the lookahead. -/
theorem Session.At.first {lexer after : Lexer} (read : lexer.next = (.ok token, after)) :
    Session.At lexer.run lexer.run.tokens
      { lexer := after, look := token, trace := { results := [.ok token] } } := by
  obtain ⟨first, onward⟩ := Lexer.run_of_token read
  rw [List.head?_eq_getElem?] at first
  rw [← List.drop_one] at onward
  exact ⟨rfl, first, onward, rfl, .nil, nofun⟩

/-- What has been read on demand is the program or the error of the parser. -/
theorem Agrees.parsed {before : Session} {outcome : Except Halt Program × Session}
    (agrees : Agrees reading before (fun whole : Program => (whole, whole.scopes))
      (wholeProgram reading.tokens) outcome) :
    outcome.1 = ((Grammar.program reading.tokens).mapError reading.error).mapError .refused ∧
      outcome.2.trace.Sound reading := by
  rw [program_reader]
  match read : wholeProgram reading.tokens with
  | .ok (whole, []) => exact (wholeProgram_leaves_token read rfl).elim
  | .ok (whole, token :: rest) =>
      rw [read] at agrees
      exact ⟨GoesOn.value agrees, (GoesOn.stands agrees).sound⟩
  | .error .brokenOff =>
      rw [read] at agrees
      obtain ⟨error, failed, stopped, sound⟩ := agrees
      refine ⟨?_, sound⟩
      rw [stopped]
      simp only [Except.map, Except.mapError, Lexer.Reading.error, failed]
  | .error (.unexpected fault unread) =>
      rw [read] at agrees
      exact agrees

/-- Reading comes to an end on every text, with the program or the error of the parser. The lexer
is called no more often than it has results, up to its first fault or the end of the text, which
is not consumed. Each pass through a loop consumes a token, and so does each routine before it is
called again. -/
theorem parse_reads_once (filename source : String) (spare : Nat) :
    ∃ trace, parse (3 * source.length + 3 + spare) filename source =
        ((Program.parse filename source).mapError .refused, trace) ∧
      trace.Sound (Lexer.ofText filename source).run := by
  have short : (Lexer.ofText filename source).run.tokens.length ≤ source.length + 1 := by
    rw [Lexer.Reading.tokens, List.length_map, ← String.length_toList]
    exact (Lexer.ofText filename source).steps_length_le
  rw [parse, Program.parse]
  generalize Lexer.ofText filename source = lexer at short
  rcases read : lexer.next with ⟨error | token, after⟩
  · rw [Lexer.run_of_error read]
    exact ⟨_, rfl, List.prefix_rfl, List.nil_prefix, .nil, List.forall_mem_nil _⟩
  · have stands := Session.At.first read
    have agrees := program_follows (3 * source.length + 3 + spare) (by omega) _ stands rfl
      (List.forall_mem_nil _)
    exact ⟨_, Prod.ext agrees.parsed.1 rfl, agrees.parsed.2⟩

example :
    let trace := (parse 45 "signs" "\x7bint a;a=--1;\x7d").2
    trace.results.length = 12 ∧ trace.consumed.length = 11 := by
  cbv

end Descent

end ThreeAddress

import ThreeAddress.Proofs.Grammar.Climbing
import ThreeAddress.Proofs.Grammar.Earliest

namespace ThreeAddress.Grammar

/-!
# A semicolon in front of the token at fault

Where a semicolon is missing, the readers have stopped before the token at fault because
nothing there goes on with it. Nothing goes on with a semicolon either, so they stop
before one as well, and the reader that misses it takes it.
-/

/-- A semicolon that stands in the place of the first unread token is left unread as well, and it is
read where it has been missed. -/
structure TakesSemicolon {α : Type} (semicolon : Token) (run : Reader α) (tokens : List Token) :
    Prop extends LooksOneAhead run tokens where
  stops : ∀ {used token later value}, tokens = used ++ token :: later →
    run tokens = .ok (value, token :: later) → run (used ++ [semicolon]) = .ok (value, [semicolon])
  missed : ∀ {used token later}, tokens = used ++ token :: later →
    run tokens = .error (.unexpected .missingSemicolon (token :: later)) →
    Pending run (used ++ [semicolon])

/-- The reader takes the first token, or has another fault to find with it. -/
structure TakesFirst {α : Type} (semicolon : Token) (run : Reader α) (tokens : List Token) :
    Prop extends TakesSemicolon semicolon run tokens where
  shorter : ∀ {value rest}, run tokens = .ok (value, rest) → rest.length < tokens.length
  otherFault : run tokens ≠ .error (.unexpected .missingSemicolon tokens)

variable {α β : Type} {tokens rest used later : List Token} {token semicolon : Token}

open Reader

namespace TakesSemicolon

theorem pass {value : α} : TakesSemicolon semicolon (pass value) tokens where
  toLooksOneAhead := .pass
  stops := by
    intro used token later found whole read
    cases read
    obtain rfl : used = [] := List.self_eq_append_left.mp whole
    rfl
  missed := nofun

theorem peek_nil {next : Token → Reader α} : TakesSemicolon semicolon (peek next) [] where
  toLooksOneAhead := .peek_nil
  stops := by simp
  missed := by simp

/-- A reader that leaves the token it has seen leaves a semicolon. -/
theorem peek_leaves {next : Token → Reader α} {value : α}
    (here : next token = Reader.pass value) (there : next semicolon = Reader.pass value) :
    TakesSemicolon semicolon (peek next) (token :: rest) where
  toLooksOneAhead := .peek_cons (here ▸ .pass)
  stops := by
    intro used other later found whole read
    rw [Reader.peek, here] at read
    cases read
    obtain rfl : used = [] := List.self_eq_append_left.mp whole
    rw [List.nil_append, Reader.peek, there]
    rfl
  missed := by
    intro used other later whole read
    rw [Reader.peek, here] at read
    cases read

/-- A reader that takes the token it has seen meets the semicolon behind it, if at all. -/
theorem peek_takes {next : Token → Reader α}
    (takes : TakesFirst semicolon (next token) (token :: rest)) :
    TakesSemicolon semicolon (peek next) (token :: rest) where
  toLooksOneAhead := .peek_cons takes.toLooksOneAhead
  stops := by
    intro used other later value whole read
    cases used with
    | nil =>
        cases whole
        exact (Nat.lt_irrefl _ (takes.shorter read)).elim
    | cons here used =>
        have same := takes.stops whole read
        cases whole
        exact same
  missed := by
    intro used other later whole read
    cases used with
    | nil =>
        cases whole
        exact (takes.otherFault read).elim
    | cons here used =>
        have same := takes.missed whole read
        cases whole
        exact same

/-- What has been read before the first unread token is read before the semicolon. -/
theorem again {run : Reader α} {value : α} {more : List Token}
    (takes : TakesSemicolon semicolon run tokens)
    (whole : tokens = used ++ (more ++ token :: later))
    (read : run tokens = .ok (value, more ++ token :: later)) :
    run (used ++ (more ++ [semicolon])) = .ok (value, more ++ [semicolon]) := by
  cases more with
  | nil => exact takes.stops whole read
  | cons first more =>
      obtain ⟨front, same, -, goesOn⟩ := takes.found read
      obtain rfl : used = front := List.append_cancel_right (whole.symm.trans same)
      exact goesOn _ .cons

theorem andThen {first : Reader α} {next : α → Reader β}
    (takes : TakesSemicolon semicolon first tokens)
    (ends : ∀ value tokens, first tokens = .ok (value, []) → Pending (next value) [])
    (onward : ∀ value rest, first tokens = .ok (value, rest) →
      TakesSemicolon semicolon (next value) rest) :
    TakesSemicolon semicolon (first.andThen next) tokens := by
  have looks : LooksOneAhead (first.andThen next) tokens :=
    .andThen takes.toLooksOneAhead fun value rest read => (onward value rest read).toLooksOneAhead
  match begun : first tokens with
  | .error failure =>
      have stopped : first.andThen next tokens = .error failure := by rw [Reader.andThen, begun]
      refine ⟨looks, fun _ read => ?_, fun whole read => ?_⟩
      · rw [stopped] at read
        cases read
      · rw [stopped] at read
        cases read
        exact (takes.missed whole begun).andThen fun value => ends value _
  | .ok (value, rest) =>
      have goesOn := onward value rest begun
      have continued : first.andThen next tokens = next value rest := by rw [Reader.andThen, begun]
      obtain ⟨front, split, -⟩ := takes.found begun
      -- Whatever is unread at the end has not been read by the first reader.
      have resumes {used more later : List Token} {token : Token}
          (whole : tokens = used ++ token :: later) (unread : rest = more ++ token :: later) :
          used = front ++ more ∧
            first.andThen next (used ++ [semicolon]) = next value (more ++ [semicolon]) := by
        obtain rfl : used = front ++ more := by
          rw [split, unread, ← List.append_assoc] at whole
          exact (List.append_cancel_right whole).symm
        refine ⟨rfl, ?_⟩
        rw [List.append_assoc, Reader.andThen, takes.again (unread ▸ split) (unread ▸ begun)]
      refine ⟨looks, fun whole read => ?_, fun whole read => ?_⟩
      · rw [continued] at read
        obtain ⟨more, unread, -⟩ := goesOn.found read
        rw [(resumes whole unread).2]
        exact goesOn.stops unread read
      · rw [continued] at read
        obtain ⟨more, _, _, same, unread, -⟩ := goesOn.refused read
        cases same
        rw [Pending, (resumes whole unread).2]
        exact goesOn.missed unread read

theorem map {first : Reader α} {function : α → β}
    (takes : TakesSemicolon semicolon first tokens) :
    TakesSemicolon semicolon (first.map function) tokens :=
  takes.andThen (by simp) fun _ _ _ => pass

end TakesSemicolon

namespace TakesFirst

theorem peek_nil {next : Token → Reader α} : TakesFirst semicolon (peek next) [] where
  toTakesSemicolon := .peek_nil
  shorter := nofun
  otherFault := nofun

theorem peek_cons {next : Token → Reader α}
    (takes : TakesFirst semicolon (next token) (token :: rest)) :
    TakesFirst semicolon (peek next) (token :: rest) where
  toTakesSemicolon := .peek_takes takes
  shorter := takes.shorter
  otherFault := takes.otherFault

theorem refuse {fault : SyntaxFault} (more : tokens ≠ []) (other : fault ≠ .missingSemicolon) :
    TakesFirst semicolon (refuse fault : Reader α) tokens where
  toLooksOneAhead := .refuse more
  stops := nofun
  missed := by
    intro used token later whole read
    cases read
    contradiction
  shorter := nofun
  otherFault := by
    intro missing
    cases missing
    contradiction

theorem take {next : Reader α} (inside : token.kind ≠ .eof)
    (takes : TakesSemicolon semicolon next rest) :
    TakesFirst semicolon (take next) (token :: rest) where
  toLooksOneAhead := .take inside takes.toLooksOneAhead
  stops := by
    intro used other later value whole read
    cases used with
    | nil =>
        cases whole
        exact (Nat.not_succ_le_self _ (takes.rest_le read)).elim
    | cons here used =>
        cases whole
        exact takes.stops rfl read
  missed := by
    intro used other later whole read
    cases used with
    | nil =>
        cases whole
        exact (Nat.not_succ_le_self _ (takes.unread_le read)).elim
    | cons here used =>
        cases whole
        exact takes.missed rfl read
  shorter := fun read => Nat.lt_succ_of_le (takes.rest_le read)
  otherFault := fun missing => Nat.not_succ_le_self _ (takes.unread_le missing)

theorem andThen {first : Reader α} {next : α → Reader β} (takes : TakesFirst semicolon first tokens)
    (ends : ∀ value tokens, first tokens = .ok (value, []) → Pending (next value) [])
    (onward : ∀ value rest, first tokens = .ok (value, rest) →
      TakesSemicolon semicolon (next value) rest) :
    TakesFirst semicolon (first.andThen next) tokens := by
  have whole := takes.toTakesSemicolon.andThen ends onward
  match begun : first tokens with
  | .error failure =>
      have stopped : first.andThen next tokens = .error failure := by rw [Reader.andThen, begun]
      refine ⟨whole, fun read => ?_, fun read => ?_⟩
      · rw [stopped] at read
        cases read
      · rw [stopped] at read
        cases read
        exact takes.otherFault begun
  | .ok (value, rest) =>
      have shorter := takes.shorter begun
      have goesOn := onward value rest begun
      have continued : first.andThen next tokens = next value rest := by rw [Reader.andThen, begun]
      refine ⟨whole, fun read => ?_, fun read => ?_⟩
      · rw [continued] at read
        exact Nat.lt_of_le_of_lt (goesOn.rest_le read) shorter
      · rw [continued] at read
        exact Nat.not_lt_of_le (goesOn.unread_le read) shorter

theorem map {first : Reader α} {function : α → β} (takes : TakesFirst semicolon first tokens) :
    TakesFirst semicolon (first.map function) tokens :=
  takes.andThen (by simp) fun _ _ _ => .pass

end TakesFirst

/-- Only where a semicolon is expected is one missing. -/
theorem expect_takesSemicolon (isSemicolon : semicolon.kind = .mark .semicolon) {wanted : Kind}
    (inside : wanted ≠ .eof) :
    TakesSemicolon semicolon (ofBounded (expect wanted)) tokens := by
  rw [expect_reader]
  cases tokens with
  | nil => exact .peek_nil
  | cons token rest =>
      by_cases same : token.kind = wanted
      · refine .peek_takes ?_
        rw [if_pos same]
        exact .take (same ▸ inside) .pass
      · by_cases missing : wanted = .mark .semicolon
        · refine ⟨.peek_cons ?_, ?_, ?_⟩
          · rw [if_neg same]
            exact .refuse (List.cons_ne_nil _ _)
          · intro used other later value whole read
            rw [Reader.peek, if_neg same] at read
            cases read
          · intro used other later whole read
            rw [Reader.peek, if_neg same] at read
            injection read with unexpected
            injection unexpected with _ unread
            obtain rfl : used = [] := List.self_eq_append_left.mp (unread ▸ whole)
            rw [Pending, List.nil_append, Reader.peek, if_pos (by rw [isSemicolon, missing])]
            exact .inr ⟨semicolon, rfl⟩
        · refine .peek_takes ?_
          rw [if_neg same]
          refine .refuse (List.cons_ne_nil _ _) fun fault => ?_
          rw [SyntaxFault.mismatch, if_neg missing] at fault
          split at fault <;> cases fault

mutual

theorem expression_takesSemicolon (isSemicolon : semicolon.kind = .mark .semicolon)
    (declared : String → Bool) (tokens : List Token) :
    TakesSemicolon semicolon (ofBounded (expression declared)) tokens := by
  rw [expression_reader]
  refine .andThen (factor_takesSemicolon isSemicolon declared tokens) (by simp)
    fun first rest read => ?_
  have shorter : rest.length < tokens.length := within_of_plain read
  exact operations_takesSemicolon isSemicolon declared first rest
termination_by 4 * tokens.length + 1
decreasing_by all_goals omega

theorem operations_takesSemicolon (isSemicolon : semicolon.kind = .mark .semicolon)
    (declared : String → Bool) (left : Expr) (tokens : List Token) :
    TakesSemicolon semicolon (ofBounded (operations declared left)) tokens := by
  rw [operations_reader]
  match tokens with
  | [] => exact .peek_nil
  | token :: rest =>
      cases sign : BinaryOp.ofKind? token.kind with
      | none => exact .peek_leaves (by rw [sign]) (by rw [isSemicolon]; rfl)
      | some op =>
          refine .peek_takes ?_
          rw [sign]
          refine .take (inside_of_operator sign) ?_
          refine .andThen (factor_takesSemicolon isSemicolon declared rest) (by simp)
            fun right after read => ?_
          have shorter : after.length < rest.length := within_of_plain read
          exact operations_takesSemicolon isSemicolon declared _ after
termination_by 4 * tokens.length
decreasing_by all_goals (simp only [List.length_cons] at *; omega)

theorem factor_takesSemicolon (isSemicolon : semicolon.kind = .mark .semicolon)
    (declared : String → Bool) (tokens : List Token) :
    TakesSemicolon semicolon (ofBounded (factor declared)) tokens := by
  rw [factor_reader]
  match tokens with
  | [] => exact .peek_nil
  | token :: rest =>
      have inside {kind : Kind} (same : token.kind = kind) (other : kind ≠ .eof) :
          token.kind ≠ .eof := same ▸ other
      refine .peek_takes ?_
      split
      · next kind =>
          exact .take (inside kind nofun) (.map (factor_takesSemicolon isSemicolon declared rest))
      · next kind =>
          exact .take (inside kind nofun) (.map (factor_takesSemicolon isSemicolon declared rest))
      · next kind =>
          exact .take (inside kind nofun) <|
            .andThen (expression_takesSemicolon isSemicolon declared rest) (by simp)
              fun _ _ _ => .map (expect_takesSemicolon isSemicolon nofun)
      · next kind => exact .take (inside kind nofun) .pass
      · next kind => exact .take (inside kind nofun) .pass
      · next kind => exact .take (inside kind nofun) .pass
      · next kind => exact .take (inside kind nofun) .pass
      · next kind => exact place_takesFirst isSemicolon declared kind rest
      · exact .refuse nofun nofun
termination_by 4 * tokens.length
decreasing_by all_goals (simp only [List.length_cons] at *; omega)

theorem place_takesFirst (isSemicolon : semicolon.kind = .mark .semicolon)
    (declared : String → Bool) {name : String} {token : Token}
    (kind : token.kind = .ident name) (rest : List Token) :
    TakesFirst semicolon (place declared name token.line) (token :: rest) := by
  rw [place]
  split
  · exact .take (kind ▸ nofun) (.map (subscripts_takesSemicolon isSemicolon declared rest))
  · exact .refuse nofun nofun
termination_by 4 * rest.length + 3
decreasing_by all_goals omega

theorem subscripts_takesSemicolon (isSemicolon : semicolon.kind = .mark .semicolon)
    (declared : String → Bool) (tokens : List Token) :
    TakesSemicolon semicolon (ofBounded (subscripts declared)) tokens := by
  rw [subscripts_reader]
  match tokens with
  | [] => exact .peek_nil
  | token :: rest =>
      by_cases opening : token.kind = .mark .openBracket
      · refine .peek_takes ?_
        rw [if_pos opening]
        refine .take (opening ▸ nofun) ?_
        refine .andThen (expression_takesSemicolon isSemicolon declared rest) (by simp)
          fun index afterIndex read => ?_
        refine .andThen (expect_takesSemicolon isSemicolon nofun) (by simp)
          fun closing after closed => ?_
        have first : afterIndex.length < rest.length := within_of_plain read
        have second : after.length < afterIndex.length := within_of_plain closed
        exact .map (subscripts_takesSemicolon isSemicolon declared after)
      · exact .peek_leaves (if_neg opening) (if_neg (by simp [isSemicolon]))
termination_by 4 * tokens.length + 2
decreasing_by all_goals (simp only [List.length_cons] at *; omega)

end

theorem dims_takesSemicolon (isSemicolon : semicolon.kind = .mark .semicolon)
    (tokens : List Token) : TakesSemicolon semicolon (ofBounded dims) tokens := by
  rw [dims_reader]
  cases tokens with
  | nil => exact .peek_nil
  | cons token rest =>
      by_cases opening : token.kind = .mark .openBracket
      · refine .peek_takes ?_
        rw [if_pos opening]
        refine .take (by simp [opening]) ?_
        cases rest with
        | nil => exact .peek_nil
        | cons size rest =>
            refine .peek_takes ?_
            split
            · next value number =>
                refine .take (by simp [number]) ?_
                refine .andThen (expect_takesSemicolon isSemicolon (by simp)) (by simp)
                  fun closing after closed => ?_
                have shorter : after.length < rest.length := within_of_plain closed
                exact .map (dims_takesSemicolon isSemicolon after)
            · exact .refuse (List.cons_ne_nil _ _) (by simp)
      · exact .peek_leaves (if_neg opening) (if_neg (by simp [isSemicolon]))
termination_by tokens.length
decreasing_by all_goals (simp only [List.length_cons] at *; omega)

section

variable {scopes : Scopes} {scope : Nat}

theorem newName_takesSemicolon :
    TakesSemicolon semicolon (ofBounded (newName scopes scope)) tokens := by
  rw [newName_reader]
  cases tokens with
  | nil => exact .peek_nil
  | cons token rest =>
      refine .peek_takes ?_
      split
      · next name kind =>
          split
          · exact .refuse (List.cons_ne_nil _ _) (by simp)
          · exact .take (by simp [kind]) .pass
      · next found _ =>
          refine .refuse (List.cons_ne_nil _ _) fun fault => ?_
          rw [SyntaxFault.mismatchedName] at fault
          split at fault <;> cases fault

theorem trailingDims_takesSemicolon (isSemicolon : semicolon.kind = .mark .semicolon)
    {name : String} {leading : List Nat} :
    TakesSemicolon semicolon (ofBounded (trailingDims name leading)) tokens := by
  rw [trailingDims_reader]
  split
  · exact dims_takesSemicolon isSemicolon tokens
  · cases tokens with
    | nil => exact .peek_nil
    | cons token rest =>
        by_cases opening : token.kind = .mark .openBracket
        · refine .peek_takes ?_
          rw [if_pos opening]
          exact .refuse (List.cons_ne_nil _ _) (by simp)
        · exact .peek_leaves (if_neg opening) (if_neg (by simp [isSemicolon]))

theorem namedPart_takesSemicolon (isSemicolon : semicolon.kind = .mark .semicolon)
    {basic : BasicType} {leading : List Nat} {id : Ident} :
    TakesSemicolon semicolon (namedPart basic leading id) tokens := by
  have more {sizes : List Nat} {tokens rest : List Token}
      (read : ofBounded (trailingDims id.name leading) tokens = .ok (sizes, rest)) : rest ≠ [] :=
    trailingDims_leaves_token (finds_iff_plain.mpr read)
  refine .andThen (trailingDims_takesSemicolon isSemicolon)
    (fun _ _ read => (more read rfl).elim) fun sizes rest read => ?_
  split
  · exact .map (expect_takesSemicolon isSemicolon (by simp))
  · exact TakesFirst.toTakesSemicolon (.refuse (more read) (by simp))

theorem declaration_takesSemicolon (isSemicolon : semicolon.kind = .mark .semicolon)
    {basic : BasicType} :
    TakesSemicolon semicolon (ofBounded (declaration scopes scope basic)) tokens := by
  rw [declaration_reader]
  exact .andThen (dims_takesSemicolon isSemicolon tokens) (by simp) fun _ _ _ =>
    .andThen newName_takesSemicolon (by simp) fun _ _ _ => namedPart_takesSemicolon isSemicolon

end

theorem declarations_takesSemicolon (isSemicolon : semicolon.kind = .mark .semicolon)
    (scopes : Scopes) (scope : Nat) (tokens : List Token) :
    TakesSemicolon semicolon (ofBounded (declarations scopes scope)) tokens := by
  rw [declarations_reader]
  match tokens with
  | [] => exact .peek_nil
  | token :: rest =>
      by_cases basics : ∃ basic, token.kind = .basic basic
      · obtain ⟨basic, kind⟩ := basics
        refine .peek_takes ?_
        rw [kind]
        refine .take (by simp [kind]) ?_
        refine .andThen (declaration_takesSemicolon isSemicolon) (by simp)
          fun first after read => ?_
        have shorter : after.length < rest.length := within_of_plain read
        exact .map (declarations_takesSemicolon isSemicolon _ scope after)
      · have none : ∀ basic, token.kind ≠ .basic basic := not_exists.mp basics
        refine .peek_leaves ?_ (by rw [isSemicolon])
        split
        · next basic kind => exact (none basic kind).elim
        · rfl
termination_by tokens.length
decreasing_by all_goals (simp only [List.length_cons] at *; omega)

theorem condition_takesSemicolon (isSemicolon : semicolon.kind = .mark .semicolon)
    {declared : String → Bool} :
    TakesSemicolon semicolon (ofBounded (condition declared)) tokens := by
  rw [condition_reader]
  exact .andThen (expect_takesSemicolon isSemicolon (by simp)) (by simp) fun _ _ _ =>
    .andThen (expression_takesSemicolon isSemicolon declared _) (by simp) fun _ _ _ =>
      .map (expect_takesSemicolon isSemicolon (by simp))

theorem assigns_takesFirst (isSemicolon : semicolon.kind = .mark .semicolon)
    {declared : String → Bool} {name : String} {token : Token} (kind : token.kind = .ident name) :
    TakesFirst semicolon (assigns declared name token.line) (token :: rest) := by
  rw [assigns]
  exact .andThen (place_takesFirst isSemicolon declared kind rest)
    (fun _ _ _ => pending_andThen (by simp) (by simp)) fun _ _ _ =>
      .andThen (expect_takesSemicolon isSemicolon (by simp)) (by simp) fun _ _ _ =>
        .andThen (expression_takesSemicolon isSemicolon declared _) (by simp) fun _ _ _ =>
          .map (expect_takesSemicolon isSemicolon (by simp))

theorem whilePart_takesSemicolon (isSemicolon : semicolon.kind = .mark .semicolon) {scope : Nat}
    {body : Stmt × Scopes} : TakesSemicolon semicolon (whilePart scope body) tokens :=
  .andThen (expect_takesSemicolon isSemicolon (by simp)) (by simp) fun _ _ _ =>
    .andThen (condition_takesSemicolon isSemicolon) (by simp) fun _ _ _ =>
      .map (expect_takesSemicolon isSemicolon (by simp))

mutual

theorem statement_takesFirst (isSemicolon : semicolon.kind = .mark .semicolon) (inLoop : Bool)
    (scope : Nat) (scopes : Scopes) (tokens : List Token) :
    TakesFirst semicolon (ofBounded (statement inLoop scope scopes)) tokens := by
  rw [statement_reader]
  match tokens with
  | [] => exact .peek_nil
  | token :: rest =>
      have inside {kind : Kind} (same : token.kind = kind) (other : kind ≠ .eof) :
          token.kind ≠ .eof := same ▸ other
      refine .peek_cons ?_
      split
      · next kind => exact .map (assigns_takesFirst isSemicolon kind)
      · next kind =>
          refine .take (inside kind nofun) ?_
          refine .andThen (condition_takesSemicolon isSemicolon) (by simp)
            fun test afterTest tested => ?_
          have first : afterTest.length < rest.length := within_of_plain tested
          refine .andThen (statement_takesFirst isSemicolon inLoop scope scopes
            afterTest).toTakesSemicolon (by simp) fun body afterBody read => ?_
          have second : afterBody.length < afterTest.length := within_of_plain read
          exact elsePart_takesSemicolon isSemicolon inLoop scope test body afterBody
      · next kind =>
          refine .take (inside kind nofun) ?_
          refine .andThen (condition_takesSemicolon isSemicolon) (by simp)
            fun test afterTest tested => ?_
          have first : afterTest.length < rest.length := within_of_plain tested
          exact .map (statement_takesFirst isSemicolon true scope scopes
            afterTest).toTakesSemicolon
      · next kind =>
          refine .take (inside kind nofun) ?_
          exact .andThen (statement_takesFirst isSemicolon true scope scopes rest).toTakesSemicolon
            (by simp) fun _ _ _ => whilePart_takesSemicolon isSemicolon
      · next kind =>
          split
          · exact .take (inside kind nofun) (.map (expect_takesSemicolon isSemicolon nofun))
          · exact .refuse nofun nofun
      · next kind =>
          exact .take (inside kind nofun)
            (.map (block_takesSemicolon isSemicolon inLoop (some scope) scopes rest))
      · exact .refuse nofun nofun
      · exact .refuse nofun nofun
termination_by 3 * tokens.length
decreasing_by all_goals (simp only [List.length_cons] at *; omega)

theorem elsePart_takesSemicolon (isSemicolon : semicolon.kind = .mark .semicolon) (inLoop : Bool)
    (scope : Nat) (test : Expr) (body : Stmt × Scopes) (tokens : List Token) :
    TakesSemicolon semicolon (elsePart inLoop scope test body) tokens := by
  rw [elsePart]
  match tokens with
  | [] => exact .peek_nil
  | token :: rest =>
      by_cases other : token.kind = .keyword .elseWord
      · refine .peek_takes ?_
        rw [if_pos other]
        exact .take (other ▸ nofun) (.map (statement_takesFirst isSemicolon inLoop scope body.2
          rest).toTakesSemicolon)
      · exact .peek_leaves (if_neg other) (if_neg (by simp [isSemicolon]))
termination_by 3 * tokens.length
decreasing_by all_goals (simp only [List.length_cons] at *; omega)

theorem statements_takesSemicolon (isSemicolon : semicolon.kind = .mark .semicolon)
    (inLoop : Bool) (scope : Nat) (scopes : Scopes) (tokens : List Token) :
    TakesSemicolon semicolon (ofBounded (statements inLoop scope scopes)) tokens := by
  rw [statements_reader]
  match tokens with
  | [] => exact .peek_nil
  | token :: rest =>
      refine .peek_takes ?_
      split
      · next kind => exact .take (kind ▸ nofun) .pass
      · refine .andThen (statement_takesFirst isSemicolon inLoop scope scopes (token :: rest))
          (by simp) fun first after read => ?_
        have shorter : after.length < (token :: rest).length := within_of_plain read
        exact .map (statements_takesSemicolon isSemicolon inLoop scope first.2 after)
termination_by 3 * tokens.length + 1
decreasing_by all_goals (simp only [List.length_cons] at *; omega)

theorem block_takesSemicolon (isSemicolon : semicolon.kind = .mark .semicolon) (inLoop : Bool)
    (parent : Option Nat) (scopes : Scopes) (tokens : List Token) :
    TakesSemicolon semicolon (ofBounded (block inLoop parent scopes)) tokens := by
  rw [block_reader]
  refine .andThen (declarations_takesSemicolon isSemicolon _ _ tokens) (by simp)
    fun made after read => ?_
  have within : after.length < tokens.length + 1 := within_of_plain read
  exact .map (statements_takesSemicolon isSemicolon inLoop scopes.count made.2 after)
termination_by 3 * tokens.length + 2
decreasing_by omega

end

/-- Where a program misses a semicolon, it goes on with one. -/
theorem program_takes_semicolon (isSemicolon : semicolon.kind = .mark .semicolon)
    (refused : program (used ++ token :: later) =
      .error (.unexpected .missingSemicolon (token :: later))) :
    program (used ++ [semicolon]) = .error .brokenOff := by
  rw [program_eq_error, wholeProgram, ← Reader.andThen_assoc] at refused ⊢
  have takes : TakesSemicolon semicolon
      ((ofBounded (expect (.mark .openBrace))).andThen fun _ => ofBounded (block false none {}))
      (used ++ token :: later) :=
    .andThen (expect_takesSemicolon isSemicolon (by simp)) (by simp) fun _ rest _ =>
      block_takesSemicolon isSemicolon false none {} rest
  generalize (ofBounded (expect (.mark .openBrace))).andThen _ = braces at takes refused ⊢
  cases read : braces (used ++ token :: later) with
  | ok found =>
      -- Behind the closing brace no semicolon is wanted.
      obtain ⟨whole, after⟩ := found
      rw [Reader.andThen, read] at refused
      cases after with
      | nil => cases refused
      | cons last rest =>
          dsimp only [Reader.peek] at refused
          split at refused
          · cases refused
          · injection refused with unexpected
            injection unexpected with mismatched
            rw [SyntaxFault.mismatch] at mismatched
            split at mismatched <;> simp at mismatched
  | error failure =>
      rw [Reader.andThen, read] at refused
      cases refused
      rcases takes.missed rfl read with broken | ⟨whole, ends⟩
      · rw [Reader.andThen, broken]
      · rw [Reader.andThen, ends]
        rfl

/-- Where these tokens begin a program, the fault of one that goes on with them is behind them. -/
theorem program_refuses_behind {moved unread : List Token} {fault : SyntaxFault}
    (begins : program used = .error .brokenOff)
    (refused : program (used ++ moved) = .error (.unexpected fault unread)) :
    ∃ passed first others, unread = first :: others ∧ moved = passed ++ first :: others := by
  rw [program_eq_error] at begins refused
  obtain ⟨front, first, others, rfl, whole, again⟩ := wholeProgram_looksOneAhead.refused refused
  rcases List.append_eq_append_iff.mp whole with ⟨passed, rfl, moved⟩ | ⟨back, split, atFault⟩
  · exact ⟨passed, first, others, rfl, moved⟩
  · cases back with
    | nil => exact ⟨[], first, others, rfl, atFault.symm⟩
    | cons here back =>
        obtain ⟨rfl, -⟩ := List.cons.inj atFault
        rw [split, again] at begins
        cases begins

end ThreeAddress.Grammar

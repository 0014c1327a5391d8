import ThreeAddress.Proofs.Grammar.Language
import ThreeAddress.Proofs.Grammar.Unfinished

namespace ThreeAddress

namespace Grammar

variable {tokens used : List Token} {token : Token} {later : List Token} {fault : SyntaxFault}

theorem program_eq_error {failure : Failure} :
    program tokens = .error failure ↔ wholeProgram tokens = .error failure := by
  rw [program_reader]
  cases wholeProgram tokens <;> simp [Except.map]

/-- A token at fault is so whatever follows it. -/
theorem program_refuses {unread : List Token}
    (refused : program tokens = .error (.unexpected fault unread)) :
    ∃ used token later, unread = token :: later ∧ tokens = used ++ token :: later ∧
      ∀ others whole, program (used ++ token :: others) ≠ .ok whole := by
  obtain ⟨used, token, later, atFault, whole, again⟩ :=
    wholeProgram_looksOneAhead.refused (program_eq_error.mp refused)
  refine ⟨used, token, later, atFault, whole, fun others program accepted => ?_⟩
  rw [program_eq_error.mpr (again others)] at accepted
  cases accepted

/-- Some kinds, all with a spelling, complete the tokens before the one at fault. -/
theorem program_completes
    (refused : program (used ++ token :: later) = .error (.unexpected fault (token :: later)))
    (completable : Completable used) :
    ∃ kinds, (∀ kind ∈ kinds, kind.Spelled) ∧ ∀ more, more.map Token.kind = kinds ++ [.eof] →
      ∃ whole, program (used ++ more) = .ok whole := by
  have broken := LooksOneAhead.broken_of_refused (fun _ => wholeProgram_looksOneAhead)
    (program_eq_error.mp refused)
  obtain ⟨kinds, spelled, enough⟩ := wholeProgram_completes completable broken
  refine ⟨kinds, spelled, fun more same => ?_⟩
  obtain ⟨front, last, rfl, frontKinds, lastKind⟩ := List.map_eq_append_iff.mp same
  obtain ⟨ending, rfl, isEnd⟩ := List.map_eq_singleton_iff.mp lastKind
  obtain ⟨whole, -, read⟩ := enough front [ending] frontKinds (ahead_cons.mpr isEnd)
  have accepted : wholeProgram (used ++ (front ++ [ending])) = .ok (whole, [ending]) := read
  exact ⟨whole, by rw [program_reader, accepted, Except.map]⟩

end Grammar

/-- A text without lexical faults that is no program is refused at the first token with which no
program begins. The tokens before it have a text that goes on to a program, unless they end in a
declaration that is too large already. -/
theorem refused_at_earliest_token {filename source : String} {error : CompileError}
    (clean : (Lexer.ofText filename source).run.failure = none)
    (refused : Program.parse filename source = .error error) :
    ∃ read token later fault,
      (Lexer.ofText filename source).run.tokens = read ++ token :: later ∧
      Grammar.program (read ++ token :: later) = .error (.unexpected fault (token :: later)) ∧
      error = .syntactic fault
        ((Lexer.ofText filename source).run.excerpt fault (token :: later)) ∧
      (Grammar.UnfinishedFits read → ∃ text more whole,
        (Lexer.ofText filename text).run.failure = none ∧
        (Lexer.ofText filename text).run.tokens = read ++ more ∧
        Program.parse filename text = .ok whole) ∧
      ∀ others whole, Grammar.program (read ++ token :: others) ≠ .ok whole := by
  rw [Program.parse] at refused
  cases found : Grammar.program (Lexer.ofText filename source).run.tokens with
  | ok whole =>
      rw [found] at refused
      cases refused
  | error failure =>
      cases failure with
      | brokenOff =>
          -- The end of the text is a token, so there always is a next one.
          obtain ⟨earlier, ending, whole, isEnd, -⟩ := Lexer.ended_of_clean _ clean
          have inside :=
            Grammar.wholeProgram_looksOneAhead.broken (Grammar.program_eq_error.mp found)
          exact (inside ending (by rw [whole]; simp) isEnd).elim
      | unexpected fault unread =>
          rw [found] at refused
          cases refused
          obtain ⟨read, token, later, rfl, tokens, none⟩ := Grammar.program_refuses found
          rw [tokens] at found
          refine ⟨read, token, later, fault, tokens, found, rfl, fun fits => ?_, none⟩
          have completable : Grammar.Completable read := {
            fits
            inRange := fun token member value literal =>
              Lexer.run_literals _ (tokens ▸ List.mem_append_left _ member) literal }
          obtain ⟨kinds, spelled, enough⟩ := Grammar.program_completes found completable
          obtain ⟨text, more, textClean, textTokens, moreKinds⟩ := Lexer.exists_text tokens spelled
          obtain ⟨whole, accepted⟩ := enough more moreKinds
          exact ⟨text, more, whole, textClean, textTokens,
            Program.parse_eq_ok_iff.mpr (textTokens ▸ accepted)⟩

/-- A size without its closing bracket. -/
def openSize : String :=
  "\x7bint a[2;"

/-- The tokens before the semicolon. -/
def openSizeRead : List Token :=
  [⟨.mark .openBrace, ⟨1, 0, 1⟩⟩, ⟨.basic .int, ⟨1, 1, 3⟩⟩, ⟨.ident "a", ⟨1, 5, 1⟩⟩,
    ⟨.mark .openBracket, ⟨1, 6, 1⟩⟩, ⟨.int 2, ⟨1, 7, 1⟩⟩]

/-- The semicolon and the end of the text. -/
def openSizeUnread : List Token :=
  [⟨.mark .semicolon, ⟨1, 8, 1⟩⟩, ⟨.eof, ⟨1, 9, 0⟩⟩]

theorem openSize_fits : Grammar.UnfinishedFits openSizeRead := by
  intro earlier later type whole begins
  have starts : ∃ head behind, later = head :: behind ∧ ∃ basic, head.kind = .basic basic := by
    cases begins <;> exact ⟨_, _, rfl, _, by assumption⟩
  obtain ⟨head, behind, rfl, basic, kind⟩ := starts
  match earlier with
  | [] =>
      cases whole
      cases kind
  | [_] =>
      cases whole
      cases begins with
      | leading _ derived opens =>
          cases derived with
          | none => cases opens
          | more opening => cases opening
      | named _ derived =>
          cases derived with
          | more opening => cases opening
      | trailing isBasic _ derived =>
          cases isBasic
          cases derived with
          | none => decide
  | _ :: _ :: more =>
      have member : head ∈ openSizeRead.drop 2 := by
        rw [whole]
        simp
      simp only [openSizeRead, List.drop_succ_cons, List.drop_zero, List.mem_cons,
        List.not_mem_nil, or_false] at member
      rcases member with rfl | rfl | rfl <;> cases kind

set_option maxRecDepth 2048 in
theorem openSize_refused :
    (Lexer.ofText "size" openSize).run.failure = none ∧
    (∃ excerpt, Program.parse "size" openSize =
      .error (.syntactic (.expected (.mark .closeBracket) (.mark .semicolon)) excerpt)) ∧
    (∃ text more whole, (Lexer.ofText "size" text).run.failure = none ∧
      (Lexer.ofText "size" text).run.tokens = openSizeRead ++ more ∧
      Program.parse "size" text = .ok whole) ∧
    ∀ others whole,
      Grammar.program (openSizeRead ++ ⟨.mark .semicolon, ⟨1, 8, 1⟩⟩ :: others) ≠ .ok whole := by
  have clean : (Lexer.ofText "size" openSize).run.failure = none := by cbv
  have tokens : (Lexer.ofText "size" openSize).run.tokens = openSizeRead ++ openSizeUnread := by cbv
  have atSemicolon : Grammar.program (openSizeRead ++ openSizeUnread) = .error (.unexpected
      (.expected (.mark .closeBracket) (.mark .semicolon)) openSizeUnread) := by cbv
  have refused : ∃ excerpt, Program.parse "size" openSize =
      .error (.syntactic (.expected (.mark .closeBracket) (.mark .semicolon)) excerpt) := by
    rw [Program.parse, tokens, atSemicolon]
    exact ⟨_, rfl⟩
  obtain ⟨excerpt, error⟩ := refused
  obtain ⟨read, token, later, fault, whole, found, -, goesOn, none⟩ :=
    refused_at_earliest_token clean error
  rw [← whole, tokens, atSemicolon] at found
  cases found
  obtain rfl : openSizeRead = read := List.append_cancel_right (tokens.symm.trans whole)
  exact ⟨clean, ⟨excerpt, error⟩, goesOn openSize_fits, none⟩

end ThreeAddress

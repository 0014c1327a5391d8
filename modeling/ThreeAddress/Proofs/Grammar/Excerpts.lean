import ThreeAddress.Proofs.Grammar.Earliest
import ThreeAddress.Proofs.Lexing.Misfits
import ThreeAddress.Proofs.Lexing.Shown

namespace ThreeAddress

open Text Source

/-- The token was read from the characters of the text that its span says. -/
inductive Token.StandsIn (text : List Char) (token : Token) : Prop
  | lexeme {before spelling behind} : text = before ++ spelling ++ behind →
      IsLexeme spelling token.kind → Longest spelling behind →
      token.span = spanAfter before spelling.length → StandsIn text token
  | ending : token.kind = .eof → token.span = spanAfter text 0 → StandsIn text token

theorem Token.StandsIn.line_pos {text : List Char} {token : Token} (inText : token.StandsIn text) :
    1 ≤ token.line := by
  cases inText with
  | lexeme _ _ _ span =>
      rw [line, span]
      exact Nat.le_add_left 1 _
  | ending _ span =>
      rw [line, span]
      exact Nat.le_add_left 1 _

theorem Source.Tracker.advance_last (tracker : Tracker) (old new : Option Char) :
    (tracker.advance old new).last = tracker.last := by
  have met (tracker : Tracker) : (tracker.meet new).last = tracker.last := by
    rw [meet.eq_def]
    split
    · rfl
    · split <;> rfl
  rw [advance, met, leave.eq_def]
  split
  · rfl
  · split <;> rfl

namespace Lexer

variable {lexer after : Lexer} {text before : List Char} {token : Token} {error : LexicalError}

theorem skip_last (lexer : Lexer) (count : Nat) :
    (lexer.skip count).tracker.last = lexer.tracker.last := by
  induction count generalizing lexer with
  | zero => rfl
  | succ count ih =>
      rw [skip, ih]
      cases text : lexer.rest with
      | nil => rw [bump, text]
      | cons c rest => rw [bump_cons text, Tracker.advance_last]

/-- A token has been read from the text, and the lexer stands behind it. The token before it had
this span, on no later line. -/
structure HasRead (text before : List Char) (prior : Span) (token : Token) (lexer : Lexer) :
    Prop where
  stands : lexer.Stands text before
  line : token.line = lineAfter before
  inText : token.StandsIn text
  last : lexer.tracker.last = token.span
  previous : lexer.tracker.previous = prior
  ordered : prior.line ≤ lineAfter before

theorem Stands.next_token (stands : lexer.Stands text before)
    (ordered : lexer.tracker.last.line ≤ lineAfter before)
    (read : lexer.next = (.ok token, after)) :
    ∃ passed, after.HasRead text (before ++ passed) lexer.tracker.last token := by
  have spans : after.tracker.last = token.span ∧ after.tracker.previous = lexer.tracker.last := by
    obtain ⟨lexeme, scanned, -⟩ := scan_of_next read
    rw [next_of_scan scanned] at read
    cases read
    exact ⟨rfl, (skip_last _ _).trans (skip_last _ _)⟩
  obtain ⟨passed, onward⟩ := stands.next
  rw [read] at onward
  have whole : lexer.rest = passed ++ after.rest := by
    have same := stands.whole.symm.trans onward.whole
    rwa [List.append_assoc, List.append_cancel_left_eq] at same
  have later := ordered.trans (lineAfter_le before passed)
  rcases next_reads stands.behind read with ⟨allBlank, ending⟩ | ⟨-, piece, rfl, front, fits, -⟩
  · have nothing : after.rest = [] := by
      have left := (answer_at_end allBlank).2
      rwa [read] at left
    rw [nothing, List.append_nil] at whole
    rw [whole] at ending
    refine ⟨passed, onward, ?_, .ending ?_ ?_, spans.1, spans.2, later⟩
    · rw [ending]
      rfl
    · rw [ending]
    · rw [ending, stands.whole, whole]
  · obtain rfl : passed = piece.text := List.append_cancel_right (whole.symm.trans front)
    refine ⟨piece.text, onward, ?_, .lexeme ?_ fits.lexeme fits.longest fits.span, spans.1,
      spans.2, later⟩
    · rw [Token.line, fits.span, Piece.text, ← List.append_assoc,
        lineAfter_append fits.lexeme.form.on_line]
      rfl
    · rw [onward.whole, Piece.text, ← List.append_assoc]

/-- Each token of a run is read behind the one before it. -/
theorem run_hasRead (lexer : Lexer) : ∀ before, lexer.Stands text before →
    lexer.tracker.last.line ≤ lineAfter before →
    ∀ front step later, lexer.run.steps = front ++ step :: later → ∃ passed,
      step.after.HasRead text (before ++ passed)
        ((front.map (·.token.span)).getLastD lexer.tracker.last) step.token := by
  fun_induction Lexer.run lexer with
  | case1 lexer error after read =>
      intro before stands ordered front step later split
      simp at split
  | case2 lexer token after read ended =>
      intro before stands ordered front step later split
      cases front with
      | nil =>
          cases split
          exact stands.next_token ordered read
      | cons first front => simp at split
  | case3 lexer token after read inside reading ih =>
      intro before stands ordered front step later split
      obtain ⟨passed, hasRead⟩ := stands.next_token ordered read
      cases front with
      | nil =>
          obtain ⟨rfl, -⟩ := List.cons.inj split
          exact ⟨passed, hasRead⟩
      | cons first front =>
          obtain ⟨rfl, others⟩ := List.cons.inj split
          -- What has been read by now is the token before the next one.
          have line : after.tracker.last.line ≤ lineAfter (before ++ passed) := by
            rw [hasRead.last]
            exact Nat.le_of_eq hasRead.line
          obtain ⟨further, later⟩ := ih _ hasRead.stands line front step later others
          rw [List.append_assoc, hasRead.last] at later
          exact ⟨passed ++ further, by rwa [List.map_cons, List.getLastD_cons]⟩

theorem ofText_last (filename source : String) : (ofText filename source).tracker.last = {} := by
  rw [ofText, Tracker.advance_last]

/-- Each token of a text is read behind the one before it. -/
theorem ofText_hasRead {filename source : String} {front later : List Step} {step : Step}
    (steps : (ofText filename source).run.steps = front ++ step :: later) :
    ∃ before, step.after.HasRead source.toList before ((front.map (·.token.span)).getLastD {})
      step.token := by
  have ordered : (ofText filename source).tracker.last.line ≤ lineAfter [] := by
    rw [ofText_last]
    exact Nat.zero_le _
  have hasRead :=
    run_hasRead _ [] (stands_ofText filename source) ordered front step later steps
  rwa [ofText_last] at hasRead

/-- A run that fails does so in a call somewhere in the text. -/
theorem run_fails (lexer : Lexer) (failed : lexer.run.failure = some error) :
    ∀ before, lexer.Stands text before →
      ∃ (place : Lexer) (passed : List Char) (after : Lexer),
        place.Stands text (before ++ passed) ∧ place.next = (.error error, after) := by
  fun_induction Lexer.run lexer with
  | case1 lexer found after read =>
      intro before stands
      obtain rfl := Option.some.inj failed
      exact ⟨lexer, [], after, by rwa [List.append_nil], read⟩
  | case2 lexer token after read ended => cases failed
  | case3 lexer token after read inside reading ih =>
      intro before stands
      obtain ⟨first, onward⟩ := stands.next
      rw [read] at onward
      obtain ⟨place, passed, last, further, fails⟩ := ih failed _ onward
      exact ⟨place, first ++ passed, last, by rwa [← List.append_assoc], fails⟩

/-- The excerpt for a token that has just been read, or for the one before it. -/
theorem HasRead.excerpt {prior : Span} (hasRead : lexer.HasRead text before prior token)
    (missing : Bool) (first : missing = true → 1 ≤ prior.line) :
    ({ lexer with missingSemicolon := missing } : Lexer).excerpt.1.Shows text token.line ∧
      ({ lexer with missingSemicolon := missing } : Lexer).excerpt.1.line =
        if missing then prior.line else token.line := by
  obtain ⟨⟨whole, behind, records⟩, line, inText, last, previous, ordered⟩ := hasRead
  have stands : ({ lexer with missingSemicolon := missing } : Lexer).Stands text before :=
    ⟨whole, ⟨behind.line, behind.column⟩, records⟩
  have place : ({ lexer with missingSemicolon := missing } : Lexer).faultSpan.line =
      if missing then prior.line else token.line := by
    cases missing with
    | true =>
        change lexer.tracker.previous.line = prior.line
        rw [previous]
    | false =>
        change lexer.tracker.last.line = token.span.line
        rw [last]
  refine ⟨?_, place⟩
  rw [line] at place ⊢
  refine stands.excerpt_shows ?_ ?_
  · rw [place]
    split
    · next isMissing => exact first isMissing
    · exact Nat.le_add_left 1 _
  · rw [place]
    split
    · exact ordered
    · exact Nat.le_refl _

end Lexer

/-- The excerpt for unread tokens is taken where the first of them has been read. -/
theorem Lexer.Reading.excerpt_eq {reading : Lexer.Reading} {front later : List Lexer.Step}
    {step : Lexer.Step} {fault : SyntaxFault} {unread : List Token}
    (steps : reading.steps = front ++ step :: later)
    (length : unread.length = later.length + 1) : reading.excerpt fault unread =
      { step.after with
        missingSemicolon := decide (fault = SyntaxFault.missingSemicolon) }.excerpt.1 := by
  have place : reading.steps[reading.steps.length - unread.length]? = some step := by
    rw [steps, length, List.length_append, List.length_cons, Nat.add_sub_cancel]
    simp
  rw [Lexer.Reading.excerpt, place]

/-- A program starts with a brace, so a semicolon is missed behind some token. -/
theorem Grammar.missed_behind {used later : List Token} {token : Token}
    (refused : program (used ++ token :: later) =
      .error (.unexpected .missingSemicolon (token :: later))) : used ≠ [] := by
  rintro rfl
  obtain ⟨kind, span⟩ := token
  by_cases opens : kind = .mark .openBrace
  · subst opens
    obtain ⟨used, first, others, same, whole, none⟩ := program_refuses refused
    obtain rfl : used = [] := by
      rw [List.nil_append, same] at whole
      exact List.self_eq_append_left.mp whole
    cases same
    have empty : ∃ whole,
        program [⟨.mark .openBrace, span⟩, ⟨.mark .closeBrace, {}⟩, ⟨.eof, {}⟩] = .ok whole :=
      ⟨_, by cbv⟩
    obtain ⟨whole, accepted⟩ := empty
    exact none _ whole accepted
  · have mismatched : SyntaxFault.mismatch (.mark .openBrace) kind = .missingSemicolon := by
      simp only [List.nil_append, program, expect, if_neg opens] at refused
      injection refused with same
      injection same
    rw [SyntaxFault.mismatch] at mismatched
    split at mismatched <;> simp at mismatched

/-- The tokens break off only where a lexical fault stands, for the end of a text is a token. -/
theorem Lexer.failure_of_brokenOff {lexer : Lexer}
    (broken : Grammar.program lexer.run.tokens = .error .brokenOff) :
    ∃ error, lexer.run.failure = some error := by
  cases failure : lexer.run.failure with
  | some error => exact ⟨error, rfl⟩
  | none =>
      obtain ⟨earlier, ending, whole, isEnd, -⟩ := lexer.ended_of_clean failure
      have inside := Grammar.wholeProgram_looksOneAhead.broken (Grammar.program_eq_error.mp broken)
      exact (inside ending (by simp [whole]) isEnd).elim

/-- The excerpt of a syntax error shows the text up to the line of the token at fault. Its own line
is that of the token, or of the one before it where a semicolon is missing there. -/
theorem Lexer.Reading.excerpt_shows {filename source : String} {read later : List Token}
    {token : Token} {fault : SyntaxFault}
    (tokens : (Lexer.ofText filename source).run.tokens = read ++ token :: later)
    (refused : Grammar.program (read ++ token :: later) =
      .error (.unexpected fault (token :: later))) :
    let excerpt := (Lexer.ofText filename source).run.excerpt fault (token :: later)
    token.StandsIn source.toList ∧ excerpt.Shows source.toList token.line ∧
      (fault ≠ .missingSemicolon → excerpt.line = token.line) ∧
      (fault = .missingSemicolon → ∃ earlier previous, read = earlier ++ [previous] ∧
        previous.StandsIn source.toList ∧ previous.line ≤ token.line ∧
        excerpt.line = previous.line) := by
  intro excerpt
  obtain ⟨front, others, steps, rfl, otherTokens⟩ := List.map_eq_append_iff.mp tokens
  obtain ⟨step, behind, rfl, rfl, rfl⟩ := List.map_eq_cons_iff.mp otherTokens
  have same : excerpt = _ := Lexer.Reading.excerpt_eq steps (by simp)
  obtain ⟨passed, here⟩ := Lexer.ofText_hasRead steps
  by_cases missing : fault = .missingSemicolon
  · rw [decide_eq_true missing] at same
    obtain ⟨earlier, previous, lastTokens⟩ : ∃ earlier previous,
        front.map Lexer.Step.token = earlier ++ [previous] := by
      rcases List.eq_nil_or_concat (front.map Lexer.Step.token) with none | ⟨earlier, last, whole⟩
      · exact (Grammar.missed_behind (missing ▸ refused) none).elim
      · exact ⟨earlier, last, by rw [whole, List.concat_eq_append]⟩
    obtain ⟨prior, lasts, rfl, -, lastToken⟩ := List.map_eq_append_iff.mp lastTokens
    obtain ⟨last, rfl, rfl⟩ := List.map_eq_singleton_iff.mp lastToken
    rw [List.append_assoc] at steps
    obtain ⟨_, lastRead⟩ := Lexer.ofText_hasRead steps
    rw [List.map_append, List.map_singleton, List.getLastD_concat] at here
    obtain ⟨complete, line⟩ := here.excerpt true fun _ => lastRead.inText.line_pos
    rw [← same] at complete line
    refine ⟨here.inText, complete, fun present => (present missing).elim, fun _ =>
      ⟨earlier, last.token, lastTokens, lastRead.inText, ?_, line⟩⟩
    exact here.ordered.trans_eq here.line.symm
  · rw [decide_eq_false missing] at same
    obtain ⟨complete, line⟩ := here.excerpt false fun missed => absurd missed Bool.false_ne_true
    rw [← same] at complete line
    exact ⟨here.inText, complete, fun _ => line, fun isMissing => (missing isMissing).elim⟩

/-- An error in reading a text shows its lines up to the one where the reading has stopped, all
complete and without carriage returns. The line of the error is one of them. It is that of the
characters or the token at fault, or of the token before where a semicolon is missing. -/
theorem parse_error_shows_lines {filename source : String} {error : CompileError}
    (refused : Program.parse filename source = .error error) :
    (∃ lexical before offending behind, error = .lexical lexical ∧
      (Lexer.ofText filename source).run.failure = some lexical ∧
      source.toList = before ++ offending ++ behind ∧ IsMisfit offending behind lexical.fault ∧
      lexical.excerpt.line = lineAfter before ∧
      lexical.excerpt.Shows source.toList lexical.excerpt.line) ∨
    ∃ read token later fault excerpt, error = .syntactic fault excerpt ∧
      (Lexer.ofText filename source).run.tokens = read ++ token :: later ∧
      Grammar.program (read ++ token :: later) = .error (.unexpected fault (token :: later)) ∧
      token.StandsIn source.toList ∧ excerpt.Shows source.toList token.line ∧
      (fault ≠ .missingSemicolon → excerpt.line = token.line) ∧
      (fault = .missingSemicolon → ∃ earlier previous, read = earlier ++ [previous] ∧
        previous.StandsIn source.toList ∧ previous.line ≤ token.line ∧
        excerpt.line = previous.line) := by
  rw [Program.parse] at refused
  cases found : Grammar.program (Lexer.ofText filename source).run.tokens with
  | ok whole =>
      rw [found] at refused
      cases refused
  | error failure =>
      rw [found] at refused
      cases failure with
      | brokenOff =>
          obtain ⟨lexical, failed⟩ := Lexer.failure_of_brokenOff found
          simp only [Except.mapError, Lexer.Reading.error, failed, Except.error.injEq] at refused
          subst refused
          obtain ⟨place, passed, after, stands, fails⟩ :=
            Lexer.run_fails _ failed [] (Lexer.stands_ofText filename source)
          obtain ⟨misfit, scanned, fault, span, complete⟩ := stands.next_error fails
          obtain ⟨offending, behind, text, length, amiss⟩ := scan_startsAmiss scanned
          refine .inl ⟨lexical, _, offending, behind, rfl, failed, ?_, fault ▸ amiss,
            congrArg Span.line span, complete⟩
          rw [stands.whole, List.append_assoc _ offending, ← text,
            List.append_assoc _ (place.rest.takeWhile isBlank), List.takeWhile_append_dropWhile]
      | unexpected fault unread =>
          cases refused
          obtain ⟨read, token, later, rfl, tokens, -⟩ := Grammar.program_refuses found
          rw [tokens] at found
          exact .inr ⟨read, token, later, fault, _, rfl, tokens, found,
            Lexer.Reading.excerpt_shows tokens found⟩

/-- The semicolon is missing two lines before the next token, behind a carriage return. -/
def lostSemicolon : String :=
  "\x7b int x;\r\n x =\r 1\r\n\r\n\x7d"

set_option maxRecDepth 2048 in
theorem lostSemicolon_shows_lines : ∃ excerpt,
    Program.parse "lost" lostSemicolon = .error (.syntactic .missingSemicolon excerpt) ∧
    excerpt.line = 2 ∧ excerpt.lineText = " x = 1" ∧
    excerpt.lines = ["\x7b int x;", " x = 1", "", "\x7d"] ∧
    excerpt.Shows lostSemicolon.toList 4 := by
  have refused : ∃ excerpt,
      Program.parse "lost" lostSemicolon = .error (.syntactic .missingSemicolon excerpt) ∧
      excerpt.line = 2 ∧ excerpt.lineText = " x = 1" ∧
      excerpt.lines = ["\x7b int x;", " x = 1", "", "\x7d"] :=
    ⟨_, by cbv, rfl, rfl, rfl⟩
  obtain ⟨excerpt, error, line, lineText, lines⟩ := refused
  rcases parse_error_shows_lines error with
    ⟨_, _, _, _, lexical, -⟩ | ⟨_, token, _, _, _, same, -, -, -, complete, -⟩
  · cases lexical
  · cases same
    have length : token.line = 4 := by rw [← complete.length, lines, List.length_cons]; rfl
    exact ⟨excerpt, error, line, lineText, lines, length ▸ complete⟩

end ThreeAddress

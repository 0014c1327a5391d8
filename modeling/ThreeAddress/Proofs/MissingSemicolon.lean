import ThreeAddress.Proofs.Grammar.Excerpts
import ThreeAddress.Proofs.Grammar.Semicolon
import ThreeAddress.Proofs.Lexing.Inserted

namespace ThreeAddress

open Source

/-- The place of an error in reading a text. -/
def CompileError.place? : CompileError → Option TextPlace
  | .lexical error => some error.excerpt.place
  | .syntactic _ excerpt => some excerpt.place
  | _ => none

namespace Source.Span

def place (span : Span) : TextPlace :=
  toLex (span.line, span.column)

/-- The place right behind. -/
def endPlace (span : Span) : TextPlace :=
  toLex (span.line, span.endColumn)

theorem place_le_endPlace (span : Span) : span.place ≤ span.endPlace := by
  rw [place, endPlace, Prod.Lex.toLex_le_toLex]
  exact .inr ⟨rfl, Nat.le_add_right _ _⟩

end Source.Span

variable {filename source : String} {read later moved unread : List Token} {token : Token}

/-- An excerpt for unread tokens is at the first of them, or right behind the token before it where
a semicolon is missing. -/
theorem Lexer.Reading.excerpt_place (fault : SyntaxFault)
    (tokens : (Lexer.ofText filename source).run.tokens = read ++ token :: later) :
    ((Lexer.ofText filename source).run.excerpt fault (token :: later)).place =
      if fault = .missingSemicolon then ((read.map Token.span).getLastD {}).endPlace
      else token.span.place := by
  obtain ⟨front, others, steps, rfl, otherTokens⟩ := List.map_eq_append_iff.mp tokens
  obtain ⟨step, behind, rfl, rfl, rfl⟩ := List.map_eq_cons_iff.mp otherTokens
  obtain ⟨_, hasRead⟩ := Lexer.ofText_hasRead steps
  rw [Lexer.Reading.excerpt_eq steps (by simp)]
  by_cases missing : fault = .missingSemicolon
  · rw [decide_eq_true missing, if_pos missing]
    have prior := hasRead.previous
    change step.after.tracker.previous.endPlace = _
    rw [prior, List.map_map]
    rfl
  · rw [decide_eq_false missing, if_neg missing]
    change step.after.tracker.last.place = _
    rw [hasRead.last]

/-- A syntax error is about a token, and its excerpt is taken there. -/
theorem parse_syntactic {fault : SyntaxFault} {excerpt : Excerpt}
    (refused : Program.parse filename source = .error (.syntactic fault excerpt)) :
    ∃ read token later, (Lexer.ofText filename source).run.tokens = read ++ token :: later ∧
      Grammar.program (read ++ token :: later) = .error (.unexpected fault (token :: later)) ∧
      excerpt = (Lexer.ofText filename source).run.excerpt fault (token :: later) := by
  rw [Program.parse] at refused
  cases found : Grammar.program (Lexer.ofText filename source).run.tokens with
  | ok whole =>
      rw [found] at refused
      cases refused
  | error failure =>
      rw [found] at refused
      cases failure with
      | brokenOff =>
          obtain ⟨lexical, failed⟩ := Lexer.failure_of_brokenOff found
          simp [Except.mapError, Lexer.Reading.error, failed] at refused
      | unexpected fault unread =>
          cases refused
          obtain ⟨read, token, later, rfl, tokens, -⟩ := Grammar.program_refuses found
          exact ⟨read, token, later, tokens, tokens ▸ found, rfl⟩

/-- An error in reading a text with a fault behind these tokens is behind the last of them. -/
theorem Lexer.Reading.error_behind {semicolon : Token} {place : Lexer} {before : List Char}
    (begins : Grammar.program (read ++ [semicolon]) = .error .brokenOff)
    (tokens : (Lexer.ofText filename source).run.tokens = read ++ semicolon :: place.run.tokens)
    (failure : (Lexer.ofText filename source).run.failure = place.run.failure)
    (span : semicolon.span = spanAfter before 1) (stands : place.Behind (before ++ [';']))
    {error : CompileError} (refused : Program.parse filename source = .error error) :
    ∃ later, error.place? = some later ∧ placeAfter before < later := by
  have beyond (gap : List Char) : placeAfter before < placeAfter (before ++ [';'] ++ gap) := by
    rw [List.append_assoc]
    exact placeAfter_lt before nofun
  obtain ⟨spans, failures⟩ := place.run_behind _ stands
  have starts {token : Token} (member : token ∈ place.run.tokens) :
      placeAfter before < token.span.place := by
    obtain ⟨gap, length, same⟩ := spans token member
    rw [same]
    exact beyond gap
  have semicolonEnds : placeAfter before < semicolon.span.endPlace := by
    rw [span]
    exact Prod.Lex.toLex_lt_toLex.mpr (.inr ⟨rfl, Nat.lt_succ_self _⟩)
  rw [Program.parse] at refused
  cases found : Grammar.program (Lexer.ofText filename source).run.tokens with
  | ok whole =>
      rw [found] at refused
      cases refused
  | error fault =>
      rw [found] at refused
      cases fault with
      | brokenOff =>
          obtain ⟨lexical, failed⟩ := Lexer.failure_of_brokenOff found
          simp only [Except.mapError, Lexer.Reading.error, failed, Except.error.injEq] at refused
          subst refused
          obtain ⟨gap, same⟩ := failures lexical (failure ▸ failed)
          exact ⟨_, rfl, same ▸ beyond gap⟩
      | unexpected fault unread =>
          cases refused
          rw [tokens, List.append_cons] at found
          obtain ⟨passed, first, others, rfl, moved⟩ :=
            Grammar.program_refuses_behind begins found
          have whole : (Lexer.ofText filename source).run.tokens =
              (read ++ semicolon :: passed) ++ first :: others := by
            rw [tokens, moved, List.append_assoc, List.cons_append]
          -- The token before the one at fault is the semicolon or behind it.
          have previous : ∃ earlier last, read ++ semicolon :: passed = earlier ++ [last] ∧
              placeAfter before < last.span.endPlace := by
            rcases List.eq_nil_or_concat passed with rfl | ⟨between, last, rfl⟩
            · exact ⟨read, semicolon, rfl, semicolonEnds⟩
            · refine ⟨read ++ semicolon :: between, last, by simp, ?_⟩
              exact lt_of_lt_of_le (starts (by simp [moved])) last.span.place_le_endPlace
          obtain ⟨earlier, last, split, ends⟩ := previous
          refine ⟨_, rfl, ?_⟩
          rw [Lexer.Reading.excerpt_place fault whole, split, List.map_append, List.map_singleton,
            List.getLastD_concat]
          split
          · exact ends
          · exact starts (by simp [moved])

/-- A semicolon put where one is reported missing stands between the tokens read before, which stay
the same, and the one at fault. From there on the tokens are of the same kinds as before, and the
text is read beyond the semicolon: an error that is left is behind it. -/
theorem missing_semicolon_belongs_there {filename source : String} {excerpt : Excerpt}
    (missed : Program.parse filename source =
      .error (.syntactic .missingSemicolon excerpt)) :
    let mended := String.ofList (insertAt excerpt.line excerpt.column ';' source.toList)
    ∃ before behind read offending later semicolon moved,
      source.toList = before ++ behind ∧ mended.toList = before ++ ';' :: behind ∧
      excerpt.place = placeAfter before ∧
      (Lexer.ofText filename source).run.tokens = read ++ offending :: later ∧
      Grammar.program (read ++ offending :: later) =
        .error (.unexpected .missingSemicolon (offending :: later)) ∧
      (Lexer.ofText filename mended).run.tokens = read ++ semicolon :: moved ∧
      semicolon = ⟨.mark .semicolon, ⟨excerpt.line, excerpt.column, 1⟩⟩ ∧
      moved.map Token.kind = (offending :: later).map Token.kind ∧
      (∀ fault unread,
        Grammar.program (read ++ semicolon :: moved) = .error (.unexpected fault unread) →
          ∃ passed, moved = passed ++ unread) ∧
      ∀ error, Program.parse filename mended = .error error →
        ∃ place, error.place? = some place ∧ excerpt.place < place := by
  intro mended
  obtain ⟨read, offending, later, tokens, refused, same⟩ := parse_syntactic missed
  have some : read ≠ [] := Grammar.missed_behind refused
  obtain ⟨first, more, rfl⟩ := List.exists_cons_of_ne_nil some
  obtain ⟨before, behind, takes⟩ :=
    Lexer.exists_takes _ (Lexer.behind_ofText filename source) tokens
  have whole : source.toList = before ++ behind := takes.whole
  -- The excerpt is right behind the last token that has been read.
  have place : excerpt.place = placeAfter before := by
    obtain ⟨earlier, last, split⟩ := List.eq_nil_or_concat (first :: more) |>.resolve_left some
    rw [List.concat_eq_append] at split
    obtain ⟨line, column⟩ := takes.ends last (by rw [split, List.getLast?_concat]; rfl)
    rw [same, Lexer.Reading.excerpt_place _ tokens, if_pos rfl, split, List.map_append,
      List.map_singleton, List.getLastD_concat, Span.endPlace, line, column]
    rfl
  have line : excerpt.line = lineAfter before := congrArg (fun place => (ofLex place).1) place
  have column : excerpt.column = columnAfter before := congrArg (fun place => (ofLex place).2) place
  have mendedText : mended.toList = before ++ ';' :: behind := by
    rw [String.toList_ofList, whole, line, column, insertAt_place (by decide)]
  obtain ⟨left, leftText, runs⟩ := takes.left
  obtain ⟨atSemicolon, text, stands, mendedRuns, mendedFailure⟩ :=
    takes.again _ (Lexer.behind_ofText filename mended) mendedText
  obtain ⟨behindSemicolon, found, rest, onward⟩ := Lexer.next_semicolon stands text
  obtain ⟨semicolonRuns, failure⟩ := Lexer.run_next found nofun
  rw [semicolonRuns] at mendedRuns
  have kinds : behindSemicolon.run.tokens.map Token.kind =
      (offending :: later).map Token.kind := by
    rw [Lexer.run_kinds left behindSemicolon (rest.trans leftText.symm)]
    exact congrArg _ (List.append_cancel_left (runs.symm.trans tokens))
  have begins : Grammar.program (first :: more ++ [⟨.mark .semicolon, spanAfter before 1⟩]) =
      .error .brokenOff := Grammar.program_takes_semicolon rfl refused
  refine ⟨before, behind, first :: more, offending, later, _, _, whole, mendedText, place, tokens,
    refused, mendedRuns, ?_, kinds, fun fault unread unexpected => ?_, fun error failed => ?_⟩
  · rw [line, column]
    rfl
  · rw [List.append_cons] at unexpected
    obtain ⟨passed, _, _, rfl, moved⟩ := Grammar.program_refuses_behind begins unexpected
    exact ⟨passed, moved⟩
  · rw [place]
    exact Lexer.Reading.error_behind begins mendedRuns (mendedFailure.trans failure) rfl onward
      failed

/-- Two semicolons are missing, and the first of them two lines before the next token. -/
def twoMissing : String :=
  "\x7b int x\r\n\r\n x = 1 \x7d"

/-- The second one is still missing. -/
def oneMissing : String :=
  "\x7b int x;\r\n\r\n x = 1 \x7d"

set_option maxRecDepth 2048 in
theorem twoMissing_goes_on :
    (∃ excerpt, Program.parse "two" twoMissing = .error (.syntactic .missingSemicolon excerpt) ∧
      excerpt.line = 1 ∧ excerpt.column = 7 ∧
      String.ofList (insertAt 1 7 ';' twoMissing.toList) = oneMissing) ∧
    (∃ error, Program.parse "two" oneMissing = .error error) ∧
    (∃ read moved, (Lexer.ofText "two" twoMissing).run.tokens.map Token.kind = read ++ moved ∧
      (Lexer.ofText "two" oneMissing).run.tokens.map Token.kind =
        read ++ .mark .semicolon :: moved) ∧
    ∀ error, Program.parse "two" oneMissing = .error error →
      ∃ place, error.place? = some place ∧ toLex (1, 7) < place := by
  have refused : ∃ excerpt,
      Program.parse "two" twoMissing = .error (.syntactic .missingSemicolon excerpt) ∧
      excerpt.line = 1 ∧ excerpt.column = 7 := ⟨_, by cbv, rfl, rfl⟩
  have text : String.ofList (insertAt 1 7 ';' twoMissing.toList) = oneMissing := by decide
  have stillRefused : ∃ error, Program.parse "two" oneMissing = .error error := ⟨_, by cbv⟩
  obtain ⟨⟨file, line, column, length, lineText, lines⟩, error, rfl, rfl⟩ := refused
  obtain ⟨_, _, read, offending, later, semicolon, moved, -, -, -, tokens, -, mended, rfl, kinds, -,
    beyond⟩ := missing_semicolon_belongs_there error
  dsimp only at mended beyond
  rw [text] at mended beyond
  refine ⟨⟨_, error, rfl, rfl, text⟩, stillRefused,
    ⟨read.map Token.kind, moved.map Token.kind, ?_, ?_⟩, beyond⟩
  · rw [tokens, List.map_append, kinds]
  · rw [mended, List.map_append]
    rfl

end ThreeAddress

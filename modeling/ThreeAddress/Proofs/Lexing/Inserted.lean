import ThreeAddress.Proofs.Lexing.Carets
import ThreeAddress.Proofs.Lexing.Partition
import ThreeAddress.Proofs.Lexing.Written

namespace ThreeAddress

open Text Source

namespace Source

variable {before behind earlier front text : List Char} {added : Char}

/-- The text with one more character at this line and column. -/
def insertAt (line column : Nat) (added : Char) (text : List Char) : List Char :=
  ['\n'].intercalate ((text.splitOn '\n').modify (line - 1) (·.insertIdx column added))

/-- Places in the order of the text. -/
abbrev TextPlace :=
  Nat ×ₗ Nat

def Excerpt.place (excerpt : Excerpt) : TextPlace :=
  toLex (excerpt.line, excerpt.column)

/-- The place of the character behind these. -/
def placeAfter (before : List Char) : TextPlace :=
  toLex (lineAfter before, columnAfter before)

theorem StartsLine.splitOn_append (starts : StartsLine earlier) : ∃ done,
    done.length + 1 = lineAfter earlier ∧
    ∀ text, (earlier ++ text).splitOn '\n' = done ++ text.splitOn '\n' := by
  rcases List.eq_nil_or_concat earlier with rfl | ⟨prior, c, rfl⟩
  · exact ⟨[], rfl, fun text => rfl⟩
  · rw [List.concat_eq_append] at starts ⊢
    obtain rfl : c = '\n' := starts c (by simp)
    refine ⟨prior.splitOn '\n', ?_, fun text => ?_⟩
    · rw [length_splitOn, lineAfter_concat, if_pos rfl]
    · rw [List.append_assoc, List.singleton_append, List.splitOn_append_cons_self]

theorem splitOn_onLine (onLine : '\n' ∉ front) {first : List Char} {others : List (List Char)}
    (lines : text.splitOn '\n' = first :: others) :
    (front ++ text).splitOn '\n' = (front ++ first) :: others := by
  induction front with
  | nil => exact lines
  | cons c front ih =>
      simp only [List.mem_cons, not_or] at onLine
      have noNewline : c ≠ '\n' := Ne.symm onLine.1
      rw [List.cons_append, List.splitOn_cons_eq_if_modifyHead, if_neg (by simpa using noNewline),
        ih onLine.2]
      rfl

theorem insertAt_place (onLine : added ≠ '\n') :
    insertAt (lineAfter before) (columnAfter before) added (before ++ behind) =
      before ++ added :: behind := by
  obtain ⟨earlier, front, rfl, starts, frontLine⟩ := exists_startsLine before
  obtain ⟨done, count, lines⟩ := starts.splitOn_append
  obtain ⟨first, others, rest⟩ := List.exists_cons_of_ne_nil (List.splitOn_ne_nil '\n' behind)
  have whole : (earlier ++ front ++ behind).splitOn '\n' = done ++ (front ++ first) :: others := by
    rw [List.append_assoc, lines, splitOn_onLine frontLine rest]
  have wanted : (earlier ++ front ++ added :: behind).splitOn '\n' =
      done ++ (front ++ added :: first) :: others := by
    have longer : '\n' ∉ front ++ [added] := by simpa using ⟨frontLine, Ne.symm onLine⟩
    rw [List.append_assoc, List.append_cons front, lines, splitOn_onLine longer rest,
      ← List.append_cons front]
  have row : lineAfter (earlier ++ front) - 1 = done.length := by
    rw [lineAfter_append frontLine, ← count, Nat.add_sub_cancel]
  have place : columnAfter (earlier ++ front) = front.length := by
    rw [columnAfter_append frontLine, starts.column, Nat.zero_add]
  have atPlace : (front ++ first).insertIdx front.length added = front ++ added :: first :=
    List.modifyTailIdx_add _ 0 front first
  have onRow : (done ++ (front ++ first) :: others).modify done.length
      (·.insertIdx front.length added) = done ++ (front ++ added :: first) :: others := by
    rw [← atPlace]
    exact List.modifyTailIdx_add _ 0 done _
  rw [insertAt, whole, row, place, onRow, ← wanted, List.intercalate_splitOn]

/-- Whatever stands behind a place is at a later one. -/
theorem placeAfter_lt (before : List Char) {more : List Char} (some : more ≠ []) :
    placeAfter before < placeAfter (before ++ more) := by
  rw [placeAfter, placeAfter, Prod.Lex.toLex_lt_toLex]
  by_cases onLine : '\n' ∈ more
  · have newlines : 0 < more.count '\n' := List.count_pos_iff.mpr onLine
    refine .inl ?_
    rw [lineAfter, lineAfter, List.count_append]
    omega
  · have length := List.length_pos_of_ne_nil some
    refine .inr ⟨(lineAfter_append onLine).symm, ?_⟩
    rw [columnAfter_append onLine]
    omega

end Source

variable {spelling : List Char} {kind : Kind}

/-- A lexeme is read as its token where a semicolon stands behind it. -/
theorem scan_before_semicolon (lexical : IsLexeme spelling kind) (rest : List Char) :
    scan (spelling ++ ';' :: rest) = .ok ⟨kind, spelling.length⟩ := by
  have noPart : ∀ c ∈ (';' :: rest).head?, isWordPart c = false := by
    intro c here
    cases here
    decide
  exact scan_lexeme_before lexical rfl noPart fun first =>
    Mark.pair?_eq_none (by decide) (by decide) (by decide)

namespace Lexer

variable {lexer other after : Lexer} {before passed behind rest : List Char}
  {token first next : Token} {read later more : List Token}

theorem next_semicolon (stands : lexer.Behind before) (text : lexer.rest = ';' :: rest) :
    ∃ after, lexer.next = (.ok ⟨.mark .semicolon, spanAfter before 1⟩, after) ∧
      after.rest = rest ∧ after.Behind (before ++ [';']) := by
  have ahead : lexer.Ahead [] ([';'] ++ rest) := by
    refine ⟨text, nofun, fun c here => ?_⟩
    cases here
    decide
  obtain ⟨after, read, left, onward⟩ := next_lexeme stands ahead rfl (by decide)
  rw [List.append_nil] at read onward
  exact ⟨after, read, left, onward⟩

/-- A token with another one behind it has been read by a call, and it does not end the text. -/
theorem next_of_tokens (tokens : lexer.run.tokens = first :: next :: more) :
    ∃ after, lexer.next = (.ok first, after) ∧ first.kind ≠ .eof ∧
      after.run.tokens = next :: more := by
  match found : lexer.next with
  | (.error error, after) =>
      rw [run_error found] at tokens
      cases tokens
  | (.ok here, after) =>
      by_cases ended : here.kind = .eof
      · rw [(run_end found ended).1] at tokens
        simp at tokens
      · rw [(run_next found ended).1] at tokens
        obtain ⟨rfl, others⟩ := List.cons.inj tokens
        exact ⟨after, rfl, ended, others⟩

theorem Behind.samePlace (stands : lexer.Behind before) (otherStands : other.Behind before) :
    SamePlace lexer other :=
  ⟨stands.line.trans otherStands.line.symm, stands.column.trans otherStands.column.symm⟩

/-- These tokens are read from these characters. The last one ends with them, and a semicolon may
come next. -/
structure Takes (lexer : Lexer) (before : List Char) (read : List Token)
    (passed behind : List Char) : Prop where
  whole : lexer.rest = passed ++ behind
  some : passed ≠ []
  ends : ∀ last ∈ read.getLast?, last.span.line = lineAfter (before ++ passed) ∧
    last.span.endColumn = columnAfter (before ++ passed)
  left : ∃ place : Lexer, place.rest = behind ∧ lexer.run.tokens = read ++ place.run.tokens
  again : ∀ other : Lexer, other.Behind before → other.rest = passed ++ ';' :: behind →
    ∃ place : Lexer, place.rest = ';' :: behind ∧ place.Behind (before ++ passed) ∧
      other.run.tokens = read ++ place.run.tokens ∧ other.run.failure = place.run.failure

theorem exists_takes (lexer : Lexer) (stands : lexer.Behind before)
    (tokens : lexer.run.tokens = first :: more ++ token :: later) :
    ∃ passed behind, lexer.Takes before (first :: more) passed behind := by
  induction more generalizing lexer first before with
  | nil =>
      obtain ⟨after, found, inside, -⟩ := next_of_tokens tokens
      obtain ⟨runs, -⟩ := run_next found inside
      rcases next_reads stands found with ⟨-, rfl⟩ | ⟨-, piece, rfl, text, fits, -⟩
      · contradiction
      · refine ⟨piece.text, after.rest, text, ?_, ?_, ⟨after, rfl, runs⟩, ?_⟩
        · exact List.append_ne_nil_of_right_ne_nil _ fits.nonempty
        · intro last here
          obtain rfl : piece.token = last := Option.some.inj here
          have onLine := fits.lexeme.form.on_line
          rw [Piece.text, ← List.append_assoc, lineAfter_append onLine, columnAfter_append onLine,
            fits.span]
          exact ⟨rfl, rfl⟩
        · intro other otherStands otherText
          have ahead : other.Ahead piece.blanks (piece.spelling ++ ';' :: after.rest) := by
            refine ⟨?_, fits.blank, fits.lexeme.form.starts _⟩
            rw [otherText, Piece.text, List.append_assoc]
          obtain ⟨place, read, left, onward⟩ := next_lexeme otherStands ahead
            (scan_before_semicolon fits.lexeme after.rest) fits.lexeme.form.on_line
          rw [← fits.span] at read
          obtain ⟨otherRuns, failure⟩ := run_next read inside
          refine ⟨place, left, ?_, otherRuns, failure⟩
          rwa [Piece.text, ← List.append_assoc]
  | cons next more ih =>
      obtain ⟨after, found, inside, onward⟩ := next_of_tokens tokens
      obtain ⟨runs, -⟩ := run_next found inside
      rcases next_reads stands found with ⟨-, rfl⟩ | ⟨-, piece, -, text, -, standsAfter⟩
      · contradiction
      · obtain ⟨passed, behind, rest⟩ := ih after standsAfter onward
        obtain ⟨front, frontText, cut⟩ := next_cut found inside
        obtain rfl : piece.text = front := List.append_cancel_right (text.symm.trans frontText)
        refine ⟨piece.text ++ passed, behind, ?_, ?_, ?_, ?_, ?_⟩
        · rw [text, rest.whole, List.append_assoc]
        · exact List.append_ne_nil_of_right_ne_nil _ rest.some
        · rw [← List.append_assoc]
          exact rest.ends
        · obtain ⟨place, left, others⟩ := rest.left
          exact ⟨place, left, by rw [runs, others]; rfl⟩
        · intro other otherStands otherText
          rw [List.append_assoc] at otherText
          -- The next token starts with a character of its own, so nothing changes behind this one.
          have like : GoesOnLike after.rest (passed ++ ';' :: behind) := by
            obtain ⟨c, passed, rfl⟩ := List.exists_cons_of_ne_nil rest.some
            rw [rest.whole]
            exact .inl rfl
          obtain ⟨otherAfter, read, same, left⟩ :=
            cut other _ (stands.samePlace otherStands) otherText like
          have otherBehind : otherAfter.Behind (before ++ piece.text) :=
            ⟨same.line ▸ standsAfter.line, same.column ▸ standsAfter.column⟩
          obtain ⟨place, placeText, placeStands, placeTokens, placeFailure⟩ :=
            rest.again otherAfter otherBehind left
          obtain ⟨otherRuns, failure⟩ := run_next read inside
          refine ⟨place, placeText, ?_, ?_, failure.trans placeFailure⟩
          · rwa [← List.append_assoc]
          · rw [otherRuns, placeTokens]
            rfl

/-- The same text has tokens of the same kinds, wherever it stands. -/
theorem run_kinds (lexer : Lexer) : ∀ other : Lexer, other.rest = lexer.rest →
    other.run.tokens.map Token.kind = lexer.run.tokens.map Token.kind := by
  have again {lexer other after : Lexer} {token : Token} (same : other.rest = lexer.rest)
      (read : lexer.next = (.ok token, after)) :
      ∃ otherToken otherAfter, other.next = (.ok otherToken, otherAfter) ∧
        otherToken.kind = token.kind ∧ otherAfter.rest = after.rest := by
    obtain ⟨lexeme, scanned, kind⟩ := scan_of_next read
    have otherScanned := scanned
    rw [← same] at otherScanned
    rw [next_of_scan scanned] at read
    cases read
    refine ⟨_, _, next_of_scan otherScanned, rfl, ?_⟩
    simp only [skip_rest, startToken_rest_eq, same]
  fun_induction Lexer.run lexer with
  | case1 lexer error after failed =>
      intro other same
      rcases found : other.next with ⟨otherError | token, otherAfter⟩
      · rw [run_error found]
        rfl
      · obtain ⟨_, _, read, -⟩ := again same.symm found
        rw [failed] at read
        cases read
  | case2 lexer token after read ended =>
      intro other same
      obtain ⟨otherToken, otherAfter, otherRead, kind, -⟩ := again same read
      rw [(run_end otherRead (kind.trans ended)).1]
      exact congrArg (fun kind => [kind]) kind
  | case3 lexer token after read inside reading ih =>
      intro other same
      obtain ⟨otherToken, otherAfter, otherRead, kind, left⟩ := again same read
      rw [(run_next otherRead (kind ▸ inside)).1, List.map_cons, kind, ih otherAfter left]
      rfl

/-- Whatever is read or found amiss is where the lexer stands, or behind that. -/
theorem run_behind (lexer : Lexer) : ∀ before, lexer.Behind before →
    (∀ token ∈ lexer.run.tokens, ∃ gap length, token.span = spanAfter (before ++ gap) length) ∧
    ∀ error, lexer.run.failure = some error →
      ∃ gap, error.excerpt.place = placeAfter (before ++ gap) := by
  have here {lexer after : Lexer} {before : List Char} {token : Token}
      (stands : lexer.Behind before) (read : lexer.next = (.ok token, after)) :
      ∃ gap length, token.span = spanAfter (before ++ gap) length := by
    rcases next_reads stands read with ⟨-, rfl⟩ | ⟨-, piece, rfl, -, fits, -⟩
    · exact ⟨_, _, rfl⟩
    · exact ⟨_, _, fits.span⟩
  fun_induction Lexer.run lexer with
  | case1 lexer error after failed =>
      intro before stands
      refine ⟨List.forall_mem_nil _, fun found same => ?_⟩
      obtain rfl : error = found := Option.some.inj same
      cases scanned : scan (lexer.rest.dropWhile isBlank) with
      | ok lexeme =>
          rw [next_of_scan scanned] at failed
          cases failed
      | error misfit =>
          obtain ⟨_, _, found, -, span, -⟩ := next_misfit stands lexer.ahead_rest scanned
          rw [failed] at found
          cases found
          refine ⟨lexer.rest.takeWhile isBlank, ?_⟩
          exact congrArg (fun span : Span => toLex (span.line, span.column)) span
  | case2 lexer token after read ended =>
      intro before stands
      refine ⟨fun found member => ?_, fun error failed => (Option.some_ne_none error failed.symm).elim⟩
      obtain rfl : found = token := List.mem_singleton.mp member
      exact here stands read
  | case3 lexer token after read inside reading ih =>
      intro before stands
      rcases next_reads stands read with ⟨-, rfl⟩ | ⟨-, piece, -, -, -, onward⟩
      · contradiction
      · obtain ⟨tokens, failure⟩ := ih _ onward
        constructor
        · intro found member
          rcases List.mem_cons.mp member with rfl | later
          · exact here stands read
          · obtain ⟨gap, length, span⟩ := tokens found later
            rw [List.append_assoc] at span
            exact ⟨_, length, span⟩
        · intro error failed
          obtain ⟨gap, place⟩ := failure error failed
          rw [List.append_assoc] at place
          exact ⟨_, place⟩

end Lexer

end ThreeAddress

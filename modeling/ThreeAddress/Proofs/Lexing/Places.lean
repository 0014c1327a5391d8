import Mathlib.Data.List.DropRight
import ThreeAddress.Proofs.Lexing.Lexemes

namespace ThreeAddress

open Text Source

/-!
# Where tokens stand

A place is a number of characters behind the start of a text: the line is one more
than the newlines among them, and the column counts those after the last one. A lexer
keeps the place of its next character, so the span of a token, or of a misfit, is
where its characters start. One call of `next` passes the blanks and then the lexeme,
or the rest of the line.
-/

namespace Source

/-- The line of the character behind these. -/
def lineAfter (before : List Char) : Nat :=
  before.count '\n' + 1

/-- The column of the character behind these. -/
def columnAfter (before : List Char) : Nat :=
  (before.rtakeWhile (· != '\n')).length

/-- So many characters behind these. -/
def spanAfter (before : List Char) (length : Nat) : Span :=
  ⟨lineAfter before, columnAfter before, length⟩

variable {before text : List Char} {c : Char}

theorem lineAfter_concat :
    lineAfter (before ++ [c]) = if c = '\n' then lineAfter before + 1 else lineAfter before := by
  rw [lineAfter, List.count_append, List.count_singleton]
  by_cases newline : c = '\n' <;> simp [newline, lineAfter]

theorem columnAfter_concat :
    columnAfter (before ++ [c]) = if c = '\n' then 0 else columnAfter before + 1 := by
  rw [columnAfter, List.rtakeWhile_concat]
  by_cases newline : c = '\n' <;> simp [newline, columnAfter]

theorem lineAfter_append (onLine : '\n' ∉ text) :
    lineAfter (before ++ text) = lineAfter before := by
  rw [lineAfter, List.count_append, List.count_eq_zero_of_not_mem onLine, Nat.add_zero, lineAfter]

theorem columnAfter_append (onLine : '\n' ∉ text) :
    columnAfter (before ++ text) = columnAfter before + text.length := by
  induction text using List.reverseRecOn with
  | nil => simp
  | append_singleton text c ih =>
      simp only [List.mem_append, List.mem_singleton, not_or] at onLine
      rw [← List.append_assoc, columnAfter_concat, if_neg (Ne.symm onLine.2), ih onLine.1,
        List.length_append, List.length_singleton, Nat.add_assoc]

end Source

namespace Lexer

variable {lexer after : Lexer} {before passed rest blanks ahead : List Char} {c : Char}
  {lexeme : Lexeme} {misfit : Misfit}

/-- The next character of the lexer stands behind these. -/
structure Behind (before : List Char) (lexer : Lexer) : Prop where
  line : lexer.tracker.line = lineAfter before
  column : lexer.tracker.column = columnAfter before

theorem behind_ofText (filename source : String) : (ofText filename source).Behind [] := by
  obtain ⟨line, column⟩ := ofText_place filename source
  exact ⟨line, column⟩

/-- One character further. -/
theorem Behind.bump (behind : lexer.Behind before) (text : lexer.rest = c :: rest) :
    lexer.bump.Behind (before ++ [c]) := by
  obtain ⟨line, column, -⟩ := Tracker.advance_place lexer.tracker c rest.head?
  constructor
  · rw [bump_cons text, line, lineAfter_concat, behind.line]
  · rw [bump_cons text, column, columnAfter_concat, behind.column]

theorem Behind.skip (behind : lexer.Behind before) (text : lexer.rest = passed ++ rest) :
    (lexer.skip passed.length).Behind (before ++ passed) := by
  induction passed generalizing lexer before with
  | nil => rwa [List.append_nil]
  | cons c passed ih =>
      have onward := ih (behind.bump text) (by rw [bump_rest, text]; rfl)
      rwa [List.append_assoc] at onward

/-- The blanks in front of a token, and the text from its first character on. -/
structure Ahead (lexer : Lexer) (blanks ahead : List Char) : Prop where
  whole : lexer.rest = blanks ++ ahead
  blank : ∀ c ∈ blanks, isBlank c = true
  starts : ∀ c ∈ ahead.head?, isBlank c = false

theorem ahead_rest (lexer : Lexer) : lexer.Ahead (lexer.rest.takeWhile isBlank)
    (lexer.rest.dropWhile isBlank) where
  whole := List.takeWhile_append_dropWhile.symm
  blank := fun c => List.mem_takeWhile_imp
  starts := by
    intro c here
    have stops := List.head?_dropWhile_not isBlank lexer.rest
    rw [here] at stops
    exact stops

variable {spelling text : List Char} {kind : Kind}

theorem Behind.startToken (behind : lexer.Behind before) (ahead : lexer.Ahead blanks text) :
    lexer.startToken.rest = text ∧ lexer.startToken.Behind (before ++ blanks) ∧
      lexer.startToken.tracker.tokenStart = spanAfter (before ++ blanks) 0 := by
  have front : lexer.rest.takeWhile isBlank = blanks := by
    rw [ahead.whole, takeWhile_append_stop ahead.blank ahead.starts]
  have skipped : lexer.skipBlanks.Behind (before ++ blanks) := by
    rw [skipBlanks, front]
    exact behind.skip ahead.whole
  refine ⟨?_, ⟨skipped.line, skipped.column⟩, ?_⟩
  · rw [startToken_rest_eq, ahead.whole, dropWhile_append_stop ahead.blank ahead.starts]
  · simp only [Lexer.startToken, Tracker.startToken, skipped.line, skipped.column, spanAfter]

/-- A call reads the token behind the blanks, with the place where it starts. -/
theorem next_lexeme (behind : lexer.Behind before) (ahead : lexer.Ahead blanks (spelling ++ rest))
    (scanned : scan (spelling ++ rest) = .ok ⟨kind, spelling.length⟩) (onLine : '\n' ∉ spelling) :
    ∃ after, lexer.next = (.ok ⟨kind, spanAfter (before ++ blanks) spelling.length⟩, after) ∧
      after.rest = rest ∧ after.Behind (before ++ blanks ++ spelling) := by
  obtain ⟨text, started, tokenStart⟩ := behind.startToken ahead
  have passed := started.skip text
  have span : (lexer.startToken.skip spelling.length).tracker.tokenSpan =
      spanAfter (before ++ blanks) spelling.length := by
    simp only [Tracker.tokenSpan, Tracker.tokenLength, skip_tokenStart, tokenStart, passed.column,
      columnAfter_append onLine, spanAfter, Nat.add_sub_cancel_left]
  have behindBlanks : scan (lexer.rest.dropWhile isBlank) = .ok ⟨kind, spelling.length⟩ := by
    rw [← startToken_rest_eq, text, scanned]
  have read := next_of_scan behindBlanks
  rw [span] at read
  refine ⟨_, read, ?_, ⟨passed.line, passed.column⟩⟩
  rw [skip_rest, text, List.drop_left]

end Lexer

/-- The place that a lexical error is about. -/
def LexicalError.span (error : LexicalError) : Span :=
  ⟨error.excerpt.line, error.excerpt.column, error.excerpt.length⟩

namespace Lexer

variable {lexer : Lexer} {before blanks text : List Char} {misfit : Misfit}

theorem next_of_misfit (scanned : scan lexer.startToken.rest = .error misfit) : lexer.next =
    (.error ⟨misfit.fault, (lexer.startToken.excerptAt
      { lexer.startToken.tracker.tokenStart with length := misfit.length }).1⟩,
      lexer.startToken.finishLine) := by
  unfold next
  simp only [scanned]
  rfl

/-- A call that meets a misfit behind the blanks passes the rest of its line. -/
theorem next_misfit (behind : lexer.Behind before) (ahead : lexer.Ahead blanks text)
    (scanned : scan text = .error misfit) :
    ∃ error after, lexer.next = (.error error, after) ∧ error.fault = misfit.fault ∧
      error.span = spanAfter (before ++ blanks) misfit.length ∧
      after.rest = text.dropWhile (· != '\n') ∧
      after.Behind (before ++ blanks ++ text.takeWhile (· != '\n')) := by
  obtain ⟨start, started, tokenStart⟩ := behind.startToken ahead
  have line : lexer.startToken.rest =
      text.takeWhile (· != '\n') ++ text.dropWhile (· != '\n') := by
    rw [start, List.takeWhile_append_dropWhile]
  have finished := started.skip line
  have startScanned : scan lexer.startToken.rest = .error misfit := by rw [start, scanned]
  have read := next_of_misfit startScanned
  rw [finishLine, start] at read
  refine ⟨_, _, read, rfl, ?_, ?_, finished⟩
  · simp only [LexicalError.span, excerptAt, Tracker.excerpt, tokenStart, spanAfter]
  · rw [skip_rest, line, List.drop_left]

end Lexer

end ThreeAddress

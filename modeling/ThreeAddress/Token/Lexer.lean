import ThreeAddress.Source.Tracker
import ThreeAddress.Token.Scan

namespace ThreeAddress

open ThreeAddress.Text ThreeAddress.Source

/-!
# Reading tokens one after the other

A lexer is what is left of a text, with the tracker of the lookahead character.
After a lexical fault the rest of the line is skipped, so that the next token
comes from the line after it. `Lexer.run` reads up to the end of the text or the
first fault.
-/

structure LexicalError where
  fault : LexicalFault
  excerpt : Excerpt

structure Lexer where
  filename : String
  /-- The text from the lookahead character on. -/
  rest : List Char
  tracker : Tracker := {}
  /-- Lets an excerpt point just past the token before the last one. -/
  missingSemicolon : Bool := false

namespace Lexer

def ofText (filename source : String) : Lexer where
  filename := filename
  rest := source.toList
  tracker := ({} : Tracker).advance none source.toList.head?

def bump (lexer : Lexer) : Lexer :=
  match lexer.rest with
  | [] => lexer
  | c :: rest =>
      { lexer with rest, tracker := lexer.tracker.advance (some c) rest.head? }

def skip (lexer : Lexer) : Nat → Lexer
  | 0 => lexer
  | count + 1 => lexer.bump.skip count

def skipBlanks (lexer : Lexer) : Lexer :=
  lexer.skip (lexer.rest.takeWhile isBlank).length

/-- Passes the rest of the line, up to its newline. -/
def finishLine (lexer : Lexer) : Lexer :=
  lexer.skip (lexer.rest.takeWhile (· != '\n')).length

/-- The excerpt for a place, and the lexer once the line it stands on is complete. -/
def excerptAt (lexer : Lexer) (span : Span) : Excerpt × Lexer :=
  let finished := lexer.finishLine
  (finished.tracker.excerpt finished.filename span, finished)

/-- The place that a fault of the token sequence is about: the last token, at least one
character of it, or the place where the token before it should have been followed by a
semicolon. -/
def faultSpan (lexer : Lexer) : Span :=
  let tracker := lexer.tracker
  if lexer.missingSemicolon then
    { line := tracker.previous.line, column := tracker.previous.endColumn, length := 1 }
  else
    { tracker.last with length := max tracker.last.length 1 }

def excerpt (lexer : Lexer) : Excerpt × Lexer :=
  lexer.excerptAt lexer.faultSpan

/-- Lets a token start at the first character that is no blank. -/
def startToken (lexer : Lexer) : Lexer :=
  let lexer := lexer.skipBlanks
  { lexer with tracker := lexer.tracker.startToken }

def next (lexer : Lexer) : Except LexicalError Token × Lexer :=
  let start := lexer.startToken
  match scan start.rest with
  | .ok lexeme =>
      let passed := start.skip lexeme.length
      let tracker := passed.tracker.finishToken
      (.ok ⟨lexeme.kind, tracker.last⟩, { passed with tracker })
  | .error misfit =>
      let (excerpt, finished) :=
        start.excerptAt { start.tracker.tokenStart with length := misfit.length }
      (.error ⟨misfit.fault, excerpt⟩, finished)

theorem bump_rest (lexer : Lexer) : lexer.bump.rest = lexer.rest.tail := by
  unfold bump
  split <;> simp_all

theorem skip_rest (lexer : Lexer) (count : Nat) :
    (lexer.skip count).rest = lexer.rest.drop count := by
  induction count generalizing lexer with
  | zero => rfl
  | succ count ih =>
      rw [skip, ih, bump_rest, ← List.drop_one, List.drop_drop, Nat.add_comm]

theorem startToken_rest (lexer : Lexer) :
    lexer.startToken.rest = lexer.rest.drop (lexer.rest.takeWhile isBlank).length :=
  lexer.skip_rest _

/-- A token that is not the end of the text takes characters from it. -/
theorem next_rest_length {lexer after : Lexer} {token : Token}
    (read : lexer.next = (.ok token, after)) (inside : token.kind ≠ .eof) :
    after.rest.length < lexer.rest.length := by
  unfold next at read
  simp only at read
  split at read
  · next lexeme scanned =>
      cases read
      have positive : 0 < lexeme.length := scan_length_pos scanned inside
      have nonempty : 0 < lexer.startToken.rest.length := by
        cases remaining : lexer.startToken.rest with
        | nil =>
            rw [remaining] at scanned
            cases scanned
            contradiction
        | cons c rest => exact Nat.succ_pos _
      have shorter : lexer.startToken.rest.length ≤ lexer.rest.length := by
        rw [startToken_rest, List.length_drop]
        exact Nat.sub_le _ _
      simp only [skip_rest, List.length_drop]
      omega
  · simp at read

structure Step where
  token : Token
  after : Lexer

/-- The tokens up to the end of the text, or up to the first fault. -/
structure Reading where
  steps : List Step
  failure : Option LexicalError

def Reading.tokens (reading : Reading) : List Token :=
  reading.steps.map Step.token

/-- Reads tokens until the end of the text, which is a token itself, or a fault. -/
def run (lexer : Lexer) : Reading :=
  match _read : lexer.next with
  | (.error error, _) => ⟨[], some error⟩
  | (.ok token, after) =>
      if _ended : token.kind = .eof then ⟨[⟨token, after⟩], none⟩
      else
        let reading := after.run
        ⟨⟨token, after⟩ :: reading.steps, reading.failure⟩
termination_by lexer.rest.length
decreasing_by exact next_rest_length _read _ended

end Lexer

end ThreeAddress

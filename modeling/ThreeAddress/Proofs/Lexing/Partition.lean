import Mathlib.Tactic
import ThreeAddress.Proofs.Lexing.Places

namespace ThreeAddress

open Text Source

/-- A token with the blanks before it and the characters that it was read from. -/
structure Piece where
  blanks : List Char
  spelling : List Char
  token : Token

namespace Piece

def text (piece : Piece) : List Char :=
  piece.blanks ++ piece.spelling

/-- The text that some pieces make up. -/
def joined (pieces : List Piece) : List Char :=
  pieces.flatMap text

/-- The piece is right between the text before it and the text behind it. -/
structure Fits (piece : Piece) (before behind : List Char) : Prop where
  blank : ∀ c ∈ piece.blanks, isBlank c = true
  nonempty : piece.spelling ≠ []
  lexeme : IsLexeme piece.spelling piece.token.kind
  longest : Longest piece.spelling behind
  span : piece.token.span = spanAfter (before ++ piece.blanks) piece.spelling.length

end Piece

open Piece

namespace Lexer

variable {lexer after : Lexer} {before : List Char} {token : Token}

/-- Where a call answers a token, it stands before the last blanks of the text, or it reads a piece
of the text. -/
theorem next_reads (behind : lexer.Behind before) (read : lexer.next = (.ok token, after)) :
    ((∀ c ∈ lexer.rest, isBlank c = true) ∧ token = ⟨.eof, spanAfter (before ++ lexer.rest) 0⟩) ∨
    token.kind ≠ .eof ∧ ∃ piece : Piece, piece.token = token ∧
      lexer.rest = piece.text ++ after.rest ∧ piece.Fits before after.rest ∧
      after.Behind (before ++ piece.text) := by
  have ahead := lexer.ahead_rest
  obtain ⟨lexeme, scanned, -⟩ := scan_of_next read
  cases text : lexer.rest.dropWhile isBlank with
  | nil =>
      have allBlank := List.dropWhile_eq_nil_iff.mp text
      rw [text, List.takeWhile_eq_self_iff.mpr allBlank] at ahead
      have atEnd : lexer.Ahead lexer.rest ([] ++ []) := ahead
      obtain ⟨_, found, -, -⟩ := next_lexeme behind atEnd rfl List.not_mem_nil
      rw [read] at found
      cases found
      exact .inl ⟨allBlank, rfl⟩
  | cons first others =>
      rw [text] at ahead scanned
      obtain ⟨spelling, rest, whole, length, lexical, longest⟩ := scan_startsWith scanned
      rw [whole] at ahead scanned
      obtain ⟨kind, _⟩ := lexeme
      subst length
      obtain ⟨_, found, left, stands⟩ := next_lexeme behind ahead scanned lexical.form.on_line
      rw [read] at found
      cases found
      subst left
      refine .inr ⟨lexical.inside, ⟨lexer.rest.takeWhile isBlank, spelling, _⟩, rfl, ?_,
        ⟨ahead.blank, lexical.form.nonempty, lexical, longest, rfl⟩, ?_⟩
      · rw [Piece.text, List.append_assoc]
        exact ahead.whole
      · rwa [Piece.text, ← List.append_assoc]

/-- The tokens of a lexer without a fault are those of the pieces that its text is made of, and the
end of the text behind the last blanks. -/
theorem run_partition (lexer : Lexer) (clean : lexer.run.failure = none) :
    ∀ before, lexer.Behind before → ∃ pieces trailing,
      lexer.rest = joined pieces ++ trailing ∧ (∀ c ∈ trailing, isBlank c = true) ∧
      lexer.run.tokens =
        pieces.map Piece.token ++ [⟨.eof, spanAfter (before ++ lexer.rest) 0⟩] ∧
      ∀ front piece later, pieces = front ++ piece :: later →
        piece.Fits (before ++ joined front) (joined later ++ trailing) := by
  fun_induction Lexer.run lexer with
  | case1 lexer error after read => cases clean
  | case2 lexer token after read ended =>
      intro before behind
      rcases next_reads behind read with ⟨allBlank, rfl⟩ | ⟨inside, -⟩
      · exact ⟨[], lexer.rest, rfl, allBlank, rfl, fun front piece later none => by simp at none⟩
      · contradiction
  | case3 lexer token after read inside reading ih =>
      intro before behind
      rcases next_reads behind read with ⟨-, rfl⟩ | ⟨-, first, rfl, text, fits, stands⟩
      · contradiction
      · obtain ⟨pieces, trailing, whole, blank, tokens, each⟩ := ih clean _ stands
        refine ⟨first :: pieces, trailing, ?_, blank, ?_, fun front piece later split => ?_⟩
        · rw [text, whole, joined, joined, List.flatMap_cons, List.append_assoc]
        · rw [text, ← List.append_assoc]
          exact congrArg (first.token :: ·) tokens
        · cases front with
          | nil =>
              cases split
              rw [whole] at fits
              simpa [joined] using fits
          | cons _ front =>
              cases split
              have later := each front piece later rfl
              simpa [joined] using later

end Lexer

/-- A text without a lexical fault is made of blanks and one lexeme for each token, in order. Each
lexeme is the longest that starts at its place, and the span of its token says which characters it
has, with lines counted from one and columns from zero. -/
theorem tokens_partition {filename source : String}
    (clean : (Lexer.ofText filename source).run.failure = none) : ∃ pieces trailing,
      source.toList = joined pieces ++ trailing ∧ (∀ c ∈ trailing, isBlank c = true) ∧
      (Lexer.ofText filename source).run.tokens =
        pieces.map Piece.token ++ [⟨.eof, spanAfter source.toList 0⟩] ∧
      ∀ front piece later, pieces = front ++ piece :: later →
        piece.Fits (joined front) (joined later ++ trailing) :=
  Lexer.run_partition _ clean [] (Lexer.behind_ofText filename source)

/-- Leading zeros, a pair of operators without blanks, and a carriage return before a newline. -/
def paddedWords : String :=
  "\n x1<=007\t;\r\n  whiley "

set_option maxRecDepth 2048 in
theorem paddedWords_partition :
    (Lexer.ofText "padded" paddedWords).run.failure = none ∧
    ∃ pieces trailing, paddedWords.toList = joined pieces ++ trailing ∧
      (∀ c ∈ trailing, isBlank c = true) ∧
      pieces.map Piece.token = [⟨.ident "x1", ⟨2, 1, 2⟩⟩, ⟨.mark .lessEqual, ⟨2, 3, 2⟩⟩,
        ⟨.int 7, ⟨2, 5, 3⟩⟩, ⟨.mark .semicolon, ⟨2, 9, 1⟩⟩, ⟨.ident "whiley", ⟨3, 2, 6⟩⟩] ∧
      ∀ front piece later, pieces = front ++ piece :: later →
        piece.Fits (joined front) (joined later ++ trailing) := by
  have clean : (Lexer.ofText "padded" paddedWords).run.failure = none := by cbv
  have tokens : (Lexer.ofText "padded" paddedWords).run.tokens =
      [⟨.ident "x1", ⟨2, 1, 2⟩⟩, ⟨.mark .lessEqual, ⟨2, 3, 2⟩⟩, ⟨.int 7, ⟨2, 5, 3⟩⟩,
        ⟨.mark .semicolon, ⟨2, 9, 1⟩⟩, ⟨.ident "whiley", ⟨3, 2, 6⟩⟩] ++ [⟨.eof, ⟨3, 9, 0⟩⟩] := by
    cbv
  obtain ⟨pieces, trailing, whole, blank, same, each⟩ := tokens_partition clean
  exact ⟨clean, pieces, trailing, whole, blank,
    List.append_inj_left' (same.symm.trans tokens) rfl, each⟩

end ThreeAddress

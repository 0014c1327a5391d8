import ThreeAddress.Text.Blank
import ThreeAddress.Text.Letter
import ThreeAddress.Token.Kind

namespace ThreeAddress

open ThreeAddress.Text

/-!
# The first token of a text

`scan` reads one token from the front of a text that does not start with a
blank: the longest number, word or operator there. It looks one character past a
number, which must not run into a word, a point or an opening bracket. The main
lemma is `scan_length_pos`: every token but the end of the text has characters.
-/

inductive LexicalFault where
  | strayCharacter (c : Char)
  | malformedNumber
  | intOutOfRange
deriving DecidableEq

def LexicalFault.message : LexicalFault → String
  | .strayCharacter c => "unexpected token '" ++ c.toString ++ "'"
  | .malformedNumber => "invalid decimal literal"
  | .intOutOfRange => "integer literal out of range"

/-- A token at the front of a text, with the number of its characters. -/
structure Lexeme where
  kind : Kind
  length : Nat
deriving DecidableEq

/-- A fault at the front of a text, with the number of characters it is about. -/
structure Misfit where
  fault : LexicalFault
  length : Nat
deriving DecidableEq

namespace Scan

def isOperator (c : Char) : Bool :=
  ['<', '>', '=', '!', '&', '|', '+', '-', '*', '/'].contains c

/-- Whether a number may end before this text. -/
def endsNumber : List Char → Bool
  | [] => true
  | c :: _ => isOperator c || [';', ')', '}', ']'].contains c || isBlank c

/-- Digits, at most one point among them. -/
def number (text : List Char) : Except Misfit Lexeme :=
  let whole := text.takeWhile Char.isDigit
  match text.dropWhile Char.isDigit with
  | '.' :: afterPoint =>
      let fraction := afterPoint.takeWhile Char.isDigit
      let length := whole.length + 1 + fraction.length
      if endsNumber (afterPoint.dropWhile Char.isDigit) then
        .ok ⟨.real (.ofDigits false whole fraction 0), length⟩
      else .error ⟨.malformedNumber, length + 1⟩
  | after =>
      let value := Decimal.Binary64.natOfDigits whole
      if !endsNumber after then .error ⟨.malformedNumber, whole.length + 1⟩
      else if intMax < value then .error ⟨.intOutOfRange, whole.length⟩
      else .ok ⟨.int value, whole.length⟩

/-- A letter and the letters and numerals after it. -/
def word (text : List Char) : Lexeme :=
  let letters := text.takeWhile isWordPart
  ⟨.ofWord (String.ofList letters), letters.length⟩

/-- An operator of two characters if there is one, else of one character. -/
def operator (first : Char) (rest : List Char) : Except Misfit Lexeme :=
  match rest.head?.bind (Mark.pair? first) with
  | some mark => .ok ⟨.mark mark, 2⟩
  | none =>
      match Mark.operator? first with
      | some mark => .ok ⟨.mark mark, 1⟩
      | none => .error ⟨.strayCharacter first, 1⟩

end Scan

def scan : List Char → Except Misfit Lexeme
  | [] => .ok ⟨.eof, 0⟩
  | c :: rest =>
      if c.isDigit then Scan.number (c :: rest)
      else if isLetter c then .ok (Scan.word (c :: rest))
      else if Scan.isOperator c then Scan.operator c rest
      else
        match Mark.punctuation? c with
        | some mark => .ok ⟨.mark mark, 1⟩
        | none => .error ⟨.strayCharacter c, 1⟩

namespace Scan

theorem number_length_pos {c : Char} {rest : List Char} {lexeme : Lexeme}
    (digit : c.isDigit = true) (scanned : number (c :: rest) = .ok lexeme) :
    0 < lexeme.length := by
  unfold number at scanned
  simp only [List.takeWhile_cons, digit, if_true] at scanned
  split at scanned
  · split at scanned
    · cases scanned
      simp only [List.length_cons]
      omega
    · contradiction
  · split at scanned
    · contradiction
    · split at scanned
      · contradiction
      · cases scanned
        simp only [List.length_cons]
        omega

theorem word_length_pos {c : Char} {rest : List Char} (letter : isLetter c = true) :
    0 < (word (c :: rest)).length := by
  simp [word, isWordPart_of_isLetter letter]

theorem operator_length_pos {c : Char} {rest : List Char} {lexeme : Lexeme}
    (scanned : operator c rest = .ok lexeme) : 0 < lexeme.length := by
  unfold operator at scanned
  split at scanned
  · cases scanned
    exact Nat.succ_pos _
  · split at scanned
    · cases scanned
      exact Nat.succ_pos _
    · contradiction

end Scan

/-- Only the end of the text is a token without characters. -/
theorem scan_length_pos {text : List Char} {lexeme : Lexeme}
    (scanned : scan text = .ok lexeme) (inside : lexeme.kind ≠ .eof) : 0 < lexeme.length := by
  cases text with
  | nil =>
      cases scanned
      contradiction
  | cons c rest =>
      rw [scan] at scanned
      split at scanned
      · next digit => exact Scan.number_length_pos digit scanned
      · split at scanned
        · next letter =>
            cases scanned
            exact Scan.word_length_pos letter
        · split at scanned
          · exact Scan.operator_length_pos scanned
          · split at scanned
            · cases scanned
              exact Nat.succ_pos _
            · contradiction

end ThreeAddress

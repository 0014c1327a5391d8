import ThreeAddress.Decimal.Text
import ThreeAddress.Source.Span
import ThreeAddress.Types

namespace ThreeAddress

inductive Keyword where
  | trueWord
  | falseWord
  | ifWord
  | elseWord
  | whileWord
  | doWord
  | breakWord
deriving DecidableEq, Repr

def Keyword.text : Keyword → String
  | .trueWord => "true"
  | .falseWord => "false"
  | .ifWord => "if"
  | .elseWord => "else"
  | .whileWord => "while"
  | .doWord => "do"
  | .breakWord => "break"

inductive Mark where
  | equalEqual
  | notEqual
  | less
  | lessEqual
  | greater
  | greaterEqual
  | andAnd
  | orOr
  | plus
  | minus
  | star
  | slash
  | assign
  | bang
  | semicolon
  | openParen
  | closeParen
  | openBrace
  | closeBrace
  | openBracket
  | closeBracket
deriving DecidableEq, Repr

namespace Mark

def text : Mark → String
  | .equalEqual => "=="
  | .notEqual => "!="
  | .less => "<"
  | .lessEqual => "<="
  | .greater => ">"
  | .greaterEqual => ">="
  | .andAnd => "&&"
  | .orOr => "||"
  | .plus => "+"
  | .minus => "-"
  | .star => "*"
  | .slash => "/"
  | .assign => "="
  | .bang => "!"
  | .semicolon => ";"
  | .openParen => "("
  | .closeParen => ")"
  | .openBrace => "\x7b"
  | .closeBrace => "\x7d"
  | .openBracket => "["
  | .closeBracket => "]"

/-- The operators of two characters. -/
def pair? : Char → Char → Option Mark
  | '=', '=' => some .equalEqual
  | '!', '=' => some .notEqual
  | '<', '=' => some .lessEqual
  | '>', '=' => some .greaterEqual
  | '&', '&' => some .andAnd
  | '|', '|' => some .orOr
  | _, _ => none

/-- The operators of one character. An ampersand and a bar are none. -/
def operator? : Char → Option Mark
  | '<' => some .less
  | '>' => some .greater
  | '=' => some .assign
  | '!' => some .bang
  | '+' => some .plus
  | '-' => some .minus
  | '*' => some .star
  | '/' => some .slash
  | _ => none

def punctuation? : Char → Option Mark
  | ';' => some .semicolon
  | '(' => some .openParen
  | ')' => some .closeParen
  | '{' => some .openBrace
  | '}' => some .closeBrace
  | '[' => some .openBracket
  | ']' => some .closeBracket
  | _ => none

end Mark

inductive Kind where
  | eof
  | int (value : Nat)
  | real (value : Decimal.Binary64)
  | ident (name : String)
  | basic (type : BasicType)
  | keyword (word : Keyword)
  | mark (sign : Mark)
deriving DecidableEq

namespace Kind

/-- The text of a token in a message, and its spelling up to the form of a literal. -/
def text : Kind → String
  | .eof => "EOF"
  | .int value => toString value
  | .real value => value.text
  | .ident name => name
  | .basic type => type.text
  | .keyword word => word.text
  | .mark sign => sign.text

def reserved : List Kind :=
  [.keyword .trueWord, .keyword .falseWord,
   .basic .int, .basic .float, .basic .char, .basic .bool,
   .keyword .ifWord, .keyword .elseWord, .keyword .whileWord, .keyword .doWord,
   .keyword .breakWord]

/-- What a word is: the reserved word of that spelling, or else an identifier. -/
def ofWord (word : String) : Kind :=
  (reserved.find? (·.text = word)).getD (.ident word)

/-- Equality up to what literals, identifiers and basic types carry. -/
def sameSort : Kind → Kind → Bool
  | .eof, .eof => true
  | .int _, .int _ => true
  | .real _, .real _ => true
  | .ident _, .ident _ => true
  | .basic _, .basic _ => true
  | .keyword first, .keyword second => first == second
  | .mark first, .mark second => first == second
  | _, _ => false

/-- Equality of kinds with what they carry; reals are compared by value. -/
def equal : Kind → Kind → Bool
  | .real first, .real second => first.equal second
  | first, second => first == second

end Kind

structure Token where
  kind : Kind
  span : Source.Span
deriving DecidableEq

def Token.line (token : Token) : Nat :=
  token.span.line

end ThreeAddress

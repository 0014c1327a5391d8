import ThreeAddress.Code.Lower
import ThreeAddress.CompileError
import ThreeAddress.Grammar.Statement

namespace ThreeAddress

/-- The excerpt for a fault at the first of the unread tokens. It shows what had been read
of the source when that token was. -/
def Lexer.Reading.excerpt (reading : Lexer.Reading) (fault : SyntaxFault)
    (unread : List Token) : Source.Excerpt :=
  match reading.steps[reading.steps.length - unread.length]? with
  | some step =>
      { step.after with missingSemicolon := decide (fault = SyntaxFault.missingSemicolon) }.excerpt.1
  | none => {}

/-- Turns a failure to read a program into an error. A list of tokens breaks off where a
lexical fault stands. -/
def Lexer.Reading.error (reading : Lexer.Reading) : Grammar.Failure → CompileError
  | .unexpected fault unread => .syntactic fault (reading.excerpt fault unread)
  | .brokenOff =>
      match reading.failure with
      | some error => .lexical error
      | none => .syntactic .endOfFile {}

namespace Program

/-- Reads a text. A lexical fault counts only once a token is needed that it hides. -/
def parse (filename source : String) : Except CompileError Program :=
  let reading := (Lexer.ofText filename source).run
  (Grammar.program reading.tokens).mapError reading.error

def ofSource (filename source : String) : Except CompileError Program := do
  let program ← parse filename source
  match program.check with
  | (program, .ok ()) => return program
  | (_, .error error) => throw (.ofCheck error)

end Program

/-- Compiles a source text with the names that earlier programs have left. -/
def compileWith (names : NameSupply) (filename source : String) :
    Except CompileError (List Instr) × NameSupply :=
  match Program.ofSource filename source with
  | .ok program =>
      let (result, names) := program.lower names
      (result.mapError .internal, names)
  | .error error => (.error error, names)

/-- Compiles a source text. The file name appears in diagnostics only. -/
def compile (filename source : String) : Except CompileError (List Instr) :=
  (compileWith {} filename source).1

end ThreeAddress

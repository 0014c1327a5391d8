import ThreeAddress.Grammar.Fault
import ThreeAddress.Report.Diagnostic
import ThreeAddress.Token.Lexer
import ThreeAddress.Typing.Check

namespace ThreeAddress

inductive CompileError where
  | lexical (error : LexicalError)
  | syntactic (fault : SyntaxFault) (excerpt : Source.Excerpt)
  | typing (fault : TypeFault) (line : Nat)
  | internal (fault : InternalFault)
  | inaccessible (path reason : String)

namespace CompileError

def ofCheck : CheckError → CompileError
  | .broken fault line => .typing fault line
  | .internal fault => .internal fault

def diagnostic : CompileError → Diagnostic
  | .lexical error => .lexical error.fault.message error.excerpt
  | .syntactic fault excerpt => .syntactic fault.message excerpt
  | .typing fault line => .typing fault.message line
  | .internal fault => .internal fault.message
  | .inaccessible path reason => .inaccessible path reason

def message (error : CompileError) : String :=
  error.diagnostic.message

def report (error : CompileError) (filename source : String) : String :=
  error.diagnostic.report filename source

end CompileError

end ThreeAddress

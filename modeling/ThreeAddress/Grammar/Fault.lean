import ThreeAddress.Token.Kind

namespace ThreeAddress

inductive SyntaxFault where
  | endOfFile
  | unclosedBlock
  | missingSemicolon
  | expected (wanted found : Kind)
  | noIdentifier (found : Kind)
  | noArraySize (found : Kind)
  | noFactor (found : Kind)
  | noStatement (found : Kind)
  | redeclared (name : String)
  | repeatedDimensions (name : String)
  | arrayTooLarge (name : String)
  | undeclared (name : String)
  | strayBreak
deriving DecidableEq

namespace SyntaxFault

/-- The fault of a token that stands in the place of another kind. -/
def mismatch (wanted found : Kind) : SyntaxFault :=
  if found = .eof then .endOfFile
  else if wanted = .mark .semicolon then .missingSemicolon
  else .expected wanted found

/-- The fault of a token that stands in the place of a name. -/
def mismatchedName (found : Kind) : SyntaxFault :=
  if found = .eof then .endOfFile else .noIdentifier found

def message : SyntaxFault → String
  | .endOfFile => "unexpected end of file"
  | .unclosedBlock => "unexpected end of file; did you miss a closing brace?"
  | .missingSemicolon => "expected ';' at end of statement"
  | .expected wanted found => "expected '" ++ wanted.text ++ "' instead of '" ++ found.text ++ "'"
  | .noIdentifier found => "expected identifier instead of '" ++ found.text ++ "'"
  | .noArraySize found => "expected integer array size instead of '" ++ found.text ++ "'"
  | .noFactor found => "expected factor instead of '" ++ found.text ++ "'"
  | .noStatement found => "invalid start of a statement '" ++ found.text ++ "'"
  | .redeclared name => "'" ++ name ++ "' is already declared in this block"
  | .repeatedDimensions name => "array dimensions given twice for '" ++ name ++ "'"
  | .arrayTooLarge name => "array '" ++ name ++ "' is too large"
  | .undeclared name => "'" ++ name ++ "' is not declared"
  | .strayBreak => "'break' outside of loop"

end SyntaxFault

end ThreeAddress

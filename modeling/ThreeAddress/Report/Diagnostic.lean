import ThreeAddress.Source.Span
import ThreeAddress.Text.Lines

namespace ThreeAddress

/-- A fault in words, with its place if it has one. -/
inductive Diagnostic where
  | lexical (message : String) (excerpt : Source.Excerpt)
  | syntactic (message : String) (excerpt : Source.Excerpt)
  | typing (message : String) (line : Nat)
  | internal (message : String)
  | inaccessible (path reason : String)
deriving DecidableEq

namespace Diagnostic

/-- The message with the kind of fault before it. -/
def display : Diagnostic → String
  | .lexical message _ => "LexicalError: " ++ message
  | .syntactic message _ => "SyntaxError: " ++ message
  | .typing message _ => "TypeError: " ++ message
  | .internal message => "InternalError: " ++ message
  | .inaccessible path reason => "could not access '" ++ path ++ "': " ++ reason

/-- The bare message of a fault in the source, the whole display of any other. -/
def message : Diagnostic → String
  | .lexical message _ | .syntactic message _ | .typing message _ => message
  | other => other.display

def excerpt? : Diagnostic → Option Source.Excerpt
  | .lexical _ excerpt | .syntactic _ excerpt => some excerpt
  | _ => none

def line? : Diagnostic → Option Nat
  | .lexical _ excerpt | .syntactic _ excerpt => some excerpt.line
  | .typing _ line => some line
  | .internal _ | .inaccessible _ _ => none

def repeated (count : Nat) (c : Char) : String :=
  String.ofList (List.replicate count c)

/-- The place of an excerpt, its line, and carets under the characters at fault. -/
def excerptReport (excerpt : Source.Excerpt) : String :=
  "  File \"" ++ excerpt.filename ++ "\", line " ++ toString excerpt.line ++
    " position " ++ toString excerpt.column ++ "\n" ++
  "    " ++ excerpt.lineText ++ "\n" ++
  "    " ++ repeated excerpt.column ' ' ++ repeated (max excerpt.length 1) '^' ++ "\n"

def margin : Nat := 2

/-- A line of the source with its number, and an arrow if it is the one at fault. -/
def numberedLine (target : Nat) (line : String × Nat) : String :=
  (if line.2 = target then "---->" else "     ") ++ " " ++ toString (line.2 + 1) ++ " " ++
    line.1 ++ "\n"

/-- The lines around the one with this index, as far as the source has them. -/
def window (target : Nat) (lines : List String) : List (String × Nat) :=
  (lines.zipIdx.take (target + margin + 1)).drop (target - margin)

/-- The line at fault among its neighbours, and a blank line. -/
def lineReport (filename source : String) (line : Nat) : String :=
  let target := line - 1
  "  File \"" ++ filename ++ "\", line " ++ toString line ++ "\n" ++
    String.join ((window target (Text.lines source)).map (numberedLine target)) ++ "\n"

/-- The report of a fault, with the part of the source that it is about. -/
def report (filename source : String) (diagnostic : Diagnostic) : String :=
  match diagnostic with
  | .lexical _ excerpt | .syntactic _ excerpt => excerptReport excerpt ++ diagnostic.display
  | .typing _ line => lineReport filename source line ++ diagnostic.display
  | .internal _ | .inaccessible _ _ => diagnostic.display

end Diagnostic

end ThreeAddress

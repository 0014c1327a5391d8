import ThreeAddress.Code.Instr

namespace ThreeAddress.Listing

/-!
# Listings

Code is listed one instruction to a line, in a column behind the labels. A label
shares the line of the instruction after it; before another label and at the end
it has a line of its own.
-/

def labelWidth : Nat := 7

/-- A text with blanks after it, up to this many characters in all. -/
def padEnd (width : Nat) (text : String) : String :=
  text ++ String.ofList (List.replicate (width - text.length) ' ')

def labelText : Option Label → String
  | some label => (Instr.label label).text
  | none => ""

/-- The lines of a listing, given the label that still waits for its instruction. -/
def linesFrom : Option Label → List Instr → List String
  | none, [] => []
  | some label, [] => [(Instr.label label).text]
  | none, .label next :: rest => linesFrom (some next) rest
  | some label, .label next :: rest => (Instr.label label).text :: linesFrom (some next) rest
  | waiting, instr :: rest =>
      (padEnd labelWidth (labelText waiting) ++ " " ++ instr.text) :: linesFrom none rest

def lines (code : List Instr) : List String :=
  linesFrom none code

/-- The listing of code. Every line ends with a newline. -/
def render (code : List Instr) : String :=
  String.join ((lines code).map (· ++ "\n"))

end ThreeAddress.Listing

import ThreeAddress.Expr

namespace ThreeAddress

structure Label where
  number : Nat
deriving DecidableEq, Repr

def Label.text (label : Label) : String :=
  "L" ++ toString label.number

/-- Labels stand in the code themselves, and jumps name them by number. -/
inductive Instr where
  | assign (target value : Expr)
  | label (label : Label)
  | goto (target : Label)
  | ifTrue (condition : Expr) (target : Label)
  | ifFalse (condition : Expr) (target : Label)

namespace Instr

/-- Where control may go instead of the next instruction. -/
def jumpTarget? : Instr → Option Label
  | .goto target | .ifTrue _ target | .ifFalse _ target => some target
  | .assign _ _ | .label _ => none

def text : Instr → String
  | .assign target value => target.text ++ " = " ++ value.text
  | .label here => here.text ++ ":"
  | .goto target => "goto " ++ target.text
  | .ifTrue condition target => "if " ++ condition.text ++ " goto " ++ target.text
  | .ifFalse condition target => "iffalse " ++ condition.text ++ " goto " ++ target.text

end Instr

end ThreeAddress

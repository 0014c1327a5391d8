import ThreeAddress.Code.Names
import ThreeAddress.Program

namespace ThreeAddress

/-!
# Lowering

A typed program becomes a list of instructions with at most one operator each,
signs apart. An array element is addressed by its byte offset, counted
row-major: every index is scaled by the stride of its dimension, the terms are
added from the outermost inwards, and the sum is scaled by the width of an
element.
-/

open Lowering

variable {N : Type} [Counter N]

namespace Expr

/-- Puts the value of an expression into a fresh temporary, and gives the instruction that
does so with the temporary. -/
def materialize (expr : Expr) : Lowering N (List Instr × Expr) := do
  let temp := .temp expr.note (← freshTemp)
  return ([.assign temp expr], temp)

/-- Leaves an expression as it is, unless it has to be a single operand. -/
def settle (single : Bool) (expr : Expr) : Lowering N (List Instr × Expr) :=
  if single then expr.materialize else return ([], expr)

def addressNote (line : Nat) : Note :=
  { line, type := some .int }

/-- The term that an index adds to an offset in elements. A stride of one leaves the index
itself. -/
def addressTerm (declared : DeclaredType) (name : String) (line dimension : Nat) (index : Expr) :
    Lowering N (List Instr × Expr) :=
  match declared.stride dimension with
  | none => throw (.strideOverflow name)
  | some stride =>
      if stride = 1 then return ([], index)
      else if intMax < stride then throw (.literalTooLarge stride)
      else
        let note := addressNote line
        materialize (.binary note .mul index (.int note stride))

mutual

/-- Flattens an expression: the instructions that come before its use, and what is used.
If it has to be single, that is a temporary, a literal or a variable, up to signs;
otherwise it may also be one operator on such operands, or an array element. -/
def reduce (typeOf? : String → Option DeclaredType) (single : Bool) :
    Expr → Lowering N (List Instr × Expr)
  | .binary note op left right => do
      let (leftCode, left) ← left.reduce typeOf? true
      let (rightCode, right) ← right.reduce typeOf? true
      let (code, result) ← settle single (.binary note op left right)
      return (leftCode ++ rightCode ++ code, result)
  | .unary note op operand => do
      let (code, operand) ← operand.reduce typeOf? single
      return (code, .unary note op operand)
  | .paren note inner => do
      let (code, inner) ← inner.reduce typeOf? single
      return (code, if inner.isBinary then .paren note inner else inner)
  | .loc note id [] => return ([], .loc note id [])
  | .loc note id (first :: rest) =>
      match typeOf? id.name with
      | none => throw (.noSymbol id.name)
      | some declared => do
          let (firstCode, first) ← first.reduce typeOf? true
          let (termCode, term) ← addressTerm declared id.name note.line 0 first
          let (sumCode, sum) ← addTerms typeOf? declared id.name note.line 1 term rest
          let scale := .int (addressNote note.line) declared.basic.width
          let (offsetCode, offset) ←
            materialize (.binary (addressNote note.line) .mul sum scale)
          let (code, result) ← settle single (.loc note id [offset])
          return (firstCode ++ termCode ++ sumCode ++ offsetCode ++ code, result)
  | .int note value => return ([], .int note value)
  | .real note value => return ([], .real note value)
  | .bool note value => return ([], .bool note value)
  | .temp note number => return ([], .temp note number)

/-- Adds the terms of the indices from this dimension on to a sum. -/
def addTerms (typeOf? : String → Option DeclaredType) (declared : DeclaredType)
    (name : String) (line dimension : Nat) (sum : Expr) :
    List Expr → Lowering N (List Instr × Expr)
  | [] => return ([], sum)
  | index :: rest => do
      let (indexCode, index) ← index.reduce typeOf? true
      let (termCode, term) ← addressTerm declared name line dimension index
      let (sumCode, sum) ← materialize (.binary (addressNote line) .add sum term)
      let (restCode, total) ← addTerms typeOf? declared name line (dimension + 1) sum rest
      return (indexCode ++ termCode ++ sumCode ++ restCode, total)

end

end Expr

namespace Stmt

mutual

/-- The code of a statement in a scope. A break jumps to the label behind the innermost
loop. A loop on the literal `true` has no test. -/
def lower (scopes : Scopes) (scope : Nat) (exit? : Option Label) :
    Stmt → Lowering N (List Instr)
  | .assign target value _ => do
      let toElement := target.isAccess
      let (targetCode, target) ← target.reduce (scopes.typeOf? scope) false
      let (valueCode, value) ← value.reduce (scopes.typeOf? scope) toElement
      return targetCode ++ valueCode ++ [.assign target value]
  | .ifThen condition body => do
      let (testCode, test) ← condition.reduce (scopes.typeOf? scope) false
      let behind ← freshLabel
      let bodyCode ← body.lower scopes scope exit?
      return testCode ++ [.ifFalse test behind] ++ bodyCode ++ [.label behind]
  | .ifThenElse condition body otherwise => do
      let (testCode, test) ← condition.reduce (scopes.typeOf? scope) false
      let elseward ← freshLabel
      let bodyCode ← body.lower scopes scope exit?
      let behind ← freshLabel
      let elseCode ← otherwise.lower scopes scope exit?
      return testCode ++ [.ifFalse test elseward] ++ bodyCode ++
        [.goto behind, .label elseward] ++ elseCode ++ [.label behind]
  | .whileDo condition body => do
      let start ← freshLabel
      let behind ← freshLabel
      let testCode ←
        if condition.isTrue then pure []
        else do
          let (testCode, test) ← condition.reduce (scopes.typeOf? scope) false
          pure (testCode ++ [.ifFalse test behind])
      let bodyCode ← body.lower scopes scope (some behind)
      return [.label start] ++ testCode ++ bodyCode ++ [.goto start, .label behind]
  | .doWhile body condition => do
      let start ← freshLabel
      let behind ← freshLabel
      let bodyCode ← body.lower scopes scope (some behind)
      let (testCode, test) ← condition.reduce (scopes.typeOf? scope) false
      return [.label start] ++ bodyCode ++ testCode ++ [.ifTrue test start, .label behind]
  | .breakLoop =>
      match exit? with
      | some behind => return [.goto behind]
      | none => throw .strayBreak
  | .block inner _ body => lowerAll scopes inner exit? body

def lowerAll (scopes : Scopes) (scope : Nat) (exit? : Option Label) :
    List Stmt → Lowering N (List Instr)
  | [] => return []
  | first :: rest => do
      let firstCode ← first.lower scopes scope exit?
      let restCode ← lowerAll scopes scope exit? rest
      return firstCode ++ restCode

end

end Stmt

/-- The code of a program, and the names left to other programs. -/
def Program.lowerFrom (program : Program) (names : Names N) :
    Except InternalFault (List Instr) × Names N :=
  (Stmt.lowerAll program.scopes program.block.scope none program.block.body).run.run names

def Program.lower (program : Program) (names : NameSupply) :
    Except InternalFault (List Instr) × NameSupply :=
  program.lowerFrom names

/-- The counters that several programs share, in words of 32 bits. -/
structure NameContext where
  temps : UInt32 := 0
  labels : UInt32 := 0
deriving DecidableEq

def NameContext.names (context : NameContext) : Names WordCounter :=
  ⟨{ word := context.temps }, { word := context.labels }⟩

/-- What a build does where a counter has no next word: the run stops there and gives no
result, or the counter goes on at zero. -/
inductive Overflow where
  | stops
  | wraps
deriving DecidableEq

/-- The code of a program with the names of a context, and the context that it leaves. -/
def Program.generate (program : Program) (overflow : Overflow) (context : NameContext) :
    Option (Except InternalFault (List Instr) × NameContext) :=
  let (result, names) := program.lowerFrom context.names
  if overflow = .stops ∧ (names.temps.overflowed || names.labels.overflowed) then none
  else some (result, ⟨names.temps.word, names.labels.word⟩)

end ThreeAddress

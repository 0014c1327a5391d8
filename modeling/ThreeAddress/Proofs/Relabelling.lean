import Mathlib.Logic.Function.Basic
import ThreeAddress.Code.Lower
import ThreeAddress.Grammar.Statement
import ThreeAddress.Typing.Check

namespace ThreeAddress

/-!
# Relabelling

The spelling of names, the numbers of lines, and the numbers at which temporaries and labels
start say nothing about what a program does. A relabelling replaces them: names one to one,
lines in any way, temporaries and labels by a shift. It applies to tokens, trees, scopes, faults
and code alike, and the passes should not notice it.
-/

structure Relabelling where
  name : String → String
  line : Nat → Nat
  /-- What is added to the number of a temporary. -/
  temps : Nat
  /-- What is added to the number of a label. -/
  labels : Nat
  name_injective : Function.Injective name

namespace Relabelling

variable (new : Relabelling)

def kind : Kind → Kind
  | .ident name => .ident (new.name name)
  | other => other

/-- A token keeps its line only. -/
def token (token : Token) : Token :=
  ⟨new.kind token.kind, { line := new.line token.line }⟩

def ident (id : Ident) : Ident :=
  ⟨new.name id.name, new.line id.line⟩

def declaration (declaration : Declaration) : Declaration :=
  { declaration with id := new.ident declaration.id }

def scope (scope : Scope) : Scope :=
  { scope with declarations := scope.declarations.map new.declaration }

def scopes (scopes : Scopes) : Scopes :=
  ⟨scopes.all.map new.scope⟩

def note (note : Note) : Note :=
  { note with line := new.line note.line }

mutual

def expr : Expr → Expr
  | .binary note op left right => .binary (new.note note) op (expr left) (expr right)
  | .unary note op operand => .unary (new.note note) op (expr operand)
  | .paren note inner => .paren (new.note note) (expr inner)
  | .loc note id indices => .loc (new.note note) (new.ident id) (exprs indices)
  | .int note value => .int (new.note note) value
  | .real note value => .real (new.note note) value
  | .bool note value => .bool (new.note note) value
  | .temp note number => .temp (new.note note) (number + new.temps)

def exprs : List Expr → List Expr
  | [] => []
  | index :: rest => expr index :: exprs rest

end

mutual

def stmt : Stmt → Stmt
  | .assign target value line => .assign (new.expr target) (new.expr value) (new.line line)
  | .ifThen condition body => .ifThen (new.expr condition) (stmt body)
  | .ifThenElse condition body otherwise =>
      .ifThenElse (new.expr condition) (stmt body) (stmt otherwise)
  | .whileDo condition body => .whileDo (new.expr condition) (stmt body)
  | .doWhile body condition => .doWhile (stmt body) (new.expr condition)
  | .breakLoop => .breakLoop
  | .block scope declarations body =>
      .block scope (declarations.map new.declaration) (stmts body)

def stmts : List Stmt → List Stmt
  | [] => []
  | first :: rest => stmt first :: stmts rest

end

def block (block : Block) : Block where
  scope := block.scope
  declarations := block.declarations.map new.declaration
  body := new.stmts block.body

def program (program : Program) : Program where
  block := new.block program.block
  scopes := new.scopes program.scopes

def syntaxFault : SyntaxFault → SyntaxFault
  | .expected wanted found => .expected (new.kind wanted) (new.kind found)
  | .noIdentifier found => .noIdentifier (new.kind found)
  | .noArraySize found => .noArraySize (new.kind found)
  | .noFactor found => .noFactor (new.kind found)
  | .noStatement found => .noStatement (new.kind found)
  | .redeclared name => .redeclared (new.name name)
  | .repeatedDimensions name => .repeatedDimensions (new.name name)
  | .arrayTooLarge name => .arrayTooLarge (new.name name)
  | .undeclared name => .undeclared (new.name name)
  | .endOfFile => .endOfFile
  | .unclosedBlock => .unclosedBlock
  | .missingSemicolon => .missingSemicolon
  | .strayBreak => .strayBreak

def failure : Grammar.Failure → Grammar.Failure
  | .unexpected fault unread => .unexpected (new.syntaxFault fault) (unread.map new.token)
  | .brokenOff => .brokenOff

def typeFault : TypeFault → TypeFault
  | .undeclared name => .undeclared (new.name name)
  | .notAnArray name type => .notAnArray (new.name name) type
  | .wrongDimensions name given declared => .wrongDimensions (new.name name) given declared
  | other => other

/-- Temporaries are named in the faults of a check only, which comes before their numbers are
given out. -/
def internalFault : InternalFault → InternalFault
  | .noSymbol name => .noSymbol (new.name name)
  | .strideOverflow name => .strideOverflow (new.name name)
  | .untypedTemporary number => .untypedTemporary number
  | .strayBreak => .strayBreak
  | .literalTooLarge value => .literalTooLarge value

def checkError : CheckError → CheckError
  | .broken fault line => .broken (new.typeFault fault) (new.line line)
  | .internal fault => .internal (new.internalFault fault)

def label (label : Label) : Label :=
  ⟨label.number + new.labels⟩

def instr : Instr → Instr
  | .assign target value => .assign (new.expr target) (new.expr value)
  | .label here => .label (new.label here)
  | .goto target => .goto (new.label target)
  | .ifTrue condition target => .ifTrue (new.expr condition) (new.label target)
  | .ifFalse condition target => .ifFalse (new.expr condition) (new.label target)

def names (names : NameSupply) : NameSupply where
  temps := names.temps + new.temps
  labels := names.labels + new.labels

variable {new : Relabelling}

theorem kind_injective : Function.Injective new.kind := by
  intro first second same
  cases first <;> cases second <;> simp_all [kind, new.name_injective.eq_iff]

/-- A kind that is no name stands where it stood. -/
theorem kind_eq_iff {wanted found : Kind} (fixed : new.kind wanted = wanted) :
    new.kind found = wanted ↔ found = wanted := by
  constructor
  · intro same
    exact kind_injective (same.trans fixed.symm)
  · rintro rfl
    exact fixed

theorem ofKind?_kind (kind : Kind) : BinaryOp.ofKind? (new.kind kind) = BinaryOp.ofKind? kind := by
  cases kind <;> rfl

theorem syntaxFault_mismatch {wanted found : Kind} (fixed : new.kind wanted = wanted) :
    new.syntaxFault (.mismatch wanted found) = .mismatch wanted (new.kind found) := by
  have ended : new.kind found = .eof ↔ found = .eof := kind_eq_iff rfl
  simp only [SyntaxFault.mismatch, ended]
  split
  · rfl
  · split
    · rfl
    · rw [syntaxFault, fixed]

theorem syntaxFault_mismatchedName (found : Kind) :
    new.syntaxFault (.mismatchedName found) = .mismatchedName (new.kind found) := by
  have ended : new.kind found = .eof ↔ found = .eof := kind_eq_iff rfl
  simp only [SyntaxFault.mismatchedName, ended]
  split <;> rfl

theorem expr_note (expr : Expr) : (new.expr expr).note = new.note expr.note := by
  cases expr <;> rfl

theorem expr_line (expr : Expr) : (new.expr expr).line = new.line expr.line := by
  rw [Expr.line, expr_note, note, Expr.line]

theorem expr_withType (type : ValueType) (expr : Expr) :
    new.expr (expr.withType type) = (new.expr expr).withType type := by
  cases expr <;> rfl

theorem expr_isBinary (expr : Expr) : (new.expr expr).isBinary = expr.isBinary := by
  cases expr <;> rfl

theorem expr_isTrue (expr : Expr) : (new.expr expr).isTrue = expr.isTrue := by
  cases expr <;> rfl

theorem expr_isAccess (expr : Expr) : (new.expr expr).isAccess = expr.isAccess := by
  match expr with
  | .loc _ _ [] | .loc _ _ (_ :: _) => rfl
  | .binary _ _ _ _ | .unary _ _ _ | .paren _ _ | .int _ _ | .real _ _ | .bool _ _ | .temp _ _ =>
      rfl

theorem length_exprs (indices : List Expr) : (new.exprs indices).length = indices.length := by
  induction indices with
  | nil => rfl
  | cons index rest ih => rw [exprs, List.length_cons, ih, List.length_cons]

theorem expr_extend (expr : Expr) (line : Nat) (op : BinaryOp) (operand : Expr) :
    new.expr (expr.extend line op operand) =
      (new.expr expr).extend (new.line line) op (new.expr operand) := by
  match expr with
  | .binary note outer left right =>
      rw [Relabelling.expr, Expr.extend, Expr.extend]
      split
      · rw [Relabelling.expr, expr_extend right]
      · rfl
  | .unary _ _ _ | .paren _ _ | .loc _ _ _ | .int _ _ | .real _ _ | .bool _ _ | .temp _ _ => rfl

variable {all : Scopes} {here : Nat}

theorem find?_scope (scope : Scope) (name : String) :
    (new.scope scope).find? (new.name name) = (scope.find? name).map new.declaration := by
  have alike : (fun declaration : Declaration => decide (declaration.name = new.name name)) ∘
      new.declaration = fun declaration => decide (declaration.name = name) := by
    funext declaration
    exact decide_eq_decide.mpr new.name_injective.eq_iff
  rw [Scope.find?, Relabelling.scope, List.find?_map, alike, Scope.find?]

theorem count_scopes (all : Scopes) : (new.scopes all).count = all.count := by
  rw [Scopes.count, scopes, Array.size_map, Scopes.count]

theorem scopes_push (parent : Option Nat) :
    new.scopes (all.push parent) = (new.scopes all).push parent := by
  rw [Scopes.push, scopes, Array.map_push, scopes, Scopes.push]
  rfl

theorem declaredIn_scopes (name : String) :
    (new.scopes all).declaredIn here (new.name name) = all.declaredIn here name := by
  rw [Scopes.declaredIn, Scopes.declaredIn, scopes, Array.getElem?_map]
  cases all.all[here]? with
  | none => rfl
  | some scope => simp [find?_scope]

theorem canDeclare_scopes (declaration : Declaration) :
    (new.scopes all).canDeclare here (new.declaration declaration) =
      all.canDeclare here declaration := by
  rw [Scopes.canDeclare, Scopes.canDeclare, count_scopes]
  congr 2
  exact declaredIn_scopes declaration.name

theorem scopes_declare (declaration : Declaration) :
    new.scopes (all.declare here declaration) =
      (new.scopes all).declare here (new.declaration declaration) := by
  have add (scope : Scope) : new.scope (scope.add declaration) =
      (new.scope scope).add (new.declaration declaration) := by
    simp [Relabelling.scope, Scope.add]
  rw [Scopes.declare, Scopes.declare, canDeclare_scopes]
  split
  · refine congrArg Scopes.mk (Array.ext_getElem? fun number => ?_)
    simp only [scopes, Array.getElem?_map, Array.getElem?_modify]
    split
    · simp only [Option.map_map]
      congr 1
      funext scope
      exact add scope
    · rfl
  · rfl

theorem lookupWithin_scopes (name : String) (steps scope : Nat) :
    (new.scopes all).lookupWithin (new.name name) steps scope =
      (all.lookupWithin name steps scope).map new.declaration := by
  induction steps generalizing scope with
  | zero => rfl
  | succ steps ih =>
      rw [Scopes.lookupWithin, Scopes.lookupWithin, scopes, Array.getElem?_map]
      cases all.all[scope]? with
      | none => rfl
      | some found =>
          simp only [Option.map_some, find?_scope]
          cases found.find? name with
          | some declaration => rfl
          | none =>
              simp only [Option.map_none, Option.map_bind]
              congr 1
              funext parent
              exact ih parent

theorem lookup_scopes (name : String) :
    (new.scopes all).lookup here (new.name name) = (all.lookup here name).map new.declaration := by
  rw [Scopes.lookup, count_scopes, lookupWithin_scopes, Scopes.lookup]

theorem typeOf?_scopes (name : String) :
    (new.scopes all).typeOf? here (new.name name) = all.typeOf? here name := by
  rw [Scopes.typeOf?, lookup_scopes, Option.map_map, Scopes.typeOf?]
  rfl

end Relabelling

end ThreeAddress

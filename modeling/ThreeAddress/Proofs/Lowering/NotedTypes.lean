import ThreeAddress.Proofs.Accepted
import ThreeAddress.Proofs.Lowering.Uses
import ThreeAddress.Proofs.Typing.Decision

namespace ThreeAddress

/-!
# The types noted in code

Lowering takes expressions apart and puts new ones together. On each node it notes
the type that the checker's rules give for the types noted below it. The locations
in the code are those of the source, with their notes, and a temporary is read under
the note under which it was assigned.
-/

open Lowering Machine

/-- Every node of the expression has a scalar type noted on it, the last one that type. It is
the one that the rule for the node gives for the types noted below. An element has one index for
all dimensions of its array, and a temporary no rule. -/
inductive Expr.NotedAs (typeOf? : String → Option DeclaredType) : Expr → BasicType → Prop
  | int {note value} : note.type = some (.scalar .int) → NotedAs typeOf? (.int note value) .int
  | real {note value} : note.type = some (.scalar .float) →
      NotedAs typeOf? (.real note value) .float
  | bool {note value} : note.type = some (.scalar .bool) → NotedAs typeOf? (.bool note value) .bool
  | temp {note number type} : note.type = some (.scalar type) →
      NotedAs typeOf? (.temp note number) type
  | loc {note id indices declared} : typeOf? id.name = some declared →
      note.type = some (.scalar declared.basic) →
      (∀ index ∈ indices, NotedAs typeOf? index .int) →
      NotedAs typeOf? (.loc note id indices) declared.basic
  | paren {note inner type} : note.type = some (.scalar type) → NotedAs typeOf? inner type →
      NotedAs typeOf? (.paren note inner) type
  | unary {note op operand operandType type} : note.type = some (.scalar type) →
      NotedAs typeOf? operand operandType →
      op.resultType (.scalar operandType) = .ok (.scalar type) →
      NotedAs typeOf? (.unary note op operand) type
  | binary {note op left right leftType rightType type} : note.type = some (.scalar type) →
      NotedAs typeOf? left leftType → NotedAs typeOf? right rightType →
      op.resultType (.scalar leftType) (.scalar rightType) = .ok (.scalar type) →
      NotedAs typeOf? (.binary note op left right) type

/-- An assignment into a temporary has equal types on both sides, and any other one obeys the
rule for assignments. Labels and jumps without a condition are not typed. -/
inductive Instr.Typed (typeOf? : String → Option DeclaredType) : Instr → Prop
  | fill {note number value type} : note.type = some (.scalar type) →
      value.NotedAs typeOf? type → Typed typeOf? (.assign (.temp note number) value)
  | store {target value targetType valueType} : target.isLocation = true →
      target.NotedAs typeOf? targetType → value.NotedAs typeOf? valueType →
      (ValueType.scalar targetType).accept (.scalar valueType) = .ok () →
      Typed typeOf? (.assign target value)
  | ifTrue {condition target type} : condition.NotedAs typeOf? type →
      Typed typeOf? (.ifTrue condition target)
  | ifFalse {condition target type} : condition.NotedAs typeOf? type →
      Typed typeOf? (.ifFalse condition target)

namespace Expr

variable {typeOf? : String → Option DeclaredType} {expr : Expr} {type : BasicType}

theorem NotedAs.type_eq (noted : expr.NotedAs typeOf? type) :
    expr.note.type = some (.scalar type) := by
  cases noted <;> assumption

mutual

/-- The check notes the types that its rules give. -/
theorem check_notedAs (expr : Expr) {checked : Expr} {result : ValueType}
    (tempFree : expr.TempFree) (accepted : expr.check typeOf? = (checked, .ok result)) :
    checked.TempFree ∧ ∃ type, result = .scalar type ∧ checked.NotedAs typeOf? type := by
  match expr with
  | .binary note op left right =>
      obtain ⟨leftChecked, _, rightChecked, _, leftAccepted, rightAccepted, allowed, rfl⟩ :=
        check_binary_eq_ok.mp accepted
      obtain ⟨leftFree, leftType, rfl, leftNoted⟩ := check_notedAs left tempFree.1 leftAccepted
      obtain ⟨rightFree, rightType, rfl, rightNoted⟩ :=
        check_notedAs right tempFree.2 rightAccepted
      obtain ⟨type, -, rfl⟩ := BinaryOp.resultType_eq_ok.mp allowed
      exact ⟨⟨leftFree, rightFree⟩, type, rfl, .binary rfl leftNoted rightNoted allowed⟩
  | .unary note op operand =>
      obtain ⟨operandChecked, _, operandAccepted, allowed, rfl⟩ := check_unary_eq_ok.mp accepted
      obtain ⟨operandFree, type, rfl, operandNoted⟩ :=
        check_notedAs operand tempFree operandAccepted
      obtain ⟨-, rfl⟩ := UnaryOp.resultType_eq_ok.mp allowed
      exact ⟨operandFree, type, rfl, .unary rfl operandNoted allowed⟩
  | .paren note inner =>
      obtain ⟨innerChecked, innerAccepted, rfl⟩ := check_paren_eq_ok.mp accepted
      obtain ⟨innerFree, type, rfl, innerNoted⟩ := check_notedAs inner tempFree innerAccepted
      exact ⟨innerFree, type, rfl, .paren rfl innerNoted⟩
  | .loc note id indices =>
      obtain ⟨declared, indicesChecked, found, -, rfl, indicesAccepted, rfl⟩ :=
        check_loc_eq_ok.mp accepted
      obtain ⟨indicesFree, indicesNoted⟩ := checkIndices_notedAs indices tempFree indicesAccepted
      exact ⟨indicesFree, declared.basic, rfl, .loc found rfl indicesNoted⟩
  | .int note value =>
      cases accepted
      exact ⟨trivial, .int, rfl, .int rfl⟩
  | .real note value =>
      cases accepted
      exact ⟨trivial, .float, rfl, .real rfl⟩
  | .bool note value =>
      cases accepted
      exact ⟨trivial, .bool, rfl, .bool rfl⟩
  | .temp note number => exact tempFree.elim

theorem checkIndices_notedAs (indices : List Expr) {checked : List Expr}
    (tempFree : AllTempFree indices)
    (accepted : checkIndices typeOf? indices = (checked, .ok ())) :
    AllTempFree checked ∧ ∀ index ∈ checked, index.NotedAs typeOf? .int := by
  match indices with
  | [] =>
      obtain rfl := checkIndices_nil_eq_ok.mp accepted
      exact ⟨trivial, nofun⟩
  | index :: rest =>
      obtain ⟨indexChecked, restChecked, indexAccepted, restAccepted, rfl⟩ :=
        checkIndices_cons_eq_ok.mp accepted
      obtain ⟨indexFree, type, isInt, indexNoted⟩ := check_notedAs index tempFree.1 indexAccepted
      obtain rfl : .int = type := congrArg ValueType.basic isInt
      obtain ⟨restFree, restNoted⟩ := checkIndices_notedAs rest tempFree.2 restAccepted
      exact ⟨⟨indexFree, restFree⟩, List.forall_mem_cons.mpr ⟨indexNoted, restNoted⟩⟩

end

end Expr

namespace Expr

/-- A location, without its indices, or a temporary. -/
def mention? : Expr → Option Expr
  | .loc note id _ => some (.loc note id [])
  | .temp note number => some (.temp note number)
  | _ => none

/-- The locations and temporaries in an expression, with their notes. -/
def mentions (expr : Expr) : List Expr :=
  expr.nodes.filterMap mention?

def allMentions (indices : List Expr) : List Expr :=
  (indicesNodes indices).filterMap mention?

variable {note : Note} {left right operand inner first : Expr} {rest indices : List Expr}

@[simp] theorem mentions_binary {op : BinaryOp} :
    (Expr.binary note op left right).mentions = left.mentions ++ right.mentions := by
  simp [mentions, nodes, List.filterMap_cons, mention?]

@[simp] theorem mentions_unary {op : UnaryOp} :
    (Expr.unary note op operand).mentions = operand.mentions := by
  simp [mentions, nodes, List.filterMap_cons, mention?]

@[simp] theorem mentions_paren : (Expr.paren note inner).mentions = inner.mentions := by
  simp [mentions, nodes, List.filterMap_cons, mention?]

@[simp] theorem mentions_loc {id : Ident} :
    (Expr.loc note id indices).mentions = .loc note id [] :: allMentions indices := by
  simp [mentions, allMentions, nodes, mention?]

@[simp] theorem allMentions_nil : allMentions [] = [] := rfl

@[simp] theorem allMentions_cons : allMentions (first :: rest) = first.mentions ++ allMentions rest := by
  simp [mentions, allMentions, indicesNodes]

@[simp] theorem mentions_int {value : Int} : (Expr.int note value).mentions = [] := rfl

@[simp] theorem mentions_real {value : Decimal.Binary64} : (Expr.real note value).mentions = [] := rfl

@[simp] theorem mentions_bool {value : Bool} : (Expr.bool note value).mentions = [] := rfl

@[simp] theorem mentions_temp {number : Nat} :
    (Expr.temp note number).mentions = [.temp note number] := rfl

end Expr

namespace Instr

/-- The locations and temporaries in an instruction, without a temporary that it assigns. -/
def uses : Instr → List Expr
  | .assign (.temp _ _) value => value.mentions
  | .assign target value => target.mentions ++ value.mentions
  | .label _ | .goto _ => []
  | .ifTrue condition _ | .ifFalse condition _ => condition.mentions

/-- The temporary that an instruction assigns. -/
def makes : Instr → List Expr
  | .assign (.temp note number) _ => [.temp note number]
  | _ => []

theorem uses_store {target value : Expr} (location : target.isLocation = true) :
    (Instr.assign target value).uses = target.mentions ++ value.mentions := by
  cases target with
  | loc note id indices => rfl
  | _ => simp [Expr.isLocation] at location

theorem makes_store {target value : Expr} (location : target.isLocation = true) :
    (Instr.assign target value).makes = [] := by
  cases target with
  | loc note id indices => rfl
  | _ => simp [Expr.isLocation] at location

end Instr

namespace Machine

/-- The code uses what it is given and the temporaries that it makes, except for what it leaves to
the code behind it. -/
def Trades (given : List Expr) (code : List Instr) (left : List Expr) : Prop :=
  (given ++ code.flatMap Instr.makes).Perm (code.flatMap Instr.uses ++ left)

namespace Trades

variable {given middle left other otherLeft : List Expr} {code rest : List Instr}

theorem nothing (given : List Expr) : Trades given [] given := by
  simp [Trades]

theorem append (front : Trades given code middle) (back : Trades middle rest left) :
    Trades given (code ++ rest) left := by
  simp only [Trades, List.flatMap_append, List.append_assoc] at front back ⊢
  rw [← List.append_assoc]
  refine (front.append_right _).trans ?_
  rw [List.append_assoc]
  exact back.append_left _

theorem beside (front : Trades given code left) (back : Trades other rest otherLeft) :
    Trades (given ++ other) (code ++ rest) (left ++ otherLeft) := by
  have swap (a b c d : List Expr) : ((a ++ b) ++ (c ++ d)).Perm ((a ++ c) ++ (b ++ d)) := by
    simp only [List.append_assoc]
    refine List.Perm.append_left a ?_
    rw [← List.append_assoc, ← List.append_assoc]
    exact List.perm_append_comm.append_right d
  simp only [Trades, List.flatMap_append] at front back ⊢
  exact (swap ..).trans ((front.append back).trans (swap ..))

theorem before (front : Trades given code left) (other : List Expr) :
    Trades (other ++ given) code (other ++ left) :=
  (nothing other).beside front

theorem behind (front : Trades given code left) (other : List Expr) :
    Trades (given ++ other) code (left ++ other) := by
  have both := front.beside (nothing other)
  rwa [List.append_nil] at both

end Trades

end Machine

namespace Expr

variable {typeOf? : String → Option DeclaredType} {single : Bool} {expr result : Expr}
  {type : BasicType} {code rest : List Instr} {before after : NameSupply}

/-- What lowering makes of an expression that has a type and mentions what is given. -/
structure Keeps (typeOf? : String → Option DeclaredType) (given : List Expr) (type : BasicType)
    (code : List Instr) (result : Expr) : Prop where
  typed : ∀ instr ∈ code, instr.Typed typeOf?
  noted : result.NotedAs typeOf? type
  trades : Trades given code result.mentions

theorem Keeps.itself (noted : expr.NotedAs typeOf? type) :
    Keeps typeOf? expr.mentions type [] expr where
  typed := nofun
  noted := noted
  trades := .nothing _

theorem materialize_keeps (noted : expr.NotedAs typeOf? type)
    (given : expr.materialize.Gives before (code, result) after) :
    Keeps typeOf? expr.mentions type code result := by
  obtain ⟨rfl, rfl, rfl⟩ := materialize_gives.mp given
  refine ⟨List.forall_mem_singleton.mpr (.fill noted.type_eq noted), .temp noted.type_eq, ?_⟩
  simp [Trades, Instr.makes, Instr.uses]

theorem settle_keeps (noted : expr.NotedAs typeOf? type)
    (given : (settle single expr).Gives before (code, result) after) :
    Keeps typeOf? expr.mentions type code result := by
  have cases := settle_gives.mp given
  split at cases
  · exact materialize_keeps noted cases
  · obtain ⟨rfl, rfl, rfl⟩ := cases
    exact .itself noted

theorem scaled_notedAs {line : Nat} {factor : Int} (noted : expr.NotedAs typeOf? .int) :
    (Expr.binary (addressNote line) .mul expr (.int (addressNote line) factor)).NotedAs
      typeOf? .int :=
  .binary rfl noted (.int rfl) rfl

theorem addressTerm_keeps {declared : DeclaredType} {name : String} {line dimension : Nat}
    (noted : expr.NotedAs typeOf? .int)
    (given : (addressTerm declared name line dimension expr).Gives before (code, result) after) :
    Keeps typeOf? expr.mentions .int code result := by
  obtain ⟨stride, -, ⟨-, rfl, rfl, rfl⟩ | ⟨-, -, made⟩⟩ := addressTerm_gives.mp given
  · exact .itself noted
  · simpa using materialize_keeps (scaled_notedAs noted) made

mutual

theorem reduce_keeps (expr : Expr) {single : Bool} {type : BasicType} {result : Expr}
    {code : List Instr} {before after : NameSupply} (noted : expr.NotedAs typeOf? type)
    (given : (expr.reduce typeOf? single).Gives before (code, result) after) :
    Keeps typeOf? expr.mentions type code result := by
  match expr, noted with
  | .binary note op left right, .binary typed leftNoted rightNoted allowed =>
      obtain ⟨leftCode, leftResult, afterLeft, rightCode, rightResult, afterRight, lastCode,
        leftGiven, rightGiven, settled, rfl⟩ := reduce_binary_gives.mp given
      have leftKept := reduce_keeps left leftNoted leftGiven
      have rightKept := reduce_keeps right rightNoted rightGiven
      have lastKept := settle_keeps (.binary typed leftKept.noted rightKept.noted allowed) settled
      refine ⟨List.forall_mem_append.mpr ⟨List.forall_mem_append.mpr ⟨leftKept.typed,
        rightKept.typed⟩, lastKept.typed⟩, lastKept.noted, ?_⟩
      have lastTrades := lastKept.trades
      rw [mentions_binary] at lastTrades ⊢
      exact (leftKept.trades.beside rightKept.trades).append lastTrades
  | .unary note op operand, .unary typed operandNoted allowed =>
      obtain ⟨reduced, operandGiven, rfl⟩ := reduce_unary_gives.mp given
      have operandKept := reduce_keeps operand operandNoted operandGiven
      refine ⟨operandKept.typed, .unary typed operandKept.noted allowed, ?_⟩
      rw [mentions_unary, mentions_unary]
      exact operandKept.trades
  | .paren note inner, .paren typed innerNoted =>
      obtain ⟨reduced, innerGiven, rfl⟩ := reduce_paren_gives.mp given
      have innerKept := reduce_keeps inner innerNoted innerGiven
      rw [mentions_paren]
      split
      · refine ⟨innerKept.typed, .paren typed innerKept.noted, ?_⟩
        rw [mentions_paren]
        exact innerKept.trades
      · exact innerKept
  | .loc note id [], .loc found typed indicesNoted =>
      rw [reduce, gives_pure] at given
      obtain ⟨same, rfl⟩ := given
      cases same
      exact .itself (.loc found typed indicesNoted)
  | .loc note id (first :: rest), .loc found typed indicesNoted =>
      obtain ⟨declared, offsetCode, offset, afterOffset, lastCode, -, steps, settled, rfl⟩ :=
        reduce_access_gives.mp given
      have offsetKept := offset_keeps (first :: rest) indicesNoted steps
      have lastKept := settle_keeps
        (.loc found typed (List.forall_mem_singleton.mpr offsetKept.noted)) settled
      refine ⟨List.forall_mem_append.mpr ⟨offsetKept.typed, lastKept.typed⟩, lastKept.noted, ?_⟩
      have lastTrades := lastKept.trades
      rw [mentions_loc, allMentions_cons, allMentions_nil, List.append_nil] at lastTrades
      rw [mentions_loc]
      exact (offsetKept.trades.before [.loc note id []]).append lastTrades
  | .int note value, noted | .real note value, noted | .bool note value, noted
  | .temp note number, noted =>
      rw [reduce, gives_pure] at given
      obtain ⟨same, rfl⟩ := given
      cases same
      exact .itself noted

theorem offset_keeps (indices : List Expr) {declared : DeclaredType} {name : String} {line : Nat}
    {code : List Instr} {offset : Expr} {before after : NameSupply}
    (noted : ∀ index ∈ indices, index.NotedAs typeOf? .int)
    (steps : Offset typeOf? declared name line indices before code offset after) :
    Keeps typeOf? (allMentions indices) .int code offset := by
  match indices with
  | [] =>
      obtain ⟨_, _, _, _, _, _, _, _, _, _, _, _, same, -⟩ := steps
      contradiction
  | first :: rest =>
      obtain ⟨_, _, _, _, _, _, _, _, _, _, _, _, same, firstGiven, termGiven, sumGiven,
        offsetGiven, rfl⟩ := steps
      cases same
      obtain ⟨firstNoted, restNoted⟩ := List.forall_mem_cons.mp noted
      have firstKept := reduce_keeps first firstNoted firstGiven
      have termKept := addressTerm_keeps firstKept.noted termGiven
      have sumKept := addTerms_keeps rest termKept.noted restNoted sumGiven
      have offsetKept := materialize_keeps (scaled_notedAs sumKept.noted) offsetGiven
      refine ⟨?_, offsetKept.noted, ?_⟩
      · simp only [List.forall_mem_append]
        exact ⟨⟨⟨firstKept.typed, termKept.typed⟩, sumKept.typed⟩, offsetKept.typed⟩
      · have offsetTrades := offsetKept.trades
        rw [mentions_binary, mentions_int, List.append_nil] at offsetTrades
        rw [allMentions_cons]
        have termTrades := (firstKept.trades.append termKept.trades).behind (allMentions rest)
        exact (termTrades.append sumKept.trades).append offsetTrades

theorem addTerms_keeps (indices : List Expr) {declared : DeclaredType} {name : String}
    {line dimension : Nat} {code : List Instr} {sum result : Expr} {before after : NameSupply}
    (sumNoted : sum.NotedAs typeOf? .int) (noted : ∀ index ∈ indices, index.NotedAs typeOf? .int)
    (given : (addTerms typeOf? declared name line dimension sum indices).Gives before
      (code, result) after) :
    Keeps typeOf? (sum.mentions ++ allMentions indices) .int code result := by
  match indices with
  | [] =>
      obtain ⟨rfl, rfl, rfl⟩ := addTerms_nil_gives.mp given
      rw [allMentions_nil, List.append_nil]
      exact .itself sumNoted
  | index :: rest =>
      obtain ⟨_, _, _, _, _, _, _, _, _, _, indexGiven, termGiven, sumGiven, restGiven, rfl⟩ :=
        addTerms_cons_gives.mp given
      obtain ⟨indexNoted, restNoted⟩ := List.forall_mem_cons.mp noted
      have indexKept := reduce_keeps index indexNoted indexGiven
      have termKept := addressTerm_keeps indexKept.noted termGiven
      have sumKept := materialize_keeps (.binary rfl sumNoted termKept.noted rfl) sumGiven
      have restKept := addTerms_keeps rest sumKept.noted restNoted restGiven
      refine ⟨?_, restKept.noted, ?_⟩
      · simp only [List.forall_mem_append]
        exact ⟨⟨⟨indexKept.typed, termKept.typed⟩, sumKept.typed⟩, restKept.typed⟩
      · have sumTrades := sumKept.trades
        rw [mentions_binary] at sumTrades
        have indexTrades := (indexKept.trades.append termKept.trades).before sum.mentions
        rw [allMentions_cons, ← List.append_assoc]
        exact ((indexTrades.append sumTrades).behind (allMentions rest)).append restKept.trades

end

end Expr

namespace Stmt

mutual

/-- The expressions that the code of a statement evaluates, in the order of the code, with the
scopes they stand in. The sides of an assignment go together. A loop on the literal `true` does
without its condition. -/
def sites (scope : Nat) : Stmt → List (Nat × List Expr)
  | .assign target value _ => [(scope, [target, value])]
  | .ifThen condition body => (scope, [condition]) :: body.sites scope
  | .ifThenElse condition body otherwise =>
      (scope, [condition]) :: (body.sites scope ++ otherwise.sites scope)
  | .whileDo condition body =>
      (if condition.isTrue then [] else [(scope, [condition])]) ++ body.sites scope
  | .doWhile body condition => body.sites scope ++ [(scope, [condition])]
  | .breakLoop => []
  | .block inner _ body => allSites inner body

def allSites (scope : Nat) : List Stmt → List (Nat × List Expr)
  | [] => []
  | first :: rest => first.sites scope ++ allSites scope rest

end

end Stmt

namespace Machine

/-- The code is made of a good piece for each site, in order, with labels and plain jumps in
between. -/
inductive Pieces (good : Nat → List Expr → List Instr → Prop) :
    List (Nat × List Expr) → List Instr → Prop
  | nil : Pieces good [] []
  | bare {instr sites code} : instr.exprs = [] → Pieces good sites code →
      Pieces good sites (instr :: code)
  | piece {scope exprs piece sites code} : good scope exprs piece → Pieces good sites code →
      Pieces good ((scope, exprs) :: sites) (piece ++ code)

/-- The code of expressions without temporaries in a scope. Its types are noted by the rules, its
locations are those of the expressions, and its temporaries are read as they were assigned. -/
structure TypedPiece (scopes : Scopes) (scope : Nat) (exprs : List Expr) (code : List Instr) :
    Prop where
  tempFree : ∀ expr ∈ exprs, expr.TempFree
  typed : ∀ instr ∈ code, instr.Typed (scopes.typeOf? scope)
  uses : (code.flatMap Instr.uses).Perm
    (exprs.flatMap Expr.mentions ++ code.flatMap Instr.makes)

namespace Pieces

variable {good : Nat → List Expr → List Instr → Prop} {sites others : List (Nat × List Expr)}
  {code rest : List Instr}

theorem append (front : Pieces good sites code) (back : Pieces good others rest) :
    Pieces good (sites ++ others) (code ++ rest) := by
  induction front with
  | nil => exact back
  | bare none _ ih => exact .bare none ih
  | piece fine _ ih =>
      rw [List.append_assoc]
      exact .piece fine ih

theorem single {scope : Nat} {exprs : List Expr} (fine : good scope exprs code) :
    Pieces good [(scope, exprs)] code := by
  have whole := Pieces.piece fine .nil
  rwa [List.append_nil] at whole

/-- An instruction with expressions stands in one of the pieces. -/
theorem around (pieces : Pieces good sites code) {instr : Instr} (member : instr ∈ code)
    (some : instr.exprs ≠ []) : ∃ scope exprs piece, (scope, exprs) ∈ sites ∧
      good scope exprs piece ∧ instr ∈ piece ∧ piece ⊆ code := by
  induction pieces with
  | nil => contradiction
  | bare none _ ih =>
      rcases List.mem_cons.mp member with rfl | later
      · contradiction
      · obtain ⟨scope, exprs, piece, site, fine, inside, within⟩ := ih later
        exact ⟨scope, exprs, piece, site, fine, inside, List.subset_cons_of_subset _ within⟩
  | @piece scope exprs piece sites code fine _ ih =>
      rcases List.mem_append.mp member with here | later
      · exact ⟨scope, exprs, piece, List.mem_cons_self, fine, here, List.subset_append_left _ _⟩
      · obtain ⟨scope, exprs, other, site, fine, inside, within⟩ := ih later
        exact ⟨scope, exprs, other, List.mem_cons_of_mem _ site, fine, inside,
          List.subset_append_of_subset_right _ within⟩

end Pieces

end Machine

namespace Stmt

variable {scopes : Scopes} {scope : Nat} {condition test : Expr} {code : List Instr}
  {before after : NameSupply}

theorem test_piece {type : BasicType} (instr : Instr) (tempFree : condition.TempFree)
    (noted : condition.NotedAs (scopes.typeOf? scope) type)
    (given : (condition.reduce (scopes.typeOf? scope) false).Gives before (code, test) after)
    (typed : test.NotedAs (scopes.typeOf? scope) type → instr.Typed (scopes.typeOf? scope))
    (uses : instr.uses = test.mentions) (makes : instr.makes = []) :
    TypedPiece scopes scope [condition] (code ++ [instr]) where
  tempFree := List.forall_mem_singleton.mpr tempFree
  typed := by
    have kept := Expr.reduce_keeps condition noted given
    exact List.forall_mem_append.mpr
      ⟨kept.typed, List.forall_mem_singleton.mpr (typed kept.noted)⟩
  uses := by
    have trades := (Expr.reduce_keeps condition noted given).trades
    simpa [uses, makes] using trades.symm

theorem loopTest_pieces {type : BasicType} {behind : Label} (tempFree : condition.TempFree)
    (noted : condition.NotedAs (scopes.typeOf? scope) type)
    (tested : LoopTest (scopes.typeOf? scope) condition behind before code after) :
    Pieces (TypedPiece scopes) (if condition.isTrue then [] else [(scope, [condition])]) code := by
  unfold LoopTest at tested
  split at tested
  · next always =>
      obtain ⟨rfl, rfl⟩ := tested
      rw [if_pos always]
      exact .nil
  · next sometimes =>
      obtain ⟨testCode, test, given, rfl⟩ := tested
      rw [if_neg sometimes]
      exact .single (test_piece _ tempFree noted given .ifFalse rfl rfl)

theorem assign_piece {target value targetResult valueResult : Expr}
    {targetCode valueCode : List Instr} {middle : NameSupply} {targetType valueType : BasicType}
    (location : target.isLocation = true) (targetFree : target.TempFree)
    (valueFree : value.TempFree) (targetNoted : target.NotedAs (scopes.typeOf? scope) targetType)
    (valueNoted : value.NotedAs (scopes.typeOf? scope) valueType)
    (accepts : (ValueType.scalar targetType).accept (.scalar valueType) = .ok ())
    (targetGiven : (target.reduce (scopes.typeOf? scope) false).Gives before
      (targetCode, targetResult) middle)
    (valueGiven : (value.reduce (scopes.typeOf? scope) target.isAccess).Gives middle
      (valueCode, valueResult) after) :
    TypedPiece scopes scope [target, value]
      (targetCode ++ valueCode ++ [.assign targetResult valueResult]) := by
  have targetKept := Expr.reduce_keeps target targetNoted targetGiven
  have valueKept := Expr.reduce_keeps value valueNoted valueGiven
  have stays := Expr.reduce_isLocation location targetGiven
  refine ⟨by simp [targetFree, valueFree], ?_, ?_⟩
  · simp only [List.forall_mem_append, List.forall_mem_singleton]
    exact ⟨⟨targetKept.typed, valueKept.typed⟩,
      .store stays targetKept.noted valueKept.noted accepts⟩
  · have trades := (targetKept.trades.beside valueKept.trades).symm
    simpa [Instr.uses_store stays, Instr.makes_store stays, Trades] using trades

mutual

/-- The code of a checked statement is typed. -/
theorem lower_pieces (stmt : Stmt) {inLoop : Bool} {scope : Nat} {exit? : Option Label}
    {checked : Stmt} {code : List Instr} {before after : NameSupply}
    (source : stmt.FromSource inLoop) (accepted : stmt.check scopes scope = (checked, .ok ()))
    (given : (checked.lower scopes scope exit?).Gives before code after) :
    Pieces (TypedPiece scopes) (checked.sites scope) code := by
  match stmt with
  | .assign target value line =>
      obtain ⟨_, _, _, _, targetAccepted, valueAccepted, accepts, rfl⟩ :=
        check_assign_eq_ok.mp accepted
      obtain ⟨location, targetPlain, valuePlain⟩ := source
      obtain ⟨targetFree, targetType, rfl, targetNoted⟩ :=
        Expr.check_notedAs target targetPlain targetAccepted
      obtain ⟨valueFree, valueType, rfl, valueNoted⟩ :=
        Expr.check_notedAs value valuePlain valueAccepted
      obtain ⟨_, _, _, _, _, targetGiven, valueGiven, rfl⟩ := lower_assign_gives.mp given
      exact .single (assign_piece (Expr.check_isLocation targetAccepted location) targetFree
        valueFree targetNoted valueNoted accepts targetGiven valueGiven)
  | .ifThen condition body =>
      obtain ⟨_, _, _, conditionAccepted, bodyAccepted, rfl⟩ := check_ifThen_eq_ok.mp accepted
      obtain ⟨tempFree, type, rfl, noted⟩ :=
        Expr.check_notedAs condition source.1 conditionAccepted
      obtain ⟨testCode, test, afterTest, bodyCode, tested, bodyGiven, rfl⟩ :=
        lower_ifThen_gives.mp given
      have testPiece := test_piece (.ifFalse test ⟨afterTest.labels + 1⟩) tempFree noted tested
        .ifFalse rfl rfl
      have bodyPieces := lower_pieces body source.2 bodyAccepted bodyGiven
      have last : Pieces (TypedPiece scopes) [] [.label ⟨afterTest.labels + 1⟩] := .bare rfl .nil
      simpa [sites] using ((Pieces.single testPiece).append bodyPieces).append last
  | .ifThenElse condition body otherwise =>
      obtain ⟨_, _, _, _, conditionAccepted, bodyAccepted, otherwiseAccepted, rfl⟩ :=
        check_ifThenElse_eq_ok.mp accepted
      obtain ⟨tempFree, type, rfl, noted⟩ :=
        Expr.check_notedAs condition source.1 conditionAccepted
      obtain ⟨testCode, test, afterTest, bodyCode, afterBody, elseCode, tested, bodyGiven,
        elseGiven, rfl⟩ := lower_ifThenElse_gives.mp given
      have testPiece := test_piece (.ifFalse test ⟨afterTest.labels + 1⟩) tempFree noted tested
        .ifFalse rfl rfl
      have bodyPieces := lower_pieces body source.2.1 bodyAccepted bodyGiven
      have elsePieces := lower_pieces otherwise source.2.2 otherwiseAccepted elseGiven
      have middle : Pieces (TypedPiece scopes) []
          [.goto ⟨afterBody.labels + 1⟩, .label ⟨afterTest.labels + 1⟩] := .bare rfl (.bare rfl .nil)
      have last : Pieces (TypedPiece scopes) [] [.label ⟨afterBody.labels + 1⟩] := .bare rfl .nil
      simpa [sites] using
        ((((Pieces.single testPiece).append bodyPieces).append middle).append elsePieces).append last
  | .whileDo condition body =>
      obtain ⟨_, _, _, conditionAccepted, bodyAccepted, rfl⟩ := check_whileDo_eq_ok.mp accepted
      obtain ⟨tempFree, type, rfl, noted⟩ :=
        Expr.check_notedAs condition source.1 conditionAccepted
      obtain ⟨testCode, afterTest, bodyCode, tested, bodyGiven, rfl⟩ :=
        lower_whileDo_gives.mp given
      have first : Pieces (TypedPiece scopes) [] [.label ⟨before.labels + 1⟩] := .bare rfl .nil
      have testPieces := loopTest_pieces tempFree noted tested
      have bodyPieces := lower_pieces body source.2 bodyAccepted bodyGiven
      have last : Pieces (TypedPiece scopes) []
          [.goto ⟨before.labels + 1⟩, .label ⟨before.labels + 2⟩] := .bare rfl (.bare rfl .nil)
      simpa [sites] using ((first.append testPieces).append bodyPieces).append last
  | .doWhile body condition =>
      obtain ⟨_, _, _, bodyAccepted, conditionAccepted, rfl⟩ := check_doWhile_eq_ok.mp accepted
      obtain ⟨tempFree, type, rfl, noted⟩ :=
        Expr.check_notedAs condition source.2 conditionAccepted
      obtain ⟨bodyCode, afterBody, testCode, test, bodyGiven, tested, rfl⟩ :=
        lower_doWhile_gives.mp given
      have first : Pieces (TypedPiece scopes) [] [.label ⟨before.labels + 1⟩] := .bare rfl .nil
      have bodyPieces := lower_pieces body source.1 bodyAccepted bodyGiven
      have testPiece := test_piece (.ifTrue test ⟨before.labels + 1⟩) tempFree noted tested
        .ifTrue rfl rfl
      have last : Pieces (TypedPiece scopes) [] [.label ⟨before.labels + 2⟩] := .bare rfl .nil
      simpa [sites] using ((first.append bodyPieces).append (Pieces.single testPiece)).append last
  | .breakLoop =>
      rw [check] at accepted
      cases accepted
      obtain ⟨behind, -, rfl, rfl⟩ := lower_breakLoop_gives.mp given
      exact .bare rfl .nil
  | .block inner declarations body =>
      obtain ⟨_, bodyAccepted, rfl⟩ := check_block_eq_ok.mp accepted
      exact lowerAll_pieces body source bodyAccepted (lower_block_gives.mp given)

theorem lowerAll_pieces (body : List Stmt) {inLoop : Bool} {scope : Nat} {exit? : Option Label}
    {checked : List Stmt} {code : List Instr} {before after : NameSupply}
    (source : AllFromSource inLoop body)
    (accepted : checkAll scopes scope body = (checked, .ok ()))
    (given : (lowerAll scopes scope exit? checked).Gives before code after) :
    Pieces (TypedPiece scopes) (allSites scope checked) code := by
  match body with
  | [] =>
      obtain rfl := checkAll_nil_eq_ok.mp accepted
      obtain ⟨rfl, rfl⟩ := lowerAll_nil_gives.mp given
      exact .nil
  | first :: rest =>
      obtain ⟨_, _, firstAccepted, restAccepted, rfl⟩ := checkAll_cons_eq_ok.mp accepted
      obtain ⟨_, _, _, firstGiven, restGiven, rfl⟩ := lowerAll_cons_gives.mp given
      exact (lower_pieces first source.1 firstAccepted firstGiven).append
        (lowerAll_pieces rest source.2 restAccepted restGiven)

end

end Stmt

namespace Expr

mutual

theorem TempFree.no_temp (expr : Expr) {note : Note} {number : Nat} (tempFree : expr.TempFree) :
    .temp note number ∉ expr.nodes := by
  match expr with
  | .binary _ _ left right =>
      simp [nodes, TempFree.no_temp left tempFree.1, TempFree.no_temp right tempFree.2]
  | .unary _ _ operand => simp [nodes, TempFree.no_temp operand tempFree]
  | .paren _ inner => simp [nodes, TempFree.no_temp inner tempFree]
  | .loc _ _ indices => simp [nodes, AllTempFree.no_temp indices tempFree]
  | .int _ _ | .real _ _ | .bool _ _ => simp [nodes]
  | .temp _ _ => exact tempFree.elim

theorem AllTempFree.no_temp (indices : List Expr) {note : Note} {number : Nat}
    (tempFree : AllTempFree indices) : .temp note number ∉ indicesNodes indices := by
  match indices with
  | [] => simp [indicesNodes]
  | index :: rest =>
      simp [indicesNodes, TempFree.no_temp index tempFree.1, AllTempFree.no_temp rest tempFree.2]

end

theorem temp_mem_mentions {expr : Expr} {note : Note} {number : Nat} :
    .temp note number ∈ expr.mentions ↔ .temp note number ∈ expr.nodes := by
  rw [mentions, List.mem_filterMap]
  constructor
  · intro found
    obtain ⟨node, member, same⟩ := found
    cases node with
    | temp => cases same; exact member
    | _ => cases same
  · intro member
    exact ⟨_, member, rfl⟩

end Expr

namespace Instr

variable {instr : Instr} {expr : Expr} {note : Note} {number : Nat}

theorem temp_used_or_made (member : expr ∈ instr.exprs) (below : .temp note number ∈ expr.nodes) :
    .temp note number ∈ instr.uses ∨ .temp note number ∈ instr.makes := by
  rw [← Expr.temp_mem_mentions] at below
  cases instr with
  | assign target value =>
      rcases List.mem_pair.mp member with rfl | rfl
      · cases expr with
        | temp => exact .inr below
        | _ => exact .inl (List.mem_append_left _ below)
      · cases target with
        | temp => exact .inl below
        | _ => exact .inl (List.mem_append_right _ below)
  | label | goto => contradiction
  | ifTrue | ifFalse =>
      obtain rfl := List.mem_singleton.mp member
      exact .inl below

theorem temp_mem_makes (made : .temp note number ∈ instr.makes) :
    ∃ value, instr = .assign (.temp note number) value := by
  match instr, made with
  | .assign (.temp _ _) value, made =>
      cases List.mem_singleton.mp made
      exact ⟨value, rfl⟩

end Instr

namespace Machine

variable {scopes : Scopes} {sites : List (Nat × List Expr)} {code : List Instr}
  {note other : Note} {number : Nat}

theorem assigned_of_occursIn (pieces : Pieces (TypedPiece scopes) sites code)
    (occurs : OccursIn (.temp note number) code) :
    ∃ value, .assign (.temp note number) value ∈ code := by
  obtain ⟨instr, member, expr, inside, below⟩ := occurs
  obtain ⟨scope, exprs, piece, -, typed, among, within⟩ :=
    pieces.around member (List.ne_nil_of_mem inside)
  have made : .temp note number ∈ piece.flatMap Instr.makes := by
    rcases Instr.temp_used_or_made inside below with used | made
    · have given := typed.uses.subset (List.mem_flatMap_of_mem among used)
      rcases List.mem_append.mp given with mentioned | made
      · obtain ⟨source, plain, mentions⟩ := List.mem_flatMap.mp mentioned
        exact (Expr.TempFree.no_temp source (typed.tempFree source plain)
          (Expr.temp_mem_mentions.mp mentions)).elim
      · exact made
    · exact List.mem_flatMap_of_mem among made
  obtain ⟨maker, makerMember, makes⟩ := List.mem_flatMap.mp made
  obtain ⟨value, rfl⟩ := Instr.temp_mem_makes makes
  exact ⟨value, within makerMember⟩

theorem filled_once {first second : Instr} (once : (filled code).Nodup) (member : first ∈ code)
    (also : second ∈ code) (fills : fills? first = some number)
    (same : fills? second = some number) : first = second := by
  induction code with
  | nil => contradiction
  | cons instr rest ih =>
      have apart : fills? instr = some number → number ∉ filled rest := by
        intro head
        rw [filled, List.filterMap_cons_some head] at once
        exact (List.nodup_cons.mp once).1
      rcases List.mem_cons.mp member with rfl | later <;>
        rcases List.mem_cons.mp also with rfl | alsoLater
      · rfl
      · exact (apart fills (List.mem_filterMap.mpr ⟨second, alsoLater, same⟩)).elim
      · exact (apart same (List.mem_filterMap.mpr ⟨first, later, fills⟩)).elim
      · exact ih (once.sublist ((List.sublist_cons_self instr rest).filterMap fills?)) later alsoLater

/-- A temporary that is assigned once has one note, wherever it occurs. -/
theorem temps_noted_alike (pieces : Pieces (TypedPiece scopes) sites code)
    (once : (filled code).Nodup) (occurs : OccursIn (.temp note number) code)
    (also : OccursIn (.temp other number) code) : note = other := by
  obtain ⟨value, assigned⟩ := assigned_of_occursIn pieces occurs
  obtain ⟨otherValue, alsoAssigned⟩ := assigned_of_occursIn pieces also
  cases filled_once once assigned alsoAssigned rfl rfl
  rfl

end Machine

/-- The code of a text that is accepted is made of a typed piece for each site of an expression,
and each of its temporaries has one note. -/
theorem compile_preserves_types {filename source : String} {code : List Instr}
    (compiled : compile filename source = .ok code) : ∃ program,
    Program.ofSource filename source = .ok program ∧
    Pieces (TypedPiece program.scopes) (program.block.stmt.sites program.block.scope) code ∧
    ∀ number note other, OccursIn (.temp note number) code → OccursIn (.temp other number) code →
      note = other := by
  obtain ⟨program, after, accepted, lowered⟩ := Program.compile_eq_ok compiled
  obtain ⟨read, parsed, passed⟩ := Program.ofSource_eq_ok accepted
  obtain ⟨fromSource, -⟩ := Program.parse_fromSource parsed
  have resolved := (Program.ofSource_wellFormed accepted).resolved
  obtain ⟨body, bodyAccepted, rfl⟩ := Program.check_eq_ok.mp passed
  have pieces := Stmt.lowerAll_pieces read.block.body fromSource bodyAccepted lowered
  have once : (filled code).Nodup := by
    rw [(Stmt.lowerAll_takes body resolved lowered).temps]
    exact nodup_between
  exact ⟨_, accepted, pieces, fun _ _ _ => temps_noted_alike pieces once⟩

/-- An integer and a float of one name, an array of two dimensions, parentheses and a sign. -/
def scaledRows : String :=
  "\x7b int x; float a[2][3]; \x7b float x; a[0][1] = (x + 2) * x; \x7d " ++
    "do a[x][1] = -x; while (!(x < 1)); \x7d"

theorem scaledRows_typed : ∃ program code, compile "rows" scaledRows = .ok code ∧
    Program.ofSource "rows" scaledRows = .ok program ∧
    Pieces (TypedPiece program.scopes) (program.block.stmt.sites program.block.scope) code ∧
    ∀ number note other, OccursIn (.temp note number) code → OccursIn (.temp other number) code →
      note = other := by
  have compiled : ∃ code, compile "rows" scaledRows = .ok code := by
    have lowered : ∃ program code after, Program.ofSource "rows" scaledRows = .ok program ∧
        program.lower {} = (.ok code, after) := ⟨_, _, _, by cbv, rfl⟩
    obtain ⟨program, code, after, accepted, lowered⟩ := lowered
    exact ⟨code, Program.compile_of_lower accepted lowered⟩
  obtain ⟨code, compiled⟩ := compiled
  obtain ⟨program, accepted, pieces, alike⟩ := compile_preserves_types compiled
  exact ⟨program, code, compiled, accepted, pieces, alike⟩

end ThreeAddress

import ThreeAddress.Proofs.Grammar.Legible
import ThreeAddress.Proofs.Lowering.Sites

namespace ThreeAddress

open Lowering Machine

namespace Expr

/-- A literal, a temporary or a variable. -/
inductive IsAtom : Expr → Prop
  | int {note value} : IsAtom (.int note value)
  | real {note value} : IsAtom (.real note value)
  | bool {note value} : IsAtom (.bool note value)
  | temp {note number} : IsAtom (.temp note number)
  | variable {note id} : IsAtom (.loc note id [])

/-- An atom under any number of signs. -/
inductive IsSingle : Expr → Prop
  | atom {expr} : IsAtom expr → IsSingle expr
  | unary {note op operand} : IsSingle operand → IsSingle (.unary note op operand)

/-- A sign stands in front of the expression, parentheses apart. -/
def isSigned : Expr → Bool
  | .unary _ _ _ => true
  | .paren _ inner => inner.isSigned
  | .binary _ _ _ _ | .loc _ _ _ | .int _ _ | .real _ _ | .bool _ _ | .temp _ _ => false

/-- An element of an array, addressed by a temporary. -/
inductive IsElement : Expr → Prop
  | addressed {note id offset number} : IsElement (.loc note id [.temp offset number])

inductive IsTarget : Expr → Prop
  | temp {note number} : IsTarget (.temp note number)
  | variable {note id} : IsTarget (.loc note id [])
  | element {expr} : IsElement expr → IsTarget expr

/-- What an instruction may use without an operator of its own. -/
inductive IsOperand : Expr → Prop
  | single {expr} : IsSingle expr → IsOperand expr
  | element {expr} : IsElement expr → IsOperand expr
  | paren {note inner} : inner.isBinary = true → IsOperand (.paren note inner)
  | unary {note op operand} : IsOperand operand → IsOperand (.unary note op operand)

/-- What is assigned or tested. -/
def IsValue (expr : Expr) : Prop :=
  expr.isBinary = true ∨ expr.IsOperand

/-- What a node may have right below it. -/
def HasFlatParts : Expr → Prop
  | .binary _ _ left right => left.IsSingle ∧ right.IsSingle
  | .paren _ inner => inner.isBinary = true
  | .loc _ _ indices => indices.length ≤ 1
  | .unary _ _ _ | .int _ _ | .real _ _ | .bool _ _ | .temp _ _ => True

/-- A value that has at most one operator, and is written with tokens of these kinds. -/
structure Flat (allowed : Kind → Prop) (expr : Expr) : Prop where
  value : expr.IsValue
  parts : ∀ node ∈ expr.nodes, node.HasFlatParts
  legible : expr.LegibleIn allowed

end Expr

namespace Instr

/-- What is assigned or tested has at most one operator, and what is put into an element has
none. -/
def HasFlatSides : Instr → Prop
  | .assign target value =>
      target.IsTarget ∧ value.IsValue ∧ (target.IsElement → value.IsSingle)
  | .ifTrue condition _ | .ifFalse condition _ => condition.IsValue
  | .label _ | .goto _ => True

/-- The instruction has at most one operator, and is written with tokens of these kinds. -/
structure Flat (allowed : Kind → Prop) (instr : Instr) : Prop where
  sides : instr.HasFlatSides
  parts : ∀ expr ∈ instr.exprs, ∀ node ∈ expr.nodes, node.HasFlatParts
  legible : ∀ expr ∈ instr.exprs, expr.LegibleIn allowed

variable {allowed : Kind → Prop} {target value condition : Expr}

theorem assign_flat (place : target.IsTarget) (targetFlat : target.Flat allowed)
    (valueFlat : value.Flat allowed) (stored : target.IsElement → value.IsSingle) :
    (Instr.assign target value).Flat allowed where
  sides := ⟨place, valueFlat.value, stored⟩
  parts := List.forall_mem_cons.mpr
    ⟨targetFlat.parts, List.forall_mem_singleton.mpr valueFlat.parts⟩
  legible := List.forall_mem_cons.mpr
    ⟨targetFlat.legible, List.forall_mem_singleton.mpr valueFlat.legible⟩

theorem ifTrue_flat {label : Label} (flat : condition.Flat allowed) :
    (Instr.ifTrue condition label).Flat allowed :=
  ⟨flat.value, List.forall_mem_singleton.mpr flat.parts, List.forall_mem_singleton.mpr flat.legible⟩

theorem ifFalse_flat {label : Label} (flat : condition.Flat allowed) :
    (Instr.ifFalse condition label).Flat allowed :=
  ⟨flat.value, List.forall_mem_singleton.mpr flat.parts, List.forall_mem_singleton.mpr flat.legible⟩

theorem flat_of_exprs_eq_nil {instr : Instr} (none : instr.exprs = []) : instr.Flat allowed := by
  cases instr with
  | label | goto => exact ⟨trivial, nofun, nofun⟩
  | _ => cases none

end Instr

/-- The tokens that lowering may add are of these kinds. -/
structure AllowsNew (allowed : Kind → Prop) : Prop where
  temp : ∀ number : Nat, allowed (.ident ("t" ++ toString number))
  int : ∀ value ≤ intMax, allowed (.int value)
  mark : ∀ sign, allowed (.mark sign)

namespace Expr

variable {allowed : Kind → Prop} {expr left right index sum result : Expr} {note : Note}
  {code : List Instr} {before after : NameSupply}

theorem IsAtom.nodes_eq (atom : expr.IsAtom) : expr.nodes = [expr] := by
  cases atom <;> rfl

theorem IsAtom.notSigned (atom : expr.IsAtom) : expr.isSigned = false := by
  cases atom <;> rfl

theorem IsSingle.notBinary (single : expr.IsSingle) : expr.isBinary = false := by
  cases single with
  | atom atom => cases atom <;> rfl
  | unary => rfl

theorem IsSingle.isAtom_iff (single : expr.IsSingle) : expr.IsAtom ↔ expr.isSigned = false := by
  refine ⟨IsAtom.notSigned, fun noSign => ?_⟩
  cases single with
  | atom atom => exact atom
  | unary => cases noSign

theorem IsAtom.hasFlatParts (atom : expr.IsAtom) : expr.HasFlatParts := by
  cases atom with
  | «variable» => exact Nat.zero_le 1
  | _ => trivial

theorem IsAtom.flat (atom : expr.IsAtom) (legible : expr.LegibleIn allowed) :
    expr.Flat allowed where
  value := .inr (.single (.atom atom))
  parts := by
    rw [atom.nodes_eq]
    exact List.forall_mem_singleton.mpr atom.hasFlatParts
  legible := legible

/-- An atom is used as it is. -/
theorem reduce_atom_gives {typeOf? : String → Option DeclaredType} {single : Bool}
    (atom : expr.IsAtom) : (expr.reduce typeOf? single).Gives before (code, result) after ↔
      code = [] ∧ result = expr ∧ after = before := by
  cases atom <;> rw [reduce, gives_pure, Prod.mk.injEq, and_assoc]

theorem settle_true_isAtom (given : (settle true expr).Gives before (code, result) after) :
    result.IsAtom := by
  obtain ⟨-, rfl, -⟩ := materialize_gives.mp (settle_gives.mp given)
  exact .temp

/-- Where one operand is asked for, all is put into temporaries but the signs in front. -/
theorem reduce_isSingle (expr : Expr) {typeOf? : String → Option DeclaredType} {code : List Instr}
    {result : Expr} {before after : NameSupply}
    (given : (expr.reduce typeOf? true).Gives before (code, result) after) :
    result.IsSingle ∧ result.isSigned = expr.isSigned := by
  have ofAtom {expr : Expr} (atom : expr.IsAtom) : expr.IsSingle ∧ expr.isSigned = false :=
    ⟨.atom atom, atom.notSigned⟩
  match expr with
  | .binary note op left right =>
      obtain ⟨_, _, _, _, _, _, _, -, -, settled, -⟩ := reduce_binary_gives.mp given
      exact ofAtom (settle_true_isAtom settled)
  | .unary note op operand =>
      obtain ⟨reduced, operandGiven, rfl⟩ := reduce_unary_gives.mp given
      exact ⟨.unary (reduce_isSingle operand operandGiven).1, rfl⟩
  | .paren note inner =>
      obtain ⟨reduced, innerGiven, rfl⟩ := reduce_paren_gives.mp given
      have reducedInner := reduce_isSingle inner innerGiven
      rwa [if_neg (Bool.eq_false_iff.mp reducedInner.1.notBinary)]
  | .loc note id (first :: rest) =>
      obtain ⟨_, _, _, _, _, -, -, settled, -⟩ := reduce_access_gives.mp given
      exact ofAtom (settle_true_isAtom settled)
  | .loc _ _ [] | .int _ _ | .real _ _ | .bool _ _ | .temp _ _ =>
      obtain ⟨-, rfl, -⟩ := (reduce_atom_gives (by constructor)).mp given
      exact ofAtom (by constructor)

theorem temp_flat (new : AllowsNew allowed) (number : Nat) :
    (Expr.temp note number).Flat allowed :=
  IsAtom.temp.flat ⟨trivial, List.forall_mem_singleton.mpr (new.temp number)⟩

theorem number_flat (new : AllowsNew allowed) {value : Nat} (small : value ≤ intMax) :
    (Expr.int note value).Flat allowed :=
  IsAtom.int.flat ⟨Int.natCast_nonneg value, List.forall_mem_singleton.mpr (new.int value small)⟩

/-- One operator on single operands. -/
theorem binary_flat (new : AllowsNew allowed) (op : BinaryOp) (leftSingle : left.IsSingle)
    (rightSingle : right.IsSingle) (leftFlat : left.Flat allowed)
    (rightFlat : right.Flat allowed) : (Expr.binary note op left right).Flat allowed where
  value := .inl rfl
  parts := List.forall_mem_cons.mpr ⟨⟨leftSingle, rightSingle⟩,
    List.forall_mem_append.mpr ⟨leftFlat.parts, rightFlat.parts⟩⟩
  legible := by
    have grouped : (Expr.binary note op left right).Grouped := by
      simpa [Grouped, operator?_of_single leftSingle.notBinary,
        operator?_of_single rightSingle.notBinary] using
        And.intro leftFlat.legible.legible.grouped rightFlat.legible.legible.grouped
    exact ⟨⟨grouped, leftFlat.legible.legible, rightFlat.legible.legible⟩,
      List.forall_mem_append.mpr ⟨leftFlat.legible.kinds,
        List.forall_mem_cons.mpr ⟨new.mark op.mark, rightFlat.legible.kinds⟩⟩⟩

theorem element_flat (new : AllowsNew allowed) {id : Ident} {offset : Note} {number : Nat}
    (name : allowed (.ident id.name)) : (Expr.loc note id [.temp offset number]).Flat allowed where
  value := .inr (.element .addressed)
  parts := List.forall_mem_cons.mpr ⟨Nat.le_refl 1, (temp_flat new number).parts⟩
  legible := ⟨⟨trivial, trivial⟩, List.forall_mem_cons.mpr ⟨name, List.forall_mem_cons.mpr
    ⟨new.mark .openBracket, List.forall_mem_cons.mpr ⟨new.temp number,
      List.forall_mem_singleton.mpr (new.mark .closeBracket)⟩⟩⟩⟩

/-- The code and what is used after it are flat. -/
structure ReducesTo (allowed : Kind → Prop) (code : List Instr) (result : Expr) : Prop where
  code : ∀ instr ∈ code, instr.Flat allowed
  flat : result.Flat allowed

theorem reducesTo_itself (flat : expr.Flat allowed) : ReducesTo allowed [] expr :=
  ⟨nofun, flat⟩

theorem materialize_flat (new : AllowsNew allowed) (flat : expr.Flat allowed)
    (given : expr.materialize.Gives before (code, result) after) :
    ReducesTo allowed code result ∧ result.IsSingle := by
  obtain ⟨rfl, rfl, -⟩ := materialize_gives.mp given
  have temp : (Expr.temp expr.note (before.temps + 1)).Flat allowed := temp_flat new _
  exact ⟨⟨List.forall_mem_singleton.mpr (Instr.assign_flat .temp temp flat nofun), temp⟩,
    .atom .temp⟩

theorem settle_flat (new : AllowsNew allowed) {single : Bool} (flat : expr.Flat allowed)
    (given : (settle single expr).Gives before (code, result) after) :
    ReducesTo allowed code result := by
  have settled := settle_gives.mp given
  cases single with
  | true => exact (materialize_flat new flat settled).1
  | false =>
      obtain ⟨rfl, rfl, -⟩ := settled
      exact reducesTo_itself flat

theorem addressTerm_flat (new : AllowsNew allowed) {declared : DeclaredType} {name : String}
    {line dimension : Nat} (single : index.IsSingle) (flat : index.Flat allowed)
    (given : (addressTerm declared name line dimension index).Gives before (code, result) after) :
    ReducesTo allowed code result ∧ result.IsSingle := by
  obtain ⟨stride, -, ⟨-, rfl, rfl, -⟩ | ⟨-, small, made⟩⟩ := addressTerm_gives.mp given
  · exact ⟨reducesTo_itself flat, single⟩
  · exact materialize_flat new
      (binary_flat new .mul single (.atom .int) flat (number_flat new small)) made

mutual

/-- What is used after the code of an expression has no operator outside of parentheses if the
expression has none. -/
theorem reduce_flat (expr : Expr) {allowed : Kind → Prop}
    {typeOf? : String → Option DeclaredType} {single : Bool} {code : List Instr} {result : Expr}
    {before after : NameSupply} (new : AllowsNew allowed) (legible : expr.LegibleIn allowed)
    (given : (expr.reduce typeOf? single).Gives before (code, result) after) :
    ReducesTo allowed code result ∧ (expr.isBinary = false → result.isBinary = false) := by
  match expr with
  | .binary note op left right =>
      obtain ⟨_, _, _, _, _, _, _, leftGiven, rightGiven, settled, rfl⟩ :=
        reduce_binary_gives.mp given
      obtain ⟨⟨leftCode, leftFlat⟩, -⟩ := reduce_flat left new legible.left leftGiven
      obtain ⟨⟨rightCode, rightFlat⟩, -⟩ := reduce_flat right new legible.right rightGiven
      obtain ⟨lastCode, flat⟩ := settle_flat new (binary_flat new op
        (reduce_isSingle left leftGiven).1 (reduce_isSingle right rightGiven).1 leftFlat rightFlat)
        settled
      refine ⟨⟨?_, flat⟩, nofun⟩
      simp only [List.forall_mem_append]
      exact ⟨⟨leftCode, rightCode⟩, lastCode⟩
  | .unary note op operand =>
      obtain ⟨reduced, operandGiven, rfl⟩ := reduce_unary_gives.mp given
      obtain ⟨⟨flatCode, flat⟩, notBinary⟩ := reduce_flat operand new legible.operand operandGiven
      have bare : reduced.isBinary = false := notBinary legible.legible.1
      have isOperand : reduced.IsOperand := flat.value.resolve_left (by simp [bare])
      have legibleResult : (Expr.unary note op reduced).LegibleIn allowed :=
        ⟨⟨bare, flat.legible.legible⟩,
          List.forall_mem_cons.mpr ⟨new.mark op.mark, flat.legible.kinds⟩⟩
      exact ⟨⟨flatCode, .inr (.unary isOperand), List.forall_mem_cons.mpr ⟨trivial, flat.parts⟩,
        legibleResult⟩, fun _ => rfl⟩
  | .paren note inner =>
      obtain ⟨reduced, innerGiven, rfl⟩ := reduce_paren_gives.mp given
      obtain ⟨⟨flatCode, flat⟩, -⟩ := reduce_flat inner new legible.inner innerGiven
      split
      · next operator =>
          have legibleResult : (Expr.paren note reduced).LegibleIn allowed :=
            ⟨flat.legible.legible, List.forall_mem_cons.mpr ⟨new.mark .openParen,
              List.forall_mem_append.mpr ⟨flat.legible.kinds,
                List.forall_mem_singleton.mpr (new.mark .closeParen)⟩⟩⟩
          exact ⟨⟨flatCode, .inr (.paren operator),
            List.forall_mem_cons.mpr ⟨operator, flat.parts⟩, legibleResult⟩, fun _ => rfl⟩
      · next noOperator =>
          exact ⟨⟨flatCode, flat⟩, fun _ => Bool.eq_false_iff.mpr noOperator⟩
  | .loc note id (first :: rest) =>
      obtain ⟨_, _, _, _, _, -, steps, settled, rfl⟩ := reduce_access_gives.mp given
      obtain ⟨offsetCode, _, _, rfl⟩ := offset_flat (first :: rest) new legible.indices steps
      have name := (List.forall_mem_cons.mp legible.kinds).1
      obtain ⟨lastCode, flat⟩ := settle_flat new (element_flat new name) settled
      refine ⟨⟨List.forall_mem_append.mpr ⟨offsetCode, lastCode⟩, flat⟩, fun _ => ?_⟩
      cases single with
      | true => exact (reduce_isSingle _ given).1.notBinary
      | false =>
          obtain ⟨-, rfl, -⟩ := settle_gives.mp settled
          rfl
  | .loc _ _ [] | .int _ _ | .real _ _ | .bool _ _ | .temp _ _ =>
      obtain ⟨rfl, rfl, -⟩ := (reduce_atom_gives (by constructor)).mp given
      exact ⟨reducesTo_itself (IsAtom.flat (by constructor) legible), fun _ => rfl⟩

theorem offset_flat (indices : List Expr) {allowed : Kind → Prop}
    {typeOf? : String → Option DeclaredType} {declared : DeclaredType} {name : String}
    {line : Nat} {code : List Instr} {offset : Expr} {before after : NameSupply}
    (new : AllowsNew allowed) (legible : ∀ index ∈ indices, index.LegibleIn allowed)
    (steps : Offset typeOf? declared name line indices before code offset after) :
    (∀ instr ∈ code, instr.Flat allowed) ∧ ∃ note number, offset = .temp note number := by
  match indices with
  | [] =>
      obtain ⟨_, _, _, _, _, _, _, _, _, _, _, _, same, -⟩ := steps
      contradiction
  | first :: rest =>
      obtain ⟨_, _, _, _, _, _, _, _, _, _, _, _, same, firstGiven, termGiven, sumGiven,
        offsetGiven, rfl⟩ := steps
      cases same
      obtain ⟨firstLegible, restLegible⟩ := List.forall_mem_cons.mp legible
      obtain ⟨⟨firstCode, firstFlat⟩, -⟩ := reduce_flat first new firstLegible firstGiven
      obtain ⟨⟨termCode, termFlat⟩, termSingle⟩ :=
        addressTerm_flat new (reduce_isSingle first firstGiven).1 firstFlat termGiven
      obtain ⟨⟨sumCode, sumFlat⟩, sumSingle⟩ :=
        addTerms_flat rest new termSingle termFlat restLegible sumGiven
      have width : declared.basic.width ≤ intMax := by cases declared.basic <;> decide
      obtain ⟨⟨lastCode, -⟩, -⟩ := materialize_flat new (binary_flat new .mul sumSingle
        (.atom .int) sumFlat (number_flat new width)) offsetGiven
      obtain ⟨-, isTemp, -⟩ := materialize_gives.mp offsetGiven
      refine ⟨?_, _, _, isTemp⟩
      simp only [List.forall_mem_append]
      exact ⟨⟨⟨firstCode, termCode⟩, sumCode⟩, lastCode⟩

theorem addTerms_flat (indices : List Expr) {allowed : Kind → Prop}
    {typeOf? : String → Option DeclaredType} {declared : DeclaredType} {name : String}
    {line dimension : Nat} {code : List Instr} {sum result : Expr} {before after : NameSupply}
    (new : AllowsNew allowed) (single : sum.IsSingle) (flat : sum.Flat allowed)
    (legible : ∀ index ∈ indices, index.LegibleIn allowed)
    (given : (addTerms typeOf? declared name line dimension sum indices).Gives before
      (code, result) after) : ReducesTo allowed code result ∧ result.IsSingle := by
  match indices with
  | [] =>
      obtain ⟨rfl, rfl, -⟩ := addTerms_nil_gives.mp given
      exact ⟨reducesTo_itself flat, single⟩
  | index :: rest =>
      obtain ⟨_, _, _, _, _, _, _, _, _, _, indexGiven, termGiven, sumGiven, restGiven, rfl⟩ :=
        addTerms_cons_gives.mp given
      obtain ⟨indexLegible, restLegible⟩ := List.forall_mem_cons.mp legible
      obtain ⟨⟨indexCode, indexFlat⟩, -⟩ := reduce_flat index new indexLegible indexGiven
      obtain ⟨⟨termCode, termFlat⟩, termSingle⟩ :=
        addressTerm_flat new (reduce_isSingle index indexGiven).1 indexFlat termGiven
      obtain ⟨⟨sumCode, newFlat⟩, newSingle⟩ :=
        materialize_flat new (binary_flat new .add single termSingle flat termFlat) sumGiven
      obtain ⟨⟨restCode, totalFlat⟩, totalSingle⟩ :=
        addTerms_flat rest new newSingle newFlat restLegible restGiven
      refine ⟨⟨?_, totalFlat⟩, totalSingle⟩
      simp only [List.forall_mem_append]
      exact ⟨⟨⟨indexCode, termCode⟩, sumCode⟩, restCode⟩

end

theorem Flat.isTarget (flat : expr.Flat allowed) (location : expr.isLocation = true) :
    expr.IsTarget := by
  match expr, location with
  | .loc note id indices, _ =>
      have isOperand : (Expr.loc note id indices).IsOperand := flat.value.resolve_left nofun
      cases isOperand with
      | single single =>
          obtain ⟨atom⟩ := single
          cases atom
          exact .variable
      | element element => exact .element element

theorem IsElement.isAccess (element : expr.IsElement) : expr.isAccess = true := by
  cases element
  rfl

/-- Only an access to an array is lowered to one. -/
theorem reduce_isAccess {typeOf? : String → Option DeclaredType}
    (location : expr.isLocation = true)
    (given : (expr.reduce typeOf? false).Gives before (code, result) after) :
    result.isAccess = expr.isAccess := by
  match expr, location with
  | .loc note id [], _ =>
      obtain ⟨-, rfl, -⟩ := (reduce_atom_gives .variable).mp given
      rfl
  | .loc note id (first :: rest), _ =>
      obtain ⟨_, _, _, _, _, -, -, settled, -⟩ := reduce_access_gives.mp given
      obtain ⟨-, rfl, -⟩ := settle_gives.mp settled
      rfl

end Expr

theorem Stmt.SiteCode.flat {allowed : Kind → Prop} {scopes : Scopes} {home : Nat}
    {exprs : List Expr} {code : List Instr} (new : AllowsNew allowed)
    (legible : ∀ expr ∈ exprs, expr.LegibleIn allowed) (made : SiteCode scopes home exprs code) :
    ∀ instr ∈ code, instr.Flat allowed := by
  cases made with
  | assign location targetGiven valueGiven =>
      obtain ⟨targetLegible, valueLegible⟩ := List.forall_mem_cons.mp legible
      obtain ⟨target, -⟩ := Expr.reduce_flat _ new targetLegible targetGiven
      obtain ⟨value, -⟩ := Expr.reduce_flat _ new (List.forall_mem_singleton.mp valueLegible)
        valueGiven
      have place := target.flat.isTarget (Expr.reduce_isLocation location targetGiven)
      have stored := fun element : Expr.IsElement _ => by
        rw [← Expr.reduce_isAccess location targetGiven, element.isAccess] at valueGiven
        exact (Expr.reduce_isSingle _ valueGiven).1
      have last := Instr.assign_flat place target.flat value.flat stored
      simp only [List.forall_mem_append]
      exact ⟨⟨target.code, value.code⟩, List.forall_mem_singleton.mpr last⟩
  | ifTrue label given =>
      obtain ⟨test, -⟩ := Expr.reduce_flat _ new (List.forall_mem_singleton.mp legible) given
      exact List.forall_mem_append.mpr
        ⟨test.code, List.forall_mem_singleton.mpr (Instr.ifTrue_flat test.flat)⟩
  | ifFalse label given =>
      obtain ⟨test, -⟩ := Expr.reduce_flat _ new (List.forall_mem_singleton.mp legible) given
      exact List.forall_mem_append.mpr
        ⟨test.code, List.forall_mem_singleton.mpr (Instr.ifFalse_flat test.flat)⟩

/-- The code of a text is flat, and is written with tokens of its kinds. -/
theorem Program.compile_flat {filename source : String} {code : List Instr}
    {allowed : Kind → Prop} (new : AllowsNew allowed)
    (all : ∀ token ∈ (Lexer.ofText filename source).run.tokens, allowed token.kind)
    (compiled : compile filename source = .ok code) : ∀ instr ∈ code, instr.Flat allowed := by
  obtain ⟨program, accepted, -, pieces⟩ := compile_sites compiled
  have legible := (ofSource_legible accepted all).sites
  intro instr member
  by_cases some : instr.exprs = []
  · exact Instr.flat_of_exprs_eq_nil some
  · obtain ⟨scope, exprs, piece, site, made, inside, -⟩ := pieces.around member some
    exact made.flat new (legible (scope, exprs) site) instr inside

/-- In the code of a text, every operator works on single operands, and only they are put into
elements of arrays. -/
theorem compiled_code_is_flat {filename source : String} {code : List Instr}
    (compiled : compile filename source = .ok code) : ∀ instr ∈ code,
      instr.HasFlatSides ∧ ∀ expr ∈ instr.exprs, ∀ node ∈ expr.nodes, node.HasFlatParts := by
  have anything : AllowsNew fun _ => True :=
    ⟨fun _ => trivial, fun _ _ => trivial, fun _ => trivial⟩
  intro instr member
  have flat := Program.compile_flat anything (fun _ _ => trivial) compiled instr member
  exact ⟨flat.sides, flat.parts⟩

/-- A sum under a sign is stored, and an element is compared under one in a condition. -/
def nestedSigns : String :=
  "\x7b int x; int a[2][3]; a[x][-1] = -((x + 1) * 2); " ++
    "while (!(x < -a[1][x + 1])) x = a[0][0]; \x7d"

theorem nestedSigns_flat : ∃ code, compile "signs" nestedSigns = .ok code ∧ ∀ instr ∈ code,
    instr.HasFlatSides ∧ ∀ expr ∈ instr.exprs, ∀ node ∈ expr.nodes, node.HasFlatParts := by
  have accepted : ∃ program, Program.ofSource "signs" nestedSigns = .ok program ∧
      ∃ code after, program.lower {} = (.ok code, after) := ⟨_, by cbv, _, _, rfl⟩
  obtain ⟨program, accepted, code, after, lowered⟩ := accepted
  have compiled := Program.compile_of_lower accepted lowered
  exact ⟨code, compiled, compiled_code_is_flat compiled⟩

end ThreeAddress

import ThreeAddress.Proofs.Accepted
import ThreeAddress.Proofs.Grammar.Layers

namespace ThreeAddress

/-!
# Legible trees

The text of an expression has no parentheses but those of its tree, no types, and names for
temporaries. Still it shows the tree if the operators at every node are grouped by precedence,
if none stands right under a sign, and if no number is negative. Every tree that is read from a
text is of this kind, and it has the tokens of the text.
-/

namespace Expr

mutual

/-- What the text of an expression is read as: no types are noted, and a temporary is a name. -/
def asRead : Expr → Expr
  | .binary note op left right => .binary { line := note.line } op left.asRead right.asRead
  | .unary note op operand => .unary { line := note.line } op operand.asRead
  | .paren note inner => .paren { line := note.line } inner.asRead
  | .loc note id indices => .loc { line := note.line } id (asReadAll indices)
  | .int note value => .int { line := note.line } value
  | .real note value => .real { line := note.line } value
  | .bool note value => .bool { line := note.line } value
  | .temp note number => .loc { line := note.line } ⟨"t" ++ toString number, note.line⟩ []

def asReadAll : List Expr → List Expr
  | [] => []
  | index :: rest => index.asRead :: asReadAll rest

end

mutual

/-- The text of an expression shows its tree. -/
def Legible : Expr → Prop
  | .binary note op left right =>
      (Expr.binary note op left right).Grouped ∧ left.Legible ∧ right.Legible
  | .unary _ _ operand => operand.isBinary = false ∧ operand.Legible
  | .paren _ inner => inner.Legible
  | .loc _ _ indices => AllLegible indices
  | .int _ value => 0 ≤ value
  | .real _ _ | .bool _ _ | .temp _ _ => True

def AllLegible : List Expr → Prop
  | [] => True
  | index :: rest => index.Legible ∧ AllLegible rest

end

/-- The text of an expression shows its tree, in tokens of these kinds. -/
structure LegibleIn (allowed : Kind → Prop) (expr : Expr) : Prop where
  legible : expr.Legible
  kinds : ∀ kind ∈ expr.asRead.kinds, allowed kind

variable {expr : Expr} {op : BinaryOp}

theorem Legible.grouped (legible : expr.Legible) : expr.Grouped := by
  cases expr with
  | binary => exact legible.1
  | _ => trivial

theorem operator?_asRead (expr : Expr) : expr.asRead.operator? = expr.operator? := by
  cases expr <;> rfl

theorem isBinary_asRead (expr : Expr) : expr.asRead.isBinary = expr.isBinary := by
  cases expr <;> rfl

namespace LegibleIn

variable {allowed : Kind → Prop} {note : Note} {first second part : Expr}

theorem left (whole : (Expr.binary note op first second).LegibleIn allowed) :
    first.LegibleIn allowed :=
  ⟨whole.legible.2.1, (List.forall_mem_append.mp whole.kinds).1⟩

theorem right (whole : (Expr.binary note op first second).LegibleIn allowed) :
    second.LegibleIn allowed :=
  ⟨whole.legible.2.2, (List.forall_mem_cons.mp (List.forall_mem_append.mp whole.kinds).2).2⟩

theorem operand {op : UnaryOp} (whole : (Expr.unary note op part).LegibleIn allowed) :
    part.LegibleIn allowed :=
  ⟨whole.legible.2, (List.forall_mem_cons.mp whole.kinds).2⟩

theorem inner (whole : (Expr.paren note part).LegibleIn allowed) : part.LegibleIn allowed :=
  ⟨whole.legible, (List.forall_mem_append.mp (List.forall_mem_cons.mp whole.kinds).2).1⟩

theorem ofIndices (indices : List Expr) (all : AllLegible indices)
    (kinds : ∀ kind ∈ indicesKinds (asReadAll indices), allowed kind) :
    ∀ index ∈ indices, index.LegibleIn allowed := by
  induction indices with
  | nil => exact List.forall_mem_nil _
  | cons index rest ih =>
      obtain ⟨front, others⟩ := List.forall_mem_append.mp kinds
      exact List.forall_mem_cons.mpr ⟨⟨all.1, (List.forall_mem_cons.mp front).2⟩,
        ih all.2 (List.forall_mem_cons.mp others).2⟩

theorem indices {id : Ident} {indices : List Expr}
    (whole : (Expr.loc note id indices).LegibleIn allowed) :
    ∀ index ∈ indices, index.LegibleIn allowed :=
  ofIndices indices whole.legible (List.forall_mem_cons.mp whole.kinds).2

end LegibleIn

theorem grouped_asRead (expr : Expr) : expr.asRead.Grouped ↔ expr.Grouped := by
  cases expr with
  | binary note op left right =>
      simp only [asRead, Grouped, operator?_asRead, grouped_asRead left, grouped_asRead right]
  | _ => exact Iff.rfl

mutual

theorem legible_asRead (expr : Expr) : expr.asRead.Legible ↔ expr.Legible := by
  match expr with
  | .binary note op left right =>
      have grouped := grouped_asRead (.binary note op left right)
      rw [asRead] at grouped ⊢
      rw [Legible, Legible, grouped, legible_asRead left, legible_asRead right]
  | .unary _ _ operand =>
      rw [asRead, Legible, Legible, isBinary_asRead, legible_asRead operand]
  | .paren _ inner => rw [asRead, Legible, Legible, legible_asRead inner]
  | .loc _ _ indices => rw [asRead, Legible, Legible, allLegible_asReadAll indices]
  | .int _ _ | .real _ _ | .bool _ _ | .temp _ _ => exact Iff.rfl

theorem allLegible_asReadAll (indices : List Expr) :
    AllLegible (asReadAll indices) ↔ AllLegible indices := by
  match indices with
  | [] => exact Iff.rfl
  | index :: rest =>
      rw [asReadAll, AllLegible, AllLegible, legible_asRead index, allLegible_asReadAll rest]

end

mutual

theorem asRead_erase (expr : Expr) : expr.erase.asRead = expr.asRead := by
  match expr with
  | .binary _ _ left right => rw [erase, asRead, asRead, asRead_erase left, asRead_erase right]
  | .unary _ _ operand => rw [erase, asRead, asRead, asRead_erase operand]
  | .paren _ inner => rw [erase, asRead, asRead, asRead_erase inner]
  | .loc _ _ indices => rw [erase, asRead, asRead, asReadAll_eraseAll indices]
  | .int _ _ | .real _ _ | .bool _ _ | .temp _ _ => rfl

theorem asReadAll_eraseAll (indices : List Expr) :
    asReadAll (eraseAll indices) = asReadAll indices := by
  match indices with
  | [] => rfl
  | index :: rest =>
      rw [eraseAll, asReadAll, asReadAll, asRead_erase index, asReadAll_eraseAll rest]

end

theorem legibleIn_erase {allowed : Kind → Prop} :
    expr.erase.LegibleIn allowed ↔ expr.LegibleIn allowed := by
  have same : expr.erase.Legible ↔ expr.Legible := by
    rw [← legible_asRead, asRead_erase, legible_asRead]
  constructor
  · rintro ⟨legible, kinds⟩
    exact ⟨same.mp legible, asRead_erase expr ▸ kinds⟩
  · rintro ⟨legible, kinds⟩
    exact ⟨same.mpr legible, (asRead_erase expr).symm ▸ kinds⟩

section

variable {operand : Expr} {line : Nat}

theorem Legible.extend (single : operand.isBinary = false) (legible : expr.Legible)
    (part : operand.Legible) : (expr.extend line op operand).Legible := by
  have whole : (expr.extend line op operand).Grouped := grouped_extend single legible.grouped
  fun_induction Expr.extend expr line op operand with
  | case1 note outer left right tighter ih =>
      obtain ⟨-, leftLegible, rightLegible⟩ := legible
      exact ⟨whole, leftLegible, ih rightLegible whole.2.2.2⟩
  | case2 => exact ⟨whole, legible, part⟩
  | case3 => exact ⟨whole, legible, part⟩

theorem asRead_extend :
    (expr.extend line op operand).asRead = expr.asRead.extend line op operand.asRead := by
  fun_induction Expr.extend expr line op operand with
  | case1 note outer left right tighter ih => rw [asRead, ih, asRead, Expr.extend, if_pos tighter]
  | case2 note outer left right notTighter => rw [asRead, asRead, Expr.extend, if_neg notTighter]
  | case3 expr notBinary =>
      cases expr with
      | binary note op left right => exact (notBinary note op left right rfl).elim
      | _ => rfl

theorem kinds_extend :
    (expr.extend line op operand).kinds = expr.kinds ++ .mark op.mark :: operand.kinds := by
  fun_induction Expr.extend expr line op operand with
  | case1 note outer left right tighter ih =>
      rw [kinds, ih, kinds, List.append_assoc, List.cons_append]
  | case2 => rw [kinds]
  | case3 => rw [kinds]

end

/-- The token that a leaf is read from, or the name of a location. -/
def ownKind? : Expr → Option Kind
  | .loc _ id _ => some (.ident id.name)
  | .int _ value => some (.int value.toNat)
  | .real _ value => some (.real value)
  | .bool _ value => some (.keyword (if value then .trueWord else .falseWord))
  | .binary _ _ _ _ | .unary _ _ _ | .paren _ _ | .temp _ _ => none

/-- The token is a mark, or that of one of these nodes. -/
def IsKindOf (kind : Kind) (nodes : List Expr) : Prop :=
  (∃ sign, kind = .mark sign) ∨ ∃ node ∈ nodes, node.ownKind? = some kind

theorem IsKindOf.mono {kind : Kind} {nodes others : List Expr} (among : IsKindOf kind nodes)
    (more : ∀ node ∈ nodes, node ∈ others) : IsKindOf kind others :=
  among.imp_right fun ⟨node, member, own⟩ => ⟨node, more node member, own⟩

mutual

theorem mem_kinds (expr : Expr) {kind : Kind} (member : kind ∈ expr.kinds) :
    IsKindOf kind expr.nodes := by
  match expr with
  | .binary _ op left right =>
      rcases List.mem_append.mp member with inLeft | behind
      · exact (mem_kinds left inLeft).mono fun node found =>
          List.mem_cons_of_mem _ (List.mem_append_left _ found)
      · rcases List.mem_cons.mp behind with rfl | inRight
        · exact .inl ⟨_, rfl⟩
        · exact (mem_kinds right inRight).mono fun node found =>
            List.mem_cons_of_mem _ (List.mem_append_right _ found)
  | .unary _ op operand =>
      rcases List.mem_cons.mp member with rfl | inside
      · exact .inl ⟨_, rfl⟩
      · exact (mem_kinds operand inside).mono fun node => List.mem_cons_of_mem _
  | .paren _ inner =>
      rcases List.mem_append.mp member with front | last
      · rcases List.mem_cons.mp front with rfl | inside
        · exact .inl ⟨_, rfl⟩
        · exact (mem_kinds inner inside).mono fun node => List.mem_cons_of_mem _
      · exact .inl ⟨_, List.mem_singleton.mp last⟩
  | .loc _ _ indices =>
      rcases List.mem_cons.mp member with rfl | inside
      · exact .inr ⟨_, List.mem_cons_self, rfl⟩
      · exact (mem_indicesKinds indices inside).mono fun node => List.mem_cons_of_mem _
  | .int _ _ | .real _ _ | .bool _ _ =>
      cases List.mem_singleton.mp member
      exact .inr ⟨_, List.mem_cons_self, rfl⟩
  | .temp _ _ => cases member

theorem mem_indicesKinds (indices : List Expr) {kind : Kind}
    (member : kind ∈ indicesKinds indices) : IsKindOf kind (indicesNodes indices) := by
  match indices with
  | [] => cases member
  | index :: rest =>
      rcases List.mem_append.mp member with front | behind
      · rcases List.mem_cons.mp front with rfl | inside
        · exact .inl ⟨_, rfl⟩
        · exact (mem_kinds index inside).mono fun node => List.mem_append_left _
      · rcases List.mem_cons.mp behind with rfl | later
        · exact .inl ⟨_, rfl⟩
        · exact (mem_indicesKinds rest later).mono fun node => List.mem_append_right _

end

theorem inside_of_mem_kinds {kind : Kind} (member : kind ∈ expr.kinds) : kind ≠ .eof := by
  rintro rfl
  obtain ⟨_, isMark⟩ | ⟨node, -, own⟩ := mem_kinds expr member
  · cases isMark
  · cases node <;> simp [ownKind?] at own

theorem real_of_mem_kinds {value : Decimal.Binary64} (member : .real value ∈ expr.kinds) :
    ∃ note, .real note value ∈ expr.nodes := by
  obtain ⟨_, isMark⟩ | ⟨node, among, own⟩ := mem_kinds expr member
  · cases isMark
  · cases node with
    | real note other =>
        cases own
        exact ⟨note, among⟩
    | _ => simp [ownKind?] at own

theorem name_of_mem_kinds {name : String} (member : .ident name ∈ expr.kinds) :
    name ∈ expr.names := by
  obtain ⟨_, isMark⟩ | ⟨node, among, own⟩ := mem_kinds expr member
  · cases isMark
  · cases node with
    | loc note id indices =>
        cases own
        exact List.mem_filterMap.mpr ⟨_, among, rfl⟩
    | _ => simp [ownKind?] at own

end Expr

namespace Grammar

/-- The tokens before the rest are those of the tree, whose text shows it. -/
structure Shows (tokens : List Token) (expr : Expr) (rest : List Token) : Prop where
  kinds : tokens.map Token.kind = expr.kinds ++ rest.map Token.kind
  legible : expr.Legible
  asRead : expr.asRead = expr

mutual

theorem expression_shows {declared : String → Bool} (tokens : List Token) {expr : Expr}
    {rest : List Token} (found : Finds (expression declared tokens) expr rest) :
    Shows tokens expr rest := by
  obtain ⟨first, middle, firstFound, others⟩ := finds_expression.mp found
  have shorter := firstFound.within
  obtain ⟨kinds, legible, asRead⟩ := factor_shows tokens firstFound
  obtain ⟨moreKinds, whole, wholeAsRead⟩ := operations_shows middle legible asRead others
  exact ⟨kinds.trans moreKinds, whole, wholeAsRead⟩
termination_by 4 * tokens.length + 1
decreasing_by all_goals omega

theorem operations_shows {declared : String → Bool} (tokens : List Token) {left expr : Expr}
    {rest : List Token} (legible : left.Legible) (asRead : left.asRead = left)
    (found : Finds (operations declared left tokens) expr rest) :
    left.kinds ++ tokens.map Token.kind = expr.kinds ++ rest.map Token.kind ∧
      expr.Legible ∧ expr.asRead = expr := by
  match tokens with
  | [] => exact (finds_operations_nil found).elim
  | token :: after =>
      cases sign : BinaryOp.ofKind? token.kind with
      | none =>
          obtain ⟨rfl, rfl⟩ := (finds_operations_stop sign).mp found
          exact ⟨rfl, legible, asRead⟩
      | some op =>
          obtain ⟨right, middle, rightFound, others⟩ := (finds_operations_step sign).mp found
          have shorter := rightFound.within
          have single := factor_single (finds_iff_plain.mp rightFound)
          obtain ⟨rightKinds, rightLegible, rightAsRead⟩ := factor_shows after rightFound
          have whole := operations_shows middle (legible.extend single rightLegible)
            (by rw [Expr.asRead_extend, asRead, rightAsRead]) others
          rwa [Expr.kinds_extend, List.append_assoc, List.cons_append, ← rightKinds,
            ← BinaryOp.kind_of_sign sign, ← List.map_cons] at whole
termination_by 4 * tokens.length
decreasing_by all_goals (simp only [List.length_cons] at *; omega)

theorem factor_shows {declared : String → Bool} (tokens : List Token) {expr : Expr}
    {rest : List Token} (found : Finds (factor declared tokens) expr rest) :
    Shows tokens expr rest := by
  match tokens with
  | [] => exact (finds_factor_nil found).elim
  | token :: after =>
      rcases finds_factor.mp found with ⟨op, operand, sign, inner, rfl⟩ |
        ⟨inner, closing, opens, innerFound, closes, rfl⟩ | ⟨value, kind, rfl, rfl⟩ |
        ⟨value, kind, rfl, rfl⟩ | ⟨kind, rfl, rfl⟩ | ⟨kind, rfl, rfl⟩ | ⟨name, kind, place⟩
      · obtain ⟨kinds, legible, asRead⟩ := factor_shows after inner
        have single := factor_single (finds_iff_plain.mp inner)
        exact ⟨by rw [List.map_cons, sign, kinds, Expr.kinds, List.cons_append],
          ⟨single, legible⟩, by rw [Expr.asRead, asRead]⟩
      · obtain ⟨kinds, legible, asRead⟩ := expression_shows after innerFound
        refine ⟨?_, legible, by rw [Expr.asRead, asRead]⟩
        simp only [List.map_cons, opens, kinds, closes, Expr.kinds, List.cons_append,
          List.append_assoc, List.nil_append]
      · exact ⟨by rw [List.map_cons, kind]; rfl, Int.natCast_nonneg value, rfl⟩
      · exact ⟨by rw [List.map_cons, kind]; rfl, trivial, rfl⟩
      · exact ⟨by rw [List.map_cons, kind]; rfl, trivial, rfl⟩
      · exact ⟨by rw [List.map_cons, kind]; rfl, trivial, rfl⟩
      · obtain ⟨-, indices, indicesFound, rfl⟩ := finds_location.mp place
        obtain ⟨kinds, legible, asRead⟩ := subscripts_shows after indicesFound
        exact ⟨by rw [List.map_cons, kind, kinds]; rfl, legible, by rw [Expr.asRead, asRead]⟩
termination_by 4 * tokens.length
decreasing_by all_goals (simp only [List.length_cons] at *; omega)

theorem subscripts_shows {declared : String → Bool} (tokens : List Token)
    {indices : List Expr} {rest : List Token}
    (found : Finds (subscripts declared tokens) indices rest) :
    tokens.map Token.kind = Expr.indicesKinds indices ++ rest.map Token.kind ∧
      Expr.AllLegible indices ∧ Expr.asReadAll indices = indices := by
  match tokens with
  | [] => exact (finds_subscripts_nil found).elim
  | token :: after =>
      by_cases opening : token.kind = .mark .openBracket
      · obtain ⟨index, closing, middle, more, indexFound, closes, others, rfl⟩ :=
          (finds_subscripts_step opening).mp found
        have shorter := indexFound.within
        obtain ⟨kinds, legible, asRead⟩ := expression_shows after indexFound
        obtain ⟨moreKinds, moreLegible, moreAsRead⟩ := subscripts_shows middle others
        refine ⟨?_, ⟨legible, moreLegible⟩, by rw [Expr.asReadAll, asRead, moreAsRead]⟩
        simp only [List.map_cons, opening, kinds, closes, moreKinds, Expr.indicesKinds,
          List.cons_append, List.append_assoc]
      · obtain ⟨rfl, rfl⟩ := (finds_subscripts_stop opening).mp found
        exact ⟨rfl, trivial, rfl⟩
termination_by 4 * tokens.length + 2
decreasing_by all_goals (simp only [List.length_cons] at *; omega)

end

section

variable {allowed : Kind → Prop} {visible : List String} {tokens rest : List Token} {expr : Expr}

theorem Shows.legibleIn (shows : Shows tokens expr rest)
    (all : ∀ kind ∈ tokens.map Token.kind, allowed kind) :
    expr.LegibleIn allowed ∧ ∀ kind ∈ rest.map Token.kind, allowed kind := by
  rw [shows.kinds] at all
  obtain ⟨own, behind⟩ := List.forall_mem_append.mp all
  rw [← shows.asRead] at own
  exact ⟨⟨shows.legible, own⟩, behind⟩

theorem IsExpression.shows (derived : IsExpression visible tokens expr rest)
    (ends : Ahead EndsExpression rest) : Shows tokens expr rest := by
  have sees : ∀ name, decide (name ∈ visible) = true ↔ name ∈ visible := fun _ => decide_eq_true_iff
  exact expression_shows tokens (expression_complete sees derived ends)

theorem IsLocation.shows (derived : IsLocation visible tokens expr rest)
    (noIndex : Ahead (· ≠ .mark .openBracket) rest) : Shows tokens expr rest := by
  have sees : ∀ name, decide (name ∈ visible) = true ↔ name ∈ visible := fun _ => decide_eq_true_iff
  exact factor_shows tokens (factor_complete sees (.location derived) noIndex)

theorem IsCondition.legibleIn (derived : IsCondition visible tokens expr rest)
    (all : ∀ kind ∈ tokens.map Token.kind, allowed kind) :
    expr.LegibleIn allowed ∧ ∀ kind ∈ rest.map Token.kind, allowed kind := by
  match derived with
  | .parens _ inner closes =>
      have ends : Ahead EndsExpression (_ :: rest) := ahead_of_kind closes ⟨rfl, by simp⟩
      obtain ⟨shown, behind⟩ := (inner.shows ends).legibleIn (List.forall_mem_cons.mp all).2
      exact ⟨shown, (List.forall_mem_cons.mp behind).2⟩

end

mutual

/-- The trees in a statement are written with tokens of the statement. -/
theorem IsStatement.legibleIn {allowed : Kind → Prop} {visible : List String} {inLoop : Bool}
    {opened after scope : Nat} {tokens rest : List Token} {stmt : Stmt}
    (derived : IsStatement visible inLoop opened tokens stmt after rest)
    (all : ∀ kind ∈ tokens.map Token.kind, allowed kind) :
    stmt.EachExpr (fun _ => Expr.LegibleIn allowed) scope ∧
      ∀ kind ∈ rest.map Token.kind, allowed kind := by
  match derived with
  | .assign place sign value ends =>
      obtain ⟨targetFits, behind⟩ := (place.shows (ahead_of_kind sign nofun)).legibleIn all
      obtain ⟨valueFits, last⟩ := (value.shows (ahead_of_kind ends ⟨rfl, nofun⟩)).legibleIn
        (List.forall_mem_cons.mp behind).2
      exact ⟨⟨targetFits, valueFits⟩, (List.forall_mem_cons.mp last).2⟩
  | .ifThen _ condition body | .whileDo _ condition body =>
      obtain ⟨testFits, behind⟩ := condition.legibleIn (List.forall_mem_cons.mp all).2
      obtain ⟨bodyFits, last⟩ := IsStatement.legibleIn body behind
      exact ⟨⟨testFits, bodyFits⟩, last⟩
  | .ifThenElse _ condition body _ otherwise =>
      obtain ⟨testFits, behind⟩ := condition.legibleIn (List.forall_mem_cons.mp all).2
      obtain ⟨bodyFits, later⟩ := IsStatement.legibleIn body behind
      obtain ⟨elseFits, last⟩ := IsStatement.legibleIn otherwise (List.forall_mem_cons.mp later).2
      exact ⟨⟨testFits, bodyFits, elseFits⟩, last⟩
  | .doWhile _ body _ condition _ =>
      obtain ⟨bodyFits, behind⟩ := IsStatement.legibleIn body (List.forall_mem_cons.mp all).2
      obtain ⟨testFits, last⟩ := condition.legibleIn (List.forall_mem_cons.mp behind).2
      exact ⟨⟨bodyFits, testFits⟩, (List.forall_mem_cons.mp last).2⟩
  | .breakLoop _ _ _ =>
      exact ⟨trivial, (List.forall_mem_cons.mp (List.forall_mem_cons.mp all).2).2⟩
  | .block _ declarations _ members _ =>
      obtain ⟨forms, -, kinds⟩ := declarations.kinds
      have inside := (List.forall_mem_cons.mp all).2
      rw [kinds] at inside
      obtain ⟨bodyFits, last⟩ :=
        AreStatements.legibleIn members (List.forall_mem_append.mp inside).2
      exact ⟨bodyFits, (List.forall_mem_cons.mp last).2⟩

theorem AreStatements.legibleIn {allowed : Kind → Prop} {visible : List String} {inLoop : Bool}
    {opened after scope : Nat} {tokens rest : List Token} {body : List Stmt}
    (derived : AreStatements visible inLoop opened tokens body after rest)
    (all : ∀ kind ∈ tokens.map Token.kind, allowed kind) :
    Stmt.EachExprOfAll (fun _ => Expr.LegibleIn allowed) scope body ∧
      ∀ kind ∈ rest.map Token.kind, allowed kind := by
  match derived with
  | .nil => exact ⟨trivial, all⟩
  | .cons first others =>
      obtain ⟨firstFits, behind⟩ := IsStatement.legibleIn first all
      obtain ⟨othersFit, last⟩ := AreStatements.legibleIn others behind
      exact ⟨⟨firstFits, othersFit⟩, last⟩

end

end Grammar

/-- All trees of an accepted program are written with tokens of its text. -/
theorem Program.ofSource_legible {filename source : String} {program : Program}
    {allowed : Kind → Prop} (accepted : ofSource filename source = .ok program)
    (all : ∀ token ∈ (Lexer.ofText filename source).run.tokens, allowed token.kind) :
    Stmt.EachExprOfAll (fun _ => Expr.LegibleIn allowed) program.block.scope
      program.block.body := by
  obtain ⟨read, parsed, passed⟩ := ofSource_eq_ok accepted
  have tokensRead := parse_eq_ok_iff.mp parsed
  obtain ⟨fromSource, -⟩ := parse_fromSource parsed
  obtain ⟨opening, middle, ending, others, whole, opens, found, -⟩ :=
    Grammar.program_eq_ok.mp tokensRead
  have reads := Grammar.block_sound opens .start .start middle found
  rw [whole] at all
  obtain ⟨legible, -⟩ : read.block.stmt.EachExpr (fun _ => Expr.LegibleIn allowed)
      read.block.scope ∧ _ := reads.derived.legibleIn (List.forall_mem_map.mpr all)
  obtain ⟨body, bodyAccepted, rfl⟩ := check_eq_ok.mp passed
  obtain ⟨erased, -⟩ := Stmt.checkAll_sound reads.ordered _
    (Stmt.AllFromSource.tempFree _ fromSource) bodyAccepted
  exact Stmt.eachExprOfAll_of_erase_eq (fun _ _ => Expr.legibleIn_erase) erased legible

end ThreeAddress

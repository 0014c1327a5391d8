import ThreeAddress.Proofs.Lowering.NotedTypes
import ThreeAddress.Proofs.Names

namespace ThreeAddress

open Lowering Machine

/-- What holds of all instructions without expressions holds of the code if it holds of every
piece. -/
theorem Machine.Pieces.forall_iff {good : Nat → List Expr → List Instr → Prop}
    {sites : List (Nat × List Expr)} {code : List Instr} {fine : Instr → Prop}
    {fineSite : List Expr → Prop} (pieces : Pieces good sites code)
    (bare : ∀ instr : Instr, instr.exprs = [] → fine instr)
    (each : ∀ scope exprs piece, good scope exprs piece →
      ((∀ instr ∈ piece, fine instr) ↔ fineSite exprs)) :
    (∀ instr ∈ code, fine instr) ↔ ∀ site ∈ sites, fineSite site.2 := by
  induction pieces with
  | nil => simp only [List.not_mem_nil, false_implies, implies_true]
  | bare none _ ih =>
      rw [List.forall_mem_cons, ih]
      exact and_iff_right (bare _ none)
  | piece made _ ih => rw [List.forall_mem_append, List.forall_mem_cons, ih, each _ _ _ made]

namespace Stmt

/-- The code of an assignment or of a test in a scope, from reducing its expressions. -/
inductive SiteCode (scopes : Scopes) (home : Nat) : List Expr → List Instr → Prop
  | assign {target value targetCode targetResult valueCode valueResult}
      {before middle after : NameSupply} :
      target.isLocation = true →
      (target.reduce (scopes.typeOf? home) false).Gives before (targetCode, targetResult) middle →
      (value.reduce (scopes.typeOf? home) target.isAccess).Gives middle (valueCode, valueResult)
        after →
      SiteCode scopes home [target, value]
        (targetCode ++ valueCode ++ [.assign targetResult valueResult])
  | ifTrue (label) {condition code test} {before after : NameSupply} :
      (condition.reduce (scopes.typeOf? home) false).Gives before (code, test) after →
      SiteCode scopes home [condition] (code ++ [.ifTrue test label])
  | ifFalse (label) {condition code test} {before after : NameSupply} :
      (condition.reduce (scopes.typeOf? home) false).Gives before (code, test) after →
      SiteCode scopes home [condition] (code ++ [.ifFalse test label])

section

variable {scopes : Scopes} {scope : Nat} {condition : Expr} {code : List Instr}
  {before after : NameSupply}

theorem loopTest_sites {behind : Label}
    (tested : LoopTest (scopes.typeOf? scope) condition behind before code after) :
    Pieces (SiteCode scopes) (if condition.isTrue then [] else [(scope, [condition])]) code := by
  unfold LoopTest at tested
  split at tested
  · next always =>
      obtain ⟨rfl, rfl⟩ := tested
      rw [if_pos always]
      exact .nil
  · next sometimes =>
      obtain ⟨testCode, test, given, rfl⟩ := tested
      rw [if_neg sometimes]
      exact .single (.ifFalse behind given)

end

mutual

/-- The code of a statement is made of the code for its sites. -/
theorem lower_sites (stmt : Stmt) {scopes : Scopes} {inLoop : Bool} {scope : Nat}
    {exit? : Option Label} {code : List Instr} {before after : NameSupply}
    (resolved : stmt.Resolved scopes inLoop scope)
    (given : (stmt.lower scopes scope exit?).Gives before code after) :
    Pieces (SiteCode scopes) (stmt.sites scope) code := by
  match stmt with
  | .assign target value line =>
      obtain ⟨_, _, _, _, _, targetGiven, valueGiven, rfl⟩ := lower_assign_gives.mp given
      exact .single (.assign resolved.1 targetGiven valueGiven)
  | .ifThen condition body =>
      obtain ⟨_, _, afterTest, _, tested, bodyGiven, rfl⟩ := lower_ifThen_gives.mp given
      have last : Pieces (SiteCode scopes) [] [.label ⟨afterTest.labels + 1⟩] := .bare rfl .nil
      have whole := ((Pieces.single (.ifFalse ⟨afterTest.labels + 1⟩ tested)).append
        (lower_sites body resolved.2 bodyGiven)).append last
      simpa [sites] using whole
  | .ifThenElse condition body otherwise =>
      obtain ⟨_, _, afterTest, _, afterBody, _, tested, bodyGiven, elseGiven, rfl⟩ :=
        lower_ifThenElse_gives.mp given
      have middle : Pieces (SiteCode scopes) []
          [.goto ⟨afterBody.labels + 1⟩, .label ⟨afterTest.labels + 1⟩] :=
        .bare rfl (.bare rfl .nil)
      have last : Pieces (SiteCode scopes) [] [.label ⟨afterBody.labels + 1⟩] := .bare rfl .nil
      have whole := ((((Pieces.single (.ifFalse ⟨afterTest.labels + 1⟩ tested)).append
        (lower_sites body resolved.2.1 bodyGiven)).append middle).append
        (lower_sites otherwise resolved.2.2 elseGiven)).append last
      simpa [sites] using whole
  | .whileDo condition body =>
      obtain ⟨_, _, _, tested, bodyGiven, rfl⟩ := lower_whileDo_gives.mp given
      have first : Pieces (SiteCode scopes) [] [.label ⟨before.labels + 1⟩] := .bare rfl .nil
      have last : Pieces (SiteCode scopes) []
          [.goto ⟨before.labels + 1⟩, .label ⟨before.labels + 2⟩] := .bare rfl (.bare rfl .nil)
      have whole := ((first.append (loopTest_sites tested)).append
        (lower_sites body resolved.2 bodyGiven)).append last
      simpa [sites] using whole
  | .doWhile body condition =>
      obtain ⟨_, _, _, _, bodyGiven, tested, rfl⟩ := lower_doWhile_gives.mp given
      have first : Pieces (SiteCode scopes) [] [.label ⟨before.labels + 1⟩] := .bare rfl .nil
      have last : Pieces (SiteCode scopes) [] [.label ⟨before.labels + 2⟩] := .bare rfl .nil
      have whole := ((first.append (lower_sites body resolved.1 bodyGiven)).append
        (Pieces.single (.ifTrue ⟨before.labels + 1⟩ tested))).append last
      simpa [sites] using whole
  | .breakLoop =>
      obtain ⟨_, _, rfl, rfl⟩ := lower_breakLoop_gives.mp given
      exact .bare rfl .nil
  | .block inner _ body => exact lowerAll_sites body resolved (lower_block_gives.mp given)

theorem lowerAll_sites (body : List Stmt) {scopes : Scopes} {inLoop : Bool} {scope : Nat}
    {exit? : Option Label} {code : List Instr} {before after : NameSupply}
    (resolved : AllResolved scopes inLoop scope body)
    (given : (lowerAll scopes scope exit? body).Gives before code after) :
    Pieces (SiteCode scopes) (allSites scope body) code := by
  match body with
  | [] =>
      obtain ⟨rfl, -⟩ := lowerAll_nil_gives.mp given
      exact .nil
  | first :: rest =>
      obtain ⟨_, _, _, firstGiven, restGiven, rfl⟩ := lowerAll_cons_gives.mp given
      exact (lower_sites first resolved.1 firstGiven).append
        (lowerAll_sites rest resolved.2 restGiven)

end

mutual

/-- What holds of every expression of a statement holds at its sites. -/
theorem EachExpr.sites {good : Nat → Expr → Prop} (stmt : Stmt) {scope : Nat}
    (each : stmt.EachExpr good scope) :
    ∀ site ∈ stmt.sites scope, ∀ expr ∈ site.2, good site.1 expr := by
  match stmt with
  | .assign target value _ =>
      refine List.forall_mem_singleton.mpr (List.forall_mem_cons.mpr ⟨each.1, ?_⟩)
      exact List.forall_mem_singleton.mpr each.2
  | .ifThen condition body =>
      refine List.forall_mem_cons.mpr ⟨?_, EachExpr.sites body each.2⟩
      exact List.forall_mem_singleton.mpr each.1
  | .ifThenElse condition body otherwise =>
      refine List.forall_mem_cons.mpr ⟨?_, List.forall_mem_append.mpr
        ⟨EachExpr.sites body each.2.1, EachExpr.sites otherwise each.2.2⟩⟩
      exact List.forall_mem_singleton.mpr each.1
  | .whileDo condition body =>
      refine List.forall_mem_append.mpr ⟨?_, EachExpr.sites body each.2⟩
      split
      · nofun
      · exact List.forall_mem_singleton.mpr (List.forall_mem_singleton.mpr each.1)
  | .doWhile body condition =>
      refine List.forall_mem_append.mpr ⟨EachExpr.sites body each.1, ?_⟩
      exact List.forall_mem_singleton.mpr (List.forall_mem_singleton.mpr each.2)
  | .breakLoop => nofun
  | .block inner _ body => exact EachExprOfAll.sites body each

theorem EachExprOfAll.sites {good : Nat → Expr → Prop} (body : List Stmt) {scope : Nat}
    (each : EachExprOfAll good scope body) :
    ∀ site ∈ allSites scope body, ∀ expr ∈ site.2, good site.1 expr := by
  match body with
  | [] => nofun
  | first :: rest =>
      exact List.forall_mem_append.mpr
        ⟨EachExpr.sites first each.1, EachExprOfAll.sites rest each.2⟩

end

end Stmt

/-- The code of a text is made of the code for the sites of its program. -/
theorem Program.compile_sites {filename source : String} {code : List Instr}
    (compiled : compile filename source = .ok code) :
    ∃ program, ofSource filename source = .ok program ∧ program.WellFormed ∧
      Pieces (Stmt.SiteCode program.scopes)
        (Stmt.allSites program.block.scope program.block.body) code := by
  obtain ⟨program, after, accepted, given⟩ := compile_eq_ok compiled
  have wellFormed := ofSource_wellFormed accepted
  exact ⟨program, accepted, wellFormed,
    Stmt.lowerAll_sites program.block.body wellFormed.resolved given⟩

end ThreeAddress

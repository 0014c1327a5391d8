import Mathlib.Tactic
import ThreeAddress.Compile
import ThreeAddress.Proofs.Grammar.Complete
import ThreeAddress.Proofs.Grammar.Flatten

namespace ThreeAddress

/-- The end of the text is the last of the tokens, and no other token. -/
def Token.Ended (tokens : List Token) : Prop :=
  ∃ earlier ending, tokens = earlier ++ [ending] ∧ ending.kind = .eof ∧
    ∀ token ∈ earlier, token.kind ≠ .eof

/-- Without a fault, the whole text is read. -/
theorem Lexer.ended_of_clean (lexer : Lexer) (clean : lexer.run.failure = none) :
    Token.Ended lexer.run.tokens := by
  fun_induction Lexer.run lexer with
  | case1 lexer error after read => contradiction
  | case2 lexer token after read ended => exact ⟨[], token, rfl, ended, nofun⟩
  | case3 lexer token after read inside reading ih =>
      obtain ⟨earlier, ending, whole, ends, others⟩ := ih clean
      refine ⟨token :: earlier, ending, ?_, ends, List.forall_mem_cons.mpr ⟨inside, others⟩⟩
      rw [Reading.tokens, List.map_cons, ← Reading.tokens, whole, List.cons_append]

namespace Grammar

variable {tokens : List Token} {whole : Program}

/-- Nothing follows the end of the text after a derived statement. -/
theorem IsStatement.ends {visible : List String} {inLoop : Bool} {opened after : Nat}
    {others : List Token} {stmt : Stmt} {ending : Token} (ended : Token.Ended tokens)
    (derived : IsStatement visible inLoop opened tokens stmt after (ending :: others))
    (isEnd : ending.kind = .eof) : others = [] := by
  obtain ⟨earlier, last, rfl, ends, inside⟩ := ended
  obtain ⟨forms, -, flat⟩ := derived.kinds
  have notEarlier : Kind.eof ∉ earlier.map Token.kind := by
    intro member
    obtain ⟨token, among, kind⟩ := List.mem_map.mp member
    exact inside token among kind
  rw [List.map_append, List.map_singleton, List.map_cons, ends, isEnd,
    List.append_cons_inj_of_notMem notEarlier List.not_mem_nil] at flat
  exact List.map_eq_nil_iff.mp flat.2.2.symm

theorem program_sound (ended : Token.Ended tokens) (read : program tokens = .ok whole) :
    IsProgram tokens whole ∧ whole.block.stmt.ElsesNearest := by
  obtain ⟨opening, middle, ending, others, rfl, opens, found, isEnd⟩ := program_eq_ok.mp read
  have reads := block_sound opens .start .start middle found
  have last := reads.derived.ends ended isEnd
  subst last
  refine ⟨⟨⟨_, ending, isEnd, reads.derived⟩, ?_⟩, reads.nearest⟩
  rw [reads.grown]
  simp [Scopes.extend]

theorem program_complete (derived : IsProgram tokens whole)
    (nearest : whole.block.stmt.ElsesNearest) : program tokens = .ok whole := by
  obtain ⟨⟨scope, declarations, body⟩, scopes⟩ := whole
  obtain ⟨⟨opened, ending, isEnd, blockDerived⟩, grown⟩ := derived
  cases blockDerived with
  | block opens declared distinct members closes =>
      obtain ⟨final, read, -⟩ := statements_complete (Scopes.Around.start.block .start)
        (Scopes.Ordered.start.extend Scopes.Around.start.inside) Scopes.count_extend members
        (Stmt.elsesNearest_block.mp nearest) rfl closes
      have found := block_complete declared distinct members closes read
      have reads := block_sound opens .start .start _ found
      have same : final = scopes := by
        rw [reads.grown]
        exact congrArg Scopes.mk (Array.toList_inj.mp (by rw [grown]; rfl))
      subst same
      exact program_eq_ok.mpr ⟨_, _, ending, [], rfl, opens, found, isEnd⟩

/-- A sequence of tokens with a derivation also has the one that is read. -/
theorem IsProgram.nearest (derived : IsProgram tokens whole) :
    ∃ read, IsProgram tokens read ∧ read.block.stmt.ElsesNearest := by
  obtain ⟨⟨scope, declarations, body⟩, scopes⟩ := whole
  obtain ⟨⟨opened, ending, isEnd, blockDerived⟩, -⟩ := derived
  cases blockDerived with
  | block opens declared distinct members closes =>
      -- The scopes are made from the blocks of the new tree, not kept from the given one.
      obtain ⟨stmts, membersDerived, nearest⟩ := members.nearest
      have again := IsStatement.block opens declared distinct membersDerived closes
      exact ⟨⟨⟨0, _, stmts⟩, ⟨(Block.stmt ⟨0, _, stmts⟩).opens none |>.toArray⟩⟩,
        ⟨⟨opened, ending, isEnd, again⟩, rfl⟩, Stmt.elsesNearest_block.mpr nearest⟩

end Grammar

namespace Program

theorem parse_eq_ok_iff {filename source : String} {whole : Program} :
    parse filename source = .ok whole ↔
      Grammar.program (Lexer.ofText filename source).run.tokens = .ok whole := by
  rw [parse]
  cases Grammar.program (Lexer.ofText filename source).run.tokens <;> simp [Except.mapError]

/-- The parser reads exactly the texts with a derivation. It returns the tree of the derivation
with every `else` at the nearest `if`, and the tokens are those of that tree. -/
theorem parse_exact (filename source : String)
    (clean : (Lexer.ofText filename source).run.failure = none) :
    ((∃ whole, parse filename source = .ok whole) ↔
      ∃ whole, Grammar.IsProgram (Lexer.ofText filename source).run.tokens whole) ∧
    (∀ whole, parse filename source = .ok whole ↔
      Grammar.IsProgram (Lexer.ofText filename source).run.tokens whole ∧
        whole.block.stmt.ElsesNearest) ∧
    ∀ whole, parse filename source = .ok whole →
      ∃ forms, forms.length = whole.block.stmt.declarationCount ∧
        (Lexer.ofText filename source).run.tokens.map Token.kind =
          whole.block.stmt.kinds forms ++ [.eof] := by
  have ended := Lexer.ended_of_clean _ clean
  refine ⟨⟨?_, ?_⟩, fun whole => ⟨?_, ?_⟩, ?_⟩
  · rintro ⟨whole, read⟩
    exact ⟨whole, (Grammar.program_sound ended (parse_eq_ok_iff.mp read)).1⟩
  · rintro ⟨whole, derived⟩
    obtain ⟨read, readDerived, nearest⟩ := derived.nearest
    exact ⟨read, parse_eq_ok_iff.mpr (Grammar.program_complete readDerived nearest)⟩
  · intro read
    exact Grammar.program_sound ended (parse_eq_ok_iff.mp read)
  · rintro ⟨derived, nearest⟩
    exact parse_eq_ok_iff.mpr (Grammar.program_complete derived nearest)
  · intro whole read
    have derived := (Grammar.program_sound ended (parse_eq_ok_iff.mp read)).1
    obtain ⟨opened, ending, isEnd, blockDerived⟩ := derived.block
    obtain ⟨forms, length, flat⟩ := blockDerived.kinds
    rw [List.map_singleton, isEnd] at flat
    exact ⟨forms, length, flat⟩

/-- Both forms of a declaration, and an `else` behind two `if`s. -/
def danglingElse : String :=
  "\x7bint[1]a;int b[1];if(true)if(!true)a[0]=1;else b[0]=1-2*3;\x7d"

/-- The `else` is in the second `if`. -/
def danglingElseTree : Program where
  block := {
    scope := 0
    declarations := [⟨⟨.int, [1]⟩, ⟨"a", 1⟩⟩, ⟨⟨.int, [1]⟩, ⟨"b", 1⟩⟩]
    body := [.ifThen (.bool { line := 1 } true)
      (.ifThenElse (.unary { line := 1 } .not (.bool { line := 1 } true))
        (.assign (.loc { line := 1 } ⟨"a", 1⟩ [.int { line := 1 } 0]) (.int { line := 1 } 1) 1)
        (.assign (.loc { line := 1 } ⟨"b", 1⟩ [.int { line := 1 } 0])
          (.binary { line := 1 } .sub (.int { line := 1 } 1)
            (.binary { line := 1 } .mul (.int { line := 1 } 2) (.int { line := 1 } 3))) 1))] }
  scopes := ⟨#[⟨none, [⟨⟨.int, [1]⟩, ⟨"a", 1⟩⟩, ⟨⟨.int, [1]⟩, ⟨"b", 1⟩⟩]⟩]⟩

set_option maxRecDepth 2048 in
theorem danglingElse_derived :
    (Lexer.ofText "dangling" danglingElse).run.failure = none ∧
    parse "dangling" danglingElse = .ok danglingElseTree ∧
    Grammar.IsProgram (Lexer.ofText "dangling" danglingElse).run.tokens danglingElseTree ∧
    danglingElseTree.block.stmt.ElsesNearest ∧
    ∃ forms : List Declarator, forms.length = 2 ∧
      (Lexer.ofText "dangling" danglingElse).run.tokens.map Token.kind =
        danglingElseTree.block.stmt.kinds forms ++ [.eof] := by
  have clean : (Lexer.ofText "dangling" danglingElse).run.failure = none := by cbv
  have read : parse "dangling" danglingElse = .ok danglingElseTree := by cbv
  obtain ⟨-, derived, flat⟩ := parse_exact "dangling" danglingElse clean
  obtain ⟨isProgram, nearest⟩ := (derived danglingElseTree).mp read
  exact ⟨clean, read, isProgram, nearest, flat danglingElseTree read⟩

end Program

end ThreeAddress

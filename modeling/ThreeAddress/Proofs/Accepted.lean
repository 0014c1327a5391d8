import Mathlib.Tactic
import ThreeAddress.Compile
import ThreeAddress.Proofs.Grammar.Trees
import ThreeAddress.Proofs.Lowering.Steps
import ThreeAddress.Proofs.Typing.Resolved

namespace ThreeAddress

namespace Program

variable {filename source : String} {program : Program} {code : List Instr}

theorem parse_fromSource (read : parse filename source = .ok program) :
    Stmt.AllFromSource false program.block.body ∧ program.scopes.AllFit := by
  unfold parse at read
  dsimp only at read
  cases result : Grammar.program (Lexer.ofText filename source).run.tokens with
  | error failure =>
      rw [result] at read
      cases read
  | ok whole =>
      rw [result] at read
      cases read
      exact Grammar.program_fromSource result

theorem ofSource_eq_ok (accepted : ofSource filename source = .ok program) :
    ∃ read, parse filename source = .ok read ∧ read.check = (program, .ok ()) := by
  unfold ofSource at accepted
  cases result : parse filename source with
  | error error => simp [result, bind, Except.bind] at accepted
  | ok read =>
      simp only [result, bind, Except.bind] at accepted
      split at accepted
      · next checked passed =>
          cases accepted
          exact ⟨read, rfl, passed⟩
      · contradiction

theorem ofSource_wellFormed (accepted : ofSource filename source = .ok program) :
    program.WellFormed := by
  obtain ⟨read, parsed, passed⟩ := ofSource_eq_ok accepted
  obtain ⟨fromSource, allFit⟩ := parse_fromSource parsed
  exact check_wellFormed fromSource allFit passed

/-- The code of a text is that of its program, lowered with all names free. -/
theorem compile_eq_ok (compiled : compile filename source = .ok code) :
    ∃ program after, ofSource filename source = .ok program ∧
      (Stmt.lowerAll program.scopes program.block.scope none program.block.body).Gives
        ({} : NameSupply) code after := by
  unfold compile compileWith at compiled
  cases accepted : ofSource filename source with
  | error error => simp [accepted] at compiled
  | ok program =>
      simp only [accepted] at compiled
      cases lowered : program.lower {} with
      | mk result after =>
          cases result with
          | error fault =>
              rw [lowered] at compiled
              cases compiled
          | ok made =>
              rw [lowered] at compiled
              cases compiled
              exact ⟨program, after, rfl, lowered⟩

theorem compile_of_lower {after : NameSupply} (accepted : ofSource filename source = .ok program)
    (lowered : program.lower {} = (.ok code, after)) : compile filename source = .ok code := by
  unfold compile compileWith
  rw [accepted]
  dsimp only
  rw [lowered]
  rfl

end Program

end ThreeAddress

import ThreeAddress.Proofs.Grammar.Closed
import ThreeAddress.Proofs.Grammar.Language
import ThreeAddress.Proofs.Reformatting

namespace ThreeAddress

variable {tokens : List Token} {program checked : Program} {fault : TypeFault} {line : Nat}
  {filename source : String}

/-- All names and numbers stay, and lines are moved. -/
def Relabelling.ofLines (move : Nat → Nat) : Relabelling where
  name := id
  line := move
  temps := 0
  labels := 0
  name_injective := Function.injective_id

/-- The end of a text on this line. -/
def Token.ending (line : Nat) : Token :=
  ⟨.eof, { line }⟩

theorem Relabelling.ofLines_program {move : Nat → Nat} (read : Grammar.program tokens = .ok program)
    (still : ∀ token ∈ tokens, token.kind ≠ .eof → move token.line = token.line) :
    (ofLines move).program program = (ofLines id).program program := by
  obtain ⟨used, ending, later, rfl, inside, -, again⟩ := Grammar.program_ending read
  have relabelled (new : Relabelling) (last : Nat) :
      Grammar.program ((used ++ [Token.ending last]).map new.token) =
        .ok (new.program program) := by
    rw [Grammar.program_relabelled, again (Token.ending last) rfl]
    rfl
  -- The end of the text is read on any line, so it may be moved.
  have same : (used ++ [Token.ending 0]).map (ofLines move).token =
      (used ++ [Token.ending (move 0)]).map (ofLines id).token := by
    have front : used.map (ofLines move).token = used.map (ofLines id).token := by
      apply List.map_congr_left
      intro token member
      have stays := still token (List.mem_append_left _ member) (inside token member)
      simp only [Relabelling.token, ofLines, stays, id]
      rfl
    rw [List.map_append, List.map_append, front]
    rfl
  have moved := relabelled (ofLines move) 0
  rw [same, relabelled] at moved
  exact (Except.ok.inj moved).symm

/-- A type fault is on the line of a token. -/
theorem Program.check_line_mem (read : Grammar.program tokens = .ok program)
    (failed : program.check = (checked, .error (.broken fault line))) :
    ∃ token ∈ tokens, token.kind ≠ .eof ∧ token.line = line := by
  by_contra none
  -- Only lines without a token are moved, and the line of the fault should be one of them.
  let move (number : Nat) : Nat := if number = line then number + 1 else number
  have same : (Relabelling.ofLines move).program program =
      (Relabelling.ofLines id).program program := by
    apply Relabelling.ofLines_program read
    intro token member inside
    exact if_neg fun atLine => none ⟨token, member, inside, atLine⟩
  have failures (new : Relabelling) (still : new.temps = 0) :
      (new.program program).check.2 = .error (.broken (new.typeFault fault) (new.line line)) := by
    rw [check_relabelled still, failed]
    rfl
  have moved := failures (Relabelling.ofLines move) rfl
  rw [same, failures _ rfl] at moved
  simp [Relabelling.ofLines, move] at moved

/-- A text that is not read as a program has no type fault yet. -/
theorem Program.parse_ne_typing : parse filename source ≠ .error (.typing fault line) := by
  intro refused
  rw [parse] at refused
  cases read : Grammar.program (Lexer.ofText filename source).run.tokens with
  | ok program => simp [read, Except.mapError] at refused
  | error failure =>
      cases failure with
      | unexpected found unread => simp [read, Except.mapError, Lexer.Reading.error] at refused
      | brokenOff =>
          cases failed : (Lexer.ofText filename source).run.failure <;>
            simp [read, Except.mapError, Lexer.Reading.error, failed] at refused

theorem compile_typing (refused : compile filename source = .error (.typing fault line)) :
    ∃ program checked, Program.parse filename source = .ok program ∧
      program.check = (checked, .error (.broken fault line)) := by
  rw [compile_stages] at refused
  cases parsed : Program.parse filename source with
  | error error =>
      rw [parsed] at refused
      cases refused
      exact (Program.parse_ne_typing parsed).elim
  | ok program =>
      refine ⟨program, program.check.1, rfl, ?_⟩
      rw [parsed] at refused
      simp only [bind, Except.bind, Program.typed] at refused
      rcases result : program.check with ⟨checked, error | done⟩
      · rw [result] at refused
        cases error with
        | broken found place =>
            cases refused
            rfl
        | internal => cases refused
      · rw [result] at refused
        simp only [Program.code] at refused
        cases lowered : (checked.lower {}).1 <;> simp [lowered, Except.mapError] at refused

end ThreeAddress

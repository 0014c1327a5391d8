import ThreeAddress.Proofs.Accepted
import ThreeAddress.Proofs.Lowering.Agreement
import ThreeAddress.Proofs.Lowering.Parts

namespace ThreeAddress

/-!
# Variables of one name

In a program every block has its own variables. In its code a variable is no more
than its name, so the variables of one name in different blocks lie over each
other: a value that is assigned to one is read from the other wherever their
addresses meet.
-/

open Lowering Machine

/-- What a place of a program holds in a scope, when it is read out of the memory of the
code. -/
def Scopes.loadFlat (scopes : Scopes) (scope : Nat) (memory : Place → Value) :
    Place → Option Value
  | .cell name indices => do
      let declared ← scopes.typeOf? scope name
      if DeclaredType.inBounds declared.dims indices then
        some (memory (.cell name (declared.address indices)))
      else none
  | .temp _ => none

section

variable {Value : Type} {meaning : Interpretation Value} {scopes : Scopes} {scope : Nat}
  {memory : Place → Value}

theorem mirrors_loadFlat :
    Mirrors (scopes.typeOf? scope) (scopes.loadFlat scope memory) memory := by
  intro name declared indices value typed loaded
  simp only [Scopes.loadFlat, typed, Option.bind_eq_bind, Option.bind_some] at loaded
  split at loaded
  · exact Option.some.inj loaded
  · contradiction

theorem loadFlat_of_home {home : Nat} {name : String} {declaration : Declaration}
    {indices : List Int} (atHome : scopes.home? scope name = some home)
    (declared : scopes.declared? home name = some declaration)
    (within : DeclaredType.inBounds declaration.type.dims indices = true) :
    scopes.loadFlat scope memory (.cell name indices) =
      some (memory (.cell name (declaration.type.address indices))) := by
  simp [Scopes.loadFlat, Scopes.typeOf?_of_home atHome declared, within]

variable {home other line idLine : Nat} {name : String} {note : Note} {indices : List Expr}
  {value : Expr}

/-- An assignment of a program changes no variable of another block. -/
theorem execAssign_other_home {store final : Store Value}
    (own : scopes.home? scope name = some home) (different : other ≠ home)
    (assigned : Stmt.execAssign meaning scopes scope (.loc note ⟨name, idLine⟩ indices) value
      store = .done final) (numbers : List Int) :
    final ⟨other, name, numbers⟩ = store ⟨other, name, numbers⟩ := by
  unfold Stmt.execAssign at assigned
  dsimp only at assigned
  split at assigned
  · next cell result found evaluated =>
      cases assigned
      obtain ⟨place, aimed, targeted⟩ := Option.bind_eq_some_iff.mp found
      obtain ⟨given, -, rfl⟩ := Option.map_eq_some_iff.mp aimed
      obtain ⟨declaration, atHome, -⟩ := Scopes.cell?_eq_some targeted
      cases own.symm.trans atHome
      apply Function.update_of_ne
      intro same
      rcases same with rfl
      exact different rfl
  · contradiction

variable {program : Program} {code : List Instr} {filename source : String} {outer inner : Nat}
  {outerDeclaration innerDeclaration : Declaration}

/-- Of two variables of one name, an assignment to the inner one changes the outer one in the
code, though never in the program: its element at the address that was written is overwritten,
and no other. Such elements exist exactly if both variables are scalars, or both are arrays and
neither is empty. -/
theorem inner_assignment_overwrites (meaning : Interpretation Value)
    (accepted : Program.ofSource filename source = .ok program)
    (compiled : compile filename source = .ok code) (different : outer ≠ inner)
    (outerDeclared : program.scopes.declared? outer name = some outerDeclaration)
    (innerDeclared : program.scopes.declared? inner name = some innerDeclaration)
    (within : Stmt.Within (.assign (.loc note ⟨name, idLine⟩ indices) value line) scope
      program.block.scope program.block.stmt)
    (own : program.scopes.home? scope name = some inner) :
    (∀ store final numbers, Stmt.execAssign meaning program.scopes scope
        (.loc note ⟨name, idLine⟩ indices) value store = .done final →
      final ⟨outer, name, numbers⟩ = store ⟨outer, name, numbers⟩) ∧
    (∃ exit?, ∃ before : NameSupply, ∃ segment after start,
      ((Stmt.assign (.loc note ⟨name, idLine⟩ indices) value line).lower program.scopes scope
        exit?).Gives before segment after ∧
      CodeAt code start segment ∧
      ∀ memory numbers result,
        (Expr.loc note ⟨name, idLine⟩ indices).place? meaning
          (program.scopes.loadFlat scope memory) = some (.cell name numbers) →
        value.eval meaning (program.scopes.loadFlat scope memory) = some result →
        ∃ steps final,
          run meaning id code steps ⟨start, memory⟩ = some ⟨start + segment.length, final⟩ ∧
          ∀ back others, program.scopes.home? back name = some outer →
            DeclaredType.inBounds outerDeclaration.type.dims others = true →
            program.scopes.loadFlat back final (.cell name others) =
              if outerDeclaration.type.address others = innerDeclaration.type.address numbers
              then some result
              else program.scopes.loadFlat back memory (.cell name others)) ∧
    (outerDeclaration.type.Meets innerDeclaration.type ↔
      (outerDeclaration.type.dims = [] ↔ innerDeclaration.type.dims = []) ∧
        0 ∉ outerDeclaration.type.dims ∧ 0 ∉ innerDeclaration.type.dims) := by
  refine ⟨fun store final numbers assigned => execAssign_other_home own different assigned numbers,
    ?_, DeclaredType.meets_iff⟩
  obtain ⟨same, after, alsoAccepted, given⟩ := Program.compile_eq_ok compiled
  cases accepted.symm.trans alsoAccepted
  have wholeResolved : program.block.stmt.Resolved program.scopes false program.block.scope :=
    (Program.ofSource_wellFormed accepted).resolved
  obtain ⟨inLoop, resolved⟩ := within.resolved wholeResolved
  obtain ⟨exit?, before, segment, afterPart, start, partGiven, placed⟩ :=
    within.hasCode (Stmt.lower_block_gives.mpr given)
  refine ⟨exit?, before, segment, afterPart, start, partGiven, placed, ?_⟩
  intro memory numbers result aimed evaluated
  -- The memory need not agree with any store: the assignment goes by what it reads there.
  obtain ⟨_, _, declared, low, middle, samePlace, typed, keeps, passes⟩ :=
    assign_passes resolved partGiven mirrors_loadFlat aimed evaluated
  cases samePlace
  cases typed.symm.trans (Scopes.typeOf?_of_home own innerDeclared)
  obtain ⟨steps, ran⟩ := passes code start placed
  refine ⟨steps, _, ran, ?_⟩
  intro back others atOuter inside
  rw [loadFlat_of_home atOuter outerDeclared inside, loadFlat_of_home atOuter outerDeclared inside]
  split
  · next met => rw [met, Function.update_self]
  · next apart =>
      have elsewhere : Place.cell name (outerDeclaration.type.address others) ≠
          .cell name (innerDeclaration.type.address numbers) := by
        intro sameCell
        exact apart (Place.cell.inj sameCell).2
      rw [Function.update_of_ne elsewhere, keeps.cell]

end

/-- Copies a variable after a block has used its name. -/
def reuseName : String :=
  "\x7b int x; int y; x = 1; \x7b int x; x = 2; \x7d y = x; \x7d"

/-- The copy is of the outer variable in the program, and of the inner one in its code. -/
theorem reuseName_differs : ∃ program code final reached,
    Program.ofSource "reuse" reuseName = .ok program ∧ compile "reuse" reuseName = .ok code ∧
    program.EndsIn Interpretation.integers (fun _ => 0) final ∧ final ⟨0, "y", []⟩ = 1 ∧
    RunsTo Interpretation.integers id code (fun _ => 0) reached ∧ reached (.cell "y" []) = 2 := by
  have accepted : ∃ program code after final reached,
      Program.ofSource "reuse" reuseName = .ok program ∧
      program.lower {} = (.ok code, after) ∧
      program.EndsIn Interpretation.integers (fun _ => 0) final ∧ final ⟨0, "y", []⟩ = 1 ∧
      RunsTo Interpretation.integers id code (fun _ => 0) reached ∧
      reached (.cell "y" []) = 2 :=
    ⟨_, _, _, _, _, by cbv, rfl, ⟨0, rfl⟩, rfl, ⟨3, rfl⟩, rfl⟩
  obtain ⟨program, code, after, final, reached, accepted, lowered, runs⟩ := accepted
  exact ⟨program, code, final, reached, accepted, Program.compile_of_lower accepted lowered, runs⟩

def reuseNote : Note :=
  { line := 1, type := some .int }

/-- The code of the inner assignment, in whatever memory it is run, leaves its value to a read
of the outer variable. -/
theorem reuseName_overwritten : ∃ program code start segment,
    Program.ofSource "reuse" reuseName = .ok program ∧ compile "reuse" reuseName = .ok code ∧
    CodeAt code start segment ∧
    ∀ memory, ∃ steps final,
      run Interpretation.integers id code steps ⟨start, memory⟩ =
        some ⟨start + segment.length, final⟩ ∧
      program.scopes.loadFlat 0 final (.cell "x" []) = some 2 := by
  have accepted : ∃ program, Program.ofSource "reuse" reuseName = .ok program ∧
      (∃ code after, program.lower {} = (.ok code, after)) ∧
      program.scopes.declared? 0 "x" = some ⟨⟨.int, []⟩, ⟨"x", 1⟩⟩ ∧
      program.scopes.declared? 1 "x" = some ⟨⟨.int, []⟩, ⟨"x", 1⟩⟩ ∧
      program.scopes.home? 0 "x" = some 0 ∧ program.scopes.home? 1 "x" = some 1 ∧
      Stmt.Within (.assign (.loc reuseNote ⟨"x", 1⟩ []) (.int reuseNote 2) 1) 1
        program.block.scope program.block.stmt := by
    refine ⟨_, by cbv, ⟨_, _, rfl⟩, rfl, rfl, rfl, rfl, ?_⟩
    have inBlock : Stmt.Within (.assign (.loc reuseNote ⟨"x", 1⟩ []) (.int reuseNote 2) 1) 1 0
        (.block 1 [⟨⟨.int, []⟩, ⟨"x", 1⟩⟩]
          [.assign (.loc reuseNote ⟨"x", 1⟩ []) (.int reuseNote 2) 1]) :=
      .member (List.mem_singleton.mpr rfl) .whole
    exact .member (by simp [reuseNote, ValueType.int, ValueType.scalar]) inBlock
  obtain ⟨program, accepted, ⟨code, after, lowered⟩, outerDeclared, innerDeclared, atOuter, own,
    within⟩ := accepted
  have compiled := Program.compile_of_lower accepted lowered
  obtain ⟨-, ⟨_, _, segment, _, start, -, placed, runs⟩, -⟩ :=
    inner_assignment_overwrites Interpretation.integers accepted compiled (by decide)
      outerDeclared innerDeclared within own
  refine ⟨program, code, start, segment, accepted, compiled, placed, ?_⟩
  intro memory
  obtain ⟨steps, final, ran, reads⟩ := runs memory [] 2 rfl rfl
  exact ⟨steps, final, ran, reads 0 [] atOuter rfl⟩

end ThreeAddress

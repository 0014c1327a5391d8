import ThreeAddress.Proofs.Accepted
import ThreeAddress.Proofs.Lowering.Uses
import ThreeAddress.Proofs.Variables

namespace ThreeAddress

/-!
# Printed names

In the text of a listing a temporary is told from a variable by its name only. The
text runs like the instructions it lists unless a variable is declared under the
name of a temporary that the code uses, and nothing keeps a program from that.
-/

open Lowering Machine

/-- What the text of a listing calls a place: temporaries and variables alike by their names,
elements of an array with their byte offset behind it. -/
def printed : Place → String × List Int
  | .cell name indices => (name, indices)
  | .temp number => ((Expr.temp { line := 0 } number).text, [])

/-- Some variable is declared under the printed name of a temporary in the code. -/
def Clashes (scopes : Scopes) (code : List Instr) : Prop :=
  ∃ home name declaration note number, scopes.declared? home name = some declaration ∧
    OccursIn (.temp note number) code ∧ (Expr.temp note number).text = name

def Scopes.Declares (scopes : Scopes) (name : String) : Prop :=
  ∃ home declaration, scopes.declared? home name = some declaration

section

variable {scopes : Scopes} {program : Program} {code : List Instr} {filename source : String}
  {number high : Nat}

theorem occursIn_of_filled (member : number ∈ filled code) :
    ∃ note, OccursIn (.temp note number) code := by
  obtain ⟨instr, present, fills⟩ := List.mem_filterMap.mp member
  match instr, fills with
  | .assign (.temp note number) value, rfl =>
      exact ⟨note, _, present, .temp note number, by simp [Instr.exprs], by simp [Expr.nodes]⟩

/-- The code of a program uses its own variables and the temporaries taken for it. -/
theorem program_uses (accepted : Program.ofSource filename source = .ok program)
    (compiled : compile filename source = .ok code) :
    filled code = between 0 (program.lower {}).2.temps ∧
      CodeUses (Known program.scopes.Declares (program.lower {}).2.temps) code := by
  obtain ⟨same, after, alsoAccepted, given⟩ := Program.compile_eq_ok compiled
  cases accepted.symm.trans alsoAccepted
  have resolved := (Program.ofSource_wellFormed accepted).resolved
  have lowered : (program.lower {}).2 = after := congrArg Prod.snd given
  rw [lowered]
  refine ⟨(Stmt.lowerAll_takes program.block.body resolved given).temps, ?_⟩
  refine lowerAll_uses program.block.body ?_ resolved (Nat.le_refl _) given
  intro scope name declared typed
  obtain ⟨home, declaration, -, declares, -⟩ := Scopes.home?_of_typeOf typed
  exact ⟨home, declaration, declares⟩

/-- Exactly the temporaries taken for a program occur in its code. -/
theorem program_temporaries (accepted : Program.ofSource filename source = .ok program)
    (compiled : compile filename source = .ok code) :
    (∃ note, OccursIn (.temp note number) code) ↔
      1 ≤ number ∧ number ≤ (program.lower {}).2.temps := by
  obtain ⟨fills, uses⟩ := program_uses accepted compiled
  constructor
  · intro occurs
    rcases occurs with ⟨note, instr, member, expr, inside, below⟩
    exact Expr.uses_node expr (uses instr member expr inside) below
  · intro taken
    apply occursIn_of_filled
    rw [fills, mem_between]
    exact taken

theorem temp_text_injective {another : Nat}
    (same : "t" ++ toString number = "t" ++ toString another) : number = another := by
  have texts : Nat.repr number = Nat.repr another := (String.append_right_inj "t").mp same
  have digits : Nat.toDigits 10 number = Nat.toDigits 10 another := by
    rw [← Nat.toList_repr, texts, Nat.toList_repr]
  rw [← Nat.ofDigitChars_ten_toDigits (n := number), digits, Nat.ofDigitChars_ten_toDigits]

theorem printed_separates
    (apart : ∀ number, 1 ≤ number → number ≤ high → ¬ scopes.Declares ("t" ++ toString number)) :
    Separates (Known scopes.Declares high) printed := by
  intro place other used otherUsed same
  match place, other with
  | .cell name indices, .cell another others =>
      cases same
      rfl
  | .cell name indices, .temp number =>
      have named : name = "t" ++ toString number := congrArg Prod.fst same
      exact (apart number otherUsed.1 otherUsed.2 (named ▸ used)).elim
  | .temp number, .cell name indices =>
      have named : "t" ++ toString number = name := congrArg Prod.fst same
      exact (apart number used.1 used.2 (named ▸ otherUsed)).elim
  | .temp number, .temp another =>
      rw [temp_text_injective (congrArg Prod.fst same)]

/-- A variable has the printed name of a temporary of the code exactly if a program that takes
so many temporaries declares one of these names. If it declares none, the printed text runs like
the instructions, whatever the operators mean: step by step, at the same instruction and with
the same value in every variable and every temporary. -/
theorem printed_names_clash_iff (accepted : Program.ofSource filename source = .ok program)
    (compiled : compile filename source = .ok code) :
    (Clashes program.scopes code ↔ ∃ number, 1 ≤ number ∧
      number ≤ (program.lower {}).2.temps ∧
      program.scopes.Declares ("t" ++ toString number)) ∧
    (¬ Clashes program.scopes code →
      ∀ {Value : Type} (meaning : Interpretation Value) (memory : Place → Value) named steps,
        Holds (Known program.scopes.Declares (program.lower {}).2.temps) printed memory named →
        Option.Rel (Alike (Known program.scopes.Declares (program.lower {}).2.temps) printed)
          (run meaning id code steps ⟨0, memory⟩) (run meaning printed code steps ⟨0, named⟩)) := by
  have clash : Clashes program.scopes code ↔ ∃ number, 1 ≤ number ∧
      number ≤ (program.lower {}).2.temps ∧
      program.scopes.Declares ("t" ++ toString number) := by
    constructor
    · intro clashes
      rcases clashes with ⟨home, name, declaration, note, number, declared, occurs, rfl⟩
      obtain ⟨positive, taken⟩ := (program_temporaries accepted compiled).mp ⟨note, occurs⟩
      exact ⟨number, positive, taken, home, declaration, declared⟩
    · intro declares
      rcases declares with ⟨number, positive, taken, home, declaration, declared⟩
      obtain ⟨note, occurs⟩ := (program_temporaries accepted compiled).mpr ⟨positive, taken⟩
      exact ⟨home, _, declaration, note, number, declared, occurs, rfl⟩
  refine ⟨clash, ?_⟩
  intro noClash Value meaning memory named steps holds
  have apart : ∀ number, 1 ≤ number → number ≤ (program.lower {}).2.temps →
      ¬ program.scopes.Declares ("t" ++ toString number) :=
    fun number positive taken declares =>
      noClash (clash.mpr ⟨number, positive, taken, declares⟩)
  exact run_alike (printed_separates apart) (program_uses accepted compiled).2 steps ⟨rfl, holds⟩

end

/-- Stores a variable that has the name of the first temporary. -/
def storeFirst : String :=
  "\x7b int t1; int a[2]; a[1] = t1; \x7d"

/-- The variable is stored by the instructions. In the text they print to, its name holds the
offset of the element by then. -/
theorem storeFirst_differs : ∃ program code final named,
    Program.ofSource "store" storeFirst = .ok program ∧ compile "store" storeFirst = .ok code ∧
    Clashes program.scopes code ∧
    RunsTo Interpretation.integers id code
      (fun place => if place = .cell "t1" [] then 9 else 0) final ∧
    final (.cell "a" [4]) = 9 ∧
    RunsTo Interpretation.integers printed code
      (fun address => if address = ("t1", []) then 9 else 0) named ∧
    named ("a", [4]) = 4 := by
  have accepted : ∃ program code after final named,
      Program.ofSource "store" storeFirst = .ok program ∧
      program.lower {} = (.ok code, after) ∧ Clashes program.scopes code ∧
      RunsTo Interpretation.integers id code
        (fun place => if place = .cell "t1" [] then 9 else 0) final ∧
      final (.cell "a" [4]) = 9 ∧
      RunsTo Interpretation.integers printed code
        (fun address => if address = ("t1", []) then 9 else 0) named ∧
      named ("a", [4]) = 4 := by
    refine ⟨_, _, _, _, _, by cbv, rfl, ?_, ⟨2, rfl⟩, rfl, ⟨2, rfl⟩, rfl⟩
    refine ⟨0, "t1", ⟨⟨.int, []⟩, ⟨"t1", 1⟩⟩, { line := 1, type := some .int }, 1, rfl, ?_, rfl⟩
    exact ⟨_, List.mem_cons_self, _, List.mem_cons_self, List.mem_cons_self⟩
  obtain ⟨program, code, after, final, named, accepted, lowered, runs⟩ := accepted
  exact ⟨program, code, final, named, accepted, Program.compile_of_lower accepted lowered, runs⟩

/-- Stores a variable that has the name of a temporary that is not taken. -/
def storeSecond : String :=
  "\x7b int t2; int a[2]; a[1] = t2; \x7d"

/-- The text of this code runs like its instructions, from a memory where the variable holds a
nine. -/
theorem storeSecond_runs_alike : ∃ program code,
    Program.ofSource "store" storeSecond = .ok program ∧
    compile "store" storeSecond = .ok code ∧ ¬ Clashes program.scopes code ∧
    ∀ steps, Option.Rel (Alike (Known program.scopes.Declares 1) printed)
      (run Interpretation.integers id code steps
        ⟨0, fun place => if place = .cell "t2" [] then 9 else 0⟩)
      (run Interpretation.integers printed code steps
        ⟨0, fun address => if address = ("t2", []) then 9 else 0⟩) := by
  have accepted : ∃ program, Program.ofSource "store" storeSecond = .ok program ∧
      (∃ code after, program.lower {} = (.ok code, after)) ∧
      (program.lower {}).2.temps = 1 ∧ ¬ program.scopes.Declares "t1" := by
    refine ⟨_, by cbv, ⟨_, _, rfl⟩, rfl, ?_⟩
    intro declares
    rcases declares with ⟨home, declaration, declared⟩
    rcases home with _ | home
    · simp [Scopes.declared?, Scope.find?, Declaration.name] at declared
    · simp [Scopes.declared?] at declared
  obtain ⟨program, accepted, ⟨code, after, lowered⟩, taken, absent⟩ := accepted
  have compiled := Program.compile_of_lower accepted lowered
  obtain ⟨clash, alike⟩ := printed_names_clash_iff accepted compiled
  have noClash : ¬ Clashes program.scopes code := by
    rw [clash, taken]
    intro declares
    rcases declares with ⟨number, positive, small, declares⟩
    obtain rfl : number = 1 := Nat.le_antisymm small positive
    exact absent declares
  refine ⟨program, code, accepted, compiled, noClash, ?_⟩
  intro steps
  rw [taken] at alike
  apply alike noClash
  intro place known
  cases place with
  | cell name indices => simp [printed]
  | temp number =>
      obtain rfl : number = 1 := Nat.le_antisymm known.2 known.1
      rfl

end ThreeAddress

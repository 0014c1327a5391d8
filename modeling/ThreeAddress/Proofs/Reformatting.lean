import ThreeAddress.Code.Listing
import ThreeAddress.Proofs.Accepted
import ThreeAddress.Proofs.Grammar.Relabelled
import ThreeAddress.Proofs.Lowering.Relabelled
import ThreeAddress.Proofs.Typing.Relabelled

namespace ThreeAddress

variable {new : Relabelling}

def Relabelling.compileError (new : Relabelling) : CompileError → CompileError
  | .lexical error => .lexical error
  | .syntactic fault _ => .syntactic (new.syntaxFault fault) {}
  | .typing fault line => .typing (new.typeFault fault) (new.line line)
  | .internal fault => .internal (new.internalFault fault)
  | .inaccessible path reason => .inaccessible path reason

/-- The result of a stage of the compiler. The excerpt of an error is forgotten. -/
def Relabelling.stage {α β : Type} (new : Relabelling) (image : α → β)
    (result : Except CompileError α) : Except CompileError β :=
  (result.map image).mapError new.compileError

/-- The error of a failure to read a program, where nothing is known of the source. -/
def Grammar.Failure.error : Grammar.Failure → CompileError
  | .unexpected fault _ => .syntactic fault {}
  | .brokenOff => .syntactic .endOfFile {}

namespace Program

def typed (program : Program) : Except CompileError Program :=
  match program.check with
  | (program, .ok ()) => .ok program
  | (_, .error error) => .error (.ofCheck error)

def code (names : NameSupply) (program : Program) : Except CompileError (List Instr) :=
  (program.lower names).1.mapError .internal

end Program

/-- Compiles tokens with the names that earlier programs have left. -/
def compileTokens (names : NameSupply) (tokens : List Token) :
    Except CompileError (List Instr) := do
  let program ← (Grammar.program tokens).mapError Grammar.Failure.error
  let typed ← program.typed
  typed.code names

variable {filename source : String}

theorem compile_stages : compile filename source =
    Program.parse filename source >>= Program.typed >>= Program.code {} := by
  unfold compile compileWith Program.ofSource
  cases Program.parse filename source with
  | error error => rfl
  | ok program =>
      dsimp only [bind, Except.bind, Program.typed]
      rcases program.check with ⟨checked, error | _⟩
      · rfl
      · rfl

theorem Relabelling.stage_bind {α β γ δ : Type} {image : α → β} {result : γ → δ}
    {work : Except CompileError α} {next : α → Except CompileError γ}
    {onward : β → Except CompileError δ}
    (follows : ∀ value, onward (image value) = new.stage result (next value)) :
    new.stage result (work >>= next) = new.stage image work >>= onward := by
  cases work with
  | error error => rfl
  | ok value => exact (follows value).symm

theorem parse_stage (clean : (Lexer.ofText filename source).run.failure = none) :
    new.stage new.program (Program.parse filename source) =
      (Grammar.program ((Lexer.ofText filename source).run.tokens.map new.token)).mapError
        Grammar.Failure.error := by
  rw [Grammar.program_relabelled, Program.parse]
  cases Grammar.program (Lexer.ofText filename source).run.tokens with
  | ok program => rfl
  | error failure =>
      cases failure with
      | unexpected fault unread => rfl
      | brokenOff =>
          simp only [Lexer.Reading.error, clean, Except.mapError]
          rfl

theorem typed_stage (still : new.temps = 0) (program : Program) :
    (new.program program).typed = new.stage new.program program.typed := by
  rw [Program.typed, Program.typed, Program.check_relabelled still]
  rcases program.check with ⟨checked, error | _⟩
  · cases error <;> rfl
  · rfl

theorem code_stage (program : Program) (names : NameSupply) :
    (new.program program).code (new.names names) = new.stage new.code (program.code names) := by
  rw [Program.code, Program.code, Program.lower_relabelled]
  rcases program.lower names with ⟨fault | code, after⟩
  · rfl
  · rfl

/-- What a text without a lexical fault is compiled to hangs on its tokens alone. -/
theorem compile_relabelled (still : new.temps = 0)
    (clean : (Lexer.ofText filename source).run.failure = none) :
    new.stage new.code (compile filename source) = compileTokens (new.names {})
      ((Lexer.ofText filename source).run.tokens.map new.token) := by
  rw [compile_stages, compileTokens, ← parse_stage clean,
    Relabelling.stage_bind fun program => code_stage program {},
    Relabelling.stage_bind (typed_stage still)]
  exact bind_assoc ..

/-- All names and numbers stay, but all lines become one. -/
def Relabelling.unlined : Relabelling where
  name := id
  line := fun _ => 0
  temps := 0
  labels := 0
  name_injective := Function.injective_id

namespace Relabelling

theorem unlined_kind (kind : Kind) : unlined.kind kind = kind := by
  cases kind <;> rfl

theorem unlined_syntaxFault (fault : SyntaxFault) : unlined.syntaxFault fault = fault := by
  cases fault with
  | expected wanted found => rw [syntaxFault, unlined_kind, unlined_kind]
  | noIdentifier found | noArraySize found | noFactor found | noStatement found =>
      rw [syntaxFault, unlined_kind]
  | _ => rfl

theorem unlined_typeFault (fault : TypeFault) : unlined.typeFault fault = fault := by
  cases fault <;> rfl

theorem unlined_internalFault (fault : InternalFault) : unlined.internalFault fault = fault := by
  cases fault <;> rfl

theorem unlined_tokens {first second : List Token}
    (same : first.map Token.kind = second.map Token.kind) :
    first.map unlined.token = second.map unlined.token := by
  have kinds (tokens : List Token) : tokens.map unlined.token =
      (tokens.map Token.kind).map fun kind => ⟨kind, {}⟩ := by
    rw [List.map_map]
    congr
    funext token
    rw [Relabelling.token, unlined_kind]
    rfl
  rw [kinds, kinds, same]

mutual

theorem unlined_text (expr : Expr) : (unlined.expr expr).text = expr.text := by
  match expr with
  | .binary note op left right =>
      rw [Relabelling.expr, Expr.text, Expr.text, unlined_text left, unlined_text right]
  | .unary note op operand =>
      rw [Relabelling.expr, Expr.text, Expr.text, unlined_text operand]
  | .paren note inner => rw [Relabelling.expr, Expr.text, Expr.text, unlined_text inner]
  | .loc note id indices =>
      rw [Relabelling.expr, Expr.text, Expr.text, unlined_indicesText indices]
      rfl
  | .int note value | .real note value | .bool note value | .temp note number => rfl

theorem unlined_indicesText (indices : List Expr) :
    Expr.indicesText (unlined.exprs indices) = Expr.indicesText indices := by
  match indices with
  | [] => rfl
  | index :: rest =>
      rw [exprs, Expr.indicesText, Expr.indicesText, unlined_text index, unlined_indicesText rest]

end

theorem unlined_instr_text (instr : Instr) : (unlined.instr instr).text = instr.text := by
  cases instr <;> simp [Relabelling.instr, Instr.text, unlined_text] <;> rfl

theorem unlined_linesFrom (waiting : Option Label) (code : List Instr) :
    Listing.linesFrom waiting (unlined.code code) = Listing.linesFrom waiting code := by
  fun_induction Listing.linesFrom waiting code with
  | case1 => rfl
  | case2 => rfl
  | case3 next rest ih => exact ih
  | case4 label next rest ih => exact congrArg (_ :: ·) ih
  | case5 waiting instr rest notFirst notLater ih =>
      rw [← unlined_instr_text instr, ← ih]
      cases instr with
      | label next =>
          cases waiting with
          | none => exact (notFirst next rfl rfl).elim
          | some label => exact (notLater label next rfl rfl).elim
      | _ => cases waiting <;> rfl

end Relabelling

/-- Code is listed without its lines. -/
theorem render_unlined (code : List Instr) :
    Listing.render (Relabelling.unlined.code code) = Listing.render code := by
  rw [Listing.render, Listing.lines, Relabelling.unlined_linesFrom, Listing.render, Listing.lines]

/-- Two errors are about the same fault, wherever it stands. -/
inductive CompileError.SameFault : CompileError → CompileError → Prop
  | lexical {error} : SameFault (.lexical error) (.lexical error)
  | syntactic {fault excerpt other} : SameFault (.syntactic fault excerpt) (.syntactic fault other)
  | typing {fault line other} : SameFault (.typing fault line) (.typing fault other)
  | internal {fault} : SameFault (.internal fault) (.internal fault)
  | inaccessible {path reason} : SameFault (.inaccessible path reason) (.inaccessible path reason)

namespace CompileError

variable {error other : CompileError}

theorem SameFault.message (same : SameFault error other) : error.message = other.message := by
  cases same <;> rfl

theorem sameFault_of_unlined
    (same : Relabelling.unlined.compileError error = Relabelling.unlined.compileError other) :
    SameFault error other := by
  cases error <;> cases other <;>
    simp only [Relabelling.compileError, Relabelling.unlined_syntaxFault,
      Relabelling.unlined_typeFault, Relabelling.unlined_internalFault] at same <;>
    cases same <;> constructor

end CompileError

/-- Two texts with the same tokens are both accepted, with the same code up to its lines and with
the same listing, or both refused, for the same fault and with the same message. -/
theorem compile_reformatted {filename otherName other : String}
    (clean : (Lexer.ofText filename source).run.failure = none)
    (otherClean : (Lexer.ofText otherName other).run.failure = none)
    (kinds : (Lexer.ofText filename source).run.tokens.map Token.kind =
      (Lexer.ofText otherName other).run.tokens.map Token.kind) :
    (∃ code otherCode, compile filename source = .ok code ∧
      compile otherName other = .ok otherCode ∧
      Relabelling.unlined.code code = Relabelling.unlined.code otherCode ∧
      Listing.render code = Listing.render otherCode) ∨
    ∃ error otherError, compile filename source = .error error ∧
      compile otherName other = .error otherError ∧ error.SameFault otherError ∧
      error.message = otherError.message := by
  have same : Relabelling.unlined.stage Relabelling.unlined.code (compile filename source) =
      Relabelling.unlined.stage Relabelling.unlined.code (compile otherName other) := by
    rw [compile_relabelled rfl clean, compile_relabelled rfl otherClean,
      Relabelling.unlined_tokens kinds]
  cases made : compile filename source with
  | ok code =>
      cases otherMade : compile otherName other with
      | ok otherCode =>
          rw [made, otherMade] at same
          have codes : Relabelling.unlined.code code = Relabelling.unlined.code otherCode :=
            Except.ok.inj same
          refine .inl ⟨code, otherCode, rfl, rfl, codes, ?_⟩
          rw [← render_unlined, codes, render_unlined]
      | error otherError =>
          rw [made, otherMade] at same
          cases same
  | error error =>
      cases otherMade : compile otherName other with
      | ok otherCode =>
          rw [made, otherMade] at same
          cases same
      | error otherError =>
          rw [made, otherMade] at same
          have faults := CompileError.sameFault_of_unlined (Except.error.inj same)
          exact .inr ⟨error, otherError, rfl, rfl, faults, faults.message⟩

/-- A program on one line. -/
def oneLine : String :=
  "\x7bint x; x = 1+2;\x7d"

/-- The same program with more blanks and line breaks. -/
def threeLines : String :=
  "\x7b int\n x ;\t x =1 \r\n + 2; \x7d "

set_option maxRecDepth 2048 in
theorem oneLine_reformatted :
    ((Lexer.ofText "one" oneLine).run.failure = none ∧
      (Lexer.ofText "three" threeLines).run.failure = none ∧
      (Lexer.ofText "one" oneLine).run.tokens.map Token.kind =
        (Lexer.ofText "three" threeLines).run.tokens.map Token.kind) ∧
    ∃ code otherCode, compile "one" oneLine = .ok code ∧
      compile "three" threeLines = .ok otherCode ∧
      Relabelling.unlined.code code = Relabelling.unlined.code otherCode ∧
      Listing.render code = Listing.render otherCode := by
  have clean : (Lexer.ofText "one" oneLine).run.failure = none := by cbv
  have otherClean : (Lexer.ofText "three" threeLines).run.failure = none := by cbv
  have kinds : (Lexer.ofText "one" oneLine).run.tokens.map Token.kind =
      (Lexer.ofText "three" threeLines).run.tokens.map Token.kind := by cbv
  have accepted : ∃ program, Program.ofSource "one" oneLine = .ok program ∧
      ∃ code after, program.lower {} = (.ok code, after) := ⟨_, by cbv, _, _, rfl⟩
  obtain ⟨program, accepted, code, after, lowered⟩ := accepted
  have compiled : compile "one" oneLine = .ok code :=
    Program.compile_of_lower accepted lowered
  refine ⟨⟨clean, otherClean, kinds⟩, ?_⟩
  rcases compile_reformatted clean otherClean kinds with both | ⟨error, _, refused, -⟩
  · exact both
  · cases compiled.symm.trans refused

end ThreeAddress

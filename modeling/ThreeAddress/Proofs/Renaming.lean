import ThreeAddress.Proofs.Lexing.Renamed
import ThreeAddress.Proofs.Reformatting

namespace ThreeAddress

/-!
# Other names for the variables

A text whose identifiers are replaced one to one by other identifiers is compiled to the same
code with the other names, or refused at the same stage. A renaming of the finitely many names of
a text extends to all words in more than one way, and the passes commute with each extension.
What all extensions agree on are the names of the text, so no other name is in the code.
-/

mutual

/-- Replaces the names of variables. Lines, types and temporaries stay. -/
def Expr.renamed (rename : String → String) : Expr → Expr
  | .binary note op left right => .binary note op (left.renamed rename) (right.renamed rename)
  | .unary note op operand => .unary note op (operand.renamed rename)
  | .paren note inner => .paren note (inner.renamed rename)
  | .loc note id indices =>
      .loc note { id with name := rename id.name } (Expr.allRenamed rename indices)
  | .int note value => .int note value
  | .real note value => .real note value
  | .bool note value => .bool note value
  | .temp note number => .temp note number

def Expr.allRenamed (rename : String → String) : List Expr → List Expr
  | [] => []
  | index :: rest => index.renamed rename :: Expr.allRenamed rename rest

end

def Instr.renamed (rename : String → String) : Instr → Instr
  | .assign target value => .assign (target.renamed rename) (value.renamed rename)
  | .label here => .label here
  | .goto target => .goto target
  | .ifTrue condition target => .ifTrue (condition.renamed rename) target
  | .ifFalse condition target => .ifFalse (condition.renamed rename) target

mutual

theorem Expr.renamed_id (expr : Expr) : expr.renamed id = expr := by
  match expr with
  | .binary note op left right => rw [Expr.renamed, left.renamed_id, right.renamed_id]
  | .unary note op operand => rw [Expr.renamed, operand.renamed_id]
  | .paren note inner => rw [Expr.renamed, inner.renamed_id]
  | .loc note name indices => rw [Expr.renamed, Expr.allRenamed_id indices, id]
  | .int _ _ | .real _ _ | .bool _ _ | .temp _ _ => rfl

theorem Expr.allRenamed_id (indices : List Expr) : Expr.allRenamed id indices = indices := by
  match indices with
  | [] => rfl
  | index :: rest => rw [Expr.allRenamed, index.renamed_id, Expr.allRenamed_id rest]

end

theorem Instr.renamed_id (instr : Instr) : instr.renamed id = instr := by
  cases instr <;> simp only [Instr.renamed, Expr.renamed_id]

theorem map_renamed_id (code : List Instr) : code.map (Instr.renamed id) = code :=
  List.map_id'' Instr.renamed_id code

section

variable {first second rename : String → String}

/-- Where the first two renamings agree, the third one agrees with them. -/
def Agree (first second rename : String → String) : Prop :=
  ∀ name, first name = second name → first name = rename name

mutual

theorem Expr.renamed_agree (agree : Agree first second rename) (expr : Expr)
    (same : expr.renamed first = expr.renamed second) :
    expr.renamed first = expr.renamed rename := by
  match expr with
  | .binary note op left right =>
      obtain ⟨-, -, leftSame, rightSame⟩ := Expr.binary.inj same
      rw [Expr.renamed, left.renamed_agree agree leftSame,
        right.renamed_agree agree rightSame, Expr.renamed]
  | .unary note op operand =>
      obtain ⟨-, -, operandSame⟩ := Expr.unary.inj same
      rw [Expr.renamed, operand.renamed_agree agree operandSame, Expr.renamed]
  | .paren note inner =>
      obtain ⟨-, innerSame⟩ := Expr.paren.inj same
      rw [Expr.renamed, inner.renamed_agree agree innerSame, Expr.renamed]
  | .loc note name indices =>
      obtain ⟨-, nameSame, indicesSame⟩ := Expr.loc.inj same
      rw [Expr.renamed, Expr.allRenamed_agree agree indices indicesSame,
        agree _ (Ident.mk.inj nameSame).1, Expr.renamed]
  | .int _ _ | .real _ _ | .bool _ _ | .temp _ _ => rfl

theorem Expr.allRenamed_agree (agree : Agree first second rename) (indices : List Expr)
    (same : Expr.allRenamed first indices = Expr.allRenamed second indices) :
    Expr.allRenamed first indices = Expr.allRenamed rename indices := by
  match indices with
  | [] => rfl
  | index :: rest =>
      obtain ⟨indexSame, restSame⟩ := List.cons.inj same
      rw [Expr.allRenamed, index.renamed_agree agree indexSame,
        Expr.allRenamed_agree agree rest restSame,
        Expr.allRenamed]

end

theorem Instr.renamed_agree (agree : Agree first second rename) (instr : Instr)
    (same : instr.renamed first = instr.renamed second) :
    instr.renamed first = instr.renamed rename := by
  cases instr with
  | assign target value =>
      obtain ⟨targetSame, valueSame⟩ := Instr.assign.inj same
      rw [Instr.renamed, target.renamed_agree agree targetSame,
        value.renamed_agree agree valueSame, Instr.renamed]
  | label here => rfl
  | goto target => rfl
  | ifTrue condition target =>
      rw [Instr.renamed, condition.renamed_agree agree (Instr.ifTrue.inj same).1, Instr.renamed]
  | ifFalse condition target =>
      rw [Instr.renamed, condition.renamed_agree agree (Instr.ifFalse.inj same).1, Instr.renamed]

theorem map_renamed_agree {code : List Instr} (agree : Agree first second rename)
    (same : code.map (Instr.renamed first) = code.map (Instr.renamed second)) :
    code.map (Instr.renamed first) = code.map (Instr.renamed rename) :=
  List.map_congr_left fun instr member =>
    instr.renamed_agree agree (List.map_inj_left.mp same instr member)

end

namespace Relabelling

/-- Names change, and nothing else. -/
def ofNames (rename : String → String) (injective : Function.Injective rename) : Relabelling where
  name := rename
  line := id
  temps := 0
  labels := 0
  name_injective := injective

variable {rename : String → String} {injective : Function.Injective rename}

mutual

theorem ofNames_expr (expr : Expr) :
    (ofNames rename injective).expr expr = expr.renamed rename := by
  match expr with
  | .binary note op left right =>
      rw [Relabelling.expr, ofNames_expr left, ofNames_expr right]
      rfl
  | .unary note op operand =>
      rw [Relabelling.expr, ofNames_expr operand]
      rfl
  | .paren note inner =>
      rw [Relabelling.expr, ofNames_expr inner]
      rfl
  | .loc note name indices =>
      rw [Relabelling.expr, ofNames_exprs indices]
      rfl
  | .int _ _ | .real _ _ | .bool _ _ | .temp _ _ => rfl

theorem ofNames_exprs (indices : List Expr) :
    (ofNames rename injective).exprs indices = Expr.allRenamed rename indices := by
  match indices with
  | [] => rfl
  | index :: rest =>
      rw [exprs, ofNames_expr index, ofNames_exprs rest]
      rfl

end

theorem ofNames_code (code : List Instr) :
    (ofNames rename injective).code code = code.map (Instr.renamed rename) := by
  refine List.map_congr_left fun instr _ => ?_
  cases instr <;> simp only [Relabelling.instr, Instr.renamed, ofNames_expr] <;> rfl

end Relabelling

/-- More characters than the image of any of the names has. -/
def fillers (rename : String → String) (names : List String) : Nat :=
  (names.map fun name => (rename name).length).sum + 1

/-- Extends a renaming of some names to all words: a word that is none of them is put behind so many
fillers that it is longer than every image. -/
def extendedRenaming (rename : String → String) (names : List String) (filler : Char)
    (word : String) : String :=
  if word ∈ names then rename word
  else String.ofList (List.replicate (fillers rename names) filler ++ word.toList)

section

variable {rename : String → String} {names : List String} {filler other : Char} {word : String}

theorem extendedRenaming_of_mem (member : word ∈ names) :
    extendedRenaming rename names filler word = rename word :=
  if_pos member

theorem extendedRenaming_foreign {name : String} (member : name ∈ names) (foreign : word ∉ names) :
    extendedRenaming rename names filler name ≠ extendedRenaming rename names filler word := by
  have image : (rename name).length ≤ (names.map fun name => (rename name).length).sum :=
    List.single_le_sum (fun _ _ => Nat.zero_le _) _ (List.mem_map_of_mem member)
  intro same
  have lengths := congrArg String.length same
  rw [extendedRenaming_of_mem member, extendedRenaming, if_neg foreign, String.length_ofList,
    List.length_append, List.length_replicate, fillers] at lengths
  omega

theorem extendedRenaming_injective
    (injective : ∀ first ∈ names, ∀ second ∈ names, rename first = rename second →
      first = second) : Function.Injective (extendedRenaming rename names filler) := by
  intro first second same
  by_cases firstMember : first ∈ names
  · by_cases secondMember : second ∈ names
    · rw [extendedRenaming_of_mem firstMember, extendedRenaming_of_mem secondMember] at same
      exact injective first firstMember second secondMember same
    · exact (extendedRenaming_foreign firstMember secondMember same).elim
  · by_cases secondMember : second ∈ names
    · exact (extendedRenaming_foreign secondMember firstMember same.symm).elim
    · rw [extendedRenaming, extendedRenaming, if_neg firstMember, if_neg secondMember] at same
      exact String.toList_inj.mp (List.append_cancel_left (String.ofList_injective same))

/-- With different fillers, two extensions agree on the names only. -/
theorem extendedRenaming_agree (different : filler ≠ other) :
    Agree (extendedRenaming rename names filler) (extendedRenaming rename names other) rename := by
  intro word same
  by_cases member : word ∈ names
  · exact extendedRenaming_of_mem member
  · rw [extendedRenaming, extendedRenaming, if_neg member, if_neg member, fillers,
      List.replicate_succ, List.replicate_succ] at same
    exact (different (List.cons.inj (String.ofList_injective same)).1).elim

end

def renamedSource (rename : String → String) (source : String) : String :=
  String.ofList (renamedText rename source.toList)

/-- Two errors are raised by the same stage of the compiler, those of the check on the same line. -/
inductive CompileError.SameVariant : CompileError → CompileError → Prop
  | lexical {error other} : SameVariant (.lexical error) (.lexical other)
  | syntactic {fault other excerpt otherExcerpt} :
      SameVariant (.syntactic fault excerpt) (.syntactic other otherExcerpt)
  | typing {fault other line} : SameVariant (.typing fault line) (.typing other line)
  | internal {fault other} : SameVariant (.internal fault) (.internal other)
  | inaccessible {path reason otherPath otherReason} :
      SameVariant (.inaccessible path reason) (.inaccessible otherPath otherReason)

section

variable {filename otherName source : String} {rename extension : String → String}

theorem sameVariant_of_ofNames {first second : String → String}
    {firstInjective : Function.Injective first} {secondInjective : Function.Injective second}
    {error other : CompileError}
    (same : (Relabelling.ofNames first firstInjective).compileError error =
      (Relabelling.ofNames second secondInjective).compileError other) :
    error.SameVariant other := by
  cases error with
  | typing fault line =>
      cases other with
      | typing otherFault otherLine =>
          obtain ⟨-, lines⟩ := CompileError.typing.inj same
          obtain rfl : line = otherLine := lines
          exact .typing
      | _ => cases same
  | _ => cases other <;> first | constructor | cases same

/-- Two stages with one outcome both give a value or both fail. -/
theorem stage_eq_cases {α β γ : Type} {new other : Relabelling} {image : α → γ}
    {otherImage : β → γ} {result : Except CompileError α} {otherResult : Except CompileError β}
    (same : new.stage image result = other.stage otherImage otherResult) :
    (∃ value otherValue, result = .ok value ∧ otherResult = .ok otherValue ∧
      image value = otherImage otherValue) ∨
    ∃ error otherError, result = .error error ∧ otherResult = .error otherError ∧
      new.compileError error = other.compileError otherError := by
  cases result with
  | ok value =>
      cases otherResult with
      | ok otherValue => exact .inl ⟨value, otherValue, rfl, rfl, Except.ok.inj same⟩
      | error otherError => cases same
  | error error =>
      cases otherResult with
      | ok otherValue => cases same
      | error otherError => exact .inr ⟨error, otherError, rfl, rfl, Except.error.inj same⟩

/-- The renamed text is read without a fault, as the same tokens with other names. -/
theorem renamedSource_tokens (otherName : String)
    (clean : (Lexer.ofText filename source).run.failure = none)
    (words : ∀ name ∈ (Lexer.ofText filename source).run.names, IsName (rename name)) :
    (Lexer.ofText otherName (renamedSource rename source)).run.failure = none ∧
    RenamedTokens rename (Lexer.ofText filename source).run.tokens
      (Lexer.ofText otherName (renamedSource rename source)).run.tokens := by
  refine Lexer.Renamed.run _ clean words _ ⟨String.toList_ofList, [], [], ?_, ?_, rfl⟩
  · exact Lexer.behind_ofText filename source
  · exact Lexer.behind_ofText otherName _

theorem ofNames_tokens {tokens others : List Token} (injective : Function.Injective extension)
    (same : RenamedTokens rename tokens others)
    (known : ∀ token ∈ tokens, ∀ name, token.kind = .ident name → extension name = rename name) :
    tokens.map (Relabelling.ofNames extension injective).token =
      others.map (Relabelling.ofNames id Function.injective_id).token := by
  have sameKind (kind : Kind) :
      (Relabelling.ofNames id Function.injective_id).kind kind = kind := by
    cases kind <;> rfl
  have newKind (token : Token) (member : token ∈ tokens) :
      (Relabelling.ofNames extension injective).kind token.kind = token.kind.renamed rename := by
    cases kind : token.kind with
    | ident name => exact congrArg Kind.ident (known token member name kind)
    | _ => rfl
  calc tokens.map (Relabelling.ofNames extension injective).token
      = tokens.map fun token => ⟨token.kind.renamed rename, { line := token.line }⟩ := by
        refine List.map_congr_left fun token member => ?_
        rw [Relabelling.token, newKind token member]
        rfl
    _ = (tokens.map fun token => (token.kind.renamed rename, token.line)).map
          fun read => ⟨read.1, { line := read.2 }⟩ := by
        rw [List.map_map]
        rfl
    _ = others.map fun token => ⟨token.kind, { line := token.line }⟩ := by
        rw [← same, List.map_map]
        rfl
    _ = others.map (Relabelling.ofNames id Function.injective_id).token := by
        refine List.map_congr_left fun token _ => ?_
        rw [Relabelling.token, sameKind]
        rfl

theorem stage_renamed (otherName : String)
    (clean : (Lexer.ofText filename source).run.failure = none)
    (words : ∀ name ∈ (Lexer.ofText filename source).run.names, IsName (rename name))
    (injective : Function.Injective extension)
    (known : ∀ name ∈ (Lexer.ofText filename source).run.names, extension name = rename name) :
    (Relabelling.ofNames extension injective).stage
        (Relabelling.ofNames extension injective).code (compile filename source) =
      (Relabelling.ofNames id Function.injective_id).stage
        (Relabelling.ofNames id Function.injective_id).code
        (compile otherName (renamedSource rename source)) := by
  obtain ⟨otherClean, read⟩ := renamedSource_tokens otherName clean words
  have tokens := ofNames_tokens injective read fun token member name same =>
    known name (Lexer.mem_names.mpr ⟨token, member, same⟩)
  rw [compile_relabelled rfl clean, compile_relabelled rfl otherClean, tokens]
  rfl

/-- A text whose identifiers are replaced one to one by other identifiers is read as the same tokens
with these names. Either both texts are compiled, to the same code but for the names of its
variables, or both are refused with an error of one variant. -/
theorem compile_renamed (otherName : String)
    (clean : (Lexer.ofText filename source).run.failure = none)
    (injective : ∀ first ∈ (Lexer.ofText filename source).run.names,
      ∀ second ∈ (Lexer.ofText filename source).run.names, rename first = rename second →
        first = second)
    (words : ∀ name ∈ (Lexer.ofText filename source).run.names, IsName (rename name)) :
    ((Lexer.ofText otherName (renamedSource rename source)).run.failure = none ∧
      RenamedTokens rename (Lexer.ofText filename source).run.tokens
        (Lexer.ofText otherName (renamedSource rename source)).run.tokens) ∧
    ((∃ code, compile filename source = .ok code ∧
        compile otherName (renamedSource rename source) =
          .ok (code.map (Instr.renamed rename))) ∨
      ∃ error other, compile filename source = .error error ∧
        compile otherName (renamedSource rename source) = .error other ∧
        error.SameVariant other) := by
  refine ⟨renamedSource_tokens otherName clean words, ?_⟩
  have stages (filler : Char) := stage_renamed otherName clean words
    (extendedRenaming_injective injective : Function.Injective
      (extendedRenaming rename (Lexer.ofText filename source).run.names filler))
    fun name member => extendedRenaming_of_mem member
  rcases stage_eq_cases (stages 'a') with
    ⟨code, otherCode, made, otherMade, firstCode⟩ | ⟨error, other, made, otherMade, same⟩
  · -- Two extensions give the same code, so all names in it are names of the text.
    have second := stages 'b'
    rw [made, otherMade] at second
    have secondCode := Except.ok.inj second
    rw [Relabelling.ofNames_code, Relabelling.ofNames_code, map_renamed_id] at firstCode secondCode
    have agreed := map_renamed_agree (extendedRenaming_agree (by decide))
      (firstCode.trans secondCode.symm)
    exact .inl ⟨code, made, otherMade.trans (congrArg Except.ok (firstCode.symm.trans agreed))⟩
  · exact .inr ⟨error, other, made, otherMade, sameVariant_of_ofNames same⟩

end

/-- A variable that another one hides, and an array. -/
def hiddenIndex : String :=
  "\x7bint i; int a[3]; \x7bfloat i; i=i;\x7d a[i]=2;\x7d"

/-- The index takes the name of the array, and the array a word that starts like a reserved one. -/
def shiftNames (name : String) : String :=
  if name = "i" then "a" else if name = "a" then "whiley" else name

theorem isName_shiftNames : IsName (shiftNames "i") ∧ IsName (shiftNames "a") := by
  have first : IsLexeme ['a'] (.ident (String.ofList ['a'])) :=
    .ident (by decide) nofun (by decide)
  have second : IsLexeme ['w', 'h', 'i', 'l', 'e', 'y']
      (.ident (String.ofList ['w', 'h', 'i', 'l', 'e', 'y'])) :=
    .ident (by decide) (List.all_eq_true.mp (by decide)) (by decide)
  exact ⟨first, second⟩

set_option maxRecDepth 4096 in
theorem hiddenIndex_renamed :
    renamedSource shiftNames hiddenIndex =
      "\x7bint a; int whiley[3]; \x7bfloat a; a=a;\x7d whiley[a]=2;\x7d" ∧
    (Lexer.ofText "hidden" hiddenIndex).run.failure = none ∧
    (Lexer.ofText "hidden" hiddenIndex).run.names = ["i", "a", "i", "i", "i", "a", "i"] ∧
    ∃ code, compile "hidden" hiddenIndex = .ok code ∧
      compile "shifted" (renamedSource shiftNames hiddenIndex) =
        .ok (code.map (Instr.renamed shiftNames)) := by
  have clean : (Lexer.ofText "hidden" hiddenIndex).run.failure = none := by cbv
  have names : (Lexer.ofText "hidden" hiddenIndex).run.names =
      ["i", "a", "i", "i", "i", "a", "i"] := by cbv
  have text : renamedSource shiftNames hiddenIndex =
      "\x7bint a; int whiley[3]; \x7bfloat a; a=a;\x7d whiley[a]=2;\x7d" := by cbv
  have accepted : ∃ program, Program.ofSource "hidden" hiddenIndex = .ok program ∧
      ∃ code after, program.lower {} = (.ok code, after) := ⟨_, by cbv, _, _, rfl⟩
  obtain ⟨program, accepted, code, after, lowered⟩ := accepted
  have compiled : compile "hidden" hiddenIndex = .ok code :=
    Program.compile_of_lower accepted lowered
  have injective : ∀ first ∈ (Lexer.ofText "hidden" hiddenIndex).run.names,
      ∀ second ∈ (Lexer.ofText "hidden" hiddenIndex).run.names,
        shiftNames first = shiftNames second → first = second := by
    rw [names]
    decide
  have words : ∀ name ∈ (Lexer.ofText "hidden" hiddenIndex).run.names,
      IsName (shiftNames name) := by
    rw [names]
    simp [isName_shiftNames]
  refine ⟨text, clean, names, ?_⟩
  rcases (compile_renamed "shifted" clean injective words).2 with both | ⟨error, _, refused, -⟩
  · exact both
  · cases compiled.symm.trans refused

end ThreeAddress

import ThreeAddress.Proofs.Grammar.Printed
import ThreeAddress.Proofs.Lowering.FlatShape

namespace ThreeAddress

open Text

/-- A temporary is printed as a name, since no reserved word has a digit in it. -/
theorem temp_isName (number : Nat) : IsName ("t" ++ toString number) := by
  have word : ("t" ++ toString number).toList = 't' :: Nat.toDigits 10 number := by
    rw [String.toList_append]
    exact congrArg (List.cons 't') Nat.toList_repr
  have digits : ∀ c ∈ Nat.toDigits 10 number, c.isDigit = true :=
    fun c => Nat.isDigit_of_mem_toDigits (by decide) (by decide)
  have parts : ∀ c ∈ Nat.toDigits 10 number, isWordPart c = true := by
    intro c member
    rw [isWordPart, isNumeral_of_isDigit (digits c member), Bool.or_true]
  have free : ∀ kind ∈ Kind.reserved, kind.text.toList ≠ 't' :: Nat.toDigits 10 number := by
    have noDigits : ∀ kind ∈ Kind.reserved, kind.text.toList.any Char.isDigit = false := by decide
    intro kind member same
    obtain ⟨c, inside⟩ := List.exists_mem_of_ne_nil _ (Nat.toDigits_ne_nil (n := number) (b := 10))
    have digit : kind.text.toList.any Char.isDigit = true :=
      List.any_eq_true.mpr ⟨c, same ▸ List.mem_cons_of_mem _ inside, digits c inside⟩
    exact Bool.false_ne_true ((noDigits kind member).symm.trans digit)
  have letter : isLetter 't' = true := isLetter_of_isLower (by decide)
  have lexical := IsLexeme.ident letter parts free
  rw [← word, String.ofList_toList] at lexical
  exact lexical

/-- A token that can be written, or the end of a text, which is not written. -/
def Kind.WritableOrEnd (kind : Kind) : Prop :=
  kind = .eof ∨ kind.Writable

theorem allowsNew_writableOrEnd : AllowsNew Kind.WritableOrEnd where
  temp number := .inr (temp_isName number)
  int _ small := .inr (Kind.writable_int small)
  mark sign := .inr (Kind.writable_mark sign)

theorem Lexer.run_writableOrEnd (lexer : Lexer) {token : Token}
    (member : token ∈ lexer.run.tokens) (noReal : ∀ value, token.kind ≠ .real value) :
    token.kind.WritableOrEnd := by
  by_cases ends : token.kind = .eof
  · exact .inl ends
  · obtain ⟨spelling, lexical⟩ := lexer.run_lexeme member ends
    exact .inr (Kind.writable_of_lexeme lexical noReal)

/-- If a text has no reals in it, every side of an instruction of its code has a text that is read
as this side again, where all names are declared. -/
theorem compiled_trees_read_back {filename source : String} {code : List Instr}
    (noReal : ∀ token ∈ (Lexer.ofText filename source).run.tokens,
      ∀ value, token.kind ≠ .real value)
    (compiled : compile filename source = .ok code) : ∀ instr ∈ code, ∀ expr ∈ instr.exprs,
      Grammar.ReadsBack (fun _ => true) expr.text expr.asRead := by
  have all : ∀ token ∈ (Lexer.ofText filename source).run.tokens, token.kind.WritableOrEnd :=
    fun token member => Lexer.run_writableOrEnd _ member (noReal token member)
  intro instr member expr side
  obtain ⟨legible, kinds⟩ :=
    (Program.compile_flat allowsNew_writableOrEnd all compiled instr member).legible expr side
  have writable : ∀ kind ∈ expr.asRead.kinds, kind.Writable := fun kind inside =>
    (kinds kind inside).resolve_left (Expr.inside_of_mem_kinds inside)
  exact Grammar.readsBack_text legible writable fun _ _ => rfl

/-- Parentheses around a difference under a sign, around a name, and around an element. -/
def groupedParts : String :=
  "\x7b int x; int a[2]; while (!(x < 3)) x = ((x)) - -(2 - (x)); a[(x)] = -(a[1] * 2); \x7d"

set_option maxRecDepth 4096 in
theorem groupedParts_read_back : ∃ tokens code,
    (Lexer.ofText "parts" groupedParts).run.tokens = tokens ∧
    (∀ token ∈ tokens, ∀ value, token.kind ≠ .real value) ∧
    compile "parts" groupedParts = .ok code ∧ ∀ instr ∈ code, ∀ expr ∈ instr.exprs,
      Grammar.ReadsBack (fun _ => true) expr.text expr.asRead := by
  have lexed : ∃ tokens, (Lexer.ofText "parts" groupedParts).run.tokens = tokens ∧
      ∀ token ∈ tokens, ∀ value, token.kind ≠ .real value := ⟨_, by cbv, by simp⟩
  have accepted : ∃ program, Program.ofSource "parts" groupedParts = .ok program ∧
      ∃ code after, program.lower {} = (.ok code, after) := ⟨_, by cbv, _, _, rfl⟩
  obtain ⟨tokens, tokensRead, noReal⟩ := lexed
  obtain ⟨program, accepted, code, after, lowered⟩ := accepted
  have compiled := Program.compile_of_lower accepted lowered
  exact ⟨tokens, code, tokensRead, noReal, compiled,
    compiled_trees_read_back (tokensRead ▸ noReal) compiled⟩

end ThreeAddress

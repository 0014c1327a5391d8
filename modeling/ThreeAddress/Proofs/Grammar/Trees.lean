import ThreeAddress.Grammar.Statement
import ThreeAddress.Proofs.Grammar.Grouping
import ThreeAddress.Proofs.WellFormed

namespace ThreeAddress.Grammar

section

variable {α β : Type} {bound limit : Nat} {good : α → Prop} {fine : β → Prop}

/-- What is read, if anything is, is good. -/
def Yields (good : α → Prop) (reading : Except Failure (Phrase α bound)) : Prop :=
  ∀ phrase, reading = .ok phrase → good phrase.value

theorem yields_ok {phrase : Phrase α bound} (holds : good phrase.value) :
    Yields good (.ok phrase) := by
  intro read same
  cases same
  exact holds

theorem yields_error {failure : Failure} :
    Yields good (.error failure : Except Failure (Phrase α bound)) := by
  intro read same
  contradiction

theorem yields_bind {reading : Except Failure (Phrase α bound)}
    {next : Phrase α bound → Except Failure (Phrase β limit)} (front : Yields good reading)
    (back : ∀ phrase, good phrase.value → Yields fine (next phrase)) :
    Yields fine (reading >>= next) := by
  cases read : reading with
  | error failure => exact yields_error
  | ok phrase => exact back phrase (front phrase read)

/-- Nothing needs to be known of a part that is only passed over. -/
theorem yields_any {reading : Except Failure (Phrase α bound)} :
    Yields (fun _ => True) reading :=
  fun _ _ => trivial

end

theorem extend_tempFree {expr operand : Expr} {line : Nat} {op : BinaryOp}
    (whole : expr.TempFree) (part : operand.TempFree) :
    (expr.extend line op operand).TempFree := by
  fun_induction Expr.extend expr line op operand with
  | case1 _ _ left right _ ih => exact ⟨whole.1, ih whole.2⟩
  | case2 => exact ⟨whole, part⟩
  | case3 => exact ⟨whole, part⟩

mutual

theorem expression_tempFree (declared : String → Bool) (tokens : List Token) :
    Yields Expr.TempFree (expression declared tokens) := by
  rw [expression]
  refine yields_bind (factor_tempFree declared tokens) fun ⟨first, rest, shorter⟩ single => ?_
  refine yields_bind (operations_tempFree declared rest single) fun phrase whole => ?_
  exact yields_ok whole
termination_by 4 * tokens.length + 1
decreasing_by all_goals omega

theorem operations_tempFree (declared : String → Bool) {left : Expr} (tokens : List Token)
    (before : left.TempFree) : Yields Expr.TempFree (operations declared left tokens) := by
  match tokens with
  | [] =>
      rw [operations]
      exact yields_error
  | token :: rest =>
      rw [operations]
      split
      · exact yields_ok before
      · refine yields_bind (factor_tempFree declared rest)
          fun ⟨right, afterRight, shorter⟩ part => ?_
        refine yields_bind (operations_tempFree declared afterRight (extend_tempFree before part))
          fun phrase whole => ?_
        exact yields_ok whole
termination_by 4 * tokens.length
decreasing_by all_goals (simp only [List.length_cons] at *; omega)

theorem factor_tempFree (declared : String → Bool) (tokens : List Token) :
    Yields Expr.TempFree (factor declared tokens) := by
  match tokens with
  | [] =>
      rw [factor]
      exact yields_error
  | token :: rest =>
      rw [factor]
      split
      · refine yields_bind (factor_tempFree declared rest) fun phrase operand => ?_
        exact yields_ok operand
      · refine yields_bind (factor_tempFree declared rest) fun phrase operand => ?_
        exact yields_ok operand
      · refine yields_bind (expression_tempFree declared rest) fun phrase inner => ?_
        refine yields_bind yields_any fun _ _ => ?_
        exact yields_ok inner
      · exact yields_ok trivial
      · exact yields_ok trivial
      · exact yields_ok trivial
      · exact yields_ok trivial
      · exact fun phrase read => (location_tempFree declared _ token rest phrase read).2
      · exact yields_error
termination_by 4 * tokens.length
decreasing_by all_goals (simp only [List.length_cons] at *; omega)

theorem location_tempFree (declared : String → Bool) (name : String) (token : Token)
    (rest : List Token) : Yields (fun expr => expr.isLocation = true ∧ expr.TempFree)
      (location declared name token rest) := by
  rw [location]
  split
  · refine yields_bind (subscripts_tempFree declared rest) fun phrase indices => ?_
    exact yields_ok ⟨rfl, indices⟩
  · exact yields_error
termination_by 4 * rest.length + 3
decreasing_by all_goals omega

theorem subscripts_tempFree (declared : String → Bool) (tokens : List Token) :
    Yields Expr.AllTempFree (subscripts declared tokens) := by
  match tokens with
  | [] =>
      rw [subscripts]
      exact yields_error
  | token :: rest =>
      rw [subscripts]
      split
      · refine yields_bind (expression_tempFree declared rest)
          fun ⟨index, afterIndex, shorter⟩ first => ?_
        refine yields_bind yields_any fun ⟨_, afterBracket, closed⟩ _ => ?_
        refine yields_bind (subscripts_tempFree declared afterBracket) fun phrase more => ?_
        exact yields_ok ⟨first, more⟩
      · exact yields_ok trivial
termination_by 4 * tokens.length + 2
decreasing_by all_goals (simp only [List.length_cons] at *; omega)

end

theorem declaration_fits (scopes : Scopes) (scope : Nat) (basic : BasicType)
    (tokens : List Token) : Yields (fun declared => declared.type.fits = true)
      (declaration scopes scope basic tokens) := by
  rw [declaration]
  refine yields_bind yields_any fun leading _ => ?_
  refine yields_bind yields_any fun name _ => ?_
  refine yields_bind yields_any fun sizes _ => ?_
  dsimp only
  split
  · next fits =>
      refine yields_bind yields_any fun _ _ => ?_
      exact yields_ok fits
  · exact yields_error

theorem declarations_allFit {scopes : Scopes} (scope : Nat) (tokens : List Token)
    (before : scopes.AllFit) :
    Yields (fun made => made.2.AllFit) (declarations scopes scope tokens) := by
  match tokens with
  | [] =>
      rw [declarations]
      exact yields_error
  | token :: rest =>
      rw [declarations]
      split
      · next basic _ =>
          refine yields_bind (declaration_fits scopes scope basic rest) fun read fits => ?_
          obtain ⟨first, afterFirst, shorter⟩ := read
          refine yields_bind (declarations_allFit scope afterFirst (before.declare fits))
            fun phrase made => ?_
          exact yields_ok made
      · exact yields_ok before
termination_by tokens.length
decreasing_by all_goals (simp only [List.length_cons] at *; omega)

theorem condition_tempFree (declared : String → Bool) (tokens : List Token) :
    Yields Expr.TempFree (condition declared tokens) := by
  rw [condition]
  refine yields_bind yields_any fun _ _ => ?_
  refine yields_bind (expression_tempFree declared _) fun phrase value => ?_
  refine yields_bind yields_any fun _ _ => ?_
  exact yields_ok value

theorem assignment_fromSource (inLoop : Bool) (declared : String → Bool) (name : String)
    (token : Token) (rest : List Token) :
    Yields (Stmt.FromSource inLoop) (assignment declared name token rest) := by
  rw [assignment]
  refine yields_bind (location_tempFree declared name token rest) fun phrase target => ?_
  refine yields_bind yields_any fun _ _ => ?_
  refine yields_bind (expression_tempFree declared _) fun phrase value => ?_
  refine yields_bind yields_any fun _ _ => ?_
  exact yields_ok ⟨target.1, target.2, value⟩

mutual

theorem statement_fromSource (inLoop : Bool) (scope : Nat) {scopes : Scopes}
    (tokens : List Token) (before : scopes.AllFit) :
    Yields (fun read => read.1.FromSource inLoop ∧ read.2.AllFit)
      (statement inLoop scope scopes tokens) := by
  match tokens with
  | [] =>
      rw [statement]
      exact yields_error
  | token :: rest =>
      rw [statement]
      dsimp only
      split
      · refine yields_bind (assignment_fromSource inLoop _ _ token rest) fun phrase assigned => ?_
        exact yields_ok ⟨assigned, before⟩
      · refine yields_bind (condition_tempFree _ rest) fun ⟨test, afterTest, first⟩ tested => ?_
        refine yields_bind (statement_fromSource inLoop scope afterTest before)
          fun ⟨⟨body, inner⟩, afterBody, second⟩ ⟨bodyRead, fits⟩ => ?_
        dsimp only
        split
        · exact yields_error
        · next next afterNext shorter _ =>
            -- For termination, as `omega` does not look into the phrase.
            have fewer : afterNext.length + 1 < afterTest.length := shorter
            split
            · refine yields_bind (statement_fromSource inLoop scope afterNext fits)
                fun phrase ⟨otherwise, allFit⟩ => ?_
              exact yields_ok ⟨⟨tested, bodyRead, otherwise⟩, allFit⟩
            · exact yields_ok ⟨⟨tested, bodyRead⟩, fits⟩
      · refine yields_bind (condition_tempFree _ rest) fun ⟨test, afterTest, first⟩ tested => ?_
        refine yields_bind (statement_fromSource true scope afterTest before)
          fun phrase ⟨body, allFit⟩ => ?_
        exact yields_ok ⟨⟨tested, body⟩, allFit⟩
      · refine yields_bind (statement_fromSource true scope rest before)
          fun ⟨⟨body, inner⟩, afterBody, first⟩ ⟨bodyRead, allFit⟩ => ?_
        refine yields_bind yields_any fun _ _ => ?_
        refine yields_bind (condition_tempFree _ _) fun _ tested => ?_
        refine yields_bind yields_any fun _ _ => ?_
        exact yields_ok ⟨⟨bodyRead, tested⟩, allFit⟩
      · split
        · next inside =>
            refine yields_bind yields_any fun _ _ => ?_
            exact yields_ok ⟨inside, before⟩
        · exact yields_error
      · refine yields_bind (block_fromSource inLoop (some scope) rest before)
          fun phrase ⟨inner, allFit⟩ => ?_
        exact yields_ok ⟨inner, allFit⟩
      · exact yields_error
      · exact yields_error
termination_by 3 * tokens.length
decreasing_by all_goals (simp only [List.length_cons] at *; omega)

theorem statements_fromSource (inLoop : Bool) (scope : Nat) {scopes : Scopes}
    (tokens : List Token) (before : scopes.AllFit) :
    Yields (fun read => Stmt.AllFromSource inLoop read.1 ∧ read.2.AllFit)
      (statements inLoop scope scopes tokens) := by
  match tokens with
  | [] =>
      rw [statements]
      exact yields_error
  | token :: rest =>
      rw [statements]
      split
      · exact yields_ok ⟨trivial, before⟩
      · refine yields_bind (statement_fromSource inLoop scope (token :: rest) before)
          fun ⟨⟨first, inner⟩, afterFirst, shorter⟩ ⟨firstRead, fits⟩ => ?_
        have fewer : afterFirst.length < rest.length + 1 := shorter
        refine yields_bind (statements_fromSource inLoop scope afterFirst fits)
          fun phrase ⟨more, allFit⟩ => ?_
        exact yields_ok ⟨⟨firstRead, more⟩, allFit⟩
termination_by 3 * tokens.length + 1
decreasing_by all_goals (simp only [List.length_cons] at *; omega)

theorem block_fromSource (inLoop : Bool) (parent : Option Nat) {scopes : Scopes}
    (tokens : List Token) (before : scopes.AllFit) :
    Yields (fun read => Stmt.AllFromSource inLoop read.1.body ∧ read.2.AllFit)
      (block inLoop parent scopes tokens) := by
  rw [block]
  refine yields_bind (declarations_allFit scopes.count tokens (before.push parent))
    fun ⟨⟨declared, inner⟩, afterDeclared, first⟩ fits => ?_
  refine yields_bind (statements_fromSource inLoop scopes.count afterDeclared fits)
    fun phrase ⟨body, allFit⟩ => ?_
  exact yields_ok ⟨body, allFit⟩
termination_by 3 * tokens.length + 2
decreasing_by omega

end

theorem program_fromSource {tokens : List Token} {whole : Program}
    (read : program tokens = .ok whole) :
    Stmt.AllFromSource false whole.block.body ∧ whole.scopes.AllFit := by
  have empty : Scopes.AllFit {} := by
    intro scope member
    simp at member
  rw [program] at read
  cases opened : expect (.mark .openBrace) tokens with
  | error failure => simp [opened, bind, Except.bind] at read
  | ok start =>
      cases inside : block false none {} start.rest with
      | error failure => simp [opened, inside, bind, Except.bind] at read
      | ok phrase =>
          have good := block_fromSource false none start.rest empty phrase inside
          simp only [opened, inside, bind, Except.bind] at read
          split at read
          · contradiction
          · split at read
            · cases read
              exact good
            · contradiction

end ThreeAddress.Grammar

import ThreeAddress.Proofs.Grammar.Complete
import ThreeAddress.Proofs.Grammar.Lookahead
import ThreeAddress.Proofs.Spelling

namespace ThreeAddress.Grammar

open Reader

variable {α β : Type} {run : Reader α} {tokens rest more other : List Token}
  {kinds others : List Kind} {follows before : Kind → Prop}

/-- Every value will do. -/
def Anything : α → Prop :=
  fun _ => True

/-- Tokens of these kinds are read as such a value, if a token of a fitting kind follows. -/
def Suffices (run : Reader α) (kinds : List Kind) (wanted : α → Prop) (follows : Kind → Prop) :
    Prop :=
  ∀ more other, more.map Token.kind = kinds → Ahead follows other →
    ∃ value, wanted value ∧ run (more ++ other) = .ok (value, other)

/-- The first of these kinds, or else the kind that follows, is fit to come after a phrase. -/
def Leads (kinds : List Kind) (follows before : Kind → Prop) : Prop :=
  match kinds with
  | [] => ∀ kind, follows kind → before kind
  | kind :: _ => before kind

@[simp] theorem leads_cons {kind : Kind} {rest : List Kind} :
    Leads (kind :: rest) follows before ↔ before kind :=
  .rfl

theorem Leads.ahead (leads : Leads kinds follows before) (same : more.map Token.kind = kinds)
    (ahead : Ahead follows other) : Ahead before (more ++ other) := by
  subst same
  cases more with
  | nil => exact ahead.imp leads
  | cons token rest => exact ahead_cons.mpr leads

theorem Leads.anywhere : Leads kinds follows Anything := by
  cases kinds with
  | nil => exact fun _ _ => trivial
  | cons kind rest => exact trivial

namespace Suffices

variable {wanted given : α → Prop} {result : β → Prop}

theorem pass {value : α} (good : wanted value) : Suffices (pass value) [] wanted follows := by
  intro more other same _
  obtain rfl : more = [] := List.map_eq_nil_iff.mp same
  exact ⟨value, good, rfl⟩

theorem imp {good : α → Prop} (enough : Suffices run kinds wanted follows)
    (fine : ∀ value, wanted value → good value) : Suffices run kinds good follows := by
  intro more other same ahead
  obtain ⟨value, right, read⟩ := enough more other same ahead
  exact ⟨value, fine value right, read⟩

/-- The phrase ends before the kind that follows. -/
theorem peek_stop {next : Token → Reader α}
    (stops : ∀ token, follows token.kind → Suffices (next token) [] wanted follows) :
    Suffices (peek next) [] wanted follows := by
  intro more other same ahead
  obtain rfl : more = [] := List.map_eq_nil_iff.mp same
  obtain ⟨token, rest, rfl, here⟩ := ahead
  exact stops token here [] (token :: rest) rfl (ahead_cons.mpr here)

theorem peek_take {next : Token → Reader α} {kind : Kind}
    (starts : ∀ token, token.kind = kind →
      ∃ after, next token = take after ∧ Suffices after kinds wanted follows) :
    Suffices (peek next) (kind :: kinds) wanted follows := by
  intro more other same ahead
  obtain ⟨token, rest, rfl, here, left⟩ := List.map_eq_cons_iff.mp same
  obtain ⟨after, goesOn, enough⟩ := starts token here
  obtain ⟨value, good, read⟩ := enough rest other left ahead
  refine ⟨value, good, ?_⟩
  rw [List.cons_append, peek, goesOn]
  exact read

theorem andThen {first : Reader α} {next : α → Reader β}
    (begins : Suffices first kinds given before)
    (goesOn : ∀ value, given value → Suffices (next value) others result follows)
    (leads : Leads others follows before) :
    Suffices (first.andThen next) (kinds ++ others) result follows := by
  intro more other same ahead
  obtain ⟨front, back, rfl, frontKinds, backKinds⟩ := List.map_eq_append_iff.mp same
  obtain ⟨value, good, read⟩ :=
    begins front (back ++ other) frontKinds (leads.ahead backKinds ahead)
  obtain ⟨last, fine, lastRead⟩ := goesOn value good back other backKinds ahead
  refine ⟨last, fine, ?_⟩
  rw [List.append_assoc, Reader.andThen, read]
  exact lastRead

theorem mapTo {first : Reader α} {function : α → β} (begins : Suffices first kinds given follows)
    (good : ∀ value, given value → result (function value)) :
    Suffices (first.map function) kinds result follows := by
  intro more other same ahead
  obtain ⟨value, fine, read⟩ := begins more other same ahead
  refine ⟨function value, good value fine, ?_⟩
  rw [Reader.map, Reader.andThen, read]
  rfl

theorem map {first : Reader α} {function : α → β} (begins : Suffices first kinds given follows) :
    Suffices (first.map function) kinds Anything follows :=
  begins.mapTo fun _ _ => trivial

theorem expect (wanted : Kind) :
    Suffices (ofBounded (expect wanted)) [wanted] Anything follows := by
  rw [expect_reader]
  exact peek_take fun token same => ⟨Reader.pass token, if_pos same, pass trivial⟩

end Suffices

/-- If the tokens break off inside the phrase, some more complete it to such a value, before a
token of a fitting kind. -/
def Completes (run : Reader α) (wanted : α → Prop) (follows : Kind → Prop)
    (tokens : List Token) : Prop :=
  run tokens = .error .brokenOff → ∃ kinds, (∀ kind ∈ kinds, kind.Spelled) ∧
    Suffices (fun more => run (tokens ++ more)) kinds wanted follows

namespace Completes

variable {wanted given : α → Prop} {result : β → Prop}

theorem pass {value : α} : Completes (pass value) wanted follows tokens :=
  nofun

theorem refuse {fault : SyntaxFault} : Completes (refuse fault : Reader α) wanted follows tokens :=
  nofun

theorem peek_nil {next : Token → Reader α} (kinds : List Kind)
    (enough : Suffices (peek next) kinds wanted follows)
    (spelled : ∀ kind ∈ kinds, kind.Spelled) : Completes (peek next) wanted follows [] :=
  fun _ => ⟨kinds, spelled, enough⟩

theorem peek_cons {next : Token → Reader α} {token : Token}
    (completes : Completes (next token) wanted follows (token :: rest)) :
    Completes (peek next) wanted follows (token :: rest) :=
  completes

theorem take {next : Reader α} {token : Token} (completes : Completes next wanted follows rest) :
    Completes (take next) wanted follows (token :: rest) :=
  completes

theorem andThen {first : Reader α} {next : α → Reader β}
    (begun : Completes first given before tokens) (looks : LooksOneAhead first tokens)
    (starts : first tokens = .error .brokenOff → ∃ kinds, Leads kinds follows before ∧
      (∀ kind ∈ kinds, kind.Spelled) ∧
      ∀ value, given value → Suffices (next value) kinds result follows)
    (goesOn : ∀ value rest, first tokens = .ok (value, rest) →
      Completes (next value) result follows rest) :
    Completes (first.andThen next) result follows tokens := by
  intro broken
  match read : first tokens with
  | .error .brokenOff =>
      obtain ⟨kinds, spelled, enough⟩ := begun read
      obtain ⟨others, leads, otherSpelled, onward⟩ := starts read
      refine ⟨kinds ++ others, List.forall_mem_append.mpr ⟨spelled, otherSpelled⟩, ?_⟩
      exact Suffices.andThen enough onward leads
  | .error (.unexpected fault unread) =>
      rw [Reader.andThen, read] at broken
      cases broken
  | .ok (value, rest) =>
      have restBroken : next value rest = .error .brokenOff := by
        rwa [Reader.andThen, read] at broken
      obtain ⟨kinds, spelled, enough⟩ := goesOn value rest read restBroken
      obtain ⟨used, rfl, -, again⟩ := looks.found read
      refine ⟨kinds, spelled, fun more other same ahead => ?_⟩
      obtain ⟨last, good, lastRead⟩ := enough more other same ahead
      refine ⟨last, good, ?_⟩
      have front : SameAhead rest (rest ++ (more ++ other)) := by
        intro token later whole
        rw [whole]
        exact ⟨_, rfl⟩
      dsimp only
      rw [List.append_assoc, Reader.andThen, again _ front]
      exact lastRead

theorem mapTo {first : Reader α} {function : α → β} (begun : Completes first given follows tokens)
    (good : ∀ value, given value → result (function value)) :
    Completes (first.map function) result follows tokens := by
  intro broken
  match read : first tokens with
  | .error .brokenOff =>
      obtain ⟨kinds, spelled, enough⟩ := begun read
      exact ⟨kinds, spelled, enough.mapTo good⟩
  | .error (.unexpected fault unread) =>
      rw [Reader.map, Reader.andThen, read] at broken
      cases broken
  | .ok (value, rest) =>
      rw [Reader.map, Reader.andThen, read] at broken
      cases broken

theorem map {first : Reader α} {function : α → β} (begun : Completes first given follows tokens) :
    Completes (first.map function) Anything follows tokens :=
  begun.mapTo fun _ _ => trivial

theorem expect {wanted : Kind} (spelled : wanted.Spelled) :
    Completes (ofBounded (expect wanted)) Anything follows tokens := by
  cases tokens with
  | nil => exact fun _ => ⟨[wanted], by simpa using spelled, Suffices.expect wanted⟩
  | cons token rest =>
      rw [expect_reader]
      refine peek_cons ?_
      split
      · exact take pass
      · exact refuse

/-- A token of one kind, and then something that these kinds complete from its start. -/
theorem expect_andThen {wanted : Kind} {next : Token → Reader β} (isSpelled : wanted.Spelled)
    (spelled : ∀ kind ∈ kinds, kind.Spelled)
    (enough : ∀ token, Suffices (next token) kinds result follows)
    (goesOn : ∀ token rest, ofBounded (Grammar.expect wanted) tokens = .ok (token, rest) →
      Completes (next token) result follows rest) :
    Completes ((ofBounded (Grammar.expect wanted)).andThen next) result follows tokens := by
  have begun : Completes (ofBounded (Grammar.expect wanted)) Anything Anything tokens :=
    expect isSpelled
  exact begun.andThen (expect_looksOneAhead isSpelled.inside)
    (fun _ => ⟨kinds, .anywhere, spelled, fun token _ => enough token⟩) goesOn

end Completes

section

variable {declared : String → Bool}

theorem factor_suffices : Suffices (ofBounded (factor declared)) [.int 1] Anything follows := by
  rw [factor_reader]
  exact .peek_take fun token kind => ⟨_, by rw [kind], .pass trivial⟩

theorem operations_suffices {left : Expr} :
    Suffices (ofBounded (operations declared left)) [] Anything EndsExpression := by
  rw [operations_reader]
  refine .peek_stop fun token ends => ?_
  rw [ends.1]
  exact .pass trivial

theorem expression_suffices :
    Suffices (ofBounded (expression declared)) [.int 1] Anything EndsExpression := by
  rw [expression_reader]
  have first : Suffices (ofBounded (factor declared)) [.int 1] Anything (· ≠ .mark .openBracket) :=
    factor_suffices
  exact first.andThen (fun _ _ => operations_suffices) fun _ ends => ends.2

theorem subscripts_suffices :
    Suffices (ofBounded (subscripts declared)) [] Anything (· ≠ .mark .openBracket) := by
  rw [subscripts_reader]
  refine .peek_stop fun token stop => ?_
  rw [if_neg stop]
  exact .pass trivial

end

mutual

theorem expression_completes (declared : String → Bool) (tokens : List Token) :
    Completes (ofBounded (expression declared)) Anything EndsExpression tokens := by
  rw [expression_reader]
  refine (factor_completes declared tokens).andThen (factor_looksOneAhead declared tokens)
    (fun _ => ⟨[], fun _ ends => ends.2, nofun, fun _ _ => operations_suffices⟩)
    fun first rest read => ?_
  have shorter : rest.length < tokens.length := within_of_plain read
  exact operations_completes declared first rest
termination_by 4 * tokens.length + 1
decreasing_by all_goals omega

theorem operations_completes (declared : String → Bool) (left : Expr) (tokens : List Token) :
    Completes (ofBounded (operations declared left)) Anything EndsExpression tokens := by
  match tokens with
  | [] => exact fun _ => ⟨[], nofun, operations_suffices⟩
  | token :: rest =>
      rw [operations_reader]
      refine .peek_cons ?_
      split
      · exact .pass
      · refine .take ?_
        refine (factor_completes declared rest).andThen (factor_looksOneAhead declared rest)
          (fun _ => ⟨[], fun _ ends => ends.2, nofun, fun _ _ => operations_suffices⟩)
          fun right after read => ?_
        have shorter : after.length < rest.length := within_of_plain read
        exact operations_completes declared _ after
termination_by 4 * tokens.length
decreasing_by all_goals (simp only [List.length_cons] at *; omega)

theorem factor_completes (declared : String → Bool) (tokens : List Token) :
    Completes (ofBounded (factor declared)) Anything (· ≠ .mark .openBracket) tokens := by
  match tokens with
  | [] => exact fun _ => ⟨[.int 1], by simp, factor_suffices⟩
  | token :: rest =>
      rw [factor_reader]
      refine .peek_cons ?_
      split
      · exact .take (.map (factor_completes declared rest))
      · exact .take (.map (factor_completes declared rest))
      · refine .take ?_
        refine (expression_completes declared rest).andThen (expression_looksOneAhead declared rest)
          (fun _ => ⟨[.mark .closeParen], ⟨rfl, nofun⟩, by simp, fun _ _ =>
            (Suffices.expect _).map⟩)
          fun inner after read => ?_
        exact .map (.expect (by simp))
      · exact .take .pass
      · exact .take .pass
      · exact .take .pass
      · exact .take .pass
      · exact place_completes declared _ token rest
      · exact .refuse
termination_by 4 * tokens.length
decreasing_by all_goals (simp only [List.length_cons] at *; omega)

theorem place_completes (declared : String → Bool) (name : String) (token : Token)
    (rest : List Token) :
    Completes (place declared name token.line) Anything (· ≠ .mark .openBracket)
      (token :: rest) := by
  rw [place]
  split
  · exact .take (.map (subscripts_completes declared rest))
  · exact .refuse
termination_by 4 * rest.length + 3
decreasing_by all_goals omega

theorem subscripts_completes (declared : String → Bool) (tokens : List Token) :
    Completes (ofBounded (subscripts declared)) Anything (· ≠ .mark .openBracket) tokens := by
  match tokens with
  | [] => exact fun _ => ⟨[], nofun, subscripts_suffices⟩
  | token :: rest =>
      rw [subscripts_reader]
      refine .peek_cons ?_
      split
      · have closes {index : Expr} : Suffices ((ofBounded (expect (.mark .closeBracket))).andThen
            fun _ => (ofBounded (subscripts declared)).map fun more => index :: more)
            [.mark .closeBracket] Anything (· ≠ .mark .openBracket) :=
          .andThen (.expect _) (fun _ _ => subscripts_suffices.map)
            fun _ stop => stop
        refine .take ?_
        refine (expression_completes declared rest).andThen (expression_looksOneAhead declared rest)
          (fun _ => ⟨[.mark .closeBracket], ⟨rfl, nofun⟩, by simp, fun _ _ => closes⟩)
          fun index afterIndex read => ?_
        refine .expect_andThen (by simp) (by simp) (fun _ => subscripts_suffices.map)
          fun closing after closed => ?_
        have first : afterIndex.length < rest.length := within_of_plain read
        have second : after.length < afterIndex.length := within_of_plain closed
        exact .map (subscripts_completes declared after)
      · exact .pass
termination_by 4 * tokens.length + 2
decreasing_by all_goals (simp only [List.length_cons] at *; omega)

end

end ThreeAddress.Grammar

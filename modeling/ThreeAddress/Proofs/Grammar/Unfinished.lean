import Mathlib.Algebra.Order.BigOperators.Group.List
import Mathlib.Algebra.Order.Ring.Nat
import ThreeAddress.Proofs.Grammar.Completion

namespace ThreeAddress.Grammar

open Reader

variable {α : Type} {run : Reader α} {tokens rest : List Token} {kinds : List Kind}
  {follows : Kind → Prop}

section

variable {basic : BasicType} {sizes : List Nat} {value : Nat}

theorem size_append {more : List Nat} : DeclaredType.size ⟨basic, sizes ++ more⟩ =
    (DeclaredType.size ⟨basic, sizes⟩).bind fun bytes => wordProduct bytes more := by
  rw [DeclaredType.size, wordProduct, List.foldlM_append]
  rfl

/-- With a zero after them, sizes still fit. -/
theorem fits_append_zero (fits : DeclaredType.fits ⟨basic, sizes⟩ = true) :
    DeclaredType.fits ⟨basic, sizes ++ [0]⟩ = true := by
  obtain ⟨bytes, size, small⟩ := DeclaredType.fits_iff.mp fits
  refine DeclaredType.fits_iff.mpr ⟨0, ?_, Nat.zero_le _⟩
  rw [size_append, size]
  rfl

/-- A zero makes up for one more size. -/
theorem fits_append_value_zero (fits : DeclaredType.fits ⟨basic, sizes⟩ = true)
    (literal : value ≤ intMax) : DeclaredType.fits ⟨basic, sizes ++ [value, 0]⟩ = true := by
  obtain ⟨bytes, size, small⟩ := DeclaredType.fits_iff.mp fits
  have noOverflow : bytes * value < wordValues :=
    calc bytes * value ≤ intMax * intMax := Nat.mul_le_mul small literal
      _ < wordValues := by decide
  refine DeclaredType.fits_iff.mpr ⟨0, ?_, Nat.zero_le _⟩
  rw [size_append, size]
  simp [wordProduct, noOverflow]
  decide

end

/-- The beginning of a further size, which may be empty. -/
inductive OpensSize : List Token → Prop
  | empty : OpensSize []
  | bracket {opening : Token} : opening.kind = .mark .openBracket → OpensSize [opening]
  | size {opening size : Token} {value : Nat} : opening.kind = .mark .openBracket →
      size.kind = .int value → OpensSize [opening, size]

section

variable {value : Nat} {more : List Nat}

theorem dims_suffices : Suffices (ofBounded dims) [] (· = []) (· ≠ .mark .openBracket) := by
  rw [dims_reader]
  refine .peek_stop fun token stop => ?_
  rw [if_neg stop]
  exact .pass rfl

theorem closing_suffices
    (enough : Suffices (ofBounded dims) kinds (· = more) (· ≠ .mark .openBracket)) :
    Suffices ((ofBounded (expect (.mark .closeBracket))).andThen fun _ =>
      (ofBounded dims).map fun more => value :: more) (.mark .closeBracket :: kinds)
      (· = value :: more) (· ≠ .mark .openBracket) :=
  .andThen (.expect _) (fun _ _ => enough.mapTo fun _ same => congrArg (value :: ·) same) .anywhere

theorem sizePart_suffices
    (enough : Suffices (ofBounded dims) kinds (· = more) (· ≠ .mark .openBracket)) :
    Suffices sizePart (.int value :: .mark .closeBracket :: kinds) (· = value :: more)
      (· ≠ .mark .openBracket) :=
  .peek_take fun size kind => ⟨_, by rw [kind], closing_suffices enough⟩

theorem dims_suffices_zero : Suffices (ofBounded dims)
    [.mark .openBracket, .int 0, .mark .closeBracket] (· = [0]) (· ≠ .mark .openBracket) := by
  rw [dims_reader]
  exact .peek_take fun token opening => ⟨_, if_pos opening, sizePart_suffices dims_suffices⟩

end

theorem expect_broken {wanted : Kind}
    (broken : ofBounded (expect wanted) tokens = .error .brokenOff) : tokens = [] := by
  cases tokens with
  | nil => rfl
  | cons token rest =>
      rw [expect_reader, peek] at broken
      split at broken <;> cases broken

/-- With those before them, the sizes that the tokens end in fit. -/
def SizesFit (basic : BasicType) (seen : List Nat) (tokens : List Token) : Prop :=
  ∀ sizes opened, IsDims tokens sizes opened → OpensSize opened →
    DeclaredType.fits ⟨basic, seen ++ sizes⟩ = true

/-- Numbers are integers of the language. -/
def InRange (tokens : List Token) : Prop :=
  ∀ token ∈ tokens, ∀ value, token.kind = .int value → value ≤ intMax

theorem InRange.suffix {used : List Token} (inRange : InRange (used ++ rest)) : InRange rest :=
  fun token member => inRange token (List.mem_append_right used member)

theorem InRange.tail {token : Token} (inRange : InRange (token :: rest)) : InRange rest :=
  fun other member => inRange other (List.mem_cons_of_mem token member)

section

variable {basic : BasicType}

mutual

/-- A zero size completes sizes that fit. -/
theorem dims_completes (seen : List Nat) (tokens : List Token) (fits : SizesFit basic seen tokens)
    (inRange : InRange tokens) :
    Completes (ofBounded dims) (fun sizes => DeclaredType.fits ⟨basic, seen ++ sizes⟩ = true)
      (· ≠ .mark .openBracket) tokens := by
  match tokens with
  | [] =>
      have enough := fits [] [] .none .empty
      exact fun _ => ⟨[], nofun, dims_suffices.imp fun _ same => same ▸ enough⟩
  | token :: rest =>
      rw [dims_reader]
      refine .peek_cons ?_
      split
      · next opening => exact .take (sizePart_completes seen opening rest fits inRange.tail)
      · exact .pass
termination_by tokens.length
decreasing_by all_goals (simp only [List.length_cons] at *; omega)

theorem sizePart_completes (seen : List Nat) {token : Token}
    (opening : token.kind = .mark .openBracket) (tokens : List Token)
    (fits : SizesFit basic seen (token :: tokens)) (inRange : InRange tokens) :
    Completes sizePart (fun sizes => DeclaredType.fits ⟨basic, seen ++ sizes⟩ = true)
      (· ≠ .mark .openBracket) tokens := by
  match tokens with
  | [] =>
      have enough := fits_append_zero (fits [] [token] .none (.bracket opening))
      rw [List.append_nil] at enough
      refine .peek_nil [.int 0, .mark .closeBracket] ?_ (by simp)
      exact (sizePart_suffices dims_suffices).imp fun _ same => same ▸ enough
  | size :: rest =>
      refine .peek_cons ?_
      split
      · next value number =>
          have begun : Completes (ofBounded (expect (.mark .closeBracket))) Anything Anything rest :=
            .expect (by simp)
          refine .take (begun.andThen (expect_looksOneAhead nofun) (fun broken => ?_)
            fun closing after closed => ?_)
          · -- The size may be too large on its own, but not with a zero after it.
            obtain rfl := expect_broken broken
            have small := inRange size (List.mem_cons_self ..) value number
            have enough :=
              fits_append_value_zero (fits [] [token, size] .none (.size opening number)) small
            rw [List.append_nil] at enough
            exact ⟨_, .anywhere, by simp, fun _ _ => dims_suffices_zero.mapTo
              fun _ same => same ▸ enough⟩
          · have shorter : after.length < rest.length := within_of_plain closed
            obtain ⟨rfl, closes⟩ := finds_expect.mp (finds_iff_plain.mpr closed)
            have restFits : SizesFit basic (seen ++ [value]) after := by
              intro sizes opened derived opens
              rw [List.append_assoc]
              exact fits _ opened (.more opening number closes derived) opens
            refine .mapTo (dims_completes (seen ++ [value]) after restFits inRange.tail.tail)
              fun more fine => ?_
            rwa [List.append_assoc] at fine
      · exact .refuse
termination_by tokens.length
decreasing_by all_goals (simp only [List.length_cons] at *; omega)

end

end

section

variable {scopes : Scopes} {scope : Nat}

theorem exists_newName (scopes : Scopes) (scope : Nat) :
    ∃ length, scopes.declaredIn scope (Kind.longName length) = false := by
  cases here : scopes.all[scope]? with
  | none => exact ⟨0, by rw [Scopes.declaredIn, here]⟩
  | some found =>
      -- No declared name is as long as all of them together.
      refine ⟨(found.declarations.map fun declared => declared.name.length).sum, ?_⟩
      rw [Scopes.declaredIn, here]
      dsimp only
      rw [Scope.find?, Option.isSome_eq_false_iff, Option.isNone_iff_eq_none, List.find?_eq_none]
      intro declared member same
      have short : declared.name.length ≤
          (found.declarations.map fun declared => declared.name.length).sum :=
        List.le_sum_of_mem (List.mem_map_of_mem member)
      have long := congrArg String.length (of_decide_eq_true same)
      rw [Kind.longName, String.length_ofList, List.length_replicate] at long
      omega

theorem newName_suffices {length : Nat}
    (fresh : scopes.declaredIn scope (Kind.longName length) = false) :
    Suffices (ofBounded (newName scopes scope)) [.ident (Kind.longName length)] Anything
      follows := by
  rw [newName_reader]
  refine .peek_take fun token kind =>
    ⟨Reader.pass ⟨Kind.longName length, token.line⟩, ?_, .pass trivial⟩
  rw [kind]
  exact if_neg (by simp [fresh])

theorem newName_completes :
    Completes (ofBounded (newName scopes scope)) Anything Anything tokens := by
  cases tokens with
  | nil =>
      obtain ⟨length, fresh⟩ := exists_newName scopes scope
      exact fun _ => ⟨_, by simp, newName_suffices fresh⟩
  | cons token rest =>
      rw [newName_reader]
      refine .peek_cons ?_
      split
      · split
        · exact .refuse
        · exact .take .pass
      · exact .refuse

theorem trailingDims_suffices {name : String} {leading : List Nat} :
    Suffices (ofBounded (trailingDims name leading)) [] (· = leading)
      (· ≠ .mark .openBracket) := by
  rw [trailingDims_reader]
  split
  · next none => exact List.isEmpty_iff.mp none ▸ dims_suffices
  · refine .peek_stop fun token stop => ?_
    rw [if_neg stop]
    exact .pass rfl

theorem trailingDims_completes {basic : BasicType} {name : String} {leading : List Nat}
    (fits : leading ≠ [] → tokens = [] → DeclaredType.fits ⟨basic, leading⟩ = true)
    (fitsBehind : leading = [] → SizesFit basic [] tokens) (inRange : InRange tokens) :
    Completes (ofBounded (trailingDims name leading))
      (fun sizes => DeclaredType.fits ⟨basic, sizes⟩ = true) (· ≠ .mark .openBracket) tokens := by
  by_cases none : leading = []
  · rw [trailingDims_reader, if_pos (List.isEmpty_iff.mpr none)]
    exact dims_completes [] tokens (fitsBehind none) inRange
  · cases tokens with
    | nil =>
        have enough := fits none rfl
        exact fun _ => ⟨[], nofun, trailingDims_suffices.imp fun _ same => same ▸ enough⟩
    | cons token rest =>
        rw [trailingDims_reader, if_neg (by simpa using none)]
        refine .peek_cons ?_
        split
        · exact .refuse
        · exact .pass

/-- With sizes that fit, only the semicolon is missing behind the name. -/
theorem namedPart_suffices {basic : BasicType} {id : Ident} {leading : List Nat}
    (fits : DeclaredType.fits ⟨basic, leading⟩ = true) :
    Suffices (namedPart basic leading id) [.mark .semicolon] Anything follows := by
  refine .andThen trailingDims_suffices (fun sizes same => ?_) (by simp)
  subst same
  rw [if_pos fits]
  exact (Suffices.expect _).map

theorem newName_broken (broken : ofBounded (newName scopes scope) tokens = .error .brokenOff) :
    tokens = [] := by
  cases tokens with
  | nil => rfl
  | cons token rest =>
      rw [ofBounded, newName] at broken
      split at broken
      · split at broken <;> cases broken
      · cases broken

end

/-- The tokens begin a declaration of this type, as far as its sizes are closed, and do not end
it. -/
inductive BeginsDeclaration : List Token → DeclaredType → Prop
  | leading {type : Token} {basic tokens sizes opened} : type.kind = .basic basic →
      IsDims tokens sizes opened → OpensSize opened →
      BeginsDeclaration (type :: tokens) ⟨basic, sizes⟩
  | named {type name : Token} {basic id tokens sizes} : type.kind = .basic basic →
      IsDims tokens sizes [name] → name.kind = .ident id →
      BeginsDeclaration (type :: tokens) ⟨basic, sizes⟩
  | trailing {type name : Token} {basic id tokens sizes opened} : type.kind = .basic basic →
      name.kind = .ident id → IsDims tokens sizes opened → OpensSize opened →
      BeginsDeclaration (type :: name :: tokens) ⟨basic, sizes⟩

section

variable {scopes : Scopes} {scope : Nat} {basic : BasicType} {type : Token}

theorem namedPart_completes {id : Ident} {leading : List Nat}
    (fits : leading ≠ [] → tokens = [] → DeclaredType.fits ⟨basic, leading⟩ = true)
    (fitsBehind : leading = [] → SizesFit basic [] tokens) (inRange : InRange tokens) :
    Completes (namedPart basic leading id) Anything follows tokens := by
  refine (trailingDims_completes fits fitsBehind inRange).andThen trailingDims_looksOneAhead
    (fun _ => ⟨[.mark .semicolon], by simp, by simp, fun sizes fits => ?_⟩)
    fun sizes last read => ?_
  · rw [if_pos fits]
    exact (Suffices.expect _).map
  · split
    · exact .map (.expect (by simp))
    · exact .refuse

theorem declaration_completes (kind : type.kind = .basic basic)
    (fits : ∀ declared, BeginsDeclaration (type :: tokens) declared → declared.fits = true)
    (inRange : InRange tokens) :
    Completes (ofBounded (declaration scopes scope basic)) Anything follows tokens := by
  rw [declaration_reader]
  have sizesComplete : Completes (ofBounded dims)
      (fun sizes => DeclaredType.fits ⟨basic, sizes⟩ = true) (· ≠ .mark .openBracket) tokens :=
    dims_completes [] tokens (fun _ _ derived opens => fits _ (.leading kind derived opens))
      inRange
  refine sizesComplete.andThen (dims_looksOneAhead tokens) (fun _ => ?_) fun leading rest read => ?_
  · obtain ⟨length, fresh⟩ := exists_newName scopes scope
    exact ⟨[.ident (Kind.longName length), .mark .semicolon], nofun, by simp, fun _ fits =>
      (newName_suffices fresh).andThen (fun _ _ => namedPart_suffices fits) .anywhere⟩
  · have found := finds_iff_plain.mpr read
    have derived := dims_sound tokens found
    obtain ⟨used, whole, -, -⟩ := (dims_looksOneAhead tokens).found read
    have restInRange : InRange rest := by
      rw [whole] at inRange
      exact inRange.suffix
    refine newName_completes.andThen newName_looksOneAhead (fun broken => ?_)
      fun id after named => ?_
    · exact (dims_leaves_token tokens found (newName_broken broken)).elim
    · obtain ⟨name, text, rfl, isName, -, rfl⟩ := finds_newName.mp (finds_iff_plain.mpr named)
      refine namedPart_completes ?_ ?_ ?_
      · rintro - rfl
        exact fits _ (.named kind derived isName)
      · rintro rfl sizes opened trailing opens
        cases derived
        exact fits _ (.trailing kind isName trailing opens)
      · exact restInRange.tail

end

/-- If the tokens end inside of a declaration, then its sizes so far fit. A size counts once its
bracket is closed. -/
def UnfinishedFits (tokens : List Token) : Prop :=
  ∀ earlier later type, tokens = earlier ++ later → BeginsDeclaration later type →
    type.fits = true

/-- The last declaration is not too large already, and numbers are in range. -/
structure Completable (tokens : List Token) : Prop where
  fits : UnfinishedFits tokens
  inRange : InRange tokens

theorem Completable.suffix {used : List Token} (completable : Completable (used ++ rest)) :
    Completable rest where
  fits := fun earlier later type whole begins =>
    completable.fits (used ++ earlier) later type (by rw [whole, List.append_assoc]) begins
  inRange := completable.inRange.suffix

theorem Completable.tail {token : Token} (completable : Completable (token :: rest)) :
    Completable rest :=
  have whole : Completable ([token] ++ rest) := completable
  whole.suffix

/-- What a phrase leaves can still be completed. -/
theorem Completable.behind {value : α} (completable : Completable tokens)
    (looks : LooksOneAhead run tokens) (read : run tokens = .ok (value, rest)) :
    Completable rest := by
  obtain ⟨used, rfl, -, -⟩ := looks.found read
  exact completable.suffix

theorem declarations_suffices {scopes : Scopes} {scope : Nat} :
    Suffices (ofBounded (declarations scopes scope)) [] Anything
      fun kind => ∀ basic, kind ≠ .basic basic := by
  rw [declarations_reader]
  refine .peek_stop fun token stop => ?_
  split
  · next basic kind => exact (stop basic kind).elim
  · exact .pass trivial

theorem declarations_completes (scopes : Scopes) (scope : Nat) (tokens : List Token)
    (completable : Completable tokens) :
    Completes (ofBounded (declarations scopes scope)) Anything
      (fun kind => ∀ basic, kind ≠ .basic basic) tokens := by
  match tokens with
  | [] => exact fun _ => ⟨[], nofun, declarations_suffices⟩
  | token :: rest =>
      rw [declarations_reader]
      refine .peek_cons ?_
      split
      · next basic kind =>
          have begun : Completes (ofBounded (declaration scopes scope basic)) Anything Anything
              rest :=
            declaration_completes kind (fun _ => completable.fits [] _ _ rfl)
              completable.tail.inRange
          refine .take (begun.andThen declaration_looksOneAhead
            (fun _ => ⟨[], .anywhere, nofun, fun _ _ => declarations_suffices.map⟩)
            fun first after read => ?_)
          have shorter : after.length < rest.length := within_of_plain read
          exact .map (declarations_completes _ scope after
            (completable.tail.behind declaration_looksOneAhead read))
      · exact .pass
termination_by tokens.length
decreasing_by all_goals (simp only [List.length_cons] at *; omega)

section

variable {declared : String → Bool}

theorem condition_suffices : Suffices (ofBounded (condition declared))
    [.mark .openParen, .int 1, .mark .closeParen] Anything Anything := by
  rw [condition_reader]
  exact .andThen (.expect _)
    (fun _ _ => expression_suffices.andThen (fun _ _ => (Suffices.expect _).map) ⟨rfl, by simp⟩)
    .anywhere

theorem condition_completes :
    Completes (ofBounded (condition declared)) Anything Anything tokens := by
  rw [condition_reader]
  refine .expect_andThen (by simp) (by simp) (fun _ =>
    expression_suffices.andThen (fun _ _ => (Suffices.expect _).map) ⟨rfl, by simp⟩)
    fun _ rest _ => ?_
  refine (expression_completes declared rest).andThen (expression_looksOneAhead declared rest)
    (fun _ => ⟨[.mark .closeParen], ⟨rfl, by simp⟩, by simp, fun _ _ => (Suffices.expect _).map⟩)
    fun _ _ _ => ?_
  exact .map (.expect (by simp))

theorem assigns_completes {name : String} {token : Token} (kind : token.kind = .ident name) :
    Completes (assigns declared name token.line) Anything follows (token :: rest) := by
  rw [assigns]
  have valueSuffices (target : Expr) : Suffices ((ofBounded (expression declared)).andThen
      fun value => (ofBounded (expect (.mark .semicolon))).map
        fun _ => Stmt.assign target value token.line)
      [.int 1, .mark .semicolon] Anything follows :=
    expression_suffices.andThen (fun _ _ => (Suffices.expect _).map) ⟨rfl, by simp⟩
  refine (place_completes declared name token rest).andThen (place_looksOneAhead declared kind rest)
    (fun _ => ⟨[.mark .assign, .int 1, .mark .semicolon], by simp, by simp, fun target _ =>
      .andThen (.expect _) (fun _ _ => valueSuffices target) .anywhere⟩) fun target after _ => ?_
  refine .expect_andThen (by simp) (by simp) (fun _ => valueSuffices target) fun _ after _ => ?_
  refine (expression_completes declared after).andThen (expression_looksOneAhead declared after)
    (fun _ => ⟨[.mark .semicolon], ⟨rfl, by simp⟩, by simp, fun _ _ => (Suffices.expect _).map⟩)
    fun _ _ _ => ?_
  exact .map (.expect (by simp))

end

section

variable {inLoop : Bool} {scope : Nat} {scopes : Scopes}

theorem statements_suffices : Suffices (ofBounded (statements inLoop scope scopes))
    [.mark .closeBrace] Anything follows := by
  rw [statements_reader]
  exact .peek_take fun token closes => ⟨_, if_pos closes, .pass trivial⟩

theorem block_suffices {parent : Option Nat} : Suffices (ofBounded (block inLoop parent scopes))
    [.mark .closeBrace] Anything follows := by
  rw [block_reader]
  exact declarations_suffices.andThen (fun _ _ => statements_suffices.map) nofun

theorem statement_suffices : Suffices (ofBounded (statement inLoop scope scopes))
    [.mark .openBrace, .mark .closeBrace] Anything follows := by
  rw [statement_reader]
  exact .peek_take fun token opening => ⟨_, by rw [opening], block_suffices.map⟩

theorem elsePart_suffices {test : Expr} {body : Stmt × Scopes} :
    Suffices (elsePart inLoop scope test body) [] Anything (· ≠ .keyword .elseWord) :=
  .peek_stop fun next other => by
    rw [if_neg other]
    exact .pass trivial

theorem whilePart_suffices {body : Stmt × Scopes} : Suffices (whilePart scope body)
    [.keyword .whileWord, .mark .openParen, .int 1, .mark .closeParen, .mark .semicolon]
    Anything follows :=
  .andThen (.expect _)
    (fun _ _ => condition_suffices.andThen (fun _ _ => (Suffices.expect _).map) .anywhere)
    .anywhere

theorem whilePart_completes {body : Stmt × Scopes} :
    Completes (whilePart scope body) Anything follows tokens := by
  refine .expect_andThen (by simp) (by simp) (fun _ =>
    condition_suffices.andThen (fun _ _ => (Suffices.expect _).map) .anywhere) fun _ rest _ => ?_
  refine condition_completes.andThen condition_looksOneAhead
    (fun _ => ⟨[.mark .semicolon], .anywhere, by simp, fun _ _ => (Suffices.expect _).map⟩)
    fun _ _ _ => ?_
  exact .map (.expect (by simp))

end

mutual

theorem statement_completes (inLoop : Bool) (scope : Nat) (scopes : Scopes) (tokens : List Token)
    (completable : Completable tokens) :
    Completes (ofBounded (statement inLoop scope scopes)) Anything (· ≠ .keyword .elseWord)
      tokens := by
  match tokens with
  | [] => exact fun _ => ⟨_, by simp, statement_suffices⟩
  | token :: rest =>
      have inside := completable.tail
      rw [statement_reader]
      refine .peek_cons ?_
      split
      · next kind => exact .map (assigns_completes kind)
      · refine .take (condition_completes.andThen condition_looksOneAhead
          (fun _ => ⟨[.mark .openBrace, .mark .closeBrace], .anywhere, by simp, fun _ _ =>
            statement_suffices.andThen (fun _ _ => elsePart_suffices) fun _ other => other⟩)
          fun test afterTest tested => ?_)
        have first : afterTest.length < rest.length := within_of_plain tested
        have afterCompletable := inside.behind condition_looksOneAhead tested
        have looks := statement_looksOneAhead inLoop scope scopes afterTest
        refine (statement_completes inLoop scope scopes afterTest afterCompletable).andThen looks
          (fun _ => ⟨[], fun _ other => other, nofun, fun _ _ => elsePart_suffices⟩)
          fun body afterBody read => ?_
        have second : afterBody.length < afterTest.length := within_of_plain read
        exact elsePart_completes inLoop scope test body afterBody
          (afterCompletable.behind looks read)
      · refine .take (condition_completes.andThen condition_looksOneAhead
          (fun _ => ⟨[.mark .openBrace, .mark .closeBrace], .anywhere, by simp, fun _ _ =>
            statement_suffices.map⟩) fun test afterTest tested => ?_)
        have first : afterTest.length < rest.length := within_of_plain tested
        exact .map (statement_completes true scope scopes afterTest
          (inside.behind condition_looksOneAhead tested))
      · have looks := statement_looksOneAhead true scope scopes rest
        exact .take ((statement_completes true scope scopes rest inside).andThen looks
          (fun _ => ⟨[.keyword .whileWord, .mark .openParen, .int 1, .mark .closeParen,
            .mark .semicolon], nofun, by simp, fun _ _ => whilePart_suffices⟩)
          fun body _ _ => whilePart_completes)
      · split
        · exact .take (.map (.expect (by simp)))
        · exact .refuse
      · exact .take (.map (block_completes inLoop (some scope) scopes rest inside))
      · exact .refuse
      · exact .refuse
termination_by 3 * tokens.length
decreasing_by all_goals (simp only [List.length_cons] at *; omega)

theorem elsePart_completes (inLoop : Bool) (scope : Nat) (test : Expr) (body : Stmt × Scopes)
    (tokens : List Token) (completable : Completable tokens) :
    Completes (elsePart inLoop scope test body) Anything (· ≠ .keyword .elseWord) tokens := by
  match tokens with
  | [] => exact .peek_nil [] elsePart_suffices nofun
  | token :: rest =>
      refine .peek_cons ?_
      split
      · exact .take (.map (statement_completes inLoop scope body.2 rest completable.tail))
      · exact .pass
termination_by 3 * tokens.length
decreasing_by all_goals (simp only [List.length_cons] at *; omega)

theorem statements_completes (inLoop : Bool) (scope : Nat) (scopes : Scopes) (tokens : List Token)
    (completable : Completable tokens) {follows : Kind → Prop} :
    Completes (ofBounded (statements inLoop scope scopes)) Anything follows tokens := by
  match tokens with
  | [] => exact fun _ => ⟨_, by simp, statements_suffices⟩
  | token :: rest =>
      rw [statements_reader]
      refine .peek_cons ?_
      split
      · exact .take .pass
      · have looks := statement_looksOneAhead inLoop scope scopes (token :: rest)
        refine (statement_completes inLoop scope scopes (token :: rest) completable).andThen looks
          (fun _ => ⟨[.mark .closeBrace], nofun, by simp, fun _ _ => statements_suffices.map⟩)
          fun first after read => ?_
        have shorter : after.length < (token :: rest).length := within_of_plain read
        exact .map (statements_completes inLoop scope first.2 after
          (completable.behind looks read))
termination_by 3 * tokens.length + 1
decreasing_by all_goals (simp only [List.length_cons] at *; omega)

theorem block_completes (inLoop : Bool) (parent : Option Nat) (scopes : Scopes)
    (tokens : List Token) (completable : Completable tokens) {follows : Kind → Prop} :
    Completes (ofBounded (block inLoop parent scopes)) Anything follows tokens := by
  rw [block_reader]
  have looks := declarations_looksOneAhead (scopes.push parent) scopes.count tokens
  refine (declarations_completes _ _ tokens completable).andThen looks
    (fun _ => ⟨[.mark .closeBrace], nofun, by simp, fun _ _ => statements_suffices.map⟩)
    fun made after read => ?_
  have within : after.length < tokens.length + 1 := within_of_plain read
  exact .map (statements_completes inLoop scopes.count made.2 after
    (completable.behind looks read))
termination_by 3 * tokens.length + 2
decreasing_by omega

end

theorem wholeProgram_completes (completable : Completable tokens) :
    Completes wholeProgram Anything (· = .eof) tokens := by
  have ends {whole : Block × Scopes} : Suffices (peek fun token =>
      if token.kind = .eof then pass ⟨whole.1, whole.2⟩ else refuse (.mismatch .eof token.kind))
      [] (Anything : Program → Prop) (· = .eof) :=
    .peek_stop fun token isEnd => by
      rw [if_pos isEnd]
      exact .pass trivial
  have looks : LooksOneAhead (ofBounded (expect (.mark .openBrace))) tokens :=
    expect_looksOneAhead (by simp)
  refine .expect_andThen (by simp) (by simp)
    (fun _ => block_suffices.andThen (fun _ _ => ends) .anywhere) fun _ rest opened => ?_
  have inside := completable.behind looks opened
  have blockBegun : Completes (ofBounded (block false none {})) Anything Anything rest :=
    block_completes false none {} rest inside
  refine blockBegun.andThen (block_looksOneAhead false none {} rest)
    (fun _ => ⟨[], .anywhere, by simp, fun _ _ => ends⟩) fun whole after _ => ?_
  cases after with
  | nil => exact .peek_nil [] ends (by simp)
  | cons token later =>
      refine .peek_cons ?_
      split
      · exact .pass
      · exact .refuse

end ThreeAddress.Grammar

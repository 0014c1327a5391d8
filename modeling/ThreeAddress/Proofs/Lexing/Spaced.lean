import ThreeAddress.Proofs.Lexing.Written

namespace ThreeAddress

open Text

variable {kind : Kind} {kinds : List Kind} {gap rest text trailing : List Char}

/-- The text of the token says what it is. An integer is one of the language, and an identifier is a
word and no reserved one. -/
def Kind.Plain : Kind → Prop
  | .eof | .real _ => False
  | .int value => value ≤ intMax
  | .ident name =>
      (∃ first rest, name.toList = first :: rest ∧ isLetter first = true ∧
        ∀ c ∈ rest, isWordPart c = true) ∧ ∀ kind ∈ reserved, kind.text ≠ name
  | .basic _ | .keyword _ | .mark _ => True

/-- The texts of the tokens one after the other, with blanks between any two of them. -/
inductive Spaced : List Kind → List Char → Prop
  | none : Spaced [] []
  | last {kind : Kind} : Spaced [kind] kind.text.toList
  | more {kind next : Kind} {kinds : List Kind} {gap text : List Char} : gap ≠ [] →
      (∀ c ∈ gap, isBlank c = true) → Spaced (next :: kinds) text →
      Spaced (kind :: next :: kinds) (kind.text.toList ++ (gap ++ text))

theorem Kind.writable_basic (type : BasicType) : (basic type).Writable :=
  IsLexeme.reserved (by cases type <;> decide)

theorem Kind.Plain.writable (plain : kind.Plain) : kind.Writable := by
  cases kind with
  | eof => exact plain.elim
  | real value => exact plain.elim
  | int value => exact writable_int plain
  | ident name =>
      obtain ⟨⟨first, rest, chars, letter, parts⟩, free⟩ := plain
      have lexical : IsLexeme (first :: rest) (.ident (String.ofList (first :: rest))) := by
        refine .ident letter parts fun kind member same => free kind member ?_
        exact String.toList_inj.mp (same.trans chars.symm)
      rw [← chars, String.ofList_toList] at lexical
      exact lexical
  | basic type => exact writable_basic type
  | keyword word => exact writable_keyword word
  | mark sign => exact writable_mark sign

theorem Writes.behind_blanks (blank : ∀ c ∈ gap, isBlank c = true) (written : Writes rest kinds) :
    Writes (gap ++ rest) kinds := by
  induction gap with
  | nil => exact written
  | cons c gap ih =>
      obtain ⟨here, others⟩ := List.forall_mem_cons.mp blank
      exact (ih others).blank here

theorem Spaced.writes (spaced : Spaced kinds text) (plain : ∀ kind ∈ kinds, kind.Plain)
    (blank : ∀ c ∈ trailing, isBlank c = true) : Writes (text ++ trailing) kinds := by
  have atEnd : Delimited trailing := fun c here => .inl (blank c (List.mem_of_mem_head? here))
  induction spaced with
  | none => exact .blanks blank
  | @last kind =>
      have writable := (plain kind List.mem_cons_self).writable
      exact .delimited writable atEnd (.blanks blank)
  | @more kind next kinds gap text apart gapBlank _ ih =>
      obtain ⟨here, others⟩ := List.forall_mem_cons.mp plain
      have ends : Delimited (gap ++ (text ++ trailing)) := by
        obtain ⟨c, gap, rfl⟩ := List.exists_cons_of_ne_nil apart
        exact delimited_cons.mpr (.inl (gapBlank c List.mem_cons_self))
      rw [List.append_assoc, List.append_assoc]
      exact .delimited here.writable ends ((ih others).behind_blanks gapBlank)

/-- The texts of plain tokens with blanks between them are read as these tokens, with no fault and
nothing behind them but the end of the text. -/
theorem spaced_texts_lex_back {filename source : String} {leading : List Char}
    (plain : ∀ kind ∈ kinds, kind.Plain) (spaced : Spaced kinds text)
    (before : ∀ c ∈ leading, isBlank c = true) (behind : ∀ c ∈ trailing, isBlank c = true)
    (whole : source.toList = leading ++ (text ++ trailing)) :
    (Lexer.ofText filename source).run.failure = none ∧
      (Lexer.ofText filename source).run.tokens.map Token.kind = kinds ++ [.eof] := by
  have written : Writes (leading ++ (text ++ trailing)) kinds :=
    (spaced.writes plain behind).behind_blanks before
  exact Lexer.run_writes _ written whole

/-- A comparison cut in two, a word that ends like a reserved one, and blanks of several kinds. -/
def splitComparison : String :=
  " é²if\u00a0if\t<\u2028=\r\n2147483647 "

def splitComparisonKinds : List Kind :=
  [.ident "é²if", .keyword .ifWord, .mark .less, .mark .assign, .int 2147483647]

theorem splitComparison_lex_back :
    (∀ kind ∈ splitComparisonKinds, kind.Plain) ∧
    (∃ text, Spaced splitComparisonKinds text ∧
      splitComparison.toList = [' '] ++ (text ++ [' '])) ∧
    (Lexer.ofText "split" splitComparison).run.failure = none ∧
    (Lexer.ofText "split" splitComparison).run.tokens.map Token.kind =
      splitComparisonKinds ++ [.eof] := by
  have word : (Kind.ident "é²if").Plain :=
    ⟨⟨'é', ['²', 'i', 'f'], rfl, by decide, List.all_eq_true.mp (by decide)⟩, by decide⟩
  have number : (Kind.int 2147483647).Plain := Nat.le_refl intMax
  have plain : ∀ kind ∈ splitComparisonKinds, kind.Plain := by
    simp only [splitComparisonKinds, List.forall_mem_cons, List.not_mem_nil, false_implies,
      implies_true, and_true]
    exact ⟨word, trivial, trivial, trivial, number⟩
  have spaced : ∃ text, Spaced splitComparisonKinds text ∧
      splitComparison.toList = [' '] ++ (text ++ [' ']) := by
    have between : Spaced splitComparisonKinds _ :=
      @Spaced.more _ _ _ ['\u00a0'] _ nofun (List.all_eq_true.mp (by decide)) <|
      @Spaced.more _ _ _ ['\t'] _ nofun (List.all_eq_true.mp (by decide)) <|
      @Spaced.more _ _ _ ['\u2028'] _ nofun (List.all_eq_true.mp (by decide)) <|
      @Spaced.more _ _ _ ['\r', '\n'] _ nofun (List.all_eq_true.mp (by decide)) .last
    exact ⟨_, between, by decide⟩
  have blank : ∀ c ∈ [' '], isBlank c = true := List.all_eq_true.mp (by decide)
  obtain ⟨text, between, whole⟩ := spaced
  exact ⟨plain, ⟨text, between, whole⟩,
    spaced_texts_lex_back plain between blank blank whole⟩

end ThreeAddress

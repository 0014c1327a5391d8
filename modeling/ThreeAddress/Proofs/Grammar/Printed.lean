import ThreeAddress.Proofs.Grammar.Legible
import ThreeAddress.Proofs.Lexing.Written
import ThreeAddress.Proofs.Reformatting

namespace ThreeAddress

/-- The lexemes with an equals sign in front are marks. -/
theorem IsLexeme.starts {spelling : List Char} {kind : Kind} (lexical : IsLexeme spelling kind)
    (noMark : ∀ sign, kind ≠ .mark sign) :
    ∃ first rest, spelling = first :: rest ∧ first ≠ '=' := by
  obtain ⟨first, rest, rfl⟩ := List.exists_cons_of_ne_nil lexical.form.nonempty
  refine ⟨first, rest, rfl, ?_⟩
  rintro rfl
  generalize whole : '=' :: rest = spelling at lexical
  cases lexical with
  | int _ digits _ =>
      subst whole
      exact absurd (digits '=' List.mem_cons_self) (by decide)
  | real nonempty digits _ _ =>
      obtain ⟨digit, more, rfl⟩ := List.exists_cons_of_ne_nil nonempty
      cases whole
      exact absurd (digits '=' List.mem_cons_self) (by decide)
  | reserved member =>
      have words : ∀ kind ∈ Kind.reserved, kind.text.toList.head? ≠ some '=' := by decide
      exact words _ member (by rw [← whole]; rfl)
  | ident letter _ _ =>
      cases whole
      exact absurd letter (by decide)
  | mark => exact noMark _ rfl

/-- A sign makes an operator of two characters with an equals sign only. -/
theorem UnaryOp.alone {op : UnaryOp} {first : Char} {behind : List Char}
    (sign : op.mark.text.toList = [first]) (noEqual : ∀ c ∈ behind.head?, c ≠ '=') :
    behind.head?.bind (Mark.pair? first) = none := by
  have noPair : first ≠ '&' ∧ first ≠ '|' := by
    cases op <;> cases sign <;> decide
  cases behind with
  | nil => rfl
  | cons c rest => exact Mark.pair?_of_noEqual noPair.1 noPair.2 (noEqual c rfl)

namespace Expr

theorem text_starts (expr : Expr) (legible : expr.Legible)
    (writable : ∀ kind ∈ expr.asRead.kinds, kind.Writable) :
    ∃ first rest, expr.text.toList = first :: rest ∧ first ≠ '=' := by
  match expr with
  | .binary _ op left right =>
      obtain ⟨first, rest, starts, other⟩ := text_starts left legible.2.1
        (List.forall_mem_append.mp writable).1
      refine ⟨first, rest ++ ' ' :: (op.text.toList ++ ' ' :: right.text.toList), ?_, other⟩
      simp [text, starts]
  | .unary _ .neg operand => exact ⟨'-', operand.text.toList, String.toList_append, by decide⟩
  | .unary _ .not operand => exact ⟨'!', operand.text.toList, String.toList_append, by decide⟩
  | .paren _ inner => exact ⟨'(', inner.text.toList ++ [')'], by simp [text], by decide⟩
  | .loc _ id indices =>
      obtain ⟨name, -⟩ := List.forall_mem_cons.mp writable
      obtain ⟨first, rest, starts, other⟩ := name.starts nofun
      refine ⟨first, rest ++ (indicesText indices).toList, ?_, other⟩
      rw [text, String.toList_append]
      exact congrArg (· ++ _) starts
  | .int _ value =>
      obtain ⟨number, rfl⟩ := Int.eq_ofNat_of_zero_le legible
      exact (writable _ (List.mem_singleton_self _)).starts nofun
  | .bool _ value =>
      cases value
      · exact (Kind.writable_keyword .falseWord).starts nofun
      · exact (Kind.writable_keyword .trueWord).starts nofun
  | .real _ value =>
      have real : (Kind.real value).Writable := writable _ (List.mem_singleton_self _)
      rw [text]
      exact real.starts nofun
  | .temp _ number =>
      have name : (Kind.ident ("t" ++ toString number)).Writable :=
        writable _ (List.mem_singleton_self _)
      rw [text]
      exact name.starts nofun

mutual

theorem writes_text (expr : Expr) {behind : List Char} {more : List Kind}
    (legible : expr.Legible) (writable : ∀ kind ∈ expr.asRead.kinds, kind.Writable)
    (ends : Delimited behind) (written : Writes behind more) :
    Writes (expr.text.toList ++ behind) (expr.asRead.kinds ++ more) := by
  have space : Text.isBlank ' ' = true := by decide
  have blank : " ".toList = [' '] := rfl
  match expr with
  | .binary note op left right =>
      obtain ⟨-, leftLegible, rightLegible⟩ := legible
      obtain ⟨leftWritable, others⟩ := List.forall_mem_append.mp writable
      obtain ⟨-, rightWritable⟩ := List.forall_mem_cons.mp others
      have rightWritten := (writes_text right rightLegible rightWritable ends written).blank space
      have signWritten := (Writes.delimited (Kind.writable_mark op.mark)
        (delimited_cons.mpr (.inl space)) rightWritten).blank space
      have whole := writes_text left leftLegible leftWritable (delimited_cons.mpr (.inl space))
        signWritten
      simp only [text, asRead, kinds, String.toList_append, blank, List.append_assoc,
        List.cons_append, List.nil_append]
      exact whole
  | .unary note op operand =>
      obtain ⟨-, operandWritable⟩ := List.forall_mem_cons.mp writable
      obtain ⟨first, rest, starts, other⟩ := text_starts operand legible.2 operandWritable
      have operandWritten := writes_text operand legible.2 operandWritable ends written
      have noEqual : ∀ c ∈ (operand.text.toList ++ behind).head?, c ≠ '=' := by
        rw [starts]
        intro c here
        cases here
        exact other
      have whole := Writes.mark op.mark (fun first sign => UnaryOp.alone sign noEqual)
        operandWritten
      rw [text, String.toList_append, List.append_assoc]
      exact whole
  | .paren _ inner =>
      obtain ⟨-, others⟩ := List.forall_mem_cons.mp writable
      obtain ⟨innerWritable, -⟩ := List.forall_mem_append.mp others
      have closed : Writes (')' :: behind) (.mark .closeParen :: more) :=
        .punctuation .closeParen rfl (by decide) written
      have innerWritten := writes_text inner legible innerWritable
        (delimited_cons.mpr (.inr (.inl rfl))) closed
      have whole : Writes ('(' :: _) (.mark .openParen :: _) :=
        .punctuation .openParen rfl (by decide) innerWritten
      simpa [text, asRead, kinds] using whole
  | .loc _ id indices =>
      obtain ⟨name, indicesWritable⟩ := List.forall_mem_cons.mp writable
      have stops : ∀ c ∈ ((indicesText indices).toList ++ behind).head?,
          Text.isWordPart c = false := by
        cases indices with
        | nil => exact ends.noWordPart
        | cons index rest =>
            have bracket : ((indicesText (index :: rest)).toList ++ behind).head? = some '[' := by
              simp [indicesText]
            rw [bracket]
            intro c here
            cases here
            decide
      have whole := Writes.name name stops
        (writes_indicesText indices legible indicesWritable written)
      rw [text, String.toList_append, List.append_assoc]
      exact whole
  | .int note value =>
      obtain ⟨number, rfl⟩ := Int.eq_ofNat_of_zero_le legible
      have integer : (Kind.int number).Writable := writable _ (List.mem_singleton_self _)
      have spelled : (Expr.int note number).text = (Kind.int number).text := rfl
      rw [spelled]
      exact Writes.delimited integer ends written
  | .real note value =>
      have real : (Kind.real value).Writable := writable _ (List.mem_singleton_self _)
      have spelled : (Expr.real note value).text = (Kind.real value).text := by
        rw [text, Kind.text]
      rw [spelled]
      exact Writes.delimited real ends written
  | .bool note value =>
      have spelled : (Expr.bool note value).text =
          (Kind.keyword (if value then .trueWord else .falseWord)).text := by cases value <;> rfl
      rw [spelled]
      exact Writes.delimited (Kind.writable_keyword _) ends written
  | .temp note number =>
      have name : (Kind.ident ("t" ++ toString number)).Writable :=
        writable _ (List.mem_singleton_self _)
      have spelled : (Expr.temp note number).text = (Kind.ident ("t" ++ toString number)).text := by
        rw [text, Kind.text]
      rw [spelled]
      exact Writes.delimited name ends written

theorem writes_indicesText (indices : List Expr) {behind : List Char} {more : List Kind}
    (legible : AllLegible indices)
    (writable : ∀ kind ∈ indicesKinds (asReadAll indices), kind.Writable)
    (written : Writes behind more) :
    Writes ((indicesText indices).toList ++ behind) (indicesKinds (asReadAll indices) ++ more) := by
  match indices with
  | [] => exact written
  | index :: rest =>
      obtain ⟨-, others⟩ := List.forall_mem_cons.mp writable
      obtain ⟨indexWritable, others⟩ := List.forall_mem_append.mp others
      obtain ⟨-, restWritable⟩ := List.forall_mem_cons.mp others
      have closed : Writes (']' :: _) (.mark .closeBracket :: _) :=
        .punctuation .closeBracket rfl (by decide)
          (writes_indicesText rest legible.2 restWritable written)
      have indexWritten := writes_text index legible.1 indexWritable
        (delimited_cons.mpr (.inr (.inr rfl))) closed
      have whole : Writes ('[' :: _) (.mark .openBracket :: _) :=
        .punctuation .openBracket rfl (by decide) indexWritten
      simpa [indicesText, asReadAll, indicesKinds] using whole

end

end Expr

namespace Grammar

open Relabelling

theorem operator?_relabelled (new : Relabelling) (expr : Expr) :
    (new.expr expr).operator? = expr.operator? := by
  cases expr <;> rfl

/-- The tokens are read as an operand and operators, and a grouped tree with that sequence is this
one up to lines. -/
def ReadsLike (declared : String → Bool) (tokens : List Token) (tree : Expr)
    (rest : List Token) : Prop :=
  ∃ again middle, Finds (factor declared tokens) again.first middle ∧
    IsSequence declared middle again.operations rest ∧ again.Grouped ∧
    unlined.expr again = unlined.expr tree

namespace ReadsLike

variable {declared : String → Bool} {tokens rest : List Token} {tree again : Expr}

theorem expression (reads : ReadsLike declared tokens tree rest)
    (stop : Ahead (BinaryOp.ofKind? · = none) rest) :
    ∃ again, Finds (Grammar.expression declared tokens) again rest ∧
      unlined.expr again = unlined.expr tree := by
  obtain ⟨again, middle, start, sequence, grouped, same⟩ := reads
  have appended := sequence.operations_finds again.first stop
  rw [Expr.extendAll_operations again grouped sequence.plain] at appended
  exact ⟨again, finds_expression.mpr ⟨again.first, middle, start, appended⟩, same⟩

theorem factor (reads : ReadsLike declared tokens tree rest) (single : tree.isBinary = false) :
    ∃ again, Finds (Grammar.factor declared tokens) again rest ∧
      unlined.expr again = unlined.expr tree := by
  obtain ⟨again, middle, start, sequence, -, same⟩ := reads
  have againSingle : again.isBinary = false := by
    rw [← expr_isBinary again, same, expr_isBinary, single]
  rw [Expr.first_of_single againSingle] at start
  rw [Expr.operations_of_single againSingle] at sequence
  cases sequence
  exact ⟨again, start, same⟩

theorem of_factor (found : Finds (Grammar.factor declared tokens) again rest)
    (same : unlined.expr again = unlined.expr tree) : ReadsLike declared tokens tree rest := by
  have single := factor_single (finds_iff_plain.mp found)
  refine ⟨again, rest, ?_, ?_, Expr.grouped_of_single single, same⟩
  · rwa [Expr.first_of_single single]
  · rw [Expr.operations_of_single single]
    exact .nil

theorem of_location {token : Token} {name : String} {line other : Nat}
    {indices againIndices : List Expr} (kind : token.kind = .ident name)
    (known : declared name = true) (found : Finds (subscripts declared tokens) againIndices rest)
    (same : unlined.exprs againIndices = unlined.exprs indices) :
    ReadsLike declared (token :: tokens) (.loc { line := line } ⟨name, other⟩ indices) rest := by
  have place : Finds (location declared name token tokens)
      (.loc { line := token.line } ⟨name, token.line⟩ againIndices) rest :=
    finds_location.mpr ⟨known, againIndices, found, rfl⟩
  have read := finds_factor.mpr (.inr (.inr (.inr (.inr (.inr (.inr ⟨name, kind, place⟩))))))
  refine .of_factor read ?_
  rw [Relabelling.expr, Relabelling.expr, same]
  rfl

end ReadsLike

mutual

/-- Tokens of the kinds that the text of an expression shows are read as its tree. -/
theorem reads_like {declared : String → Bool} (expr : Expr) {front rest : List Token}
    (legible : expr.Legible)
    (known : ∀ name, .ident name ∈ expr.asRead.kinds → declared name = true)
    (kinds : front.map Token.kind = expr.asRead.kinds)
    (noIndex : Ahead (· ≠ .mark .openBracket) rest) :
    ReadsLike declared (front ++ rest) expr.asRead rest := by
  match expr with
  | .binary note op left right =>
      obtain ⟨grouped, leftLegible, rightLegible⟩ := legible
      obtain ⟨leftFront, others, rfl, leftKinds, otherKinds⟩ := List.map_eq_append_iff.mp kinds
      obtain ⟨sign, rightFront, rfl, signKind, rightKinds⟩ := List.map_eq_cons_iff.mp otherKinds
      have isSign : BinaryOp.ofKind? sign.kind = some op := by
        rw [signKind]
        exact BinaryOp.ofMark?_eq_some_iff.mpr rfl
      have noIndexThere : Ahead (· ≠ .mark .openBracket) (sign :: (rightFront ++ rest)) :=
        ahead_of_kind signKind (by cases op <;> nofun)
      obtain ⟨leftAgain, middle, start, leftSequence, leftGrouped, leftSame⟩ :=
        reads_like left leftLegible
          (fun name member => known name (List.mem_append_left _ member)) leftKinds noIndexThere
      obtain ⟨rightAgain, later, operandFound, rightSequence, rightGrouped, rightSame⟩ :=
        reads_like right rightLegible
          (fun name member => known name
            (List.mem_append_right _ (List.mem_cons_of_mem _ member))) rightKinds noIndex
      have leftOperator : leftAgain.operator? = left.operator? := by
        rw [← operator?_relabelled unlined, leftSame, operator?_relabelled, Expr.operator?_asRead]
      have rightOperator : rightAgain.operator? = right.operator? := by
        rw [← operator?_relabelled unlined, rightSame, operator?_relabelled,
          Expr.operator?_asRead]
      refine ⟨.binary { line := sign.line } op leftAgain rightAgain, middle, ?_, ?_, ?_, ?_⟩
      · rw [List.append_assoc]
        exact start
      · exact leftSequence.append (.cons isSign operandFound rightSequence)
      · exact ⟨leftOperator ▸ grouped.1, rightOperator ▸ grouped.2.1, leftGrouped, rightGrouped⟩
      · rw [Expr.asRead, Relabelling.expr, Relabelling.expr, leftSame, rightSame]
        rfl
  | .unary note op operand =>
      obtain ⟨single, operandLegible⟩ := legible
      obtain ⟨sign, operandFront, rfl, signKind, operandKinds⟩ := List.map_eq_cons_iff.mp kinds
      obtain ⟨again, found, same⟩ := (reads_like operand operandLegible
        (fun name member => known name (List.mem_cons_of_mem _ member)) operandKinds
        noIndex).factor (by rw [Expr.isBinary_asRead, single])
      refine .of_factor (finds_factor.mpr (.inl ⟨op, again, signKind, found, rfl⟩)) ?_
      rw [Expr.asRead, Relabelling.expr, Relabelling.expr, same]
      rfl
  | .paren note inner =>
      obtain ⟨opening, others, rfl, opens, otherKinds⟩ := List.map_eq_cons_iff.mp kinds
      obtain ⟨innerFront, last, rfl, innerKinds, lastKinds⟩ := List.map_eq_append_iff.mp otherKinds
      obtain ⟨closing, none, rfl, closes, noMore⟩ := List.map_eq_cons_iff.mp lastKinds
      obtain rfl := List.map_eq_nil_iff.mp noMore
      have noIndexThere : Ahead (· ≠ .mark .openBracket) (closing :: rest) :=
        ahead_of_kind closes nofun
      have innerReads := reads_like inner legible
        (fun name member => known name
          (List.mem_cons_of_mem _ (List.mem_append_left _ member))) innerKinds noIndexThere
      obtain ⟨again, found, same⟩ := innerReads.expression (ahead_of_kind closes rfl)
      have read : Finds (factor declared (opening :: (innerFront ++ closing :: rest)))
          (.paren { line := opening.line } again) rest :=
        finds_factor.mpr (.inr (.inl ⟨again, closing, opens, found, closes, rfl⟩))
      have tokens : opening :: (innerFront ++ [closing]) ++ rest =
          opening :: (innerFront ++ closing :: rest) := by simp
      rw [tokens]
      refine .of_factor read ?_
      rw [Expr.asRead, Relabelling.expr, Relabelling.expr, same]
      rfl
  | .loc note id indices =>
      obtain ⟨token, indicesFront, rfl, kind, indicesKinds⟩ := List.map_eq_cons_iff.mp kinds
      obtain ⟨again, found, same⟩ := subscripts_like indices legible
        (fun name member => known name (List.mem_cons_of_mem _ member)) indicesKinds noIndex
      exact .of_location kind (known id.name List.mem_cons_self) found same
  | .int note value =>
      obtain ⟨token, rfl, kind⟩ := List.map_eq_singleton_iff.mp kinds
      refine .of_factor (finds_factor.mpr (.inr (.inr (.inl ⟨_, kind, rfl, rfl⟩)))) ?_
      rw [Int.toNat_of_nonneg legible]
      rfl
  | .real note value =>
      obtain ⟨token, rfl, kind⟩ := List.map_eq_singleton_iff.mp kinds
      exact .of_factor (finds_factor.mpr (.inr (.inr (.inr (.inl ⟨_, kind, rfl, rfl⟩))))) rfl
  | .bool note true =>
      obtain ⟨token, rfl, kind⟩ := List.map_eq_singleton_iff.mp kinds
      exact .of_factor
        (finds_factor.mpr (.inr (.inr (.inr (.inr (.inl ⟨kind, rfl, rfl⟩)))))) rfl
  | .bool note false =>
      obtain ⟨token, rfl, kind⟩ := List.map_eq_singleton_iff.mp kinds
      exact .of_factor
        (finds_factor.mpr (.inr (.inr (.inr (.inr (.inr (.inl ⟨kind, rfl, rfl⟩))))))) rfl
  | .temp note number =>
      obtain ⟨token, rfl, kind⟩ := List.map_eq_singleton_iff.mp kinds
      obtain ⟨next, later, rfl, noBracket⟩ := noIndex
      exact .of_location kind (known _ List.mem_cons_self)
        ((finds_subscripts_stop noBracket).mpr ⟨rfl, rfl⟩) rfl

theorem subscripts_like {declared : String → Bool} (indices : List Expr)
    {front rest : List Token} (legible : Expr.AllLegible indices)
    (known : ∀ name, .ident name ∈ Expr.indicesKinds (Expr.asReadAll indices) →
      declared name = true)
    (kinds : front.map Token.kind = Expr.indicesKinds (Expr.asReadAll indices))
    (noIndex : Ahead (· ≠ .mark .openBracket) rest) :
    ∃ again, Finds (subscripts declared (front ++ rest)) again rest ∧
      unlined.exprs again = unlined.exprs (Expr.asReadAll indices) := by
  match indices with
  | [] =>
      obtain rfl := List.map_eq_nil_iff.mp kinds
      obtain ⟨next, later, rfl, noBracket⟩ := noIndex
      exact ⟨[], (finds_subscripts_stop noBracket).mpr ⟨rfl, rfl⟩, rfl⟩
  | index :: more =>
      obtain ⟨opening, others, rfl, opens, otherKinds⟩ := List.map_eq_cons_iff.mp kinds
      obtain ⟨indexFront, last, rfl, indexKinds, lastKinds⟩ := List.map_eq_append_iff.mp otherKinds
      obtain ⟨closing, moreFront, rfl, closes, moreKinds⟩ := List.map_eq_cons_iff.mp lastKinds
      have noIndexThere : Ahead (· ≠ .mark .openBracket) (closing :: (moreFront ++ rest)) :=
        ahead_of_kind closes nofun
      have indexReads := reads_like index legible.1
        (fun name member => known name
          (List.mem_cons_of_mem _ (List.mem_append_left _ member))) indexKinds noIndexThere
      obtain ⟨again, found, same⟩ := indexReads.expression (ahead_of_kind closes rfl)
      obtain ⟨moreAgain, moreFound, moreSame⟩ := subscripts_like more legible.2
        (fun name member => known name
          (List.mem_cons_of_mem _ (List.mem_append_right _ (List.mem_cons_of_mem _ member))))
        moreKinds noIndex
      have tokens : opening :: (indexFront ++ closing :: moreFront) ++ rest =
          opening :: (indexFront ++ closing :: (moreFront ++ rest)) := by simp
      rw [tokens]
      refine ⟨again :: moreAgain, (finds_subscripts_step opens).mpr
        ⟨again, closing, _, moreAgain, found, closes, moreFound, rfl⟩, ?_⟩
      rw [Expr.asReadAll, Relabelling.exprs, Relabelling.exprs, same, moreSame]

end

/-- However it is called, a file with this text has no lexical fault and is read up to its end as
one expression, which is this tree up to lines. -/
def ReadsBack (declared : String → Bool) (text : String) (tree : Expr) : Prop :=
  ∀ filename, (Lexer.ofText filename text).run.failure = none ∧
    ∃ again ending, Finds (expression declared (Lexer.ofText filename text).run.tokens) again
      [ending] ∧ ending.kind = .eof ∧ unlined.expr again = unlined.expr tree

theorem readsBack_text {declared : String → Bool} {expr : Expr} (legible : expr.Legible)
    (writable : ∀ kind ∈ expr.asRead.kinds, kind.Writable)
    (known : ∀ name, .ident name ∈ expr.asRead.kinds → declared name = true) :
    ReadsBack declared expr.text expr.asRead := by
  intro filename
  have noBlanks : ∀ c ∈ ([] : List Char), Text.isBlank c = true := nofun
  have written := expr.writes_text legible writable delimited_nil (.blanks noBlanks)
  rw [List.append_nil, List.append_nil] at written
  obtain ⟨clean, kinds⟩ := Lexer.run_writes (Lexer.ofText filename expr.text) written rfl
  obtain ⟨front, last, tokens, frontKinds, lastKind⟩ := List.map_eq_append_iff.mp kinds
  obtain ⟨ending, rfl, ends⟩ := List.map_eq_singleton_iff.mp lastKind
  have noIndex : Ahead (· ≠ .mark .openBracket) [ending] := ahead_of_kind ends nofun
  have reads := reads_like expr legible known frontKinds noIndex
  obtain ⟨again, found, same⟩ := reads.expression (ahead_of_kind ends rfl)
  rw [tokens]
  exact ⟨clean, again, ending, found, ends, same⟩

/-- The text of a tree without reals is read as this tree again, wherever it was read in a text and
with the same names declared. -/
theorem read_tree_reads_back {declared : String → Bool} {filename source : String}
    {before tokens rest : List Token} {tree : Expr}
    (lexed : (Lexer.ofText filename source).run.tokens = before ++ tokens)
    (read : Finds (expression declared tokens) tree rest)
    (noReal : ∀ note value, .real note value ∉ tree.nodes) :
    ReadsBack declared tree.text tree := by
  obtain ⟨kinds, legible, asRead⟩ := expression_shows tokens read
  have writable : ∀ kind ∈ tree.kinds, kind.Writable := by
    intro kind member
    have among : kind ∈ tokens.map Token.kind := kinds ▸ List.mem_append_left _ member
    obtain ⟨token, inside, rfl⟩ := List.mem_map.mp among
    obtain ⟨spelling, lexical⟩ := Lexer.run_lexeme (Lexer.ofText filename source)
      (lexed ▸ List.mem_append_right _ inside) (Expr.inside_of_mem_kinds member)
    refine Kind.writable_of_lexeme lexical fun value real => ?_
    rw [real] at member
    obtain ⟨note, literal⟩ := Expr.real_of_mem_kinds member
    exact noReal note value literal
  have known : ∀ name, .ident name ∈ tree.kinds → declared name = true :=
    fun name member => expression_names tokens read name (Expr.name_of_mem_kinds member)
  rw [← asRead] at writable known
  have reads := readsBack_text legible writable known
  rwa [asRead] at reads

/-- Signs, parentheses, an element, and a number that is not spelled in the shortest way. -/
def signedProduct : String :=
  "-(a[007]-b)*!c;"

set_option maxRecDepth 2048 in
theorem signedProduct_reads_back : ∃ tokens phrase,
    (Lexer.ofText "signed" signedProduct).run.tokens = tokens ∧
    expression (fun name => name.length == 1) tokens = .ok phrase ∧
    phrase.value.text = "-(a[7] - b) * !c" ∧
    (∀ note value, .real note value ∉ phrase.value.nodes) ∧
    ReadsBack (fun name => name.length == 1) phrase.value.text phrase.value := by
  have read : ∃ tokens phrase, (Lexer.ofText "signed" signedProduct).run.tokens = tokens ∧
      expression (fun name => name.length == 1) tokens = .ok phrase ∧
      phrase.value.text = "-(a[7] - b) * !c" ∧
      ∀ note value, .real note value ∉ phrase.value.nodes :=
    ⟨_, _, by cbv, by cbv, by cbv, by simp [Expr.nodes, Expr.indicesNodes]⟩
  obtain ⟨tokens, phrase, lexed, parsed, text, noReal⟩ := read
  have whole : (Lexer.ofText "signed" signedProduct).run.tokens = [] ++ tokens := lexed
  exact ⟨tokens, phrase, lexed, parsed, text, noReal,
    read_tree_reads_back whole ⟨phrase.within, parsed⟩ noReal⟩

end Grammar

end ThreeAddress

import Mathlib.Tactic
import ThreeAddress.Proofs.Lexing.Renamed

namespace ThreeAddress

open Text Decimal

/-!
# Tokens written as text

A lexeme is read as its token where a delimiter stands behind it: a blank, a closing
parenthesis or bracket, or the end of the text. The text of a token is a lexeme of it
unless it is a real, which may have several. So what is put together from such texts is
read as the tokens that they belong to.
-/

/-- The text of the token is a lexeme of it. -/
def Kind.Writable (kind : Kind) : Prop :=
  IsLexeme kind.text.toList kind

/-- Every token may stand right before this text. -/
def Delimited (behind : List Char) : Prop :=
  ∀ c ∈ behind.head?, isBlank c = true ∨ c = ')' ∨ c = ']'

/-- The text is nothing but the texts of these tokens, with blanks around them. -/
inductive Writes : List Char → List Kind → Prop
  | blanks {blanks} : (∀ c ∈ blanks, isBlank c = true) → Writes blanks []
  | token {blanks behind kind kinds} : (∀ c ∈ blanks, isBlank c = true) → kind.Writable →
      scan (kind.text.toList ++ behind) = .ok ⟨kind, kind.text.toList.length⟩ →
      Writes behind kinds → Writes (blanks ++ (kind.text.toList ++ behind)) (kind :: kinds)

variable {first c : Char} {rest spelling behind digits whole fraction : List Char} {kind : Kind}
  {kinds : List Kind} {value : Nat}

theorem delimited_nil : Delimited [] :=
  nofun

theorem delimited_cons : Delimited (c :: rest) ↔ isBlank c = true ∨ c = ')' ∨ c = ']' := by
  simp [Delimited]

theorem isWordPart_of_isBlank (blank : isBlank c = true) : isWordPart c = false := by
  have apart : ∀ range ∈ blankRanges, ∀ point ∈ List.range' range.1 (range.2 + 1 - range.1),
      numeralRanges.contains point = false := by decide +kernel
  obtain ⟨range, member, lower, upper⟩ := range_of_contains blank
  have noNumeral : isNumeral c = false :=
    apart range member c.toNat (List.mem_range'_1.mpr ⟨lower, by omega⟩)
  rw [isWordPart, isLetter_of_isBlank blank, noNumeral, Bool.or_self]

/-- An operator of two characters ends in one of these three. -/
theorem Mark.pair?_eq_none (noEqual : c ≠ '=') (noAmpersand : c ≠ '&') (noBar : c ≠ '|') :
    pair? first c = none := by
  unfold pair?
  split <;> first | contradiction | rfl

theorem Mark.pair?_of_noEqual (noAmpersand : first ≠ '&') (noBar : first ≠ '|')
    (noEqual : c ≠ '=') : pair? first c = none := by
  unfold pair?
  split <;> first | contradiction | rfl

theorem Mark.pair?_of_noOperator (noOperator : Scan.isOperator first = false) :
    pair? first c = none := by
  unfold pair?
  split <;> first | contradiction | rfl

namespace Delimited

theorem endsNumber (delimited : Delimited behind) : Scan.endsNumber behind = true := by
  cases behind with
  | nil => rfl
  | cons c rest =>
      rw [Scan.endsNumber]
      rcases delimited_cons.mp delimited with blank | rfl | rfl
      · rw [blank, Bool.or_true]
      · decide
      · decide

theorem noWordPart (delimited : Delimited behind) : ∀ c ∈ behind.head?, isWordPart c = false := by
  intro c here
  rcases delimited c here with blank | rfl | rfl
  · exact isWordPart_of_isBlank blank
  · decide
  · decide

theorem noPair (delimited : Delimited behind) (first : Char) :
    behind.head?.bind (Mark.pair? first) = none := by
  cases behind with
  | nil => rfl
  | cons c rest =>
      have apart : c ≠ '=' ∧ c ≠ '&' ∧ c ≠ '|' := by
        rcases delimited_cons.mp delimited with blank | rfl | rfl
        · refine ⟨?_, ?_, ?_⟩
          all_goals
            rintro rfl
            exact absurd blank (by decide)
        · decide
        · decide
      exact Mark.pair?_eq_none apart.1 apart.2.1 apart.2.2

end Delimited

/-- What may follow a number goes on no digits. -/
theorem Scan.endsNumber_stops (ends : Scan.endsNumber behind = true) :
    ∀ c ∈ behind.head?, c.isDigit = false ∧ c ≠ '.' := by
  intro c here
  obtain ⟨later, rfl⟩ := List.head?_eq_some_iff.mp here
  exact isDigit_ends ends

theorem scan_digits (nonempty : digits ≠ []) (all : ∀ c ∈ digits, c.isDigit = true)
    (small : decimalValue digits ≤ intMax) (ends : Scan.endsNumber behind = true) :
    scan (digits ++ behind) = .ok ⟨.int (decimalValue digits), digits.length⟩ := by
  have stops := Scan.endsNumber_stops ends
  have number : Scan.number (digits ++ behind) =
      .ok ⟨.int (decimalValue digits), digits.length⟩ := by
    simp only [Scan.number, takeWhile_append_stop all fun c here => (stops c here).1,
      dropWhile_append_stop all fun c here => (stops c here).1]
    split
    · exact ((stops _ rfl).2 rfl).elim
    · simp [ends, natOfDigits_eq, Nat.not_lt.mpr small]
  obtain ⟨first, rest, rfl⟩ := List.exists_cons_of_ne_nil nonempty
  rw [List.cons_append, scan, if_pos (all first List.mem_cons_self), ← List.cons_append, number]

theorem scan_decimal (nonempty : whole ≠ []) (wholeDigits : ∀ c ∈ whole, c.isDigit = true)
    (fractionDigits : ∀ c ∈ fraction, c.isDigit = true)
    (ends : Scan.endsNumber behind = true) :
    scan (whole ++ '.' :: fraction ++ behind) =
      .ok ⟨.real (.ofDigits false whole fraction 0), (whole ++ '.' :: fraction).length⟩ := by
  have stops := Scan.endsNumber_stops ends
  have pointStops : ∀ c ∈ ('.' :: (fraction ++ behind)).head?, c.isDigit = false := by
    intro c here
    cases here
    decide
  have number : Scan.number (whole ++ '.' :: fraction ++ behind) =
      .ok ⟨.real (.ofDigits false whole fraction 0), (whole ++ '.' :: fraction).length⟩ := by
    rw [List.append_assoc, List.cons_append]
    simp only [Scan.number, takeWhile_append_stop wholeDigits pointStops,
      dropWhile_append_stop wholeDigits pointStops,
      takeWhile_append_stop fractionDigits fun c here => (stops c here).1,
      dropWhile_append_stop fractionDigits fun c here => (stops c here).1, ends, if_true,
      List.length_append, List.length_cons]
    congr 2
    omega
  obtain ⟨first, rest, rfl⟩ := List.exists_cons_of_ne_nil nonempty
  rw [List.cons_append, List.cons_append, scan, if_pos (wholeDigits first List.mem_cons_self),
    ← List.cons_append, ← List.cons_append, number]

theorem Kind.ofWord_text (member : kind ∈ reserved) : ofWord kind.text = kind := by
  have all : ∀ kind ∈ reserved, ofWord kind.text = kind := by decide
  exact all kind member

theorem scan_reserved (member : kind ∈ Kind.reserved)
    (stops : ∀ c ∈ behind.head?, isWordPart c = false) :
    scan (kind.text.toList ++ behind) = .ok ⟨kind, kind.text.toList.length⟩ := by
  have starts : ∀ kind ∈ Kind.reserved, kind.text.toList.head?.any isLetter = true := by decide
  have goesOn : ∀ kind ∈ Kind.reserved, kind.text.toList.tail.all isWordPart = true := by decide
  have letter := starts kind member
  have parts := goesOn kind member
  cases text : kind.text.toList with
  | nil =>
      rw [text] at letter
      cases letter
  | cons first rest =>
      rw [text] at letter parts
      have parts : ∀ c ∈ rest, isWordPart c = true := List.all_eq_true.mp parts
      rw [scan_word letter parts stops, ← text, String.ofList_toList, Kind.ofWord_text member]

/-- A mark is read before any text with which it makes no operator of two characters. -/
theorem scan_mark (sign : Mark)
    (alone : ∀ first, sign.text.toList = [first] →
      behind.head?.bind (Mark.pair? first) = none) :
    scan (sign.text.toList ++ behind) = .ok ⟨.mark sign, sign.text.toList.length⟩ := by
  cases sign <;> first
    | rfl
    | change scan (_ :: behind) = _
      rw [scan, if_neg (by decide), if_neg (by decide), if_pos (by decide), Scan.operator,
        alone _ rfl]
      rfl

/-- A lexeme is read as its token where nothing behind it goes on with it. -/
theorem scan_lexeme_before (lexical : IsLexeme spelling kind)
    (ends : Scan.endsNumber behind = true) (noPart : ∀ c ∈ behind.head?, isWordPart c = false)
    (noPair : ∀ first, behind.head?.bind (Mark.pair? first) = none) :
    scan (spelling ++ behind) = .ok ⟨kind, spelling.length⟩ := by
  cases lexical with
  | int nonempty digits small => exact scan_digits nonempty digits small ends
  | real nonempty wholeDigits fractionDigits value =>
      rw [ofText?_digits nonempty wholeDigits fractionDigits] at value
      cases value
      exact scan_decimal nonempty wholeDigits fractionDigits ends
  | reserved member => exact scan_reserved member noPart
  | @ident first rest letter parts free =>
      have name : IsName (String.ofList (first :: rest)) := by
        rw [IsName, String.toList_ofList]
        exact .ident letter parts free
      simpa using scan_name name noPart
  | mark => exact scan_mark _ fun first _ => noPair first

/-- A lexeme is read as its token where a delimiter stands behind it. -/
theorem scan_lexeme (lexical : IsLexeme spelling kind) (delimited : Delimited behind) :
    scan (spelling ++ behind) = .ok ⟨kind, spelling.length⟩ :=
  scan_lexeme_before lexical delimited.endsNumber delimited.noWordPart delimited.noPair

namespace Kind

theorem writable_mark (sign : Mark) : (mark sign).Writable :=
  IsLexeme.mark

theorem writable_keyword (word : Keyword) : (keyword word).Writable :=
  IsLexeme.reserved (by cases word <;> decide)

theorem writable_int (small : value ≤ intMax) : (int value).Writable := by
  have digits : (int value).text.toList = Nat.toDigits 10 value := Nat.toList_repr
  have itself : decimalValue (Nat.toDigits 10 value) = value := by
    rw [← natOfDigits_eq]
    exact Nat.ofDigitChars_ten_toDigits
  have lexical : IsLexeme (Nat.toDigits 10 value) (int (decimalValue (Nat.toDigits 10 value))) :=
    .int Nat.toDigits_ne_nil
      (fun c => Nat.isDigit_of_mem_toDigits (by decide) (by decide)) (itself.symm ▸ small)
  rw [itself] at lexical
  rwa [Writable, digits]

/-- A token is written as it was read, or in the shortest way if it is an integer. -/
theorem writable_of_lexeme (lexical : IsLexeme spelling kind)
    (noReal : ∀ value, kind ≠ .real value) : kind.Writable := by
  cases lexical with
  | int _ _ small => exact writable_int small
  | real => exact (noReal _ rfl).elim
  | reserved member => exact .reserved member
  | ident letter parts free =>
      rw [Writable, text, String.toList_ofList]
      exact .ident letter parts free
  | mark => exact writable_mark _

end Kind

namespace Writes

theorem blank (written : Writes rest kinds) (blank : isBlank c = true) :
    Writes (c :: rest) kinds := by
  cases written with
  | blanks all => exact .blanks (List.forall_mem_cons.mpr ⟨blank, all⟩)
  | token all writable scanned behind =>
      exact .token (List.forall_mem_cons.mpr ⟨blank, all⟩) writable scanned behind

theorem here (writable : kind.Writable)
    (scanned : scan (kind.text.toList ++ behind) = .ok ⟨kind, kind.text.toList.length⟩)
    (written : Writes behind kinds) : Writes (kind.text.toList ++ behind) (kind :: kinds) := by
  have noBlanks : ∀ c ∈ ([] : List Char), isBlank c = true := nofun
  exact .token noBlanks writable scanned written

/-- Any token is written before a delimiter. -/
theorem delimited (writable : kind.Writable) (ends : Delimited behind)
    (written : Writes behind kinds) : Writes (kind.text.toList ++ behind) (kind :: kinds) :=
  here writable (scan_lexeme writable ends) written

theorem mark (sign : Mark)
    (alone : ∀ first, sign.text.toList = [first] → behind.head?.bind (Mark.pair? first) = none)
    (written : Writes behind kinds) : Writes (sign.text.toList ++ behind) (.mark sign :: kinds) :=
  here (Kind.writable_mark sign) (scan_mark sign alone) written

/-- A parenthesis or bracket is written before anything. -/
theorem punctuation (sign : Mark) (spelled : sign.text.toList = [c])
    (noOperator : Scan.isOperator c = false) (written : Writes behind kinds) :
    Writes (c :: behind) (.mark sign :: kinds) := by
  have alone : ∀ first, sign.text.toList = [first] →
      behind.head?.bind (Mark.pair? first) = none := by
    intro first same
    cases spelled.symm.trans same
    cases behind with
    | nil => rfl
    | cons d rest => exact Mark.pair?_of_noOperator noOperator
  have whole := mark sign alone written
  rwa [spelled] at whole

theorem name {word : String} (name : IsName word)
    (stops : ∀ c ∈ behind.head?, isWordPart c = false) (written : Writes behind kinds) :
    Writes (word.toList ++ behind) (.ident word :: kinds) := by
  have writable : (Kind.ident word).Writable := name
  exact here writable (scan_name name stops) written

end Writes

namespace Lexer

/-- Every token but the end of a text has been read from a lexeme. -/
theorem run_lexeme (lexer : Lexer) {token : Token} (member : token ∈ lexer.run.tokens)
    (inside : token.kind ≠ .eof) : ∃ spelling, IsLexeme spelling token.kind := by
  fun_induction Lexer.run lexer with
  | case1 lexer error after read => cases member
  | case2 lexer last after read ended =>
      obtain rfl : token = last := List.mem_singleton.mp member
      exact (inside ended).elim
  | case3 lexer first after read noEnd reading ih =>
      rcases List.mem_cons.mp member with rfl | behind
      · obtain ⟨lexeme, scanned, kind⟩ := scan_of_next read
        obtain ⟨_, spelling, _, leads⟩ := exists_leads scanned (kind ▸ noEnd)
        exact ⟨spelling, kind ▸ leads.lexical⟩
      · exact ih behind

/-- What is written as text is read again. -/
theorem run_writes (lexer : Lexer) {text : List Char} (written : Writes text kinds)
    (whole : lexer.rest = text) :
    lexer.run.failure = none ∧ lexer.run.tokens.map Token.kind = kinds ++ [.eof] := by
  induction written generalizing lexer with
  | blanks all =>
      have scanned : scan (lexer.rest.dropWhile isBlank) = .ok ⟨.eof, 0⟩ := by
        rw [whole, List.dropWhile_eq_nil_iff.mpr all]
        rfl
      obtain ⟨tokens, clean⟩ := run_end (next_of_scan scanned) rfl
      exact ⟨clean, by rw [tokens]; rfl⟩
  | @token blanks behind kind kinds all writable scans _ ih =>
      have ahead : lexer.rest.dropWhile isBlank = kind.text.toList ++ behind := by
        rw [whole, dropWhile_append_stop all (writable.form.starts behind)]
      have scanned := scans
      rw [← ahead] at scanned
      obtain ⟨tokens, failure⟩ := run_next (next_of_scan scanned) writable.inside
      have left : (lexer.startToken.skip kind.text.toList.length).rest = behind := by
        rw [skip_rest, startToken_rest_eq, ahead, List.drop_left]
      obtain ⟨clean, more⟩ := ih { lexer.startToken.skip kind.text.toList.length with
        tracker := (lexer.startToken.skip kind.text.toList.length).tracker.finishToken } left
      exact ⟨failure.trans clean, by rw [tokens, List.map_cons, more, List.cons_append]⟩

end Lexer

end ThreeAddress

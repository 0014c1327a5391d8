import Mathlib.Data.Nat.Digits.Defs
import ThreeAddress.Proofs.Spelling

namespace ThreeAddress

open Text Decimal

/-!
# Lexemes

What characters stand for a token, said without a scanner: a number is its digits, a
reserved word or a mark has its one spelling, and every other word is an identifier.
What `scan` reads from the front of a text is such a lexeme, and nothing longer that
has the form of one starts there.
-/

/-- The number that decimal digits stand for. -/
def decimalValue (digits : List Char) : Nat :=
  Nat.ofDigits 10 (digits.reverse.map fun digit => digit.toNat - '0'.toNat)

/-- The characters are those of a token of this kind. -/
inductive IsLexeme : List Char → Kind → Prop
  | int {digits} : digits ≠ [] → (∀ c ∈ digits, c.isDigit = true) →
      decimalValue digits ≤ intMax → IsLexeme digits (.int (decimalValue digits))
  | real {whole fraction value} : whole ≠ [] → (∀ c ∈ whole, c.isDigit = true) →
      (∀ c ∈ fraction, c.isDigit = true) →
      Binary64.ofText? (String.ofList (whole ++ '.' :: fraction)) = some value →
      IsLexeme (whole ++ '.' :: fraction) (.real value)
  | reserved {kind} : kind ∈ Kind.reserved → IsLexeme kind.text.toList kind
  | ident {first rest} : isLetter first = true → (∀ c ∈ rest, isWordPart c = true) →
      (∀ kind ∈ Kind.reserved, kind.text.toList ≠ first :: rest) →
      IsLexeme (first :: rest) (.ident (String.ofList (first :: rest)))
  | mark {sign : Mark} : IsLexeme sign.text.toList (.mark sign)

/-- The characters have the form of a token. An integer may be of any size. -/
inductive HasForm : List Char → Prop
  | int {digits} : digits ≠ [] → (∀ c ∈ digits, c.isDigit = true) → HasForm digits
  | real {whole fraction} : whole ≠ [] → (∀ c ∈ whole, c.isDigit = true) →
      (∀ c ∈ fraction, c.isDigit = true) → HasForm (whole ++ '.' :: fraction)
  | word {first rest} : isLetter first = true → (∀ c ∈ rest, isWordPart c = true) →
      HasForm (first :: rest)
  | mark {sign : Mark} : HasForm sign.text.toList

/-- Nothing longer at the place of these characters has the form of a token. -/
def Longest (spelling behind : List Char) : Prop :=
  ∀ longer, longer <+: spelling ++ behind → HasForm longer → longer.length ≤ spelling.length

variable {first c : Char} {rest spelling behind digits whole fraction : List Char} {kind : Kind}
  {lexeme : Lexeme}

theorem isLetter_of_isDigit (digit : c.isDigit = true) : isLetter c = false := by
  simp only [Char.isDigit, Bool.and_eq_true, decide_eq_true_eq] at digit
  have below : c.toNat < 65 := Nat.lt_of_le_of_lt digit.2 (by decide)
  simp [isLetter, letterRanges, Ranges.contains, below]

theorem toLower_of_isDigit (digit : c.isDigit = true) : c.toLower = c := by
  simp only [Char.isDigit, Bool.and_eq_true, decide_eq_true_eq] at digit
  have below : ¬ 65 ≤ c.toNat := Nat.not_le_of_lt (Nat.lt_of_le_of_lt digit.2 (by decide))
  exact dif_neg fun upper => below upper.1

theorem isBlank_of_isDigit (digit : c.isDigit = true) : isBlank c = false := by
  simp only [Char.isDigit, Bool.and_eq_true, decide_eq_true_eq] at digit
  have low : 48 ≤ c.toNat := digit.1
  have high : c.toNat ≤ 57 := digit.2
  simp only [isBlank, blankRanges, Ranges.contains]
  grind

theorem isDigit_ends (ends : Scan.endsNumber (c :: rest) = true) : c.isDigit = false ∧ c ≠ '.' := by
  simp only [Scan.endsNumber, Scan.isOperator, Bool.or_eq_true, List.contains_iff_mem,
    List.mem_cons, List.not_mem_nil, or_false] at ends
  rcases ends with (operator | closing) | blank
  · rcases operator with rfl | rfl | rfl | rfl | rfl | rfl | rfl | rfl | rfl | rfl <;> decide
  · rcases closing with rfl | rfl | rfl | rfl <;> decide
  · constructor
    · cases digit : c.isDigit with
      | false => rfl
      | true => simp [isBlank_of_isDigit digit] at blank
    · rintro rfl
      exact absurd blank (by decide)

/-- A mark is one operator or punctuation character, or a pair of operator characters. -/
theorem Mark.text_cases (sign : Mark) :
    (∃ c, sign.text.toList = [c] ∧ c.isDigit = false ∧ isLetter c = false ∧
      (operator? c = some sign ∨ punctuation? c = some sign)) ∨
    ∃ c d, sign.text.toList = [c, d] ∧ c.isDigit = false ∧ isLetter c = false ∧
      Scan.isOperator c = true ∧ pair? c d = some sign := by
  cases sign <;> first
    | exact .inl ⟨_, rfl, by decide, by decide, by decide⟩
    | exact .inr ⟨_, _, rfl, by decide, by decide, by decide, by decide⟩

theorem HasForm.reserved (member : kind ∈ Kind.reserved) : HasForm kind.text.toList := by
  have starts : ∀ kind ∈ Kind.reserved, kind.text.toList.head?.any isLetter = true := by decide
  have goesOn : ∀ kind ∈ Kind.reserved, kind.text.toList.tail.all isWordPart = true := by decide
  have letter := starts kind member
  have letters := goesOn kind member
  cases text : kind.text.toList with
  | nil =>
      rw [text] at letter
      cases letter
  | cons first rest =>
      rw [text] at letter letters
      exact .word letter (List.all_eq_true.mp letters)

theorem IsLexeme.form (lexeme : IsLexeme spelling kind) : HasForm spelling := by
  cases lexeme with
  | int nonempty digits _ => exact .int nonempty digits
  | real nonempty wholeDigits fractionDigits _ => exact .real nonempty wholeDigits fractionDigits
  | reserved member => exact .reserved member
  | ident letter parts _ => exact .word letter parts
  | mark => exact .mark

/-- The first character of a lexeme says which characters may follow it. -/
theorem HasForm.first_cases (form : HasForm (first :: rest)) :
    (first.isDigit = true ∧ ∀ c ∈ rest, c.isDigit = true ∨ c = '.') ∨
    (isLetter first = true ∧ ∀ c ∈ rest, isWordPart c = true) ∨
    ∃ sign : Mark, sign.text.toList = first :: rest := by
  generalize whole : first :: rest = spelling at form
  cases form with
  | int _ digits =>
      subst whole
      exact .inl ⟨digits first List.mem_cons_self,
        fun c member => .inl (digits c (List.mem_cons_of_mem _ member))⟩
  | real nonempty wholeDigits fractionDigits =>
      obtain ⟨digit, digits, rfl⟩ := List.exists_cons_of_ne_nil nonempty
      cases whole
      refine .inl ⟨wholeDigits first List.mem_cons_self, fun c member => ?_⟩
      rcases List.mem_append.mp member with inside | behind
      · exact .inl (wholeDigits c (List.mem_cons_of_mem _ inside))
      · exact (List.mem_cons.mp behind).symm.imp_left (fractionDigits c)
  | word letter parts =>
      cases whole
      exact .inr (.inl ⟨letter, parts⟩)
  | mark => exact .inr (.inr ⟨_, rfl⟩)

theorem HasForm.digits_behind (form : HasForm (first :: rest)) (digit : first.isDigit = true) :
    ∀ c ∈ rest, c.isDigit = true ∨ c = '.' := by
  rcases form.first_cases with ⟨-, digits⟩ | ⟨letter, -⟩ | ⟨sign, text⟩
  · exact digits
  · rw [isLetter_of_isDigit digit] at letter
    contradiction
  · rcases sign.text_cases with ⟨_, same, noDigit, -⟩ | ⟨_, _, same, noDigit, -⟩
    all_goals
      cases same.symm.trans text
      rw [digit] at noDigit
      contradiction

theorem HasForm.letters_behind (form : HasForm (first :: rest)) (letter : isLetter first = true) :
    ∀ c ∈ rest, isWordPart c = true := by
  rcases form.first_cases with ⟨digit, -⟩ | ⟨-, letters⟩ | ⟨sign, text⟩
  · rw [isLetter_of_isDigit digit] at letter
    contradiction
  · exact letters
  · rcases sign.text_cases with ⟨_, same, -, noLetter, -⟩ | ⟨_, _, same, -, noLetter, -⟩
    all_goals
      cases same.symm.trans text
      rw [letter] at noLetter
      contradiction

/-- What starts with neither a digit nor a letter is a mark. -/
theorem HasForm.sign_of_first (form : HasForm (first :: rest)) (noDigit : ¬ first.isDigit = true)
    (noLetter : ¬ isLetter first = true) : ∃ sign : Mark, sign.text.toList = first :: rest := by
  rcases form.first_cases with ⟨digit, -⟩ | ⟨letter, -⟩ | text
  · exact (noDigit digit).elim
  · exact (noLetter letter).elim
  · exact text

theorem longest_of_stops
    (stops : ∀ c extra, behind.head? = some c → ¬ HasForm (spelling ++ c :: extra)) :
    Longest spelling behind := by
  intro longer starts form
  by_contra exceeds
  have more : spelling <+: longer :=
    List.prefix_of_prefix_length_le (List.prefix_append _ _) starts (by omega)
  obtain ⟨extra, rfl⟩ := more
  obtain ⟨later, whole⟩ := starts
  rw [List.append_assoc, List.append_cancel_left_eq] at whole
  cases extra with
  | nil => simp at exceeds
  | cons c extra => exact stops c extra (by rw [← whole]; rfl) form

theorem natOfDigits_eq (digits : List Char) :
    Binary64.natOfDigits digits = decimalValue digits := by
  rw [Binary64.natOfDigits, decimalValue, List.foldl_eq_foldr_reverse, Nat.ofDigits_eq_foldr,
    List.foldr_map]
  congr
  funext digit value
  simp only [Nat.cast_id]
  omega

/-- The text of digits around a point is read as these digits. -/
theorem ofText?_digits (nonempty : whole ≠ []) (wholeDigits : ∀ c ∈ whole, c.isDigit = true)
    (fractionDigits : ∀ c ∈ fraction, c.isDigit = true) :
    Binary64.ofText? (String.ofList (whole ++ '.' :: fraction)) =
      some (.ofDigits false whole fraction 0) := by
  have read : Binary64.unsigned? false (whole ++ '.' :: fraction) =
      some (.ofDigits false whole fraction 0) := by
    have pointStops : ∀ c ∈ ('.' :: fraction).head?, c.isDigit = false := by
      intro c here
      cases here
      decide
    simp only [Binary64.unsigned?, takeWhile_append_stop wholeDigits pointStops,
      dropWhile_append_stop wholeDigits pointStops, List.takeWhile_eq_self_iff.mpr fractionDigits,
      List.dropWhile_eq_nil_iff.mpr fractionDigits]
    simp [nonempty]
  obtain ⟨first, rest, rfl⟩ := List.exists_cons_of_ne_nil nonempty
  have digit : first.isDigit = true := wholeDigits first List.mem_cons_self
  -- A digit starts neither a sign nor a word.
  have noWord (word : String) (letter : word.toList.head?.map Char.isDigit = some false) :
      String.ofList ((first :: (rest ++ '.' :: fraction)).map Char.toLower) ≠ word := by
    intro same
    rw [← same, String.toList_ofList, List.map_cons, List.head?_cons,
      toLower_of_isDigit digit] at letter
    simp [digit] at letter
  have noSign : first ≠ '-' ∧ first ≠ '+' := by
    constructor
    all_goals
      rintro rfl
      contradiction
  rw [Binary64.ofText?, String.toList_ofList, List.cons_append]
  split
  next negative chars parts =>
    obtain ⟨rfl, rfl⟩ : false = negative ∧ first :: (rest ++ '.' :: fraction) = chars := by
      split at parts
      · next head => exact (noSign.1 (List.cons_eq_cons.mp head).1).elim
      · next head => exact (noSign.2 (List.cons_eq_cons.mp head).1).elim
      · exact Prod.mk.inj parts
    simp only [noWord "inf" (by decide), noWord "infinity" (by decide), noWord "nan" (by decide),
      or_self, if_false]
    exact read

/-- The front of a text is a lexeme of the token that was read there, and the longest one. -/
def StartsWith (text : List Char) (lexeme : Lexeme) : Prop :=
  ∃ spelling behind, text = spelling ++ behind ∧ lexeme.length = spelling.length ∧
    IsLexeme spelling lexeme.kind ∧ Longest spelling behind

/-- What may stand behind a number goes on no number. -/
theorem longest_number (digit : first.isDigit = true) (ends : Scan.endsNumber behind = true) :
    Longest (first :: rest) behind := by
  refine longest_of_stops fun c extra ahead form => ?_
  obtain ⟨later, rfl⟩ := List.head?_eq_some_iff.mp ahead
  obtain ⟨noDigit, noPoint⟩ := isDigit_ends ends
  rcases form.digits_behind digit c (by simp) with isDigit | isPoint
  · simp [noDigit] at isDigit
  · exact noPoint isPoint

theorem number_startsWith (digit : first.isDigit = true)
    (scanned : Scan.number (first :: rest) = .ok lexeme) : StartsWith (first :: rest) lexeme := by
  have parts (text : List Char) :
      text.takeWhile Char.isDigit ++ text.dropWhile Char.isDigit = text :=
    List.takeWhile_append_dropWhile
  have digits (text : List Char) : ∀ c ∈ text.takeWhile Char.isDigit, c.isDigit = true :=
    fun c => List.mem_takeWhile_imp
  have starts : (first :: rest).takeWhile Char.isDigit = first :: rest.takeWhile Char.isDigit :=
    List.takeWhile_cons_of_pos digit
  have whole := parts (first :: rest)
  have allDigits := digits (first :: rest)
  rw [starts] at whole allDigits
  unfold Scan.number at scanned
  simp only [starts] at scanned
  split at scanned
  · next afterPoint point =>
      split at scanned
      · next ends =>
          cases scanned
          rw [point] at whole
          refine ⟨(first :: rest.takeWhile Char.isDigit) ++
            '.' :: afterPoint.takeWhile Char.isDigit, afterPoint.dropWhile Char.isDigit, ?_, ?_,
            .real nofun allDigits (digits afterPoint)
              (ofText?_digits nofun allDigits (digits afterPoint)), longest_number digit ends⟩
          · simpa only [List.append_assoc, List.cons_append, parts] using whole.symm
          · simp only [List.length_append, List.length_cons]
            omega
      · cases scanned
  · next noPoint =>
      split at scanned
      · cases scanned
      · next ends =>
          split at scanned
          · cases scanned
          · next small =>
              cases scanned
              rw [natOfDigits_eq] at small ⊢
              exact ⟨_, _, whole.symm, rfl, .int nofun allDigits (Nat.not_lt.mp small),
                longest_number digit (by simpa using ends)⟩

theorem ofWord_isLexeme (letter : isLetter first = true)
    (parts : ∀ c ∈ rest, isWordPart c = true) :
    IsLexeme (first :: rest) (.ofWord (String.ofList (first :: rest))) := by
  rw [Kind.ofWord]
  cases found : Kind.reserved.find? (·.text = String.ofList (first :: rest)) with
  | none =>
      refine .ident letter parts fun kind member same => ?_
      refine List.find?_eq_none.mp found kind member (decide_eq_true ?_)
      rw [← same, String.ofList_toList]
  | some kind =>
      have text : kind.text = String.ofList (first :: rest) := by
        simpa using List.find?_some found
      have spelled := IsLexeme.reserved (List.mem_of_find?_eq_some found)
      rwa [text, String.toList_ofList] at spelled

theorem word_startsWith (letter : isLetter first = true) :
    StartsWith (first :: rest) (Scan.word (first :: rest)) := by
  have starts : (first :: rest).takeWhile isWordPart = first :: rest.takeWhile isWordPart :=
    List.takeWhile_cons_of_pos (isWordPart_of_isLetter letter)
  have stops := List.head?_dropWhile_not isWordPart rest
  rw [Scan.word, starts]
  refine ⟨_, rest.dropWhile isWordPart, ?_, rfl,
    ofWord_isLexeme letter fun c => List.mem_takeWhile_imp, ?_⟩
  · rw [List.cons_append, List.takeWhile_append_dropWhile]
  · refine longest_of_stops fun c extra ahead form => ?_
    rw [ahead] at stops
    have part := form.letters_behind letter c (by simp)
    simp [part] at stops

theorem Mark.text_of_pair {second : Char} {sign : Mark} (pair : pair? first second = some sign) :
    sign.text.toList = [first, second] := by
  unfold pair? at pair
  split at pair
  all_goals
    cases pair
    try rfl

theorem Mark.text_of_operator {sign : Mark} (single : operator? c = some sign) :
    sign.text.toList = [c] := by
  unfold operator? at single
  split at single
  all_goals
    cases single
    try rfl

theorem Mark.text_of_punctuation {sign : Mark} (single : punctuation? c = some sign) :
    sign.text.toList = [c] := by
  unfold punctuation? at single
  split at single
  all_goals
    cases single
    try rfl

/-- What has more than one character and starts with no digit and no letter is a pair. -/
theorem pair_of_form {extra : List Char} (noDigit : ¬ first.isDigit = true)
    (noLetter : ¬ isLetter first = true) (form : HasForm (first :: c :: extra)) :
    extra = [] ∧ Scan.isOperator first = true ∧ ∃ sign, Mark.pair? first c = some sign := by
  obtain ⟨sign, text⟩ := form.sign_of_first noDigit noLetter
  rcases sign.text_cases with ⟨_, same, -⟩ | ⟨_, _, same, -, -, operator, pair⟩
  · cases same.symm.trans text
  · cases same.symm.trans text
    exact ⟨rfl, operator, sign, pair⟩

theorem operator_startsWith (noDigit : ¬ first.isDigit = true) (noLetter : ¬ isLetter first = true)
    (scanned : Scan.operator first rest = .ok lexeme) : StartsWith (first :: rest) lexeme := by
  unfold Scan.operator at scanned
  split at scanned
  · next sign pair =>
      cases scanned
      cases rest with
      | nil => cases pair
      | cons second after =>
          have text : sign.text.toList = [first, second] := Mark.text_of_pair pair
          refine ⟨[first, second], after, rfl, rfl, text ▸ .mark, ?_⟩
          refine longest_of_stops fun c extra ahead form => ?_
          have short := (pair_of_form noDigit noLetter form).1
          contradiction
  · next noPair =>
      split at scanned
      · next sign single =>
          cases scanned
          refine ⟨[first], rest, rfl, rfl, Mark.text_of_operator single ▸ .mark, ?_⟩
          refine longest_of_stops fun c extra ahead form => ?_
          obtain ⟨-, -, other, pair⟩ := pair_of_form noDigit noLetter form
          rw [ahead, Option.bind_some, pair] at noPair
          contradiction
      · cases scanned

/-- What is read from the front of a text that does not end there is the longest lexeme of it. -/
theorem scan_startsWith (scanned : scan (first :: rest) = .ok lexeme) :
    StartsWith (first :: rest) lexeme := by
  rw [scan] at scanned
  split at scanned
  · next digit => exact number_startsWith digit scanned
  · next noDigit =>
      split at scanned
      · next letter =>
          cases scanned
          exact word_startsWith letter
      · next noLetter =>
          split at scanned
          · exact operator_startsWith noDigit noLetter scanned
          · next noOperator =>
              split at scanned
              · next sign single =>
                  cases scanned
                  refine ⟨[first], rest, rfl, rfl, Mark.text_of_punctuation single ▸ .mark, ?_⟩
                  refine longest_of_stops fun c extra ahead form => ?_
                  exact noOperator (pair_of_form noDigit noLetter form).2.1
              · cases scanned

theorem HasForm.nonempty (form : HasForm spelling) : spelling ≠ [] := by
  rintro rfl
  generalize none : ([] : List Char) = spelling at form
  cases form with
  | int nonempty => exact nonempty none.symm
  | real nonempty => simp at none
  | word => cases none
  | @mark sign =>
      rcases sign.text_cases with ⟨_, same, -⟩ | ⟨_, _, same, -⟩
      all_goals cases none.trans same

theorem IsLexeme.inside (lexeme : IsLexeme spelling kind) : kind ≠ .eof := by
  cases lexeme with
  | reserved member =>
      rintro rfl
      exact absurd member (by decide)
  | _ => simp

/-- A lexeme lies on one line. -/
theorem HasForm.on_line (form : HasForm spelling) : '\n' ∉ spelling := by
  obtain ⟨first, rest, rfl⟩ := List.exists_cons_of_ne_nil form.nonempty
  intro member
  rcases form.first_cases with ⟨digit, digits⟩ | ⟨letter, letters⟩ | ⟨sign, text⟩
  · rcases List.mem_cons.mp member with rfl | behind
    · contradiction
    · rcases digits _ behind with isDigit | isPoint
      · contradiction
      · cases isPoint
  · rcases List.mem_cons.mp member with rfl | behind
    · exact absurd letter (by decide)
    · exact absurd (letters _ behind) (by decide)
  · have none : ∀ sign : Mark, '\n' ∉ sign.text.toList := by
      intro sign
      cases sign <;> decide
    exact none sign (text ▸ member)

end ThreeAddress

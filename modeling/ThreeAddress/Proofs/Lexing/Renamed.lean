import Mathlib.Tactic
import ThreeAddress.Proofs.Lexing.Places

namespace ThreeAddress

open Text Source

def Kind.renamed (rename : String → String) : Kind → Kind
  | .ident name => .ident (rename name)
  | other => other

/-- The characters of a token once its name is replaced. -/
def Kind.respelled (rename : String → String) (spelling : List Char) : Kind → List Char
  | .ident name => (rename name).toList
  | _ => spelling

/-- The text with another word for each identifier, up to the first lexical fault. -/
def renamedText (rename : String → String) (text : List Char) : List Char :=
  match _scanned : scan (text.dropWhile isBlank) with
  | .error _ => text
  | .ok lexeme =>
      if _ended : lexeme.kind = .eof then text
      else
        text.takeWhile isBlank ++
          (lexeme.kind.respelled rename ((text.dropWhile isBlank).take lexeme.length) ++
            renamedText rename ((text.dropWhile isBlank).drop lexeme.length))
termination_by text.length
decreasing_by
  have positive := scan_length_pos _scanned _ended
  have shorter := List.length_dropWhile_le isBlank text
  have nonempty : text.dropWhile isBlank ≠ [] := by
    intro empty
    rw [empty] at _scanned
    cases _scanned
    contradiction
  have inside := List.length_pos_of_ne_nil nonempty
  rw [List.length_drop]
  omega

def Kind.name? : Kind → Option String
  | .ident name => some name
  | _ => none

/-- The identifiers that have been read. -/
def Lexer.Reading.names (reading : Lexer.Reading) : List String :=
  reading.tokens.filterMap fun token => token.kind.name?

/-- The other tokens are these with other names, on the same lines. -/
def RenamedTokens (rename : String → String) (tokens others : List Token) : Prop :=
  others.map (fun token => (token.kind, token.line)) =
    tokens.map fun token => (token.kind.renamed rename, token.line)

/-- A word that is read as an identifier. -/
def IsName (word : String) : Prop :=
  IsLexeme word.toList (.ident word)

variable {rename : String → String} {first c : Char}
  {rest spelling behind tail text blanks : List Char} {kind : Kind} {lexeme : Lexeme}
  {word : String}

theorem renamedText_blank (blank : ∀ c ∈ text, isBlank c = true) :
    renamedText rename text = text := by
  have empty := List.dropWhile_eq_nil_iff.mpr blank
  rw [renamedText]
  split
  · rfl
  · next found =>
      rw [empty] at found
      cases found
      rw [dif_pos rfl]

theorem range_of_contains {ranges : Ranges} {point : Nat}
    (contained : ranges.contains point = true) :
    ∃ range ∈ ranges, range.1 ≤ point ∧ point ≤ range.2 := by
  induction ranges with
  | nil => cases contained
  | cons range rest ih =>
      rw [Ranges.contains] at contained
      split at contained
      · cases contained
      · next reached =>
          rcases Bool.or_eq_true_iff.mp contained with last | later
          · exact ⟨range, List.mem_cons_self, Nat.not_lt.mp reached, of_decide_eq_true last⟩
          · obtain ⟨found, member, within⟩ := ih later
            exact ⟨found, List.mem_cons_of_mem _ member, within⟩

theorem isLetter_of_isBlank (blank : isBlank c = true) : isLetter c = false := by
  have apart : ∀ range ∈ blankRanges, ∀ point ∈ List.range' range.1 (range.2 + 1 - range.1),
      letterRanges.contains point = false := by decide +kernel
  obtain ⟨range, member, lower, upper⟩ := range_of_contains blank
  exact apart range member c.toNat (List.mem_range'_1.mpr ⟨lower, by omega⟩)

/-- No lexeme starts with a blank. -/
theorem HasForm.starts (form : HasForm spelling) (tail : List Char) :
    ∀ c ∈ (spelling ++ tail).head?, isBlank c = false := by
  have marks : ∀ sign : Mark, ∀ c ∈ sign.text.toList.head?, isBlank c = false := by
    intro sign c here
    cases sign <;> cases here <;> rfl
  obtain ⟨first, rest, rfl⟩ := List.exists_cons_of_ne_nil form.nonempty
  intro c here
  obtain rfl : first = c := Option.some.inj here
  rcases form.first_cases with ⟨digit, -⟩ | ⟨letter, -⟩ | ⟨sign, text⟩
  · exact isBlank_of_isDigit digit
  · cases blank : isBlank first with
    | false => rfl
    | true =>
        rw [isLetter_of_isBlank blank] at letter
        contradiction
  · exact marks sign first (text ▸ rfl)

/-- The first lexeme of a text, between the blanks before it and the rest. -/
structure Leads (text blanks spelling rest : List Char) (kind : Kind) : Prop where
  whole : text = blanks ++ (spelling ++ rest)
  blank : ∀ c ∈ blanks, isBlank c = true
  scanned : scan (spelling ++ rest) = .ok ⟨kind, spelling.length⟩
  lexical : IsLexeme spelling kind
  longest : Longest spelling rest

theorem exists_leads (scanned : scan (text.dropWhile isBlank) = .ok lexeme)
    (inside : lexeme.kind ≠ .eof) :
    ∃ blanks spelling rest, Leads text blanks spelling rest lexeme.kind := by
  have parts : text.takeWhile isBlank ++ text.dropWhile isBlank = text :=
    List.takeWhile_append_dropWhile
  cases ahead : text.dropWhile isBlank with
  | nil =>
      rw [ahead] at scanned
      cases scanned
      contradiction
  | cons first others =>
      rw [ahead] at scanned parts
      obtain ⟨spelling, rest, whole, length, lexical, longest⟩ := scan_startsWith scanned
      obtain ⟨kind, _⟩ := lexeme
      subst length
      rw [whole] at scanned parts
      exact ⟨_, spelling, rest, parts.symm, fun c => List.mem_takeWhile_imp, scanned, lexical,
        longest⟩

/-- Where the end of a text is read, only blanks are left of it. -/
theorem blank_of_end (scanned : scan (text.dropWhile isBlank) = .ok lexeme)
    (ended : lexeme.kind = .eof) : ∀ c ∈ text, isBlank c = true := by
  cases ahead : text.dropWhile isBlank with
  | nil => exact List.dropWhile_eq_nil_iff.mp ahead
  | cons first others =>
      rw [ahead] at scanned
      obtain ⟨_, _, -, -, lexical, -⟩ := scan_startsWith scanned
      exact (lexical.inside ended).elim

theorem Leads.renamedText_eq (leads : Leads text blanks spelling rest kind) :
    renamedText rename text =
      blanks ++ (kind.respelled rename spelling ++ renamedText rename rest) := by
  obtain ⟨rfl, blank, scanned, lexical, -⟩ := leads
  have front := takeWhile_append_stop blank (lexical.form.starts rest)
  have back := dropWhile_append_stop blank (lexical.form.starts rest)
  rw [renamedText]
  split
  · next failed =>
      rw [back, scanned] at failed
      cases failed
  · next found =>
      rw [back, scanned] at found
      cases found
      rw [dif_neg lexical.inside, front, back, List.take_left, List.drop_left]

theorem drop_front {count : Nat} (whole : spelling ++ behind = text)
    (length : spelling.length = count) : text.drop count = behind := by
  rw [← whole, List.drop_left' length]

namespace Scan

theorem endsNumber_letter (ends : endsNumber (c :: rest) = true) : isLetter c = false := by
  simp only [endsNumber, isOperator, Bool.or_eq_true, List.contains_iff_mem, List.mem_cons,
    List.not_mem_nil, or_false] at ends
  rcases ends with (operator | closing) | blank
  · rcases operator with rfl | rfl | rfl | rfl | rfl | rfl | rfl | rfl | rfl | rfl <;> decide
  · rcases closing with rfl | rfl | rfl | rfl <;> decide
  · exact isLetter_of_isBlank blank

theorem number_ends (scanned : number text = .ok lexeme) :
    endsNumber (text.drop lexeme.length) = true := by
  have parts (part : List Char) :
      part.takeWhile Char.isDigit ++ part.dropWhile Char.isDigit = part :=
    List.takeWhile_append_dropWhile
  unfold number at scanned
  simp only at scanned
  split at scanned
  · next afterPoint point =>
      split at scanned
      · next ends =>
          cases scanned
          have whole : text.takeWhile Char.isDigit ++ '.' :: afterPoint.takeWhile Char.isDigit ++
              afterPoint.dropWhile Char.isDigit = text := by
            rw [List.append_assoc, List.cons_append, parts, ← point, parts]
          rwa [drop_front whole (by rw [List.length_append, List.length_cons]; dsimp only; omega)]
      · cases scanned
  · next noPoint =>
      split at scanned
      · cases scanned
      · next ends =>
          split at scanned
          · cases scanned
          · cases scanned
            rw [drop_front (parts text) rfl]
            simpa using ends

end Scan

theorem Mark.pair?_letter (letter : isLetter c = true) : pair? first c = none := by
  unfold pair?
  split
  case h_7 => rfl
  all_goals exact absurd letter (by decide)

/-- Only marks stand right before a letter. -/
theorem scan_before_letter (scanned : scan (first :: rest) = .ok lexeme)
    (ahead : ((first :: rest).drop lexeme.length).head? = some c) (letter : isLetter c = true) :
    ∃ sign, lexeme.kind = .mark sign := by
  obtain ⟨later, behind⟩ := List.head?_eq_some_iff.mp ahead
  rw [scan] at scanned
  split at scanned
  · have ends := Scan.number_ends scanned
    rw [behind] at ends
    rw [Scan.endsNumber_letter ends] at letter
    contradiction
  · split at scanned
    · cases scanned
      have stops := List.head?_dropWhile_not isWordPart (first :: rest)
      have cut : (first :: rest).drop (Scan.word (first :: rest)).length =
          (first :: rest).dropWhile isWordPart := drop_front List.takeWhile_append_dropWhile rfl
      rw [← cut, behind] at stops
      simp [isWordPart_of_isLetter letter] at stops
    · split at scanned
      · unfold Scan.operator at scanned
        split at scanned
        · cases scanned
          exact ⟨_, rfl⟩
        · split at scanned
          · cases scanned
            exact ⟨_, rfl⟩
          · cases scanned
      · split at scanned
        · cases scanned
          exact ⟨_, rfl⟩
        · cases scanned

theorem scan_mark_letter (letter : isLetter c = true) (sign : Mark) :
    scan (sign.text.toList ++ c :: rest) = .ok ⟨.mark sign, sign.text.toList.length⟩ := by
  have single (first : Char) : (c :: rest).head?.bind (Mark.pair? first) = none :=
    Mark.pair?_letter letter
  cases sign <;> first
    | rfl
    | change scan (_ :: c :: rest) = _
      rw [scan, if_neg (by decide), if_neg (by decide), if_pos (by decide), Scan.operator, single]
      rfl

/-- The texts go on with the same character, or both with a letter. -/
def StartsAlike (behind tail : List Char) : Prop :=
  tail.head? = behind.head? ∨
    ∃ c d, behind.head? = some c ∧ tail.head? = some d ∧ isLetter c = true ∧ isLetter d = true

theorem scan_alike (scanned : scan (spelling ++ behind) = .ok ⟨kind, spelling.length⟩)
    (lexical : IsLexeme spelling kind) (alike : StartsAlike behind tail) :
    scan (spelling ++ tail) = .ok ⟨kind, spelling.length⟩ := by
  have nonempty := lexical.form.nonempty
  rcases alike with same | ⟨c, d, ahead, otherAhead, letter, otherLetter⟩
  · obtain ⟨first, rest, rfl⟩ := List.exists_cons_of_ne_nil nonempty
    obtain ⟨spelled, after, whole, length, cut⟩ := scan_cut scanned
    obtain ⟨rfl, rfl⟩ := List.append_inj whole (Nat.succ.inj length)
    exact cut tail (.inl same)
  · have mark : ∃ sign, kind = .mark sign := by
      obtain ⟨first, rest, rfl⟩ := List.exists_cons_of_ne_nil nonempty
      exact scan_before_letter scanned (by simpa using ahead) letter
    obtain ⟨sign, rfl⟩ := mark
    have text : spelling = sign.text.toList := by
      cases lexical with
      | reserved member => simp [Kind.reserved] at member
      | mark => rfl
    obtain ⟨later, rfl⟩ := List.head?_eq_some_iff.mp otherAhead
    rw [text]
    exact scan_mark_letter otherLetter sign

/-- What is read as an identifier is a word that is not reserved. -/
theorem IsLexeme.name {name : String} (lexical : IsLexeme spelling (.ident name)) :
    name = String.ofList spelling ∧ ∃ first rest, spelling = first :: rest ∧
      isLetter first = true ∧ (∀ c ∈ rest, isWordPart c = true) ∧
      ∀ kind ∈ Kind.reserved, kind.text.toList ≠ spelling := by
  cases lexical with
  | reserved member => simp [Kind.reserved] at member
  | ident letter parts free => exact ⟨rfl, _, _, rfl, letter, parts, free⟩

/-- A word ends before what goes on no word. -/
theorem scan_word (letter : isLetter first = true) (parts : ∀ c ∈ rest, isWordPart c = true)
    (stops : ∀ c ∈ tail.head?, isWordPart c = false) : scan (first :: rest ++ tail) =
      .ok ⟨Kind.ofWord (String.ofList (first :: rest)), (first :: rest).length⟩ := by
  have all : ∀ c ∈ first :: rest, isWordPart c = true :=
    List.forall_mem_cons.mpr ⟨isWordPart_of_isLetter letter, parts⟩
  have noDigit : ¬ first.isDigit = true := by
    intro digit
    rw [isLetter_of_isDigit digit] at letter
    contradiction
  have word : Scan.word (first :: rest ++ tail) =
      ⟨Kind.ofWord (String.ofList (first :: rest)), (first :: rest).length⟩ := by
    rw [Scan.word, takeWhile_append_stop all stops]
  rw [← word, List.cons_append, scan, if_neg noDigit, if_pos letter]

theorem scan_name (name : IsName word) (stops : ∀ c ∈ tail.head?, isWordPart c = false) :
    scan (word.toList ++ tail) = .ok ⟨.ident word, word.toList.length⟩ := by
  obtain ⟨-, first, rest, spelled, letter, parts, free⟩ := IsLexeme.name name
  have none : Kind.reserved.find? (·.text = word) = none :=
    List.find?_eq_none.mpr fun kind member same =>
      free kind member (congrArg String.toList (of_decide_eq_true same))
  have kind : Kind.ofWord word = .ident word := by
    rw [Kind.ofWord, none]
    rfl
  rw [spelled, scan_word letter parts stops, ← spelled, String.ofList_toList, kind]

/-- Nothing that goes on a word stands behind an identifier. -/
theorem name_stops {name : String} (lexical : IsLexeme spelling (.ident name))
    (longest : Longest spelling behind) : ∀ c ∈ behind.head?, isWordPart c = false := by
  intro c ahead
  obtain ⟨later, rfl⟩ := List.head?_eq_some_iff.mp ahead
  obtain ⟨-, first, rest, rfl, letter, parts, -⟩ := lexical.name
  cases part : isWordPart c with
  | false => rfl
  | true =>
      have longer : HasForm (first :: (rest ++ [c])) :=
        .word letter (List.forall_mem_append.mpr ⟨parts, List.forall_mem_singleton.mpr part⟩)
      have within := longest (first :: (rest ++ [c])) ⟨later, by simp⟩ longer
      simp at within

/-- Only where a name stands right at the front of a text does renaming change its front. -/
theorem Leads.startsAlike (leads : Leads text blanks spelling rest kind)
    (name : ∀ name, kind = .ident name → IsName (rename name)) :
    StartsAlike text (renamedText rename text) := by
  rw [leads.renamedText_eq]
  obtain ⟨rfl, -, -, lexical, -⟩ := leads
  obtain ⟨first, others, rfl⟩ := List.exists_cons_of_ne_nil lexical.form.nonempty
  cases blanks with
  | cons c blanks => exact .inl rfl
  | nil =>
      cases kind with
      | ident word =>
          obtain ⟨-, _, _, same, letter, -⟩ := lexical.name
          obtain ⟨-, new, news, spelled, newLetter, -⟩ := IsLexeme.name (name word rfl)
          cases same
          refine .inr ⟨first, new, rfl, ?_, letter, newLetter⟩
          rw [List.nil_append, Kind.respelled, spelled]
          rfl
      | _ => exact .inl rfl

/-- The lexeme that is put in the place of another is read there. -/
theorem Leads.scan_renamed (leads : Leads text blanks spelling rest kind)
    (name : ∀ name, kind = .ident name → IsName (rename name)) (alike : StartsAlike rest tail) :
    scan (kind.respelled rename spelling ++ tail) =
      .ok ⟨kind.renamed rename, (kind.respelled rename spelling).length⟩ := by
  cases kind with
  | ident word =>
      refine scan_name (name word rfl) ?_
      have stops := name_stops leads.lexical leads.longest
      rcases alike with same | ⟨c, -, ahead, -, letter, -⟩
      · rwa [same]
      · have part := stops c ahead
        rw [isWordPart_of_isLetter letter] at part
        contradiction
  | _ => exact scan_alike leads.scanned leads.lexical alike

theorem Leads.respelled_form (leads : Leads text blanks spelling rest kind)
    (name : ∀ name, kind = .ident name → IsName (rename name)) :
    HasForm (kind.respelled rename spelling) := by
  cases kind with
  | ident word => exact (name word rfl).form
  | _ => exact leads.lexical.form

theorem lineAfter_congr {before otherBefore : List Char}
    (same : lineAfter otherBefore = lineAfter before) (more : List Char) :
    lineAfter (otherBefore ++ more) = lineAfter (before ++ more) := by
  rw [lineAfter, lineAfter, Nat.succ_inj] at same ⊢
  rw [List.count_append, List.count_append, same]

namespace Lexer

variable {lexer other after : Lexer} {token : Token}

/-- The other lexer has the renamed text of this one before it, and is on the same line. -/
structure Renamed (rename : String → String) (lexer other : Lexer) : Prop where
  text : other.rest = renamedText rename lexer.rest
  places : ∃ before otherBefore, lexer.Behind before ∧ other.Behind otherBefore ∧
    lineAfter otherBefore = lineAfter before

/-- At the end of the text, both read the end. -/
theorem Renamed.next_end (renamed : Renamed rename lexer other)
    (read : lexer.next = (.ok token, after)) (ended : token.kind = .eof) :
    ∃ otherToken otherAfter, other.next = (.ok otherToken, otherAfter) ∧
      otherToken.kind = .eof ∧ otherToken.line = token.line := by
  obtain ⟨text, before, otherBefore, behind, otherBehind, sameLine⟩ := renamed
  obtain ⟨lexeme, scanned, same⟩ := scan_of_next read
  have blank := blank_of_end scanned (same.symm.trans ended)
  rw [renamedText_blank blank] at text
  have atEnd : lexer.Ahead lexer.rest ([] ++ []) := ⟨(List.append_nil _).symm, blank, nofun⟩
  have otherAtEnd : other.Ahead lexer.rest ([] ++ []) :=
    ⟨text.trans (List.append_nil _).symm, blank, nofun⟩
  obtain ⟨_, found, -, -⟩ := next_lexeme behind atEnd rfl List.not_mem_nil
  obtain ⟨otherAfter, otherFound, -, -⟩ :=
    next_lexeme otherBehind otherAtEnd rfl List.not_mem_nil
  rw [read] at found
  cases found
  exact ⟨_, otherAfter, otherFound, rfl, lineAfter_congr sameLine lexer.rest⟩

/-- A token is read as the renamed token, on the same line. -/
theorem Renamed.next (renamed : Renamed rename lexer other)
    (read : lexer.next = (.ok token, after)) (inside : token.kind ≠ .eof)
    (name : ∀ name, token.kind = .ident name → IsName (rename name))
    (alike : StartsAlike after.rest (renamedText rename after.rest)) :
    ∃ otherToken otherAfter, other.next = (.ok otherToken, otherAfter) ∧
      otherToken.kind = token.kind.renamed rename ∧ otherToken.line = token.line ∧
      Renamed rename after otherAfter := by
  obtain ⟨text, before, otherBefore, behind, otherBehind, sameLine⟩ := renamed
  obtain ⟨lexeme, scanned, sameKind⟩ := scan_of_next read
  rw [sameKind] at inside name ⊢
  obtain ⟨blanks, spelling, rest, leads⟩ := exists_leads scanned inside
  have ahead : lexer.Ahead blanks (spelling ++ rest) :=
    ⟨leads.whole, leads.blank, leads.lexical.form.starts rest⟩
  obtain ⟨_, found, left, stands⟩ :=
    next_lexeme behind ahead leads.scanned leads.lexical.form.on_line
  rw [read] at found
  cases found
  subst left
  have form := leads.respelled_form name
  have otherAhead : other.Ahead blanks
      (lexeme.kind.respelled rename spelling ++ renamedText rename after.rest) :=
    ⟨by rw [text, leads.renamedText_eq], leads.blank, form.starts _⟩
  obtain ⟨otherAfter, otherFound, otherLeft, otherStands⟩ :=
    next_lexeme otherBehind otherAhead (leads.scan_renamed name alike) form.on_line
  have blankLine := lineAfter_congr sameLine blanks
  refine ⟨_, otherAfter, otherFound, rfl, blankLine, otherLeft, _, _, stands, otherStands, ?_⟩
  rw [lineAfter_append form.on_line, blankLine, lineAfter_append leads.lexical.form.on_line]

theorem mem_names {reading : Reading} {name : String} :
    name ∈ reading.names ↔ ∃ token ∈ reading.tokens, token.kind = .ident name := by
  have isName (token : Token) : token.kind.name? = some name ↔ token.kind = .ident name := by
    cases token.kind <;> simp [Kind.name?]
  simp [Reading.names, isName]

theorem next_of_clean (clean : lexer.run.failure = none) :
    ∃ token after, lexer.next = (.ok token, after) ∧ token ∈ lexer.run.tokens := by
  rcases read : lexer.next with ⟨error | token, after⟩
  · rw [Lexer.run] at clean
    split at clean
    · cases clean
    · next other =>
        rw [read] at other
        cases other
  · refine ⟨token, after, rfl, ?_⟩
    by_cases ended : token.kind = .eof
    · rw [(run_end read ended).1]
      exact List.mem_cons_self
    · rw [(run_next read ended).1]
      exact List.mem_cons_self

theorem startsAlike_of_clean (clean : lexer.run.failure = none)
    (words : ∀ name ∈ lexer.run.names, IsName (rename name)) :
    StartsAlike lexer.rest (renamedText rename lexer.rest) := by
  obtain ⟨token, after, read, member⟩ := next_of_clean clean
  obtain ⟨lexeme, scanned, same⟩ := scan_of_next read
  by_cases ended : lexeme.kind = .eof
  · rw [renamedText_blank (blank_of_end scanned ended)]
    exact .inl rfl
  · obtain ⟨_, _, _, leads⟩ := exists_leads scanned ended
    exact leads.startsAlike fun name ident =>
      words name (mem_names.mpr ⟨token, member, same.trans ident⟩)

/-- A text whose names are replaced by others is read as before, but for the names. -/
theorem Renamed.run (lexer : Lexer) (clean : lexer.run.failure = none)
    (words : ∀ name ∈ lexer.run.names, IsName (rename name)) :
    ∀ other, Renamed rename lexer other → other.run.failure = none ∧
      RenamedTokens rename lexer.run.tokens other.run.tokens := by
  fun_induction Lexer.run lexer with
  | case1 lexer error after read => cases clean
  | case2 lexer token after read ended =>
      intro other renamed
      obtain ⟨otherToken, otherAfter, otherRead, otherEnded, line⟩ := renamed.next_end read ended
      obtain ⟨tokens, otherClean⟩ := run_end otherRead otherEnded
      refine ⟨otherClean, ?_⟩
      rw [RenamedTokens, tokens]
      simp [Reading.tokens, otherEnded, ended, line, Kind.renamed]
  | case3 lexer token after read inside reading ih =>
      intro other renamed
      have here : ∀ name, token.kind = .ident name → IsName (rename name) := fun name same =>
        words name (mem_names.mpr ⟨token, List.mem_cons_self, same⟩)
      have later : ∀ name ∈ after.run.names, IsName (rename name) := by
        intro name member
        obtain ⟨found, inRest, same⟩ := mem_names.mp member
        exact words name (mem_names.mpr ⟨found, List.mem_cons_of_mem _ inRest, same⟩)
      have alike := startsAlike_of_clean clean later
      obtain ⟨otherToken, otherAfter, otherRead, kind, line, renamedAfter⟩ :=
        renamed.next read inside here alike
      have otherInside : otherToken.kind ≠ .eof := by
        rw [kind]
        cases same : token.kind <;> simp_all [Kind.renamed]
      obtain ⟨tokens, failure⟩ := run_next otherRead otherInside
      obtain ⟨otherClean, rest⟩ := ih clean later otherAfter renamedAfter
      refine ⟨failure.trans otherClean, ?_⟩
      rw [RenamedTokens, tokens, List.map_cons, rest, kind, line]
      rfl

end Lexer

end ThreeAddress

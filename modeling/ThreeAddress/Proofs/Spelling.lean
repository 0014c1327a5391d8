import Mathlib.Data.List.TakeDrop
import Mathlib.Data.List.TakeWhile
import ThreeAddress.Token.Lexer

namespace ThreeAddress

open Text

variable {text : List Char} {lexeme : Lexeme}

/-- The text goes on with the same character, or with a blank. -/
def GoesOnLike (behind tail : List Char) : Prop :=
  tail.head? = behind.head? ∨ tail.head? = some ' '

section

variable {holds : Char → Bool} {front behind tail : List Char}

theorem takeWhile_append_stop (all : ∀ c ∈ front, holds c = true)
    (stops : ∀ c ∈ tail.head?, holds c = false) : (front ++ tail).takeWhile holds = front := by
  rw [List.takeWhile_append_of_pos all]
  cases tail with
  | nil => simp
  | cons c rest => rw [List.takeWhile_cons_of_neg (by simp [stops c rfl]), List.append_nil]

theorem dropWhile_append_stop (all : ∀ c ∈ front, holds c = true)
    (stops : ∀ c ∈ tail.head?, holds c = false) : (front ++ tail).dropWhile holds = tail := by
  rw [List.dropWhile_append_of_pos all]
  cases tail with
  | nil => rfl
  | cons c rest => rw [List.dropWhile_cons_of_neg (by simp [stops c rfl])]

theorem dropWhile_stops (holds : Char → Bool) (text : List Char) :
    ∀ c ∈ (text.dropWhile holds).head?, holds c = false := by
  intro c here
  have stop := List.head?_dropWhile_not holds text
  rw [here] at stop
  exact stop

/-- What stops at the text behind, and at a blank, stops at a text that goes on like it. -/
theorem GoesOnLike.stops (like : GoesOnLike (text.dropWhile holds) tail)
    (blank : holds ' ' = false) : ∀ c ∈ tail.head?, holds c = false := by
  intro c here
  rcases like with same | same
  · exact dropWhile_stops holds text c (same ▸ here)
  · cases same.symm.trans here
    exact blank

end

namespace Scan

variable {behind tail : List Char}

theorem endsNumber_of_like (like : GoesOnLike behind tail) (ends : endsNumber behind = true) :
    endsNumber tail = true := by
  rcases like with same | same
  · cases tail with
    | nil => rfl
    | cons c rest =>
        obtain ⟨others, rfl⟩ := List.head?_eq_some_iff.mp same.symm
        exact ends
  · obtain ⟨others, rfl⟩ := List.head?_eq_some_iff.mp same
    rfl

/-- The text starts with a token of so many characters, which is read in the same way from a text
that goes on like this one. -/
def CutBehind (reading : List Char → Except Misfit Lexeme) (text : List Char)
    (lexeme : Lexeme) : Prop :=
  ∃ spelling behind, text = spelling ++ behind ∧ lexeme.length = spelling.length ∧
    ∀ tail, GoesOnLike behind tail → reading (spelling ++ tail) = .ok lexeme

theorem number_cut (scanned : number text = .ok lexeme) : CutBehind number text lexeme := by
  have digits (part : List Char) : ∀ c ∈ part.takeWhile Char.isDigit, c.isDigit = true :=
    fun c => List.mem_takeWhile_imp
  have parts (part : List Char) :
      part = part.takeWhile Char.isDigit ++ part.dropWhile Char.isDigit :=
    List.takeWhile_append_dropWhile.symm
  unfold number at scanned
  simp only at scanned
  split at scanned
  · next afterPoint point =>
      split at scanned
      · next ends =>
          cases scanned
          refine ⟨text.takeWhile Char.isDigit ++ '.' :: afterPoint.takeWhile Char.isDigit,
            afterPoint.dropWhile Char.isDigit, ?_, ?_, fun tail like => ?_⟩
          · rw [List.append_assoc, List.cons_append, ← parts, ← point, ← parts]
          · simp only [List.length_append, List.length_cons]
            omega
          · have pointStops : ∀ c ∈ ('.' :: (afterPoint.takeWhile Char.isDigit ++ tail)).head?,
                c.isDigit = false := by
              intro c here
              cases here
              decide
            have stops : ∀ c ∈ tail.head?, Char.isDigit c = false := like.stops (by decide)
            rw [List.append_assoc, List.cons_append, number]
            simp only [takeWhile_append_stop (digits text) pointStops,
              dropWhile_append_stop (digits text) pointStops,
              takeWhile_append_stop (digits afterPoint) stops,
              dropWhile_append_stop (digits afterPoint) stops, endsNumber_of_like like ends,
              if_true]
      · cases scanned
  · next noPoint =>
      split at scanned
      · cases scanned
      · next ends =>
          split at scanned
          · cases scanned
          · next small =>
              cases scanned
              refine ⟨text.takeWhile Char.isDigit, _, parts text, rfl, fun tail like => ?_⟩
              have stops : ∀ c ∈ tail.head?, Char.isDigit c = false := like.stops (by decide)
              have ends : endsNumber (text.dropWhile Char.isDigit) = true := by simpa using ends
              rw [number]
              simp only [takeWhile_append_stop (digits text) stops,
                dropWhile_append_stop (digits text) stops]
              split
              · next afterPoint =>
                  rcases like with same | same
                  · obtain ⟨others, point⟩ := List.head?_eq_some_iff.mp same.symm
                    exact (noPoint others point).elim
                  · cases same
              · simp [endsNumber_of_like like ends, small]

theorem word_cut : CutBehind (fun text => .ok (word text)) text (word text) := by
  refine ⟨text.takeWhile isWordPart, _, List.takeWhile_append_dropWhile.symm, rfl,
    fun tail like => ?_⟩
  dsimp only
  rw [word, takeWhile_append_stop (fun c => List.mem_takeWhile_imp) (like.stops (by decide)), word]

theorem pair?_blank (first : Char) : Mark.pair? first ' ' = none := by
  unfold Mark.pair?
  split <;> simp_all

theorem operator_cut {first : Char} {rest : List Char}
    (scanned : operator first rest = .ok lexeme) :
    ∃ spelling behind, rest = spelling ++ behind ∧ lexeme.length = spelling.length + 1 ∧
      ∀ tail, GoesOnLike behind tail → operator first (spelling ++ tail) = .ok lexeme := by
  unfold operator at scanned
  split at scanned
  · next mark pair =>
      cases scanned
      cases rest with
      | nil => cases pair
      | cons second after =>
          have two : Mark.pair? first second = some mark := pair
          exact ⟨[second], after, rfl, rfl, fun tail _ => by simp [operator, two]⟩
  · next noPair =>
      split at scanned
      · next mark single =>
          cases scanned
          refine ⟨[], rest, rfl, rfl, fun tail like => ?_⟩
          have none : tail.head?.bind (Mark.pair? first) = none := by
            rcases like with same | same
            · rw [same, noPair]
            · rw [same]
              exact pair?_blank first
          simp [operator, none, single]
      · cases scanned

end Scan

/-- What is behind a token counts for it only up to the first character. -/
theorem scan_cut {first : Char} {rest : List Char} (scanned : scan (first :: rest) = .ok lexeme) :
    ∃ spelling behind, rest = spelling ++ behind ∧ lexeme.length = spelling.length + 1 ∧
      ∀ tail, GoesOnLike behind tail → scan (first :: spelling ++ tail) = .ok lexeme := by
  rw [scan] at scanned
  split at scanned
  · next digit =>
      obtain ⟨spelling, behind, whole, length, again⟩ := Scan.number_cut scanned
      have positive := Scan.number_length_pos digit scanned
      cases spelling with
      | nil => simp [length] at positive
      | cons c spelling =>
          cases whole
          exact ⟨spelling, behind, rfl, length, fun tail like => by
            rw [List.cons_append, scan, if_pos digit, ← List.cons_append, again tail like]⟩
  · next digit =>
      split at scanned
      · next letter =>
          cases scanned
          have cut : Scan.CutBehind _ (first :: rest) (Scan.word (first :: rest)) := Scan.word_cut
          obtain ⟨spelling, behind, whole, length, again⟩ := cut
          have positive : 0 < (Scan.word (first :: rest)).length := Scan.word_length_pos letter
          cases spelling with
          | nil => simp [length] at positive
          | cons c spelling =>
              cases whole
              exact ⟨spelling, behind, rfl, length, fun tail like => by
                rw [List.cons_append, scan, if_neg digit, if_pos letter, ← List.cons_append]
                exact again tail like⟩
      · next letter =>
          split at scanned
          · next sign =>
              obtain ⟨spelling, behind, whole, length, again⟩ := Scan.operator_cut scanned
              exact ⟨spelling, behind, whole, length, fun tail like => by
                rw [List.cons_append, scan, if_neg digit, if_neg letter, if_pos sign,
                  again tail like]⟩
          · next sign =>
              split at scanned
              · next mark punctuation =>
                  cases scanned
                  exact ⟨[], rest, rfl, rfl, fun tail _ => by
                    rw [List.cons_append, scan, if_neg digit, if_neg letter, if_neg sign,
                      punctuation]⟩
              · cases scanned

namespace Scan

theorem number_literal {value : Nat} (scanned : number text = .ok lexeme)
    (literal : lexeme.kind = .int value) : value ≤ intMax := by
  unfold number at scanned
  simp only at scanned
  split at scanned
  · split at scanned
    · cases scanned
      cases literal
    · cases scanned
  · split at scanned
    · cases scanned
    · split at scanned
      · cases scanned
      · next small =>
          cases scanned
          cases literal
          exact Nat.not_lt.mp small

theorem word_no_number (value : Nat) : (word text).kind ≠ .int value := by
  have reservedWords : ∀ kind ∈ Kind.reserved, kind.sameSort (.int value) = false := by
    simp [Kind.reserved, Kind.sameSort]
  intro literal
  rw [word, Kind.ofWord] at literal
  cases found : Kind.reserved.find? (·.text = String.ofList (text.takeWhile isWordPart)) with
  | none => simp [found] at literal
  | some kind =>
      have notNumber := reservedWords kind (List.mem_of_find?_eq_some found)
      simp only [found, Option.getD_some] at literal
      rw [literal] at notNumber
      simp [Kind.sameSort] at notNumber

theorem operator_no_number {first : Char} {rest : List Char} {value : Nat}
    (scanned : operator first rest = .ok lexeme) : lexeme.kind ≠ .int value := by
  unfold operator at scanned
  split at scanned
  · cases scanned
    exact nofun
  · split at scanned
    · cases scanned
      exact nofun
    · cases scanned

end Scan

/-- A number is an integer of the language. -/
theorem scan_literal {value : Nat} (scanned : scan text = .ok lexeme)
    (literal : lexeme.kind = .int value) : value ≤ intMax := by
  cases text with
  | nil =>
      cases scanned
      cases literal
  | cons c rest =>
      rw [scan] at scanned
      split at scanned
      · exact Scan.number_literal scanned literal
      · split at scanned
        · cases scanned
          exact (Scan.word_no_number value literal).elim
        · split at scanned
          · exact (Scan.operator_no_number scanned literal).elim
          · split at scanned
            · cases scanned
              cases literal
            · cases scanned

namespace Kind

/-- Some characters are read as a token of this kind when a blank follows them. -/
structure Spelled (kind : Kind) : Prop where
  inside : kind ≠ .eof
  spelling : ∃ first rest, isBlank first = false ∧
    ∀ tail, scan (first :: rest ++ ' ' :: tail) = .ok ⟨kind, rest.length + 1⟩

theorem spelled_of_text {kind : Kind} (text : String) (inside : kind ≠ .eof)
    (starts : text.toList.head?.map isBlank = some false)
    (scanned : scan text.toList = .ok ⟨kind, text.toList.length⟩) : kind.Spelled := by
  refine ⟨inside, ?_⟩
  cases chars : text.toList with
  | nil => simp [chars] at starts
  | cons first rest =>
      rw [chars] at starts scanned
      obtain ⟨spelling, after, rfl, length, again⟩ := scan_cut scanned
      obtain rfl : after = [] := by simpa using length
      exact ⟨first, spelling, by simpa using starts, fun tail => by
        simpa using again (' ' :: tail) (.inr rfl)⟩

@[simp] theorem spelled_mark (sign : Mark) : (mark sign).Spelled :=
  spelled_of_text sign.text nofun (by cases sign <;> decide) (by cases sign <;> rfl)

@[simp] theorem spelled_keyword (word : Keyword) : (keyword word).Spelled :=
  spelled_of_text word.text nofun (by cases word <;> decide) (by cases word <;> rfl)

@[simp] theorem spelled_zero : (int 0).Spelled :=
  spelled_of_text "0" nofun (by decide) (by rfl)

@[simp] theorem spelled_one : (int 1).Spelled :=
  spelled_of_text "1" nofun (by decide) (by rfl)

/-- A name of this length, which is no reserved word. -/
def longName (length : Nat) : String :=
  String.ofList (List.replicate (length + 1) 'x')

theorem ofWord_longName (length : Nat) : ofWord (longName length) = ident (longName length) := by
  have others : ∀ kind ∈ reserved, kind.text.toList.head? ≠ some 'x' := by decide
  have none : reserved.find? (·.text = longName length) = none := by
    refine List.find?_eq_none.mpr fun kind member same => others kind member ?_
    rw [of_decide_eq_true same, longName, String.toList_ofList]
    rfl
  rw [ofWord, none]
  rfl

@[simp] theorem spelled_longName (length : Nat) : (ident (longName length)).Spelled := by
  refine ⟨nofun, 'x', List.replicate length 'x', by decide, fun tail => ?_⟩
  have all : ∀ c ∈ List.replicate (length + 1) 'x', isWordPart c = true := by
    intro c member
    rw [List.eq_of_mem_replicate member]
    decide
  have letters : (List.replicate (length + 1) 'x' ++ ' ' :: tail).takeWhile isWordPart =
      List.replicate (length + 1) 'x' := by
    refine takeWhile_append_stop all fun c here => ?_
    cases here
    decide
  have letter : isLetter 'x' = true := by decide
  rw [← List.replicate_succ]
  calc scan (List.replicate (length + 1) 'x' ++ ' ' :: tail)
      = .ok (Scan.word (List.replicate (length + 1) 'x' ++ ' ' :: tail)) := by
        rw [List.replicate_succ, List.cons_append, scan, if_neg (by decide), if_pos letter]
    _ = .ok ⟨ident (longName length), _⟩ := by
        rw [Scan.word, letters, ← longName, ofWord_longName, List.length_replicate,
          List.length_replicate]

end Kind

namespace Source.Tracker

/-- The place of a tracker moves on with the character it leaves. -/
theorem advance_place (tracker : Tracker) (c : Char) (new : Option Char) :
    (tracker.advance (some c) new).line =
      (if c = '\n' then tracker.line + 1 else tracker.line) ∧
    (tracker.advance (some c) new).column = (if c = '\n' then 0 else tracker.column + 1) ∧
    (tracker.advance (some c) new).tokenStart = tracker.tokenStart := by
  have met (tracker : Tracker) : (tracker.meet new).line = tracker.line ∧
      (tracker.meet new).column = tracker.column ∧
      (tracker.meet new).tokenStart = tracker.tokenStart := by
    unfold meet
    split
    · exact ⟨rfl, rfl, rfl⟩
    · split <;> exact ⟨rfl, rfl, rfl⟩
  simp only [advance, met, leave]
  split <;> exact ⟨rfl, rfl, rfl⟩

end Source.Tracker

namespace Lexer

variable {lexer other after : Lexer} {blanks front tail : List Char} {token : Token}

/-- Both lexers stand at the same line and column. -/
structure SamePlace (lexer other : Lexer) : Prop where
  line : lexer.tracker.line = other.tracker.line
  column : lexer.tracker.column = other.tracker.column

theorem bump_cons {c : Char} {rest : List Char} (text : lexer.rest = c :: rest) :
    lexer.bump.tracker = lexer.tracker.advance (some c) rest.head? := by
  rw [bump, text]

theorem SamePlace.bump (same : SamePlace lexer other)
    (alike : lexer.rest.head? = other.rest.head?) : SamePlace lexer.bump other.bump := by
  cases text : lexer.rest with
  | nil =>
      rw [text] at alike
      have otherText : other.rest = [] := List.head?_eq_none_iff.mp alike.symm
      rw [Lexer.bump, text, Lexer.bump, otherText]
      exact same
  | cons c rest =>
      rw [text] at alike
      obtain ⟨others, otherText⟩ := List.head?_eq_some_iff.mp alike.symm
      constructor
      · rw [bump_cons text, bump_cons otherText, (Source.Tracker.advance_place ..).1,
          (Source.Tracker.advance_place ..).1, same.line]
      · rw [bump_cons text, bump_cons otherText, (Source.Tracker.advance_place ..).2.1,
          (Source.Tracker.advance_place ..).2.1, same.column]

theorem SamePlace.skip {count : Nat} (same : SamePlace lexer other)
    (alike : lexer.rest.take count = other.rest.take count) :
    SamePlace (lexer.skip count) (other.skip count) := by
  induction count generalizing lexer other with
  | zero => exact same
  | succ count ih =>
      refine ih (same.bump ?_) ?_
      · have heads := congrArg List.head? alike
        simpa [List.head?_take] using heads
      · have tails := congrArg List.tail alike
        simpa [bump_rest, List.tail_take_eq_take_tail] using tails

theorem skip_tokenStart (count : Nat) :
    (lexer.skip count).tracker.tokenStart = lexer.tracker.tokenStart := by
  induction count generalizing lexer with
  | zero => rfl
  | succ count ih =>
      rw [skip, ih]
      cases text : lexer.rest with
      | nil => rw [bump, text]
      | cons c rest => rw [bump_cons text, (Source.Tracker.advance_place ..).2.2]

theorem startToken_rest_eq : lexer.startToken.rest = lexer.rest.dropWhile isBlank := by
  have whole := List.takeWhile_append_dropWhile (p := isBlank) (l := lexer.rest)
  calc lexer.startToken.rest
      = (lexer.rest.takeWhile isBlank ++ lexer.rest.dropWhile isBlank).drop
          (lexer.rest.takeWhile isBlank).length := by rw [whole, startToken_rest]
    _ = lexer.rest.dropWhile isBlank := List.drop_left

theorem SamePlace.startToken (same : SamePlace lexer other)
    (alike : lexer.rest.takeWhile isBlank = other.rest.takeWhile isBlank) :
    SamePlace lexer.startToken other.startToken ∧
      lexer.startToken.tracker.tokenStart = other.startToken.tracker.tokenStart := by
  have front (lexer : Lexer) : lexer.rest.take (lexer.rest.takeWhile isBlank).length =
      lexer.rest.takeWhile isBlank :=
    (List.prefix_iff_eq_take.mp (List.takeWhile_prefix _)).symm
  have skipped : SamePlace lexer.skipBlanks other.skipBlanks := by
    rw [skipBlanks, skipBlanks, ← alike]
    exact same.skip (by rw [front, alike, front])
  refine ⟨⟨skipped.line, skipped.column⟩, ?_⟩
  simp only [Lexer.startToken, Source.Tracker.startToken, skipped.line, skipped.column]

/-- The next token is what `scan` reads behind the blanks. -/
theorem next_of_scan (scanned : scan (lexer.rest.dropWhile isBlank) = .ok lexeme) :
    lexer.next = (.ok ⟨lexeme.kind, (lexer.startToken.skip lexeme.length).tracker.tokenSpan⟩,
      { lexer.startToken.skip lexeme.length with
        tracker := (lexer.startToken.skip lexeme.length).tracker.finishToken }) := by
  rw [← startToken_rest_eq] at scanned
  unfold next
  simp only [scanned]
  rfl

theorem scan_of_next (read : lexer.next = (.ok token, after)) :
    ∃ lexeme, scan (lexer.rest.dropWhile isBlank) = .ok lexeme ∧ token.kind = lexeme.kind := by
  cases scanned : scan (lexer.rest.dropWhile isBlank) with
  | ok lexeme =>
      rw [next_of_scan scanned] at read
      cases read
      exact ⟨lexeme, rfl, rfl⟩
  | error misfit =>
      rw [← startToken_rest_eq] at scanned
      simp [next, scanned] at read

/-- A token does not change with the text behind it, up to the first character. -/
theorem next_cut (read : lexer.next = (.ok token, after)) (inside : token.kind ≠ .eof) :
    ∃ front, lexer.rest = front ++ after.rest ∧
      ∀ other tail, SamePlace lexer other → other.rest = front ++ tail →
        GoesOnLike after.rest tail →
        ∃ last, other.next = (.ok token, last) ∧ SamePlace after last ∧ last.rest = tail := by
  obtain ⟨lexeme, scanned, kind⟩ := scan_of_next read
  have allBlank : ∀ c ∈ lexer.rest.takeWhile isBlank, isBlank c = true :=
    fun c => List.mem_takeWhile_imp
  have notBlank := List.head?_dropWhile_not isBlank lexer.rest
  have whole := (List.takeWhile_append_dropWhile (p := isBlank) (l := lexer.rest)).symm
  rw [next_of_scan scanned] at read
  cases read
  have start : lexer.startToken.rest = lexer.rest.dropWhile isBlank := startToken_rest_eq
  cases behind : lexer.rest.dropWhile isBlank with
  | nil =>
      rw [behind] at scanned
      cases scanned
      contradiction
  | cons first rest =>
      rw [behind] at scanned notBlank whole start
      obtain ⟨spelling, later, rfl, length, again⟩ := scan_cut scanned
      have cut (tail : List Char) : (first :: spelling ++ tail).take lexeme.length =
          first :: spelling := by
        rw [length, ← List.length_cons, List.take_left]
      have left (tail : List Char) : (first :: spelling ++ tail).drop lexeme.length = tail := by
        rw [length, ← List.length_cons, List.drop_left]
      have passedRest : (lexer.startToken.skip lexeme.length).rest = later := by
        rw [skip_rest, start, ← List.cons_append, left]
      refine ⟨lexer.rest.takeWhile isBlank ++ first :: spelling, ?_,
        fun other tail same otherText like => ?_⟩
      · rw [passedRest, List.append_assoc]
        exact whole
      · rw [passedRest] at like
        rw [List.append_assoc] at otherText
        have starts : ∀ c ∈ (first :: spelling ++ tail).head?, isBlank c = false := by
          intro c here
          cases here
          exact notBlank
        have otherBlanks : other.rest.takeWhile isBlank = lexer.rest.takeWhile isBlank := by
          rw [otherText, takeWhile_append_stop allBlank starts]
        have otherStart : other.startToken.rest = first :: spelling ++ tail := by
          rw [startToken_rest_eq, otherText, dropWhile_append_stop allBlank starts]
        obtain ⟨started, sameStart⟩ := same.startToken otherBlanks.symm
        have passed : SamePlace (lexer.startToken.skip lexeme.length)
            (other.startToken.skip lexeme.length) :=
          started.skip (by rw [start, otherStart, ← List.cons_append, cut, cut])
        have sameSpan : (other.startToken.skip lexeme.length).tracker.tokenSpan =
            (lexer.startToken.skip lexeme.length).tracker.tokenSpan := by
          simp only [Source.Tracker.tokenSpan, Source.Tracker.tokenLength, skip_tokenStart,
            sameStart, passed.column]
        have otherScanned : scan (other.rest.dropWhile isBlank) = .ok lexeme := by
          rw [← startToken_rest_eq, otherStart]
          exact again tail like
        have otherNext := next_of_scan otherScanned
        rw [sameSpan] at otherNext
        refine ⟨_, otherNext, ⟨passed.line, passed.column⟩, ?_⟩
        rw [skip_rest, otherStart, left]

theorem run_next (read : lexer.next = (.ok token, after)) (inside : token.kind ≠ .eof) :
    lexer.run.tokens = token :: after.run.tokens ∧ lexer.run.failure = after.run.failure := by
  rw [Lexer.run]
  split
  · next failed =>
      rw [read] at failed
      cases failed
  · next found =>
      rw [read] at found
      cases found
      rw [dif_neg inside]
      exact ⟨rfl, rfl⟩

theorem run_end (read : lexer.next = (.ok token, after)) (ended : token.kind = .eof) :
    lexer.run.tokens = [token] ∧ lexer.run.failure = none := by
  rw [Lexer.run]
  split
  · next failed =>
      rw [read] at failed
      cases failed
  · next found =>
      rw [read] at found
      cases found
      rw [dif_pos ended]
      exact ⟨rfl, rfl⟩

theorem run_error {error : LexicalError} (failed : lexer.next = (.error error, after)) :
    lexer.run.tokens = [] := by
  rw [Lexer.run]
  split
  · rfl
  · next found =>
      rw [failed] at found
      cases found

/-- A text that is cut before a token and goes on with a blank has the same tokens up to there. -/
theorem run_cut (lexer : Lexer) {read later : List Token}
    (tokens : lexer.run.tokens = read ++ token :: later) :
    ∃ front behind, lexer.rest = front ++ behind ∧
      ∀ other tail, SamePlace lexer other → other.rest = front ++ ' ' :: tail →
        ∃ last : Lexer, last.rest = ' ' :: tail ∧ other.run.tokens = read ++ last.run.tokens ∧
          other.run.failure = last.run.failure := by
  induction read generalizing lexer with
  | nil => exact ⟨[], lexer.rest, rfl, fun other tail _ text => ⟨other, text, rfl, rfl⟩⟩
  | cons first more ih =>
      match found : lexer.next with
      | (.error error, after) =>
          rw [run_error found] at tokens
          cases tokens
      | (.ok here, after) =>
          by_cases ended : here.kind = .eof
          · rw [(run_end found ended).1] at tokens
            simp at tokens
          · rw [(run_next found ended).1, List.cons_append] at tokens
            obtain ⟨rfl, others⟩ := List.cons_eq_cons.mp tokens
            obtain ⟨front, whole, cut⟩ := next_cut found ended
            obtain ⟨onward, behind, more, again⟩ := ih after others
            refine ⟨front ++ onward, behind, by rw [whole, more, List.append_assoc],
              fun other tail same text => ?_⟩
            have like : GoesOnLike after.rest (onward ++ ' ' :: tail) := by
              rw [more]
              cases onward with
              | nil => exact .inr rfl
              | cons c rest => exact .inl rfl
            rw [List.append_assoc] at text
            obtain ⟨next, otherRead, samePlace, nextText⟩ := cut other _ same text like
            obtain ⟨last, lastText, lastTokens, lastFailure⟩ := again next tail samePlace nextText
            obtain ⟨otherTokens, otherFailure⟩ := run_next otherRead ended
            exact ⟨last, lastText, by rw [otherTokens, lastTokens, List.cons_append],
              otherFailure.trans lastFailure⟩

theorem run_literals (lexer : Lexer) {value : Nat} (member : token ∈ lexer.run.tokens)
    (literal : token.kind = .int value) : value ≤ intMax := by
  fun_induction Lexer.run lexer with
  | case1 lexer error after read => cases member
  | case2 lexer first after read ended =>
      obtain rfl : token = first := List.mem_singleton.mp member
      rw [ended] at literal
      cases literal
  | case3 lexer first after read inside reading ih =>
      rcases List.mem_cons.mp member with rfl | behind
      · obtain ⟨lexeme, scanned, kind⟩ := scan_of_next read
        exact scan_literal scanned (kind ▸ literal)
      · exact ih behind

/-- Tokens that have a spelling have a text. -/
theorem run_spelled {kinds : List Kind} (spelled : ∀ kind ∈ kinds, kind.Spelled) :
    ∃ text, ∀ lexer : Lexer, lexer.rest = ' ' :: text → lexer.run.failure = none ∧
      lexer.run.tokens.map Token.kind = kinds ++ [.eof] := by
  induction kinds with
  | nil =>
      refine ⟨[], fun lexer text => ?_⟩
      have scanned : scan (lexer.rest.dropWhile isBlank) = .ok ⟨.eof, 0⟩ := by
        rw [text]
        rfl
      obtain ⟨tokens, clean⟩ := run_end (next_of_scan scanned) rfl
      exact ⟨clean, by rw [tokens]; rfl⟩
  | cons kind kinds ih =>
      obtain ⟨⟨inside, first, rest, starts, scans⟩, others⟩ := List.forall_mem_cons.mp spelled
      obtain ⟨text, reads⟩ := ih others
      refine ⟨first :: rest ++ ' ' :: text, fun lexer whole => ?_⟩
      have behind : lexer.rest.dropWhile isBlank = first :: rest ++ ' ' :: text := by
        rw [whole, List.dropWhile_cons_of_pos (by decide), List.cons_append,
          List.dropWhile_cons_of_neg (by simp [starts])]
      have scanned : scan (lexer.rest.dropWhile isBlank) = .ok ⟨kind, rest.length + 1⟩ :=
        behind ▸ scans text
      obtain ⟨tokens, failure⟩ := run_next (next_of_scan scanned) inside
      have left : (lexer.startToken.skip (rest.length + 1)).rest = ' ' :: text := by
        rw [skip_rest, startToken_rest_eq, behind, ← List.length_cons, List.drop_left]
      obtain ⟨clean, more⟩ := reads { lexer.startToken.skip (rest.length + 1) with
        tracker := (lexer.startToken.skip (rest.length + 1)).tracker.finishToken } left
      exact ⟨failure.trans clean, by rw [tokens, List.map_cons, more, List.cons_append]⟩

/-- A text starts at the first line and column. -/
theorem ofText_place (filename source : String) : (ofText filename source).tracker.line = 1 ∧
    (ofText filename source).tracker.column = 0 := by
  rw [ofText, Source.Tracker.advance, Source.Tracker.leave, Source.Tracker.meet.eq_def]
  split
  · exact ⟨rfl, rfl⟩
  · split <;> exact ⟨rfl, rfl⟩

theorem samePlace_ofText (filename first second : String) :
    SamePlace (ofText filename first) (ofText filename second) := by
  obtain ⟨line, column⟩ := ofText_place filename first
  obtain ⟨otherLine, otherColumn⟩ := ofText_place filename second
  exact ⟨line.trans otherLine.symm, column.trans otherColumn.symm⟩

/-- Some tokens of a text go on with tokens of any kinds that have a spelling. -/
theorem exists_text {filename source : String} {read later : List Token} {token : Token}
    {kinds : List Kind} (tokens : (ofText filename source).run.tokens = read ++ token :: later)
    (spelled : ∀ kind ∈ kinds, kind.Spelled) :
    ∃ text more, (ofText filename text).run.failure = none ∧
      (ofText filename text).run.tokens = read ++ more ∧
      more.map Token.kind = kinds ++ [.eof] := by
  obtain ⟨front, behind, -, cut⟩ := run_cut (ofText filename source) tokens
  obtain ⟨tail, reads⟩ := run_spelled spelled
  have chars : (ofText filename (String.ofList (front ++ ' ' :: tail))).rest =
      front ++ ' ' :: tail := String.toList_ofList
  obtain ⟨last, lastText, lastTokens, failure⟩ := cut _ tail (samePlace_ofText ..) chars
  obtain ⟨clean, more⟩ := reads last lastText
  exact ⟨_, last.run.tokens, failure.trans clean, lastTokens, more⟩

end Lexer

end ThreeAddress

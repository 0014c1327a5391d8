import ThreeAddress.Proofs.Lexing.Partition

namespace ThreeAddress

open Text Source

/-- What a call answers, the kind of a token or a fault, and the characters it is about. -/
structure Answer where
  found : Except LexicalFault Kind
  span : Span

namespace Answer

def ofToken (token : Token) : Answer :=
  ⟨.ok token.kind, token.span⟩

def ofError (error : LexicalError) : Answer :=
  ⟨.error error.fault, error.span⟩

/-- The same answer for another line of the text. -/
def onLine (answer : Answer) (line : Nat) : Answer :=
  { answer with span := { answer.span with line } }

end Answer

namespace Lexer

/-- The answer of the next call. -/
def answer (lexer : Lexer) : Answer :=
  match lexer.next.1 with
  | .ok token => .ofToken token
  | .error error => .ofError error

/-- The lexer after this many calls. -/
def calls (lexer : Lexer) : Nat → Lexer
  | 0 => lexer
  | count + 1 => lexer.next.2.calls count

/-- The answers before the end of the text, up to the first fault. -/
def Reading.answers (reading : Reading) : List Answer :=
  (reading.tokens.filter (·.kind ≠ .eof)).map .ofToken ++ reading.failure.toList.map .ofError

/-- The answers for lines that are numbered on from this number, each read alone. -/
def lineAnswers (filename : String) (number : Nat) (lines : List (List Char)) : List Answer :=
  (lines.zipIdx number).flatMap fun (line, number) =>
    (ofText filename (String.ofList line)).run.answers.map (·.onLine number)

/-- The calls of a lexer answer these, and then the end of the text. Each of them takes characters
from the text. -/
inductive Answers : Lexer → List Answer → Prop
  | ended {lexer} : (∀ c ∈ lexer.rest, isBlank c = true) → Answers lexer []
  | call {lexer answers} : lexer.answer.found ≠ .ok .eof →
      lexer.next.2.rest.length < lexer.rest.length → Answers lexer.next.2 answers →
      Answers lexer (lexer.answer :: answers)

variable {lexer after : Lexer} {answers : List Answer} {c : Char} {rest : List Char}

/-- Behind the last token there is only the end of the text, however often it is asked for. -/
theorem answer_at_end (blank : ∀ c ∈ lexer.rest, isBlank c = true) :
    lexer.answer.found = .ok .eof ∧ lexer.next.2.rest = [] := by
  have nothing : lexer.rest.dropWhile isBlank = [] := List.dropWhile_eq_nil_iff.mpr blank
  have scanned : scan (lexer.rest.dropWhile isBlank) = .ok ⟨.eof, 0⟩ := by
    rw [nothing]
    rfl
  have read := next_of_scan scanned
  constructor
  · rw [answer, read]
    rfl
  · rw [read, skip_rest, startToken_rest_eq, nothing, List.drop_nil]

theorem calls_at_end (blank : ∀ c ∈ lexer.rest, isBlank c = true) (count : Nat) :
    (lexer.calls count).answer.found = .ok .eof := by
  induction count generalizing lexer with
  | zero => exact (answer_at_end blank).1
  | succ count ih => exact ih (by rw [(answer_at_end blank).2]; nofun)

/-- What the answers say about each call. -/
theorem Answers.calls (given : lexer.Answers answers) :
    (List.range answers.length).map (fun call => (lexer.calls call).answer) = answers ∧
    (∀ call < answers.length, (lexer.calls call).answer.found ≠ .ok .eof ∧
      (lexer.calls (call + 1)).rest.length < (lexer.calls call).rest.length) ∧
    ∀ call, answers.length ≤ call → (lexer.calls call).answer.found = .ok .eof := by
  induction given with
  | ended blank => exact ⟨rfl, nofun, fun call _ => calls_at_end blank call⟩
  | @call lexer answers inside shorter _ ih =>
      obtain ⟨each, progress, last⟩ := ih
      refine ⟨?_, fun call before => ?_, fun call behind => ?_⟩
      · rw [List.length_cons, List.range_succ_eq_map, List.map_cons, List.map_map]
        exact congrArg (lexer.answer :: ·) each
      · cases call with
        | zero => exact ⟨inside, shorter⟩
        | succ call => exact progress call (Nat.lt_of_succ_lt_succ before)
      · cases call with
        | zero => exact absurd behind (Nat.not_succ_le_zero _)
        | succ call => exact last call (Nat.le_of_succ_le_succ behind)

theorem startToken_bump (text : lexer.rest = c :: rest) (blank : isBlank c = true) :
    lexer.startToken = lexer.bump.startToken := by
  have further : lexer.skipBlanks = lexer.bump.skipBlanks := by
    rw [skipBlanks, skipBlanks, bump_rest, text, List.takeWhile_cons_of_pos blank]
    rfl
  rw [startToken, startToken, further]

theorem next_bump (text : lexer.rest = c :: rest) (blank : isBlank c = true) :
    lexer.next = lexer.bump.next := by
  unfold next
  rw [startToken_bump text blank]

/-- A blank changes no answer. -/
theorem Answers.of_bump (given : lexer.bump.Answers answers) (text : lexer.rest = c :: rest)
    (blank : isBlank c = true) : lexer.Answers answers := by
  have left : lexer.bump.rest = rest := by rw [bump_rest, text, List.tail_cons]
  have same := next_bump text blank
  cases given with
  | ended others =>
      rw [left] at others
      exact .ended (by rw [text]; exact List.forall_mem_cons.mpr ⟨blank, others⟩)
  | call inside shorter onward =>
      have sameAnswer : lexer.bump.answer = lexer.answer := by rw [answer, answer, same]
      rw [sameAnswer] at inside ⊢
      rw [← same, left] at shorter
      rw [← same] at onward
      exact .call inside (by rw [text]; exact Nat.lt_succ_of_lt shorter) onward

theorem Answers.of_skip {blanks : List Char} (given : (lexer.skip blanks.length).Answers answers)
    (text : lexer.rest = blanks ++ rest) (blank : ∀ c ∈ blanks, isBlank c = true) :
    lexer.Answers answers := by
  induction blanks generalizing lexer with
  | nil => exact given
  | cons c blanks ih =>
      obtain ⟨first, others⟩ := List.forall_mem_cons.mp blank
      exact (ih given (by rw [bump_rest, text]; rfl) others).of_bump text first

end Lexer

section

variable {holds : Char → Bool} {text tail : List Char}

theorem takeWhile_append_line (stops : holds '\n' = false) (line : ∀ c ∈ tail.head?, c = '\n') :
    (text ++ tail).takeWhile holds = text.takeWhile holds := by
  have tailStops : ∀ c ∈ tail.head?, holds c = false := fun c here => line c here ▸ stops
  induction text with
  | nil => exact takeWhile_append_stop (List.forall_mem_nil _) tailStops
  | cons c rest ih => simp only [List.cons_append, List.takeWhile_cons, ih]

theorem dropWhile_append_line (stops : holds '\n' = false) (line : ∀ c ∈ tail.head?, c = '\n') :
    (text ++ tail).dropWhile holds = text.dropWhile holds ++ tail := by
  have tailStops : ∀ c ∈ tail.head?, holds c = false := fun c here => line c here ▸ stops
  induction text with
  | nil => exact dropWhile_append_stop (List.forall_mem_nil _) tailStops
  | cons c rest ih =>
      simp only [List.cons_append, List.dropWhile_cons, ih]
      split <;> rfl

end

namespace Scan

variable {first : Char} {text rest tail : List Char}

theorem endsNumber_line (line : ∀ c ∈ tail.head?, c = '\n') :
    endsNumber (text ++ tail) = endsNumber text := by
  cases text with
  | cons c rest => rfl
  | nil =>
      cases tail with
      | nil => rfl
      | cons c rest =>
          cases line c rfl
          rfl

theorem number_line (line : ∀ c ∈ tail.head?, c = '\n') : number (text ++ tail) = number text := by
  have digits (part : List Char) :
      (part ++ tail).takeWhile Char.isDigit = part.takeWhile Char.isDigit :=
    takeWhile_append_line (by decide) line
  have behind (part : List Char) :
      (part ++ tail).dropWhile Char.isDigit = part.dropWhile Char.isDigit ++ tail :=
    dropWhile_append_line (by decide) line
  simp only [number, digits, behind]
  cases text.dropWhile Char.isDigit with
  | nil =>
      cases tail with
      | nil => rfl
      | cons c rest =>
          cases line c rfl
          rfl
  | cons c rest =>
      by_cases point : c = '.'
      · subst point
        simp only [List.cons_append, digits, behind, endsNumber_line line]
      · have ends : endsNumber (c :: (rest ++ tail)) = endsNumber (c :: rest) := rfl
        simp [point, ends]

theorem operator_line (line : ∀ c ∈ tail.head?, c = '\n') :
    operator first (rest ++ tail) = operator first rest := by
  cases rest with
  | cons c rest => rfl
  | nil =>
      cases tail with
      | nil => rfl
      | cons c rest =>
          cases line c rfl
          have noPair : Mark.pair? first '\n' = none := by
            unfold Mark.pair?
            split <;> simp_all
          simp [operator, noPair]

end Scan

/-- What is read from a text does not depend on the lines behind it. -/
theorem scan_line {text tail : List Char} (inside : text ≠ [])
    (line : ∀ c ∈ tail.head?, c = '\n') : scan (text ++ tail) = scan text := by
  obtain ⟨first, rest, rfl⟩ := List.exists_cons_of_ne_nil inside
  have word : Scan.word (first :: rest ++ tail) = Scan.word (first :: rest) := by
    have stops : isWordPart '\n' = false := by decide
    simp only [Scan.word, takeWhile_append_line stops line]
  rw [List.cons_append, scan, scan, ← List.cons_append, Scan.number_line line, word,
    Scan.operator_line line]

namespace Source

variable {prior text : List Char}

/-- A place on a line, and the same place of the line alone. -/
theorem spanAfter_line (starts : columnAfter prior = 0) (onLine : '\n' ∉ text) (length : Nat) :
    spanAfter (prior ++ text) length =
      { spanAfter text length with line := lineAfter prior } := by
  have alone : columnAfter text = text.length := by
    rw [← List.nil_append text, columnAfter_append onLine]
    exact Nat.zero_add _
  rw [spanAfter, spanAfter, lineAfter_append onLine, columnAfter_append onLine, starts, alone,
    Nat.zero_add]

end Source

namespace Lexer

variable {alone whole after : Lexer} {prior front tail blanks text : List Char}
  {answers : List Answer} {token : Token} {error : LexicalError}

theorem answer_of_error (read : alone.next = (.error error, after)) :
    alone.answer = .ofError error := by
  rw [answer, read]

theorem answer_of_token (read : alone.next = (.ok token, after)) :
    alone.answer = .ofToken token := by
  rw [answer, read]

theorem Reading.answers_token {steps : List Step} {failure : Option LexicalError}
    (inside : token.kind ≠ .eof) : Reading.answers ⟨⟨token, after⟩ :: steps, failure⟩ =
      .ofToken token :: Reading.answers ⟨steps, failure⟩ := by
  simp [Reading.answers, Reading.tokens, inside]

/-- The same text ahead, with more lines behind. -/
theorem Ahead.extend (ahead : alone.Ahead blanks text) (inside : text ≠ [])
    (longer : whole.rest = alone.rest ++ tail) : whole.Ahead blanks (text ++ tail) where
  whole := by rw [longer, ahead.whole, List.append_assoc]
  blank := ahead.blank
  starts := by
    obtain ⟨c, rest, rfl⟩ := List.exists_cons_of_ne_nil inside
    exact ahead.starts

/-- One lexer stands on a line that is read alone, and one at the same place of this line in a
text. -/
structure SameLine (prior tail front : List Char) (alone whole : Lexer) : Prop where
  starts : columnAfter prior = 0
  line : ∀ c ∈ tail.head?, c = '\n'
  behind : alone.Behind front
  placed : whole.Behind (prior ++ front)
  onLine : '\n' ∉ front ++ alone.rest
  longer : whole.rest = alone.rest ++ tail

/-- The place of an answer on a line. -/
theorem SameLine.place_eq (place : SameLine prior tail front alone whole)
    (split : alone.rest = blanks ++ text) (length : Nat) :
    spanAfter (prior ++ front ++ blanks) length =
      { spanAfter (front ++ blanks) length with line := lineAfter prior } := by
  have onLine : '\n' ∉ front ++ blanks := by
    have noNewline := place.onLine
    rw [split, ← List.append_assoc] at noNewline
    exact fun member => noNewline (List.mem_append_left _ member)
  rw [List.append_assoc, spanAfter_line place.starts onLine]

/-- Both read the same token, and stand behind it. -/
theorem SameLine.next_token (place : SameLine prior tail front alone whole)
    (read : alone.next = (.ok token, after)) (inside : token.kind ≠ .eof) :
    whole.answer = (Answer.ofToken token).onLine (lineAfter prior) ∧
      ∃ passed, alone.rest = passed ++ after.rest ∧
        SameLine prior tail (front ++ passed) after whole.next.2 := by
  have ahead := alone.ahead_rest
  obtain ⟨lexeme, scanned, kind⟩ := scan_of_next read
  cases text : alone.rest.dropWhile isBlank with
  | nil =>
      rw [text] at scanned
      cases scanned
      exact (inside kind).elim
  | cons first others =>
      rw [text] at ahead scanned
      have longer := ahead.extend nofun place.longer
      have wholeScanned : scan (first :: others ++ tail) = .ok lexeme := by
        rw [scan_line (List.cons_ne_nil first others) place.line, scanned]
      obtain ⟨spelling, rest, split, length, lexical, -⟩ := scan_startsWith scanned
      rw [split] at ahead scanned longer wholeScanned
      rw [List.append_assoc] at longer wholeScanned
      obtain ⟨kind, _⟩ := lexeme
      subst length
      obtain ⟨_, found, left, stands⟩ :=
        next_lexeme place.behind ahead scanned lexical.form.on_line
      rw [read] at found
      cases found
      obtain ⟨wholeAfter, wholeFound, wholeLeft, wholeStands⟩ :=
        next_lexeme place.placed longer wholeScanned lexical.form.on_line
      have passed : alone.rest = (alone.rest.takeWhile isBlank ++ spelling) ++ after.rest := by
        rw [List.append_assoc, left]
        exact ahead.whole
      rw [answer_of_token wholeFound, wholeFound, place.place_eq ahead.whole]
      refine ⟨rfl, _, passed, place.starts, place.line, ?_, ?_, ?_, ?_⟩
      · rwa [← List.append_assoc]
      · rwa [← List.append_assoc, ← List.append_assoc]
      · rw [List.append_assoc, ← passed]
        exact place.onLine
      · rw [wholeLeft, left]

/-- Both meet the same fault, and the text goes on behind the line. -/
theorem SameLine.next_error (place : SameLine prior tail front alone whole)
    (read : alone.next = (.error error, after)) :
    whole.answer = (Answer.ofError error).onLine (lineAfter prior) ∧ alone.rest ≠ [] ∧
      whole.next.2.rest = tail ∧ whole.next.2.Behind (prior ++ (front ++ alone.rest)) := by
  have ahead := alone.ahead_rest
  obtain ⟨misfit, scanned⟩ : ∃ misfit, scan (alone.rest.dropWhile isBlank) = .error misfit := by
    cases scanned : scan (alone.rest.dropWhile isBlank) with
    | error misfit => exact ⟨misfit, rfl⟩
    | ok lexeme =>
        rw [next_of_scan scanned] at read
        cases read
  have inside : alone.rest.dropWhile isBlank ≠ [] := by
    intro nothing
    rw [nothing] at scanned
    cases scanned
  obtain ⟨_, _, found, fault, span, -⟩ := next_misfit place.behind ahead scanned
  rw [read] at found
  cases found
  have longer := ahead.extend inside place.longer
  rw [← scan_line inside place.line] at scanned
  obtain ⟨_, _, wholeFound, wholeFault, wholeSpan, left, stands⟩ :=
    next_misfit place.placed longer scanned
  have lineChars : ∀ c ∈ alone.rest.dropWhile isBlank, (c != '\n') = true := by
    intro c member
    refine bne_iff_ne.mpr fun newline => place.onLine (List.mem_append_right _ ?_)
    exact newline ▸ (List.dropWhile_suffix isBlank).subset member
  have tailStops : ∀ c ∈ tail.head?, (c != '\n') = false := by
    intro c here
    rw [place.line c here]
    rfl
  rw [dropWhile_append_stop lineChars tailStops] at left
  rw [takeWhile_append_stop lineChars tailStops, List.append_assoc, List.append_assoc,
    ← ahead.whole] at stands
  have answered : whole.answer = (Answer.ofError error).onLine (lineAfter prior) := by
    rw [answer_of_error wholeFound, Answer.ofError, Answer.ofError, wholeFault, wholeSpan, fault,
      span, place.place_eq ahead.whole]
    rfl
  refine ⟨answered, ?_, ?_, ?_⟩
  · intro nothing
    rw [nothing] at inside
    exact inside rfl
  · rw [wholeFound, left]
  · rwa [wholeFound]

/-- A lexer on a line of a text answers as one on this line alone, up to the first fault, and then
as one behind the line. -/
theorem answers_line (alone : Lexer) : ∀ (front : List Char) (whole : Lexer),
    SameLine prior tail front alone whole →
    (∀ after : Lexer, after.Behind (prior ++ (front ++ alone.rest)) → after.rest = tail →
      after.Answers answers) →
    whole.Answers (alone.run.answers.map (·.onLine (lineAfter prior)) ++ answers) := by
  fun_induction Lexer.run alone with
  | case1 alone error after read =>
      intro front whole place onward
      obtain ⟨same, inside, left, stands⟩ := place.next_error read
      have single : Reading.answers ⟨[], some error⟩ = [.ofError error] := rfl
      rw [single, List.map_singleton, List.singleton_append, ← same]
      refine .call ?_ ?_ (onward _ stands left)
      · rw [same]
        simp [Answer.onLine, Answer.ofError]
      · rw [left, place.longer, List.length_append]
        exact Nat.lt_add_of_pos_left (List.length_pos_of_ne_nil inside)
  | case2 alone token after read ended =>
      intro front whole place onward
      rcases next_reads place.behind read with ⟨allBlank, -⟩ | ⟨inside, -⟩
      · have passed := onward _ (by rw [← List.append_assoc]; exact place.placed.skip place.longer)
          (by rw [skip_rest, place.longer, List.drop_left])
        have nothing : Reading.answers ⟨[⟨token, after⟩], none⟩ = [] := by
          simp [Reading.answers, Reading.tokens, ended]
        rw [nothing]
        exact passed.of_skip place.longer allBlank
      · contradiction
  | case3 alone token after read inside reading ih =>
      intro front whole place onward
      obtain ⟨same, passed, text, next⟩ := place.next_token read inside
      have more := ih _ _ next (by rwa [List.append_assoc, ← text])
      rw [Reading.answers_token inside, List.map_cons, List.cons_append, ← same]
      refine .call ?_ ?_ more
      · rw [same]
        exact fun ended => inside (Except.ok.inj ended)
      · have shorter := next_rest_length read inside
        rw [place.longer, next.longer, List.length_append, List.length_append]
        exact Nat.add_lt_add_right shorter _

theorem lineAnswers_cons (filename : String) (number : Nat) (line : List Char)
    (lines : List (List Char)) : lineAnswers filename number (line :: lines) =
      (ofText filename (String.ofList line)).run.answers.map (·.onLine number) ++
        lineAnswers filename (number + 1) lines := by
  rw [lineAnswers, List.zipIdx_cons, List.flatMap_cons]
  rfl

/-- A lexer at the start of a line answers line by line. -/
theorem answers_lines (filename : String) (whole : Lexer) (prior : List Char)
    (starts : columnAfter prior = 0) (behind : whole.Behind prior) :
    whole.Answers (lineAnswers filename (lineAfter prior) (whole.rest.splitOn '\n')) := by
  have chars (line : List Char) : (ofText filename (String.ofList line)).rest = line :=
    String.toList_ofList
  have sameLine {line tail : List Char} (onLine : '\n' ∉ line) (text : whole.rest = line ++ tail)
      (ends : ∀ c ∈ tail.head?, c = '\n') :
      SameLine prior tail [] (ofText filename (String.ofList line)) whole :=
    ⟨starts, ends, behind_ofText filename _, by rwa [List.append_nil],
      by rwa [List.nil_append, chars], by rw [text, chars]⟩
  by_cases more : '\n' ∈ whole.rest
  · obtain ⟨line, rest, text, onLine⟩ := List.eq_append_cons_of_mem more
    rw [text, List.splitOn_append_cons_self, List.splitOn_eq_singleton onLine,
      List.singleton_append, lineAnswers_cons]
    have place := sameLine onLine text fun c here => (Option.some.inj here).symm
    refine answers_line _ _ _ place fun after stands left => ?_
    rw [List.nil_append, chars] at stands
    have next := stands.bump left
    have rest_eq : after.bump.rest = rest := by rw [bump_rest, left, List.tail_cons]
    have nextStarts : columnAfter (prior ++ line ++ ['\n']) = 0 := by
      rw [columnAfter_concat, if_pos rfl]
    have further := answers_lines filename after.bump _ nextStarts next
    rw [rest_eq, lineAfter_concat, if_pos rfl, lineAfter_append onLine] at further
    exact further.of_bump left (by decide)
  · rw [List.splitOn_eq_singleton more, lineAnswers_cons]
    have place := sameLine more (List.append_nil _).symm nofun
    exact answers_line _ _ _ place fun after _ left => .ended (by rw [left]; nofun)
termination_by whole.rest.length
decreasing_by
  rw [rest_eq, text, List.length_append, List.length_cons]
  omega

end Lexer

open Lexer in
/-- The calls of a lexer answer line by line what each line of the text does alone, up to its first
fault and at its own number. Every such call takes characters from the text, and the calls after
them answer its end. -/
theorem calls_line_by_line (filename source : String) : ∃ count,
    (List.range count).map (fun call => ((ofText filename source).calls call).answer) =
      lineAnswers filename 1 (source.toList.splitOn '\n') ∧
    (∀ call < count, ((ofText filename source).calls call).answer.found ≠ .ok .eof ∧
      ((ofText filename source).calls (call + 1)).rest.length <
        ((ofText filename source).calls call).rest.length) ∧
    ∀ call, count ≤ call → ((ofText filename source).calls call).answer.found = .ok .eof :=
  ⟨_, (answers_lines filename _ [] rfl (behind_ofText filename source)).calls⟩

set_option maxRecDepth 2048 in
/-- The rest of a line behind a fault is not read. -/
example : (Lexer.lineAnswers "faults" 1 ("x @ y\n\n12a\n;".toList.splitOn '\n')).map
    (fun answer => (answer.found.toOption, answer.span)) =
      [(some (.ident "x"), ⟨1, 0, 1⟩), (none, ⟨1, 2, 1⟩), (none, ⟨3, 0, 3⟩),
        (some (.mark .semicolon), ⟨4, 0, 1⟩)] := by
  cbv

end ThreeAddress

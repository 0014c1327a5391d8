import ThreeAddress.Proofs.Lexing.Lines

namespace ThreeAddress

open Text Source

/-!
# The lines that are kept

A lexer keeps the lines that it has passed, and of the line it stands on what it has met
so far: the characters up to its lookahead. So once it stands at the end of a line, what
it has kept are the lines of the text up to there. Carriage returns are left out, wherever
they stand.
-/

namespace Source

variable {text before line : List Char} {done : List (List Char)} {front : List Char}

/-- A line as it is shown. -/
def shown (line : List Char) : String :=
  String.ofList (line.filter (· ≠ '\r'))

theorem shown_eq (onLine : '\n' ∉ line) :
    String.ofList (line.filter Tracker.isShown) = shown line := by
  have same : line.filter Tracker.isShown = line.filter (· ≠ '\r') := by
    refine List.filter_congr fun c member => ?_
    have noNewline : c ≠ '\n' := fun newline => onLine (newline ▸ member)
    rw [Bool.eq_iff_iff]
    simp [Tracker.isShown, noNewline]
  rw [same, shown]

theorem length_splitOn (text : List Char) : (text.splitOn '\n').length = lineAfter text := by
  induction text with
  | nil => rfl
  | cons c rest ih =>
      rw [List.splitOn_cons_eq_if_modifyHead, lineAfter, List.count_cons]
      rw [lineAfter] at ih
      split <;> simp [ih]

/-- The characters behind these are on a line of their own. -/
def StartsLine (earlier : List Char) : Prop :=
  ∀ c ∈ earlier.getLast?, c = '\n'

/-- Every place is on some line. -/
theorem exists_startsLine (text : List Char) :
    ∃ earlier front, text = earlier ++ front ∧ StartsLine earlier ∧ '\n' ∉ front := by
  induction text using List.reverseRecOn with
  | nil => exact ⟨[], [], rfl, nofun, List.not_mem_nil⟩
  | append_singleton text c ih =>
      by_cases newline : c = '\n'
      · subst newline
        exact ⟨text ++ ['\n'], [], (List.append_nil _).symm, by simp [StartsLine],
          List.not_mem_nil⟩
      · obtain ⟨earlier, front, rfl, starts, onLine⟩ := ih
        exact ⟨earlier, front ++ [c], List.append_assoc .., starts, by
          simpa using ⟨onLine, Ne.symm newline⟩⟩

/-- The rest of a line. -/
theorem takeWhile_onLine (rest : List Char) : '\n' ∉ rest.takeWhile (· != '\n') := by
  intro member
  simpa using List.mem_takeWhile_imp member

theorem dropWhile_ends (rest : List Char) :
    ∀ c ∈ (rest.dropWhile (· != '\n')).head?, c = '\n' := by
  intro c here
  simpa using dropWhile_stops (· != '\n') rest c here

/-- What goes on a line adds to the last of the lines. -/
theorem StartsLine.splitOn {earlier : List Char} (starts : StartsLine earlier) :
    ∃ done, ∀ front, '\n' ∉ front → (earlier ++ front).splitOn '\n' = done ++ [front] := by
  rcases List.eq_nil_or_concat earlier with rfl | ⟨prior, c, rfl⟩
  · exact ⟨[], fun front onLine => List.splitOn_eq_singleton onLine⟩
  · obtain rfl : c = '\n' := starts c (by simp)
    refine ⟨prior.splitOn '\n', fun front onLine => ?_⟩
    rw [List.concat_eq_append, List.append_assoc, List.singleton_append,
      List.splitOn_append_cons_self, List.splitOn_eq_singleton onLine]

theorem splitOn_append_line (lines : before.splitOn '\n' = done ++ [front])
    (onLine : '\n' ∉ text) : (before ++ text).splitOn '\n' = done ++ [front ++ text] := by
  obtain ⟨earlier, last, rfl, starts, lastLine⟩ := exists_startsLine before
  obtain ⟨prior, each⟩ := starts.splitOn
  obtain ⟨rfl, same⟩ := List.append_inj' ((each last lastLine).symm.trans lines) rfl
  obtain rfl := (List.cons.inj same).1
  rw [List.append_assoc, each]
  simpa using ⟨lastLine, onLine⟩

theorem lineAfter_le (before text : List Char) : lineAfter before ≤ lineAfter (before ++ text) := by
  rw [lineAfter, lineAfter, List.count_append]
  omega

/-- The lines of a text up to a place at the end of one. -/
theorem take_splitOn {behind : List Char} (ends : ∀ c ∈ behind.head?, c = '\n') :
    ((before ++ behind).splitOn '\n').take (lineAfter before) = before.splitOn '\n' := by
  rw [← length_splitOn]
  cases behind with
  | nil => rw [List.append_nil, List.take_length]
  | cons c rest =>
      obtain rfl := ends c rfl
      rw [List.splitOn_append_cons_self, List.take_left]

/-- The excerpt shows this many lines of a text, all complete, and its own line is one of them. -/
structure Excerpt.Shows (text : List Char) (count : Nat) (excerpt : Excerpt) : Prop where
  lines : excerpt.lines = ((text.splitOn '\n').take count).map shown
  length : excerpt.lines.length = count
  first : 1 ≤ excerpt.line
  last : excerpt.line ≤ count
  lineText : excerpt.lines[excerpt.line - 1]? = some excerpt.lineText

/-- The line of an excerpt is the last one that it shows. -/
theorem Excerpt.Shows.last_line {excerpt : Excerpt} {earlier later : List Char}
    (complete : excerpt.Shows (earlier ++ line ++ later) excerpt.line)
    (atLine : excerpt.line = lineAfter earlier) (starts : StartsLine earlier)
    (onLine : '\n' ∉ line) (ends : ∀ c ∈ later.head?, c = '\n') :
    excerpt.lineText = shown line := by
  obtain ⟨done, each⟩ := starts.splitOn
  have whole : (earlier ++ line).splitOn '\n' = done ++ [line] := each line onLine
  have count : excerpt.line = done.length + 1 := by
    rw [atLine, ← lineAfter_append onLine, ← length_splitOn, whole, List.length_append,
      List.length_singleton]
  have text := complete.lineText
  rw [complete.lines, atLine, ← lineAfter_append onLine, take_splitOn ends, whole,
    lineAfter_append onLine, ← atLine, count] at text
  simpa using text.symm

end Source

namespace Source.Tracker

variable {tracker : Tracker} {before : List Char} {c : Char} {next : Option Char}

/-- The lines before a place are kept, the last one with the lookahead if that is shown. -/
def Records (before : List Char) (lookahead : Option Char) (tracker : Tracker) : Prop :=
  ∃ done front, before.splitOn '\n' = done ++ [front] ∧ '\n' ∉ front ∧
    tracker.finished.reverse = done.map shown ∧
    tracker.current.reverse = (front ++ lookahead.toList).filter isShown

theorem meet_current (tracker : Tracker) (next : Option Char) :
    (tracker.meet next).current.reverse = tracker.current.reverse ++ next.toList.filter isShown ∧
      (tracker.meet next).finished = tracker.finished := by
  cases next with
  | none => simp [meet]
  | some c =>
      rw [meet]
      split <;> simp_all

theorem Records.advance (records : tracker.Records before (some c)) :
    (tracker.advance (some c) next).Records (before ++ [c]) next := by
  obtain ⟨done, front, lines, onLine, finished, current⟩ := records
  obtain ⟨met, same⟩ := meet_current (tracker.leave (some c)) next
  by_cases newline : c = '\n'
  · -- The newline was the lookahead, so that nothing of the next line has been met before.
    subst newline
    refine ⟨done ++ [front], [], ?_, List.not_mem_nil, ?_, ?_⟩
    · rw [List.splitOn_append_cons_self, lines]
      rfl
    · rw [Tracker.advance, same, leave, if_pos rfl]
      simp [finished, current, ← shown_eq onLine, isShown]
    · rw [Tracker.advance, met, leave, if_pos rfl]
      rfl
  · refine ⟨done, front ++ [c], splitOn_append_line lines ?_, ?_, ?_, ?_⟩
    · simpa using Ne.symm newline
    · simpa using ⟨onLine, Ne.symm newline⟩
    · rw [Tracker.advance, same, leave, if_neg newline]
      exact finished
    · rw [Tracker.advance, met, leave, if_neg newline, List.filter_append]
      exact congrArg (· ++ _) current

/-- At the end of a line, every line up to there is complete. -/
theorem Records.lines (records : tracker.Records before next) (ends : ∀ c ∈ next, c = '\n') :
    tracker.lines = (before.splitOn '\n').map shown := by
  obtain ⟨done, front, lines, onLine, finished, current⟩ := records
  have nothing : next.toList.filter isShown = [] := by
    cases next with
    | none => rfl
    | some c =>
        obtain rfl := ends c rfl
        rfl
  rw [Tracker.lines, finished, current, List.filter_append, nothing, List.append_nil,
    shown_eq onLine, lines, List.map_append]
  rfl

end Source.Tracker

namespace Lexer

variable {lexer : Lexer} {text before rest : List Char} {c : Char}

/-- The lexer stands behind these characters of a text, and has kept the lines up to there. -/
structure Stands (text before : List Char) (lexer : Lexer) : Prop where
  whole : text = before ++ lexer.rest
  behind : lexer.Behind before
  records : lexer.tracker.Records before lexer.rest.head?

theorem stands_ofText (filename source : String) :
    (ofText filename source).Stands source.toList [] := by
  obtain ⟨met, same⟩ := Tracker.meet_current {} source.toList.head?
  exact ⟨rfl, behind_ofText filename source,
    [], [], List.splitOn_nil _, List.not_mem_nil, congrArg List.reverse same, met⟩

theorem Stands.bump (stands : lexer.Stands text before) (here : lexer.rest = c :: rest) :
    lexer.bump.Stands text (before ++ [c]) := by
  have left : lexer.bump.rest = rest := by rw [bump_rest, here, List.tail_cons]
  obtain ⟨whole, behind, records⟩ := stands
  rw [here] at whole records
  refine ⟨?_, behind.bump here, ?_⟩
  · rw [whole, left, List.append_assoc, List.singleton_append]
  · rw [left, bump_cons here]
    exact records.advance

theorem Stands.skip (stands : lexer.Stands text before) (count : Nat) :
    (lexer.skip count).Stands text (before ++ lexer.rest.take count) := by
  induction count generalizing lexer before with
  | zero => simpa [Lexer.skip] using stands
  | succ count ih =>
      cases here : lexer.rest with
      | nil =>
          -- At the end of the text a lexer stays where it is.
          have stays : lexer.bump = lexer := by rw [Lexer.bump, here]
          rw [Lexer.skip, stays]
          simpa [here] using ih stands
      | cons c rest =>
          have onward := ih (stands.bump here)
          rwa [bump_rest, here, List.tail_cons, List.append_assoc, List.singleton_append] at onward

theorem Stands.skip_while (stands : lexer.Stands text before) (holds : Char → Bool) :
    (lexer.skip (lexer.rest.takeWhile holds).length).Stands text
      (before ++ lexer.rest.takeWhile holds) := by
  have skipped := stands.skip (lexer.rest.takeWhile holds).length
  rwa [← List.prefix_iff_eq_take.mp (List.takeWhile_prefix holds)] at skipped

theorem Stands.startToken (stands : lexer.Stands text before) :
    lexer.startToken.Stands text (before ++ lexer.rest.takeWhile isBlank) := by
  obtain ⟨whole, behind, records⟩ := stands.skip_while isBlank
  exact ⟨whole, ⟨behind.line, behind.column⟩, records⟩

theorem Stands.finishLine (stands : lexer.Stands text before) :
    lexer.finishLine.Stands text (before ++ lexer.rest.takeWhile (· != '\n')) :=
  stands.skip_while (· != '\n')

/-- A call goes on in the text, whatever it answers. -/
theorem Stands.next (stands : lexer.Stands text before) :
    ∃ passed, lexer.next.2.Stands text (before ++ passed) := by
  have started := stands.startToken
  cases scanned : scan lexer.startToken.rest with
  | ok lexeme =>
      have skipped := started.skip lexeme.length
      rw [List.append_assoc] at skipped
      obtain ⟨whole, behind, records⟩ := skipped
      simp only [Lexer.next, scanned]
      exact ⟨_, whole, ⟨behind.line, behind.column⟩, records⟩
  | error misfit =>
      have finished := started.finishLine
      rw [List.append_assoc] at finished
      rw [next_of_misfit scanned]
      exact ⟨_, finished⟩

/-- The lexers that a text is read with: a new one, and those that calls on it leave. -/
inductive Reached (filename source : String) : Lexer → Prop
  | start : Reached filename source (ofText filename source)
  | next {place : Lexer} : Reached filename source place → Reached filename source place.next.2
  | excerpt {place : Lexer} :
      Reached filename source place → Reached filename source place.excerpt.2
  | missing {place : Lexer} : Reached filename source place →
      Reached filename source { place with missingSemicolon := true }

theorem Reached.stands {filename source : String} (reached : Reached filename source lexer) :
    ∃ before, lexer.Stands source.toList before := by
  induction reached with
  | start => exact ⟨[], stands_ofText filename source⟩
  | next _ ih =>
      obtain ⟨before, stands⟩ := ih
      obtain ⟨passed, onward⟩ := stands.next
      exact ⟨before ++ passed, onward⟩
  | excerpt _ ih =>
      obtain ⟨before, stands⟩ := ih
      exact ⟨_, stands.finishLine⟩
  | missing _ ih =>
      obtain ⟨before, whole, behind, records⟩ := ih
      exact ⟨before, whole, ⟨behind.line, behind.column⟩, records⟩

theorem finishLine_rest (lexer : Lexer) :
    lexer.finishLine.rest = lexer.rest.dropWhile (· != '\n') := by
  have whole := List.takeWhile_append_dropWhile (p := (· != '\n')) (l := lexer.rest)
  rw [finishLine, skip_rest]
  nth_rewrite 2 [← whole]
  exact List.drop_left

/-- An excerpt for a place that has been passed shows the lines of the text up to the one that the
lexer stands on. -/
theorem Stands.excerpt_shows (stands : lexer.Stands text before) {span : Span}
    (first : 1 ≤ span.line) (last : span.line ≤ lineAfter before) :
    (lexer.excerptAt span).1.Shows text (lineAfter before) := by
  have onLine := takeWhile_onLine lexer.rest
  have ends := dropWhile_ends lexer.rest
  rw [← finishLine_rest] at ends
  obtain ⟨whole, -, records⟩ := stands.finishLine
  have lines : lexer.finishLine.tracker.lines =
      ((text.splitOn '\n').take (lineAfter before)).map shown :=
    calc lexer.finishLine.tracker.lines
        = ((before ++ lexer.rest.takeWhile (· != '\n')).splitOn '\n').map shown :=
          records.lines ends
      _ = ((text.splitOn '\n').take (lineAfter before)).map shown := by
          rw [whole, ← lineAfter_append onLine, take_splitOn ends]
  have length : lexer.finishLine.tracker.lines.length = lineAfter before := by
    rw [lines, List.length_map, List.length_take, length_splitOn, stands.whole]
    exact Nat.min_eq_left (lineAfter_le before lexer.rest)
  have inside : span.line - 1 < lexer.finishLine.tracker.lines.length := by omega
  refine ⟨lines, length, first, last, ?_⟩
  simp only [excerptAt, Tracker.excerpt, List.getElem?_eq_getElem inside, Option.getD_some]

/-- A call that fails shows the lines up to the one where it has met a misfit. -/
theorem Stands.next_error (stands : lexer.Stands text before) {error : LexicalError}
    {after : Lexer} (failed : lexer.next = (.error error, after)) :
    ∃ misfit, scan (lexer.rest.dropWhile isBlank) = .error misfit ∧
      error.fault = misfit.fault ∧
      error.span = spanAfter (before ++ lexer.rest.takeWhile isBlank) misfit.length ∧
      error.excerpt.Shows text error.excerpt.line := by
  have started := stands.startToken
  obtain ⟨-, -, tokenStart⟩ := stands.behind.startToken lexer.ahead_rest
  cases scanned : scan lexer.startToken.rest with
  | ok lexeme =>
      rw [startToken_rest_eq] at scanned
      rw [next_of_scan scanned] at failed
      cases failed
  | error misfit =>
      rw [next_of_misfit scanned, tokenStart] at failed
      cases failed
      exact ⟨misfit, startToken_rest_eq ▸ scanned, rfl, rfl,
        started.excerpt_shows (Nat.le_add_left 1 _) (Nat.le_refl _)⟩

end Lexer

end ThreeAddress

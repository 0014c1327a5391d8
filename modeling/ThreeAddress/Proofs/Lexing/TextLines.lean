import ThreeAddress.Proofs.Lexing.Carets
import ThreeAddress.Proofs.Lexing.Written
import ThreeAddress.Proofs.Listing

namespace ThreeAddress

open Source

namespace Text

variable {earlier front spelling : List Char}

/-- Behind a newline, the lines go on afresh. -/
theorem linesFrom_append (passed prior rest : List Char) :
    linesFrom passed (prior ++ '\n' :: rest) =
      linesFrom passed (prior ++ ['\n']) ++ linesFrom [] rest := by
  induction prior generalizing passed with
  | nil => simp [linesFrom]
  | cons c prior ih =>
      simp only [List.cons_append, linesFrom]
      split
      · rw [ih, List.cons_append]
      · exact ih _

theorem length_linesFrom (passed prior : List Char) :
    (linesFrom passed (prior ++ ['\n'])).length = lineAfter prior := by
  induction prior generalizing passed with
  | nil => rfl
  | cons c prior ih =>
      rw [List.cons_append, linesFrom, lineAfter, List.count_cons]
      rw [lineAfter] at ih
      split <;> simp [*]

/-- As many lines are before a line as its number says. -/
theorem linesFrom_of_startsLine (starts : StartsLine earlier) :
    ∃ done : List String, done.length + 1 = lineAfter earlier ∧
      ∀ rest, linesFrom [] (earlier ++ rest) = done ++ linesFrom [] rest := by
  rcases List.eq_nil_or_concat earlier with rfl | ⟨prior, c, rfl⟩
  · exact ⟨[], rfl, fun rest => rfl⟩
  · obtain rfl : c = '\n' := starts c (by simp)
    refine ⟨linesFrom [] (prior ++ ['\n']), ?_, fun rest => ?_⟩
    · rw [length_linesFrom, List.concat_eq_append, lineAfter_concat, if_pos rfl]
    · rw [List.concat_eq_append, List.append_assoc, List.singleton_append, linesFrom_append]

theorem linesFrom_last (passed : List Char) {line : List Char} (onLine : '\n' ∉ line)
    (nonempty : passed.reverse ++ line ≠ []) :
    linesFrom passed line = [String.ofList (passed.reverse ++ line)] := by
  induction line generalizing passed with
  | nil =>
      rw [List.append_nil] at nonempty ⊢
      rw [linesFrom, if_neg (by simpa using nonempty)]
  | cons c line ih =>
      rw [List.mem_cons, not_or] at onLine
      rw [linesFrom, if_neg (Ne.symm onLine.1), ih _ onLine.2 (by simp), List.reverse_cons,
        List.append_assoc, List.singleton_append]

/-- A carriage return is dropped only where it is the very last character. -/
theorem prefix_dropReturn (front tail : List Char) (noReturn : '\r' ∉ spelling)
    (nonempty : spelling ≠ []) :
    front ++ spelling <+: (dropReturn (front ++ spelling ++ tail).reverse).reverse := by
  have kept {line : List Char} {c : Char} (other : c ≠ '\r') :
      (dropReturn (line ++ [c]).reverse).reverse = line ++ [c] := by
    rw [List.reverse_concat, dropReturn]
    · simp
    · simp [other]
  rcases List.eq_nil_or_concat tail with rfl | ⟨tail, c, rfl⟩
  · obtain ⟨start, last, rfl⟩ := List.eq_nil_or_concat spelling |>.resolve_left nonempty
    rw [List.concat_eq_append] at noReturn ⊢
    have other : last ≠ '\r' := by
      rintro rfl
      exact noReturn (by simp)
    rw [List.append_nil, ← List.append_assoc, kept other]
  · rw [List.concat_eq_append, ← List.append_assoc]
    by_cases isReturn : c = '\r'
    · subst isReturn
      rw [List.reverse_concat, dropReturn, List.reverse_reverse]
      exact List.prefix_append _ _
    · rw [kept isReturn, List.append_assoc]
      exact List.prefix_append _ _

/-- A line that holds some text without a carriage return starts with all up to its end. -/
theorem linesFrom_first (onLine : '\n' ∉ front ++ spelling) (noReturn : '\r' ∉ spelling)
    (nonempty : spelling ≠ []) (tail : List Char) :
    ∃ text more, linesFrom [] (front ++ spelling ++ tail) = text :: more ∧
      front ++ spelling <+: text.toList := by
  have restOnLine : '\n' ∉ front ++ spelling ++ tail.takeWhile (· != '\n') := by
    rw [List.mem_append, not_or]
    exact ⟨onLine, takeWhile_onLine tail⟩
  have whole : tail.takeWhile (· != '\n') ++ tail.dropWhile (· != '\n') = tail :=
    List.takeWhile_append_dropWhile
  have ends := dropWhile_ends tail
  rw [← whole, ← List.append_assoc]
  cases later : tail.dropWhile (· != '\n') with
  | nil =>
      rw [List.append_nil, linesFrom_last [] restOnLine (by simp [nonempty])]
      refine ⟨_, [], rfl, ?_⟩
      rw [String.toList_ofList, List.reverse_nil, List.nil_append]
      exact List.prefix_append _ _
  | cons c more =>
      rw [later] at ends
      obtain rfl := ends c rfl
      rw [linesFrom_line [] more restOnLine, List.append_nil]
      refine ⟨_, _, rfl, ?_⟩
      rw [String.toList_ofList]
      exact prefix_dropReturn front _ noReturn nonempty

/-- What stands behind some characters of a text is found on the line that a lexer counts. -/
theorem lines_at {source : String} {before behind : List Char}
    (text : source.toList = before ++ spelling ++ behind) (onLine : '\n' ∉ spelling)
    (noReturn : '\r' ∉ spelling) (nonempty : spelling ≠ []) :
    ∃ line, (lines source)[lineAfter before - 1]? = some line ∧
      spelling <+: line.toList.drop (columnAfter before) := by
  obtain ⟨earlier, front, rfl, starts, frontLine⟩ := exists_startsLine before
  obtain ⟨done, count, each⟩ := linesFrom_of_startsLine starts
  have together : '\n' ∉ front ++ spelling := by
    rw [List.mem_append, not_or]
    exact ⟨frontLine, onLine⟩
  obtain ⟨line, more, first, shows⟩ := linesFrom_first together noReturn nonempty behind
  refine ⟨line, ?_, ?_⟩
  · rw [lines, text, List.append_assoc, List.append_assoc, each, ← List.append_assoc, first,
      lineAfter_append frontLine, ← count]
    simp
  · obtain ⟨rest, same⟩ := shows
    rw [columnAfter_append frontLine, starts.column, Nat.zero_add, ← same, List.append_assoc,
      List.drop_left]
    exact List.prefix_append _ _

end Text

open Text

/-- A lexeme has no blank, at its start or inside. -/
theorem HasForm.no_blank {spelling : List Char} (form : HasForm spelling) :
    ∀ c ∈ spelling, isBlank c = false := by
  have digits {text : List Char} (digit : ∀ c ∈ text, c.isDigit = true) :
      ∀ c ∈ text, isBlank c = false :=
    fun c member => isBlank_of_isDigit (digit c member)
  have part {c : Char} (wordPart : isWordPart c = true) : isBlank c = false := by
    by_contra blank
    rw [isWordPart_of_isBlank (Bool.eq_true_of_not_eq_false blank)] at wordPart
    cases wordPart
  cases form with
  | int _ digit => exact digits digit
  | real _ whole fraction =>
      exact List.forall_mem_append.mpr
        ⟨digits whole, List.forall_mem_cons.mpr ⟨by decide, digits fraction⟩⟩
  | word letter parts =>
      exact List.forall_mem_cons.mpr
        ⟨part (isWordPart_of_isLetter letter), fun c member => part (parts c member)⟩
  | @mark sign =>
      have marks : sign.text.toList.all (fun c => !isBlank c) = true := by cases sign <;> rfl
      simpa using marks

end ThreeAddress

import Mathlib.Data.List.Sigma
import ThreeAddress.Proofs.Lexing.Misfits
import ThreeAddress.Proofs.Lexing.Shown

namespace ThreeAddress

open Text Source

namespace Source

variable {line front offending behind earlier : List Char}

/-- The characters of a line that are shown, each with its column in the source. -/
def shownPlaces (line : List Char) : List (Char × Nat) :=
  line.zipIdx.filter fun place => place.1 ≠ '\r'

/-- What is above the carets of an excerpt from this line. -/
def Excerpt.underlined (excerpt : Excerpt) (line : List Char) : List (Char × Nat) :=
  ((shownPlaces line).drop excerpt.column).take excerpt.length

theorem shownPlaces_chars (line : List Char) :
    (shownPlaces line).map Prod.fst = (shown line).toList := by
  have chars : line.zipIdx.map Prod.fst = line := List.zipIdx_map_fst 0 line
  rw [shown, String.toList_ofList, shownPlaces]
  nth_rewrite 2 [← chars]
  rw [List.filter_map]
  rfl

theorem underlined_chars {excerpt : Excerpt} (lineText : excerpt.lineText = shown line) :
    (excerpt.underlined line).map Prod.fst =
      (excerpt.lineText.toList.drop excerpt.column).take excerpt.length := by
  rw [Excerpt.underlined, List.map_take, List.map_drop, shownPlaces_chars, lineText]

theorem shownPlaces_nodup (line : List Char) : (shownPlaces line).Nodup :=
  (List.nodup_zipIdx_map_snd line).of_map.filter _

/-- Characters without a carriage return are shown as they stand, behind those of the characters
before them that are none. -/
theorem shownPlaces_append (front behind : List Char) (unbroken : '\r' ∉ offending) :
    ∃ before after, shownPlaces (front ++ offending ++ behind) =
        before ++ offending.zipIdx front.length ++ after ∧
      before.length = (front.filter (· ≠ '\r')).length := by
  have kept : (offending.zipIdx front.length).filter (fun place => place.1 ≠ '\r') =
      offending.zipIdx front.length := by
    refine List.filter_eq_self.mpr fun place member => decide_eq_true fun isReturn => ?_
    exact unbroken (isReturn ▸ List.fst_mem_of_mem_zipIdx member)
  have sameLength := congrArg List.length (shownPlaces_chars front)
  rw [List.length_map, shown, String.toList_ofList] at sameLength
  refine ⟨shownPlaces front, (behind.zipIdx (front ++ offending).length).filter
    (fun place => place.1 ≠ '\r'), ?_, sameLength⟩
  rw [shownPlaces, List.zipIdx_append, List.zipIdx_append, List.filter_append, List.filter_append,
    Nat.zero_add, Nat.zero_add, kept]
  rfl

/-- The carets are under some characters without a carriage return just if there is none before
them on their line. -/
theorem underlined_eq_iff {excerpt : Excerpt} (behind : List Char)
    (column : excerpt.column = front.length) (length : excerpt.length = offending.length)
    (nonempty : offending ≠ []) (unbroken : '\r' ∉ offending) :
    excerpt.underlined (front ++ offending ++ behind) = offending.zipIdx front.length ↔
      '\r' ∉ front := by
  obtain ⟨before, after, places, beforeLength⟩ := shownPlaces_append front behind unbroken
  have placesLength : (offending.zipIdx front.length).length = offending.length :=
    List.length_zipIdx
  have aligned : before.length = front.length ↔ '\r' ∉ front := by
    rw [beforeLength, List.length_filter_eq_length_iff]
    simp only [decide_eq_true_eq]
    exact ⟨fun each member => each _ member rfl, fun absent c member isReturn =>
      absent (isReturn ▸ member)⟩
  rw [Excerpt.underlined, column, length, ← aligned]
  constructor
  · intro same
    obtain ⟨c, more, rfl⟩ := List.exists_cons_of_ne_nil nonempty
    rw [List.zipIdx_cons] at same placesLength places
    -- The place of the first one is shown only once.
    have nodup := shownPlaces_nodup (front ++ c :: more ++ behind)
    have first : (shownPlaces (front ++ c :: more ++ behind))[before.length]? =
        some (c, front.length) := by
      rw [places]
      simp
    have under : (shownPlaces (front ++ c :: more ++ behind))[front.length]? =
        some (c, front.length) := by
      have head := congrArg List.head? same
      simpa [List.head?_take, List.head?_drop] using head
    have inside : before.length < (shownPlaces (front ++ c :: more ++ behind)).length :=
      (List.getElem?_eq_some_iff.mp first).1
    exact (List.getElem?_inj inside nodup).mp (first.trans under.symm)
  · intro same
    rw [places, List.append_assoc, ← same, List.drop_left, same, ← placesLength, List.take_left]

theorem StartsLine.column (starts : StartsLine earlier) : columnAfter earlier = 0 := by
  rcases List.eq_nil_or_concat earlier with rfl | ⟨prior, c, rfl⟩
  · rfl
  · rw [List.concat_eq_append] at starts ⊢
    rw [columnAfter_concat, if_pos (starts c (by simp))]

end Source

/-- Every call that fails is about some characters on one line, the misfit at its place, and its
excerpt shows that line. The carets are as many as these characters, and they are under them just if
no carriage return stands before them on the line. -/
theorem carets_under_misfit_iff {filename source : String} {lexer after : Lexer}
    {error : LexicalError} (reached : Lexer.Reached filename source lexer)
    (failed : lexer.next = (.error error, after)) :
    ∃ earlier front offending behind later,
      source.toList = earlier ++ (front ++ offending ++ behind) ++ later ∧
      StartsLine earlier ∧ '\n' ∉ front ++ offending ++ behind ∧ (∀ c ∈ later.head?, c = '\n') ∧
      IsMisfit offending (behind ++ later) error.fault ∧
      error.span = ⟨lineAfter earlier, front.length, offending.length⟩ ∧
      error.excerpt.lineText = shown (front ++ offending ++ behind) ∧
      (error.excerpt.underlined (front ++ offending ++ behind) = offending.zipIdx front.length ↔
        '\r' ∉ front) ∧
      ('\r' ∉ front → (error.excerpt.lineText.toList.drop error.excerpt.column).take
        error.excerpt.length = offending) := by
  obtain ⟨before, stands⟩ := reached.stands
  obtain ⟨misfit, scanned, fault, span, complete⟩ := stands.next_error failed
  have ahead := lexer.ahead_rest
  obtain ⟨offending, rest, text, length, amiss⟩ := scan_startsAmiss scanned
  rw [text] at ahead
  have noNewline : '\n' ∉ offending := amiss.not_mem ahead.starts (by decide)
  have noReturn : '\r' ∉ offending := amiss.not_mem ahead.starts (by decide)
  obtain ⟨earlier, front, place, starts, frontLine⟩ := exists_startsLine
    (before ++ lexer.rest.takeWhile isBlank)
  have parts : rest.takeWhile (· != '\n') ++ rest.dropWhile (· != '\n') = rest :=
    List.takeWhile_append_dropWhile
  have onLine : '\n' ∉ front ++ offending ++ rest.takeWhile (· != '\n') := by
    simp only [List.mem_append, not_or]
    exact ⟨⟨frontLine, noNewline⟩, takeWhile_onLine rest⟩
  have whole : source.toList =
      earlier ++ (front ++ offending ++ rest.takeWhile (· != '\n')) ++
        rest.dropWhile (· != '\n') := by
    rw [stands.whole, ahead.whole, ← List.append_assoc, place]
    simp only [List.append_assoc, parts]
  rw [place, spanAfter, lineAfter_append frontLine, columnAfter_append frontLine, starts.column,
    Nat.zero_add, length] at span
  have line : error.excerpt.line = lineAfter earlier := congrArg Span.line span
  have column : error.excerpt.column = front.length := congrArg Span.column span
  have count : error.excerpt.length = offending.length := congrArg Span.length span
  rw [whole] at complete
  have lineText := complete.last_line line starts onLine (dropWhile_ends rest)
  have under := underlined_eq_iff (rest.takeWhile (· != '\n')) column count amiss.nonempty noReturn
  refine ⟨earlier, front, offending, _, _, whole, starts, onLine, dropWhile_ends rest, ?_, span,
    lineText, under, fun unbroken => ?_⟩
  · rw [parts, fault]
    exact amiss
  · rw [← underlined_chars lineText, under.mpr unbroken]
    exact List.zipIdx_map_fst front.length offending

/-- A carriage return that ends no line. -/
def strayReturn : String :=
  "x\r@"

/-- The caret is behind the stray character. -/
theorem strayReturn_caret_misses : ∃ error after,
    (Lexer.ofText "return" strayReturn).next.2.next = (.error error, after) ∧
    error.fault = .strayCharacter '@' ∧ error.excerpt.lineText = "x@" ∧
    (error.excerpt.lineText.toList.drop error.excerpt.column).take error.excerpt.length ≠
      ['@'] := by
  refine ⟨_, _, by cbv, ?_, ?_, ?_⟩
  · rfl
  · rfl
  · decide

/-- A number that runs into a letter, behind a letter that is none of ASCII. -/
def letterInNumber : String :=
  "\n  ä 1.b;"

theorem letterInNumber_carets : ∃ error after,
    (Lexer.ofText "number" letterInNumber).next.2.next = (.error error, after) ∧
    error.span = ⟨2, 4, 3⟩ ∧ error.excerpt.lineText = "  ä 1.b;" ∧
    (error.excerpt.lineText.toList.drop 4).take 3 = "1.b".toList ∧
    ∃ behind, IsMisfit "1.b".toList behind .malformedNumber := by
  have failed : ∃ error after,
      (Lexer.ofText "number" letterInNumber).next.2.next = (.error error, after) ∧
      error.fault = .malformedNumber ∧ error.span = ⟨2, 4, 3⟩ ∧
      error.excerpt.lineText = "  ä 1.b;" := ⟨_, _, by cbv, rfl, rfl, rfl⟩
  obtain ⟨error, after, read, fault, span, lineText⟩ := failed
  obtain ⟨earlier, front, offending, behind, later, whole, -, -, -, amiss, -, -, -, carets⟩ :=
    carets_under_misfit_iff (.next .start) read
  have noReturn : '\r' ∉ front := by
    have none : '\r' ∉ letterInNumber.toList := by decide
    rw [whole] at none
    exact fun member => none (by simp [member])
  have column : error.excerpt.column = 4 := congrArg Source.Span.column span
  have length : error.excerpt.length = 3 := congrArg Source.Span.length span
  have under := carets noReturn
  rw [column, length] at under
  have chars : (error.excerpt.lineText.toList.drop 4).take 3 = "1.b".toList := by
    rw [lineText]
    decide
  obtain rfl : "1.b".toList = offending := chars.symm.trans under
  exact ⟨error, after, read, span, lineText, chars, _, fault ▸ amiss⟩

end ThreeAddress

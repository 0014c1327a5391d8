import ThreeAddress.Proofs.Lexing.Lexemes

namespace ThreeAddress

open Text Scan

/-- The fault of a text that starts with these characters, and goes on with those behind them. -/
inductive IsMisfit : List Char → List Char → LexicalFault → Prop
  | stray {c behind} : (∀ front, front <+: c :: behind → ¬ HasForm front) →
      IsMisfit [c] behind (.strayCharacter c)
  | malformed {first rest c behind} : first.isDigit = true → HasForm (first :: rest) →
      Longest (first :: rest) (c :: behind) → endsNumber (c :: behind) = false →
      IsMisfit (first :: rest ++ [c]) behind .malformedNumber
  | outOfRange {digits behind} : digits ≠ [] → (∀ c ∈ digits, c.isDigit = true) →
      Longest digits behind → intMax < decimalValue digits →
      IsMisfit digits behind .intOutOfRange

/-- The front of a text is what a misfit is about. -/
def StartsAmiss (text : List Char) (misfit : Misfit) : Prop :=
  ∃ offending behind, text = offending ++ behind ∧ misfit.length = offending.length ∧
    IsMisfit offending behind misfit.fault

variable {first c : Char} {rest spelling offending behind : List Char} {misfit : Misfit}
  {fault : LexicalFault}

theorem HasForm.one_point (form : HasForm spelling) : spelling.count '.' ≤ 1 := by
  have noPoint {digits : List Char} (digit : ∀ c ∈ digits, c.isDigit = true) :
      digits.count '.' = 0 := by
    refine List.count_eq_zero_of_not_mem fun member => ?_
    exact absurd (digit '.' member) (by decide)
  cases form with
  | int _ digits =>
      rw [noPoint digits]
      exact Nat.zero_le 1
  | real _ wholeDigits fractionDigits =>
      rw [List.count_append, List.count_cons_self, noPoint wholeDigits, noPoint fractionDigits]
  | @word head tail letter parts =>
      have noPoint : '.' ∉ head :: tail := by
        intro member
        rcases List.mem_cons.mp member with rfl | behind
        · exact absurd letter (by decide)
        · exact absurd (parts _ behind) (by decide)
      rw [List.count_eq_zero_of_not_mem noPoint]
      exact Nat.zero_le 1
  | @mark sign => cases sign <;> decide

/-- A number goes no further where no digit and no first point follows it. -/
theorem longest_digits (digit : first.isDigit = true) (noDigit : c.isDigit = false)
    (noPoint : c = '.' → '.' ∈ rest) : Longest (first :: rest) (c :: behind) := by
  refine longest_of_stops fun other extra here form => ?_
  obtain rfl : c = other := Option.some.inj here
  rcases form.digits_behind digit c (by simp) with isDigit | rfl
  · rw [isDigit] at noDigit
    cases noDigit
  · have points := form.one_point
    have inside : 0 < (first :: rest).count '.' :=
      List.count_pos_iff.mpr (List.mem_cons_of_mem _ (noPoint rfl))
    rw [List.count_append, List.count_cons_self] at points
    omega

/-- A number and the character behind it, where that may not stand there. -/
theorem malformed_startsAmiss {digits : List Char} (digit : first.isDigit = true)
    (form : HasForm (first :: digits)) (stops : ∀ c ∈ behind.head?, c.isDigit = false)
    (onePoint : '.' ∈ behind.head? → '.' ∈ digits) (unended : endsNumber behind = false) :
    StartsAmiss (first :: digits ++ behind) ⟨.malformedNumber, digits.length + 2⟩ := by
  cases behind with
  | nil => cases unended
  | cons c later =>
      have longest : Longest (first :: digits) (c :: later) :=
        longest_digits digit (stops c rfl) fun point => onePoint (congrArg some point)
      exact ⟨first :: digits ++ [c], later, by simp, by simp, .malformed digit form longest unended⟩

theorem number_startsAmiss (digit : first.isDigit = true)
    (scanned : number (first :: rest) = .error misfit) : StartsAmiss (first :: rest) misfit := by
  have parts (text : List Char) :
      text.takeWhile Char.isDigit ++ text.dropWhile Char.isDigit = text :=
    List.takeWhile_append_dropWhile
  have digits (text : List Char) : ∀ c ∈ text.takeWhile Char.isDigit, c.isDigit = true :=
    fun c => List.mem_takeWhile_imp
  have starts : (first :: rest).takeWhile Char.isDigit = first :: rest.takeWhile Char.isDigit :=
    List.takeWhile_cons_of_pos digit
  have whole := parts (first :: rest)
  have wholeDigits := digits (first :: rest)
  have wholeStops := dropWhile_stops Char.isDigit (first :: rest)
  rw [starts] at whole wholeDigits
  unfold number at scanned
  simp only [starts] at scanned
  split at scanned
  · next afterPoint point =>
      split at scanned
      · cases scanned
      · next unended =>
          cases scanned
          have form : HasForm (first :: (rest.takeWhile Char.isDigit ++
              '.' :: afterPoint.takeWhile Char.isDigit)) :=
            .real (List.cons_ne_nil first _) wholeDigits (digits afterPoint)
          have amiss := malformed_startsAmiss digit form (dropWhile_stops Char.isDigit afterPoint)
            (fun _ => by simp) (Bool.eq_false_iff.mpr unended)
          have text : first :: (rest.takeWhile Char.isDigit ++
              '.' :: afterPoint.takeWhile Char.isDigit) ++ afterPoint.dropWhile Char.isDigit =
                first :: rest := by
            rw [← whole, point]
            simp [parts]
          have length : (first :: rest.takeWhile Char.isDigit).length + 1 +
              (afterPoint.takeWhile Char.isDigit).length + 1 =
                (rest.takeWhile Char.isDigit ++
                  '.' :: afterPoint.takeWhile Char.isDigit).length + 2 := by
            simp only [List.length_append, List.length_cons]
            omega
          rw [text, ← length] at amiss
          exact amiss
  · next noPoint =>
      split at scanned
      · next unended =>
          cases scanned
          -- A point behind the digits would have been taken for that of a real number.
          have onePoint (point : '.' ∈ ((first :: rest).dropWhile Char.isDigit).head?) :
              '.' ∈ rest.takeWhile Char.isDigit := by
            obtain ⟨later, more⟩ := List.head?_eq_some_iff.mp point
            exact (noPoint later more).elim
          have amiss := malformed_startsAmiss digit (.int (List.cons_ne_nil first _) wholeDigits)
            wholeStops onePoint (by simpa using unended)
          rw [whole] at amiss
          exact amiss
      · next ends =>
          split at scanned
          · next large =>
              cases scanned
              rw [natOfDigits_eq] at large
              exact ⟨_, _, whole.symm, rfl, .outOfRange nofun wholeDigits
                (longest_number digit (by simpa using ends)) large⟩
          · cases scanned

theorem punctuation?_of_isOperator (operator : isOperator c = true) :
    Mark.punctuation? c = none := by
  simp only [isOperator, List.contains_iff_mem, List.mem_cons, List.not_mem_nil, or_false]
    at operator
  rcases operator with rfl | rfl | rfl | rfl | rfl | rfl | rfl | rfl | rfl | rfl <;> rfl

theorem isOperator_of_operator? {sign : Mark} (single : Mark.operator? c = some sign) :
    isOperator c = true := by
  unfold Mark.operator? at single
  split at single
  all_goals
    cases single
    try decide

/-- A character that is no digit, no letter and no mark, alone or with the one behind it, starts no
token. -/
theorem stray_misfit (noDigit : ¬ first.isDigit = true) (noLetter : ¬ isLetter first = true)
    (noOperator : Mark.operator? first = none) (noPunctuation : Mark.punctuation? first = none)
    (noPair : isOperator first = true → rest.head?.bind (Mark.pair? first) = none) :
    IsMisfit [first] rest (.strayCharacter first) := by
  refine .stray fun front starts form => ?_
  obtain ⟨c, more, rfl⟩ := List.exists_cons_of_ne_nil form.nonempty
  obtain ⟨rfl, behind⟩ := List.cons_prefix_cons.mp starts
  cases more with
  | nil =>
      obtain ⟨sign, text⟩ := form.sign_of_first noDigit noLetter
      rcases sign.text_cases with ⟨_, same, -, -, single⟩ | ⟨_, _, same, -⟩
      · cases same.symm.trans text
        rcases single with single | single
        · rw [single] at noOperator
          cases noOperator
        · rw [single] at noPunctuation
          cases noPunctuation
      · cases same.symm.trans text
  | cons second extra =>
      obtain ⟨-, operator, sign, pair⟩ := pair_of_form noDigit noLetter form
      obtain ⟨later, rfl⟩ := behind
      have none : Mark.pair? c second = none := noPair operator
      rw [pair] at none
      cases none

theorem operator_startsAmiss (noDigit : ¬ first.isDigit = true) (noLetter : ¬ isLetter first = true)
    (sign : isOperator first = true) (scanned : operator first rest = .error misfit) :
    StartsAmiss (first :: rest) misfit := by
  unfold operator at scanned
  split at scanned
  · cases scanned
  · next noPair =>
      split at scanned
      · cases scanned
      · next noOperator =>
          cases scanned
          exact ⟨[first], rest, rfl, rfl, stray_misfit noDigit noLetter noOperator
            (punctuation?_of_isOperator sign) fun _ => noPair⟩

/-- Where `scan` finds a misfit, a text is at fault for the characters that it says. -/
theorem scan_startsAmiss {text : List Char} (scanned : scan text = .error misfit) :
    StartsAmiss text misfit := by
  cases text with
  | nil => cases scanned
  | cons first rest =>
      rw [scan] at scanned
      split at scanned
      · next digit => exact number_startsAmiss digit scanned
      · next noDigit =>
          split at scanned
          · cases scanned
          · next noLetter =>
              split at scanned
              · next operator => exact operator_startsAmiss noDigit noLetter operator scanned
              · next noOperator =>
                  split at scanned
                  · cases scanned
                  · next noPunctuation =>
                      cases scanned
                      have noSingle : Mark.operator? first = none :=
                        Option.eq_none_iff_forall_not_mem.mpr fun sign single =>
                          noOperator (isOperator_of_operator? single)
                      exact ⟨[first], rest, rfl, rfl, stray_misfit noDigit noLetter noSingle
                        noPunctuation fun operator => (noOperator operator).elim⟩

theorem IsMisfit.nonempty (amiss : IsMisfit offending behind fault) : offending ≠ [] := by
  cases amiss with
  | stray | malformed => simp
  | outOfRange nonempty => exact nonempty

/-- Only the first character of a misfit could be a blank. -/
theorem IsMisfit.no_blank (amiss : IsMisfit offending behind fault)
    (starts : ∀ c ∈ (offending ++ behind).head?, isBlank c = false) :
    ∀ c ∈ offending, isBlank c = false := by
  cases amiss with
  | stray => exact List.forall_mem_singleton.mpr (starts _ rfl)
  | malformed digit form _ unended =>
      refine List.forall_mem_append.mpr ⟨List.forall_mem_cons.mpr ⟨isBlank_of_isDigit digit, ?_⟩,
        List.forall_mem_singleton.mpr ?_⟩
      · intro c member
        rcases form.digits_behind digit c member with isDigit | rfl
        · exact isBlank_of_isDigit isDigit
        · decide
      · simp only [endsNumber, Bool.or_eq_false_iff] at unended
        exact unended.2
  | outOfRange _ digits _ _ => exact fun c member => isBlank_of_isDigit (digits c member)

theorem IsMisfit.not_mem (amiss : IsMisfit offending behind fault)
    (starts : ∀ c ∈ (offending ++ behind).head?, isBlank c = false) (blank : isBlank c = true) :
    c ∉ offending := by
  intro member
  rw [amiss.no_blank starts c member] at blank
  cases blank

end ThreeAddress

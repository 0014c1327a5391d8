import Mathlib
import ThreeAddress.Code.Listing
import ThreeAddress.Proofs.Execution.Renaming
import ThreeAddress.Proofs.Lexing.Written
import ThreeAddress.Proofs.Names
import ThreeAddress.Proofs.Reformatting
import ThreeAddress.Text.Lines

namespace ThreeAddress

open Text Decimal

/-- The text has no line break. -/
def Unbroken (text : String) : Prop :=
  ∀ c ∈ text.toList, c ≠ '\n' ∧ c ≠ '\r'

namespace Instr

/-- Every name in the instruction is a word that is read as an identifier. -/
def Named (instr : Instr) : Prop :=
  ∀ expr ∈ instr.exprs, ∀ name ∈ expr.names, IsName name

def isLabel : Instr → Bool
  | .label _ => true
  | _ => false

end Instr

section

variable {c : Char} {digits : List Char} {first second : String}

@[simp] theorem unbroken_append :
    Unbroken (first ++ second) ↔ Unbroken first ∧ Unbroken second := by
  simp only [Unbroken, String.toList_append, List.forall_mem_append]

theorem unbroken_of_isDigit (digit : c.isDigit = true) : c ≠ '\n' ∧ c ≠ '\r' := by
  constructor
  all_goals
    rintro rfl
    contradiction

theorem unbroken_of_isWordPart (part : isWordPart c = true) : c ≠ '\n' ∧ c ≠ '\r' := by
  constructor
  all_goals
    rintro rfl
    exact absurd part (by decide)

theorem unbroken_nat (number : Nat) : Unbroken (toString number) := by
  intro c member
  have chars : (toString number).toList = Nat.toDigits 10 number := Nat.toList_repr
  rw [chars] at member
  exact unbroken_of_isDigit (Nat.isDigit_of_mem_toDigits (by decide) (by decide) member)

theorem unbroken_int (value : Int) : Unbroken (toString value) := by
  cases value with
  | ofNat number => exact unbroken_nat number
  | negSucc number =>
      have signed : toString (Int.negSucc number) = "-" ++ toString (number + 1) := rfl
      rw [signed, unbroken_append]
      exact ⟨by simp [Unbroken], unbroken_nat _⟩

theorem IsName.unbroken {name : String} (isName : IsName name) : Unbroken name := by
  intro c member
  obtain ⟨-, first, rest, chars, letter, parts, -⟩ := IsLexeme.name isName
  rw [chars] at member
  refine unbroken_of_isWordPart ?_
  rcases List.mem_cons.mp member with rfl | behind
  · exact isWordPart_of_isLetter letter
  · exact parts c behind

theorem Mark.unbroken_text (sign : Mark) : Unbroken sign.text := by
  cases sign <;> simp [Unbroken, Mark.text]

theorem positional_unbroken (all : ∀ c ∈ digits, c.isDigit = true) (places : Int) :
    ∀ c ∈ positional digits places, c ≠ '\n' ∧ c ≠ '\r' := by
  have parts : ∀ c ∈ positional digits places, c ∈ digits ∨ c = '0' ∨ c = '.' := by
    intro c member
    unfold positional at member
    split at member
    · simp only [List.mem_cons, List.mem_append, List.mem_replicate] at member
      tauto
    · dsimp only at member
      split at member
      · simp only [List.mem_cons, List.mem_append, List.mem_replicate, List.not_mem_nil,
          or_false] at member
        tauto
      · rcases List.mem_append.mp member with front | behind
        · exact .inl (List.mem_of_mem_take front)
        · rcases List.mem_cons.mp behind with point | fraction
          · exact .inr (.inr point)
          · exact .inl (List.mem_of_mem_drop fraction)
  intro c member
  rcases parts c member with digit | rfl | rfl
  · exact unbroken_of_isDigit (all c digit)
  · decide
  · decide

theorem scientific_unbroken (all : ∀ c ∈ digits, c.isDigit = true) (power : Int) :
    ∀ c ∈ scientific digits power, c ≠ '\n' ∧ c ≠ '\r' := by
  have parts : ∀ c ∈ scientific digits power,
      c ∈ digits ∨ c = '.' ∨ c = 'e' ∨ c ∈ (toString power).toList := by
    intro c member
    unfold scientific at member
    rcases List.mem_append.mp member with front | behind
    · split at front
      · simp only [List.mem_cons] at front ⊢
        tauto
      · exact .inl front
    · rcases List.mem_cons.mp behind with mark | exponent
      · exact .inr (.inr (.inl mark))
      · exact .inr (.inr (.inr exponent))
  intro c member
  rcases parts c member with digit | rfl | rfl | exponent
  · exact unbroken_of_isDigit (all c digit)
  · decide
  · decide
  · exact unbroken_int power c exponent

theorem Decimal.Scaled.unbroken_chars (x : Scaled) : ∀ c ∈ x.chars, c ≠ '\n' ∧ c ≠ '\r' := by
  have digits : ∀ c ∈ dropTrailingZeros (Nat.toDigits 10 x.coefficient), c.isDigit = true := by
    intro c member
    have inside := (List.dropWhile_sublist _).mem (List.mem_reverse.mp member)
    exact Nat.isDigit_of_mem_toDigits (by decide) (by decide) (List.mem_reverse.mp inside)
  unfold Scaled.chars
  dsimp only
  split
  · exact positional_unbroken digits _
  · exact scientific_unbroken digits _

theorem Decimal.Binary64.unbroken_text (x : Binary64) : Unbroken x.text := by
  have magnitude (magnitude : Nat) : Unbroken (magnitudeText magnitude) := by
    unfold magnitudeText
    split
    · simp [Unbroken]
    · split
      · simp [Unbroken]
      · rw [Unbroken, String.toList_ofList]
        exact Scaled.unbroken_chars _
  unfold Binary64.text
  split
  · simp [Unbroken]
  · split
    · exact unbroken_append.mpr ⟨by simp [Unbroken], magnitude _⟩
    · exact magnitude _

end

namespace Expr

mutual

theorem unbroken_text (expr : Expr) (named : ∀ name ∈ expr.names, IsName name) :
    Unbroken expr.text := by
  match expr with
  | .binary _ op left right =>
      rw [names_binary, List.forall_mem_append] at named
      have blank : Unbroken " " := by simp [Unbroken]
      simp only [text, unbroken_append]
      exact ⟨⟨⟨⟨unbroken_text left named.1, blank⟩, op.mark.unbroken_text⟩, blank⟩,
        unbroken_text right named.2⟩
  | .unary _ op operand =>
      rw [names_unary] at named
      simp only [text, unbroken_append]
      exact ⟨op.mark.unbroken_text, unbroken_text operand named⟩
  | .paren _ inner =>
      rw [names_paren] at named
      simp only [text, unbroken_append]
      exact ⟨⟨by simp [Unbroken], unbroken_text inner named⟩, by simp [Unbroken]⟩
  | .loc _ id indices =>
      rw [names_loc, List.forall_mem_cons] at named
      simp only [text, unbroken_append]
      exact ⟨named.1.unbroken, unbroken_indicesText indices named.2⟩
  | .int _ value => exact unbroken_int value
  | .real _ value => exact value.unbroken_text
  | .bool _ value => cases value <;> simp [Unbroken, text]
  | .temp _ number =>
      simp only [text, unbroken_append]
      exact ⟨by simp [Unbroken], unbroken_nat number⟩

theorem unbroken_indicesText (indices : List Expr)
    (named : ∀ name ∈ allNames indices, IsName name) : Unbroken (indicesText indices) := by
  match indices with
  | [] => simp [Unbroken, indicesText]
  | index :: rest =>
      rw [allNames_cons, List.forall_mem_append] at named
      simp only [indicesText, unbroken_append]
      exact ⟨⟨⟨by simp [Unbroken], unbroken_text index named.1⟩, by simp [Unbroken]⟩,
        unbroken_indicesText rest named.2⟩

end

end Expr

theorem Label.unbroken_text (label : Label) : Unbroken label.text :=
  unbroken_append.mpr ⟨by simp [Unbroken], unbroken_nat _⟩

theorem Instr.Named.unbroken_text {instr : Instr} (named : instr.Named) : Unbroken instr.text := by
  cases instr with
  | assign target value =>
      simp only [Instr.text, unbroken_append]
      exact ⟨⟨target.unbroken_text (named target (by simp [exprs])), by simp [Unbroken]⟩,
        value.unbroken_text (named value (by simp [exprs]))⟩
  | label here => exact unbroken_append.mpr ⟨here.unbroken_text, by simp [Unbroken]⟩
  | goto target => exact unbroken_append.mpr ⟨by simp [Unbroken], target.unbroken_text⟩
  | ifTrue condition target | ifFalse condition target =>
      have tested := condition.unbroken_text (named condition (by simp [exprs]))
      simp only [Instr.text, unbroken_append]
      exact ⟨⟨⟨by simp [Unbroken], tested⟩, by simp [Unbroken]⟩, target.unbroken_text⟩

namespace Text

theorem linesFrom_line {line : List Char} (passed rest : List Char) (onLine : '\n' ∉ line) :
    linesFrom passed (line ++ '\n' :: rest) =
      String.ofList (dropReturn (line.reverse ++ passed)).reverse :: linesFrom [] rest := by
  induction line generalizing passed with
  | nil => simp [linesFrom]
  | cons c line ih =>
      rw [List.mem_cons, not_or] at onLine
      rw [List.cons_append, linesFrom, if_neg (Ne.symm onLine.1), ih _ onLine.2, List.reverse_cons,
        List.append_assoc, List.singleton_append]

theorem dropReturn_of_unbroken {line : String} (unbroken : Unbroken line) :
    dropReturn line.toList.reverse = line.toList.reverse := by
  cases reversed : line.toList.reverse with
  | nil => rfl
  | cons c before =>
      have member : c ∈ line.toList := by
        rw [← List.mem_reverse, reversed]
        exact List.mem_cons_self
      unfold dropReturn
      split
      · next same =>
          cases same
          exact ((unbroken _ member).2 rfl).elim
      · rfl

/-- Lines without a line break in them are the lines of the text that they make up. -/
theorem lines_join {all : List String} (unbroken : ∀ line ∈ all, Unbroken line) :
    lines (String.join (all.map (· ++ "\n"))) = all := by
  induction all with
  | nil => rfl
  | cons line rest ih =>
      obtain ⟨here, others⟩ := List.forall_mem_cons.mp unbroken
      have onLine : '\n' ∉ line.toList := fun member => (here _ member).1 rfl
      have onward := ih others
      rw [lines, String.toList_join] at onward ⊢
      simp only [List.map_cons, List.flatMap_cons, String.toList_append]
      change linesFrom [] ((line.toList ++ ['\n']) ++ _) = _
      rw [List.append_assoc, List.singleton_append, linesFrom_line _ _ onLine, List.append_nil,
        dropReturn_of_unbroken here, List.reverse_reverse, String.ofList_toList, onward]

end Text

namespace Listing

variable {code before after rest : List Instr} {instr : Instr} {label : Label}
  {waiting : Option Label}

theorem linesFrom_instr (notLabel : instr.isLabel = false) : linesFrom waiting (instr :: rest) =
    (padEnd labelWidth (labelText waiting) ++ " " ++ instr.text) :: linesFrom none rest := by
  cases instr with
  | label => cases notLabel
  | _ => cases waiting <;> rfl

theorem unbroken_padEnd {width : Nat} {text : String} (unbroken : Unbroken text) :
    Unbroken (padEnd width text) := by
  refine unbroken_append.mpr ⟨unbroken, fun c member => ?_⟩
  rw [String.toList_ofList] at member
  obtain rfl := List.eq_of_mem_replicate member
  decide

theorem unbroken_labelText (waiting : Option Label) : Unbroken (labelText waiting) := by
  cases waiting with
  | none => simp [Unbroken, labelText]
  | some label => exact unbroken_append.mpr ⟨label.unbroken_text, by simp [Unbroken]⟩

theorem unbroken_linesFrom (waiting : Option Label) (named : ∀ instr ∈ code, instr.Named) :
    ∀ line ∈ linesFrom waiting code, Unbroken line := by
  fun_induction linesFrom waiting code with
  | case1 => simp
  | case2 label => exact List.forall_mem_singleton.mpr (unbroken_labelText (some label))
  | case3 next rest ih => exact ih (List.forall_mem_cons.mp named).2
  | case4 label next rest ih =>
      exact List.forall_mem_cons.mpr
        ⟨unbroken_labelText (some label), ih (List.forall_mem_cons.mp named).2⟩
  | case5 waiting instr rest _ _ ih =>
      obtain ⟨here, others⟩ := List.forall_mem_cons.mp named
      refine List.forall_mem_cons.mpr ⟨?_, ih others⟩
      simp only [unbroken_append]
      exact ⟨⟨unbroken_padEnd (unbroken_labelText waiting), by simp [Unbroken]⟩, here.unbroken_text⟩

/-- The lines of the text are those that were put together. -/
theorem lines_render (named : ∀ instr ∈ code, instr.Named) :
    Text.lines (render code) = lines code :=
  Text.lines_join (unbroken_linesFrom none named)

/-- A label ends what stands before it: that is listed as if nothing followed. -/
theorem linesFrom_append_label : linesFrom waiting (before ++ .label label :: rest) =
    linesFrom waiting before ++ linesFrom (some label) rest := by
  fun_induction linesFrom waiting before with
  | case1 => rfl
  | case2 => rfl
  | case3 next rest ih => exact ih
  | case4 first next rest ih => simp only [List.cons_append, linesFrom, ih]
  | case5 waiting instr rest notFirst notNext ih =>
      have notLabel : instr.isLabel = false := by
        cases instr with
        | label here => cases waiting <;> simp at notFirst notNext
        | _ => rfl
      rw [List.cons_append, linesFrom_instr notLabel, ih, List.cons_append]

/-- Nothing waits behind an instruction that is no label. -/
theorem linesFrom_append_instr (notLabel : instr.isLabel = false) :
    linesFrom waiting (before ++ instr :: rest) =
      linesFrom waiting (before ++ [instr]) ++ linesFrom none rest := by
  fun_induction linesFrom waiting before with
  | case1 => simp only [List.nil_append, linesFrom_instr notLabel, linesFrom, List.singleton_append]
  | case2 => simp only [List.nil_append, linesFrom_instr notLabel, linesFrom, List.singleton_append]
  | case3 next others ih => exact ih
  | case4 first next others ih => simp only [List.cons_append, linesFrom, ih]
  | case5 waiting first others notFirst notNext ih =>
      have firstNotLabel : first.isLabel = false := by
        cases first with
        | label here => cases waiting <;> simp at notFirst notNext
        | _ => rfl
      rw [List.cons_append, List.cons_append, linesFrom_instr firstNotLabel,
        linesFrom_instr firstNotLabel, ih, List.cons_append]

theorem lines_append_instr (notLabel : instr.isLabel = false)
    (clear : ∀ label, before.getLast? ≠ some (.label label)) :
    lines (before ++ instr :: rest) =
      lines before ++ (padEnd labelWidth "" ++ " " ++ instr.text) :: lines rest := by
  have here : lines (instr :: rest) =
      (padEnd labelWidth "" ++ " " ++ instr.text) :: lines rest := linesFrom_instr notLabel
  rcases List.eq_nil_or_concat before with rfl | ⟨front, last, rfl⟩
  · exact here
  · have lastNotLabel : last.isLabel = false := by
      cases last with
      | label label => simp at clear
      | _ => rfl
    rw [← here, List.concat_eq_append, List.append_assoc, List.singleton_append]
    exact linesFrom_append_instr lastNotLabel

theorem lines_append_labelled (notLabel : instr.isLabel = false) :
    lines (before ++ .label label :: instr :: rest) = lines before ++
      (padEnd labelWidth (Instr.label label).text ++ " " ++ instr.text) :: lines rest := by
  rw [lines, linesFrom_append_label, linesFrom_instr notLabel]
  rfl

theorem lines_append_label (alone : ∀ instr ∈ rest.head?, instr.isLabel = true) :
    lines (before ++ .label label :: rest) =
      lines before ++ (Instr.label label).text :: lines rest := by
  rw [lines, linesFrom_append_label]
  cases rest with
  | nil => rfl
  | cons next others =>
      cases next with
      | label next => rfl
      | _ => simp [Instr.isLabel] at alone

/-- The texts that share a line. A label ends at the first colon. -/
def parts (line : String) : List String :=
  let chars := line.toList
  let label := chars.takeWhile (· != ':') ++ [':']
  if chars.head? = some ' ' then [String.ofList (chars.drop (labelWidth + 1))]
  else if chars.length ≤ label.length then [String.ofList label]
  else [String.ofList label, String.ofList (chars.drop (max labelWidth label.length + 1))]

theorem labelText_chars (label : Label) : ∃ digits, (labelText (some label)).toList =
    'L' :: digits ++ [':'] ∧ ∀ c ∈ 'L' :: digits, (c != ':') = true := by
  refine ⟨(toString label.number).toList, ?_, ?_⟩
  · simp [labelText, Instr.text, Label.text]
  · have chars : (toString label.number).toList = Nat.toDigits 10 label.number := Nat.toList_repr
    rw [chars]
    refine List.forall_mem_cons.mpr ⟨by decide, fun c member => ?_⟩
    have digit := Nat.isDigit_of_mem_toDigits (by decide) (by decide) member
    rw [bne_iff_ne]
    rintro rfl
    contradiction

theorem parts_body (body : String) : parts (padEnd labelWidth "" ++ " " ++ body) = [body] := by
  have chars : (padEnd labelWidth "" ++ " " ++ body).toList =
      List.replicate (labelWidth + 1) ' ' ++ body.toList := by
    simp [padEnd, labelWidth]
  have blank : (List.replicate (labelWidth + 1) ' ' ++ body.toList).head? = some ' ' := rfl
  have left : (List.replicate (labelWidth + 1) ' ' ++ body.toList).drop (labelWidth + 1) =
      body.toList := List.drop_left' List.length_replicate
  rw [parts, chars, if_pos blank, left, String.ofList_toList]

/-- A line that starts with a label is cut behind it. -/
theorem parts_of_label {line : String} {tail : List Char}
    (chars : line.toList = (labelText (some label)).toList ++ tail) :
    parts line = if tail = [] then [labelText (some label)]
      else [labelText (some label), String.ofList
        (line.toList.drop (max labelWidth (labelText (some label)).toList.length + 1))] := by
  obtain ⟨digits, text, noColon⟩ := labelText_chars label
  have front : line.toList.takeWhile (· != ':') ++ [':'] = (labelText (some label)).toList := by
    rw [chars, text, List.append_assoc, takeWhile_append_stop noColon (by simp)]
  have noBlank : line.toList.head? ≠ some ' ' := by
    rw [chars, text]
    simp
  have length : line.toList.length ≤ (labelText (some label)).toList.length ↔ tail = [] := by
    rw [chars, List.length_append, ← List.length_eq_zero_iff]
    omega
  rw [parts]
  simp only [front, if_neg noBlank, length, String.ofList_toList]

theorem parts_label (label : Label) :
    parts (labelText (some label)) = [labelText (some label)] := by
  rw [parts_of_label (List.append_nil _).symm, if_pos rfl]

theorem parts_labelled (label : Label) (body : String) :
    parts (padEnd labelWidth (labelText (some label)) ++ " " ++ body) =
      [labelText (some label), body] := by
  have chars : (padEnd labelWidth (labelText (some label)) ++ " " ++ body).toList =
      (labelText (some label)).toList ++
        (List.replicate (labelWidth - (labelText (some label)).length + 1) ' ' ++
          body.toList) := by
    simp [padEnd, List.replicate_succ', List.append_assoc]
  have column : (labelText (some label)).toList.length +
      (List.replicate (labelWidth - (labelText (some label)).length + 1) ' ').length =
        max labelWidth (labelText (some label)).toList.length + 1 := by
    rw [List.length_replicate, String.length_toList]
    omega
  rw [parts_of_label chars, if_neg (by simp), chars, ← column, ← List.append_assoc,
    List.drop_left' List.length_append, String.ofList_toList]

/-- The texts of the code are read off its lines. -/
theorem flatMap_parts_linesFrom (waiting : Option Label) (code : List Instr) :
    (linesFrom waiting code).flatMap parts =
      (waiting.map fun label => (Instr.label label).text).toList ++ code.map Instr.text := by
  fun_induction linesFrom waiting code with
  | case1 => rfl
  | case2 label =>
      rw [List.flatMap_cons, List.flatMap_nil, List.append_nil]
      exact parts_label label
  | case3 next rest ih => exact ih
  | case4 label next rest ih =>
      rw [List.flatMap_cons, ih]
      exact congrArg (· ++ _) (parts_label label)
  | case5 waiting instr rest _ _ ih =>
      rw [List.flatMap_cons, ih]
      cases waiting with
      | none => exact congrArg (· ++ _) (parts_body instr.text)
      | some label => exact congrArg (· ++ _) (parts_labelled label instr.text)

/-- The texts of the code are read off its listing. -/
theorem parts_render (named : ∀ instr ∈ code, instr.Named) :
    (Text.lines (render code)).flatMap parts = code.map Instr.text := by
  rw [lines_render named]
  exact flatMap_parts_linesFrom none code

/-- Which line an instruction has. One that is no label shares its line with a label right before it
and with nothing else, and a label before another one or at the end is alone on its line. -/
structure LineByLine (code : List Instr) : Prop where
  alone : ∀ before instr after, code = before ++ instr :: after → instr.isLabel = false →
    (∀ label, before.getLast? ≠ some (.label label)) →
    Text.lines (render code) = Text.lines (render before) ++
      (padEnd labelWidth "" ++ " " ++ instr.text) :: Text.lines (render after)
  labelled : ∀ before label instr after, code = before ++ .label label :: instr :: after →
    instr.isLabel = false →
    Text.lines (render code) = Text.lines (render before) ++
      (padEnd labelWidth (Instr.label label).text ++ " " ++ instr.text) ::
        Text.lines (render after)
  label : ∀ before label after, code = before ++ .label label :: after →
    (∀ instr ∈ after.head?, instr.isLabel = true) →
    Text.lines (render code) = Text.lines (render before) ++
      (Instr.label label).text :: Text.lines (render after)

theorem lineByLine (named : ∀ instr ∈ code, instr.Named) : LineByLine code := by
  refine ⟨?_, ?_, ?_⟩
  · rintro before instr after rfl notLabel clear
    obtain ⟨front, others⟩ := List.forall_mem_append.mp named
    rw [lines_render named, lines_render front, lines_render (List.forall_mem_cons.mp others).2]
    exact lines_append_instr notLabel clear
  · rintro before label instr after rfl notLabel
    obtain ⟨front, others⟩ := List.forall_mem_append.mp named
    have behind := (List.forall_mem_cons.mp (List.forall_mem_cons.mp others).2).2
    rw [lines_render named, lines_render front, lines_render behind]
    exact lines_append_labelled notLabel
  · rintro before label after rfl alone
    obtain ⟨front, others⟩ := List.forall_mem_append.mp named
    rw [lines_render named, lines_render front, lines_render (List.forall_mem_cons.mp others).2]
    exact lines_append_label alone

end Listing

/-- Code whose names are identifiers is listed line by line, and nothing of its texts is lost: equal
listings come from code with the same texts in the same order. -/
theorem listing_loses_nothing {code other : List Instr} (named : ∀ instr ∈ code, instr.Named)
    (otherNamed : ∀ instr ∈ other, instr.Named) :
    Listing.LineByLine code ∧
    (Listing.render code = Listing.render other →
      code.length = other.length ∧ code.map Instr.text = other.map Instr.text) := by
  refine ⟨Listing.lineByLine named, fun same => ?_⟩
  have texts : code.map Instr.text = other.map Instr.text := by
    rw [← Listing.parts_render named, same, Listing.parts_render otherNamed]
  have lengths := congrArg List.length texts
  rw [List.length_map, List.length_map] at lengths
  exact ⟨lengths, texts⟩

/-- Labels in a row, one of them wider than its column, and one at the end. -/
def wideLabels (target : Expr) : List Instr :=
  [.label ⟨1⟩, .label ⟨1234567⟩,
    .assign target (.unary { line := 1 } .neg (.int { line := 1 } 5)),
    .ifFalse (.bool { line := 1 } false) ⟨1⟩, .label ⟨3⟩]

/-- A temporary and a variable of its name are listed alike. -/
theorem wideLabels_lose_nothing :
    (∀ instr ∈ wideLabels (.temp { line := 1 } 1), instr.Named) ∧
    (∀ instr ∈ wideLabels (.loc { line := 1 } ⟨"t1", 1⟩ []), instr.Named) ∧
    Listing.render (wideLabels (.temp { line := 1 } 1)) =
      Listing.render (wideLabels (.loc { line := 1 } ⟨"t1", 1⟩ [])) ∧
    Listing.LineByLine (wideLabels (.temp { line := 1 } 1)) ∧
    (wideLabels (.temp { line := 1 } 1)).length =
      (wideLabels (.loc { line := 1 } ⟨"t1", 1⟩ [])).length ∧
    (wideLabels (.temp { line := 1 } 1)).map Instr.text =
      (wideLabels (.loc { line := 1 } ⟨"t1", 1⟩ [])).map Instr.text := by
  have word : IsName "t1" := by
    have lexical : IsLexeme ['t', '1'] (.ident (String.ofList ['t', '1'])) :=
      .ident (by decide) (List.all_eq_true.mp (by decide)) (by decide)
    exact lexical
  have noName : ∀ instr ∈ wideLabels (.temp { line := 1 } 1), instr.Named := by
    simp [wideLabels, Instr.Named, Instr.exprs]
  have oneName : ∀ instr ∈ wideLabels (.loc { line := 1 } ⟨"t1", 1⟩ []), instr.Named := by
    simp [wideLabels, Instr.Named, Instr.exprs, word]
  have same : Listing.render (wideLabels (.temp { line := 1 } 1)) =
      Listing.render (wideLabels (.loc { line := 1 } ⟨"t1", 1⟩ [])) := by
    cbv
  obtain ⟨each, texts⟩ := listing_loses_nothing noName oneName
  exact ⟨noName, oneName, same, each, texts same⟩

end ThreeAddress

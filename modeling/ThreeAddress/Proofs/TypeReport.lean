import ThreeAddress.Proofs.FaultLines
import ThreeAddress.Proofs.Grammar.Excerpts
import ThreeAddress.Proofs.Lexing.TextLines

namespace ThreeAddress

open Text Source

variable {filename source : String} {token : Token} {fault : TypeFault} {line : Nat}

/-- Elements with numbers between two bounds stand next to each other. -/
theorem filter_zipIdx {α : Type} (all : List α) (start first last : Nat) :
    (all.zipIdx start).filter (fun entry => first ≤ entry.2 ∧ entry.2 ≤ last) =
      ((all.zipIdx start).take (last + 1 - start)).drop (first - start) := by
  induction all generalizing start with
  | nil => simp
  | cons head rest ih =>
      rw [List.zipIdx_cons, List.filter_cons, ih]
      by_cases within : start ≤ last
      · -- The head is taken, so that one less is taken of the rest.
        have takes : last + 1 - start = (last + 1 - (start + 1)) + 1 := by omega
        rw [takes, List.take_succ_cons]
        by_cases reached : first ≤ start
        · have dropsNone : first - start = 0 ∧ first - (start + 1) = 0 := by omega
          simp [reached, within, dropsNone]
        · have drops : first - start = (first - (start + 1)) + 1 := by omega
          simp [reached, drops]
      · have takesNone : last + 1 - start = 0 ∧ last + 1 - (start + 1) = 0 := by omega
        simp [within, takesNone]

namespace Diagnostic

/-- The lines of a text up to two before and two behind one, each with its number. -/
def neighbours (line : Nat) (source : String) : List (String × Nat) :=
  ((lines source).zipIdx 1).filter fun entry =>
    max 1 (line - 2) ≤ entry.2 ∧ entry.2 ≤ min (line + 2) (lines source).length

/-- A line of a text in a report, behind a marker and its number. -/
def entryLine (marker : String) (entry : String × Nat) : String :=
  marker ++ " " ++ toString entry.2 ++ " " ++ entry.1 ++ "\n"

theorem neighbours_eq_window (positive : 1 ≤ line) : neighbours line source =
    (window (line - 1) (lines source)).map fun entry => (entry.1, entry.2 + 1) := by
  have takes : min (line + 2) (lines source).length + 1 - 1 =
      min (line - 1 + margin + 1) ((lines source).zipIdx 1).length := by
    rw [margin, List.length_zipIdx]
    omega
  have drops : max 1 (line - 2) - 1 = line - 1 - margin := by
    rw [margin]
    omega
  have numbered : (lines source).zipIdx 1 =
      (lines source).zipIdx.map fun entry => (entry.1, entry.2 + 1) :=
    List.zipIdx_succ
  rw [neighbours, filter_zipIdx, takes, ← List.take_eq_take_min, drops, numbered, window,
    List.map_drop, List.map_take]

theorem lineReport_eq (positive : 1 ≤ line) : lineReport filename source line =
    "  File \"" ++ filename ++ "\", line " ++ toString line ++ "\n" ++
      String.join ((neighbours line source).map fun entry =>
        entryLine (if entry.2 = line then "---->" else "     ") entry) ++ "\n" := by
  have entries : numberedLine (line - 1) = (fun entry =>
      entryLine (if entry.2 = line then "---->" else "     ") entry) ∘
        fun entry => (entry.1, entry.2 + 1) := by
    funext entry
    have sameLine : entry.2 = line - 1 ↔ entry.2 + 1 = line := by omega
    simp only [numberedLine, entryLine, Function.comp_apply, sameLine]
  rw [lineReport, neighbours_eq_window positive, List.map_map, entries]

/-- A line of the text is among its neighbours, between those before it and those behind. -/
theorem neighbours_split {text : String} (positive : 1 ≤ line)
    (here : (lines source)[line - 1]? = some text) :
    ∃ earlier later, neighbours line source = earlier ++ (text, line) :: later ∧
      (∀ entry ∈ earlier, entry.2 < line) ∧ ∀ entry ∈ later, line < entry.2 := by
  have inText : line - 1 < (lines source).length := (List.getElem?_eq_some_iff.mp here).1
  have member : (text, line) ∈ neighbours line source := by
    rw [neighbours, List.mem_filter, List.mem_zipIdx_iff_le_and_getElem?_sub, decide_eq_true_eq]
    exact ⟨⟨positive, here⟩, by omega, by omega⟩
  have increasing : (neighbours line source).Pairwise fun first second => first.2 < second.2 := by
    apply List.Pairwise.filter
    apply List.pairwise_map.mp
    rw [List.zipIdx_map_snd]
    exact List.pairwise_lt_range'
  obtain ⟨earlier, later, split⟩ := List.append_of_mem member
  rw [split, List.pairwise_append, List.pairwise_cons] at increasing
  obtain ⟨-, ⟨behind, -⟩, before⟩ := increasing
  exact ⟨earlier, later, split, fun entry inside => before entry inside _ List.mem_cons_self,
    behind⟩

/-- The report of a line of the text has the arrow there and nowhere else. -/
theorem lineReport_split {text : String} (positive : 1 ≤ line)
    (here : (lines source)[line - 1]? = some text) :
    ∃ earlier later, neighbours line source = earlier ++ (text, line) :: later ∧
      (∀ entry ∈ earlier, entry.2 < line) ∧ (∀ entry ∈ later, line < entry.2) ∧
      lineReport filename source line =
        "  File \"" ++ filename ++ "\", line " ++ toString line ++ "\n" ++
          String.join (earlier.map (entryLine "     ")) ++ entryLine "---->" (text, line) ++
          String.join (later.map (entryLine "     ")) ++ "\n" := by
  obtain ⟨earlier, later, split, before, behind⟩ := neighbours_split positive here
  refine ⟨earlier, later, split, before, behind, ?_⟩
  have unmarked {entries : List (String × Nat)} (others : ∀ entry ∈ entries, entry.2 ≠ line) :
      entries.map (fun entry => entryLine (if entry.2 = line then "---->" else "     ") entry) =
        entries.map (entryLine "     ") := by
    apply List.map_congr_left
    intro entry member
    rw [if_neg (others entry member)]
  rw [lineReport_eq positive, split, List.map_append, List.map_cons, if_pos rfl,
    unmarked fun entry member => Nat.ne_of_lt (before entry member),
    unmarked fun entry member => Nat.ne_of_gt (behind entry member), String.join_append,
    String.join_cons]
  simp only [String.append_assoc]

end Diagnostic

theorem Lexer.run_standsIn : ∀ token ∈ (Lexer.ofText filename source).run.tokens,
    token.StandsIn source.toList := by
  intro token member
  obtain ⟨step, steps, rfl⟩ := List.mem_map.mp member
  obtain ⟨front, later, split⟩ := List.append_of_mem steps
  obtain ⟨_, hasRead⟩ := Lexer.ofText_hasRead split
  exact hasRead.inText

/-- A token but the end is on the line of the text that has its number. -/
theorem Token.StandsIn.shown (inText : token.StandsIn source.toList) (inside : token.kind ≠ .eof) :
    ∃ text spelling, (lines source)[token.line - 1]? = some text ∧
      IsLexeme spelling token.kind ∧ spelling <+: text.toList.drop token.span.column := by
  cases inText with
  | ending isEnd => exact (inside isEnd).elim
  | @lexeme before spelling behind whole lexeme _ span =>
      have noReturn : '\r' ∉ spelling := by
        intro member
        have noBlank := lexeme.form.no_blank '\r' member
        contradiction
      obtain ⟨text, here, shows⟩ :=
        lines_at whole lexeme.form.on_line noReturn lexeme.form.nonempty
      rw [Token.line, span]
      exact ⟨text, spelling, here, lexeme, shows⟩

/-- A type fault is on the line of a token that was read. -/
theorem compile_typing_line (refused : compile filename source = .error (.typing fault line)) :
    ∃ token ∈ (Lexer.ofText filename source).run.tokens, token.kind ≠ .eof ∧
      token.line = line := by
  obtain ⟨program, checked, parsed, failed⟩ := compile_typing refused
  exact Program.check_line_mem (Program.parse_eq_ok_iff.mp parsed) failed

/-- The report of a type fault shows the lines of the text from two before its line to two behind,
as far as they are there, each with its own number. The arrow is at the line of the fault, which
holds a token, and at no other. -/
theorem type_report_marks_line (refused : compile filename source = .error (.typing fault line))
    (name : String) :
    ∃ token ∈ (Lexer.ofText filename source).run.tokens, ∃ text spelling earlier later,
      token.line = line ∧ IsLexeme spelling token.kind ∧
      spelling <+: text.toList.drop token.span.column ∧
      1 ≤ line ∧ (lines source)[line - 1]? = some text ∧
      Diagnostic.neighbours line source = earlier ++ (text, line) :: later ∧
      (∀ entry ∈ earlier, entry.2 < line) ∧ (∀ entry ∈ later, line < entry.2) ∧
      (CompileError.typing fault line).report name source =
        "  File \"" ++ name ++ "\", line " ++ toString line ++ "\n" ++
          String.join (earlier.map (Diagnostic.entryLine "     ")) ++
          Diagnostic.entryLine "---->" (text, line) ++
          String.join (later.map (Diagnostic.entryLine "     ")) ++ "\n" ++
          (CompileError.typing fault line).diagnostic.display := by
  obtain ⟨token, member, inside, rfl⟩ := compile_typing_line refused
  have inText := Lexer.run_standsIn token member
  obtain ⟨text, spelling, here, lexeme, shows⟩ := inText.shown inside
  obtain ⟨earlier, later, split, before, behind, shown⟩ :=
    Diagnostic.lineReport_split inText.line_pos here
  refine ⟨token, member, text, spelling, earlier, later, rfl, lexeme, shows, inText.line_pos, here,
    split, before, behind, ?_⟩
  rw [← shown]
  rfl

/-- The fault is on the last line, behind a blank one. The line ends in a carriage return, but in no
newline. -/
def faultAtEnd : String :=
  "\x7b int x; bool b;\r\n\r\n x = b; \x7d\r"

set_option maxRecDepth 2048 in
theorem faultAtEnd_marks_line :
    let fault := TypeFault.basicMismatch ⟨.bool, 0⟩ ⟨.int, 0⟩
    compile "kinds" faultAtEnd = .error (.typing fault 3) ∧
      (CompileError.typing fault 3).report "kinds" faultAtEnd =
        "  File \"kinds\", line 3\n      1 \x7b int x; bool b;\n      2 \n" ++
        "----> 3  x = b; \x7d\r\n\nTypeError: type mismatch: cannot assign 'bool' to 'int'" ∧
      ∃ token ∈ (Lexer.ofText "kinds" faultAtEnd).run.tokens, token.line = 3 := by
  intro fault
  have refused : compile "kinds" faultAtEnd = .error (.typing fault 3) := by cbv
  obtain ⟨token, member, _, _, _, _, line, -⟩ := type_report_marks_line refused "kinds"
  have neighbours : Diagnostic.neighbours 3 faultAtEnd =
      [("\x7b int x; bool b;", 1), ("", 2), (" x = b; \x7d\r", 3)] := by cbv
  refine ⟨refused, ?_, token, member, line⟩
  rw [CompileError.report, CompileError.diagnostic, Diagnostic.report,
    Diagnostic.lineReport_eq (by decide), neighbours]
  rfl

end ThreeAddress

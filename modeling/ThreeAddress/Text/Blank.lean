import ThreeAddress.Text.Ranges

namespace ThreeAddress.Text

/-- The characters with the Unicode property White_Space. -/
def blankRanges : Ranges :=
  [ (9, 13), (32, 32), (133, 133), (160, 160), (5760, 5760), (8192, 8202), (8232, 8233),
    (8239, 8239), (8287, 8287), (12288, 12288) ]

/-- Whether a character separates tokens. -/
def isBlank (c : Char) : Bool :=
  blankRanges.contains c.toNat

theorem isBlank_of_isWhitespace {c : Char} (space : c.isWhitespace = true) : isBlank c = true := by
  simp only [Char.isWhitespace, Bool.or_eq_true, decide_eq_true_eq] at space
  rcases space with ((rfl | rfl) | rfl) | rfl <;> decide

def trimEnd (text : String) : String :=
  String.ofList (text.toList.reverse.dropWhile isBlank).reverse

end ThreeAddress.Text

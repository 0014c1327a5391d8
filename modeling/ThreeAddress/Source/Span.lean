namespace ThreeAddress.Source

/-- A run of characters on one line. Lines count from one, columns from zero; line zero
stands for a place before any text was read. -/
structure Span where
  line : Nat := 0
  column : Nat := 0
  length : Nat := 0
deriving DecidableEq

def Span.endColumn (span : Span) : Nat :=
  span.column + span.length

/-- What a report shows of the source: a run of characters to underline, the line it
lies on, and every line read so far. -/
structure Excerpt where
  filename : String := ""
  line : Nat := 0
  column : Nat := 0
  length : Nat := 0
  lineText : String := ""
  lines : List String := []
deriving DecidableEq

end ThreeAddress.Source

import ThreeAddress.Source.Span

namespace ThreeAddress.Source

/-!
# Where the reading stands

A tracker follows the lookahead character through a text. It knows the line and
the column of that character, the lines read so far and the places of the last
two tokens. A line is recorded up to its lookahead character, so it is complete
only once the reading stands on its newline.
-/

structure Tracker where
  line : Nat := 1
  column : Nat := 0
  /-- The characters of the current line, the lookahead included, latest first. -/
  current : List Char := []
  /-- The lines that a newline has ended, latest first. -/
  finished : List String := []
  tokenStart : Span := {}
  last : Span := {}
  previous : Span := {}
deriving DecidableEq

namespace Tracker

/-- Whether a character is shown in the text of its line. Newlines end the line, and
carriage returns are left out. -/
def isShown (c : Char) : Bool :=
  c != '\n' && c != '\r'

def leave (tracker : Tracker) : Option Char → Tracker
  | none => tracker
  | some c =>
      if c = '\n' then
        { tracker with
          line := tracker.line + 1
          column := 0
          current := []
          finished := String.ofList tracker.current.reverse :: tracker.finished }
      else { tracker with column := tracker.column + 1 }

def meet (tracker : Tracker) : Option Char → Tracker
  | none => tracker
  | some c => if isShown c then { tracker with current := c :: tracker.current } else tracker

def advance (tracker : Tracker) (old new : Option Char) : Tracker :=
  (tracker.leave old).meet new

def startToken (tracker : Tracker) : Tracker :=
  { tracker with tokenStart := { line := tracker.line, column := tracker.column } }

def tokenLength (tracker : Tracker) : Nat :=
  tracker.column - tracker.tokenStart.column

def tokenSpan (tracker : Tracker) : Span :=
  { tracker.tokenStart with length := tracker.tokenLength }

def finishToken (tracker : Tracker) : Tracker :=
  { tracker with previous := tracker.last, last := tracker.tokenSpan }

/-- All lines read so far, the partly read one included. -/
def lines (tracker : Tracker) : List String :=
  tracker.finished.reverse ++ [String.ofList tracker.current.reverse]

/-- The excerpt that underlines a run of characters. A place before any text counts as
being on the first line. -/
def excerpt (tracker : Tracker) (filename : String) (span : Span) : Excerpt where
  filename := filename
  line := span.line
  column := span.column
  length := span.length
  lineText := tracker.lines[span.line - 1]?.getD ""
  lines := tracker.lines

end Tracker

end ThreeAddress.Source

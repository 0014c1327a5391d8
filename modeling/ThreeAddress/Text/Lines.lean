namespace ThreeAddress.Text

/-- The characters of a line, latest first, without a carriage return at its end. -/
def dropReturn : List Char → List Char
  | '\r' :: before => before
  | line => line

/-- The lines of a text, given the characters of its first line that have been passed,
latest first. -/
def linesFrom (passed : List Char) : List Char → List String
  | [] => if passed.isEmpty then [] else [String.ofList passed.reverse]
  | c :: rest =>
      if c = '\n' then String.ofList (dropReturn passed).reverse :: linesFrom [] rest
      else linesFrom (c :: passed) rest

/-- The lines of a text. One that ends with a newline has no empty line after it. -/
def lines (text : String) : List String :=
  linesFrom [] text.toList

end ThreeAddress.Text

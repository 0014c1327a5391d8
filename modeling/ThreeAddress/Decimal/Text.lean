import ThreeAddress.Decimal.Shortest

namespace ThreeAddress.Decimal

/-- The least exponent of a leading digit that is written in positional notation. -/
def positionalFrom : Int := -4

/-- The least exponent of a leading digit that is too large for positional notation. -/
def positionalBelow : Int := 16

def dropTrailingZeros (digits : List Char) : List Char :=
  (digits.reverse.dropWhile (· == '0')).reverse

/-- Positional notation of `0.d₁d₂… * 10 ^ places`, with at least one digit on either side
of the point. -/
def positional (digits : List Char) (places : Int) : List Char :=
  if places ≤ 0 then
    '0' :: '.' :: (List.replicate (-places).toNat '0' ++ digits)
  else
    let whole := places.toNat
    if digits.length ≤ whole then
      digits ++ List.replicate (whole - digits.length) '0' ++ ['.', '0']
    else
      digits.take whole ++ '.' :: digits.drop whole

/-- Scientific notation of `d₁.d₂d₃… * 10 ^ power`, without a point after a lone digit. -/
def scientific (digits : List Char) (power : Int) : List Char :=
  let mantissa := match digits with
    | first :: second :: rest => first :: '.' :: second :: rest
    | _ => digits
  mantissa ++ 'e' :: (toString power).toList

def Scaled.chars (x : Scaled) : List Char :=
  let all := Nat.toDigits 10 x.coefficient
  let digits := dropTrailingZeros all
  let power : Int := x.exponent + all.length - 1
  if positionalFrom ≤ power ∧ power < positionalBelow then positional digits (power + 1)
  else scientific digits power

namespace Binary64

def magnitudeText (magnitude : Nat) : String :=
  if magnitude = infinityMagnitude then "inf"
  else if magnitude = 0 then "0.0"
  else String.ofList (shortest (significand magnitude) (exponent magnitude)).chars

/-- The text of a number; zero keeps its sign, and a result without a value has none. -/
def text (x : Binary64) : String :=
  if x.isNaN then "NaN"
  else if x.isNegative then "-" ++ magnitudeText x.magnitude
  else magnitudeText x.magnitude

def natOfDigits (digits : List Char) : Nat :=
  digits.foldl (fun value digit => 10 * value + (digit.toNat - '0'.toNat)) 0

/-- The number with these digits before and after the point. -/
def ofDigits (negative : Bool) (whole fraction : List Char) (power : Int) : Binary64 :=
  ofScaled negative ⟨natOfDigits (whole ++ fraction), power - fraction.length⟩

/-- A power of ten: digits after an optional sign. -/
def power? (chars : List Char) : Option Int :=
  let (negative, digits) := match chars with
    | '-' :: rest => (true, rest)
    | '+' :: rest => (false, rest)
    | _ => (false, chars)
  if digits.isEmpty || !digits.all Char.isDigit then none
  else some (if negative then -(natOfDigits digits : Int) else natOfDigits digits)

/-- Reads an unsigned number: digits, at least one in all, around an optional point, then
an optional power of ten after `e` or `E`. -/
def unsigned? (negative : Bool) (chars : List Char) : Option Binary64 :=
  let whole := chars.takeWhile Char.isDigit
  let afterWhole := chars.dropWhile Char.isDigit
  let (fraction, afterFraction) := match afterWhole with
    | '.' :: rest => (rest.takeWhile Char.isDigit, rest.dropWhile Char.isDigit)
    | _ => ([], afterWhole)
  if whole.isEmpty && fraction.isEmpty then none
  else match afterFraction with
    | [] => some (ofDigits negative whole fraction 0)
    | mark :: rest =>
        if mark == 'e' || mark == 'E' then (power? rest).map (ofDigits negative whole fraction)
        else none

/-- Reads a number with an optional sign. The words for infinity and for no value may be
written in capitals. -/
def ofText? (text : String) : Option Binary64 :=
  let (negative, chars) := match text.toList with
    | '-' :: rest => (true, rest)
    | '+' :: rest => (false, rest)
    | chars => (false, chars)
  let word := String.ofList (chars.map Char.toLower)
  if word = "inf" ∨ word = "infinity" then some (ofMagnitude negative infinityMagnitude)
  else if word = "nan" then some nan
  else unsigned? negative chars

end Binary64

end ThreeAddress.Decimal

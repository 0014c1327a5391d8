namespace ThreeAddress.Decimal

/-!
# Binary64 numbers

A real number of the language is an IEEE 754 binary64 number, kept as its bits.
No arithmetic is ever done on one: it is read from decimal digits, exactly
rounded, and written back. `Binary64.nearest` is the rounding, to the nearest
number and to the even one of two equally near, in exact natural arithmetic.
-/

/-- A number with a decimal point: `coefficient * 10 ^ exponent`. -/
structure Scaled where
  coefficient : Nat
  exponent : Int
deriving DecidableEq

/-- An IEEE 754 binary64 number by its bits: sign, eleven bits of exponent and
fifty-two bits of fraction. -/
structure Binary64 where
  bits : UInt64
deriving DecidableEq

namespace Binary64

/-- The number of fractions of one exponent: two to the fifty-second. -/
def fractions : Nat := 4503599627370496

def signBit : Nat := 9223372036854775808

/-- The magnitude bits of infinity: every exponent bit set, no fraction bit. -/
def infinityMagnitude : Nat := 2047 * fractions

def ofMagnitude (negative : Bool) (magnitude : Nat) : Binary64 :=
  ⟨UInt64.ofNat ((if negative then signBit else 0) + magnitude)⟩

def isNegative (x : Binary64) : Bool :=
  decide (signBit ≤ x.bits.toNat)

/-- All bits but the sign. -/
def magnitude (x : Binary64) : Nat :=
  x.bits.toNat % signBit

def isNaN (x : Binary64) : Bool :=
  decide (infinityMagnitude < x.magnitude)

/-- A number that stands for every result without a value. -/
def nan : Binary64 := ofMagnitude false (infinityMagnitude + fractions / 2)

/-- A finite magnitude is `significand * 2 ^ exponent`. -/
def significand (magnitude : Nat) : Nat :=
  if magnitude < fractions then magnitude else magnitude % fractions + fractions

/-- The power of two that a finite magnitude's significand counts. -/
def exponent (magnitude : Nat) : Int :=
  if magnitude < fractions then -1074 else (magnitude / fractions : Nat) - 1075

/-- Equality of values: nothing equals a result without a value, and both zeros
are equal. -/
def equal (x y : Binary64) : Bool :=
  !x.isNaN && !y.isNaN && (x == y || (x.magnitude == 0 && y.magnitude == 0))

/-- The quotient rounded to the nearest natural number, a half to the even one. -/
def roundQuotient (numerator denominator : Nat) : Nat :=
  let whole := numerator / denominator
  let rest := numerator % denominator
  if 2 * rest < denominator then whole
  else if denominator < 2 * rest then whole + 1
  else whole + whole % 2

/-- A fraction over `2 ^ power`, again as a fraction. -/
def scaleDown (numerator denominator : Nat) (power : Int) : Nat × Nat :=
  if power < 0 then (numerator * Nat.pow 2 (-power).toNat, denominator)
  else (numerator, denominator * Nat.pow 2 power.toNat)

/-- The power of two at which the quotient has fifty-three binary digits, or the
least power a binary64 number has. -/
def quantum (numerator denominator : Nat) : Int :=
  let low : Int := (numerator.log2 : Int) - denominator.log2 - 53
  let scaled := scaleDown numerator denominator low
  max (-1074) (if scaled.1 / scaled.2 < 2 * fractions then low else low + 1)

/-- The magnitude bits of the binary64 number nearest to a quotient. A significand
that rounds up to fifty-four digits carries into the exponent by itself. -/
def nearest (numerator denominator : Nat) : Nat :=
  if numerator = 0 then 0
  else
    let power := quantum numerator denominator
    let scaled := scaleDown numerator denominator power
    min infinityMagnitude
      ((power + 1074).toNat * fractions + roundQuotient scaled.1 scaled.2)

def digitCount (n : Nat) : Nat :=
  (Nat.toDigits 10 n).length

/-- The magnitude bits nearest to a scaled decimal. Beyond `10 ^ 310` every
magnitude is infinite, and below `10 ^ (-330)` it is zero, so that the powers of
ten stay small. -/
def nearestScaled (x : Scaled) : Nat :=
  let top : Int := digitCount x.coefficient + x.exponent
  if x.coefficient = 0 then 0
  else if 310 < top then infinityMagnitude
  else if top < -330 then 0
  else if x.exponent < 0 then nearest x.coefficient (Nat.pow 10 (-x.exponent).toNat)
  else nearest (x.coefficient * Nat.pow 10 x.exponent.toNat) 1

def ofScaled (negative : Bool) (x : Scaled) : Binary64 :=
  ofMagnitude negative (nearestScaled x)

end Binary64

end ThreeAddress.Decimal

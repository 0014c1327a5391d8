import ThreeAddress.Decimal.Binary64

namespace ThreeAddress.Decimal

/-!
# The fewest digits that read back

Every real between the two midpoints around a binary64 number rounds to it; the
midpoints themselves do if its significand is even. `shortest` looks for a
decimal in that interval on grids of one, two, up to seventeen digits. On a grid
only the two neighbours of the number can be nearest, so the first grid with a
neighbour in the interval gives the fewest digits, and of two neighbours the
nearer is taken, the upper one in a tie.
-/

/-- The interval of reals that round to `significand * 2 ^ exponent`. Its ends and
its centre are counted in units of `2 ^ (exponent - 2)`. -/
structure Rounding where
  low : Nat
  centre : Nat
  high : Nat
  closed : Bool

/-- The lower midpoint is nearer where the next smaller number has finer steps. -/
def Rounding.of (significand : Nat) (exponent : Int) : Rounding where
  low := if significand = Binary64.fractions ∧ -1074 < exponent then 4 * significand - 1
    else 4 * significand - 2
  centre := 4 * significand
  high := 4 * significand + 2
  closed := significand % 2 = 0

/-- The exponent of the leading decimal digit of a positive quotient. -/
def leadingExponent (numerator denominator : Nat) : Int :=
  if denominator ≤ numerator then
    (Binary64.digitCount (numerator / denominator) : Int) - 1
  else
    -(Binary64.digitCount ((denominator - 1) / numerator) : Int)

namespace Rounding

/-- Whether a grid point lies in the interval, where `unit / step` is the size of
the interval's unit in steps of the grid. -/
def holds (interval : Rounding) (unit step point : Nat) : Bool :=
  if interval.closed then
    decide (interval.low * unit ≤ point * step) && decide (point * step ≤ interval.high * unit)
  else
    decide (interval.low * unit < point * step) && decide (point * step < interval.high * unit)

/-- The neighbour of the centre on a grid that lies in the interval, the nearer one
of two. -/
def neighbour? (interval : Rounding) (unit step : Nat) : Option Nat :=
  let below := interval.centre * unit / step
  match interval.holds unit step below, interval.holds unit step (below + 1) with
  | true, true =>
      if 2 * (interval.centre * unit) < (2 * below + 1) * step then some below
      else some (below + 1)
  | true, false => some below
  | false, true => some (below + 1)
  | false, false => none

/-- The first grid with a neighbour in the interval, from `10 ^ power` downwards, among
the next `grids` many. The unit of the interval is `numerator / denominator`. -/
def search (interval : Rounding) (numerator denominator : Nat) : Nat → Int → Option Scaled
  | 0, _ => none
  | grids + 1, power =>
      let unit := numerator * Nat.pow 10 (-power).toNat
      let step := denominator * Nat.pow 10 power.toNat
      match interval.neighbour? unit step with
      | some point => some ⟨point, power⟩
      | none => interval.search numerator denominator grids (power - 1)

end Rounding

/-- The decimal with the fewest digits that rounds to `significand * 2 ^ exponent`,
and of those the nearest. Seventeen digits always suffice. -/
def shortest (significand : Nat) (exponent : Int) : Scaled :=
  let interval := Rounding.of significand exponent
  let unit := Nat.pow 2 (exponent - 2).toNat
  let denominator := Nat.pow 2 (2 - exponent).toNat
  let top := leadingExponent (interval.centre * unit) denominator
  (interval.search unit denominator 17 top).getD ⟨0, 0⟩

end ThreeAddress.Decimal

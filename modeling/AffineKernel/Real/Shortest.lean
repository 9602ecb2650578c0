import AffineKernel.Real.Binary64

/-!
# Shortest decimals of binary numbers

The text of a double shows the fewest decimal digits that read back as the same
double, and among those the decimal nearest to it.

A number `mantissa * 2 ^ exponent` is read back from every decimal in the
interval around it that reaches halfway to its two neighbours; the ends of the
interval belong to it exactly when the mantissa is even. The neighbour below a
power of two is at half the usual distance. On the grid of multiples of a power
of ten only the two points around the number have to be tried: if the interval
holds any point of the grid, it holds one of these. The grids are tried from
the coarsest on, and the first with a point in the interval wins.
-/

set_option autoImplicit false

namespace AffineKernel.Shortest

/-- A positive decimal `digits * 10 ^ exponent`. -/
structure Decimal where
  digits : Nat
  exponent : Int
deriving DecidableEq

/-- A binary number in quarters of its last place, with the interval that reads back as it. All
three are over the unit `2 ^ exponent`. -/
structure Interval where
  low : Nat
  value : Nat
  high : Nat
  /-- Whether the two ends belong to the interval. -/
  closed : Bool
  exponent : Int

/-- The interval of a positive number with the given mantissa and exponent. -/
def Interval.ofBinary (mantissa : Nat) (exponent : Int) : Interval :=
  let narrow := mantissa = 2 ^ 52 ∧ exponent ≠ Binary64.minExponent
  { low := 4 * mantissa - (if narrow then 1 else 2)
    value := 4 * mantissa
    high := 4 * mantissa + 2
    closed := mantissa % 2 = 0
    exponent := exponent - 2 }

/-- Whether the interval, as a range of numbers over a common unit, holds a number. -/
def Interval.holds (closed : Bool) (low high point : Nat) : Bool :=
  if closed then low ≤ point && point ≤ high else low < point && point < high

/-- Factors by which numerators over `2 ^ binary` and multiples of `10 ^ decimal` come over one
unit. -/
def commonFactors (binary decimal : Int) : Nat × Nat :=
  (2 ^ binary.toNat * 10 ^ (-decimal).toNat, 2 ^ (-binary).toNat * 10 ^ decimal.toNat)

/-- The point of the grid of multiples of `10 ^ grid` that reads back as the number: of two such
points the nearer, and of two equally near the larger. -/
def Interval.pointOn? (interval : Interval) (grid : Int) : Option Nat :=
  let (ours, step) := commonFactors interval.exponent grid
  let value := interval.value * ours
  let below := value / step
  let above := below + 1
  let inside (point : Nat) : Bool :=
    holds interval.closed (interval.low * ours) (interval.high * ours) (point * step)
  if inside below then
    if inside above && above * step - value ≤ value - below * step then some above
    else some below
  else if inside above then some above
  else none

/-- A power of ten above every number of at most `bits` binary digits before the point. -/
def coarsestGrid (bits : Int) : Int := bits * 30103 / 100000 + 2

/-- Shortest decimal of the positive number `mantissa * 2 ^ exponent`. Seventeen digits always
suffice, so the search over the grids ends with a point. -/
def ofBinary (mantissa : Nat) (exponent : Int) : Decimal :=
  let interval := Interval.ofBinary mantissa exponent
  let top := coarsestGrid (exponent + mantissa.log2 + 1)
  let found := (List.range 24).findSome? fun (step : Nat) =>
    (interval.pointOn? (top - step)).map fun digits => Decimal.mk digits (top - step)
  found.getD ⟨0, 0⟩

end AffineKernel.Shortest

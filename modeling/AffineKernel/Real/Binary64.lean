import AffineKernel.Power

/-!
# Binary floating point numbers as scaled integers

A finite double is an integer mantissa times a power of two. `Binary64.read`
takes a double apart into sign, mantissa and exponent, and
`Binary64.ofScaled` rounds a scaled integer to the nearest double, a tie going
to the even mantissa. Everything that has to be exact on doubles goes through
these two: rounding integers of any size to a double, cutting a double off to
an integer in a given range, and the remainder of a division.

Plain arithmetic on doubles is the machine's and is used as it is.
-/

set_option autoImplicit false

namespace AffineKernel.Binary64

/-- What the bits of a double say. -/
inductive Reading where
  | nan
  | infinite (negative : Bool)
  /-- The number `mantissa * 2 ^ exponent`, negated if `negative`. -/
  | finite (negative : Bool) (mantissa : Nat) (exponent : Int)
deriving DecidableEq

/-- Exponent of the smallest positive double. -/
def minExponent : Int := -1074

/-- Takes a double apart. -/
def read (x : Float) : Reading :=
  let bits := x.toBits.toNat
  let negative := decide (2 ^ 63 ≤ bits)
  let biased := bits / 2 ^ 52 % 2 ^ 11
  let fraction := bits % 2 ^ 52
  if biased = 2047 then
    if fraction = 0 then .infinite negative else .nan
  else if biased = 0 then .finite negative fraction minExponent
  else .finite negative (2 ^ 52 + fraction) (Int.ofNat biased - 1 + minExponent)

/-- The double of a sign and the remaining 63 bits. -/
def ofMagnitudeBits (negative : Bool) (bits : Nat) : Float :=
  Float.ofBits (UInt64.ofNat (if negative then 2 ^ 63 + bits else bits))

/-- The quotient `value / 2 ^ shift` rounded to the nearest integer, a tie to the even one. -/
def shiftRounded (value shift : Nat) : Nat :=
  let quotient := value / 2 ^ shift
  let remainder := value % 2 ^ shift
  let twice := 2 * remainder
  if twice < 2 ^ shift then quotient
  else if twice = 2 ^ shift then quotient + quotient % 2
  else quotient + 1

/-- The double nearest to `mantissa * 2 ^ exponent`, negated if `negative`; a tie goes to the even
mantissa, and numbers beyond the largest double become infinite. -/
def ofScaled (negative : Bool) (mantissa : Nat) (exponent : Int) : Float :=
  let unit := max (exponent + mantissa.log2 - 52) minExponent
  let kept :=
    if unit ≤ exponent then mantissa * 2 ^ (exponent - unit).toNat
    else shiftRounded mantissa (unit - exponent).toNat
  let bits := if mantissa = 0 then 0 else (unit - minExponent).toNat * 2 ^ 52 + kept
  ofMagnitudeBits negative (min bits (2047 * 2 ^ 52))

/-- The double nearest to an integer. -/
def ofInt (value : Int) : Float := ofScaled (value < 0) value.natAbs 0

/-- The double `2 ^ exponent`; for a negative exponent, the reciprocal of the double of the opposite
one, so that it is zero where that one is infinite. -/
def powerOfTwo (exponent : Int) : Float :=
  if exponent < 0 then 1.0 / ofScaled false 1 (-exponent) else ofScaled false 1 exponent

/-- The integer part of `mantissa * 2 ^ exponent`. -/
def wholePart (mantissa : Nat) (exponent : Int) : Nat :=
  if 0 ≤ exponent then mantissa * 2 ^ exponent.toNat else mantissa / 2 ^ (-exponent).toNat

/-- A double cut off toward zero and brought into the range from `low` to `high`; zero for no
number. -/
def truncate (low high : Int) (x : Float) : Int :=
  match read x with
  | .nan => 0
  | .infinite true => low
  | .infinite false => high
  | .finite negative mantissa exponent =>
    let whole : Int := wholePart mantissa exponent
    max low (min high (if negative then -whole else whole))

/-- Remainder of `x` by `y`, exact, with the sign of `x`: `x` less the multiple of `y` by the
quotient cut off toward zero. -/
def remainder (x y : Float) : Float :=
  match read x, read y with
  | .finite negative mantissa exponent, .finite _ divisor divisorExponent =>
    let unit := min exponent divisorExponent
    let scaled := mantissa * 2 ^ (exponent - unit).toNat
    let scaledDivisor := divisor * 2 ^ (divisorExponent - unit).toNat
    if divisor = 0 then 0.0 / 0.0 else ofScaled negative (scaled % scaledDivisor) unit
  | .finite _ _ _, .infinite _ => x
  | _, _ => 0.0 / 0.0

/-- The nearest single precision number, as a double. -/
def toSingle (x : Float) : Float := x.toFloat32.toFloat

end AffineKernel.Binary64

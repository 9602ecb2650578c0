import AffineKernel.Real.Shortest

/-!
# Layout of decimals

Two layouts write a double from its shortest digits. The *marked* layout, for attributes,
always shows that the number is a float: numbers from one ten-thousandth up to
ten to the sixteenth are positional with at least one digit after the point, all
others carry an exponent. The *plain* layout is always positional and shows no
point after a whole number.

Zero keeps its sign. Infinities and the absence of a number have names.
-/

set_option autoImplicit false

namespace AffineKernel

/-- How a double is written. -/
structure FloatLayout where
  /-- Largest power of ten, counted in digits before the point, that is written positionally. -/
  maxPlain : Option Int
  /-- Smallest one; negative counts are zeros after the point. -/
  minPlain : Option Int
  /-- Whether a whole number in positional notation ends in a point and a zero. -/
  keepsPoint : Bool

namespace FloatLayout

/-- Layout of attributes. -/
def marked : FloatLayout := ⟨some 16, some (-3), true⟩

/-- Layout of literals in trees and messages. -/
def plain : FloatLayout := ⟨none, none, false⟩

/-- Whether a number with `places` digits before the point is written positionally. -/
def isPositional (layout : FloatLayout) (places : Int) : Bool :=
  layout.maxPlain.all (places ≤ ·) && layout.minPlain.all (· ≤ places)

/-- A run of zeros. -/
def zeros (count : Int) : List Char := List.replicate count.toNat '0'

/-- Digits with the point after the first `places` of them. -/
def positional (layout : FloatLayout) (digits : List Char) (places : Int) : List Char :=
  if places ≤ 0 then ['0', '.'] ++ zeros (-places) ++ digits
  else if places < digits.length then
    digits.take places.toNat ++ ['.'] ++ digits.drop places.toNat
  else
    digits ++ zeros (places - digits.length) ++ (if layout.keepsPoint then ['.', '0'] else [])

/-- Digits with the point after the first, and the exponent of the first. -/
def scientific (digits : List Char) (places : Int) : List Char :=
  digits.take 1 ++ (if digits.length ≤ 1 then [] else '.' :: digits.drop 1) ++
    'e' :: (places - 1).repr.toList

/-- Writes the number `mantissa * 2 ^ exponent`. -/
def magnitude (layout : FloatLayout) (mantissa : Nat) (exponent : Int) : List Char :=
  if mantissa = 0 then if layout.keepsPoint then ['0', '.', '0'] else ['0']
  else
    let decimal := Shortest.ofBinary mantissa exponent
    let digits := Nat.toDigits 10 decimal.digits
    let places := digits.length + decimal.exponent
    if layout.isPositional places then layout.positional digits places
    else scientific digits places

/-- Writes a double. -/
def render (layout : FloatLayout) (x : Float) : String :=
  match Binary64.read x with
  | .nan => "NaN"
  | .infinite negative => if negative then "-inf" else "inf"
  | .finite negative mantissa exponent =>
    let digits := layout.magnitude mantissa exponent
    String.ofList (if negative then '-' :: digits else digits)

end FloatLayout

end AffineKernel

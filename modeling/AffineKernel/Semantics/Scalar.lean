import AffineKernel.DType.Scale

/-!
# Scalars

A scalar is an integer or a float. Integers, `index` values and fixed point
numbers are all held as an integer, a fixed point number by its raw integer; a
value is *normalized* when it lies in the raw range of its type.

`normalize` brings any integer into that range by keeping its low bits: with
sign for signed types, without sign for unsigned types and for `int1`.
`Scalar.convert` takes a scalar of one type to another one: raw integers are
rescaled, rounding down, and normalized; floats are cut off toward zero.

A register holds 128 bits. Every result is normalized to a type of fewer bits,
so it is enough to wrap at the width of the type, except where a wide
intermediate result is shifted down or divided before it is normalized:
`wrapRegister` is for these.
-/

set_option autoImplicit false

namespace AffineKernel

/-- A scalar value. -/
inductive Scalar where
  | int (value : Int)
  | float (value : Float)
deriving Inhabited

/-- Low bits of an integer, with sign. -/
def signed (value : Int) (width : Nat) : Int := value.bmod (2 ^ width)

/-- Low bits of an integer, without sign. -/
def unsigned (value : Int) (width : Nat) : Int := value % 2 ^ width

/-- Number of bits of a register. -/
def registerWidth : Nat := 128

/-- An integer as a register holds it. -/
def wrapRegister (value : Int) : Int := signed value registerWidth

/-- Brings an integer into the raw range of a type. -/
def normalize (value : Int) (dtype : DType) : Int :=
  if dtype.isUnsigned || dtype.isBool then unsigned value dtype.width else signed value dtype.width

/-- Rounds a float to the precision of a type. Half precision is computed in double precision. -/
def roundFloat (x : Float) : DType → Float
  | .float32 => Binary64.toSingle x
  | _ => x

/-- A raw integer with `source` bits after the point as one with `target` bits after the point,
rounded down. -/
def rescale (value : Int) (source target : Nat) : Int :=
  if source ≤ target then value * 2 ^ (target - source) else value / 2 ^ (source - target)

/-- Least and greatest integer of a register. -/
def registerMin : Int := -2 ^ 127

def registerMax : Int := 2 ^ 127 - 1

namespace Scalar

/-- A float as a scalar of a type. -/
def ofFloat (x : Float) (target : DType) : Scalar :=
  match target.category with
  | .float => .float (roundFloat x target)
  | .int => .int (normalize (Binary64.truncate registerMin registerMax x) target)
  | .fixed =>
    .int (normalize (Binary64.truncate registerMin registerMax (x * target.scale)) target)

/-- A raw integer of type `source` as a scalar of type `target`. -/
def ofRaw (value : Int) (source target : DType) : Scalar :=
  match source.category, target.category with
  | .float, _ => ofFloat (Binary64.ofInt value) target
  | _, .float => .float (roundFloat (Binary64.ofInt value / source.scale) target)
  | _, _ => .int (normalize (rescale value source.fraction target.fraction) target)

/-- Converts a scalar of type `source` to type `target`. -/
def convert (scalar : Scalar) (source target : DType) : Scalar :=
  match scalar with
  | .int value => ofRaw value source target
  | .float x => ofFloat x target

def asInt? : Scalar → Option Int
  | .int value => some value
  | .float _ => none

def asFloat? : Scalar → Option Float
  | .float x => some x
  | .int _ => none

/-- The number that a scalar of a type stands for, as a double. -/
def toFloat (scalar : Scalar) (dtype : DType) : Float :=
  match scalar.convert dtype .float64 with
  | .float x => x
  | .int value => Binary64.ofInt value

/-- The zero of a type. -/
def zero (dtype : DType) : Scalar := if dtype.isFloat then .float 0.0 else .int 0

end Scalar

end AffineKernel

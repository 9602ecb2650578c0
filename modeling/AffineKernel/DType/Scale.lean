import AffineKernel.DType.Basic
import AffineKernel.Real.Binary64

/-!
# Scales of fixed point types

A fixed point number is its raw integer divided by the scale of its type, two to
the number of bits after the point. Types without a point have the scale one.

The number of bits after the point is held in a word of 32 bits, and a scale is
computed from this word read with its sign. The types that a kernel may use have
at most 64 such bits, where the sign makes no difference; a number of bits with
the top bit of the word set counts down from zero, and its type has a scale
below one.
-/

set_option autoImplicit false

namespace AffineKernel.DType

/-- Exponent of the scale: the number of bits after the point, as a signed word of 32 bits. -/
def scaleExponent (dtype : DType) : Int := (dtype.fraction : Int).bmod (2 ^ 32)

/-- What the raw integers of a type are to be divided by. -/
def scale (dtype : DType) : Float := Binary64.powerOfTwo dtype.scaleExponent

end AffineKernel.DType

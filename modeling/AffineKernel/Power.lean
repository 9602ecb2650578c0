/-!
# Powers

Natural numbers and integers have one power operation here, the one of the core
library. It is given priority over the one that comes with an algebraic
structure, so that `2 ^ width` is the same term wherever it is written.
-/

set_option autoImplicit false

namespace AffineKernel

/-- The power operation of the core library. -/
@[default_instance high]
instance (priority := high) corePow {α : Type} [NatPow α] : Pow α Nat := instPowNat

end AffineKernel

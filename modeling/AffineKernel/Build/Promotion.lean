import AffineKernel.Build.Error

/-!
# Promotion

Before an operator is applied, its operands are brought to a common type. The
operand of lower rank is cast toward the type of the other one; fixed point
operands are then widened to one width. Shifts and bit operators instead cast
the right operand to the type of the left one.

These are rules on types alone; the casts are inserted by the node constructors.
-/

set_option autoImplicit false

namespace AffineKernel.Promotion

/-- The type that an operand of type `low` is cast to beside one of the higher type `high`. A fixed
point operand beside a wider one keeps its type, and is widened afterwards. -/
def castTarget (high low : DType) : Except BuildError DType :=
  let refused := Except.error (BuildError.unsupportedConversion high low)
  match high with
  | .float64 => .ok .float64
  | .float32 => .ok .float32
  | .int _ | .uint _ | .index => .ok high
  | .fixed _ fraction =>
    if low.isIntegerLike then .ok (.fixed low.width fraction)
    else if low.isFixed then .ok low
    else refused
  | .ufixed _ fraction =>
    if low.isIntegerLike then .ok (.ufixed low.width fraction)
    else if low.isFixed then .ok low
    else refused
  | .float16 => refused

/-- Rank of a type as a step of building. -/
def rankOf (dtype : DType) : Except BuildError Nat :=
  dtype.rank.mapError BuildError.invalidType

/-- Casts the operand of lower rank toward the type of the other. -/
def byRank (lhs rhs : DType) : Except BuildError (DType × DType) := do
  let left ← rankOf lhs
  let right ← rankOf rhs
  if left = right then return (lhs, rhs)
  else if right < left then return (lhs, ← castTarget lhs rhs)
  else return (← castTarget rhs lhs, rhs)

/-- Brings fixed point operands of one fraction to the larger of their widths. -/
def regularize (lhs rhs : DType) : Except BuildError (DType × DType) :=
  if !lhs.isFixed && !rhs.isFixed then .ok (lhs, rhs)
  else if !(lhs.isFixed && rhs.isFixed) then .error (.unsupportedConversion lhs rhs)
  else if lhs.fraction? ≠ rhs.fraction? then .error (.fractionMismatch lhs rhs)
  else
    let width := max lhs.width rhs.width
    .ok (lhs.withWidth width, rhs.withWidth width)

/-- Operand types of an arithmetic operator or comparison. -/
def arithmetic (lhs rhs : DType) : Except BuildError (DType × DType) := do
  let (lhs, rhs) ← byRank lhs rhs
  regularize lhs rhs

/-- Refuses floats and fixed point numbers as operands of a shift or bit operator. -/
def checkBits (kind : BinaryKind) (dtype : DType) : Except BuildError Unit :=
  if dtype.isFloat then .error (.floatOperand kind dtype)
  else if dtype.isFixed then .error (.unsupportedOperation kind.name dtype)
  else .ok ()

/-- Operand types of a shift or bit operator. -/
def bitwise (kind : BinaryKind) (lhs rhs : DType) : Except BuildError (DType × DType) := do
  checkBits kind lhs
  checkBits kind rhs
  return (lhs, lhs)

end AffineKernel.Promotion

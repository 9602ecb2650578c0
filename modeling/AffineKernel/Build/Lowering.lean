import AffineKernel.Build.Error
import AffineKernel.Build.Expr
import AffineKernel.DType.Scale
import AffineKernel.IR.Attribute
import AffineKernel.IR.OpKind
import AffineKernel.IR.Predicate

/-!
# Lowering of operators

Which operation an operator becomes depends on the type of its operands:
signed and unsigned integers, fixed point numbers and floats have operations of
their own. The same holds for the code of a comparison, for the attribute of a
constant, and for the start value and the operation of a reduction.
-/

set_option autoImplicit false

namespace AffineKernel

/-- Operation of an operator on operands of a type. -/
def BinaryKind.lower (kind : BinaryKind) (dtype : DType) : Except BuildError OpKind :=
  let unsigned := dtype.isUnsigned
  match kind, dtype.category with
  | .add, .int => .ok .addI
  | .sub, .int => .ok .subI
  | .mul, .int => .ok .mulI
  | .div, .int => .ok (if unsigned then .divUI else .divSI)
  | .floorDiv, .int => .ok (if unsigned then .divUI else .floorDivSI)
  | .rem, .int => .ok (if unsigned then .remUI else .remSI)
  | .shl, .int => .ok .shlI
  | .shr, .int => .ok (if unsigned then .shrUI else .shrSI)
  | .and, .int => .ok .andI
  | .or, .int => .ok .orI
  | .xor, .int => .ok .xorI
  | .add, .float => .ok .addF
  | .sub, .float => .ok .subF
  | .mul, .float => .ok .mulF
  | .div, .float | .floorDiv, .float => .ok .divF
  | .rem, .float => .ok .remF
  | .add, .fixed => .ok .addFixed
  | .sub, .fixed => .ok .subFixed
  | .mul, .fixed => .ok .mulFixed
  | .div, .fixed => .ok .divFixed
  | _, _ => .error (.unsupportedOperation kind.name dtype)

/-- Operation of a function of one operand. -/
def UnaryKind.lower : UnaryKind → OpKind
  | .neg => .negF
  | .exp => .exp
  | .log => .log
  | .log2 => .log2
  | .log10 => .log10
  | .sqrt => .sqrt
  | .sin => .sin
  | .cos => .cos
  | .tanh => .tanh

namespace Comparison

/-- Predicate of a comparison of integers or fixed point numbers. -/
def intPredicate (kind : Comparison) (unsigned : Bool) : IntPredicate :=
  match kind with
  | .eq => .eq
  | .ne => .ne
  | .lt => if unsigned then .ult else .slt
  | .le => if unsigned then .ule else .sle
  | .gt => if unsigned then .ugt else .sgt
  | .ge => if unsigned then .uge else .sge

/-- Predicate of a comparison of floats, from the ordered family. -/
def floatPredicate : Comparison → FloatPredicate
  | .lt => .olt
  | .le => .ole
  | .eq => .oeq
  | .ne => .one
  | .gt => .ogt
  | .ge => .oge

/-- Code of a comparison of operands of a type. -/
def code (kind : Comparison) (dtype : DType) : Int64 :=
  match dtype.category with
  | .float => kind.floatPredicate.code
  | .int | .fixed => (kind.intPredicate dtype.isUnsigned).code

end Comparison

/-- Attribute of a constant: a fixed point number is scaled to its raw integer, rounding a float to
the nearest, and a float is cut off to an integer. Integers are words and wrap. -/
def Literal.toAttribute (literal : Literal) (dtype : DType) : Attribute :=
  let word (x : Float) : Int64 := Int64.ofInt (Binary64.truncate (-2 ^ 63) (2 ^ 63 - 1) x)
  match literal, dtype.category with
  | .int value, .fixed => .int (Int64.ofInt (value.toInt * 2 ^ dtype.fraction)) dtype
  | .float x, .fixed => .int (word (x * dtype.scale).round) dtype
  | .int value, .float => .float (Binary64.ofInt value.toInt) dtype
  | .float x, .float => .float x dtype
  | .int value, .int => .int value dtype
  | .float x, .int => .int (word x) dtype

/-- Operation that converts between two types. -/
def castKind (source target : DType) : OpKind :=
  if (source.isInt && target.isIndex) || (source.isIndex && target.isInt) then .indexCast
  else .conversionCast

namespace ReduceKind

/-- Start value of a reduction: zero for a sum, the largest value of the type for a minimum, the
smallest one for a maximum. -/
def identity (kind : ReduceKind) (dtype : DType) : Attribute :=
  let infinity : Float := 1.0 / 0.0
  match kind with
  | .sum => (Literal.int 0).toAttribute dtype
  | .min =>
    if dtype.isFloat then .float infinity dtype
    else .int (Int64.ofInt (dtype.rawMax?.getD 0)) dtype
  | .max =>
    if dtype.isFloat then .float (-infinity) dtype
    else .int (Int64.ofInt (dtype.rawMin?.getD 0)) dtype

/-- Operation that combines the body with what was accumulated. -/
def combine (kind : ReduceKind) (dtype : DType) : OpKind :=
  let unsigned := dtype.isUnsigned
  match kind, dtype.category with
  | .sum, .int => .addI
  | .sum, .float => .addF
  | .sum, .fixed => .addFixed
  | .min, .int => if unsigned then .minUI else .minSI
  | .min, .float => .minF
  | .min, .fixed => .minFixed
  | .max, .int => if unsigned then .maxUI else .maxSI
  | .max, .float => .maxF
  | .max, .fixed => .maxFixed

end ReduceKind

end AffineKernel

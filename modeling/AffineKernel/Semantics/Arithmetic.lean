import AffineKernel.IR.OpKind
import AffineKernel.Semantics.Scalar

/-!
# Arithmetic of operations

The scalar meaning of the arithmetic operations, apart from any module. An
operation on integers reads its operands as the result type does, signed or
unsigned as its kind says, and its result is normalized to that type. An
operation on floats rounds its result to the precision of that type.

Applying an operation can fail in three ways: the kind has no meaning for such
operands, or it divides by zero, or its quotient is no integer of a register.
-/

set_option autoImplicit false

namespace AffineKernel

/-- Why an arithmetic operation has no result. -/
inductive ArithError where
  /-- The kind has no meaning for such operands. -/
  | unsupported
  | divisionByZero
  /-- A quotient is too large for a register. -/
  | overflow
deriving DecidableEq

namespace OpKind

/-- Function of one float. -/
def floatFunction? : OpKind → Option (Float → Float)
  | .negF => some (-·)
  | .exp => some Float.exp
  | .log => some Float.log
  | .log2 => some Float.log2
  | .log10 => some Float.log10
  | .sqrt => some Float.sqrt
  | .sin => some Float.sin
  | .cos => some Float.cos
  | .tanh => some Float.tanh
  | .floor => some Float.floor
  | _ => none

end OpKind

namespace Arithmetic

/-- The lesser of two floats, the second one if they are equal; no number if one of them is
none. Zeros of both signs are equal. -/
def floatMin (a b : Float) : Float :=
  if a.isNaN || b.isNaN then 0.0 / 0.0 else if a < b then a else b

/-- The greater of two floats, the second one if they are equal; no number if one of them is
none. -/
def floatMax (a b : Float) : Float :=
  if a.isNaN || b.isNaN then 0.0 / 0.0 else if b < a then a else b

/-- Result of an operation on two floats, before rounding. -/
def onFloats (kind : OpKind) (a b : Float) : Except ArithError Float :=
  match kind with
  | .addF => .ok (a + b)
  | .subF => .ok (a - b)
  | .mulF => .ok (a * b)
  | .divF => .ok (a / b)
  | .remF => .ok (Binary64.remainder a b)
  | .minF => .ok (floatMin a b)
  | .maxF => .ok (floatMax a b)
  | _ => .error .unsupported

/-- A quotient or remainder, refused for the divisor zero. -/
def divide (op : Int → Int → Int) (a b : Int) : Except ArithError Int :=
  if b = 0 then .error .divisionByZero else .ok (op a b)

/-- The quotient of two registers, cut off toward zero. Only that of the least register by minus one
is no register. -/
def divideRegister (a b : Int) : Except ArithError Int :=
  if b = 0 then .error .divisionByZero
  else if a = registerMin ∧ b = -1 then .error .overflow
  else .ok (a.tdiv b)

/-- An operation on the bits of two registers. -/
def bitwise (op : BitVec registerWidth → BitVec registerWidth → BitVec registerWidth)
    (a b : Int) : Int :=
  (op (BitVec.ofInt registerWidth a) (BitVec.ofInt registerWidth b)).toInt

/-- A shift, with a fill for amounts that are negative or not below the width. -/
def shift (width : Nat) (amount fill : Int) (shifted : Nat → Int) : Int :=
  if 0 ≤ amount ∧ amount < width then shifted amount.toNat else fill

/-- Result of an operation on two integers, before it is normalized. -/
def onInts (kind : OpKind) (dtype : DType) (a b : Int) : Except ArithError Int :=
  let width := dtype.width
  let sa := signed a width
  let sb := signed b width
  let ua := unsigned a width
  let ub := unsigned b width
  match kind with
  | .addI | .addFixed => .ok (a + b)
  | .subI | .subFixed => .ok (a - b)
  | .mulI => .ok (a * b)
  | .mulFixed => .ok (wrapRegister (a * b) / 2 ^ dtype.fraction)
  | .divFixed => divideRegister (wrapRegister (a * 2 ^ dtype.fraction)) b
  | .divSI => divide Int.tdiv sa sb
  | .divUI => divide Int.tdiv ua ub
  | .floorDivSI => divide Int.fdiv sa sb
  | .remSI => divide Int.tmod sa sb
  | .remUI => divide Int.tmod ua ub
  | .minSI => .ok (min sa sb)
  | .maxSI => .ok (max sa sb)
  | .minUI => .ok (min ua ub)
  | .maxUI => .ok (max ua ub)
  | .minFixed => .ok (min a b)
  | .maxFixed => .ok (max a b)
  | .andI => .ok (bitwise (· &&& ·) a b)
  | .orI => .ok (bitwise (· ||| ·) a b)
  | .xorI => .ok (bitwise (· ^^^ ·) a b)
  | .shlI => .ok (shift width b 0 (fun s => a * 2 ^ s))
  | .shrSI => .ok (shift width b (if sa < 0 then -1 else 0) (fun s => sa / 2 ^ s))
  | .shrUI => .ok (shift width b 0 (fun s => ua / 2 ^ s))
  | _ => .error .unsupported

/-- Result of an operation of two operands, as a scalar of the result type. -/
def binary (kind : OpKind) (dtype : DType) (lhs rhs : Scalar) : Except ArithError Scalar :=
  match lhs, rhs with
  | .float a, .float b => (onFloats kind a b).map (fun y => .float (roundFloat y dtype))
  | .int a, .int b => (onInts kind dtype a b).map (fun y => .int (normalize y dtype))
  | _, _ => .error .unsupported

/-- One bit of an integer of a width; zero outside the width. -/
def bit (value position : Int) (width : Nat) : Int :=
  if 0 ≤ position ∧ position < width then unsigned value width / 2 ^ position.toNat % 2 else 0

end Arithmetic

end AffineKernel

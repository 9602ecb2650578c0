/-!
# Affine expressions

An affine expression combines dimensions, symbols and constants by sums,
products, floor and ceiling quotients and remainders. Its numbers are 64-bit
words: sums and products wrap, and a quotient that has no value (by zero, or of
the least word by minus one) leaves the expression without a value. A remainder
is found by subtracting a product from the dividend; `AffineExpr.overflows` says
whether such a product leaves the words, which is not allowed in a run.

The smart constructor `AffineExpr.combine` folds constants, moves a constant to
the right of a sum or product and drops neutral operands, so that expressions
written in different ways often become the same one. The constructor `binary`
itself folds nothing.

`AffineExpr.text` writes an expression. A sum binds weakest and stands without
parentheses on either side; a sum with a negative constant, or with a product by
minus one, is written as a difference.
-/

set_option autoImplicit false

namespace AffineKernel

/-- Operators of affine expressions. -/
inductive AffineOp where
  | add
  | mul
  /-- Remainder with the sign of the divisor. -/
  | mod
  | floorDiv
  | ceilDiv
deriving DecidableEq, Inhabited

/-- A formula over dimensions and symbols. -/
inductive AffineExpr where
  | dim (position : Nat)
  | symbol (position : Nat)
  | constant (value : Int64)
  | binary (op : AffineOp) (lhs rhs : AffineExpr)
deriving DecidableEq, Inhabited

namespace AffineOp

/-- Spelling of an operator. -/
def name : AffineOp → String
  | .add => "+"
  | .mul => "*"
  | .mod => "mod"
  | .floorDiv => "floordiv"
  | .ceilDiv => "ceildiv"

/-- Whether the operands may be exchanged. -/
def commutes : AffineOp → Bool
  | .add | .mul => true
  | .mod | .floorDiv | .ceilDiv => false

/-- Whether the quotient of two words is a word: the divisor is not zero, and it is not the
quotient of the least word by minus one. -/
def divides (dividend divisor : Int64) : Bool :=
  divisor ≠ 0 && !(dividend = Int64.minValue && divisor = -1)

/-- Value of an operator on two words. -/
def apply (op : AffineOp) (a b : Int64) : Option Int64 :=
  match op with
  | .add => some (a + b)
  | .mul => some (a * b)
  | .mod => if divides a b then some (Int64.ofInt (Int.fmod a.toInt b.toInt)) else none
  | .floorDiv => if divides a b then some (Int64.ofInt (Int.fdiv a.toInt b.toInt)) else none
  | .ceilDiv =>
    if a ≠ Int64.minValue ∧ b ≠ 0 then some (Int64.ofInt (-Int.fdiv (-a.toInt) b.toInt)) else none

/-- Whether the product that a remainder subtracts from its dividend is no word. -/
def overflows (op : AffineOp) (a b : Int64) : Bool :=
  match op with
  | .mod =>
    let product := b.toInt * Int.fdiv a.toInt b.toInt
    divides a b && !(Int64.minValue.toInt ≤ product && product ≤ Int64.maxValue.toInt)
  | _ => false

end AffineOp

namespace AffineExpr

/-! ## Evaluation -/

/-- Value of an expression; none if a dimension or symbol is missing or a quotient has no value. -/
def eval (dims symbols : List Int64) : AffineExpr → Option Int64
  | .dim position => dims[position]?
  | .symbol position => symbols[position]?
  | .constant value => some value
  | .binary op lhs rhs => do
    let a ← lhs.eval dims symbols
    let b ← rhs.eval dims symbols
    op.apply a b

/-- Whether the product of a remainder leaves the words on the way to the value: operands are
evaluated from left to right, as long as they have values. -/
def overflows (dims symbols : List Int64) : AffineExpr → Bool
  | .dim _ | .symbol _ | .constant _ => false
  | .binary op lhs rhs =>
    lhs.overflows dims symbols || (lhs.eval dims symbols).any fun a =>
      rhs.overflows dims symbols || (rhs.eval dims symbols).any fun b => op.overflows a b

/-! ## Properties -/

/-- The value of a constant. -/
def asConstant? : AffineExpr → Option Int64
  | .constant value => some value
  | _ => none

/-- Built from symbols and constants only. -/
def isSymbolic : AffineExpr → Bool
  | .dim _ => false
  | .symbol _ | .constant _ => true
  | .binary _ lhs rhs => lhs.isSymbolic && rhs.isSymbolic

/-- A product has a side without dimensions, and a divisor has no dimensions. -/
def isPure : AffineExpr → Bool
  | .dim _ | .symbol _ | .constant _ => true
  | .binary .add lhs rhs => lhs.isPure && rhs.isPure
  | .binary .mul lhs rhs => lhs.isPure && rhs.isPure && (lhs.isSymbolic || rhs.isSymbolic)
  | .binary _ lhs rhs => lhs.isPure && rhs.isSymbolic

/-- One more than the largest dimension that occurs. -/
def dimCount : AffineExpr → Nat
  | .dim position => position + 1
  | .symbol _ | .constant _ => 0
  | .binary _ lhs rhs => max lhs.dimCount rhs.dimCount

/-! ## Folding constructors -/

/-- Joins two operands, leaving out a neutral or absorbing right operand. -/
def simplify (op : AffineOp) (lhs rhs : AffineExpr) : AffineExpr :=
  match op with
  | .add => if rhs = .constant 0 then lhs else .binary .add lhs rhs
  | .mul =>
    if rhs = .constant 1 then lhs
    else if rhs = .constant 0 then .constant 0
    else .binary .mul lhs rhs
  | .floorDiv => if rhs = .constant 1 then lhs else .binary .floorDiv lhs rhs
  | .ceilDiv => if rhs = .constant 1 then lhs else .binary .ceilDiv lhs rhs
  | .mod => if rhs = .constant 1 then .constant 0 else .binary .mod lhs rhs

/-- Joins two operands: two constants are folded, a constant goes to the right where the operands
may be exchanged, and neutral operands are left out. -/
def combine (op : AffineOp) (lhs rhs : AffineExpr) : AffineExpr :=
  match lhs.asConstant?, rhs.asConstant? with
  | some a, some b =>
    match op.apply a b with
    | some value => .constant value
    | none => simplify op lhs rhs
  | some _, none => if op.commutes then simplify op rhs lhs else simplify op lhs rhs
  | none, _ => simplify op lhs rhs

/-- The folded sum. -/
def add (lhs rhs : AffineExpr) : AffineExpr := combine .add lhs rhs

/-- The folded product. -/
def mul (lhs rhs : AffineExpr) : AffineExpr := combine .mul lhs rhs

/-- The folded floor quotient. -/
def floorDiv (lhs rhs : AffineExpr) : AffineExpr := combine .floorDiv lhs rhs

/-- The folded ceiling quotient. -/
def ceilDiv (lhs rhs : AffineExpr) : AffineExpr := combine .ceilDiv lhs rhs

/-- The folded remainder. -/
def mod (lhs rhs : AffineExpr) : AffineExpr := combine .mod lhs rhs

/-- The product by minus one. -/
def neg (operand : AffineExpr) : AffineExpr := mul operand (.constant (-1))

/-- The sum with the negated right operand. -/
def sub (lhs rhs : AffineExpr) : AffineExpr := add lhs (neg rhs)

/-! ## Text -/

/-- Puts the text of a compound operand in parentheses. -/
def enclose (operand : AffineExpr) (written : String) : String :=
  match operand with
  | .binary _ _ _ => "(" ++ written ++ ")"
  | _ => written

/-- Writes an expression. -/
def text : AffineExpr → String
  | .dim position => "d" ++ position.repr
  | .symbol position => "s" ++ position.repr
  | .constant value => value.toInt.repr
  | .binary .add lhs (.constant value) =>
    if value < 0 then lhs.text ++ " - " ++ value.toInt.natAbs.repr
    else lhs.text ++ " + " ++ value.toInt.repr
  | .binary .add lhs (.binary .mul factor scale) =>
    if scale = .constant (-1) then lhs.text ++ " - " ++ enclose factor factor.text
    else lhs.text ++ " + " ++ (enclose factor factor.text ++ " * " ++ enclose scale scale.text)
  | .binary .add lhs rhs => lhs.text ++ " + " ++ rhs.text
  | .binary op lhs rhs => enclose lhs lhs.text ++ " " ++ op.name ++ " " ++ enclose rhs rhs.text

end AffineExpr

end AffineKernel

/-!
# Kinds of expression nodes

The operators that expressions are built from, before they are lowered to
operations: functions of one operand, operators of two, comparisons and
reductions.
-/

set_option autoImplicit false

namespace AffineKernel

/-- Functions of one operand. -/
inductive UnaryKind where
  | neg | exp | log | log2 | log10 | sqrt | sin | cos | tanh
deriving DecidableEq, Inhabited

/-- Operators of two operands. -/
inductive BinaryKind where
  | add | sub | mul
  /-- Division that cuts off toward zero on integers. -/
  | div
  | floorDiv
  | rem
  | shl | shr | and | or | xor
deriving DecidableEq, Inhabited

/-- Comparisons. -/
inductive Comparison where
  | lt | le | eq | ne | gt | ge
deriving DecidableEq, Inhabited

/-- Ways to combine the values of a body over the points of its axes. -/
inductive ReduceKind where
  | sum | min | max
deriving DecidableEq, Inhabited

namespace UnaryKind

def name : UnaryKind → String
  | .neg => "neg"
  | .exp => "exp"
  | .log => "log"
  | .log2 => "log2"
  | .log10 => "log10"
  | .sqrt => "sqrt"
  | .sin => "sin"
  | .cos => "cos"
  | .tanh => "tanh"

/-- Name in the drawing of a tree. -/
def label : UnaryKind → String
  | .neg => "NEG"
  | .exp => "EXP"
  | .log => "LOG"
  | .log2 => "LOG2"
  | .log10 => "LOG10"
  | .sqrt => "SQRT"
  | .sin => "SIN"
  | .cos => "COS"
  | .tanh => "TANH"

def all : List UnaryKind := [.neg, .exp, .log, .log2, .log10, .sqrt, .sin, .cos, .tanh]

def ofName? (name : String) : Option UnaryKind := all.find? (fun kind => kind.name = name)

end UnaryKind

namespace BinaryKind

def name : BinaryKind → String
  | .add => "add"
  | .sub => "sub"
  | .mul => "mul"
  | .div => "div"
  | .floorDiv => "floor_div"
  | .rem => "rem"
  | .shl => "shl"
  | .shr => "shr"
  | .and => "and"
  | .or => "or"
  | .xor => "xor"

/-- Name in the drawing of a tree. -/
def label : BinaryKind → String
  | .add => "ADD"
  | .sub => "SUB"
  | .mul => "MUL"
  | .div => "DIV"
  | .floorDiv => "FLOOR_DIV"
  | .rem => "REM"
  | .shl => "SHL"
  | .shr => "SHR"
  | .and => "AND"
  | .or => "OR"
  | .xor => "XOR"

def all : List BinaryKind :=
  [.add, .sub, .mul, .div, .floorDiv, .rem, .shl, .shr, .and, .or, .xor]

def ofName? (name : String) : Option BinaryKind := all.find? (fun kind => kind.name = name)

/-- Shifts and bit operators, which take their type from the left operand. -/
def isBitwise : BinaryKind → Bool
  | .shl | .shr | .and | .or | .xor => true
  | _ => false

end BinaryKind

namespace Comparison

def name : Comparison → String
  | .lt => "lt"
  | .le => "le"
  | .eq => "eq"
  | .ne => "ne"
  | .gt => "gt"
  | .ge => "ge"

def all : List Comparison := [.lt, .le, .eq, .ne, .gt, .ge]

def ofName? (name : String) : Option Comparison := all.find? (fun kind => kind.name = name)

end Comparison

namespace ReduceKind

def name : ReduceKind → String
  | .sum => "sum"
  | .min => "min"
  | .max => "max"

def all : List ReduceKind := [.sum, .min, .max]

def ofName? (name : String) : Option ReduceKind := all.find? (fun kind => kind.name = name)

end ReduceKind

end AffineKernel

import AffineKernel.IR.Module

/-!
# Failures of a run

A run of a function ends in its results or in one of these failures. All but the
last three are failures that a caller is told of: an operation lacks an
attribute, an access leaves its buffer, a divisor is zero. A run that ends in one
of the others is given up without a word. `overflow` is the end of a run in which
a number leaves the integers that hold it: a quotient the registers, the counter
of a loop or the product of a remainder the words, a length what can be
allocated. `malformed` is that of a module in which an operation lacks an
operand, a result or a region that its kind cannot do without, and
`depthExceeded` that of a run whose blocks nest deeper than the caller allowed.
-/

set_option autoImplicit false

namespace AffineKernel

/-- What an operation expects of an operand. -/
inductive OperandClass where
  | scalar
  | integer
  | float
  | buffer
deriving DecidableEq, Inhabited

def OperandClass.name : OperandClass → String
  | .scalar => "scalar"
  | .integer => "integer"
  | .float => "float"
  | .buffer => "buffer"

/-- Why a run failed. -/
inductive RunError where
  /-- A call names a function that the module does not define. -/
  | unknownFunction (name : String)
  /-- An operation has no meaning for its operands. -/
  | unsupportedOperation (kind : OpKind) (dtype : DType)
  | missingAttribute (op : OpId) (kind : OpKind) (name : String)
  /-- An access leaves its buffer. -/
  | outOfBounds (indices : List Int64) (shape : List Nat)
  | argumentMismatch (name : String) (expected actual : Nat)
  /-- A divisor is zero, or an affine expression has no value. -/
  | divisionByZero (op : OpId) (kind : OpKind)
  /-- A value is used where no operation has defined it. -/
  | undefinedValue (value : Value)
  | operandKind (op : OpId) (kind : OpKind) (expected : OperandClass)
  /-- A number leaves the integers that hold it. -/
  | overflow (op : OpId) (kind : OpKind)
  /-- An operation lacks an operand, a result or a region that its kind needs. -/
  | malformed
  /-- Blocks nest deeper than allowed. -/
  | depthExceeded
deriving DecidableEq

namespace RunError

/-- An operation with its kind. -/
def opText (op : OpId) (kind : OpKind) : String := op.text ++ " (" ++ kind.name ++ ")"

/-- The failure in words. -/
def message : RunError → String
  | .unknownFunction name => "unknown function @" ++ name
  | .unsupportedOperation kind dtype =>
    "unsupported operation " ++ kind.name ++ " on " ++ dtype.text
  | .missingAttribute op kind name =>
    opText op kind ++ " is missing attribute " ++ Text.quoted name
  | .outOfBounds indices shape =>
    "index " ++ Text.bracketed (indices.map (fun index => index.toInt.repr)) ++
      " is out of bounds for shape " ++ Text.bracketed (shape.map Nat.repr)
  | .argumentMismatch name expected actual =>
    "@" ++ name ++ " expects " ++ expected.repr ++ " arguments, got " ++ actual.repr
  | .divisionByZero op kind => opText op kind ++ " divides by zero"
  | .undefinedValue value => "value " ++ value.text ++ " used before definition"
  | .operandKind op kind expected =>
    opText op kind ++ " expected a " ++ expected.name ++ " operand"
  | .overflow op kind => opText op kind ++ " overflows"
  | .malformed => "malformed operation"
  | .depthExceeded => "blocks nest too deeply"

end RunError

end AffineKernel

import AffineKernel.Build.Kinds
import AffineKernel.DType.Text

/-!
# Failures of building

Each failure names its cause; the wording is in `BuildError.message`.
-/

set_option autoImplicit false

namespace AffineKernel

/-- Why a bit cannot be taken from a value. -/
inductive BitFault where
  /-- The value is not an integer. -/
  | value
  /-- The position is not an integer. -/
  | position
  /-- The value is not a load. -/
  | notLoad
  /-- The load is not of integers. -/
  | load
  /-- There is not exactly one index. -/
  | count
deriving DecidableEq

/-- The fault in words. -/
def BitFault.reason : BitFault → String
  | .value => "bit access requires an integer value"
  | .position => "bit position must be an integer"
  | .notLoad => "bits can only be taken from a load"
  | .load => "bit access requires an integer load"
  | .count => "bit access takes exactly one index"

/-- Why an expression or statement was refused. -/
inductive BuildError where
  /-- A type is refused. -/
  | invalidType (source : DTypeError)
  /-- Two types have no common one. -/
  | unsupportedConversion (lhs rhs : DType)
  /-- Fixed point operands with different fractions. -/
  | fractionMismatch (lhs rhs : DType)
  /-- A shift or bit operator on a float. -/
  | floatOperand (kind : BinaryKind) (dtype : DType)
  /-- An operator that its operand type does not have. -/
  | unsupportedOperation (name : String) (dtype : DType)
  | tooManyIndices (tensor : String) (rank given : Nat)
  /-- A load with fewer indices than the rank. -/
  | incompleteIndex (tensor : String) (rank given : Nat)
  /-- A store with fewer indices than the rank. -/
  | partialWrite (tensor : String) (rank given : Nat)
  | bitAccess (fault : BitFault)
  /-- An index that is not affine. -/
  | nonAffineIndex (reason : String)
  /-- A reduction whose body has another type than its result. -/
  | reductionType (expected actual : DType)
  /-- There is no insertion point. -/
  | emptyStack
  | selectBranches (thenType elseType : DType)
  | selectCondition (dtype : DType)
  /-- A loop variable outside its loop. -/
  | unboundLoopVar (name : String)
  /-- A tensor that has no storage yet. -/
  | unboundTensor (name : String)
  /-- A reduction over something other than an axis. -/
  | missingAxisBounds (name : String)
  /-- A statement used as a value. -/
  | noValue (node : String)
  /-- A tensor of more or fewer elements than one used as a scalar. -/
  | notScalar (tensor : String) (shape : List Nat)
deriving DecidableEq

/-- The failure in words. -/
def BuildError.message : BuildError → String
  | .invalidType source => "invalid dtype: " ++ source.message
  | .unsupportedConversion lhs rhs =>
    "cannot convert between " ++ lhs.text ++ " and " ++ rhs.text
  | .fractionMismatch lhs rhs =>
    "fixed point fraction mismatch: " ++ lhs.text ++ " vs " ++ rhs.text
  | .floatOperand kind dtype =>
    kind.name ++ " does not support floating point operand " ++ dtype.text
  | .unsupportedOperation name dtype => name ++ " is not supported on " ++ dtype.text
  | .tooManyIndices tensor rank given =>
    given.repr ++ " indices applied to tensor " ++ Text.quoted tensor ++ " of rank " ++ rank.repr
  | .incompleteIndex tensor rank given =>
    given.repr ++ " indices do not fully index tensor " ++ Text.quoted tensor ++ " of rank " ++
      rank.repr
  | .partialWrite tensor rank given =>
    "cannot write through a partial slice of " ++ Text.quoted tensor ++ " (" ++ given.repr ++
      " of " ++ rank.repr ++ " indices)"
  | .bitAccess fault => "invalid bit access: " ++ fault.reason
  | .nonAffineIndex reason => "index is not affine: " ++ reason
  | .reductionType expected actual =>
    "reduction accumulates " ++ expected.text ++ " but the body produces " ++ actual.text
  | .emptyStack => "no active insertion point"
  | .selectBranches thenType elseType =>
    "select branches differ: " ++ thenType.text ++ " vs " ++ elseType.text
  | .selectCondition dtype => "select condition must be int1, got " ++ dtype.text
  | .unboundLoopVar name =>
    "induction variable " ++ Text.quoted name ++ " is not bound to a loop"
  | .unboundTensor name => "tensor " ++ Text.quoted name ++ " has no storage"
  | .missingAxisBounds name => "reduction axis " ++ Text.quoted name ++ " has no bounds"
  | .noValue node => node ++ " produces no value"
  | .notScalar tensor shape =>
    "tensor " ++ Text.quoted tensor ++ " of shape " ++ Text.bracketed (shape.map Nat.repr) ++
      " is not a scalar"

end AffineKernel

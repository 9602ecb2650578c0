import AffineKernel.Build.Materialize
import AffineKernel.Build.Promotion

/-!
# Node constructors

Every operator first brings its operands to the types it needs, by casts that
are reported, and then records a node of the type of its left operand. Integer
literals are `int32` constants and float literals are `float32` constants.

In the in-place mode a new node is materialized at once if it is *ready*: no
reduction or unbound loop variable is below it, outside of what is bound
already, and every tensor it reads, writes or passes on has storage.
-/

set_option autoImplicit false

namespace AffineKernel

namespace Context

mutual

/-- Whether a node can be materialized now. -/
def isReady (context : Context) : Expr → Bool
  | .constant .. => true
  | .loopVar id _ | .axis id _ _ _ => context.isBound id
  | .unary id _ _ operand => context.isBound id || isReady context operand
  | .binary id _ _ lhs rhs => context.isBound id || (isReady context lhs && isReady context rhs)
  | .compare id _ lhs rhs => context.isBound id || (isReady context lhs && isReady context rhs)
  | .cast id _ source => context.isBound id || isReady context source
  | .load id tensor indices =>
    context.isBound id || (context.hasStorage tensor && allReady context indices)
  | .store id tensor value indices =>
    context.isBound id ||
      (context.hasStorage tensor && isReady context value && allReady context indices)
  | .select id _ condition thenValue elseValue =>
    context.isBound id ||
      (isReady context condition && isReady context thenValue && isReady context elseValue)
  | .call id _ _ args =>
    context.isBound id ||
      ((CallArg.tensors args).all context.hasStorage && argsReady context args)
  | .getBit id value bit => context.isBound id || (isReady context value && isReady context bit)
  | .reduce id _ _ _ _ => context.isBound id

/-- Whether all nodes of a list can be materialized now. -/
def allReady (context : Context) : List Expr → Bool
  | [] => true
  | expr :: rest => isReady context expr && allReady context rest

/-- Whether the expressions among the arguments of a call can be materialized now. -/
def argsReady (context : Context) : List CallArg → Bool
  | [] => true
  | .expr value :: rest => isReady context value && argsReady context rest
  | .tensor _ :: rest => argsReady context rest

end

end Context

namespace BuildM

/-- Records a new node, and materializes it at once where the mode asks for it. -/
def finish (node : NodeId → Expr) : BuildM Expr := do
  let expr := node (← freshId)
  let context ← get
  if context.mode.isInPlace && context.isReady expr then
    let _ ← build expr
  return expr

/-! ## Constants and axes -/

/-- A constant of a type. -/
def constant (value : Literal) (dtype : DType) : BuildM Expr := do
  checkType dtype
  finish fun id => .constant id dtype value

/-- An integer literal as an operand. -/
def intLiteral (value : Int64) : BuildM Expr := constant (.int value) .int32

/-- A float literal as an operand. -/
def floatLiteral (value : Float) : BuildM Expr := constant (.float value) .float32

/-- An integer literal as an index. -/
def indexConst (value : Int64) : BuildM Expr := constant (.int value) .index

/-- An axis for a reduction over the range from `lower` below `upper`. -/
def axis (lower upper : Bound) (name : String) : BuildM Expr := do
  return .axis (← freshId) name lower upper

/-! ## Casts -/

/-- A node cast to a type; the node itself if it has the type. -/
def castNode (expr : Expr) (target : DType) : BuildM Expr := do
  let source ← valueType expr
  if source = target then return expr
  finish fun id => .cast id target expr

/-- A cast that an operator needs, with a warning. -/
def implicitCast (expr : Expr) (target : DType) : BuildM Expr := do
  let source ← valueType expr
  if source = target then return expr
  emit (.implicitCast expr.id source target)
  castNode expr target

/-- A cast that the caller asks for; `operand` is made once the type is known to be right. -/
def cast (operand : BuildM Expr) (dtype : DType) : BuildM Expr := do
  checkType dtype
  castNode (← operand) dtype

/-- Casts two operands to given types. -/
def castBoth (lhs rhs : Expr) (types : DType × DType) : BuildM (Expr × Expr) := do
  let lhs ← implicitCast lhs types.1
  let rhs ← implicitCast rhs types.2
  return (lhs, rhs)

/-- Brings the operands of an arithmetic operator or comparison to a common type. -/
def promote (lhs rhs : Expr) : BuildM (Expr × Expr) := do
  let left ← valueType lhs
  let right ← valueType rhs
  castBoth lhs rhs (← liftExcept (Promotion.arithmetic left right))

/-- Brings the operands of a shift or bit operator to the type of the left one. -/
def promoteBits (kind : BinaryKind) (lhs rhs : Expr) : BuildM (Expr × Expr) := do
  let left ← valueType lhs
  let right ← valueType rhs
  castBoth lhs rhs (← liftExcept (Promotion.bitwise kind left right))

/-! ## Operators -/

/-- An operator of two operands, of the type of the left one. -/
def binary (kind : BinaryKind) (lhs rhs : Expr) : BuildM Expr := do
  let (lhs, rhs) ← if kind.isBitwise then promoteBits kind lhs rhs else promote lhs rhs
  let dtype ← valueType lhs
  if dtype.isFixed ∧ (kind = .floorDiv ∨ kind = .rem) then
    throw (.unsupportedOperation kind.name dtype)
  finish fun id => .binary id dtype kind lhs rhs

/-- A comparison. -/
def compare (kind : Comparison) (lhs rhs : Expr) : BuildM Expr := do
  let (lhs, rhs) ← promote lhs rhs
  finish fun id => .compare id kind lhs rhs

/-- Negation: an operation of its own for floats, the difference from zero for integers. -/
def neg (operand : Expr) : BuildM Expr := do
  let dtype ← valueType operand
  if dtype.isFixed then throw (.unsupportedOperation "neg" dtype)
  if dtype.isFloat then finish fun id => .unary id dtype .neg operand
  else binary .sub (← constant (.int 0) dtype) operand

/-- A function of one operand; all but the negation are computed in `float32`. -/
def unary (kind : UnaryKind) (operand : Expr) : BuildM Expr := do
  if kind = .neg then neg operand
  else
    let operand ← implicitCast operand .float32
    finish fun id => .unary id .float32 kind operand

/-- A choice between two values of one type by a condition of type `int1`. -/
def select (condition thenValue elseValue : Expr) : BuildM Expr := do
  let conditionType ← valueType condition
  if !conditionType.isBool then throw (.selectCondition conditionType)
  let thenType ← valueType thenValue
  let elseType ← valueType elseValue
  if thenType ≠ elseType then throw (.selectBranches thenType elseType)
  finish fun id => .select id thenType condition thenValue elseValue

/-- A call of a function of the module. -/
def call (callee : String) (args : List CallArg) (dtype : Option DType) : BuildM Expr := do
  if let some result := dtype then checkType result
  finish fun id => .call id dtype callee args

/-- A bit of an integer. -/
def getBit (value bit : Expr) : BuildM Expr := do
  if !(← valueType value).isInt then throw (.bitAccess .value)
  if !(← valueType bit).isIntegerLike then throw (.bitAccess .position)
  let bit ← implicitCast bit .index
  finish fun id => .getBit id value bit

/-- A reduction that accumulates in a given type. -/
def reduceInto (kind : ReduceKind) (body : Expr) (axes : List Expr) (dtype : DType) :
    BuildM Expr := do
  checkType dtype
  finish fun id => .reduce id dtype kind body axes

/-- A reduction that accumulates in the type of its body. -/
def reduce (kind : ReduceKind) (body : Expr) (axes : List Expr) : BuildM Expr := do
  reduceInto kind body axes (← valueType body)

end BuildM

end AffineKernel

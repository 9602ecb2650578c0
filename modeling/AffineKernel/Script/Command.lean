import AffineKernel.Build.Indexing
import AffineKernel.Script.Query

/-!
# Commands of build scripts

A build script constructs expressions and builds them, with variables that hold
expressions, tensors, slices and operations. This module holds the commands
without a body of their own: recipes, each of which constructs one expression,
and everything else.

A command names its operands by variables. All its variables are looked up
before anything is done, in the order in which the command lists them; the first
one that holds nothing, or something of the wrong sort, makes the command
undefined.
-/

set_option autoImplicit false

namespace AffineKernel

/-- What a variable holds. -/
inductive Entity where
  | expr (expr : Expr)
  | tensor (tensor : Tensor)
  | slice (slice : Slice)
  | op (id : OpId)

/-- An operand: a variable or a literal. -/
inductive Operand where
  | var (name : String)
  | int (value : Int64)
  | float (value : Float)
  /-- A literal of single precision. -/
  | single (value : Float)

/-- An index or bound: a variable or a literal. -/
inductive IndexTerm where
  | var (name : String)
  | const (value : Int64)

/-- How to construct an expression. -/
inductive Recipe where
  | constant (value : Literal) (dtype : DType)
  | axis (lower upper : IndexTerm) (name : String)
  | binary (kind : BinaryKind) (lhs rhs : Operand)
  | compare (kind : Comparison) (lhs rhs : Operand)
  | unary (kind : UnaryKind) (operand : Operand)
  | cast (operand : Operand) (dtype : DType)
  | select (condition thenValue elseValue : Operand)
  | call (callee : String) (args : List String) (dtype : Option DType)
  | getBit (value bit : Operand)
  | bit (load : String) (indices : List IndexTerm)
  | reduce (kind : ReduceKind) (body : Operand) (axes : List String)
  | reduceInto (kind : ReduceKind) (body : String) (axes : List String) (dtype : DType)
  | load (tensor : String) (indices : List IndexTerm)
  | store (value : Operand) (tensor : String) (indices : List IndexTerm)
  | storeSlice (value : Operand) (slice : String) (indices : List IndexTerm)
  | scalar (tensor : String)
  | setScalar (value : Operand) (tensor : String)

/-- A place in the module: a block, and an operation to insert before. -/
structure PointRef where
  block : BlockRef
  before : Option String

/-- A command without a body. -/
inductive Command where
  | make (recipe : Recipe)
  /-- A tensor without storage. -/
  | placeholder (name : String) (shape : List Nat) (dtype : DType)
  | alloc (name : String) (shape : List Nat) (dtype : DType)
  | allocTensor (tensor : String)
  | describeTensor (tensor : String)
  /-- Whether two variables hold the same tensor. -/
  | sameTensor (first second : String)
  | index (indices : List IndexTerm) (tensor : String)
  | indexSlice (indices : List IndexTerm) (slice : String)
  /-- Brings two operands to a common type, by the rule of an operator if one is given. -/
  | promote (lhs rhs : String) (kind : Option BinaryKind)
  | build (expr : String)
  | buildValue (expr : String)
  | buildAll (exprs : List String)
  | savePoint (point : PointRef)
  | restorePoint
  | currentPoint
  | clearPoints
  | truncatePoints (depth : Nat)
  | describe (expr : String)
  | describeContext
  | tree (expr : String)
  /-- The affine map of an access. -/
  | extractMap (exprs : List String)
  /-- The affine form of one more index, beside what was collected before. -/
  | extract (expr : String)
  | clearExtraction
  | query (query : Query)

/-! ## Variables -/

/-- Values of variables. -/
abbrev Variables := Table String Entity

namespace Variables

variable (vars : Variables)

/-- The expression that a variable holds. -/
def expr (name : String) : Resolved Expr :=
  match Table.find? vars name with
  | some (.expr expr) => .ok expr
  | _ => .error name

/-- The tensor that a variable holds. -/
def tensor (name : String) : Resolved Tensor :=
  match Table.find? vars name with
  | some (.tensor tensor) => .ok tensor
  | _ => .error name

/-- The slice that a variable holds. -/
def slice (name : String) : Resolved Slice :=
  match Table.find? vars name with
  | some (.slice slice) => .ok slice
  | _ => .error name

/-- An argument of a call. -/
def callArg (name : String) : Resolved CallArg :=
  match Table.find? vars name with
  | some (.expr expr) => .ok (.expr expr)
  | some (.tensor tensor) => .ok (.tensor tensor)
  | _ => .error name

/-- An operand, as the action that makes its expression. -/
def operand : Operand → Resolved (BuildM Expr)
  | .var name => do return pure (← expr vars name)
  | .int value => .ok (BuildM.intLiteral value)
  | .float value => .ok (BuildM.floatLiteral value)
  | .single value => .ok (BuildM.floatLiteral (Binary64.toSingle value))

/-- An index. -/
def indexArg : IndexTerm → Resolved IndexArg
  | .var name => do return .expr (← expr vars name)
  | .const value => .ok (.const value)

/-- A bound of a loop. -/
def bound : IndexTerm → Resolved Bound
  | .var name => do return .expr (← expr vars name)
  | .const value => .ok (.const value)

/-- The operations that variables stand for: an operation itself, or the one that an expression
was turned into. -/
def opNames (context : Context) : OpNames := fun name =>
  match Table.find? vars name with
  | some (.op id) => some id
  | some (.expr expr) =>
    match context.binding? expr.id with
    | some (.op id) | some (.value (.result id _)) => some id
    | _ => none
  | _ => none

end Variables

/-- Looks up the variables of a recipe, and yields the action that constructs its expression. -/
def Recipe.plan (vars : Variables) : Recipe → Resolved (BuildM Expr)
  | .constant value dtype => .ok (BuildM.constant value dtype)
  | .axis lower upper name => do
    let low ← vars.bound lower
    let high ← vars.bound upper
    return BuildM.axis low high name
  | .binary kind lhs rhs => do
    let left ← vars.operand lhs
    let right ← vars.operand rhs
    return do
      let lhs ← left
      let rhs ← right
      BuildM.binary kind lhs rhs
  | .compare kind lhs rhs => do
    let left ← vars.operand lhs
    let right ← vars.operand rhs
    return do
      let lhs ← left
      let rhs ← right
      BuildM.compare kind lhs rhs
  | .unary kind operand => do
    let operand ← vars.operand operand
    return do BuildM.unary kind (← operand)
  | .cast operand dtype => do
    let operand ← vars.operand operand
    return BuildM.cast operand dtype
  | .select condition thenValue elseValue => do
    let condition ← vars.operand condition
    let thenValue ← vars.operand thenValue
    let elseValue ← vars.operand elseValue
    return do
      let c ← condition
      let t ← thenValue
      let e ← elseValue
      BuildM.select c t e
  | .call callee args dtype => do
    let args ← args.mapM vars.callArg
    return BuildM.call callee args dtype
  | .getBit value position => do
    let value ← vars.operand value
    let position ← vars.operand position
    return do
      let v ← value
      let p ← position
      BuildM.getBit v p
  | .bit source indices => do
    let source ← vars.expr source
    let indices ← indices.mapM vars.indexArg
    return BuildM.bit source indices
  | .reduce kind body axes => do
    let body ← vars.operand body
    let axes ← axes.mapM vars.expr
    return do BuildM.reduce kind (← body) axes
  | .reduceInto kind body axes dtype => do
    let body ← vars.expr body
    let axes ← axes.mapM vars.expr
    return BuildM.reduceInto kind body axes dtype
  | .load tensor indices => do
    let tensor ← vars.tensor tensor
    let indices ← indices.mapM vars.indexArg
    return BuildM.load tensor indices
  | .store value tensor indices => do
    let value ← vars.operand value
    let tensor ← vars.tensor tensor
    let indices ← indices.mapM vars.indexArg
    return BuildM.store value tensor indices
  | .storeSlice value slice indices => do
    let value ← vars.operand value
    let slice ← vars.slice slice
    let indices ← indices.mapM vars.indexArg
    return BuildM.storeSlice value slice indices
  | .scalar tensor => do
    let tensor ← vars.tensor tensor
    return BuildM.scalar tensor
  | .setScalar value tensor => do
    let value ← vars.operand value
    let tensor ← vars.tensor tensor
    return BuildM.setScalar value tensor

end AffineKernel

import AffineKernel.Build.Kinds
import AffineKernel.DType.Basic

/-!
# Expressions

An expression records a computation over tensors and loop variables. It is a
tree whose nodes carry identities: a node that is used in several places has the
same identity in all of them, so that a tree stands for the graph in which such
nodes are shared.

Loop variables come in two forms. A `loopVar` belongs to a loop that is already
open; an `axis` carries the bounds of a loop that a reduction will open for it.

Every node but a store and a call without result has a data type. Comparisons
and bit accesses have the type `int1`, loop variables have the type `index`, and
a load has the type of its tensor.
-/

set_option autoImplicit false

namespace AffineKernel

/-- Identity of a node or tensor. -/
abbrev NodeId := Nat

/-- A named buffer. Two tensors are the same when their identities are. -/
structure Tensor where
  id : NodeId
  name : String
  shape : List Nat
  dtype : DType
deriving DecidableEq, Inhabited

/-- A literal number. Its type belongs to the node that holds it. -/
inductive Literal where
  | int (value : Int64)
  | float (value : Float)
deriving Inhabited

mutual

/-- A node, with everything below it. -/
inductive Expr where
  | constant (id : NodeId) (dtype : DType) (value : Literal)
  /-- Variable of an open loop. -/
  | loopVar (id : NodeId) (name : String)
  /-- Variable of a loop that a reduction opens over the range from `lower` below `upper`. -/
  | axis (id : NodeId) (name : String) (lower upper : Bound)
  | unary (id : NodeId) (dtype : DType) (kind : UnaryKind) (operand : Expr)
  | binary (id : NodeId) (dtype : DType) (kind : BinaryKind) (lhs rhs : Expr)
  | compare (id : NodeId) (kind : Comparison) (lhs rhs : Expr)
  | cast (id : NodeId) (dtype : DType) (source : Expr)
  | load (id : NodeId) (tensor : Tensor) (indices : List Expr)
  | store (id : NodeId) (tensor : Tensor) (value : Expr) (indices : List Expr)
  | select (id : NodeId) (dtype : DType) (condition thenValue elseValue : Expr)
  /-- Call of a function; a statement if it has no type. -/
  | call (id : NodeId) (dtype : Option DType) (callee : String) (args : List CallArg)
  | getBit (id : NodeId) (value bit : Expr)
  | reduce (id : NodeId) (dtype : DType) (kind : ReduceKind) (body : Expr) (axes : List Expr)

/-- Bound of a loop. -/
inductive Bound where
  | const (value : Int64)
  | expr (value : Expr)

/-- Argument of a call. -/
inductive CallArg where
  | expr (value : Expr)
  | tensor (tensor : Tensor)

end

namespace Tensor

/-- Number of dimensions. -/
def rank (tensor : Tensor) : Nat := tensor.shape.length

/-- Number of elements. -/
def size (tensor : Tensor) : Nat := tensor.shape.foldl (· * ·) 1

def isEmpty (tensor : Tensor) : Bool := tensor.size = 0

end Tensor

namespace CallArg

/-- The expressions among the arguments of a call. -/
def exprs : List CallArg → List Expr
  | [] => []
  | .expr value :: rest => value :: exprs rest
  | .tensor _ :: rest => exprs rest

/-- The tensors among the arguments of a call. -/
def tensors : List CallArg → List Tensor
  | [] => []
  | .expr _ :: rest => tensors rest
  | .tensor target :: rest => target :: tensors rest

end CallArg

namespace Expr

/-- Identity of a node. -/
def id : Expr → NodeId
  | .constant id .. | .loopVar id .. | .axis id .. | .unary id .. | .binary id ..
  | .compare id .. | .cast id .. | .load id .. | .store id .. | .select id .. | .call id ..
  | .getBit id .. | .reduce id .. => id

/-- Type of the value; none for a node that yields no value. -/
def dtype? : Expr → Option DType
  | .constant _ dtype .. | .unary _ dtype .. | .binary _ dtype .. | .cast _ dtype ..
  | .select _ dtype .. | .reduce _ dtype .. => some dtype
  | .loopVar .. | .axis .. => some .index
  | .compare .. | .getBit .. => some .bool
  | .load _ tensor _ => some tensor.dtype
  | .store .. => none
  | .call _ dtype .. => dtype

/-- Name of the kind of node. -/
def name : Expr → String
  | .constant .. => "constant"
  | .loopVar .. | .axis .. => "induction_var"
  | .unary .. => "unary"
  | .binary .. => "binary"
  | .compare .. => "compare"
  | .cast .. => "cast"
  | .load .. => "load"
  | .store .. => "store"
  | .select .. => "select"
  | .call .. => "call"
  | .getBit .. => "get_bit"
  | .reduce .. => "reduce"

/-- The nodes directly below, in the order in which they are evaluated. -/
def operands : Expr → List Expr
  | .constant .. | .loopVar .. | .axis .. => []
  | .unary _ _ _ operand => [operand]
  | .binary _ _ _ lhs rhs | .compare _ _ lhs rhs => [lhs, rhs]
  | .cast _ _ source => [source]
  | .load _ _ indices => indices
  | .store _ _ value indices => value :: indices
  | .select _ _ condition thenValue elseValue => [condition, thenValue, elseValue]
  | .call _ _ _ args => CallArg.exprs args
  | .getBit _ value bit => [value, bit]
  | .reduce _ _ _ body axes => body :: axes

/-- Name of a loop variable. -/
def loopName? : Expr → Option String
  | .loopVar _ name | .axis _ name .. => some name
  | _ => none

/-- Whether a node yields no value. -/
def isStatement (expr : Expr) : Bool := expr.dtype?.isNone

def isLoad : Expr → Bool
  | .load .. => true
  | _ => false

end Expr

end AffineKernel

import AffineKernel.Build.Construct

/-!
# Indexing

A tensor is indexed all at once or in stages. Fewer indices than the rank make a
slice, which remembers them; as many indices as the rank make a load. Only a
fully indexed tensor can be written, and the written value is cast to the type
of the tensor, with a warning.
-/

set_option autoImplicit false

namespace AffineKernel

/-- A tensor with its first indices. -/
structure Slice where
  tensor : Tensor
  indices : List Expr

namespace Slice

/-- Shape of what is not indexed yet. -/
def shape (slice : Slice) : List Nat := slice.tensor.shape.drop slice.indices.length

def dtype (slice : Slice) : DType := slice.tensor.dtype

/-- A tensor without indices. -/
def whole (tensor : Tensor) : Slice := ⟨tensor, []⟩

end Slice

/-- An index: an expression, or a literal that becomes an `index` constant. -/
inductive IndexArg where
  | expr (value : Expr)
  | const (value : Int64)

/-- What indexing makes. -/
inductive Indexed where
  | slice (slice : Slice)
  | load (expr : Expr)

namespace BuildM

/-- The expression of an index. -/
def indexExpr : IndexArg → BuildM Expr
  | .expr value => pure value
  | .const value => indexConst value

/-- Refuses more indices than the rank. -/
def checkRank (tensor : Tensor) (given : Nat) : BuildM Unit :=
  if tensor.rank < given then throw (.tooManyIndices tensor.name tensor.rank given) else pure ()

/-- Indexes what is left of a slice. -/
def indexSlice (slice : Slice) (args : List IndexArg) : BuildM Indexed := do
  let tensor := slice.tensor
  let given := slice.indices.length + args.length
  checkRank tensor given
  let indices := slice.indices ++ (← args.mapM indexExpr)
  if given < tensor.rank then return .slice ⟨tensor, indices⟩
  return .load (← finish fun id => .load id tensor indices)

/-- Indexes a tensor. -/
def index (tensor : Tensor) (args : List IndexArg) : BuildM Indexed :=
  indexSlice (.whole tensor) args

/-- Loads an element; the indices have to cover the rank. -/
def load (tensor : Tensor) (args : List IndexArg) : BuildM Expr := do
  match ← index tensor args with
  | .load expr => return expr
  | .slice _ => throw (.incompleteIndex tensor.name tensor.rank args.length)

/-- A value as it is stored in a tensor. -/
def storedValue (tensor : Tensor) (value : Expr) : BuildM Expr := do
  let dtype ← valueType value
  if dtype = tensor.dtype then return value
  emit (.storeCast tensor.name dtype tensor.dtype)
  castNode value tensor.dtype

/-- Writes an element of what is left of a slice; `value` is made once the number of indices is
known to be right. -/
def storeSlice (value : BuildM Expr) (slice : Slice) (args : List IndexArg) : BuildM Expr := do
  let tensor := slice.tensor
  let given := slice.indices.length + args.length
  checkRank tensor given
  if given ≠ tensor.rank then throw (.partialWrite tensor.name tensor.rank given)
  let stored ← storedValue tensor (← value)
  let indices := slice.indices ++ (← args.mapM indexExpr)
  finish fun id => .store id tensor stored indices

/-- Writes an element. -/
def store (value : BuildM Expr) (tensor : Tensor) (args : List IndexArg) : BuildM Expr :=
  storeSlice value (.whole tensor) args

/-- The indices of the only element of a tensor. -/
def scalarIndices (tensor : Tensor) : BuildM (List IndexArg) :=
  if tensor.size = 1 then pure (List.replicate tensor.rank (.const 0))
  else throw (.notScalar tensor.name tensor.shape)

/-- Reads the only element of a tensor. -/
def scalar (tensor : Tensor) : BuildM Expr := do load tensor (← scalarIndices tensor)

/-- Writes the only element of a tensor. -/
def setScalar (value : BuildM Expr) (tensor : Tensor) : BuildM Expr := do
  store value tensor (← scalarIndices tensor)

/-- A bit of an integer load. -/
def bit (load : Expr) (args : List IndexArg) : BuildM Expr := do
  if !load.isLoad then throw (.bitAccess .notLoad)
  if !load.dtype?.any DType.isInt then throw (.bitAccess .load)
  match args with
  | [arg] => getBit load (← indexExpr arg)
  | _ => throw (.bitAccess .count)

/-! ## Storage -/

/-- A tensor without storage. -/
def placeholder (name : String) (shape : List Nat) (dtype : DType) : BuildM Tensor := do
  return ⟨← freshId, name, shape, dtype⟩

/-- Allocates the storage of a tensor at the current insertion point. -/
def allocTensor (tensor : Tensor) : BuildM Value := do
  checkType tensor.dtype
  let value ← createValue .alloc [] (.memref tensor.shape tensor.dtype)
    [("name", .str tensor.name)]
  modify (·.setStorage tensor value)
  return value

/-- A tensor with storage. -/
def alloc (name : String) (shape : List Nat) (dtype : DType) : BuildM Tensor := do
  let tensor ← placeholder name shape dtype
  let _ ← allocTensor tensor
  return tensor

end BuildM

end AffineKernel

import AffineKernel.Build.Access
import AffineKernel.Build.Context
import AffineKernel.Build.Lowering

/-!
# Materialization

`BuildM.build` turns a node into operations at the current insertion point: the
operands first, from left to right, and then an operation for the node itself (a
floor quotient of floats needs two). A node that is bound already yields its
binding and adds nothing.

**Reductions.** A reduction becomes a buffer of one element that starts at the
identity of the reduction, a perfect nest of loops with one loop for each axis,
in whose innermost body the value of the reduced expression is combined with the
buffer, and a load of the result after the nest:

    %acc = memref.alloc()
    affine.store(identity, %acc)
    affine.for k { affine.store(body + affine.load(%acc), %acc) }
    %result = affine.load(%acc)

The nest is a region: what was bound inside it is unbound when it closes. If
anything fails after some loops were opened, the stack of insertion points is
brought back to what it was.
-/

set_option autoImplicit false

namespace AffineKernel.BuildM

/-! ## Single operations -/

/-- A constant. -/
def emitConstant (literal : Literal) (dtype : DType) : BuildM Value :=
  createValue .constant [] (.scalar dtype) [("value", literal.toAttribute dtype)]

/-- A conversion, unless the types are the same. -/
def emitCast (value : Value) (source target : DType) : BuildM Value :=
  if source = target then pure value
  else createValue (castKind source target) [value] (.scalar target) []

/-- An operation of two operands; a floor quotient of floats is a quotient and its floor. -/
def emitBinary (kind : BinaryKind) (dtype : DType) (lhs rhs : Value) : BuildM Value := do
  let op ← liftExcept (kind.lower dtype)
  let result ← createValue op [lhs, rhs] (.scalar dtype) []
  if kind = .floorDiv ∧ dtype.isFloat then createValue .floor [result] (.scalar dtype) []
  else return result

/-- A comparison of operands of a type. -/
def emitCompare (kind : Comparison) (dtype : DType) (lhs rhs : Value) : BuildM Value :=
  createValue (.compareFor dtype.category) [lhs, rhs] (.scalar .bool)
    [("predicate", .int64 (kind.code dtype))]

/-- The end of a loop or conditional body. -/
def emitYield : BuildM Unit := do
  let _ ← create { kind := .yield }

/-! ## Accesses -/

/-- The buffer of a tensor. -/
def storageOf (tensor : Tensor) : BuildM Value := do
  match (← get).storage? tensor with
  | some value => return value
  | none => throw (.unboundTensor tensor.name)

/-- The values that loop variables are bound to. -/
def loopValue (ref : LoopRef) : BuildM Value := do
  match ((← get).binding? ref.id).bind (·.value?) with
  | some value => return value
  | none => throw (.unboundLoopVar ref.name)

/-- Map and operands of an access. -/
def affineAccess (indices : List Expr) : BuildM (AffineMap × List Value) := do
  match Extraction.access indices [] with
  | .error error _ => throw error
  | .ok map refs =>
    emit (.affineAccess refs.length indices.length)
    let operands ← refs.mapM loopValue
    return (map, operands)

/-- Attributes of a load or store. -/
def accessAttributes (map : AffineMap) (name : String) : List (String × Attribute) :=
  [("map", .affineMap map), ("name", .str name)]

/-- A load of an element of a tensor. -/
def emitLoad (tensor : Tensor) (indices : List Expr) : BuildM Value := do
  let memref ← storageOf tensor
  let (map, operands) ← affineAccess indices
  createValue .load (memref :: operands) (.scalar tensor.dtype) (accessAttributes map tensor.name)

/-- A store of a value into an element of a tensor. -/
def emitStore (value : Value) (tensor : Tensor) (indices : List Expr) : BuildM OpId := do
  let memref ← storageOf tensor
  let (map, operands) ← affineAccess indices
  create
    { kind := .store
      operands := value :: memref :: operands
      attributes := accessAttributes map tensor.name }

/-- A call; it has a result if it has a type. -/
def emitCall (dtype : Option DType) (callee : String) (args : List Value) : BuildM Binding := do
  let id ← create
    { kind := .call
      operands := args
      results := dtype.toList.map .scalar
      attributes := [("callee", .symbol callee)] }
  return if dtype.isSome then .value (.result id 0) else .op id

/-! ## Loops -/

/-- A bound of a loop, as a map and at most one operand of it. -/
structure LoopBound where
  map : AffineMap
  operand : Option Value

/-- A loop whose body is still empty. -/
structure LoopHeader where
  op : OpId
  body : BlockId

namespace LoopHeader

/-- The loop variable. -/
def counter (header : LoopHeader) : Value := .arg header.body 0

end LoopHeader

/-- What a loop is created with. -/
structure LoopSpec where
  step : Nat
  name : Option String
  stage : Option String
  reduction : Bool

/-- Creates a loop. A step of zero counts as one. -/
def emitLoop (lower upper : LoopBound) (spec : LoopSpec) : BuildM LoopHeader := do
  let attributes :=
    [("lower_bound", Attribute.affineMap lower.map), ("upper_bound", .affineMap upper.map),
      ("step", .index (Int64.ofNat (max spec.step 1)))] ++
    spec.name.toList.map (fun name => ("loop_name", .str name)) ++
    spec.stage.toList.map (fun stage => ("op_name", .str stage)) ++
    (if spec.reduction then [("reduction", .unit)] else [])
  let (op, body) ← createRegion .affineFor (lower.operand.toList ++ upper.operand.toList)
    attributes [.scalar .index]
  emit (.openLoop op (spec.name.getD ""))
  return ⟨op, body⟩

/-! ## Reductions -/

/-- The buffer that a reduction accumulates in. -/
structure Accumulator where
  buffer : Value
  /-- The index zero, which addresses the only element. -/
  zero : Value
  name : String
  dtype : DType

namespace Accumulator

/-- The only element is addressed by a symbol. -/
def attributes (acc : Accumulator) : List (String × Attribute) :=
  accessAttributes ⟨0, 1, [.symbol 0]⟩ acc.name

/-- Reads the accumulated value. -/
def load (acc : Accumulator) : BuildM Value :=
  createValue .load [acc.buffer, acc.zero] (.scalar acc.dtype) acc.attributes

/-- Writes the accumulated value. -/
def store (acc : Accumulator) (value : Value) : BuildM Unit := do
  let _ ← create
    { kind := .store, operands := [value, acc.buffer, acc.zero], attributes := acc.attributes }

end Accumulator

/-- Creates the buffer of a reduction and stores the start value. -/
def openAccumulator (kind : ReduceKind) (dtype : DType) : BuildM Accumulator := do
  let name := kind.name ++ "_rv"
  let buffer ← createValue .alloc [] (.memref [1] dtype) [("name", .str name)]
  let zero ← emitConstant (.int 0) .index
  let acc : Accumulator := ⟨buffer, zero, name, dtype⟩
  let start ← createValue .constant [] (.scalar dtype) [("value", kind.identity dtype)]
  acc.store start
  return acc

/-- Ends the bodies of loops, innermost first. -/
def closeLoops : Nat → BuildM Unit
  | 0 => pure ()
  | count + 1 => do
    emitYield
    let _ ← restorePoint
    closeLoops count

/-! ## Nodes -/

/-- Materializes a node unless it is bound, and binds it. -/
def once (id : NodeId) (name : String) (action : BuildM Binding) : BuildM Binding := do
  match (← get).binding? id with
  | some binding => return binding
  | none =>
    emit (.materialize id name)
    let binding ← action
    bindNode id binding
    return binding

/-- The value of a binding of a node. -/
def needValue (name : String) (binding : Binding) : BuildM Value :=
  match binding with
  | .value value => pure value
  | .op _ => throw (.noValue name)

/-- Materializes a node that yields a value. -/
def onceValue (id : NodeId) (name : String) (action : BuildM Value) : BuildM Binding :=
  once id name (Binding.value <$> action)

mutual

/-- Turns a node, and what it needs, into operations at the current insertion point. -/
def build : Expr → BuildM Binding
  | .constant id dtype value => onceValue id "constant" (emitConstant value dtype)
  | .loopVar id name | .axis id name _ _ =>
    onceValue id "induction_var" (throw (.unboundLoopVar name))
  | .unary id dtype kind operand => onceValue id "unary" do
    let x ← needValue operand.name (← build operand)
    createValue kind.lower [x] (.scalar dtype) []
  | .binary id dtype kind lhs rhs => onceValue id "binary" do
    let a ← needValue lhs.name (← build lhs)
    let b ← needValue rhs.name (← build rhs)
    emitBinary kind dtype a b
  | .compare id kind lhs rhs => onceValue id "compare" do
    let dtype ← valueType lhs
    let a ← needValue lhs.name (← build lhs)
    let b ← needValue rhs.name (← build rhs)
    emitCompare kind dtype a b
  | .cast id dtype source => onceValue id "cast" do
    let sourceType ← valueType source
    let value ← needValue source.name (← build source)
    emitCast value sourceType dtype
  | .load id tensor indices => onceValue id "load" (emitLoad tensor indices)
  | .store id tensor value indices => once id "store" do
    let stored ← needValue value.name (← build value)
    return .op (← emitStore stored tensor indices)
  | .select id dtype condition thenValue elseValue => onceValue id "select" do
    let c ← needValue condition.name (← build condition)
    let t ← needValue thenValue.name (← build thenValue)
    let e ← needValue elseValue.name (← build elseValue)
    createValue .select [c, t, e] (.scalar dtype) []
  | .call id dtype callee args => once id "call" do
    let operands ← buildArgs args
    emitCall dtype callee operands
  | .getBit id value bit => onceValue id "get_bit" do
    let v ← needValue value.name (← build value)
    let b ← needValue bit.name (← build bit)
    createValue .getBit [v, b] (.scalar .bool) []
  | .reduce id dtype kind body axes => onceValue id "reduce" do
    emit (.synthesizeReduction kind dtype axes.length)
    let acc ← openAccumulator kind dtype
    inRegion do
      openAxes axes
      let actual ← valueType body
      if actual ≠ dtype then throw (.reductionType dtype actual)
      let data ← needValue body.name (← build body)
      let current ← acc.load
      let combined ← createValue (kind.combine dtype) [data, current] (.scalar dtype) []
      acc.store combined
      closeLoops axes.length
    acc.load

/-- The bound of a loop: a literal, or the value of an integer expression as an `index`. -/
def buildBound : Bound → BuildM LoopBound
  | .const value => pure ⟨.constant value, none⟩
  | .expr value => do
    let dtype ← valueType value
    if !dtype.isIntegerLike then throw (.unsupportedOperation "loop_bound" dtype)
    let built ← needValue value.name (← build value)
    return ⟨.identity 1, some (← emitCast built dtype .index)⟩

/-- Opens the loops of axes, outermost first, and moves into the innermost body. -/
def openAxes : List Expr → BuildM Unit
  | [] => pure ()
  | .axis id name lower upper :: rest => do
    let low ← buildBound lower
    let high ← buildBound upper
    let header ← emitLoop low high ⟨1, some name, none, true⟩
    bindNode id (.value header.counter)
    savePoint (.atEnd header.body)
    openAxes rest
  | other :: _ => throw (.missingAxisBounds (other.loopName?.getD other.name))

/-- The operands of a call. -/
def buildArgs : List CallArg → BuildM (List Value)
  | [] => pure []
  | .expr value :: rest => do
    let first ← needValue value.name (← build value)
    let others ← buildArgs rest
    return first :: others
  | .tensor tensor :: rest => do
    let first ← storageOf tensor
    let others ← buildArgs rest
    return first :: others

end

/-- Materializes a node that has to yield a value. -/
def buildValue (expr : Expr) : BuildM Value := do needValue expr.name (← build expr)

/-- Materializes nodes in order. -/
def buildAll : List Expr → BuildM Unit
  | [] => pure ()
  | expr :: rest => do
    let _ ← build expr
    buildAll rest

end AffineKernel.BuildM

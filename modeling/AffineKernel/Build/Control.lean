import AffineKernel.Build.Construct

/-!
# Functions, loops and conditionals

Each of these owns a region, and is built in three steps: the operation is
created at the current insertion point (`beginFunction`, `beginLoop`,
`beginConditional`); the region is entered and its body is built; and the
operation that ends the region is created (`endFunction`, `endBody`). Whoever
builds the body closes the region with `Context.leaveRegion`, also if the body
fails.
-/

set_option autoImplicit false

namespace AffineKernel.BuildM

/-- Gives tensors the arguments of a block as storage, in order. -/
def bindArgs (block : BlockId) : Nat → List Tensor → BuildM Unit
  | _, [] => pure ()
  | position, tensor :: rest => do
    modify (·.setStorage tensor (.arg block position))
    bindArgs block (position + 1) rest

/-- Creates a function whose parameters are the storage of tensors. -/
def beginFunction (name : String) (args : List Tensor) : BuildM (OpId × BlockId) := do
  let (id, block) ← createRegion .func [] [("sym_name", .str name)]
    (args.map fun tensor => .memref tensor.shape tensor.dtype)
  bindArgs block 0 args
  emit (.openFunction name args.length)
  return (id, block)

/-- Ends a function, with the value of an expression as its result if there is one. -/
def endFunction (result : Option Expr) : BuildM Unit := do
  let operands ← match result with
    | some expr => do pure [← buildValue expr]
    | none => pure []
  let _ ← create { kind := .ret, operands }

/-- Creates a loop, with a new loop variable. -/
def beginLoop (lower upper : Bound) (spec : LoopSpec) : BuildM (Expr × LoopHeader) := do
  let counter := Expr.loopVar (← freshId) (spec.name.getD "")
  let low ← buildBound lower
  let high ← buildBound upper
  let header ← emitLoop low high spec
  return (counter, header)

/-- Creates a conditional on a condition that is an integer; it holds when the value is one. -/
def beginConditional (condition : Expr) : BuildM (OpId × BlockId) := do
  let dtype ← valueType condition
  if !dtype.isIntegerLike then throw (.unsupportedOperation "affine_if" dtype)
  let value ← buildValue condition
  let index ← emitCast value dtype .index
  createRegion .affineIf [index] [("condition", .integerSet .isOne)] []

/-- Ends the body of a loop or conditional. -/
def endBody : BuildM Unit := emitYield

end AffineKernel.BuildM

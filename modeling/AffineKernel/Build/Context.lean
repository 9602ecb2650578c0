import AffineKernel.Build.Error
import AffineKernel.Build.Expr
import AffineKernel.Build.Mode
import AffineKernel.Event
import AffineKernel.Table

/-!
# Build contexts

A context is everything that changes while expressions are built: the module,
the stack of insertion points, what each node is bound to, the storage of each
tensor, and the next free identity. A fresh context has the body of its module
as its only insertion point.

**Bindings.** A node that was turned into operations is bound to its value, or
to its operation if it yields none, so that it is emitted once. A binding made
while a region is open is undone when the region is closed, since a value of a
region cannot be used after it; `Context.leaveRegion` does this, and takes
whatever the region left on the stack of insertion points.

**Failures.** `BuildM` is the monad of building. A failure keeps the context as
it was when the failure arose.
-/

set_option autoImplicit false

namespace AffineKernel

/-- What a node was turned into. -/
inductive Binding where
  | value (value : Value)
  /-- An operation without a result. -/
  | op (id : OpId)
deriving DecidableEq, Inhabited

namespace Binding

/-- The value of a binding. -/
def value? : Binding → Option Value
  | .value bound => some bound
  | .op _ => none

def text : Binding → String
  | .value bound => bound.text
  | .op id => id.text

end Binding

/-- The state of building. -/
structure Context where
  module : Module
  mode : BuildMode
  /-- Insertion points, the current one first. -/
  stack : List InsertionPoint
  bindings : Table NodeId Binding
  /-- Nodes bound while a region was open, the latest first. -/
  regionNodes : List NodeId
  /-- Number of open regions. -/
  regions : Nat
  /-- The buffer of each tensor that has one. -/
  storage : Table NodeId Value
  /-- The next free identity. -/
  nextId : NodeId
  log : Array Event

/-- What a region has to restore when it closes. -/
structure RegionMark where
  depth : Nat
  bound : Nat

namespace Context

/-- Records an event. -/
def emit (context : Context) (event : Event) : Context :=
  { context with log := context.log.push event }

/-- Number of insertion points. -/
def depth (context : Context) : Nat := context.stack.length

/-- Puts an insertion point on the stack. -/
def savePoint (context : Context) (point : InsertionPoint) : Context :=
  { context with stack := point :: context.stack }.emit
    (.savePoint point.block (context.depth + 1))

/-- Drops the insertion points above a depth. -/
def truncate (context : Context) (depth : Nat) : Context :=
  { context with stack := context.stack.drop (context.depth - depth) }

/-- A context with a module in it and nothing bound. `log` holds the events so far. -/
def start (mode : BuildMode) (module : Module) (log : Array Event) : Context :=
  let context : Context :=
    { module := module
      mode := mode
      stack := []
      bindings := .empty
      regionNodes := []
      regions := 0
      storage := .empty
      nextId := 0
      log := log }
  context.savePoint (.atEnd Module.body)

/-- What a node is bound to. -/
def binding? (context : Context) (id : NodeId) : Option Binding := context.bindings.find? id

/-- Whether a node is bound. -/
def isBound (context : Context) (id : NodeId) : Bool := (context.binding? id).isSome

/-- The buffer of a tensor. -/
def storage? (context : Context) (tensor : Tensor) : Option Value :=
  context.storage.find? tensor.id

/-- Whether a tensor has a buffer. -/
def hasStorage (context : Context) (tensor : Tensor) : Bool := (context.storage? tensor).isSome

/-- Binds a node; the binding lasts until the innermost open region closes. -/
def bind (context : Context) (id : NodeId) (binding : Binding) : Context :=
  { context with
    bindings := context.bindings.insert id binding
    regionNodes := if 0 < context.regions then id :: context.regionNodes
      else context.regionNodes }

/-- Gives a tensor its buffer. -/
def setStorage (context : Context) (tensor : Tensor) (value : Value) : Context :=
  { context with storage := context.storage.insert tensor.id value }

/-! ## Regions -/

/-- What a region opened now would have to restore. -/
def mark (context : Context) : RegionMark := ⟨context.depth, context.regionNodes.length⟩

/-- Opens a region. -/
def enterRegion (context : Context) : Context := { context with regions := context.regions + 1 }

/-- Closes a region: drops the insertion points it left on the stack and undoes the bindings made
since it was opened. -/
def leaveRegion (mark : RegionMark) (context : Context) : Context :=
  let inside := context.regionNodes.take (context.regionNodes.length - mark.bound)
  { context.truncate mark.depth with
    regions := context.regions - 1
    bindings := context.bindings.eraseAll inside
    regionNodes := context.regionNodes.drop (context.regionNodes.length - mark.bound) }

end Context

/-- Building: a computation on a context that may fail. -/
abbrev BuildM := EStateM BuildError Context

namespace BuildM

/-- Records an event. -/
def emit (event : Event) : BuildM Unit := modify (·.emit event)

/-- A fresh identity. -/
def freshId : BuildM NodeId :=
  modifyGet fun context => (context.nextId, { context with nextId := context.nextId + 1 })

/-- Puts an insertion point on the stack. -/
def savePoint (point : InsertionPoint) : BuildM Unit := modify (·.savePoint point)

/-- The current insertion point. -/
def currentPoint : BuildM InsertionPoint := do
  match (← get).stack with
  | point :: _ => return point
  | [] => throw .emptyStack

/-- Takes the current insertion point from the stack. -/
def restorePoint : BuildM InsertionPoint := do
  let context ← get
  match context.stack with
  | [] => throw .emptyStack
  | point :: rest =>
    set { context with stack := rest }
    emit (.restorePoint point.block rest.length)
    return point

/-- Binds a node. -/
def bindNode (id : NodeId) (binding : Binding) : BuildM Unit := modify (·.bind id binding)

/-- Runs an action as a region of its own: what it leaves on the stack and what it binds is undone
at its end, whether it fails or not. -/
def inRegion {α : Type} (action : BuildM α) : BuildM α := fun context =>
  match action context.enterRegion with
  | .ok a after => .ok a (after.leaveRegion context.mark)
  | .error error after => .error error (after.leaveRegion context.mark)

/-- Creates an operation at the current insertion point. -/
def create (draft : OpDraft) : BuildM OpId := do
  let point ← currentPoint
  let context ← get
  let (id, module) := context.module.create draft point
  set { context with module := module }
  emit (.createOperation id draft.kind point.block)
  return id

/-- Creates an operation with one region, and yields its block too. -/
def createRegion (kind : OpKind) (operands : List Value) (attributes : List (String × Attribute))
    (args : List ValueType) : BuildM (OpId × BlockId) := do
  let block : BlockId := ⟨(← get).module.blocks.size⟩
  let id ← create { kind, operands, attributes, regions := [args] }
  return (id, block)

/-- Creates an operation with one result, and yields it. -/
def createValue (kind : OpKind) (operands : List Value) (type : ValueType)
    (attributes : List (String × Attribute)) : BuildM Value := do
  let id ← create { kind, operands, results := [type], attributes }
  return .result id 0

/-- Refuses a type that is too wide. -/
def checkType (dtype : DType) : BuildM Unit :=
  match dtype.rank with
  | .ok _ => pure ()
  | .error error => throw (.invalidType error)

/-- Type of a node that yields a value. -/
def valueType (expr : Expr) : BuildM DType :=
  match expr.dtype? with
  | some dtype => pure dtype
  | none => throw (.noValue expr.name)

/-- Passes on the outcome of a pure check. -/
def liftExcept {α : Type} : Except BuildError α → BuildM α
  | .ok a => pure a
  | .error error => throw error

end BuildM

end AffineKernel

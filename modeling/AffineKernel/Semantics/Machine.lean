import AffineKernel.Event
import AffineKernel.IR.Predicate
import AffineKernel.Semantics.Arithmetic
import AffineKernel.Semantics.Buffer
import AffineKernel.Semantics.Error
import AffineKernel.Table

/-!
# The reference machine

Runs the functions of a module over buffers. The machine owns a heap of buffers
that only grows; a function receives handles of buffers, so that what it stores
is seen by its caller.

**Scopes.** Each execution of a block has a scope of its own, entered with the
block's arguments. A value is looked up from the innermost scope outwards, so it
is visible in the block that defines it and in the blocks nested inside, during
that one execution. A called function starts from an empty frame.

**Recursion.** `runOp` executes one operation, given how to execute the blocks
nested below it; `runBlock` ties the knot, with a bound on the depth of nesting
of blocks. Loops are bounded by the number of their iterations.

A `func.return` ends the blocks around it up to its function or up to the
nearest loop, whichever is closer: a loop goes on with its next iteration.
-/

set_option autoImplicit false

namespace AffineKernel

/-- What a value stands for during a run: a scalar, or the handle of a buffer. -/
inductive Datum where
  | scalar (scalar : Scalar)
  | buffer (handle : Nat)
deriving Inhabited

/-- Values of one execution of a block. -/
abbrev Scope := Table Value Datum

/-- Scopes of the blocks being executed in one call, innermost first. -/
abbrev Frame := List Scope

/-- The heap of buffers, and the events of the run. -/
structure Machine where
  heap : Array Buffer
  log : Array Event

/-- The machine before any call. -/
def Machine.fresh : Machine := ⟨#[], #[]⟩

/-- A step of a run. A failure keeps what was done to the heap before it. -/
abbrev Exec := EStateM RunError Machine

namespace Frame

/-- The datum of a value, from the innermost scope outwards. -/
def find? (frame : Frame) (value : Value) : Option Datum :=
  frame.findSome? (fun scope => Table.find? scope value)

/-- Defines a value in the innermost scope. -/
def define (frame : Frame) (value : Value) (datum : Datum) : Frame :=
  match frame with
  | [] => []
  | scope :: outer => Table.insert scope value datum :: outer

/-- Enters a block with its arguments. -/
def enter (frame : Frame) (block : BlockId) (args : List Datum) : Frame :=
  ⟨((List.range args.length).map (Value.arg block)).zip args⟩ :: frame

end Frame

/-- How an operation ends. -/
inductive Step where
  /-- The block goes on, with the frame as the operation left it. -/
  | next (frame : Frame)
  /-- The operation returned from the function. -/
  | returned (values : List Datum)

namespace Machine

/-! ## Operands -/

/-- Records an event. -/
def emit (event : Event) : Exec Unit :=
  modify fun machine => { machine with log := machine.log.push event }

/-- Unwraps what a module of the right form has. -/
def require {α : Type} : Option α → Exec α
  | some a => pure a
  | none => throw .malformed

/-- The datum of a value that is visible. -/
def lookup (frame : Frame) (value : Value) : Exec Datum :=
  match frame.find? value with
  | some datum => pure datum
  | none => throw (.undefinedValue value)

/-- An operation under execution. -/
structure Site where
  module : Module
  id : OpId
  op : Operation

namespace Site

variable (site : Site)

/-- An operand, by its position. -/
def operand (position : Nat) : Exec Value := require site.op.operands[position]?

/-- Type of an operand, by its position. -/
def operandDType (position : Nat) : Exec DType := do
  let value ← site.operand position
  let type ← require (site.module.valueType? value)
  return type.dtype

/-- Type of the first result, if there is one. -/
def resultDType? : Option DType := site.op.results.head?.map ValueType.dtype

/-- The failure of an operand of the wrong sort. -/
def wrongOperand (expected : OperandClass) : RunError :=
  .operandKind site.id site.op.kind expected

/-- An operand that has to be a scalar. -/
def scalar (frame : Frame) (value : Value) : Exec Scalar := do
  match ← lookup frame value with
  | .scalar scalar => return scalar
  | .buffer _ => throw (site.wrongOperand .scalar)

/-- An operand that has to be an integer. -/
def int (frame : Frame) (value : Value) : Exec Int := do
  match ← site.scalar frame value with
  | .int value => return value
  | .float _ => throw (site.wrongOperand .integer)

/-- An operand that has to be a float. -/
def float (frame : Frame) (value : Value) : Exec Float := do
  match ← site.scalar frame value with
  | .float x => return x
  | .int _ => throw (site.wrongOperand .float)

/-- An operand that has to be a buffer. -/
def buffer (frame : Frame) (value : Value) : Exec Nat := do
  match ← lookup frame value with
  | .buffer handle => return handle
  | .scalar _ => throw (site.wrongOperand .buffer)

/-! ## Attributes -/

/-- The failure of an attribute that is absent or of the wrong form. -/
def missing (name : String) : RunError := .missingAttribute site.id site.op.kind name

/-- An attribute of the right form. -/
def attr {α : Type} (name : String) (form : Attribute → Option α) : Exec α :=
  match (site.op.attr? name).bind form with
  | some a => pure a
  | none => throw (site.missing name)

/-- Operands of a map or set, as words. -/
def words (frame : Frame) (values : List Value) : Exec (List Int64) :=
  values.mapM fun value => do return Int64.ofInt (← site.int frame value)

/-- A result that only a division by zero can take away. -/
def defined {α : Type} : Option α → Exec α
  | some a => pure a
  | none => throw (.divisionByZero site.id site.op.kind)

/-- Goes on unless a number has left the integers that hold it. -/
def checked (overflows : Bool) : Exec Unit :=
  if overflows then throw (.overflow site.id site.op.kind) else pure ()

/-- Values of a map on operands: dimensions first, then symbols. -/
def evalMap (map : AffineMap) (words : List Int64) : Exec (List Int64) := do
  site.checked (map.overflows (words.take map.dims) (words.drop map.dims))
  site.defined (map.eval (words.take map.dims) (words.drop map.dims))

/-- Index tuple of a load or store. -/
def access (frame : Frame) (indices : List Value) : Exec (List Int64) := do
  let map ← site.attr "map" Attribute.asMap?
  let words ← site.words frame indices
  site.evalMap map words

/-! ## Scalar operations -/

/-- The value of a constant. -/
def constant : Exec Scalar := do
  let dtype := site.resultDType?.getD .int64
  match site.op.attr? "value" with
  | some (.int value type) => return (Scalar.int (normalize value.toInt type)).convert type dtype
  | some (.float value _) => return (Scalar.float value).convert .float64 dtype
  | _ => throw (site.missing "value")

/-- Comparison of integers or raw fixed point numbers. -/
def compareInts (frame : Frame) : Exec Scalar := do
  let pred ← site.attr "predicate" fun a => a.asInt?.bind IntPredicate.ofCode?
  let width := (← site.operandDType 0).width
  let lhs ← site.int frame (← site.operand 0)
  let rhs ← site.int frame (← site.operand 1)
  let read (value : Int) := if pred.isUnsigned then unsigned value width else signed value width
  return .int (if pred.holds (read lhs) (read rhs) then 1 else 0)

/-- Comparison of floats. -/
def compareFloats (frame : Frame) : Exec Scalar := do
  let pred ← site.attr "predicate" fun a => a.asInt?.bind FloatPredicate.ofCode?
  let lhs ← site.float frame (← site.operand 0)
  let rhs ← site.float frame (← site.operand 1)
  return .int (if pred.holds lhs rhs then 1 else 0)

/-- A conversion to the type of the result. -/
def cast (frame : Frame) : Exec Scalar := do
  let source ← site.scalar frame (← site.operand 0)
  return source.convert (← site.operandDType 0) (site.resultDType?.getD .index)

/-- A choice between two operands by a condition. -/
def select (frame : Frame) : Exec Scalar := do
  let condition ← site.int frame (← site.operand 0)
  site.scalar frame (← site.operand (if condition ≠ 0 then 1 else 2))

/-- A bit of an integer. -/
def getBit (frame : Frame) : Exec Scalar := do
  let value ← site.int frame (← site.operand 0)
  let position ← site.int frame (← site.operand 1)
  return .int (Arithmetic.bit value position (← site.operandDType 0).width)

/-- The failure of a kind without a meaning for its operands. -/
def unsupported (dtype : DType) : RunError := .unsupportedOperation site.op.kind dtype

/-- A function of one operand. -/
def unary (dtype : DType) (scalar : Scalar) : Exec Scalar := do
  match scalar, site.op.kind.floatFunction? with
  | .float x, some function =>
    let y := function x
    emit (.unary site.id site.op.kind x y)
    return .float (roundFloat y dtype)
  | _, _ => throw (site.unsupported dtype)

/-- An operation of two operands. -/
def binary (dtype : DType) (lhs rhs : Scalar) : Exec Scalar :=
  match Arithmetic.binary site.op.kind dtype lhs rhs with
  | .ok scalar => pure scalar
  | .error .unsupported => throw (site.unsupported dtype)
  | .error .divisionByZero => throw (.divisionByZero site.id site.op.kind)
  | .error .overflow => throw (.overflow site.id site.op.kind)

/-- The arithmetic operations. -/
def arithmetic (frame : Frame) : Exec Scalar := do
  let dtype := site.resultDType?.getD .int64
  match site.op.operands with
  | [x] => site.unary dtype (← site.scalar frame x)
  | [a, b] => do
    let lhs ← site.scalar frame a
    let rhs ← site.scalar frame b
    site.binary dtype lhs rhs
  | _ => throw (site.unsupported dtype)

/-! ## Buffers -/

/-- A new buffer of zeros. -/
def alloc : Exec Nat := do
  let type ← require site.op.results.head?
  site.checked (!Buffer.allocates (type.shape?.getD []))
  let machine ← get
  set { machine with heap := machine.heap.push (.zeros (type.shape?.getD []) type.dtype) }
  return machine.heap.size

/-- Shape of a buffer of the heap. -/
def shapeOf (handle : Nat) : Exec (List Nat) := do
  require ((← get).heap[handle]?.map Buffer.shape)

/-- Puts an element into its place in a buffer of the heap. -/
def putElement (handle offset : Nat) (scalar : Scalar) : Exec Unit :=
  modify fun machine =>
    { machine with heap := machine.heap.modify handle fun buffer => buffer.put offset scalar }

/-- Reads an element. -/
def load (frame : Frame) : Exec Scalar := do
  let handle ← site.buffer frame (← site.operand 0)
  let indices ← site.access frame (site.op.operands.drop 1)
  let buffer ← require (← get).heap[handle]?
  match buffer.get? indices with
  | some scalar => return scalar
  | none => throw (.outOfBounds indices buffer.shape)

/-- Writes an element. -/
def store (frame : Frame) : Exec Unit := do
  let scalar ← site.scalar frame (← site.operand 0)
  let handle ← site.buffer frame (← site.operand 1)
  let indices ← site.access frame (site.op.operands.drop 2)
  let shape ← shapeOf handle
  match Buffer.offset? shape indices with
  | some offset => putElement handle offset scalar
  | none => throw (.outOfBounds indices shape)

end Site

/-! ## Control flow -/

/-- Executes a block with arguments inside a frame; the values returned, if it returned. -/
abbrev RunBlock := BlockId → List Datum → Frame → Exec (Option (List Datum))

/-- Number of iterations of a loop from `low` below `high`. -/
def iterations (low high step : Int) : Nat :=
  if low < high then ((high - low + step - 1) / step).toNat else 0

/-- Runs a loop body for a number of consecutive iterations. -/
def iterate (body : Int → Exec Unit) (step : Int) : Nat → Int → Exec Unit
  | 0, _ => pure ()
  | count + 1, current => do
    body current
    iterate body step count (current + step)

/-- The numbers that a loop counts through: from `low` in steps, as long as they are below
`high`. -/
structure LoopRange where
  low : Int
  high : Int
  step : Int

/-- Whether the counter of a loop leaves the words when it is increased after the last iteration. -/
def LoopRange.overflows (range : LoopRange) : Bool :=
  2 ^ 63 ≤ range.low + iterations range.low range.high range.step * range.step

/-- The range of a loop: its bounds are the greatest lower and the least upper bound, and a step
below one counts as one. -/
def Site.loopRange (site : Site) (frame : Frame) : Exec LoopRange := do
  let lower ← site.attr "lower_bound" Attribute.asMap?
  let upper ← site.attr "upper_bound" Attribute.asMap?
  let step ← site.attr "step" Attribute.asInt?
  let split := lower.dims + lower.symbols
  let lowerWords ← site.words frame (site.op.operands.take split)
  let upperWords ← site.words frame (site.op.operands.drop split)
  let lowerBounds ← site.evalMap lower lowerWords
  let upperBounds ← site.evalMap upper upperWords
  return { low := ((lowerBounds.map Int64.toInt).max?).getD 0
           high := ((upperBounds.map Int64.toInt).min?).getD 0
           step := max step.toInt 1 }

/-- A loop runs its region for each number of its range. Its counter is a word, also when it has
been increased after the last iteration. -/
def runLoop (run : RunBlock) (site : Site) (frame : Frame) : Exec Unit := do
  let range ← site.loopRange frame
  let body ← require site.op.regions.head?
  iterate (fun current => do let _ ← run body [.scalar (.int current)] frame) range.step
    (iterations range.low range.high range.step) range.low
  site.checked range.overflows

/-- The region that a conditional runs: the first one if the condition holds, the second one, if
there is one, if it does not. -/
def Site.branch (site : Site) (frame : Frame) : Exec (Option BlockId) := do
  let condition ← site.attr "condition" Attribute.asSet?
  let words ← site.words frame site.op.operands
  site.checked (condition.overflows (words.take condition.dims) (words.drop condition.dims))
  let taken ← site.defined
    (condition.contains (words.take condition.dims) (words.drop condition.dims))
  return site.op.regions[if taken then 0 else 1]?

/-- A conditional runs one of its regions, or none. -/
def runConditional (run : RunBlock) (site : Site) (frame : Frame) :
    Exec (Option (List Datum)) := do
  match ← site.branch frame with
  | some block => run block [] frame
  | none => return none

/-- Runs a function in a frame of its own. -/
def runFunction (module : Module) (run : RunBlock) (func : OpId) (name : String)
    (args : List Datum) : Exec (List Datum) := do
  match module.region? func 0 with
  | none => throw (.unknownFunction name)
  | some body =>
    let block ← require (module.block? body)
    let expected := block.args.length
    if args.length ≠ expected then throw (.argumentMismatch name expected args.length)
    emit (.interpret name args.length)
    return (← run body args []).getD []

/-- Defines the results of a call, as many as the operation has and the function returned. -/
def defineResults (frame : Frame) (id : OpId) (count : Nat) (values : List Datum) : Frame :=
  ((List.range count).zip values).foldl
    (fun frame entry => frame.define (.result id entry.1) entry.2) frame

/-- Executes one operation, given how to execute blocks. -/
def runOp (module : Module) (run : RunBlock) (id : OpId) (frame : Frame) : Exec Step := do
  let op ← require (module.op? id)
  let site : Site := ⟨module, id, op⟩
  let define (datum : Datum) : Exec Step := return .next (frame.define (.result id 0) datum)
  let defineScalar (scalar : Exec Scalar) : Exec Step := do define (.scalar (← scalar))
  match op.kind with
  | .func | .yield => return .next frame
  | .ret => return .returned (← op.operands.mapM (lookup frame))
  | .constant => defineScalar site.constant
  | .alloc => define (.buffer (← site.alloc))
  | .load => defineScalar (site.load frame)
  | .store => do
    site.store frame
    return .next frame
  | .affineFor => do
    runLoop run site frame
    return .next frame
  | .affineIf => do
    match ← runConditional run site frame with
    | some values => return .returned values
    | none => return .next frame
  | .call => do
    let callee ← match op.attr? "callee" with
      | some attr => pure (attr.asText?.getD "")
      | none => throw (site.missing "callee")
    match module.function? callee with
    | none => throw (.unknownFunction callee)
    | some func =>
      let args ← op.operands.mapM (lookup frame)
      let values ← runFunction module run func callee args
      return .next (defineResults frame id op.results.length values)
  | .indexCast | .conversionCast => defineScalar (site.cast frame)
  | .select => defineScalar (site.select frame)
  | .getBit => defineScalar (site.getBit frame)
  | .cmpI | .cmpFixed => defineScalar (site.compareInts frame)
  | .cmpF => defineScalar (site.compareFloats frame)
  | _ => defineScalar (site.arithmetic frame)

/-- Executes operations in order until one returns. -/
def runOps (step : OpId → Frame → Exec Step) : List OpId → Frame → Exec (Option (List Datum))
  | [], _ => pure none
  | id :: rest, frame => do
    match ← step id frame with
    | .returned values => return some values
    | .next frame => runOps step rest frame

/-- Executes a block in a scope of its own, with blocks nested to a depth of `fuel` at most. -/
def runBlock (module : Module) : Nat → RunBlock
  | 0 => fun _ _ _ => throw .depthExceeded
  | fuel + 1 => fun id args frame => do
    let block ← require (module.block? id)
    runOps (runOp module (runBlock module fuel)) block.ops (frame.enter id args)

/-! ## Calls from outside -/

/-- Outcome of a call: the results, and the caller's buffers after it. -/
structure Reply where
  results : Except RunError (List Scalar)
  buffers : List Buffer

/-- The results of a function as scalars; a function called from outside returns no buffers. -/
def scalarResults (func : OpId) : List Datum → Except RunError (List Scalar)
  | [] => .ok []
  | .scalar scalar :: rest => (scalarResults func rest).map (scalar :: ·)
  | .buffer _ :: _ => .error (.operandKind func .ret .scalar)

/-- Calls a function with copies of buffers. The buffers are given back as the function left them
when it ran to its end, and unchanged when it failed. -/
def call (module : Module) (depth : Nat) (name : String) (args : List Buffer)
    (machine : Machine) : Reply × Machine :=
  match module.function? name with
  | none => (⟨.error (.unknownFunction name), args⟩, machine)
  | some func =>
    let base := machine.heap.size
    let handles := (List.range args.length).map (fun position => Datum.buffer (base + position))
    let machine := { machine with heap := machine.heap ++ args.toArray }
    match runFunction module (runBlock module depth) func name handles machine with
    | .ok values machine =>
      let buffers := (List.range args.length).filterMap
        (fun position => machine.heap[base + position]?)
      (⟨scalarResults func values, buffers⟩, machine)
    | .error error machine => (⟨.error error, args⟩, machine)

/-- Calls functions one after the other on one machine. -/
def callAll (module : Module) (depth : Nat) :
    List (String × List Buffer) → Machine → List Reply × Machine
  | [], machine => ([], machine)
  | (name, args) :: rest, machine =>
    let (reply, machine) := call module depth name args machine
    let (replies, machine) := callAll module depth rest machine
    (reply :: replies, machine)

end Machine

end AffineKernel

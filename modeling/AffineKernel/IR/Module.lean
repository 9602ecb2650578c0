import AffineKernel.IR.Attribute
import AffineKernel.IR.OpKind

/-!
# Modules

A module holds operations and blocks, each under a number of its own. A block
lists its operations in order; an operation may own regions, and every region
is a single block, so that operations and blocks form a forest whose root is the
body of the module.

A module only grows: `Module.create` adds an operation, together with the blocks
of its regions, at an insertion point. Besides that, only the operands of an
operation can be replaced.

Names used here: a *value* is a result of an operation or an argument of a
block, whether or not the module has it; `Module.valueType?` says which values
the module has.
-/

set_option autoImplicit false

namespace AffineKernel

/-- Number of an operation, in the order of creation. -/
structure OpId where
  index : Nat
deriving DecidableEq, Inhabited

/-- Number of a block, in the order of creation. -/
structure BlockId where
  index : Nat
deriving DecidableEq, Inhabited

/-- A result of an operation or an argument of a block. -/
inductive Value where
  | result (op : OpId) (position : Nat)
  | arg (block : BlockId) (position : Nat)
deriving DecidableEq, Inhabited

def OpId.text (id : OpId) : String := "op" ++ id.index.repr

def BlockId.text (id : BlockId) : String := "^bb" ++ id.index.repr

def Value.text : Value → String
  | .result op position => op.text ++ "#" ++ position.repr
  | .arg block position => block.text ++ "#" ++ position.repr

/-- Where the next operation goes: before a given operation of the block, or at its end. -/
structure InsertionPoint where
  block : BlockId
  before : Option OpId
deriving DecidableEq, Inhabited

/-- The end of a block. -/
def InsertionPoint.atEnd (block : BlockId) : InsertionPoint := ⟨block, none⟩

/-- An operation of a module. -/
structure Operation where
  kind : OpKind
  operands : List Value
  /-- Types of the results. -/
  results : List ValueType
  attributes : List (String × Attribute)
  /-- The block of each region. -/
  regions : List BlockId
  /-- The block that lists the operation. -/
  parent : BlockId
deriving Inhabited

/-- The first attribute with a given name. -/
def Operation.attr? (op : Operation) (name : String) : Option Attribute :=
  op.attributes.lookup name

/-- A block of a module. -/
structure Block where
  /-- Types of the arguments. -/
  args : List ValueType
  ops : List OpId
  /-- The operation that owns the block; none for the body of the module. -/
  parent : Option OpId
deriving Inhabited

/-- An operation to be created. -/
structure OpDraft where
  kind : OpKind
  operands : List Value := []
  results : List ValueType := []
  attributes : List (String × Attribute) := []
  /-- For each region, the types of the arguments of its block. -/
  regions : List (List ValueType) := []
deriving Inhabited

/-- A forest of operations and blocks. -/
structure Module where
  ops : Array Operation
  blocks : Array Block
deriving Inhabited

namespace Module

/-- The module with an empty body. -/
def empty : Module := ⟨#[], #[⟨[], [], none⟩]⟩

/-- The outermost block. -/
def body : BlockId := ⟨0⟩

/-! ## Look-up -/

/-- An operation by its number. -/
def op? (module : Module) (id : OpId) : Option Operation := module.ops[id.index]?

/-- A block by its number. -/
def block? (module : Module) (id : BlockId) : Option Block := module.blocks[id.index]?

/-- Number of operations. -/
def size (module : Module) : Nat := module.ops.size

def isEmpty (module : Module) : Bool := module.size = 0

/-- The first result of an operation, if it has results. -/
def result? (module : Module) (id : OpId) : Option Value :=
  match module.op? id with
  | some ⟨_, _, _ :: _, _, _, _⟩ => some (.result id 0)
  | _ => none

/-- An argument of a block, by its position. -/
def blockArg? (module : Module) (block : BlockId) (position : Nat) : Option Value := do
  let found ← module.block? block
  if position < found.args.length then some (.arg block position) else none

/-- The block of a region of an operation. -/
def region? (module : Module) (id : OpId) (position : Nat) : Option BlockId := do
  let op ← module.op? id
  op.regions[position]?

/-- Type of a value; none if the module has no such value. -/
def valueType? (module : Module) : Value → Option ValueType
  | .result op position => do (← module.op? op).results[position]?
  | .arg block position => do (← module.block? block).args[position]?

/-- The operations of a kind, in the order of creation. -/
def opsOfKind (module : Module) (kind : OpKind) : List OpId :=
  ((List.range module.size).map OpId.mk).filter fun id =>
    (module.op? id).any (fun op => op.kind = kind)

/-- Number of operations of a kind. -/
def count (module : Module) (kind : OpKind) : Nat := (module.opsOfKind kind).length

/-- The first function with a given name. -/
def function? (module : Module) (name : String) : Option OpId :=
  (module.opsOfKind .func).find? fun id =>
    ((module.op? id).bind (·.attr? "sym_name")).bind (·.asText?) = some name

/-- The innermost operation of a kind among an operation and its ancestors, looking at `fuel` of
them at most. -/
def enclosingFrom (module : Module) (kind : OpKind) : Nat → Option OpId → Option OpId
  | 0, _ => none
  | _, none => none
  | fuel + 1, some id => do
    let op ← module.op? id
    if op.kind = kind then some id
    else enclosingFrom module kind fuel ((module.block? op.parent).bind (·.parent))

/-- The innermost operation of a kind around a block. No block has more ancestors than there are
operations. -/
def enclosing? (module : Module) (block : BlockId) (kind : OpKind) : Option OpId :=
  module.enclosingFrom kind module.size ((module.block? block).bind (·.parent))

/-! ## Growth -/

/-- Lists an operation right before another one, or last if that one is not listed. -/
def place (new : OpId) (before : Option OpId) : List OpId → List OpId
  | [] => [new]
  | id :: rest => if before = some id then new :: id :: rest else id :: place new before rest

/-- The numbers of `count` new blocks. -/
def freshBlocks (module : Module) (count : Nat) : List BlockId :=
  (List.range count).map (fun position => ⟨module.blocks.size + position⟩)

/-- Creates an operation at an insertion point, and the blocks of its regions with it. -/
def create (module : Module) (draft : OpDraft) (point : InsertionPoint) : OpId × Module :=
  let id : OpId := ⟨module.ops.size⟩
  let op : Operation :=
    { kind := draft.kind
      operands := draft.operands
      results := draft.results
      attributes := draft.attributes
      regions := module.freshBlocks draft.regions.length
      parent := point.block }
  let regions := draft.regions.map (fun args => Block.mk args [] (some id))
  let blocks := (module.blocks ++ regions.toArray).modify point.block.index
    (fun block => { block with ops := place id point.before block.ops })
  (id, ⟨module.ops.push op, blocks⟩)

/-- Replaces the operands of an operation. -/
def setOperands (module : Module) (id : OpId) (operands : List Value) : Module :=
  { module with ops := module.ops.modify id.index (fun op => { op with operands := operands }) }

end Module

end AffineKernel

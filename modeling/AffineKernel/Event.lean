import AffineKernel.Build.Kinds
import AffineKernel.IR.Module

/-!
# Events

Building and running leave a trail of events. Warnings report casts that nobody
asked for; debug events report larger steps; trace events report single
operations and insertion points. An event has a level, a fixed message and
named fields.
-/

set_option autoImplicit false

namespace AffineKernel

/-- Importance of an event. -/
inductive Level where
  | trace
  | debug
  | warn
deriving DecidableEq, Inhabited

namespace Level

/-- Whether events of one level are shown where another one is asked for. -/
def reaches : Level → Level → Bool
  | .warn, _ => true
  | .debug, .warn => false
  | .debug, _ => true
  | .trace, .trace => true
  | .trace, _ => false

/-- Name of a level. -/
def name : Level → String
  | .trace => "TRACE"
  | .debug => "DEBUG"
  | .warn => "WARN"

end Level

/-- Something that happened while a module was built or run. -/
inductive Event where
  /-- An operand was cast to the type its operator needs. -/
  | implicitCast (node : Nat) (source target : DType)
  /-- A stored value was cast to the type of its tensor. -/
  | storeCast (tensor : String) (source target : DType)
  /-- A node is about to be turned into operations. -/
  | materialize (node : Nat) (kind : String)
  | createOperation (op : OpId) (kind : OpKind) (block : BlockId)
  /-- An insertion point was put on the stack, which now has the given depth. -/
  | savePoint (block : BlockId) (depth : Nat)
  /-- An insertion point was taken from the stack, which now has the given depth. -/
  | restorePoint (block : BlockId) (depth : Nat)
  | openFunction (name : String) (args : Nat)
  | openLoop (op : OpId) (name : String)
  /-- A reduction is about to be turned into a loop nest. -/
  | synthesizeReduction (kind : ReduceKind) (dtype : DType) (axes : Nat)
  /-- The indices of an access became an affine map. -/
  | affineAccess (dims indices : Nat)
  /-- A function starts to run. -/
  | interpret (function : String) (args : Nat)
  /-- A function of one float was applied. -/
  | unary (op : OpId) (kind : OpKind) (x y : Float)

namespace Event

/-- Value of a field. -/
inductive Field where
  | text (value : String)
  | count (value : Nat)
  | float (value : Float)

/-- How important an event is. -/
def level : Event → Level
  | .implicitCast .. | .storeCast .. => .warn
  | .materialize .. | .openFunction .. | .openLoop .. | .synthesizeReduction ..
  | .interpret .. => .debug
  | .createOperation .. | .savePoint .. | .restorePoint .. | .affineAccess .. | .unary .. => .trace

/-- The fixed message of an event. -/
def message : Event → String
  | .implicitCast .. => "implicit cast"
  | .storeCast .. => "store value cast to tensor dtype"
  | .materialize .. => "materialize"
  | .createOperation .. => "create operation"
  | .savePoint .. => "save insertion point"
  | .restorePoint .. => "restore insertion point"
  | .openFunction .. => "open function"
  | .openLoop .. => "open loop"
  | .synthesizeReduction .. => "synthesize reduction"
  | .affineAccess .. => "affine access"
  | .interpret .. => "interpret"
  | .unary .. => "unary"

/-- The named fields of an event. -/
def fields : Event → List (String × Field)
  | .implicitCast node source target =>
    [("node", .count node), ("from", .text source.text), ("to", .text target.text)]
  | .storeCast tensor source target =>
    [("tensor", .text tensor), ("from", .text source.text), ("to", .text target.text)]
  | .materialize node kind => [("node", .count node), ("kind", .text kind)]
  | .createOperation op kind block =>
    [("op", .text op.text), ("kind", .text kind.name), ("block", .text block.text)]
  | .savePoint block depth | .restorePoint block depth =>
    [("block", .text block.text), ("depth", .count depth)]
  | .openFunction name args => [("function", .text name), ("args", .count args)]
  | .openLoop op name => [("loop", .text op.text), ("name", .text name)]
  | .synthesizeReduction kind dtype axes =>
    [("op", .text kind.name), ("dtype", .text dtype.text), ("axes", .count axes)]
  | .affineAccess dims indices => [("dims", .count dims), ("indices", .count indices)]
  | .interpret function args => [("function", .text function), ("args", .count args)]
  | .unary op kind x y =>
    [("op", .text op.text), ("kind", .text kind.name), ("x", .float x), ("y", .float y)]

end Event

end AffineKernel

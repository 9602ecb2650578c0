import AffineKernel.IR.Listing
import AffineKernel.IR.LoopBand
import AffineKernel.Semantics.Machine

/-!
# Questions about a module

A query names operations by variables and asks about the module they belong to:
its text, its operations and blocks, its loop nests, or the outcome of running
its functions. Resolving the names comes first; a query with a name that stands
for nothing is not asked.

An answer is `malformed` when the question has none: the text of a module or the
type of a value that the module does not have, or a run that meets an operation
without something its kind needs.
-/

set_option autoImplicit false

namespace AffineKernel

/-- Outcome of resolving names: the first name that stands for nothing is the error. -/
abbrev Resolved := Except String

/-- The operations that names stand for. -/
abbrev OpNames := String → Option OpId

/-- A block: the body of the module, or a region of a named operation. -/
inductive BlockRef where
  | body
  | region (op : String) (position : Nat)

/-- A value: a result of a named operation, or an argument of one of its regions. -/
inductive ValueRef where
  | result (op : String) (position : Nat)
  | arg (op : String) (region position : Nat)

/-- A question about a module. -/
inductive Query where
  | print
  | size
  | count (kind : OpKind)
  | opsOfKind (kind : OpKind)
  | function (name : String)
  | op (name : String)
  | block (ref : BlockRef)
  | result (op : String)
  | blockArg (ref : BlockRef) (position : Nat)
  | region (op : String) (position : Nat)
  | type (ref : ValueRef)
  | enclosing (ref : BlockRef) (kind : OpKind)
  | nests (op : String)
  /-- One call on a machine of its own. -/
  | run (func : String) (args : List Buffer)
  /-- Several calls on one machine. -/
  | runAll (calls : List (String × List Buffer))

/-- What a query finds. -/
inductive Answer where
  | text (text : String)
  | size (count : Nat) (empty : Bool)
  | count (count : Nat)
  | ops (ids : List OpId)
  | op (id : Option OpId)
  | operation (id : OpId) (op : Operation)
  | block (id : BlockId) (block : Block)
  | value (value : Option Value)
  | region (id : Option BlockId)
  | type (type : ValueType)
  | nests (bands : List (List LoopInfo))
  | reply (reply : Machine.Reply)
  | replies (replies : List Machine.Reply)
  | malformed

/-- Resolves the name of an operation. -/
def OpNames.resolve (names : OpNames) (name : String) : Resolved OpId :=
  match names name with
  | some id => .ok id
  | none => .error name

/-- Resolves a block. -/
def BlockRef.resolve (names : OpNames) (module : Module) : BlockRef → Resolved BlockId
  | .body => .ok Module.body
  | .region op position => do
    let id ← OpNames.resolve names op
    match module.region? id position with
    | some block => .ok block
    | none => .error op

/-- Resolves a value. A result need not exist. -/
def ValueRef.resolve (names : OpNames) (module : Module) : ValueRef → Resolved Value
  | .result op position => do
    let id ← OpNames.resolve names op
    return .result id position
  | .arg op region position => do
    let block ← BlockRef.resolve names module (.region op region)
    return .arg block position

/-- Whether a reply comes from a run that was given up: it met a malformed operation, or a number
left the integers that hold it. -/
def Machine.Reply.isGivenUp (reply : Machine.Reply) : Bool :=
  match reply.results with
  | .error .malformed | .error .depthExceeded | .error (.overflow ..) => true
  | _ => false

namespace Answer

/-- Unwraps an answer that may be missing. -/
def ofOption {α : Type} (found : Option α) (answer : α → Answer) : Answer :=
  match found with
  | some a => answer a
  | none => .malformed

/-- The answer of a run, unless the run was given up. -/
def ofReply (reply : Machine.Reply) : Answer :=
  if reply.isGivenUp then .malformed else .reply reply

/-- The answer of several runs, unless one of them was given up. -/
def ofReplies (replies : List Machine.Reply) : Answer :=
  if replies.any Machine.Reply.isGivenUp then .malformed else .replies replies

end Answer

namespace Query

/-- How deep the blocks of a run may nest. -/
def depthLimit : Nat := 100000

/-- Asks a query. Runs leave events behind, and nothing else. -/
def ask (names : OpNames) (module : Module) : Query → Resolved (Answer × Array Event)
  | .print => quiet (.ofOption module.print? .text)
  | .size => quiet (.size module.size module.isEmpty)
  | .count kind => quiet (.count (module.count kind))
  | .opsOfKind kind => quiet (.ops (module.opsOfKind kind))
  | .function name => quiet (.op (module.function? name))
  | .op name => do
    let id ← OpNames.resolve names name
    quiet (.ofOption (module.op? id) (.operation id))
  | .block ref => do
    let id ← ref.resolve names module
    quiet (.ofOption (module.block? id) (.block id))
  | .result target => do quiet (.value (module.result? (← OpNames.resolve names target)))
  | .blockArg ref position => do
    quiet (.value (module.blockArg? (← ref.resolve names module) position))
  | .region target position => do
    quiet (.region (module.region? (← OpNames.resolve names target) position))
  | .type ref => do
    quiet (.ofOption (module.valueType? (← ref.resolve names module)) .type)
  | .enclosing ref kind => do
    quiet (.op (module.enclosing? (← ref.resolve names module) kind))
  | .nests target => do quiet (.nests (module.loopNests (← OpNames.resolve names target)))
  | .run func args =>
    let (reply, machine) := Machine.call module depthLimit func args .fresh
    return (.ofReply reply, machine.log)
  | .runAll calls =>
    let (replies, machine) := Machine.callAll module depthLimit calls .fresh
    return (.ofReplies replies, machine.log)
where
  /-- An answer without events. -/
  quiet (answer : Answer) : Resolved (Answer × Array Event) := .ok (answer, #[])

end Query

end AffineKernel

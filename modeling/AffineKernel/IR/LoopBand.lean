import AffineKernel.IR.Module

/-!
# Loop bands

A band is a chain of loops in which each loop holds nothing but the next one
and terminators. `Module.loopNests` finds the bands of a function: one for each
outermost loop of its body, followed inwards as far as the nest is perfect.
-/

set_option autoImplicit false

namespace AffineKernel

/-- A loop of a band. -/
structure LoopInfo where
  op : OpId
  name : Option String
deriving DecidableEq

namespace Module

/-- Whether an operation is a loop. -/
def isLoop (module : Module) (id : OpId) : Bool :=
  (module.op? id).any (fun op => op.kind = .affineFor)

/-- Whether an operation ends its block. -/
def isTerminator (module : Module) (id : OpId) : Bool :=
  (module.op? id).any (fun op => op.kind.isTerminator)

/-- The only operation of a block besides terminators, if it is a loop. -/
def soleLoop? (module : Module) (block : Block) : Option OpId :=
  match block.ops.filter (fun id => !module.isTerminator id) with
  | [id] => if module.isLoop id then some id else none
  | _ => none

/-- The loop that an operation holds perfectly nested in its first region. -/
def innerLoop? (module : Module) (id : OpId) : Option OpId := do
  let region ← module.region? id 0
  let block ← module.block? region
  module.soleLoop? block

/-- The loops from one loop inwards, at most `fuel` of them after the first. -/
def bandFrom (module : Module) : Nat → OpId → List OpId
  | 0, id => [id]
  | fuel + 1, id =>
    match module.innerLoop? id with
    | some inner => id :: bandFrom module fuel inner
    | none => [id]

/-- A loop with its name. -/
def loopInfo (module : Module) (id : OpId) : LoopInfo :=
  ⟨id, ((module.op? id).bind (·.attr? "loop_name")).bind (·.asText?)⟩

/-- The bands of an operation's first region. A band is never longer than the module has
operations. -/
def loopNests (module : Module) (func : OpId) : List (List LoopInfo) :=
  match (module.region? func 0).bind module.block? with
  | none => []
  | some block =>
    (block.ops.filter module.isLoop).map fun outer =>
      (module.bandFrom module.size outer).map module.loopInfo

end Module

end AffineKernel

import AffineKernel.Script.Query

/-!
# Scripts that create modules

A workbench is a module under construction, with names for its operations. A
script for it is a list of steps: create an operation, replace the operands of
one, or ask a query. Creating an operation under a name makes the name stand for
it in the steps that follow.
-/

set_option autoImplicit false

namespace AffineKernel

/-- An operation to be created, with its operands and place given by names. -/
structure OpRequest where
  name : Option String
  kind : OpKind
  operands : List ValueRef
  results : List ValueType
  attributes : List (String × Attribute)
  regions : List (List ValueType)
  block : BlockRef
  before : Option String

/-- A step on a workbench. -/
inductive ModuleStep where
  | create (request : OpRequest)
  | setOperands (op : String) (operands : List ValueRef)
  | query (query : Query)

/-- What a step leaves to report. -/
inductive StepReport where
  | created (id : OpId)
  | done
  | answer (answer : Answer)
  /-- A name of the step stands for nothing. -/
  | undefined (name : String)

/-- A module with named operations, and the events so far. -/
structure Workbench where
  module : Module
  names : Table String OpId
  log : Array Event

namespace Workbench

/-- The workbench with an empty module. -/
def fresh : Workbench := ⟨.empty, .empty, #[]⟩

/-- The operations that names stand for. -/
def opNames (bench : Workbench) : OpNames := bench.names.find?

/-- Resolves a value. -/
def resolveValue (bench : Workbench) (ref : ValueRef) : Resolved Value :=
  ref.resolve bench.opNames bench.module

/-- Creates an operation. -/
def create (bench : Workbench) (request : OpRequest) : Resolved (OpId × Workbench) := do
  let operands ← request.operands.mapM bench.resolveValue
  let block ← request.block.resolve bench.opNames bench.module
  let before ← request.before.mapM (OpNames.resolve bench.opNames)
  let (id, module) := bench.module.create
    { kind := request.kind
      operands := operands
      results := request.results
      attributes := request.attributes
      regions := request.regions }
    ⟨block, before⟩
  let names := match request.name with
    | some name => bench.names.insert name id
    | none => bench.names
  return (id, ⟨module, names, bench.log.push (.createOperation id request.kind block)⟩)

/-- Takes a step whose names all stand for something. -/
def take (bench : Workbench) : ModuleStep → Resolved (StepReport × Workbench)
  | .create request => do
    let (id, bench) ← bench.create request
    return (.created id, bench)
  | .setOperands op operands => do
    let id ← OpNames.resolve bench.opNames op
    let values ← operands.mapM bench.resolveValue
    return (.done, { bench with module := bench.module.setOperands id values })
  | .query query => do
    let (answer, events) ← query.ask bench.opNames bench.module
    return (.answer answer, { bench with log := bench.log ++ events })

/-- Takes a step; a step with an undefined name changes nothing. -/
def step (bench : Workbench) (step : ModuleStep) : StepReport × Workbench :=
  match bench.take step with
  | .ok done => done
  | .error name => (.undefined name, bench)

/-- Takes steps in order. -/
def run (bench : Workbench) : List ModuleStep → List StepReport × Workbench
  | [] => ([], bench)
  | first :: rest =>
    let (report, bench) := bench.step first
    let (reports, bench) := bench.run rest
    (report :: reports, bench)

end Workbench

/-- Whether a step of a script for a module has no outcome: a name stands for nothing, or a
question has no answer. -/
def StepReport.isMalformed : StepReport → Bool
  | .undefined _ | .answer .malformed => true
  | _ => false

end AffineKernel

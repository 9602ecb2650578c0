import AffineKernel.Build.Control
import AffineKernel.Build.Drawing
import AffineKernel.Script.Command
import AffineKernel.Script.Record

/-!
# Build sessions

A session is the state of a running build script: the build context, the values
of variables, and the loop variables that the extraction commands have
collected. A failing command keeps what it did up to its failure.
-/

set_option autoImplicit false

namespace AffineKernel

/-- State of a running build script. -/
structure Session where
  context : Context
  vars : Variables
  /-- Loop variables collected by the extraction commands. -/
  refs : List LoopRef

/-- A step of a build script. -/
abbrev SessionM := StateM Session

/-- A report, and the error of the command if it failed. -/
abbrev Outcome := Report × Option BuildError

namespace Session

/-- The session before the first statement. -/
def start (context : Context) (vars : Variables) : Session := ⟨context, vars, []⟩

/-- Changes the build context. -/
def modifyContext (change : Context → Context) : SessionM Unit :=
  modify fun session => { session with context := change session.context }

/-- Runs a build action; the context is kept also if it fails. -/
def attempt {α : Type} (action : BuildM α) : SessionM (Except BuildError α) :=
  modifyGet fun session =>
    match action session.context with
    | .ok a context => (.ok a, { session with context := context })
    | .error error context => (.error error, { session with context := context })

/-- Gives a variable a value, if there is a variable. -/
def assign (name : Option String) (entity : Entity) : SessionM Unit :=
  match name with
  | some name => modify fun session => { session with vars := session.vars.insert name entity }
  | none => pure ()

/-! ## Views -/

/-- A node as it is now. -/
def viewNode (expr : Expr) : SessionM NodeView := do
  let context := (← get).context
  return ⟨expr.id, expr.name, expr.dtype?, expr.operands.map Expr.id, context.binding? expr.id⟩

/-- A tensor as it is now. -/
def viewTensor (tensor : Tensor) : SessionM TensorView := do
  return ⟨tensor, (← get).context.storage? tensor⟩

/-- Properties of a node as it is now. -/
def infoOf (expr : Expr) : SessionM NodeInfo := do
  let built := (← get).context.isBound expr.id
  return ⟨built, expr.isStatement, expr.isLoad, expr.loopName?⟩

/-! ## Commands -/

/-- Looks up variables, runs the action they make, and reports on its result. -/
def perform {α : Type} (plan : Variables → Resolved (BuildM α)) (report : α → SessionM Report) :
    SessionM Outcome := do
  match plan (← get).vars with
  | .error name => return (.undefined name, none)
  | .ok action =>
    match ← attempt action with
    | .ok a => return (← report a, none)
    | .error error => return (.nothing, some error)

/-- Looks up variables and reports on what they hold. -/
def inspect {α : Type} (plan : Variables → Resolved α) (report : α → SessionM Report) :
    SessionM Outcome := do
  match plan (← get).vars with
  | .error name => return (.undefined name, none)
  | .ok a => return (← report a, none)

/-- Names a new expression and reports on it. -/
def reportExpr (name : Option String) (expr : Expr) : SessionM Report := do
  assign name (.expr expr)
  return .expr (← viewNode expr)

/-- Names a new tensor and reports on it. -/
def reportTensor (name : Option String) (tensor : Tensor) : SessionM Report := do
  assign name (.tensor tensor)
  return .tensor (← viewTensor tensor)

/-- Names what indexing made and reports on it. -/
def reportIndexed (name : Option String) : Indexed → SessionM Report
  | .load expr => reportExpr name expr
  | .slice slice => do
    assign name (.slice slice)
    return .slice slice.tensor.id slice.shape slice.dtype (slice.indices.map Expr.id)

/-- Looks up a place in the module. -/
def resolvePoint (session : Session) (ref : PointRef) : Resolved InsertionPoint := do
  let names := session.vars.opNames session.context
  let block ← ref.block.resolve names session.context.module
  let before ← ref.before.mapM (OpNames.resolve names)
  return ⟨block, before⟩

/-- Reads one more index, beside what was collected before. -/
def extract (expr : Expr) : SessionM Outcome := do
  let session ← get
  let (form, failure, refs) := match Extraction.index expr session.refs with
    | .ok form refs => (some form, none, refs)
    | .error error refs => (none, some error, refs)
  set { session with refs := refs }
  return (.form (refs.map LoopRef.id) form, failure)

/-- Reads the indices of an access. -/
def extractMap (exprs : List Expr) : SessionM Outcome := do
  let session ← get
  match Extraction.access exprs session.refs with
  | .ok map refs =>
    set { session with
      refs := refs
      context := session.context.emit (.affineAccess refs.length exprs.length) }
    return (.map (refs.map LoopRef.id) (some map), none)
  | .error error refs =>
    set { session with refs := refs }
    return (.map (refs.map LoopRef.id) none, some error)

/-- Runs a command; `name` is the variable for what it makes. -/
def runCommand (name : Option String) : Command → SessionM Outcome
  | .make recipe => perform (fun vars => recipe.plan vars) (reportExpr name)
  | .placeholder tensor shape dtype =>
    perform (fun _ => .ok (BuildM.placeholder tensor shape dtype)) (reportTensor name)
  | .alloc tensor shape dtype =>
    perform (fun _ => .ok (BuildM.alloc tensor shape dtype)) (reportTensor name)
  | .allocTensor tensor =>
    perform (fun vars => do return BuildM.allocTensor (← vars.tensor tensor))
      (fun value => return .value value)
  | .describeTensor tensor =>
    inspect (fun vars => vars.tensor tensor) (fun tensor => return .tensor (← viewTensor tensor))
  | .sameTensor first second =>
    inspect
      (fun vars => do
        let left ← vars.tensor first
        let right ← vars.tensor second
        return decide (left.id = right.id))
      (fun same => return .same same)
  | .index indices tensor =>
    perform
      (fun vars => do
        let indices ← indices.mapM vars.indexArg
        let tensor ← vars.tensor tensor
        return BuildM.index tensor indices)
      (reportIndexed name)
  | .indexSlice indices slice =>
    perform
      (fun vars => do
        let indices ← indices.mapM vars.indexArg
        let slice ← vars.slice slice
        return BuildM.indexSlice slice indices)
      (reportIndexed name)
  | .promote lhs rhs kind =>
    perform
      (fun vars => do
        let lhs ← vars.expr lhs
        let rhs ← vars.expr rhs
        return match kind with
          | some kind => BuildM.promoteBits kind lhs rhs
          | none => BuildM.promote lhs rhs)
      (fun pair => do return .pair (← viewNode pair.1) (← viewNode pair.2))
  | .build expr =>
    perform (fun vars => do return BuildM.build (← vars.expr expr))
      (fun binding => return .bound binding)
  | .buildValue expr =>
    perform (fun vars => do return BuildM.buildValue (← vars.expr expr))
      (fun value => return .bound (.value value))
  | .buildAll exprs =>
    perform (fun vars => do return BuildM.buildAll (← exprs.mapM vars.expr))
      (fun _ => return .nothing)
  | .savePoint ref => do
    match (← get).resolvePoint ref with
    | .error name => return (.undefined name, none)
    | .ok point =>
      modifyContext (·.savePoint point)
      return (.nothing, none)
  | .restorePoint => perform (fun _ => .ok BuildM.restorePoint) (fun point => return .point point)
  | .currentPoint => perform (fun _ => .ok BuildM.currentPoint) (fun point => return .point point)
  | .clearPoints => do
    modifyContext (·.truncate 0)
    return (.nothing, none)
  | .truncatePoints depth => do
    modifyContext (·.truncate depth)
    return (.nothing, none)
  | .describe expr =>
    inspect (fun vars => vars.expr expr)
      (fun expr => do return .info (← viewNode expr) (← infoOf expr))
  | .describeContext => do
    let context := (← get).context
    return (.context context.mode context.stack.isEmpty, none)
  | .tree expr =>
    inspect (fun vars => vars.expr expr) (fun expr => return .tree expr.drawing.render)
  | .extractMap exprs => do
    match exprs.mapM (Variables.expr (← get).vars) with
    | .error name => return (.undefined name, none)
    | .ok exprs => extractMap exprs
  | .extract expr => do
    match Variables.expr (← get).vars expr with
    | .error name => return (.undefined name, none)
    | .ok expr => extract expr
  | .clearExtraction => do
    modify fun session => { session with refs := [] }
    return (.nothing, none)
  | .query query => do
    let session ← get
    match query.ask (session.vars.opNames session.context) session.context.module with
    | .error name => return (.undefined name, none)
    | .ok (answer, events) =>
      modifyContext fun context => { context with log := context.log ++ events }
      return (.answer answer, none)

/-- The record of an outcome. -/
def record (outcome : Outcome) : SessionM Record := do
  let context := (← get).context
  return .mk outcome.1 outcome.2 context.module.size context.depth

end Session

end AffineKernel

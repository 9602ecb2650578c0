import AffineKernel.Script.Session
import AffineKernel.Script.Workbench

/-!
# Build scripts

A build script is a list of statements. A statement is a command, or a function,
loop, conditional or insertion point with statements as its body. Every
statement leaves a record.

**Errors.** At the top level a script goes on after a statement that fails. In a
body, an error that the statement does not catch ends the body, and the
statement that owns the body fails with the same error, after its region was
closed.

A whole program starts from a module that a script for modules has created, and
a build mode; its operation names are variables of the build script.
-/

set_option autoImplicit false

namespace AffineKernel

/-- What every statement has: a variable for what it makes, and whether an error in it ends the
body around it. -/
structure Label where
  name : Option String
  caught : Bool

/-- A statement of a build script. -/
inductive Statement where
  | command (label : Label) (command : Command)
  /-- A function over tensors; the variable `result`, if it holds an expression at the end, is
  what the function returns. -/
  | function (label : Label) (name : String) (args : List String) (result : Option String)
      (body : List Statement)
  /-- A loop; the variable `counter` holds the loop variable from the body on. -/
  | loop (label : Label) (counter : Option String) (lower upper : IndexTerm)
      (spec : BuildM.LoopSpec) (body : List Statement)
  | conditional (label : Label) (condition : Operand) (body : List Statement)
  /-- Statements at another insertion point. -/
  | withPoint (label : Label) (point : PointRef) (body : List Statement)
  /-- Statements after which the stack of insertion points is cut back. -/
  | scoped (label : Label) (body : List Statement)

/-- What a statement shares with all others. -/
def Statement.label : Statement → Label
  | .command label _ | .function label .. | .loop label .. | .conditional label ..
  | .withPoint label .. | .scoped label .. => label

namespace Session

/-- The records of the statements of a body that were reached, and the error that ended it. -/
abbrev BodyOutcome := List Record × Option BuildError

/-- Runs the body of a region at the end of a block. `enter` runs first inside the region, and
`leave` last unless the body failed; then the region is closed. -/
def runRegion (block : BlockId) (enter : SessionM Unit) (body : SessionM BodyOutcome)
    (leave : Session → BuildM Unit) : SessionM BodyOutcome := do
  let mark := (← get).context.mark
  modifyContext fun context => context.enterRegion.savePoint (.atEnd block)
  enter
  let (records, failure) ← body
  let failure ← match failure with
    | some error => pure (some error)
    | none => do
      match ← attempt (leave (← get)) with
      | .ok _ => pure none
      | .error error => pure (some error)
  modifyContext (·.leaveRegion mark)
  return (records, failure)

/-- Reports on a region and names its operation if all went well. -/
def reportRegion (name : Option String) (op : OpId) (outcome : BodyOutcome) :
    SessionM Outcome := do
  match outcome.2 with
  | some error => return (.body outcome.1 none, some error)
  | none =>
    assign name (.op op)
    return (.body outcome.1 (some op), none)

/-- Cuts the stack of insertion points back to its depth after a body. -/
def runScoped (enter : Context → Context) (body : SessionM BodyOutcome) : SessionM Outcome := do
  let depth := (← get).context.depth
  modifyContext enter
  let (records, failure) ← body
  modifyContext (·.truncate depth)
  return (.body records none, failure)

/-- Runs a function with a body. -/
def runFunction (label : Label) (name : String) (args : List String) (result : Option String)
    (body : SessionM BodyOutcome) : SessionM Outcome := do
  match args.mapM (Variables.tensor (← get).vars) with
  | .error undefined => return (.undefined undefined, none)
  | .ok tensors =>
    match ← attempt (BuildM.beginFunction name tensors) with
    | .error error => return (.body [] none, some error)
    | .ok (op, block) =>
      let leave (session : Session) : BuildM Unit :=
        BuildM.endFunction (result.bind fun name => (session.vars.expr name).toOption)
      reportRegion label.name op (← runRegion block (pure ()) body leave)

/-- Runs a loop with a body. -/
def runLoop (label : Label) (counter : Option String) (lower upper : IndexTerm)
    (spec : BuildM.LoopSpec) (body : SessionM BodyOutcome) : SessionM Outcome := do
  let vars := (← get).vars
  match (do return (← vars.bound lower, ← vars.bound upper) : Resolved (Bound × Bound)) with
  | .error undefined => return (.undefined undefined, none)
  | .ok (low, high) =>
    match ← attempt (BuildM.beginLoop low high spec) with
    | .error error => return (.body [] none, some error)
    | .ok (var, header) =>
      let enter : SessionM Unit := do
        modifyContext (·.bind var.id (.value header.counter))
        assign counter (.expr var)
      reportRegion label.name header.op
        (← runRegion header.body enter body (fun _ => BuildM.endBody))

/-- Runs a conditional with a body. -/
def runConditional (label : Label) (condition : Operand) (body : SessionM BodyOutcome) :
    SessionM Outcome := do
  match Variables.operand (← get).vars condition with
  | .error undefined => return (.undefined undefined, none)
  | .ok operand =>
    match ← attempt (do BuildM.beginConditional (← operand)) with
    | .error error => return (.body [] none, some error)
    | .ok (op, block) =>
      reportRegion label.name op (← runRegion block (pure ()) body (fun _ => BuildM.endBody))

/-- Runs a body at another insertion point. -/
def runWithPoint (point : PointRef) (body : SessionM BodyOutcome) : SessionM Outcome := do
  match (← get).resolvePoint point with
  | .error undefined => return (.undefined undefined, none)
  | .ok point => runScoped (·.savePoint point) body

mutual

/-- Runs a statement. -/
def runStatement : Statement → SessionM Record
  | .command label command => do record (← runCommand label.name command)
  | .function label name args result body => do
    record (← runFunction label name args result (runBody body))
  | .loop label counter lower upper spec body => do
    record (← runLoop label counter lower upper spec (runBody body))
  | .conditional label condition body => do
    record (← runConditional label condition (runBody body))
  | .withPoint _ point body => do record (← runWithPoint point (runBody body))
  | .scoped _ body => do record (← runScoped (fun context => context) (runBody body))

/-- Runs the statements of a body until one fails with an error it does not catch. -/
def runBody : List Statement → SessionM BodyOutcome
  | [] => pure ([], none)
  | statement :: rest => do
    let record ← runStatement statement
    match record.failure, statement.label.caught with
    | some error, false => return ([record], some error)
    | _, _ =>
      let (records, failure) ← runBody rest
      return (record :: records, failure)

end

/-- Runs the statements of a script; a failing statement does not end it. -/
def runAll : List Statement → SessionM (List Record)
  | [] => pure []
  | statement :: rest => do
    let record ← runStatement statement
    let records ← runAll rest
    return record :: records

end Session

/-- A whole program. -/
structure Program where
  /-- The mode asked for; otherwise the setting decides. -/
  mode : Option BuildMode
  setting : Option String
  /-- Creates the module that the program starts from. -/
  setup : List ModuleStep
  body : List Statement

/-- What a program leaves behind. -/
structure Transcript where
  records : List Record
  /-- The text of the final module. -/
  text : String
  log : Array Event

namespace Program

/-- The variables for the operations of a module. -/
def opVariables (names : Table String OpId) : Variables :=
  ⟨names.entries.map fun entry => (entry.1, .op entry.2)⟩

/-- The session that a program starts from, after its setup. -/
def session (program : Program) (bench : Workbench) : Session :=
  let mode := program.mode.getD (.ofSetting program.setting)
  .start (.start mode bench.module bench.log) (opVariables bench.names)

/-- Runs a program; none if something in it is malformed. -/
def run (program : Program) : Option Transcript :=
  let (reports, bench) := Workbench.fresh.run program.setup
  let (records, session) := (Session.runAll program.body).run (program.session bench)
  if reports.any StepReport.isMalformed || Record.anyMalformed records then none
  else do
    let text ← session.context.module.print?
    return ⟨records, text, session.context.log⟩

end Program

end AffineKernel

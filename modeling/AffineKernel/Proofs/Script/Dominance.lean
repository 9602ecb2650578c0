import AffineKernel.Proofs.Build.Regions
import AffineKernel.Proofs.Script.Bodies
import AffineKernel.Proofs.Script.Commands

/-!
# Dominance in build scripts

Whatever a script does, as long as it leaves the stack of insertion points to
functions, loops, conditionals and reductions, the module is dominated at every
moment: between any two statements, at any depth of nesting, also after
statements that have failed.

The sessions that a script passes through are those of `Session.Passes`. The
argument is in two parts. A statement as a whole keeps contexts lawful
(`Session.runStatement_preserves`, by induction on statements and bodies); and
the sessions that it passes through are lawful (`Session.Passes.lawful`), since
the body of a region starts in a lawful context.
-/

set_option autoImplicit false

namespace AffineKernel

open Context

mutual

/-- Whether a statement leaves the stack of insertion points alone, and all statements in it. -/
def Statement.unsteered : Statement → Bool
  | .command _ command => !command.steers
  | .function _ _ _ _ body | .loop _ _ _ _ _ body | .conditional _ _ body | .scoped _ body =>
    allUnsteered body
  | .withPoint .. => false

/-- Whether all statements of a list leave the stack of insertion points alone. -/
def allUnsteered : List Statement → Bool
  | [] => true
  | statement :: rest => statement.unsteered && allUnsteered rest

end

namespace Session

/-! ## Commands -/

theorem runCommand_preserves (name : Option String) {command : Command}
    (unsteered : command.steers = false) : Keeps Preserves (runCommand name command) :=
  runCommand_unsteered BuildM.preserves_firm name unsteered

/-! ## Regions -/

variable {session after : Session} {block : BlockId} {origin : Context}

/-- A region is entered, its body runs, and it is left. -/
theorem runRegion_sustains {enter : SessionM Unit} {body : SessionM BodyOutcome}
    {leave : Session → BuildM Unit} (opens : Opens block origin session.context)
    (enters : Sustains (session.inside block).context (enter (session.inside block)).2.context)
    (bodies : Keeps Preserves body) (leaves : ∀ seen, BuildM.Keeps Preserves (leave seen)) :
    Sustains origin (runRegion block enter body leave session).2.context := by
  have started := enters.trans (bodies (enter (session.inside block)).2 enters.lawful)
  rw [runRegion_apply]
  rcases outcome : body (enter (session.inside block)).2 with ⟨⟨records, failure⟩, done⟩
  rw [outcome] at started
  cases failure with
  | some error => exact opens.leave started
  | none =>
      have ended := started.trans (keeps_attempt (leaves done) done started.lawful)
      rcases closed : attempt (leave done) done with ⟨result, last⟩
      rw [closed] at ended
      cases result with
      | ok _ =>
          rw [closeRegion_ok closed]
          exact opens.leave ended
      | error error =>
          rw [closeRegion_error closed]
          exact opens.leave ended

/-- A step that opens a region, and what is done with the region. -/
theorem attempt_bind_preserves {α β : Type} {action : BuildM β} (block : β → BlockId)
    {next : Except BuildError β → SessionM α}
    (opens : ∀ {context : Context}, context.Lawful →
      BuildM.Ensures action context (fun b after => Opens (block b) context after)
        (Sustains context))
    (opened : ∀ b (session : Session) (origin : Context),
      Opens (block b) origin session.context → Sustains origin (next (.ok b) session).2.context)
    (failed : ∀ error, Keeps Preserves (next (.error error))) :
    Keeps Preserves (attempt action >>= next) := by
  intro session lawful
  rw [bind_apply]
  rcases ran : attempt action session with ⟨result, after⟩
  cases result with
  | ok b => exact opened b after session.context (attempt_ok (opens lawful) ran)
  | error error =>
      have sustains := attempt_error (opens lawful) ran
      exact sustains.trans (failed error after sustains.lawful)

theorem reportRegion_preserves (name : Option String) (op : OpId) (outcome : BodyOutcome) :
    Keeps Preserves (reportRegion name op outcome) := by
  rcases outcome with ⟨records, failure⟩
  cases failure with
  | some error => exact keeps_pure Preserves.chains _
  | none =>
      exact keeps_bind Preserves.chains (keeps_assign Preserves.chains _ _) fun _ =>
        keeps_pure Preserves.chains _

/-- A region and the report on it. -/
theorem runRegion_report_sustains {name : Option String} {op : OpId} {enter : SessionM Unit}
    {body : SessionM BodyOutcome} {leave : Session → BuildM Unit}
    (opens : Opens block origin session.context)
    (enters : Sustains (session.inside block).context (enter (session.inside block)).2.context)
    (bodies : Keeps Preserves body) (leaves : ∀ seen, BuildM.Keeps Preserves (leave seen)) :
    Sustains origin
      ((runRegion block enter body leave >>= reportRegion name op) session).2.context := by
  have closed := runRegion_sustains opens enters bodies leaves
  rw [bind_apply]
  exact closed.trans (reportRegion_preserves name op _ _ closed.lawful)

/-- The body of a loop starts in a lawful context. -/
theorem insideLoop_lawful {var : Expr} {header : BuildM.LoopHeader}
    (opens : Opens header.body origin session.context) (counter : Option String) :
    Sustains (session.inside header.body).context
      (session.insideLoop header var counter).context := by
  have bound := opens.entered.bindValue var.id (opens.sees_arg 0)
  let entered : Session := { session with context :=
    (session.inside header.body).context.bind var.id (.value header.counter) }
  exact bound.trans (keeps_assign Preserves.chains counter (.expr var) entered bound.lawful)

/-- The condition of a conditional is made, and then the conditional. -/
theorem conditional_opens {vars : Variables} {condition : Operand} {operand : BuildM Expr}
    (resolved : vars.operand condition = .ok operand) {context : Context}
    (lawful : context.Lawful) :
    BuildM.Ensures (do BuildM.beginConditional (← operand)) context
      (fun made after => Opens made.2 context after) (Sustains context) := by
  rw [BuildM.ensures_bind]
  refine (BuildM.preserves_firm.steady.operand resolved context).mono (fun expr middle kept => ?_)
    fun _ failed => failed lawful
  have sustains := kept lawful
  exact (BuildM.beginConditional_opens expr sustains.lawful).mono
    (fun _ _ opens => opens.since sustains) fun _ failed => sustains.trans failed

section Regions

variable {body : SessionM BodyOutcome} (bodies : Keeps Preserves body)
include bodies

theorem runFunction_preserves (label : Label) (name : String) (args : List String)
    (result : Option String) : Keeps Preserves (runFunction label name args result body) := by
  refine keeps_get_bind fun seen => ?_
  split
  · exact keeps_pure Preserves.chains _
  · rename_i tensors _
    refine attempt_bind_preserves Prod.snd (BuildM.beginFunction_opens name tensors) ?_
      fun _ => keeps_pure Preserves.chains _
    rintro ⟨op, block⟩ session origin opens
    refine runRegion_report_sustains opens ?_ bodies fun _ => BuildM.endFunction_preserves _
    exact opens.entered.sustains

theorem runLoop_preserves (label : Label) (counter : Option String) (lower upper : IndexTerm)
    (spec : BuildM.LoopSpec) : Keeps Preserves (runLoop label counter lower upper spec body) := by
  refine keeps_get_bind fun seen => ?_
  dsimp only
  split
  · exact keeps_pure Preserves.chains _
  · rename_i low high _
    refine attempt_bind_preserves (·.2.body) (BuildM.beginLoop_opens low high spec) ?_
      fun _ => keeps_pure Preserves.chains _
    rintro ⟨var, header⟩ session origin opens
    refine runRegion_report_sustains opens ?_ bodies fun _ => BuildM.endBody_preserves
    exact insideLoop_lawful opens counter

theorem runConditional_preserves (label : Label) (condition : Operand) :
    Keeps Preserves (runConditional label condition body) := by
  refine keeps_get_bind fun seen => ?_
  split
  · exact keeps_pure Preserves.chains _
  · rename_i operand resolved
    refine attempt_bind_preserves Prod.snd (conditional_opens resolved) ?_
      fun _ => keeps_pure Preserves.chains _
    rintro ⟨op, block⟩ session origin opens
    refine runRegion_report_sustains opens ?_ bodies fun _ => BuildM.endBody_preserves
    exact opens.entered.sustains

/-- A body leaves no insertion points, so there is nothing to cut back. -/
theorem runScoped_preserves : Keeps Preserves (runScoped (fun context => context) body) := by
  intro session lawful
  have sustains := bodies session lawful
  have same : (body session).2.context.truncate session.context.depth =
      (body session).2.context := by
    have stack : (body session).2.context.stack = session.context.stack := sustains.emits.stack
    have all : (body session).2.context.stack.drop
        ((body session).2.context.depth - session.context.depth) =
          (body session).2.context.stack := by simp [depth, stack]
    rw [truncate, all]
  have ran : (runScoped (fun context => context) body session).2.context =
      (body session).2.context.truncate session.context.depth := rfl
  rw [ran, same]
  exact sustains

end Regions

/-! ## Statements and bodies -/

mutual

/-- A statement keeps contexts lawful, whether it fails or not. -/
theorem runStatement_preserves : ∀ statement : Statement, statement.unsteered = true →
    Keeps Preserves (runStatement statement)
  | .command label command, unsteered => by
      have still : command.steers = false := by simpa [Statement.unsteered] using unsteered
      rw [runStatement]
      exact keeps_bind Preserves.chains (runCommand_preserves label.name still)
        (keeps_record Preserves.chains)
  | .function label name args result body, unsteered => by
      have bodies := runBody_preserves body (by simpa [Statement.unsteered] using unsteered)
      rw [runStatement]
      exact keeps_bind Preserves.chains (runFunction_preserves bodies label name args result)
        (keeps_record Preserves.chains)
  | .loop label counter lower upper spec body, unsteered => by
      have bodies := runBody_preserves body (by simpa [Statement.unsteered] using unsteered)
      rw [runStatement]
      exact keeps_bind Preserves.chains (runLoop_preserves bodies label counter lower upper spec)
        (keeps_record Preserves.chains)
  | .conditional label condition body, unsteered => by
      have bodies := runBody_preserves body (by simpa [Statement.unsteered] using unsteered)
      rw [runStatement]
      exact keeps_bind Preserves.chains (runConditional_preserves bodies label condition)
        (keeps_record Preserves.chains)
  | .scoped label body, unsteered => by
      have bodies := runBody_preserves body (by simpa [Statement.unsteered] using unsteered)
      rw [runStatement]
      exact keeps_bind Preserves.chains (runScoped_preserves bodies) (keeps_record Preserves.chains)
  | .withPoint label point body, unsteered => by simp [Statement.unsteered] at unsteered

/-- So does a body. -/
theorem runBody_preserves : ∀ statements : List Statement, allUnsteered statements = true →
    Keeps Preserves (runBody statements)
  | [], _ => keeps_pure Preserves.chains _
  | statement :: rest, unsteered => by
      simp only [allUnsteered, Bool.and_eq_true] at unsteered
      rw [runBody]
      refine keeps_bind Preserves.chains (runStatement_preserves statement unsteered.1) ?_
      intro record
      dsimp only
      split
      · exact keeps_pure Preserves.chains _
      · exact keeps_bind Preserves.chains (runBody_preserves rest unsteered.2) fun _ =>
          keeps_pure Preserves.chains _

end

/-! ## Moments -/

theorem Passes.lawful {statements : List Statement} {moment : Session}
    (passes : Passes statements session moment) (unsteered : allUnsteered statements = true)
    (lawful : session.context.Lawful) : moment.context.Lawful := by
  induction passes with
  | here => exact lawful
  | @later statement rest session moment _ ih =>
      simp only [allUnsteered, Bool.and_eq_true] at unsteered
      exact ih unsteered.2 (runStatement_preserves statement unsteered.1 session lawful).lawful
  | function _ opened _ ih =>
      simp only [allUnsteered, Statement.unsteered, Bool.and_eq_true] at unsteered
      exact ih unsteered.1 (attempt_ok (BuildM.beginFunction_opens _ _ lawful) opened).entered
  | loop _ _ opened _ ih =>
      simp only [allUnsteered, Statement.unsteered, Bool.and_eq_true] at unsteered
      have opens := attempt_ok (BuildM.beginLoop_opens _ _ _ lawful) opened
      exact ih unsteered.1 (insideLoop_lawful opens _).lawful
  | conditional resolved opened _ ih =>
      simp only [allUnsteered, Statement.unsteered, Bool.and_eq_true] at unsteered
      exact ih unsteered.1 (attempt_ok (conditional_opens resolved lawful) opened).entered
  | within _ ih =>
      simp only [allUnsteered, Statement.unsteered, Bool.and_eq_true] at unsteered
      exact ih unsteered.1 lawful
  | point => simp [allUnsteered, Statement.unsteered] at unsteered

end Session

/-- A fresh context is lawful. -/
theorem Context.start_lawful (mode : BuildMode) (log : Array Event) :
    (Context.start mode .empty log).Lawful where
  ends := by
    intro point member
    obtain rfl : point = .atEnd Module.body := by
      simpa [start, savePoint, Context.emit] using member
    rfl
  blocks := by
    intro point member
    obtain rfl : point = .atEnd Module.body := by
      simpa [start, savePoint, Context.emit] using member
    exact ⟨_, rfl⟩
  opened := fun point _ => Module.open_empty point.block
  outward := List.pairwise_singleton _ _
  dominated := by
    intro id op found
    simp [start, savePoint, Context.emit, Module.op?, Module.empty] at found
  chronological := Module.chronological_empty
  preordered := Module.preordered_empty
  storage := by
    intro id value found
    simp [start, savePoint, Context.emit] at found
  bindings := by
    intro id value found
    simp [binding?, start, savePoint, Context.emit] at found

namespace Program

/-- **Scalars dominate their uses.** At every moment of a program that starts from an empty module
and leaves insertion points to functions, loops, conditionals and reductions, an operand that is a
scalar is an argument of a block around its operation, or a result of an operation that stands
before it or before its ancestor in a block around it. -/
theorem scalar_operand_visible (program : Program) (unsteered : allUnsteered program.body = true)
    {moment : Session} (passes : Session.Passes program.body (program.session .fresh) moment)
    (id : OpId) {op : Operation} (found : moment.context.module.op? id = some op)
    {value : Value} (operand : value ∈ op.operands) {dtype : DType}
    (scalar : moment.context.module.valueType? value = some (.scalar dtype)) :
    moment.context.module.Visible id value := by
  have started : (program.session .fresh).context.Lawful := Context.start_lawful _ _
  exact (passes.lawful unsteered started).dominated.visible found operand scalar

/-- A function in whose body the sum of a constant with itself is built inside of a loop, and which
returns that sum. -/
def loopedSum : Statement :=
  .function ⟨none, false⟩ "main" [] (some "s")
    [.loop ⟨none, false⟩ (some "i") (.const 0) (.const 4) ⟨1, none, none, false⟩
        [.command ⟨some "c", false⟩ (.make (.constant (.int 3) .int32)),
          .command ⟨some "s", false⟩ (.make (.binary .add (.var "c") (.var "c")))]]

/-- The program of this function, in the in-place mode. -/
def loopedSumProgram : Program where
  mode := some .inPlace
  setting := none
  setup := []
  body := [loopedSum]

/-- The module after the program. -/
def loopedSumModule : Module :=
  (Session.runStatement loopedSum (loopedSumProgram.session .fresh)).2.context.module

/-- The sum that is returned is built again after the loop, and so is the constant. -/
theorem loopedSum_visible : loopedSumModule.Visible ⟨6⟩ (.result ⟨5⟩ 0) := by
  have returned : (loopedSumModule.op? ⟨6⟩).any (.result ⟨5⟩ 0 ∈ ·.operands) = true ∧
      loopedSumModule.valueType? (.result ⟨5⟩ 0) = some (.scalar .int32) := by
    decide +kernel
  obtain ⟨used, scalar⟩ := returned
  obtain ⟨op, found, operand⟩ := (Option.any_eq_true ..).mp used
  exact scalar_operand_visible loopedSumProgram (by decide) (.later .here) ⟨6⟩ found
    (of_decide_eq_true operand) scalar

end Program

end AffineKernel

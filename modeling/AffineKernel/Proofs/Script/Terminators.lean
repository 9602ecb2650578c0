import AffineKernel.Proofs.Build.Terminators
import AffineKernel.Proofs.Script.Dominance

/-!
# Regions of build scripts are ended

Each function, loop and conditional whose statement has ended without a failure
owns one region, and the only terminator in it is the last operation there; and
so does each loop of a reduction that was built without a failure, from the
moment on at which it was built, whatever becomes of the statement in which that
was done (`Program.regions_end_once`).

The operations of statements that have ended well are read off the records of
the script (`Record.made`). A statement keeps contexts orderly, and seals the
operations that its record reports (`Session.runStatement_seals`, by induction
on statements and bodies): in an orderly context the body of a region begins
without a terminator, what the body does creates none in that block, and the end
of the region is created in it once the body is through.
-/

set_option autoImplicit false

namespace AffineKernel

open Context

mutual

/-- The operations of a report on statements that have ended without a failure: the one that owns
the body, and those of the statements in the body. -/
def Report.made : Report → Option BuildError → List OpId
  | .body records (some op), none => op :: Record.allMade records
  | .body records _, _ => Record.allMade records
  | _, _ => []

/-- The operations that a statement, and the statements in it, have made without a failure. -/
def Record.made : Record → List OpId
  | .mk report failure _ _ => report.made failure

/-- The operations that the statements of a list have made without a failure. -/
def Record.allMade : List Record → List OpId
  | [] => []
  | record :: rest => record.made ++ Record.allMade rest

end

/-- Whether a report is about a body. -/
def Report.isBody : Report → Bool
  | .body .. => true
  | _ => false

theorem Report.made_of_not_isBody {report : Report} (plain : report.isBody = false)
    (failure : Option BuildError) : report.made failure = [] := by
  cases report <;> first | rfl | cases plain

namespace Session

variable {α β : Type}

/-- A step of a session continues an orderly context, and seals the operations that were made. -/
def Seals (made : α → List OpId) (action : SessionM α) : Prop :=
  ∀ session : Session, session.context.Orderly →
    Continues session.context (action session).2.context ∧
      ∀ id ∈ made (action session).1, (action session).2.context.module.Sealed id

/-- The operations that an outcome of a statement reports. -/
def outcomeMade (outcome : Outcome) : List OpId := outcome.1.made outcome.2

/-- The operations that an outcome of a body reports. -/
def bodyMade (outcome : BodyOutcome) : List OpId := Record.allMade outcome.1

/-! ## Commands -/

theorem perform_isBody {plan : Variables → Resolved (BuildM α)} {report : α → SessionM Report}
    (plain : ∀ a session, (report a session).1.isBody = false) (session : Session) :
    (perform plan report session).1.1.isBody = false := by
  rw [perform, get_bind_apply]
  cases plan session.vars with
  | error name => rfl
  | ok action =>
      dsimp only
      rw [bind_apply]
      rcases attempt action session with ⟨result, after⟩
      cases result with
      | ok a => exact plain a after
      | error error => rfl

theorem inspect_isBody {plan : Variables → Resolved α} {report : α → SessionM Report}
    (plain : ∀ a session, (report a session).1.isBody = false) (session : Session) :
    (inspect plan report session).1.1.isBody = false := by
  rw [inspect, get_bind_apply]
  cases plan session.vars with
  | error name => rfl
  | ok a => exact plain a session

theorem reportExpr_isBody (name : Option String) (expr : Expr) (session : Session) :
    (reportExpr name expr session).1.isBody = false := by
  cases name <;> rfl

theorem reportTensor_isBody (name : Option String) (tensor : Tensor) (session : Session) :
    (reportTensor name tensor session).1.isBody = false := by
  cases name <;> rfl

theorem reportIndexed_isBody (name : Option String) (indexed : Indexed) (session : Session) :
    (reportIndexed name indexed session).1.isBody = false := by
  cases indexed with
  | load expr => exact reportExpr_isBody name expr session
  | slice slice => cases name <;> rfl

/-- A command reports on no body. -/
theorem runCommand_isBody (name : Option String) (command : Command) (session : Session) :
    (runCommand name command session).1.1.isBody = false := by
  cases command with
  | make recipe => exact perform_isBody (reportExpr_isBody name) session
  | placeholder tensor shape dtype | alloc tensor shape dtype =>
      exact perform_isBody (reportTensor_isBody name) session
  | allocTensor tensor | promote lhs rhs kind | build expr | buildValue expr | buildAll exprs
  | restorePoint | currentPoint =>
      exact perform_isBody (fun _ _ => rfl) session
  | index indices tensor | indexSlice indices slice =>
      exact perform_isBody (reportIndexed_isBody name) session
  | describeTensor tensor | sameTensor first second | describe expr | tree expr =>
      exact inspect_isBody (fun _ _ => rfl) session
  | savePoint ref =>
      rw [runCommand, get_bind_apply]
      cases session.resolvePoint ref <;> rfl
  | clearPoints | truncatePoints depth | describeContext | clearExtraction => rfl
  | extractMap exprs =>
      rw [runCommand, get_bind_apply]
      cases exprs.mapM (Variables.expr session.vars) with
      | error name => rfl
      | ok exprs =>
          dsimp only
          rw [extractMap, get_bind_apply]
          cases Extraction.access exprs session.refs <;> rfl
  | extract expr =>
      rw [runCommand, get_bind_apply]
      cases Variables.expr session.vars expr <;> rfl
  | query query =>
      rw [runCommand, get_bind_apply]
      cases query.ask (session.vars.opNames session.context) session.context.module <;> rfl

theorem runStatement_command (label : Label) (command : Command) (session : Session) :
    (runStatement (.command label command) session).2 =
      (runCommand label.name command session).2 := by
  rw [runStatement]
  rfl

theorem runCommand_seals (name : Option String) {command : Command}
    (still : command.steers = false) : Seals outcomeMade (runCommand name command) := by
  intro session orderly
  refine ⟨runCommand_unsteered BuildM.conducts_firm name still session orderly, fun id member => ?_⟩
  rw [outcomeMade, Report.made_of_not_isBody (runCommand_isBody name command session)] at member
  cases member

/-! ## Regions -/

section Steps

variable {made : α → List OpId}

theorem seals_pure {a : α} (none : made a = []) : Seals made (pure a : SessionM α) := by
  refine fun session orderly => ⟨orderly.continues, fun id member => ?_⟩
  have absent : id ∈ made a := member
  rw [none] at absent
  cases absent

theorem seals_get_bind {next : Session → SessionM α} (seals : ∀ seen, Seals made (next seen)) :
    Seals made (get >>= next) := fun session => seals session session

/-- A step that begins something, and what is done then. -/
theorem attempt_bind_seals {action : BuildM β} {next : Except BuildError β → SessionM α}
    {begun : β → Context → Context → Prop}
    (begins : ∀ {context : Context}, context.Orderly →
      BuildM.Ensures action context (fun b after => begun b context after) (Continues context))
    (opened : ∀ b (session : Session) (origin : Context), begun b origin session.context →
      Continues origin (next (.ok b) session).2.context ∧
        ∀ id ∈ made (next (.ok b) session).1, (next (.ok b) session).2.context.module.Sealed id)
    (failed : ∀ error, Seals made (next (.error error))) :
    Seals made (attempt action >>= next) := by
  intro session orderly
  rw [bind_apply]
  rcases ran : attempt action session with ⟨result, after⟩
  cases result with
  | ok b => exact opened b after session.context (attempt_ok (begins orderly) ran)
  | error error =>
      have continues := attempt_error (begins orderly) ran
      obtain ⟨later, closed⟩ := failed error after continues.orderly
      exact ⟨continues.trans later, closed⟩

end Steps

section Regions

variable {session : Session} {origin : Context} {kind ending : OpKind} {op : OpId} {block : BlockId}
  {name : Option String} {enter : SessionM Unit} {body : SessionM BodyOutcome}
  {leave : Session → BuildM Unit}

/-- An action that ends the region of the current insertion point. -/
def Concludes (ending : OpKind) (action : BuildM Unit) : Prop :=
  ∀ {context : Context} {point : InsertionPoint} {rest : List InsertionPoint},
    context.stack = point :: rest → context.Orderly →
    BuildM.Ensures action context (fun _ after => Ends ending point rest context after)
      (Leaves rest context)

/-- The context after a region was left. -/
theorem leaves_region {opened done last : Context} {point : InsertionPoint}
    (began : Enters kind op block origin opened)
    (inside : Module.Grows (fun _ => True) opened.module done.module)
    (stack : done.stack = point :: opened.stack) (leaves : Leaves opened.stack done last) :
    Continues origin (last.leaveRegion opened.mark) := by
  have pushed : last.stack = [point] ++ opened.stack := leaves.stack.trans stack
  have same : (last.leaveRegion opened.mark).stack = opened.stack := Emits.stack_leave pushed
  have grown := (began.grows.trans inside fun _ _ _ => trivial).trans leaves.grows
    fun _ _ _ => trivial
  have below : last.module.Orderly (last.leaveRegion opened.mark).stack := same ▸ leaves.below
  exact ⟨below, same.trans began.stack, grown⟩

/-- A region that was begun continues the context from before, and if its body and its end succeed,
then its operation is sealed. -/
theorem region_seals (begins : Enters kind op block origin session.context)
    (ends : kind.terminator? = some ending)
    (enters : Continues (session.inside block).context (enter (session.inside block)).2.context)
    (bodies : Seals bodyMade body) (concludes : ∀ seen, Concludes ending (leave seen)) :
    let result := (runRegion block enter body leave >>= reportRegion name op) session
    Continues origin result.2.context ∧
      ∀ id ∈ outcomeMade result.1, result.2.context.module.Sealed id := by
  obtain ⟨continues, closed⟩ := bodies (enter (session.inside block)).2 enters.orderly
  have inside := enters.trans continues
  have stack : (body (enter (session.inside block)).2).2.context.stack =
      .atEnd block :: session.context.stack := inside.stack
  have grown : Module.Grows (fun _ => True) session.context.module
      (body (enter (session.inside block)).2).2.context.module := inside.grows
  dsimp only
  rw [bind_apply, runRegion_apply]
  rcases outcome : body (enter (session.inside block)).2 with ⟨⟨records, failure⟩, done⟩
  rw [outcome] at closed inside stack grown
  cases failure with
  | some error =>
      have left := leaves_region begins grown stack (inside.orderly.continues.leaves stack)
      exact ⟨left, closed⟩
  | none =>
      rcases ran : attempt (leave done) done with ⟨result, last⟩
      cases result with
      | error error =>
          have leaves := attempt_error (concludes done stack inside.orderly) ran
          rw [closeRegion_error ran]
          exact ⟨leaves_region begins grown stack leaves,
            fun id member => (closed id member).of_grows leaves.grows⟩
      | ok _ =>
          have ended := attempt_ok (concludes done stack inside.orderly) ran
          rw [closeRegion_ok ran]
          have same : (reportRegion name op (records, none)
              (last.leaving session.context.mark)).2.context =
                last.context.leaveRegion session.context.mark := assign_context _ _ _
          have made : outcomeMade (reportRegion name op (records, none)
              (last.leaving session.context.mark)).1 = op :: Record.allMade records := rfl
          refine ⟨same ▸ leaves_region begins grown stack ended.toLeaves, fun id member => ?_⟩
          rw [same]
          rw [made, List.mem_cons] at member
          rcases member with rfl | nested
          · obtain ⟨owner, there, rfl, regions⟩ := begins.op
            exact ended.closed (grown.op? there) regions ends
          · exact (closed id nested).of_grows ended.grows

/-- The body of a loop starts with its variable bound. -/
theorem insideLoop_continues {header : BuildM.LoopHeader} {var : Expr}
    (begins : Enters kind op header.body origin session.context) (counter : Option String) :
    Continues (session.inside header.body).context
      (session.insideLoop header var counter).context := by
  have same : (session.insideLoop header var counter).context =
      (session.inside header.body).context.bind var.id (.value header.counter) :=
    assign_context _ _ _
  rw [same]
  exact ⟨begins.entered, rfl, .refl _ _⟩

/-- The condition of a conditional is made, and then the conditional. -/
theorem conditional_begins {vars : Variables} {condition : Operand} {operand : BuildM Expr}
    (resolved : vars.operand condition = .ok operand) {context : Context}
    (orderly : context.Orderly) :
    BuildM.Ensures (do BuildM.beginConditional (← operand)) context
      (fun made after => Enters .affineIf made.1 made.2 context after) (Continues context) := by
  rw [BuildM.ensures_bind]
  refine (BuildM.conducts_firm.steady.operand resolved context).mono (fun expr middle step => ?_)
    fun _ step => step orderly
  have continues := step orderly
  exact (BuildM.beginConditional_begins expr continues.orderly).mono
    (fun _ _ begins => begins.since continues) fun _ failed => continues.trans failed

variable (bodies : Seals bodyMade body)
include bodies

theorem runFunction_seals (label : Label) (name : String) (args : List String)
    (result : Option String) :
    Seals outcomeMade (runFunction label name args result body) := by
  apply seals_get_bind
  intro seen
  split
  · exact seals_pure rfl
  · rename_i tensors _
    refine attempt_bind_seals (BuildM.beginFunction_begins name tensors) ?_ fun _ => seals_pure rfl
    rintro ⟨op, block⟩ session origin begins
    exact region_seals begins rfl (Orderly.continues begins.entered) bodies
      fun _ => BuildM.endFunction_ends _

theorem runLoop_seals (label : Label) (counter : Option String) (lower upper : IndexTerm)
    (spec : BuildM.LoopSpec) : Seals outcomeMade (runLoop label counter lower upper spec body) := by
  apply seals_get_bind
  intro seen
  dsimp only
  split
  · exact seals_pure rfl
  · rename_i low high _
    refine attempt_bind_seals (BuildM.beginLoop_begins low high spec) ?_ fun _ => seals_pure rfl
    rintro ⟨var, header⟩ session origin begins
    refine region_seals begins rfl ?_ bodies fun _ => BuildM.endBody_ends
    exact insideLoop_continues begins counter

theorem runConditional_seals (label : Label) (condition : Operand) :
    Seals outcomeMade (runConditional label condition body) := by
  apply seals_get_bind
  intro seen
  split
  · exact seals_pure rfl
  · rename_i operand resolved
    refine attempt_bind_seals (conditional_begins resolved) ?_ fun _ => seals_pure rfl
    rintro ⟨op, block⟩ session origin begins
    exact region_seals begins rfl (Orderly.continues begins.entered) bodies
      fun _ => BuildM.endBody_ends

/-- A body leaves no insertion points, so there is nothing to cut back. -/
theorem runScoped_seals : Seals outcomeMade (runScoped (fun context => context) body) := by
  intro session orderly
  obtain ⟨continues, closed⟩ := bodies session orderly
  have ran : (runScoped (fun context => context) body session).2.context =
      (body session).2.context.truncate session.context.depth := rfl
  have made : outcomeMade (runScoped (fun context => context) body session).1 =
      bodyMade (body session).1 := rfl
  rw [ran, made]
  have same : ((body session).2.context.truncate session.context.depth).stack =
      session.context.stack := by simp [truncate, depth, continues.stack]
  exact ⟨⟨Module.Orderly.sublist continues.orderly (List.drop_sublist _ _), same, continues.grows⟩,
    closed⟩

end Regions

/-! ## Statements and bodies -/

theorem record_seals {action : SessionM Outcome} (seals : Seals outcomeMade action) :
    Seals Record.made (action >>= record) := by
  intro session orderly
  obtain ⟨continues, closed⟩ := seals session orderly
  refine ⟨continues, fun id member => closed id ?_⟩
  rw [bind_apply, record] at member
  exact member

mutual

/-- **Statements end their regions.** From an orderly context, a statement seals the operations that
its record reports. -/
theorem runStatement_seals : ∀ statement : Statement, statement.unsteered = true →
    Seals Record.made (runStatement statement)
  | .command label command, unsteered => by
      have still : command.steers = false := by simpa [Statement.unsteered] using unsteered
      rw [runStatement]
      exact record_seals (runCommand_seals label.name still)
  | .function label name args result body, unsteered => by
      have bodies := runBody_seals body (by simpa [Statement.unsteered] using unsteered)
      rw [runStatement]
      exact record_seals (runFunction_seals bodies label name args result)
  | .loop label counter lower upper spec body, unsteered => by
      have bodies := runBody_seals body (by simpa [Statement.unsteered] using unsteered)
      rw [runStatement]
      exact record_seals (runLoop_seals bodies label counter lower upper spec)
  | .conditional label condition body, unsteered => by
      have bodies := runBody_seals body (by simpa [Statement.unsteered] using unsteered)
      rw [runStatement]
      exact record_seals (runConditional_seals bodies label condition)
  | .scoped label body, unsteered => by
      have bodies := runBody_seals body (by simpa [Statement.unsteered] using unsteered)
      rw [runStatement]
      exact record_seals (runScoped_seals bodies)
  | .withPoint label point body, unsteered => by simp [Statement.unsteered] at unsteered

/-- So does a body, whether a failure ends it or not. -/
theorem runBody_seals : ∀ statements : List Statement, allUnsteered statements = true →
    Seals bodyMade (runBody statements)
  | [], _ => seals_pure rfl
  | statement :: rest, unsteered => by
      simp only [allUnsteered, Bool.and_eq_true] at unsteered
      intro session orderly
      obtain ⟨first, closed⟩ := runStatement_seals statement unsteered.1 session orderly
      obtain ⟨later, others⟩ := runBody_seals rest unsteered.2 _ first.orderly
      have both : ∀ id ∈ (runStatement statement session).1.made ++
          bodyMade (runBody rest (runStatement statement session).2).1,
          (runBody rest (runStatement statement session).2).2.context.module.Sealed id := by
        intro id among
        rcases List.mem_append.mp among with early | late
        · exact (closed id early).of_grows later.grows
        · exact others id late
      rw [runBody, bind_apply]
      cases (runStatement statement session).1.failure with
      | none => exact ⟨first.trans later, both⟩
      | some error =>
          cases statement.label.caught with
          | false =>
              refine ⟨first, fun id member => closed id ?_⟩
              have listed : id ∈ (runStatement statement session).1.made ++ [] := member
              rwa [List.append_nil] at listed
          | true => exact ⟨first.trans later, both⟩

end

/-- And so does a whole script. -/
theorem runAll_seals : ∀ statements : List Statement, allUnsteered statements = true →
    Seals Record.allMade (runAll statements)
  | [], _ => seals_pure rfl
  | statement :: rest, unsteered => by
      simp only [allUnsteered, Bool.and_eq_true] at unsteered
      intro session orderly
      obtain ⟨first, closed⟩ := runStatement_seals statement unsteered.1 session orderly
      obtain ⟨later, others⟩ := runAll_seals rest unsteered.2 _ first.orderly
      refine ⟨first.trans later, fun id member => ?_⟩
      have among : id ∈ (runStatement statement session).1.made ++
          Record.allMade (runAll rest (runStatement statement session).2).1 := member
      rcases List.mem_append.mp among with early | late
      · exact (closed id early).of_grows later.grows
      · exact others id late

/-! ## Moments -/

/-- Contexts are orderly at every moment, also in the body of a region, and modules only grow. -/
theorem Passes.proceeds {statements : List Statement} {session moment : Session}
    (passes : Passes statements session moment) (unsteered : allUnsteered statements = true)
    (orderly : session.context.Orderly) :
    moment.context.Orderly ∧
      Module.Grows (fun _ => True) session.context.module moment.context.module := by
  induction passes with
  | here => exact ⟨orderly, .refl _ _⟩
  | @later statement rest session moment _ ih =>
      simp only [allUnsteered, Bool.and_eq_true] at unsteered
      have first := (runStatement_seals statement unsteered.1 session orderly).1
      obtain ⟨later, grows⟩ := ih unsteered.2 first.orderly
      exact ⟨later, first.grows.trans grows fun _ _ _ => trivial⟩
  | function _ opened _ ih =>
      simp only [allUnsteered, Statement.unsteered, Bool.and_eq_true] at unsteered
      have begins := attempt_ok (BuildM.beginFunction_begins _ _ orderly) opened
      obtain ⟨later, grows⟩ := ih unsteered.1 begins.entered
      exact ⟨later, begins.grows.trans grows fun _ _ _ => trivial⟩
  | @loop _ counter _ _ _ _ _ _ inner _ _ _ var header _ _ opened _ ih =>
      simp only [allUnsteered, Statement.unsteered, Bool.and_eq_true] at unsteered
      have begins := attempt_ok (BuildM.beginLoop_begins _ _ _ orderly) opened
      have inside : Continues (inner.inside header.body).context
          (inner.insideLoop header var counter).context := insideLoop_continues begins counter
      obtain ⟨later, grows⟩ := ih unsteered.1 inside.orderly
      exact ⟨later, (begins.grows.trans inside.grows fun _ _ _ => trivial).trans grows
        fun _ _ _ => trivial⟩
  | conditional resolved opened _ ih =>
      simp only [allUnsteered, Statement.unsteered, Bool.and_eq_true] at unsteered
      have begins := attempt_ok (conditional_begins resolved orderly) opened
      obtain ⟨later, grows⟩ := ih unsteered.1 begins.entered
      exact ⟨later, begins.grows.trans grows fun _ _ _ => trivial⟩
  | within _ ih =>
      simp only [allUnsteered, Statement.unsteered, Bool.and_eq_true] at unsteered
      exact ih unsteered.1 orderly
  | point => simp [allUnsteered, Statement.unsteered] at unsteered

end Session

/-- A fresh context is orderly. -/
theorem Context.start_orderly (mode : BuildMode) (log : Array Event) :
    (Context.start mode .empty log).Orderly := by
  have empty : ∀ {block : BlockId} {found : Block}, Module.empty.block? block = some found →
      found.ops = [] := by
    intro block found known
    have bound := Module.index_lt_of_block? known
    obtain ⟨index⟩ := block
    obtain rfl : index = 0 := by simpa [Module.empty] using bound
    obtain rfl : (⟨[], [], none⟩ : Block) = found := Option.some.inj known
    rfl
  have only : ∀ point ∈ (Context.start mode .empty log).stack, point = .atEnd Module.body :=
    fun point member => List.mem_singleton.mp member
  constructor
  case ends =>
    intro point member
    rw [only point member]
    rfl
  case blocks =>
    intro point member
    rw [only point member]
    exact ⟨_, rfl⟩
  case distinct => simp [start, savePoint, Context.emit]
  case listed =>
    intro block found known id member
    rw [empty known] at member
    cases member
  case last =>
    intro block found known id member
    rw [empty known] at member
    cases member
  case unended =>
    intro point _ found known id member
    rw [empty known] at member
    cases member

namespace Program

/-- **Regions are ended.** In the module that a program leaves, every function, loop and conditional
whose statement has ended without a failure owns one region, and the only terminator in it is the
last operation, a return in a function and a yield in the others. If at a moment of the program a
node is built with success, then the same holds from then on of each loop of a reduction that was
created in this. It holds of each loop of a reduction that is built with success from any standing
context, as those of the program are, in a module that has grown from the one after the reduction,
whether what was built around the reduction has failed or not. -/
theorem regions_end_once (program : Program) (unsteered : allUnsteered program.body = true) :
    (∀ id ∈ Record.allMade (Session.runAll program.body (program.session .fresh)).1,
      (Session.runAll program.body (program.session .fresh)).2.context.module.Terminated id) ∧
    ∀ moment : Session, Session.Passes program.body (program.session .fresh) moment →
      moment.context.Standing ∧
      (∀ (node : Expr) (binding : Binding) (after : Context) (statements : List Statement)
          (later : Session), BuildM.build node moment.context = .ok binding after →
          allUnsteered statements = true →
          Session.Passes statements { moment with context := after } later →
          ∀ (loop : OpId) (op : Operation), moment.context.module.size ≤ loop.index →
            after.module.op? loop = some op → op.kind = .affineFor →
            later.context.module.Terminated loop) ∧
      ∀ (id : NodeId) (dtype : DType) (kind : ReduceKind) (body : Expr) (axes : List Expr)
        (before after : Context) (binding : Binding), before.Standing →
        BuildM.build (.reduce id dtype kind body axes) before = .ok binding after →
        Module.Grows (fun _ => True) after.module moment.context.module →
        ∀ (loop : OpId) (op : Operation), before.module.size ≤ loop.index →
          after.module.op? loop = some op → op.kind = .affineFor →
          moment.context.module.Terminated loop := by
  have started : (program.session .fresh).context.Orderly := Context.start_orderly _ _
  -- What is built with success has sealed its loops.
  have seals : ∀ {node : Expr} {binding : Binding} {before after : Context}, before.Standing →
      BuildM.build node before = .ok binding after → ∀ {loop : OpId} {op : Operation},
      before.module.size ≤ loop.index → after.module.op? loop = some op →
      op.kind = .affineFor → after.module.Sealed loop := by
    intro node binding before after standing built loop op new there isLoop
    have settled := (BuildM.build_settles node before).of_ok built
    exact (settled standing).closed new there (by rw [isLoop]; exact Option.some_ne_none _)
  constructor
  · intro id member
    obtain ⟨done, closed⟩ := Session.runAll_seals program.body unsteered _ started
    exact Module.Orderly.terminated done.orderly (closed id member)
  · intro moment passes
    obtain ⟨orderly, -⟩ := passes.proceeds unsteered started
    refine ⟨orderly.standing, ?_, ?_⟩
    · intro node binding after statements later built further passed loop op new there isLoop
      have tidied : after.Orderly := (BuildM.build_tidies node moment.context).of_ok built orderly
      obtain ⟨done, grows⟩ := passed.proceeds further tidied
      exact done.terminated ((seals orderly.standing built new there isLoop).of_grows grows)
    · intro id dtype kind body axes before after binding standing built grows loop op new there
        isLoop
      exact orderly.terminated ((seals standing built new there isLoop).of_grows grows)

/-- A function with a conditional inside of a loop, and a reduction after the loop. -/
def bracketedNodes : List Statement :=
  [.loop ⟨none, false⟩ none (.const 0) (.const 2) ⟨1, none, none, false⟩
      [.command ⟨some "b", false⟩ (.make (.constant (.int 1) .index)),
        .conditional ⟨none, false⟩ (.var "b") []],
    .command ⟨some "k", false⟩ (.make (.axis (.const 0) (.const 3) "k")),
    .command ⟨some "x", false⟩ (.make (.constant (.int 1) .int32)),
    .command ⟨some "s", false⟩ (.make (.reduce .sum (.var "x") ["k"]))]

/-- The function, which builds the reduction at its end. -/
def bracketed : Program where
  mode := some .deferred
  setting := none
  setup := []
  body := [.function ⟨none, false⟩ "f" [] none
    (bracketedNodes ++ [.command ⟨none, false⟩ (.build "s")])]

/-- The session in which the reduction is about to be built. -/
def bracketedBefore : Session :=
  let opened := (Session.attempt (BuildM.beginFunction "f" []) (bracketed.session .fresh)).2
  bracketedNodes.foldl (fun session statement => (Session.runStatement statement session).2)
    (opened.inside ⟨1⟩)

/-- The session after the reduction was built. -/
def bracketedAfter : Session :=
  (Session.runStatement (.command ⟨none, false⟩ (.build "s")) bracketedBefore).2

theorem bracketedBefore_passes :
    Session.Passes bracketed.body (bracketed.session .fresh) bracketedBefore :=
  .function rfl rfl (.later (.later (.later (.later .here))))

theorem bracketedAfter_passes :
    Session.Passes bracketed.body (bracketed.session .fresh) bracketedAfter :=
  .function rfl rfl (.later (.later (.later (.later (.later .here)))))

/-- What the run comes to: the reduction is built, operation 10 is its loop, and the statements that
own a region have ended well. -/
theorem bracketed_runs :
    ((bracketedBefore.vars.expr "s").toOption.any fun expr => match expr with
      | .reduce .. => true
      | _ => false) = true ∧
      (Session.runCommand none (.build "s") bracketedBefore).1.2 = none ∧
      bracketedBefore.context.module.size ≤ 10 ∧
      (bracketedAfter.context.module.op? ⟨10⟩).any (·.kind = .affineFor) = true ∧
      Record.allMade (Session.runAll bracketed.body (bracketed.session .fresh)).1 =
        [⟨0⟩, ⟨1⟩, ⟨3⟩] := by
  decide +kernel

/-- The reduction is built with success. -/
theorem bracketed_built :
    ∃ id dtype kind body axes binding,
      BuildM.build (.reduce id dtype kind body axes) bracketedBefore.context =
        .ok binding bracketedAfter.context := by
  obtain ⟨sums, clean, -⟩ := bracketed_runs
  obtain ⟨expr, known, isReduce⟩ := (Option.any_eq_true ..).mp sums
  have found := Except.eq_ok_of_toOption known
  obtain ⟨binding, last, ran, same⟩ := Session.runCommand_build_ok found clean
  have after : bracketedAfter = last := by
    rw [bracketedAfter, Session.runStatement_command]
    exact same
  have built := after ▸ Session.attempt_eq_ok ran
  cases expr with
  | reduce id dtype kind body axes => exact ⟨id, dtype, kind, body, axes, binding, built⟩
  | _ => cases isReduce

/-- The session after its operand was built once more. -/
def bracketedLater : Session :=
  (Session.runStatement (.command ⟨none, false⟩ (.build "x"))
    { bracketedBefore with context := bracketedAfter.context }).2

/-- The function, the loop and the conditional are terminated at the end, and the loop of the
reduction is as soon as the reduction was built, and later on. -/
theorem bracketed_ended :
    (∀ id ∈ [⟨0⟩, ⟨1⟩, ⟨3⟩], (Session.runAll bracketed.body
      (bracketed.session .fresh)).2.context.module.Terminated id) ∧
    bracketedAfter.context.module.Terminated ⟨10⟩ ∧
    bracketedLater.context.module.Terminated ⟨10⟩ := by
  obtain ⟨-, -, new, looped, made⟩ := bracketed_runs
  have ended := regions_end_once bracketed (by decide)
  obtain ⟨standing, since, -⟩ := ended.2 bracketedBefore bracketedBefore_passes
  obtain ⟨-, -, nested⟩ := ended.2 bracketedAfter bracketedAfter_passes
  obtain ⟨id, dtype, kind, body, axes, binding, built⟩ := bracketed_built
  obtain ⟨op, there, isLoop⟩ := (Option.any_eq_true ..).mp looped
  have loops : op.kind = .affineFor := of_decide_eq_true isLoop
  refine ⟨made ▸ ended.1, ?_, ?_⟩
  · exact nested id dtype kind body axes _ _ binding standing built (.refl _ _) ⟨10⟩ op new there
      loops
  · exact since _ binding _ [.command ⟨none, false⟩ (.build "x")] bracketedLater built rfl
      (.later .here) ⟨10⟩ op new there loops

end Program

end AffineKernel

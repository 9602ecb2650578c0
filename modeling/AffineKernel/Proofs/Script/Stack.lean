import AffineKernel.Proofs.Build.Frame
import AffineKernel.Proofs.Script.Bodies

/-!
# The stack of insertion points

Every statement gives the stack of insertion points back as it found it, whether
it fails or not, from whatever session it is run
(`Session.statement_restores_stack`). All that is asked of it is discipline: the
commands that handle the stack themselves do not occur in it.

Nodes are built under this discipline (`build_emits`); the nest of a reduction
is where the stack is handled by hand, and its region cuts the stack back
wherever a failure has left it. Functions, loops and conditionals push one
insertion point for their body, and cut the stack back to what it was before.
-/

set_option autoImplicit false

namespace AffineKernel

mutual

/-- Whether a statement handles the stack of insertion points by scopes alone, and all statements
in it. -/
def Statement.disciplined : Statement → Bool
  | .command _ command => !command.steers
  | .function _ _ _ _ body | .loop _ _ _ _ _ body | .conditional _ _ body
  | .withPoint _ _ body | .scoped _ body => allDisciplined body

/-- Whether all statements of a list handle the stack of insertion points by scopes alone. -/
def allDisciplined : List Statement → Bool
  | [] => true
  | statement :: rest => statement.disciplined && allDisciplined rest

end

namespace Context

/-- The stack of insertion points is the same. -/
def SameStack (before after : Context) : Prop := after.stack = before.stack

theorem SameStack.chains : BuildM.Chains SameStack where
  refl _ := rfl
  trans first second := second.trans first

/-- Cutting a stack back to the depth that is left below what was pushed. -/
theorem stack_truncate {context : Context} {pushed stack : List InsertionPoint}
    (known : context.stack = pushed ++ stack) :
    (context.truncate stack.length).stack = stack := by
  simp [truncate, depth, known]

end Context

namespace BuildM

open Context

variable {α : Type}

theorem keeps_stack_of_emits {action : BuildM α} (keeps : Keeps (Emits []) action) :
    Keeps SameStack action :=
  keeps.mono fun _ _ emits => emits.stack

/-- Constructors leave the stack alone, and so does all building. -/
theorem stack_firm : Firm SameStack where
  toChains := SameStack.chains
  log _ _ := rfl
  freshId _ := rfl
  build expr := keeps_stack_of_emits (build_emits expr)
  allocTensor tensor := by
    refine SameStack.chains.bind (SameStack.chains.checkType _) fun _ => ?_
    refine SameStack.chains.bind (keeps_stack_of_emits (createValue_emits _ _ _ _)) fun value => ?_
    exact SameStack.chains.bind (fun _ => rfl) fun _ => SameStack.chains.pure _

/-! ## Functions, loops and conditionals -/

theorem createRegion_keeps_stack (kind : OpKind) (operands : List Value)
    (attributes : List (String × Attribute)) (args : List ValueType) :
    Keeps SameStack (createRegion kind operands attributes args) := fun context =>
  (createRegion_emits kind operands attributes args context).mono
    (fun _ _ made => made.1.stack) fun _ emits => emits.stack

theorem bindArgs_keeps_stack (block : BlockId) : ∀ (position : Nat) (tensors : List Tensor),
    Keeps SameStack (bindArgs block position tensors)
  | _, [] => SameStack.chains.pure ()
  | position, _ :: rest =>
      SameStack.chains.bind (fun _ => rfl) fun _ => bindArgs_keeps_stack block (position + 1) rest

theorem beginFunction_keeps_stack (name : String) (args : List Tensor) :
    Keeps SameStack (beginFunction name args) := by
  refine SameStack.chains.bind (createRegion_keeps_stack _ _ _ _) fun made => ?_
  refine SameStack.chains.bind (bindArgs_keeps_stack _ _ _) fun _ => ?_
  exact SameStack.chains.bind (fun _ => rfl) fun _ => SameStack.chains.pure _

theorem endFunction_keeps_stack (result : Option Expr) :
    Keeps SameStack (endFunction result) := by
  have ended : ∀ operands : List Value, Keeps SameStack (do
      let _ ← create { kind := .ret, operands }) := fun operands =>
    SameStack.chains.bind (keeps_stack_of_emits (create_emits _)) fun _ =>
      SameStack.chains.pure _
  cases result with
  | none => exact ended []
  | some expr =>
      have built : Keeps SameStack (buildValue expr) := keeps_stack_of_emits (buildValue_emits expr)
      exact SameStack.chains.bind built fun value => ended [value]

theorem beginLoop_keeps_stack (lower upper : Bound) (spec : LoopSpec) :
    Keeps SameStack (beginLoop lower upper spec) := by
  refine SameStack.chains.bind (fun _ => rfl) fun id => ?_
  refine SameStack.chains.bind (keeps_stack_of_emits (buildBound_emits lower)) fun low => ?_
  refine SameStack.chains.bind (keeps_stack_of_emits (buildBound_emits upper)) fun high => ?_
  refine SameStack.chains.bind (fun context => ?_) fun _ => SameStack.chains.pure _
  exact (emitLoop_emits low high spec context).mono (fun _ _ made => made.1.stack)
    fun _ emits => emits.stack

theorem beginConditional_keeps_stack (condition : Expr) :
    Keeps SameStack (beginConditional condition) := by
  refine SameStack.chains.bind (SameStack.chains.valueType condition) fun dtype => ?_
  dsimp only
  split
  · exact SameStack.chains.throw_bind _ _
  refine SameStack.chains.bind (keeps_stack_of_emits (buildValue_emits condition)) fun value => ?_
  exact SameStack.chains.bind (keeps_stack_of_emits (emits_steps.emitCast _ _ _)) fun _ =>
    createRegion_keeps_stack _ _ _ _

end BuildM

namespace Session

open Context

/-! ## Commands -/

theorem runCommand_keeps_stack (name : Option String) {command : Command}
    (still : command.steers = false) : Keeps SameStack (runCommand name command) :=
  runCommand_unsteered BuildM.stack_firm name still

/-! ## Regions and scopes -/

theorem reportRegion_keeps_stack (name : Option String) (op : OpId) (outcome : BodyOutcome) :
    Keeps SameStack (reportRegion name op outcome) := by
  rcases outcome with ⟨records, failure⟩
  cases failure with
  | some error => exact keeps_pure SameStack.chains _
  | none =>
      exact keeps_bind SameStack.chains (keeps_assign SameStack.chains _ _) fun _ =>
        keeps_pure SameStack.chains _

section Regions

variable {body : SessionM BodyOutcome} (bodies : Keeps SameStack body)
include bodies

/-- A region pushes one insertion point, and is closed with the stack as it was before. -/
theorem runRegion_keeps_stack (block : BlockId) {enter : SessionM Unit}
    {leave : Session → BuildM Unit} (enters : Keeps SameStack enter)
    (leaves : ∀ seen, BuildM.Keeps SameStack (leave seen)) :
    Keeps SameStack (runRegion block enter body leave) := by
  intro session
  rw [runRegion_apply]
  have started : (body (enter (session.inside block)).2).2.context.stack =
      [.atEnd block] ++ session.context.stack :=
    (bodies _).trans (enters (session.inside block))
  rcases outcome : body (enter (session.inside block)).2 with ⟨⟨records, failure⟩, done⟩
  rw [outcome] at started
  cases failure with
  | some error => exact stack_truncate started
  | none =>
      have ended := (keeps_attempt (leaves done) done).trans started
      rcases closed : attempt (leave done) done with ⟨result, last⟩
      rw [closed] at ended
      cases result with
      | ok _ =>
          rw [closeRegion_ok closed]
          exact stack_truncate ended
      | error error =>
          rw [closeRegion_error closed]
          exact stack_truncate ended

theorem runFunction_keeps_stack (label : Label) (name : String) (args : List String)
    (result : Option String) : Keeps SameStack (runFunction label name args result body) := by
  refine keeps_get_bind fun seen => ?_
  split
  · exact keeps_pure SameStack.chains _
  refine keeps_bind SameStack.chains
    (keeps_attempt (BuildM.beginFunction_keeps_stack name _)) fun begun => ?_
  split
  · exact keeps_pure SameStack.chains _
  refine keeps_bind SameStack.chains (runRegion_keeps_stack bodies _ ?_ ?_)
    fun _ => reportRegion_keeps_stack _ _ _
  · exact keeps_pure SameStack.chains ()
  · exact fun _ => BuildM.endFunction_keeps_stack _

theorem runLoop_keeps_stack (label : Label) (counter : Option String) (lower upper : IndexTerm)
    (spec : BuildM.LoopSpec) : Keeps SameStack (runLoop label counter lower upper spec body) := by
  refine keeps_get_bind fun seen => ?_
  dsimp only
  split
  · exact keeps_pure SameStack.chains _
  refine keeps_bind SameStack.chains
    (keeps_attempt (BuildM.beginLoop_keeps_stack _ _ spec)) fun begun => ?_
  split
  · exact keeps_pure SameStack.chains _
  refine keeps_bind SameStack.chains (runRegion_keeps_stack bodies _ ?_ ?_)
    fun _ => reportRegion_keeps_stack _ _ _
  · exact keeps_bind SameStack.chains (fun _ => rfl) fun _ => keeps_assign SameStack.chains _ _
  · exact fun _ => BuildM.keeps_stack_of_emits BuildM.emitYield_emits

theorem runConditional_keeps_stack (label : Label) (condition : Operand) :
    Keeps SameStack (runConditional label condition body) := by
  refine keeps_get_bind fun seen => ?_
  split
  · exact keeps_pure SameStack.chains _
  rename_i operand resolved
  refine keeps_bind SameStack.chains (keeps_attempt ?_) fun begun => ?_
  · exact SameStack.chains.bind (BuildM.stack_firm.steady.operand resolved) fun expr =>
      BuildM.beginConditional_keeps_stack expr
  split
  · exact keeps_pure SameStack.chains _
  refine keeps_bind SameStack.chains (runRegion_keeps_stack bodies _ ?_ ?_)
    fun _ => reportRegion_keeps_stack _ _ _
  · exact keeps_pure SameStack.chains ()
  · exact fun _ => BuildM.keeps_stack_of_emits BuildM.emitYield_emits

/-- A scope that starts with some insertion points pushed gives back the stack below them. -/
theorem runScoped_keeps_stack {enter : Context → Context}
    (pushes : ∀ context, ∃ pushed, (enter context).stack = pushed ++ context.stack) :
    Keeps SameStack (runScoped enter body) := by
  intro session
  obtain ⟨pushed, entered⟩ := pushes session.context
  have kept := bodies { session with context := enter session.context }
  exact stack_truncate (kept.trans entered)

theorem runWithPoint_keeps_stack (point : PointRef) :
    Keeps SameStack (runWithPoint point body) := by
  refine keeps_get_bind fun seen => ?_
  split
  · exact keeps_pure SameStack.chains _
  · exact runScoped_keeps_stack bodies fun _ => ⟨[_], rfl⟩

end Regions

/-! ## Statements and bodies -/

mutual

/-- A statement leaves the stack as it was. -/
theorem runStatement_keeps_stack : ∀ statement : Statement, statement.disciplined = true →
    Keeps SameStack (runStatement statement)
  | .command label command, disciplined => by
      have still : command.steers = false := by simpa [Statement.disciplined] using disciplined
      rw [runStatement]
      exact keeps_bind SameStack.chains (runCommand_keeps_stack label.name still)
        (keeps_record SameStack.chains)
  | .function label name args result body, disciplined => by
      have bodies := runBody_keeps_stack body (by simpa [Statement.disciplined] using disciplined)
      rw [runStatement]
      exact keeps_bind SameStack.chains (runFunction_keeps_stack bodies label name args result)
        (keeps_record SameStack.chains)
  | .loop label counter lower upper spec body, disciplined => by
      have bodies := runBody_keeps_stack body (by simpa [Statement.disciplined] using disciplined)
      rw [runStatement]
      exact keeps_bind SameStack.chains (runLoop_keeps_stack bodies label counter lower upper spec)
        (keeps_record SameStack.chains)
  | .conditional label condition body, disciplined => by
      have bodies := runBody_keeps_stack body (by simpa [Statement.disciplined] using disciplined)
      rw [runStatement]
      exact keeps_bind SameStack.chains (runConditional_keeps_stack bodies label condition)
        (keeps_record SameStack.chains)
  | .withPoint label point body, disciplined => by
      have bodies := runBody_keeps_stack body (by simpa [Statement.disciplined] using disciplined)
      rw [runStatement]
      exact keeps_bind SameStack.chains (runWithPoint_keeps_stack bodies point)
        (keeps_record SameStack.chains)
  | .scoped label body, disciplined => by
      have bodies := runBody_keeps_stack body (by simpa [Statement.disciplined] using disciplined)
      rw [runStatement]
      exact keeps_bind SameStack.chains (runScoped_keeps_stack bodies fun _ => ⟨[], rfl⟩)
        (keeps_record SameStack.chains)

/-- So does a body, also if a failure ends it. -/
theorem runBody_keeps_stack : ∀ statements : List Statement, allDisciplined statements = true →
    Keeps SameStack (runBody statements)
  | [], _ => keeps_pure SameStack.chains _
  | statement :: rest, disciplined => by
      simp only [allDisciplined, Bool.and_eq_true] at disciplined
      rw [runBody]
      refine keeps_bind SameStack.chains (runStatement_keeps_stack statement disciplined.1) ?_
      intro record
      dsimp only
      split
      · exact keeps_pure SameStack.chains _
      · exact keeps_bind SameStack.chains (runBody_keeps_stack rest disciplined.2) fun _ =>
          keeps_pure SameStack.chains _

end

/-- **The stack is restored.** From every session, a statement that handles the stack of insertion
points by scopes alone leaves it as it was, whether the statement succeeds or fails, and wherever
inside it a failure arises. -/
theorem statement_restores_stack {statement : Statement}
    (disciplined : statement.disciplined = true) (session : Session) :
    (runStatement statement session).2.context.stack = session.context.stack :=
  runStatement_keeps_stack statement disciplined session

/-- A function whose loop reduces over two axes; the bound of the second one is a variable of no
open loop, so that the reduction fails inside the loop of the first. -/
def tornNest : Statement :=
  .function ⟨some "f", false⟩ "f" [] none
    [.loop ⟨none, false⟩ (some "i") (.const 0) (.const 2) ⟨1, none, none, false⟩
      [.command ⟨some "k", false⟩ (.make (.axis (.const 0) (.const 3) "k")),
        .command ⟨some "n", false⟩ (.make (.axis (.const 0) (.const 3) "n")),
        .command ⟨some "m", false⟩ (.make (.axis (.const 0) (.var "n") "m")),
        .command ⟨some "c", false⟩ (.make (.constant (.int 1) .int32)),
        .command ⟨some "s", false⟩ (.make (.reduce .sum (.var "c") ["k", "m"])),
        .command ⟨none, false⟩ (.build "s")]]

theorem tornNest_restores_stack :
    (runStatement tornNest (.start (.start .deferred .empty #[]) .empty)).1.failure =
        some (.unboundLoopVar "n") ∧
      (runStatement tornNest (.start (.start .deferred .empty #[]) .empty)).2.context.stack =
        [.atEnd Module.body] :=
  ⟨by decide +kernel, statement_restores_stack rfl (.start (.start .deferred .empty #[]) .empty)⟩

end Session

end AffineKernel

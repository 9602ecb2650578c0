import AffineKernel.Proofs.Build.Constructors
import AffineKernel.Script.Session

/-!
# What commands do to a context

Most commands construct nodes or report on something; they run constructors and
touch the context in no other way. So a relation that constructors keep is kept
by these commands, too (`Session.runCommand_constructing`). The others either
build (`Command.builds`), which keeps a relation that building keeps
(`Session.runCommand_unsteered`), or move the insertion point
(`Command.steers`).
-/

set_option autoImplicit false

namespace AffineKernel

namespace Command

/-- Whether a command creates operations whatever the mode. -/
def builds : Command → Bool
  | .alloc .. | .allocTensor .. | .build .. | .buildValue .. | .buildAll .. => true
  | _ => false

/-- Whether a command handles the stack of insertion points itself. -/
def steers : Command → Bool
  | .savePoint .. | .restorePoint | .clearPoints | .truncatePoints .. => true
  | _ => false

end Command

namespace BuildM.Steady

variable {relates : Context → Context → Prop} (steady : Steady relates) {vars : Variables}
include steady

theorem operand {operand : Operand} {action : BuildM Expr}
    (resolved : vars.operand operand = .ok action) : Keeps relates action := by
  cases operand with
  | var name =>
      obtain ⟨expr, -, same⟩ := Except.bind_eq_ok resolved
      cases same
      exact steady.pure expr
  | int value =>
      cases resolved
      exact steady.constant _ _
  | float value =>
      cases resolved
      exact steady.constant _ _
  | single value =>
      cases resolved
      exact steady.constant _ _

/-- Whatever a recipe resolves to is a constructor. -/
theorem recipe {recipe : Recipe} {action : BuildM Expr}
    (resolved : recipe.plan vars = .ok action) : Keeps relates action := by
  cases recipe with
  | constant value dtype =>
      cases resolved
      exact steady.constant value dtype
  | axis lower upper name =>
      obtain ⟨low, -, resolved⟩ := Except.bind_eq_ok resolved
      obtain ⟨high, -, same⟩ := Except.bind_eq_ok resolved
      cases same
      exact steady.axis low high name
  | binary kind lhs rhs =>
      obtain ⟨left, leftMade, resolved⟩ := Except.bind_eq_ok resolved
      obtain ⟨right, rightMade, same⟩ := Except.bind_eq_ok resolved
      cases same
      refine steady.bind (steady.operand leftMade) fun lhs => ?_
      exact steady.bind (steady.operand rightMade) fun rhs => steady.binary kind lhs rhs
  | compare kind lhs rhs =>
      obtain ⟨left, leftMade, resolved⟩ := Except.bind_eq_ok resolved
      obtain ⟨right, rightMade, same⟩ := Except.bind_eq_ok resolved
      cases same
      refine steady.bind (steady.operand leftMade) fun lhs => ?_
      exact steady.bind (steady.operand rightMade) fun rhs => steady.compare kind lhs rhs
  | unary kind operand =>
      obtain ⟨made, operandMade, same⟩ := Except.bind_eq_ok resolved
      cases same
      exact steady.bind (steady.operand operandMade) fun operand => steady.unary kind operand
  | cast operand dtype =>
      obtain ⟨made, operandMade, same⟩ := Except.bind_eq_ok resolved
      cases same
      exact steady.cast (steady.operand operandMade) dtype
  | select condition thenValue elseValue =>
      obtain ⟨c, conditionMade, resolved⟩ := Except.bind_eq_ok resolved
      obtain ⟨t, thenMade, resolved⟩ := Except.bind_eq_ok resolved
      obtain ⟨e, elseMade, same⟩ := Except.bind_eq_ok resolved
      cases same
      refine steady.bind (steady.operand conditionMade) fun c => ?_
      refine steady.bind (steady.operand thenMade) fun t => ?_
      exact steady.bind (steady.operand elseMade) fun e => steady.select c t e
  | call callee args dtype =>
      obtain ⟨args, -, same⟩ := Except.bind_eq_ok resolved
      cases same
      exact steady.call callee args dtype
  | getBit value bit =>
      obtain ⟨v, valueMade, resolved⟩ := Except.bind_eq_ok resolved
      obtain ⟨b, bitMade, same⟩ := Except.bind_eq_ok resolved
      cases same
      refine steady.bind (steady.operand valueMade) fun v => ?_
      exact steady.bind (steady.operand bitMade) fun b => steady.getBit v b
  | bit load indices =>
      obtain ⟨source, -, resolved⟩ := Except.bind_eq_ok resolved
      obtain ⟨indices, -, same⟩ := Except.bind_eq_ok resolved
      cases same
      exact steady.bit source indices
  | reduce kind body axes =>
      obtain ⟨made, bodyMade, resolved⟩ := Except.bind_eq_ok resolved
      obtain ⟨axes, -, same⟩ := Except.bind_eq_ok resolved
      cases same
      exact steady.bind (steady.operand bodyMade) fun body => steady.reduce kind body axes
  | reduceInto kind body axes dtype =>
      obtain ⟨body, -, resolved⟩ := Except.bind_eq_ok resolved
      obtain ⟨axes, -, same⟩ := Except.bind_eq_ok resolved
      cases same
      exact steady.reduceInto kind body axes dtype
  | load tensor indices =>
      obtain ⟨tensor, -, resolved⟩ := Except.bind_eq_ok resolved
      obtain ⟨indices, -, same⟩ := Except.bind_eq_ok resolved
      cases same
      exact steady.load tensor indices
  | store value tensor indices =>
      obtain ⟨made, valueMade, resolved⟩ := Except.bind_eq_ok resolved
      obtain ⟨tensor, -, resolved⟩ := Except.bind_eq_ok resolved
      obtain ⟨indices, -, same⟩ := Except.bind_eq_ok resolved
      cases same
      exact steady.store (steady.operand valueMade) tensor indices
  | storeSlice value slice indices =>
      obtain ⟨made, valueMade, resolved⟩ := Except.bind_eq_ok resolved
      obtain ⟨slice, -, resolved⟩ := Except.bind_eq_ok resolved
      obtain ⟨indices, -, same⟩ := Except.bind_eq_ok resolved
      cases same
      exact steady.storeSlice (steady.operand valueMade) slice indices
  | scalar tensor =>
      obtain ⟨tensor, -, same⟩ := Except.bind_eq_ok resolved
      cases same
      exact steady.scalar tensor
  | setScalar value tensor =>
      obtain ⟨made, valueMade, resolved⟩ := Except.bind_eq_ok resolved
      obtain ⟨tensor, -, same⟩ := Except.bind_eq_ok resolved
      cases same
      exact steady.setScalar (steady.operand valueMade) tensor

end BuildM.Steady

namespace Session

variable {α β : Type} {relates : Context → Context → Prop}

/-- The context after a step of a session is related to the one before. -/
def Keeps (relates : Context → Context → Prop) (action : SessionM α) : Prop :=
  ∀ session : Session, relates session.context (action session).2.context

/-- Steps of a session, one after the other. -/
theorem bind_apply (action : SessionM β) (next : β → SessionM α) (session : Session) :
    (action >>= next) session = next (action session).1 (action session).2 := rfl

theorem get_bind_apply (next : Session → SessionM α) (session : Session) :
    ((get : SessionM Session) >>= next) session = next session session := rfl

/-- Running a build action. -/
theorem attempt_apply (action : BuildM α) (session : Session) :
    attempt action session =
      match action session.context with
      | .ok a context => (.ok a, { session with context := context })
      | .error error context => (.error error, { session with context := context }) := rfl

theorem keeps_attempt {action : BuildM α} (keeps : BuildM.Keeps relates action) :
    Keeps relates (attempt action) := by
  intro session
  have outcome := keeps session.context
  rw [BuildM.Ensures] at outcome
  rw [attempt_apply]
  cases run : action session.context with
  | ok a after =>
      rw [run] at outcome
      exact outcome
  | error error after =>
      rw [run] at outcome
      exact outcome

theorem keeps_get_bind {next : Session → SessionM α} (keeps : ∀ seen, Keeps relates (next seen)) :
    Keeps relates (get >>= next) := fun session => keeps session session

section Steps

variable (chains : BuildM.Chains relates)
include chains

theorem keeps_pure (a : α) : Keeps relates (pure a) := fun session => chains.refl session.context

theorem keeps_bind {action : SessionM β} {next : β → SessionM α} (first : Keeps relates action)
    (second : ∀ b, Keeps relates (next b)) : Keeps relates (action >>= next) := fun session =>
  chains.trans (first session) (second _ _)

theorem keeps_assign (name : Option String) (entity : Entity) :
    Keeps relates (assign name entity) := by
  cases name with
  | none => exact keeps_pure chains ()
  | some name => exact fun session => chains.refl session.context

theorem keeps_viewNode (expr : Expr) : Keeps relates (viewNode expr) := fun session =>
  chains.refl session.context

theorem keeps_reportExpr (name : Option String) (expr : Expr) :
    Keeps relates (reportExpr name expr) :=
  keeps_bind chains (keeps_assign chains _ _) fun _ =>
    keeps_bind chains (keeps_viewNode chains expr) fun _ => keeps_pure chains _

theorem keeps_reportTensor (name : Option String) (tensor : Tensor) :
    Keeps relates (reportTensor name tensor) :=
  keeps_bind chains (keeps_assign chains _ _) fun _ session => chains.refl session.context

theorem keeps_reportIndexed (name : Option String) (indexed : Indexed) :
    Keeps relates (reportIndexed name indexed) := by
  cases indexed with
  | load expr => exact keeps_reportExpr chains name expr
  | slice slice =>
      exact keeps_bind chains (keeps_assign chains _ _) fun _ => keeps_pure chains _

theorem keeps_inspect {plan : Variables → Resolved α} {report : α → SessionM Report}
    (reports : ∀ a, Keeps relates (report a)) : Keeps relates (inspect plan report) := by
  refine keeps_get_bind fun seen => ?_
  cases plan seen.vars with
  | error name => exact keeps_pure chains _
  | ok a => exact keeps_bind chains (reports a) fun _ => keeps_pure chains _

theorem keeps_perform {plan : Variables → Resolved (BuildM α)} {report : α → SessionM Report}
    (acts : ∀ vars action, plan vars = .ok action → BuildM.Keeps relates action)
    (reports : ∀ a, Keeps relates (report a)) : Keeps relates (perform plan report) := by
  refine keeps_get_bind fun seen => ?_
  cases resolved : plan seen.vars with
  | error name => exact keeps_pure chains _
  | ok action =>
      refine keeps_bind chains (keeps_attempt (acts seen.vars action resolved)) fun outcome => ?_
      cases outcome with
      | ok a => exact keeps_bind chains (reports a) fun _ => keeps_pure chains _
      | error error => exact keeps_pure chains _

theorem keeps_record (outcome : Outcome) : Keeps relates (record outcome) := fun session =>
  chains.refl session.context

end Steps

theorem keeps_extractMap (steady : BuildM.Steady relates) (exprs : List Expr) :
    Keeps relates (extractMap exprs) := by
  intro session
  simp only [extractMap, bind, StateT.bind, get, getThe, MonadStateOf.get, StateT.get, pure]
  cases Extraction.access exprs session.refs with
  | ok map refs => exact steady.log session.context _
  | error error refs => exact steady.refl session.context

/-- A command that neither builds nor steers keeps what constructors keep. -/
theorem runCommand_constructing (steady : BuildM.Steady relates) (name : Option String)
    {command : Command} (passive : command.builds = false) (still : command.steers = false) :
    Keeps relates (runCommand name command) := by
  have chains := steady.toChains
  cases command with
  | make recipe =>
      exact keeps_perform chains (fun _ _ resolved => steady.recipe resolved)
        (keeps_reportExpr chains name)
  | placeholder tensor shape dtype =>
      refine keeps_perform chains (fun _ _ resolved => ?_) (keeps_reportTensor chains name)
      cases resolved
      exact steady.placeholder tensor shape dtype
  | describeTensor tensor =>
      exact keeps_inspect chains fun _ session => chains.refl session.context
  | sameTensor first second => exact keeps_inspect chains fun _ => keeps_pure chains _
  | index indices tensor =>
      refine keeps_perform chains (fun _ _ resolved => ?_) (keeps_reportIndexed chains name)
      obtain ⟨args, -, resolved⟩ := Except.bind_eq_ok resolved
      obtain ⟨target, -, same⟩ := Except.bind_eq_ok resolved
      cases same
      exact steady.index target args
  | indexSlice indices slice =>
      refine keeps_perform chains (fun _ _ resolved => ?_) (keeps_reportIndexed chains name)
      obtain ⟨args, -, resolved⟩ := Except.bind_eq_ok resolved
      obtain ⟨target, -, same⟩ := Except.bind_eq_ok resolved
      cases same
      exact steady.indexSlice target args
  | promote lhs rhs kind =>
      refine keeps_perform chains (fun _ _ resolved => ?_) fun pair session =>
        chains.refl session.context
      obtain ⟨left, -, resolved⟩ := Except.bind_eq_ok resolved
      obtain ⟨right, -, same⟩ := Except.bind_eq_ok resolved
      cases same
      cases kind with
      | none => exact steady.promote left right
      | some kind => exact steady.promoteBits kind left right
  | currentPoint =>
      refine keeps_perform chains (fun _ _ resolved => ?_) fun _ => keeps_pure chains _
      cases resolved
      refine BuildM.Keeps.get_bind fun context => ?_
      split
      · exact steady.pure _
      · exact steady.throw _
  | describe expr => exact keeps_inspect chains fun _ session => chains.refl session.context
  | describeContext => exact fun session => chains.refl session.context
  | tree expr => exact keeps_inspect chains fun _ => keeps_pure chains _
  | extractMap exprs =>
      refine keeps_get_bind fun seen => ?_
      split
      · exact keeps_pure chains _
      · exact keeps_extractMap steady _
  | extract expr =>
      refine keeps_get_bind fun seen => ?_
      split
      · exact keeps_pure chains _
      · exact fun session => chains.refl session.context
  | clearExtraction => exact fun session => chains.refl session.context
  | query query =>
      refine keeps_get_bind fun seen => ?_
      split
      · exact keeps_pure chains _
      · exact keeps_bind chains (fun session => steady.log session.context _) fun _ =>
          keeps_pure chains _
  | alloc | allocTensor | build | buildValue | buildAll => cases passive
  | savePoint | restorePoint | clearPoints | truncatePoints => cases still

/-- A command that does not steer keeps what building keeps. -/
theorem runCommand_unsteered (firm : BuildM.Firm relates) (name : Option String)
    {command : Command} (still : command.steers = false) :
    Keeps relates (runCommand name command) := by
  have chains := firm.toChains
  cases building : command.builds with
  | false => exact runCommand_constructing firm.steady name building still
  | true =>
      cases command with
      | alloc tensor shape dtype =>
          refine keeps_perform chains (fun _ _ resolved => ?_) (keeps_reportTensor chains name)
          cases resolved
          exact firm.alloc tensor shape dtype
      | allocTensor tensor =>
          refine keeps_perform chains (fun _ _ resolved => ?_) fun _ => keeps_pure chains _
          obtain ⟨target, -, same⟩ := Except.bind_eq_ok resolved
          cases same
          exact firm.allocTensor target
      | build expr =>
          refine keeps_perform chains (fun _ _ resolved => ?_) fun _ => keeps_pure chains _
          obtain ⟨target, -, same⟩ := Except.bind_eq_ok resolved
          cases same
          exact firm.build target
      | buildValue expr =>
          refine keeps_perform chains (fun _ _ resolved => ?_) fun _ => keeps_pure chains _
          obtain ⟨target, -, same⟩ := Except.bind_eq_ok resolved
          cases same
          exact firm.buildValue target
      | buildAll exprs =>
          refine keeps_perform chains (fun _ _ resolved => ?_) fun _ => keeps_pure chains _
          obtain ⟨targets, -, same⟩ := Except.bind_eq_ok resolved
          cases same
          exact firm.buildAll targets
      | _ => cases building

/-! ## Builds -/

variable {session : Session}

/-- A build of a known node that does not fail. -/
theorem runCommand_build_ok {name : Option String} {target : String} {expr : Expr}
    (found : session.vars.expr target = .ok expr)
    (clean : (runCommand name (.build target) session).1.2 = none) :
    ∃ binding last, attempt (BuildM.build expr) session = (.ok binding, last) ∧
      (runCommand name (.build target) session).2 = last := by
  have resolved : (do return BuildM.build (← session.vars.expr target) :
      Resolved (BuildM Binding)) = .ok (BuildM.build expr) := by
    rw [found]
    rfl
  rw [runCommand, perform, get_bind_apply, resolved] at clean ⊢
  dsimp only at clean ⊢
  rw [bind_apply] at clean ⊢
  rcases ran : attempt (BuildM.build expr) session with ⟨result, last⟩
  rw [ran] at clean
  cases result with
  | ok binding => exact ⟨binding, last, rfl, rfl⟩
  | error error => cases clean

/-- A build of an unknown node does nothing. -/
theorem runCommand_build_error {name : Option String} {target missing : String}
    (found : session.vars.expr target = .error missing) :
    (runCommand name (.build target) session).2 = session := by
  have resolved : (do return BuildM.build (← session.vars.expr target) :
      Resolved (BuildM Binding)) = .error missing := by
    rw [found]
    rfl
  rw [runCommand, perform, get_bind_apply, resolved]
  rfl

end Session

end AffineKernel
